import EvmFlow.Proofs.Exploration
import EvmFlow.Proofs.StackRefinement

/-!
# Runs of a program on its explored graph

A run of a program is followed on the graph by a walk through nodes that cover those of the run.
An exit that was not folded takes the walk along. A fold takes it along when the node to which it
leads covers the node behind the exit. The search for a loop does not ask for this: it looks at
the condition under which the loop is gone round again, and not at what other exits of the loop
read off the stack. So `exists_walk_or_lost` has two outcomes. Either a walk matches the
whole run, segment by segment, or it comes to a fold of the exit that the run takes next, and no
edge there leads to a node that covers the one behind the exit. The second outcome shows in the
statistics (`Lost.folded_pos`), so on a graph without folds every run is matched
(`IsRun.matched_of_unfolded`).
-/

namespace EvmFlow

/-- A run along exits of a program, from the start, through nodes that have not failed. -/
structure Program.IsRun (p : Program) (gs : List Node) : Prop where
  head : gs.head? = some .initial
  chain : gs.IsChain fun g h => h ∈ p.successors g
  running : ∀ g ∈ gs, g.isFailed = false

instance (p : Program) (gs : List Node) : Decidable (p.IsRun gs) :=
  decidable_of_iff
    (gs.head? = some .initial ∧ gs.IsChain (fun g h => h ∈ p.successors g) ∧
      ∀ g ∈ gs, g.isFailed = false)
    ⟨fun ⟨head, chain, running⟩ => ⟨head, chain, running⟩,
      fun run => ⟨run.head, run.chain, run.running⟩⟩

/-- A run without its last step. -/
theorem Program.IsRun.init {p : Program} {gs : List Node} {g h : Node}
    (run : p.IsRun (gs ++ [g] ++ [h])) : p.IsRun (gs ++ [g]) ∧ h ∈ p.successors g := by
  obtain ⟨chain, _, last⟩ := List.isChain_append.mp run.chain
  refine ⟨⟨?_, chain, ?_⟩, ?_⟩
  · rw [← run.head]
    simp
  · intro k hk
    exact run.running k (List.mem_append_left _ hk)
  · exact last g (by simp) h (by simp)

namespace Program

variable (p : Program) (depth : Nat)

/-- A walk on the graph matches a run segment by segment, and its last node covers the last node of
the run. -/
def Matched (gs : List Node) (g : Node) : Prop :=
  ∃ qs q, (p.flowGraph depth false).graph.IsWalk (qs ++ [q]) ∧ q.Covers g ∧
    (qs ++ [q]).map Node.segment? = (gs ++ [g]).map Node.segment?

/-- A walk on the graph matches the beginning of a run up to a fold of the exit that the run takes
next, and no edge there leads to a node that covers the one behind the exit. -/
def Lost (gs : List Node) : Prop :=
  ∃ m ∈ p.moves depth, m.isFold = true ∧
    (∀ t, (p.flowGraph depth false).graph.Edge m.source t → ¬ t.Covers m.node) ∧
    ∃ qs fs g h, fs ++ [g] ++ [h] <+: gs ∧ m.source.Covers g ∧ m.node.Covers h ∧
      (p.flowGraph depth false).graph.IsWalk (qs ++ [m.source]) ∧
      (qs ++ [m.source]).map Node.segment? = (fs ++ [g]).map Node.segment?

variable {p depth} {gs : List Node} {g h : Node}

theorem Lost.snoc (lost : p.Lost depth gs) : p.Lost depth (gs ++ [h]) := by
  obtain ⟨m, hm, fold, uncovered, qs, fs, k, l, front, rest⟩ := lost
  exact ⟨m, hm, fold, uncovered, qs, fs, k, l, front.trans (List.prefix_append gs [h]), rest⟩

theorem matched_initial : p.Matched depth [] .initial := by
  have first := (p.lawful_log depth).first
  rw [Log.nodes, found_log] at first
  exact ⟨[], .initial, ⟨first.symm, List.isChain_singleton _⟩, .refl rfl, rfl⟩

/-- One step of a run: the walk that matches it goes on, or the step is lost. -/
theorem Matched.step (uncut : (p.flowGraph depth false).stats.maxDepthReached = false)
    (matched : p.Matched depth gs g) (exit : h ∈ p.successors g) (running : h.isFailed = false) :
    p.Matched depth (gs ++ [g]) h ∨ p.Lost depth (gs ++ [g] ++ [h]) := by
  obtain ⟨qs, q, walk, covers, segments⟩ := matched
  have hq := walk.mem_states (List.mem_append_right qs (List.mem_singleton_self q))
  obtain ⟨e, he⟩ := List.getElem?_of_mem exit
  obtain ⟨h', exit', covers'⟩ := covers.successors p he running
  obtain ⟨m, hm, rfl, rfl⟩ := p.exists_move depth uncut hq (List.mem_of_getElem? exit')
  by_cases along : ∃ t, (p.flowGraph depth false).graph.Edge m.source t ∧ t.Covers m.node
  · obtain ⟨t, edge, further⟩ := along
    have onward := further.trans covers'
    refine .inl ⟨qs ++ [m.source], t, walk.snoc edge, onward, ?_⟩
    rw [List.map_append, segments]
    simp [onward.segment_eq]
  · refine .inr ⟨m, hm, ?_, fun t edge further => along ⟨t, edge, further⟩, qs, gs, g, h,
      List.prefix_refl _, covers, covers', walk, segments⟩
    -- An edge that was not folded leads to the node behind the exit, which covers itself.
    by_contra unfolded
    have target := Move.target_of_not_isFold (by simpa using unfolded)
    refine along ⟨m.target, ?_, ?_⟩
    · rw [← found_log]
      exact (p.lawful_log depth).edge_iff.mpr ⟨m, hm, rfl, rfl⟩
    · rw [target]
      exact .refl covers'.running

/-- Every step of a run keeps the walk or loses it, and a lost run stays lost. -/
theorem IsRun.matched_or_lost (uncut : (p.flowGraph depth false).stats.maxDepthReached = false)
    (run : p.IsRun (gs ++ [g])) : p.Matched depth gs g ∨ p.Lost depth (gs ++ [g]) := by
  induction gs using List.reverseRecOn generalizing g with
  | nil =>
      obtain rfl : g = .initial := by simpa using run.head
      exact .inl matched_initial
  | append_singleton gs k ih =>
      obtain ⟨before, exit⟩ := run.init
      rcases ih before with matched | lost
      · exact matched.step uncut exit (run.running g (by simp))
      · exact .inr lost.snoc

/-- Where a run is lost, a fold was counted. -/
theorem Lost.folded_pos (lost : p.Lost depth gs) : 0 < (p.flowGraph depth false).stats.folded := by
  obtain ⟨m, hm, fold, -⟩ := lost
  have folds := (p.lawful_log depth).folds
  rw [found_log] at folds
  rw [folds]
  exact List.countP_pos_iff.mpr ⟨m, hm, fold⟩

/-- When nothing was folded, every run is matched. -/
theorem IsRun.matched_of_unfolded
    (uncut : (p.flowGraph depth false).stats.maxDepthReached = false)
    (unfolded : (p.flowGraph depth false).stats.folded = 0) (run : p.IsRun (gs ++ [g])) :
    p.Matched depth gs g := by
  refine (run.matched_or_lost uncut).resolve_right fun lost => ?_
  exact Nat.ne_of_gt lost.folded_pos unfolded

/-- Every run is matched by a walk on the graph, segment by segment, unless a walk that matches its
beginning comes to a fold of the exit that the run takes next, where no edge leads to a node that
covers the one behind the exit. -/
theorem exists_walk_or_lost (p : Program) (depth : Nat)
    (uncut : (p.flowGraph depth false).stats.maxDepthReached = false)
    {gs : List Node} (run : p.IsRun gs) :
    (∃ qs, (p.flowGraph depth false).graph.IsWalk qs ∧
        qs.map Node.segment? = gs.map Node.segment?) ∨
      p.Lost depth gs := by
  rcases List.eq_nil_or_concat gs with rfl | ⟨gs, g, rfl⟩
  · exact absurd run.head (by simp)
  · rw [List.concat_eq_append] at run ⊢
    rcases run.matched_or_lost uncut with ⟨qs, q, walk, _, segments⟩ | lost
    · exact .inl ⟨qs ++ [q], walk, segments⟩
    · exact .inr lost

/-- A run three times round a loop that counts, on a graph in which the second round is folded into
the first. The node of the first round covers that of the second, so a walk matches the run. -/
theorem exists_walk_or_lost_of_counter :
    let p := ofCode "60025b6001013460025700".toList
    let gs : List Node :=
      [.initial, .at 1 [.known 2], .at 1 [.blank], .at 1 [.blank], .at 2 [.blank]]
    (p.flowGraph 20 false).stats.maxDepthReached = false ∧
      (p.flowGraph 20 false).stats.folded = 1 ∧ p.IsRun gs ∧
      ∃ qs, (p.flowGraph 20 false).graph.IsWalk qs ∧
        qs.map Node.segment? = gs.map Node.segment? := by
  intro p gs
  have uncut : (p.flowGraph 20 false).stats.maxDepthReached = false := by decide +kernel
  have run : p.IsRun gs := by decide +kernel
  refine ⟨uncut, by decide +kernel, run, ?_⟩
  refine (exists_walk_or_lost p 20 uncut run).resolve_right ?_
  rintro ⟨m, hm, fold, uncovered, -⟩
  have folds : ∀ m ∈ p.moves 20, m.isFold = true →
      m.node = .at 1 [.blank] ∧ (p.flowGraph 20 false).graph.Edge m.source (.at 1 [.known 2]) := by
    decide +kernel
  obtain ⟨node, edge⟩ := folds m hm fold
  refine uncovered _ edge ?_
  rw [node]
  refine ⟨rfl, Nat.le_refl 1, ?_⟩
  intro k v known
  cases k <;> simp [Cell.blank] at known

/-- A loop that swaps two addresses and then jumps to the one on top. The second round is folded
into the first, and segment 4, where a run arrives after two rounds, is not in the graph. -/
theorem run_lost_through_swap :
    let p := ofCode "600b600d5b9034600457565b005b00".toList
    let gs : List Node :=
      [.initial, .at 1 [.known 13, .known 11], .at 1 [.known 11, .known 13],
        .at 2 [.known 13, .known 11], .at 4 [.known 11]]
    (p.flowGraph 20 false).stats.maxDepthReached = false ∧ p.IsRun gs ∧
      ¬ ∃ qs, (p.flowGraph 20 false).graph.IsWalk qs ∧
        qs.map Node.segment? = gs.map Node.segment? := by
  refine ⟨by decide +kernel, by decide +kernel, ?_⟩
  rintro ⟨qs, walk, segments⟩
  have absent : ∀ q ∈ ((ofCode "600b600d5b9034600457565b005b00".toList).flowGraph 20
      false).graph.states, q.segment? ≠ some 4 := by decide +kernel
  have visited : some 4 ∈ qs.map Node.segment? := by
    rw [segments]
    decide
  obtain ⟨q, hq, segment⟩ := List.mem_map.mp visited
  exact absent q (walk.mem_states hq) segment

end Program

end EvmFlow
