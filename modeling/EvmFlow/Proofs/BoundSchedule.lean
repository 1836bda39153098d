import EvmFlow.Proofs.BoundRounds
import EvmFlow.Proofs.RequestedGraph
import Mathlib.Logic.Function.Iterate

/-!
# Recomputing only what can have changed

The rounds that find the stack sizes take two short cuts. They look only at nodes of which a
successor has grown, and they compute a bound from the one that the segment has by itself and its
effect, not from its instructions. `recomputed` is one round without short cuts: all nodes at once,
through all instructions.

The second short cut is exact for every segment (`IsCut.operandsFrom_eq`). The first is exact in
every round: nodes that are left alone have the bounds that they would be given. So a round is a
round without short cuts (`Counted.updateBounds_eq`), and so is any number of them. When no node is
left to look at, the bounds are a fixpoint, and rounds that are not made would change nothing.

No round makes a bound smaller. For arbitrary bounds this is false, but the bounds that rounds come
to tell of walks up to a length (`Round.counted`), and a longer walk needs no fewer operands.
-/

namespace EvmFlow

/-- What is needed so that `post` operands are left is enough for the instructions themselves, and
pays for the change of the stack size, and it is the least such size. -/
theorem Instruction.operandsNeeded_le_iff {post : Nat} {is : List Instruction} {n : Int} :
    (operandsNeeded post is : Int) ≤ n ↔
      (operandsNeeded 0 is : Int) ≤ n ∧ (post : Int) ≤ n + effectAll is := by
  induction is generalizing n with
  | nil =>
      rw [operandsNeeded, operandsNeeded, effectAll]
      omega
  | cons i rest ih =>
      have first : ∀ m : Nat, (i.op.operandsNeeded m : Int) ≤ n ↔
          (i.op.minOperands : Int) ≤ n ∧ (m : Int) ≤ n + i.effect := by
        intro m
        rw [Opcode.operandsNeeded, effect, Opcode.effect]
        omega
      rw [operandsNeeded, operandsNeeded, effectAll, first, first, ih, and_assoc, Int.add_assoc]

/-- The nested maxima over a list of instructions come down to one, of what the list needs by itself
and of what its effect leaves to be paid. -/
theorem Instruction.operandsNeeded_eq_max (post : Nat) (is : List Instruction) :
    (operandsNeeded post is : Int) = max (operandsNeeded 0 is : Int) (post - effectAll is) := by
  apply eq_of_forall_ge_iff
  intro n
  rw [operandsNeeded_le_iff, max_le_iff]
  omega

/-- The bound that a segment has by itself and its effect determine all other bounds. -/
theorem Segment.IsCut.operandsFrom_eq {s : Segment} (cut : s.IsCut) (post : Nat) :
    s.operandsFrom post (s.operandsNeeded 0) = s.operandsNeeded post := by
  apply Int.ofNat_inj.mp
  apply eq_of_forall_ge_iff
  intro n
  rw [operandsFrom_le_iff, cut.effect_eq]
  exact Instruction.operandsNeeded_le_iff.symm

/-- Through any list of instructions, the bound for `k` operands left is the larger of the bound for
none and of `k` less the effect of the list. So for a segment of a program the bound that is
computed from the one for none and the effect that is kept with the segment is the bound through all
of its instructions. -/
theorem Program.operandsFrom_exact (code : List Char) :
    (∀ (is : List Instruction) (k : Nat), (Instruction.operandsNeeded k is : Int) =
        max (Instruction.operandsNeeded 0 is : Int) (k - Instruction.effectAll is)) ∧
      ∀ s ∈ (ofCode code).segments, ∀ k,
        s.operandsFrom k (s.operandsNeeded 0) = s.operandsNeeded k := by
  constructor
  · intro is k
    exact Instruction.operandsNeeded_eq_max k is
  · intro s mem k
    exact ((wellFormed_ofCode code).cut s mem).operandsFrom_eq k

/-- A segment that drops three operands, copies one and jumps to it looks seven deep and leaves
three operands fewer. -/
theorem Program.operandsFrom_exact_of_shrinking :
    let s := (ofCode "5b5050508356".toList).segments.getD 0 default
    s ∈ (ofCode "5b5050508356".toList).segments ∧ s.effect = -3 ∧ s.operandsNeeded 0 = 7 ∧
      s.operandsFrom 4 7 = s.operandsNeeded 4 ∧ s.operandsFrom 6 7 = s.operandsNeeded 6 ∧
      s.operandsNeeded 6 = 9 := by
  intro s
  have mem : s ∈ (ofCode "5b5050508356".toList).segments := by decide +kernel
  have need : s.operandsNeeded 0 = 7 := by decide +kernel
  have fast := (operandsFrom_exact "5b5050508356".toList).2 s mem
  rw [need] at fast
  refine ⟨mem, by decide +kernel, need, fast 4, fast 6, ?_⟩
  rw [← fast]
  decide +kernel

namespace Program

variable {p : Program} {graph : Automaton Node} {i r : Nat} {scheduled current v : List Nat}

/-- The bounds of all nodes from given bounds of their successors. -/
def recomputed (p : Program) (graph : Automaton Node) (v : List Nat) : List Nat :=
  (List.range graph.size).map fun i =>
    ((p.segmentOfNode? graph i).map fun s =>
      s.operandsNeeded (largest ((graph.succOf i).map fun j => v.getD j 0))).getD 0

theorem length_recomputed : (p.recomputed graph v).length = graph.size := by
  simp [recomputed]

theorem getD_recomputed (wf : p.WellFormed) (has : p.HasGraph graph) (inside : i < graph.size) :
    (p.recomputed graph v).getD i 0 = p.updatedBound graph (p.localBounds graph) v i := by
  obtain ⟨s, mem, found⟩ := has.segment i inside
  have need : p.needAt graph i = s.operandsNeeded 0 := by simp [needAt, found]
  rw [updatedBound, found, getD_localBounds inside, need]
  show _ = s.operandsFrom _ (s.operandsNeeded 0)
  rw [(wf.cut s mem).operandsFrom_eq]
  simp [recomputed, List.getD_eq_getElem?_getD, List.getElem?_range inside, found]

/-! ### Rounds -/

/-- A round changes the bounds to what recomputing all of them gives. -/
theorem Counted.updateBounds_eq (wf : p.WellFormed) (has : p.HasGraph graph)
    (counted : p.Counted graph r scheduled current) :
    (p.updateBounds graph (p.localBounds graph) current scheduled).1 =
      p.recomputed graph current := by
  apply eq_of_getD (counted.step wf has).length length_recomputed
  intro i inside
  rw [getD_updateBounds (counted.length ▸ inside), getD_recomputed wf has inside]
  split
  · rfl
  · rename_i unscheduled
    exact counted.getD_eq_updatedBound wf has inside unscheduled

theorem Counted.recomputed_eq (wf : p.WellFormed) (has : p.HasGraph graph)
    (counted : p.Counted graph r [] current) : p.recomputed graph current = current := by
  apply eq_of_getD length_recomputed counted.length
  intro i inside
  rw [getD_recomputed wf has inside]
  exact (counted.getD_eq_updatedBound wf has inside List.not_mem_nil).symm

theorem Counted.fixBounds_eq (wf : p.WellFormed) (has : p.HasGraph graph)
    (counted : p.Counted graph r scheduled current) (rounds : Nat) :
    let reached := (p.recomputed graph)^[rounds] current
    p.fixBounds graph (p.localBounds graph) rounds scheduled current = .inl reached ∧
        p.recomputed graph reached = reached ∨
      p.fixBounds graph (p.localBounds graph) rounds scheduled current = .inr reached := by
  induction rounds generalizing r scheduled current with
  | zero =>
      rw [fixBounds]
      split
      · rename_i done
        rw [List.isEmpty_iff.mp done] at counted
        exact .inl ⟨rfl, counted.recomputed_eq wf has⟩
      · exact .inr rfl
  | succ rounds ih =>
      rw [fixBounds]
      split
      · rename_i done
        rw [List.isEmpty_iff.mp done] at counted
        have fixed := counted.recomputed_eq wf has
        rw [Function.iterate_fixed fixed]
        exact .inl ⟨rfl, fixed⟩
      · rw [Function.iterate_succ_apply, ← counted.updateBounds_eq wf has]
        exact ih (counted.step wf has)

/-! ### No round faults -/

/-- A loop that goes on after each of its entries runs to its end. -/
theorem forIn_eq_ok {α ε : Type} {xs : List α} {f : α → PUnit → Except ε (ForInStep PUnit)}
    (goesOn : ∀ x ∈ xs, f x ⟨⟩ = .ok (.yield ⟨⟩)) : forIn xs PUnit.unit f = .ok ⟨⟩ := by
  induction xs with
  | nil => rfl
  | cons x xs ih =>
      obtain ⟨first, others⟩ := List.forall_mem_cons.mp goesOn
      rw [List.forIn_cons, first]
      exact ih others

theorem elementAt_eq_ok {α : Type} {xs : List α} {x : α} (found : xs[i]? = some x) :
    elementAt xs i = .ok x := by
  rw [elementAt, found]

theorem HasGraph.exists_segment (has : p.HasGraph graph) (inside : i < graph.size) :
    ∃ g k s, elementAt graph.states i = .ok g ∧ g.segmentOf = .ok k ∧ p.segment k = .ok s := by
  obtain ⟨s, -, found⟩ := has.segment i inside
  obtain ⟨k, hk, hs⟩ := Option.bind_eq_some_iff.mp found
  obtain ⟨g, hg, hk⟩ := Option.bind_eq_some_iff.mp hk
  refine ⟨g, k, s, elementAt_eq_ok hg, ?_, elementAt_eq_ok hs⟩
  cases g with
  | «at» k stack =>
      cases hk
      rfl
  | failed m => cases hk

/-- Every scheduled node has a segment, and there are bounds for it and for its successors. -/
theorem HasGraph.checkBounds_eq (has : p.HasGraph graph) (length : current.length = graph.size)
    (scheduled : List Nat) :
    p.checkBounds graph (p.localBounds graph) current scheduled = .ok () := by
  have listed : ∀ {v : List Nat} {j}, v.length = graph.size → j < graph.size →
      ∃ x, elementAt v j = .ok x := by
    intro v j length inside
    exact ⟨_, elementAt_eq_ok (List.getElem?_eq_getElem (length ▸ inside))⟩
  rw [checkBounds, forIn_eq_ok]
  · rfl
  intro i hi
  have inside : i < graph.size := length ▸ List.mem_range.mp hi
  split
  · obtain ⟨g, k, s, node, segment, found⟩ := has.exists_segment inside
    obtain ⟨own, ownBound⟩ := listed (v := p.localBounds graph) (by simp [localBounds]) inside
    have successors : (forIn (graph.succOf i) PUnit.unit fun j _ => do
        let _ ← elementAt current j
        pure (ForInStep.yield PUnit.unit)) = Except.ok PUnit.unit := by
      apply forIn_eq_ok
      intro j edge
      obtain ⟨x, bound⟩ := listed length (has.mirrored.succ_lt edge)
      rw [bound]
      rfl
    simp only [bind, Except.bind] at successors ⊢
    simp only [node, segment, found, successors, ownBound]
    rfl
  · rfl

theorem HasGraph.updateBounds?_eq (has : p.HasGraph graph) (length : current.length = graph.size)
    (scheduled : List Nat) :
    p.updateBounds? graph (p.localBounds graph) current scheduled =
      .ok (p.updateBounds graph (p.localBounds graph) current scheduled) := by
  rw [updateBounds?, has.checkBounds_eq length]
  rfl

theorem HasGraph.fixBounds?_eq (has : p.HasGraph graph) (length : current.length = graph.size)
    (rounds : Nat) (scheduled : List Nat) :
    p.fixBounds? graph (p.localBounds graph) rounds scheduled current =
      .ok (p.fixBounds graph (p.localBounds graph) rounds scheduled current) := by
  induction rounds generalizing scheduled current with
  | zero => rfl
  | succ rounds ih =>
      rw [fixBounds?, fixBounds]
      split
      · rfl
      · rw [has.updateBounds?_eq length]
        exact ih (by simpa [updateBounds] using length) _

/-- Rounds that look only at nodes of which a successor has grown lose nothing. However many there
are, they do not fault and reach the bounds that recomputing all nodes as many times reaches, and
they are left with nothing to look at only if these bounds are a fixpoint. -/
theorem fixBounds_eq_iterate (code : List Char) {graph : Automaton Node}
    (mirrored : graph.Mirrored) (running : hasNoFailure graph = true)
    (bounded : ∀ g ∈ graph.states, g.bounded (ofCode code).segments.length = true) (rounds : Nat) :
    let p := ofCode code
    let base := p.localBounds graph
    let reached := (p.recomputed graph)^[rounds] base
    p.fixBounds? graph base rounds (List.range graph.size) base =
        .ok (p.fixBounds graph base rounds (List.range graph.size) base) ∧
      (p.fixBounds graph base rounds (List.range graph.size) base = .inl reached ∧
          p.recomputed graph reached = reached ∨
        p.fixBounds graph base rounds (List.range graph.size) base = .inr reached) := by
  have wf := wellFormed_ofCode code
  have has := hasGraph_of_bounded mirrored running bounded
  constructor
  · exact has.fixBounds?_eq counted_localBounds.length rounds _
  · exact counted_localBounds.fixBounds_eq wf has rounds

/-- A loop that takes one operand and leaves two, with a way out to a segment that takes three. The
second round looks at the loop only, and the third has nothing to look at. -/
theorem fixBounds_eq_iterate_of_loop :
    let p := ofCode "5b5034343460005750505000".toList
    let graph := (Automaton.empty.addEdge (.at 0 []) (.at 1 [])).addEdge (.at 0 []) (.at 0 [])
    let base := p.localBounds graph
    graph.Mirrored ∧ hasNoFailure graph = true ∧
      (∀ g ∈ graph.states, g.bounded p.segments.length = true) ∧ base = [1, 3] ∧
      (p.updateBounds graph base base [0, 1]).2 = [0] ∧
      p.fixBounds graph base 3 [0, 1] base = .inl [2, 3] ∧
      (p.recomputed graph)^[3] base = [2, 3] ∧ p.recomputed graph [2, 3] = [2, 3] := by
  intro p graph base
  have built : graph.Built := .addEdge (.addEdge .empty _ _) _ _
  have running : hasNoFailure graph = true := by decide +kernel
  have bounded : ∀ g ∈ graph.states, g.bounded p.segments.length = true := by decide +kernel
  have reached : p.fixBounds graph base 3 [0, 1] base = .inl [2, 3] := by decide +kernel
  refine ⟨built.mirrored, running, bounded, by decide +kernel, by decide +kernel, reached, ?_⟩
  obtain ⟨-, ⟨left, fixed⟩ | right⟩ := fixBounds_eq_iterate _ built.mirrored running bounded 3
  · obtain same := Sum.inl.inj (reached.symm.trans left)
    rw [← same] at fixed
    exact ⟨same.symm, fixed⟩
  · cases reached.symm.trans right

/-! ### Bounds only grow -/

/-- Round `k` of the search for the bounds of a graph looks at the scheduled nodes and starts from
the current bounds. -/
inductive Round (p : Program) (graph : Automaton Node) : Nat → List Nat → List Nat → Prop where
  | first (busy : List.range graph.size ≠ []) :
      p.Round graph 0 (List.range graph.size) (p.localBounds graph)
  | next {k : Nat} {scheduled current updated next : List Nat}
      (round : p.Round graph k scheduled current)
      (made : p.updateBounds? graph (p.localBounds graph) current scheduled = .ok (updated, next))
      (busy : next ≠ []) : p.Round graph (k + 1) next updated

variable {k : Nat}

theorem Round.busy (round : p.Round graph k scheduled current) : scheduled ≠ [] := by
  cases round <;> assumption

/-- With `k` rounds more, the search comes to round `k` and goes on from there. -/
theorem Round.fixBounds?_eq (round : p.Round graph k scheduled current) (rounds : Nat) :
    p.fixBounds? graph (p.localBounds graph) (k + rounds) (List.range graph.size)
        (p.localBounds graph) =
      p.fixBounds? graph (p.localBounds graph) rounds scheduled current := by
  induction round generalizing rounds with
  | first => rw [Nat.zero_add]
  | @next k scheduled current updated next round made busy ih =>
      rw [Nat.add_right_comm, Nat.add_assoc, ih, fixBounds?, made,
        if_neg (mt List.isEmpty_iff.mp round.busy)]
      rfl

theorem Round.counted (wf : p.WellFormed) (has : p.HasGraph graph)
    (round : p.Round graph k scheduled current) : p.Counted graph k scheduled current := by
  induction round with
  | first => exact counted_localBounds
  | next round made busy counted =>
      rw [has.updateBounds?_eq counted.length] at made
      have step := counted.step wf has
      rwa [Except.ok.inj made] at step

/-- A longer walk needs no fewer operands. -/
theorem Counted.le_updateBounds (wf : p.WellFormed) (has : p.HasGraph graph)
    (counted : p.Counted graph r scheduled current) (inside : i < graph.size) :
    current.getD i 0 ≤
      (p.updateBounds graph (p.localBounds graph) current scheduled).1.getD i 0 := by
  have longer := ((counted.step wf has).exact i inside _).mp (Int.le_refl _)
  refine Int.ofNat_le.mp ((counted.exact i inside _).mpr fun rest short chain => ?_)
  exact longer rest (Nat.le_succ_of_le short) chain

/-- What is left to look at are all predecessors of the nodes that have grown. -/
theorem mem_updateBounds_iff (back : graph.reverse.Mirrored) (length : current.length = graph.size)
    {j : Nat} :
    j ∈ (p.updateBounds graph (p.localBounds graph) current scheduled).2 ↔
      ∃ i < graph.size, current.getD i 0 <
          (p.updateBounds graph (p.localBounds graph) current scheduled).1.getD i 0 ∧
        j ∈ graph.predOf i := by
  rw [updateBounds, List.mem_filter, List.any_eq_true]
  constructor
  · rintro ⟨-, i, grown, edge⟩
    obtain ⟨inside, grown⟩ := List.mem_filter.mp grown
    exact ⟨i, length ▸ List.mem_range.mp inside, of_decide_eq_true grown, of_decide_eq_true edge⟩
  · rintro ⟨i, inside, grown, edge⟩
    refine ⟨List.mem_range.mpr (back.succ_lt edge), i, ?_, decide_eq_true edge⟩
    exact List.mem_filter.mpr ⟨List.mem_range.mpr (length ▸ inside), decide_eq_true grown⟩

/-- No round of the search for the bounds of a graph faults or makes a bound smaller, and the nodes
that it leaves to look at are the predecessors of those whose bound it has made larger. -/
theorem round_grows (code : List Char) {graph : Automaton Node} (mirrored : graph.Mirrored)
    (back : graph.reverse.Mirrored) (running : hasNoFailure graph = true)
    (bounded : ∀ g ∈ graph.states, g.bounded (ofCode code).segments.length = true)
    {k : Nat} {scheduled current : List Nat}
    (round : (ofCode code).Round graph k scheduled current) :
    let p := ofCode code
    let base := p.localBounds graph
    (∀ rounds, p.fixBounds? graph base (k + rounds) (List.range graph.size) base =
        p.fixBounds? graph base rounds scheduled current) ∧
      ∃ updated next, p.updateBounds? graph base current scheduled = .ok (updated, next) ∧
        current.length = graph.size ∧ updated.length = graph.size ∧
        (∀ i < graph.size, current.getD i 0 ≤ updated.getD i 0) ∧
        ∀ j, j ∈ next ↔
          ∃ i < graph.size, current.getD i 0 < updated.getD i 0 ∧ j ∈ graph.predOf i := by
  have wf := wellFormed_ofCode code
  have has := hasGraph_of_bounded mirrored running bounded
  have counted := round.counted wf has
  refine ⟨round.fixBounds?_eq, _, _, has.updateBounds?_eq counted.length scheduled,
    counted.length, (counted.step wf has).length, ?_, ?_⟩
  · intro i inside
    exact counted.le_updateBounds wf has inside
  · intro j
    exact mem_updateBounds_iff back counted.length

/-- A chain of three nodes, of which the last takes three operands. The first round makes the bound
of the middle node larger, and the second that of the first node. -/
theorem round_grows_of_chain :
    let p := ofCode "5b5b5b50505000".toList
    let graph := Automaton.ofRequests [.edge (.at 0 []) (.at 1 []), .edge (.at 1 []) (.at 2 [])]
    graph.Mirrored ∧ graph.reverse.Mirrored ∧ hasNoFailure graph = true ∧
      (∀ g ∈ graph.states, g.bounded p.segments.length = true) ∧
      p.localBounds graph = [0, 0, 3] ∧ p.Round graph 1 [0] [0, 3, 3] ∧
      ∃ updated next, p.updateBounds? graph [0, 0, 3] [0, 3, 3] [0] = .ok (updated, next) ∧
        (∀ i < 3, [0, 3, 3].getD i 0 ≤ updated.getD i 0) ∧
        ∀ j, j ∈ next ↔
          ∃ i < 3, [0, 3, 3].getD i 0 < updated.getD i 0 ∧ j ∈ graph.predOf i := by
  intro p graph
  obtain ⟨mirrored, back⟩ : graph.Mirrored ∧ graph.reverse.Mirrored :=
    (Automaton.holds_ofRequests _).mirrored
  have running : hasNoFailure graph = true := by decide +kernel
  have bounded : ∀ g ∈ graph.states, g.bounded p.segments.length = true := by decide +kernel
  have base : p.localBounds graph = [0, 0, 3] := by decide +kernel
  have round : p.Round graph 1 [0] [0, 3, 3] :=
    .next (.first (by decide +kernel)) (by decide +kernel) (by decide)
  obtain ⟨-, updated, next, made, -, -, grows, left⟩ :=
    round_grows _ mirrored back running bounded round
  exact ⟨mirrored, back, running, bounded, base, round, updated, next, base ▸ made, grows, left⟩

end Program

end EvmFlow
