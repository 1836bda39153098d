import EvmFlow.FlowGraph.Dot
import EvmFlow.Proofs.EdgeSoundness
import EvmFlow.Proofs.ReachableNodes

/-!
# The exits of a node and its edges

A graph does not store which exit an edge stands for. When it is drawn, an edge is labelled by its
position among the edges of its source, taken for the number of an exit. This is right because an
exploration follows the exits of a node in order (`numbered_moves`) and adds their edges as it goes,
and because there are at most two. Two exits may share an edge, and it is kept once, as that of the
first; with two exits this moves no other edge out of its place.

So the label of every edge describes the exit that it was added for. What may be missing is an edge
for the jump of a `JUMPI` that leads where its other exit leads already (`exits_drawn`).
-/

namespace EvmFlow

/-! ### Moves out of a node -/

namespace Move

variable {ms : List Move} {m : Move}

/-- The moves out of a node, in their order. -/
def outOf (ms : List Move) (g : Node) : List Move := ms.filter (·.source = g)

theorem outOf_append (ms ns : List Move) (g : Node) :
    outOf (ms ++ ns) g = outOf ms g ++ outOf ns g :=
  List.filter_append ms ns

theorem outOf_singleton (m : Move) (g : Node) :
    outOf [m] g = if m.source = g then [m] else [] := by
  by_cases same : m.source = g <;> simp [outOf, same]

/-- The moves of a list take the exits in order. -/
def Numbered (ms : List Move) : Prop := ms.map Move.exit = List.range ms.length

theorem Numbered.snoc (numbered : Numbered ms) (next : m.exit = ms.length) :
    Numbered (ms ++ [m]) := by
  have before : ms.map Move.exit = List.range ms.length := numbered
  show (ms ++ [m]).map Move.exit = List.range (ms ++ [m]).length
  rw [List.map_append, before, List.length_append, List.length_singleton, List.range_succ, ← next]
  rfl

theorem Numbered.exit_eq (numbered : Numbered ms) {e : Nat} (move : ms[e]? = some m) :
    m.exit = e := by
  have exit : (ms.map Move.exit)[e]? = some m.exit := by rw [List.getElem?_map, move]; rfl
  have inside := (List.getElem?_eq_some_iff.mp move).1
  rw [numbered, List.getElem?_range inside] at exit
  exact (Option.some.inj exit).symm

/-- The move for an exit is found at its number. -/
theorem Numbered.find?_exit (numbered : Numbered ms) (e : Nat) :
    (ms.find? fun m => m.exit = e) = ms[e]? := by
  cases move : ms[e]? with
  | some m =>
      obtain ⟨inside, rfl⟩ := List.getElem?_eq_some_iff.mp move
      apply List.find?_eq_some_iff_getElem.mpr
      refine ⟨by simpa using numbered.exit_eq move, e, inside, rfl, fun k before => ?_⟩
      have earlier := numbered.exit_eq (List.getElem?_eq_getElem (Nat.lt_trans before inside))
      simp only [earlier, Bool.not_eq_true', decide_eq_false_iff_not]
      omega
  | none =>
      apply List.find?_eq_none.mpr
      intro m mem same
      obtain ⟨k, found⟩ := List.getElem?_of_mem mem
      have number := numbered.exit_eq found
      rw [decide_eq_true_eq, number] at same
      rw [same, move] at found
      cases found

/-- The edge of a legal move leads to the node behind the exit, or to a node of its segment, unless
the move was folded after a candidate had been given up. -/
theorem Legal.target_cases {p : Program} (legal : m.Legal p) :
    m.target = m.node ∨ m.node.SameSegment m.target ∨ ∃ i r k, m.Shifted p i r k := by
  cases fate : m.fate with
  | failed | seen | entered => exact .inl (by simp [target, fate])
  | folded k =>
      obtain same | ⟨i, r, shifted⟩ := legal.fold_cases fate
      · exact .inr (.inl same)
      · exact .inr (.inr ⟨i, r, k, shifted⟩)

end Move

theorem Log.Lawful.source_mem {p : Program} {l : Log} {m : Move} (lawful : l.Lawful p)
    (hm : m ∈ l.moves) : m.source ∈ l.nodes :=
  (lawful.edge_iff.mpr ⟨m, hm, rfl, rfl⟩).source_mem lawful.wellFormed

/-! ### Exits are followed in order -/

/-- The state of an exploration under way, with the moves out of every node in the order of its
exits. The last node of the path had not been left when it was entered. -/
structure InOrder (p : Program) (path : Path) (l : Log) (done : List Node) (l' : Log) : Prop where
  progress : Progress p path l done l'
  unleft : Move.outOf l.moves path.last = []
  numbered : l'.isCut = false → ∀ g, Move.Numbered (Move.outOf l'.moves g)

namespace InOrder

variable {p : Program} {path : Path} {l l' l'' : Log} {done : List Node} {m : Move}

/-- The moves out of the last node of the path are those for the exits that are done. -/
theorem length_outOf (inOrder : InOrder p path l done l') (uncut : l'.isCut = false) :
    (Move.outOf l'.moves path.last).length = done.length := by
  obtain ⟨ms, moves, followed⟩ := inOrder.progress.moves
  have here := (followed uncut).2 path.last
  rw [if_pos rfl] at here
  rw [moves, Move.outOf_append, inOrder.unleft, List.nil_append, ← here]
  exact (List.length_map _).symm

theorem numbered_add (next : m.Next p l'.found done) (inOrder : InOrder p m.path l done l')
    (uncut : l'.isCut = false) (g : Node) : Move.Numbered (Move.outOf (l'.add m).moves g) := by
  have before := inOrder.numbered uncut g
  show Move.Numbered (Move.outOf (l'.moves ++ [m]) g)
  rw [Move.outOf_append, Move.outOf_singleton]
  by_cases source : m.source = g
  · subst source
    rw [if_pos rfl]
    apply before.snoc
    rw [next.exit]
    exact (inOrder.length_outOf uncut).symm
  · rw [if_neg source, List.append_nil]
    exact before

theorem stay (next : m.Next p l'.found done) (inOrder : InOrder p m.path l done l')
    (stays : m.fate ≠ .entered) : InOrder p m.path l (done ++ [m.node]) (l'.add m) := by
  refine ⟨inOrder.progress.stay next stays, inOrder.unleft, fun uncut => ?_⟩
  rw [Log.isCut_add] at uncut
  exact inOrder.numbered_add next uncut

theorem enter (next : m.Next p l'.found done) (inOrder : InOrder p m.path l done l')
    (entered : m.fate = .entered) : InOrder p m.after (l'.add m) [] (l'.add m) := by
  have progress := inOrder.progress
  refine ⟨progress.enter next entered, ?_, fun uncut => ?_⟩
  · -- Moves start at nodes that had been found, and the node that is entered is new.
    obtain ⟨-, fresh, -⟩ := next.of_entered entered
    rw [Move.last_after]
    apply List.filter_eq_nil_iff.mpr
    intro m' hm' source
    apply fresh
    rw [← of_decide_eq_true source]
    obtain old | new := List.mem_append.mp hm'
    · exact progress.lawful.source_mem old
    · rw [List.mem_singleton.mp new]
      exact progress.source_mem
  · rw [Log.isCut_add] at uncut
    exact inOrder.numbered_add next uncut

theorem leave (next : m.Next p l'.found done) (inOrder : InOrder p m.path l done l')
    (entered : m.fate = .entered)
    (inner : l'' = (l'.add m).cut ∨ InOrder p m.after (l'.add m) (p.successors m.node) l'') :
    InOrder p m.path l (done ++ [m.node]) l'' := by
  have progress := inOrder.progress.leave next entered (inner.imp_right InOrder.progress)
  refine ⟨progress, inOrder.unleft, fun uncut => ?_⟩
  obtain rfl | inner := inner
  · cases uncut
  · exact inner.numbered uncut

theorem invariant : p.Invariant (InOrder p) := ⟨stay, enter, leave⟩

end InOrder

namespace Program

variable {p : Program} {depth n k e : Nat} {g : Node}

theorem numbered_moves (uncut : (p.flowGraph depth false).stats.maxDepthReached = false)
    (g : Node) : Move.Numbered (Move.outOf (p.moves depth) g) := by
  rw [← found_log] at uncut
  have start : InOrder p .start .start [] .start :=
    ⟨.initial, rfl, fun _ _ => rfl⟩
  obtain cut | inOrder := InOrder.invariant.explore depth start
  · rw [log, cut] at uncut
    cases uncut
  · exact inOrder.numbered uncut g

/-- Of at most two entries none goes, unless the second repeats the first. -/
theorem eraseDups_of_length_le_two {ts : List Node} (short : ts.length ≤ 2) :
    ts.eraseDups = if ts.length = 2 ∧ ts[0]? = ts[1]? then ts.take 1 else ts := by
  match ts, short with
  | [], _ => rfl
  | [_], _ => rfl
  | [a, b], _ =>
      by_cases same : b = a
      · simp [List.eraseDups_cons, same]
      · simp [List.eraseDups_cons, same, Ne.symm same]

theorem getElem?_of_eraseDups {ts : List Node} (short : ts.length ≤ 2) {t : Node}
    (entry : ts.eraseDups[e]? = some t) : ts[e]? = some t := by
  rw [eraseDups_of_length_le_two short] at entry
  split at entry
  · rw [List.getElem?_take] at entry
    split at entry
    · exact entry
    · cases entry
  · exact entry

/-- The node to which the edge added for an exit of a node leads. -/
def edgeOfExit? (p : Program) (depth : Nat) (g : Node) (exit : Nat) : Option Node :=
  ((p.moves depth).find? fun m => m.source = g ∧ m.exit = exit).map Move.target

theorem wellFormed_flowGraph (p : Program) (depth : Nat) :
    (p.flowGraph depth false).graph.WellFormed := by
  rw [← found_log]
  exact (p.lawful_log depth).wellFormed

theorem targets_eq_eraseDups (p : Program) (depth : Nat) (g : Node) :
    (p.flowGraph depth false).graph.targets g =
      ((Move.outOf (p.moves depth) g).map Move.target).eraseDups := by
  rw [← found_log]
  exact (p.lawful_log depth).targets g

section Uncut

variable (uncut : (p.flowGraph depth false).stats.maxDepthReached = false)
include uncut

theorem edgeOfExit?_eq (g : Node) (e : Nat) :
    p.edgeOfExit? depth g e = ((Move.outOf (p.moves depth) g).map Move.target)[e]? := by
  rw [List.getElem?_map, ← (numbered_moves uncut g).find?_exit, Move.outOf, List.find?_filter]
  simp only [edgeOfExit?, decide_eq_true_eq]

theorem length_outOf_moves (hg : g ∈ (p.flowGraph depth false).graph.states) :
    (Move.outOf (p.moves depth) g).length = (p.successors g).length := by
  rw [← p.followed_moves depth uncut hg]
  exact (List.length_map _).symm

/-- Every exit of a node has a move, and that move added its edge. -/
theorem exists_move_of_exit (hg : g ∈ (p.flowGraph depth false).graph.states)
    (exit : e < (p.successors g).length) :
    ∃ m ∈ p.moves depth, m.source = g ∧ m.exit = e ∧ (p.successors g)[e]? = some m.node ∧
      p.edgeOfExit? depth g e = some m.target := by
  rw [← length_outOf_moves uncut hg] at exit
  have move := List.getElem?_eq_getElem exit
  obtain ⟨mem, source⟩ := List.mem_filter.mp (List.getElem_mem exit)
  refine ⟨_, mem, of_decide_eq_true source, (numbered_moves uncut g).exit_eq move, ?_, ?_⟩
  · rw [← p.followed_moves depth uncut hg]
    show ((Move.outOf (p.moves depth) g).map Move.node)[e]? = _
    rw [List.getElem?_map, move]
    rfl
  · rw [edgeOfExit?_eq uncut, List.getElem?_map, move]
    rfl

/-- The edge at a position of the row of a node is that of the exit with this number. -/
theorem edge_of_entry (hn : (p.flowGraph depth false).graph.states[n]? = some g)
    (short : (p.successors g).length ≤ 2)
    (entry : ((p.flowGraph depth false).graph.succOf n)[e]? = some k) :
    ∃ t, (p.flowGraph depth false).graph.states[k]? = some t ∧
      p.edgeOfExit? depth g e = some t ∧ e < (p.successors g).length := by
  have wf := p.wellFormed_flowGraph depth
  have known := List.getElem?_eq_getElem (wf.succ_lt (List.mem_of_getElem? entry))
  have target := wf.getElem?_targets hn e
  rw [entry, Option.bind_some, known, targets_eq_eraseDups] at target
  have count := length_outOf_moves uncut (List.mem_of_getElem? hn)
  rw [← count, ← List.length_map Move.target] at short
  have place := getElem?_of_eraseDups short target
  refine ⟨_, known, (edgeOfExit?_eq uncut g e).trans place, ?_⟩
  rw [← count, ← List.length_map Move.target]
  exact (List.getElem?_eq_some_iff.mp place).1

/-- A row has an entry for every exit, unless the edges of two exits are one. -/
theorem length_succOf (hn : (p.flowGraph depth false).graph.states[n]? = some g)
    (short : (p.successors g).length ≤ 2) :
    ((p.flowGraph depth false).graph.succOf n).length =
      if (p.successors g).length = 2 ∧ p.edgeOfExit? depth g 0 = p.edgeOfExit? depth g 1 then 1
      else (p.successors g).length := by
  have wf := p.wellFormed_flowGraph depth
  have count := length_outOf_moves uncut (List.mem_of_getElem? hn)
  rw [← List.length_map Move.target] at count
  have merged := eraseDups_of_length_le_two (count.trans_le short)
  rw [← wf.length_targets hn, targets_eq_eraseDups, merged, edgeOfExit?_eq uncut,
    edgeOfExit?_eq uncut, count]
  split
  · rename_i shared
    rw [List.length_take, count, shared.1]
    rfl
  · exact count

end Uncut

end Program

/-! ### Labels -/

namespace Segment

variable {s : Segment} {e : Nat}

theorem exits_le_two (s : Segment) : s.exits ≤ 2 := by
  cases kind : s.kind <;> simp [exits, kind]

theorem exits_eq_two : s.exits = 2 ↔ s.kind = .jumpi := by
  cases kind : s.kind <;> simp [exits, kind]

/-- The jump at the end of a segment is its last exit. -/
theorem jumpsBy_iff_last (exit : e < s.exits) :
    s.jumpsBy e = true ↔ s.isJump = true ∧ e + 1 = s.exits := by
  cases kind : s.kind <;> simp [exits, kind] at exit <;>
    simp [isJump, jumpsBy, exits, kind, exit]

end Segment

namespace Program

variable {p : Program} {depth n i : Nat} {s : Segment} {stack : List Cell}

/-- An edge is labelled by whether its exit is the jump at the end of the segment. -/
theorem edgeLabel_eq (found : p.segments[i]? = some s) {e : Nat} (exit : e < s.exits) :
    p.edgeLabel (.at i stack) e =
      if s.jumpsBy e then " [tooltip=\"Jump\",style=dashed]" else " [tooltip=\"Next\"]" := by
  simp only [edgeLabel, found, Option.getD_some, if_pos exit, ← Segment.jumpsBy_iff_last exit]
  split <;> rfl

/-- In an exploration that was not cut off, every exit of a node has an edge: to the node behind the
exit, or to another node of its segment, unless it was folded after a candidate had been given up.
The edges out of the node are these, in the order of the exits, each labelled for its exit. All of
them are there, but for the jump of a `JUMPI` when it shares the edge of the other exit. -/
theorem exits_drawn (code : List Char) (nonempty : code ≠ []) (depth : Nat)
    (uncut : ((ofCode code).flowGraph depth false).stats.maxDepthReached = false)
    {n i : Nat} {stack : List Cell}
    (node : ((ofCode code).flowGraph depth false).graph.states[n]? = some (.at i stack)) :
    let p := ofCode code
    let graph := (p.flowGraph depth false).graph
    let edge := p.edgeOfExit? depth (.at i stack)
    ∃ s, p.segments[i]? = some s ∧
      (∀ e < s.exits, ∃ h t, (p.successors (.at i stack))[e]? = some h ∧ edge e = some t ∧
        (t = h ∨ h.SameSegment t ∨ ∃ m ∈ p.moves depth,
          m.source = .at i stack ∧ m.exit = e ∧ ∃ j r k, m.Shifted p j r k)) ∧
      (∀ e k, (graph.succOf n)[e]? = some k →
        ∃ t, graph.states[k]? = some t ∧ edge e = some t ∧ p.edgeLabel (.at i stack) e =
          if s.jumpsBy e then " [tooltip=\"Jump\",style=dashed]" else " [tooltip=\"Next\"]") ∧
      (graph.succOf n).length = if s.kind = .jumpi ∧ edge 0 = edge 1 then 1 else s.exits := by
  intro p graph edge
  have lawful := p.lawful_log depth
  have hg : .at i stack ∈ graph.states := List.mem_of_getElem? node
  have bounded := (lawful.reachable _ (by rwa [Log.nodes, found_log])).bounded
    (segments_ofCode_pos nonempty)
  have inside : i < p.segments.length := by simpa [Node.bounded] using bounded
  have found : p.segments[i]? = some p.segments[i] := List.getElem?_eq_getElem inside
  have exits : (p.successors (.at i stack)).length = p.segments[i].exits := by
    simp [successors, found]
  have short : (p.successors (.at i stack)).length ≤ 2 := exits ▸ Segment.exits_le_two _
  refine ⟨p.segments[i], found, fun e exit => ?_, fun e k entry => ?_, ?_⟩
  · obtain ⟨m, mem, source, number, behind, added⟩ :=
      exists_move_of_exit uncut hg (exits.symm ▸ exit)
    refine ⟨m.node, m.target, behind, added, ?_⟩
    obtain same | home | shifted := (lawful.legal m mem).target_cases
    · exact .inl same
    · exact .inr (.inl home)
    · exact .inr (.inr ⟨m, mem, source, number, shifted⟩)
  · obtain ⟨t, target, added, exit⟩ := edge_of_entry uncut node short entry
    exact ⟨t, target, added, edgeLabel_eq found (exits ▸ exit)⟩
  · have row := length_succOf (p := p) uncut node short
    simpa only [exits, Segment.exits_eq_two] using row

/-- A loop that counts. Its jump is folded back to the first round and drawn as the second edge. -/
theorem exits_drawn_of_counter :
    let p := ofCode "60025b6001013460025700".toList
    let graph := (p.flowGraph 20 false).graph
    (p.flowGraph 20 false).stats.maxDepthReached = false ∧
      graph.states[1]? = some (.at 1 [.known 2]) ∧ graph.succOf 1 = [2, 1] ∧
      p.edgeOfExit? 20 (.at 1 [.known 2]) 1 = some (.at 1 [.known 2]) ∧
      p.edgeLabel (.at 1 [.known 2]) 1 = " [tooltip=\"Jump\",style=dashed]" := by
  intro p graph
  have uncut : (p.flowGraph 20 false).stats.maxDepthReached = false := by decide +kernel
  have node : graph.states[1]? = some (.at 1 [.known 2]) := by decide +kernel
  have row : graph.succOf 1 = [2, 1] := by decide +kernel
  obtain ⟨s, found, -, entries, -⟩ := exits_drawn _ (by decide) 20 uncut node
  obtain ⟨t, target, added, label⟩ := entries 1 1 (by rw [row]; rfl)
  obtain rfl : .at 1 [.known 2] = t := Option.some.inj (node.symm.trans target)
  obtain ⟨s', found', jump⟩ : ∃ s, p.segments[1]? = some s ∧ s.jumpsBy 1 = true :=
    (Option.any_eq_true (Segment.jumpsBy · 1) _).mp (by decide +kernel)
  obtain rfl : s' = s := Option.some.inj (found'.symm.trans found)
  exact ⟨uncut, node, row, added, label.trans (if_pos jump)⟩

/-- A `JUMPI` to the next instruction. Both exits lead to one node, and one edge is drawn. -/
theorem edge_shared_by_exits :
    let p := ofCode "346004575b00".toList
    let graph := (p.flowGraph 10 false).graph
    (p.flowGraph 10 false).stats.maxDepthReached = false ∧
      ¬ ∀ n i stack s, graph.states[n]? = some (.at i stack) → p.segments[i]? = some s →
        (graph.succOf n).length = s.exits := by
  intro p graph
  refine ⟨by decide +kernel, fun all => ?_⟩
  have count := all 0 0 [] (p.segments.getD 0 default) (by decide +kernel) (by decide +kernel)
  exact absurd count (by decide +kernel)

end Program

end EvmFlow
