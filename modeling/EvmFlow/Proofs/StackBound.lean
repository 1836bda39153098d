import EvmFlow.FlowGraph.StackBound
import EvmFlow.Proofs.Automaton
import EvmFlow.Proofs.Layout

/-!
# Least stack sizes

A size is safe at a node of a graph if no walk from the node underflows. A node is safe with a size
exactly when the size is enough for its segment, and what the segment leaves is safe at every
successor. The bound of a node is the same rule applied to bounds. So all rounds stay below the
safe sizes, and a round that schedules nothing has found bounds that are safe: it has looked again
at every node of which a successor has grown.
-/

namespace EvmFlow

/-- What is needed so that `post` operands are left pays for the change of the stack size. -/
theorem Instruction.le_operandsNeeded_add (post : Nat) (is : List Instruction) :
    (post : Int) ≤ operandsNeeded post is + effectAll is := by
  induction is with
  | nil => simp [operandsNeeded, effectAll]
  | cons i rest ih =>
      simp only [operandsNeeded, Opcode.operandsNeeded, effectAll, effect, Opcode.effect]
      omega

/-- The bound of a segment as a condition on sizes. -/
theorem Segment.operandsFrom_le_iff {s : Segment} {post needed : Nat} {n : Int} :
    (s.operandsFrom post needed : Int) ≤ n ↔ (needed : Int) ≤ n ∧ (post : Int) ≤ n + s.effect := by
  rw [operandsFrom]
  split <;> omega

namespace Program

variable {p : Program} {graph : Automaton Node} {i : Nat} {n : Int}
variable {current scheduled v : List Nat}

theorem largest_le_iff {xs : List Nat} :
    (largest xs : Int) ≤ n ↔ 0 ≤ n ∧ ∀ x ∈ xs, (x : Int) ≤ n := by
  induction xs with
  | nil => simp [largest]
  | cons x xs ih =>
      rw [largest, List.forall_mem_cons, and_left_comm, ← ih]
      omega

/-! ### Walks that do not underflow -/

/-- Operands that the segment of a node needs. -/
def needAt (p : Program) (graph : Automaton Node) (i : Nat) : Nat :=
  ((p.segmentOfNode? graph i).map fun s => s.operandsNeeded 0).getD 0

/-- The change of the stack size at a node. -/
def effectAt (p : Program) (graph : Automaton Node) (i : Nat) : Int :=
  ((p.segmentOfNode? graph i).map Segment.effect).getD 0

/-- Entered with `n` operands, every node of a walk finds those that its segment needs. -/
def Sustains (p : Program) (graph : Automaton Node) : Int → List Nat → Prop
  | _, [] => True
  | n, i :: rest => (p.needAt graph i : Int) ≤ n ∧ p.Sustains graph (n + p.effectAt graph i) rest

/-- No walk from a node that is entered with `n` operands underflows. -/
def Safe (p : Program) (graph : Automaton Node) (i : Nat) (n : Int) : Prop :=
  ∀ rest, (i :: rest).IsChain (fun j k => k ∈ graph.succOf j) → p.Sustains graph n (i :: rest)

theorem Safe.needAt_le (safe : p.Safe graph i n) : (p.needAt graph i : Int) ≤ n :=
  (safe [] (List.isChain_singleton i)).1

theorem Safe.succ (safe : p.Safe graph i n) {j : Nat} (edge : j ∈ graph.succOf i) :
    p.Safe graph j (n + p.effectAt graph i) :=
  fun rest chain => (safe (j :: rest) (List.isChain_cons_cons.mpr ⟨edge, chain⟩)).2

/-! ### One round -/

/-- A graph on segments of a program, whose edges can be followed back. -/
structure HasGraph (p : Program) (graph : Automaton Node) : Prop where
  mirrored : graph.Mirrored
  segment : ∀ i < graph.size, ∃ s ∈ p.segments, p.segmentOfNode? graph i = some s

theorem getD_localBounds (inside : i < graph.size) :
    (p.localBounds graph).getD i 0 = p.needAt graph i := by
  simp [localBounds, needAt, List.getD_eq_getElem?_getD, List.getElem?_range inside]

/-- The bound of a node is enough for its segment and leaves enough for all successors, and it is
the least such size. -/
theorem updatedBound_le_iff (wf : p.WellFormed) (has : p.HasGraph graph) (inside : i < graph.size) :
    (p.updatedBound graph (p.localBounds graph) current i : Int) ≤ n ↔
      (p.needAt graph i : Int) ≤ n ∧
        ∀ j ∈ graph.succOf i, (current.getD j 0 : Int) ≤ n + p.effectAt graph i := by
  obtain ⟨s, mem, found⟩ := has.segment i inside
  have paid := Instruction.le_operandsNeeded_add 0 s.instructions
  rw [← (wf.cut s mem).effect_eq] at paid
  have need : p.needAt graph i = s.operandsNeeded 0 := by simp [needAt, found]
  have effect : p.effectAt graph i = s.effect := by simp [effectAt, found]
  rw [updatedBound, found, getD_localBounds inside, need, effect, Segment.operandsFrom_le_iff,
    largest_le_iff, List.forall_mem_map]
  refine and_congr_right fun enough => ⟨fun h => h.2, fun h => ⟨?_, h⟩⟩
  -- A segment that has what it needs does not leave a negative number of operands.
  change (Instruction.operandsNeeded 0 s.instructions : Int) ≤ n at enough
  omega

/-- What every round keeps: nodes that are not scheduled have bounds that are enough for their
successors, and no bound is larger than a safe size. -/
structure Settled (p : Program) (graph : Automaton Node) (scheduled current : List Nat) :
    Prop where
  length : current.length = graph.size
  enough : ∀ i < graph.size, i ∉ scheduled →
    p.updatedBound graph (p.localBounds graph) current i ≤ current.getD i 0
  least : ∀ i < graph.size, ∀ n, p.Safe graph i n → (current.getD i 0 : Int) ≤ n

theorem settled_localBounds :
    p.Settled graph (List.range graph.size) (p.localBounds graph) := by
  refine ⟨by simp [localBounds], fun i inside unscheduled => ?_, fun i inside n safe => ?_⟩
  · exact absurd (List.mem_range.mpr inside) unscheduled
  · rw [getD_localBounds inside]
    exact safe.needAt_le

/-- A value for every node makes a list. -/
theorem eq_of_getD {u v : List Nat} (length : u.length = graph.size)
    (length' : v.length = graph.size) (same : ∀ i < graph.size, u.getD i 0 = v.getD i 0) :
    u = v := by
  apply List.ext_getElem (length.trans length'.symm)
  intro i inU inV
  simpa [List.getD_eq_getElem?_getD, inU, inV] using same i (length ▸ inU)

theorem getD_updateBounds (inside : i < current.length) :
    (p.updateBounds graph (p.localBounds graph) current scheduled).1.getD i 0 =
      if i ∈ scheduled then p.updatedBound graph (p.localBounds graph) current i
      else current.getD i 0 := by
  simp [updateBounds, List.getD_eq_getElem?_getD, List.getElem?_mapIdx,
    List.getElem?_eq_getElem inside]

/-- A node that is not scheduled next has no successor that has grown. -/
theorem getD_updateBounds_le (has : p.HasGraph graph) (settled : p.Settled graph scheduled current)
    (inside : i < graph.size)
    (unscheduled : i ∉ (p.updateBounds graph (p.localBounds graph) current scheduled).2)
    {j : Nat} (edge : j ∈ graph.succOf i) :
    (p.updateBounds graph (p.localBounds graph) current scheduled).1.getD j 0 ≤
      current.getD j 0 := by
  by_contra grown
  apply unscheduled
  have target : j < current.length := settled.length ▸ has.mirrored.succ_lt edge
  refine List.mem_filter.mpr ⟨List.mem_range.mpr inside, List.any_eq_true.mpr ⟨j, ?_, ?_⟩⟩
  · exact List.mem_filter.mpr ⟨List.mem_range.mpr target, decide_eq_true (Nat.lt_of_not_le grown)⟩
  · simpa using has.mirrored.mem_predOf edge

theorem Settled.step (wf : p.WellFormed) (has : p.HasGraph graph)
    (settled : p.Settled graph scheduled current) :
    p.Settled graph (p.updateBounds graph (p.localBounds graph) current scheduled).2
      (p.updateBounds graph (p.localBounds graph) current scheduled).1 := by
  refine ⟨?_, fun i inside unscheduled => ?_, fun i inside n safe => ?_⟩
  · simpa [updateBounds] using settled.length
  · -- The successors have not grown, so the old bounds of the successors ask for at least as much.
    have old : p.updatedBound graph (p.localBounds graph) current i ≤
        (p.updateBounds graph (p.localBounds graph) current scheduled).1.getD i 0 := by
      rw [getD_updateBounds (settled.length ▸ inside)]
      split
      · exact Nat.le_refl _
      · rename_i same
        exact settled.enough i inside same
    obtain ⟨need, succ⟩ := (updatedBound_le_iff wf has inside).mp (Int.ofNat_le.mpr old)
    refine Int.ofNat_le.mp ((updatedBound_le_iff wf has inside).mpr ⟨need, fun j edge => ?_⟩)
    have shrunk := getD_updateBounds_le has settled inside unscheduled edge
    exact Int.le_trans (Int.ofNat_le.mpr shrunk) (succ j edge)
  · rw [getD_updateBounds (settled.length ▸ inside)]
    split
    · refine (updatedBound_le_iff wf has inside).mpr ⟨safe.needAt_le, fun j edge => ?_⟩
      exact settled.least j (has.mirrored.succ_lt edge) _ (safe.succ edge)
    · exact settled.least i inside n safe

theorem Settled.fixBounds (wf : p.WellFormed) (has : p.HasGraph graph) {rounds : Nat}
    (settled : p.Settled graph scheduled current)
    (fixed : p.fixBounds graph (p.localBounds graph) rounds scheduled current = .inl v) :
    p.Settled graph [] v := by
  induction rounds generalizing scheduled current with
  | zero =>
      rw [Program.fixBounds] at fixed
      split at fixed
      · rename_i done
        cases fixed
        rwa [List.isEmpty_iff.mp done] at settled
      · cases fixed
  | succ rounds ih =>
      rw [Program.fixBounds] at fixed
      split at fixed
      · rename_i done
        cases fixed
        rwa [List.isEmpty_iff.mp done] at settled
      · exact ih (settled.step wf has) fixed

/-! ### The bounds found -/

/-- Bounds that are enough for their successors sustain every walk. -/
theorem Settled.sustains (wf : p.WellFormed) (has : p.HasGraph graph)
    (settled : p.Settled graph [] v) {rest : List Nat} (inside : i < graph.size)
    (enough : (v.getD i 0 : Int) ≤ n) (chain : (i :: rest).IsChain fun j k => k ∈ graph.succOf j) :
    p.Sustains graph n (i :: rest) := by
  induction rest generalizing i n with
  | nil =>
      have bound := Int.ofNat_le.mpr (settled.enough i inside List.not_mem_nil)
      exact ⟨((updatedBound_le_iff wf has inside).mp (Int.le_trans bound enough)).1, trivial⟩
  | cons j rest ih =>
      obtain ⟨edge, chain⟩ := List.isChain_cons_cons.mp chain
      have bound := Int.ofNat_le.mpr (settled.enough i inside List.not_mem_nil)
      obtain ⟨need, succ⟩ := (updatedBound_le_iff wf has inside).mp (Int.le_trans bound enough)
      exact ⟨need, ih (has.mirrored.succ_lt edge) (succ j edge) chain⟩

theorem Settled.le_iff_safe (wf : p.WellFormed) (has : p.HasGraph graph)
    (settled : p.Settled graph [] v) (inside : i < graph.size) :
    (v.getD i 0 : Int) ≤ n ↔ p.Safe graph i n :=
  ⟨fun enough _ chain => settled.sustains wf has inside enough chain, settled.least i inside n⟩

theorem hasGraph_of_bounded (mirrored : graph.Mirrored) (running : hasNoFailure graph = true)
    (bounded : ∀ g ∈ graph.states, g.bounded p.segments.length = true) : p.HasGraph graph := by
  refine ⟨mirrored, fun i inside => ?_⟩
  have found : graph.states[i]? = some graph.states[i] := List.getElem?_eq_getElem inside
  have mem := List.mem_of_getElem? found
  cases node : graph.states[i] with
  | failed m =>
      have := List.all_eq_true.mp running _ mem
      simp [node, Node.isFailed] at this
  | «at» k stack =>
      have small : k < p.segments.length := by simpa [node, Node.bounded] using bounded _ mem
      refine ⟨p.segments[k], List.getElem_mem small, ?_⟩
      simp [segmentOfNode?, found, node, Node.segment?, small]

/-- The bounds of a graph are the least sizes with which its nodes can be entered so that no walk
underflows. -/
theorem stackBounds_le_iff_safe (code : List Char) {graph : Automaton Node} {v : List Nat}
    (mirrored : graph.Mirrored) (running : hasNoFailure graph = true)
    (bounded : ∀ g ∈ graph.states, g.bounded (ofCode code).segments.length = true)
    (bounds : (ofCode code).stackBounds graph = .inl v) :
    v.length = graph.size ∧
      ∀ i b, v[i]? = some b → ∀ n : Nat, b ≤ n ↔ (ofCode code).Safe graph i n := by
  have wf := wellFormed_ofCode code
  have has := hasGraph_of_bounded mirrored running bounded
  have settled := settled_localBounds.fixBounds wf has bounds
  refine ⟨settled.length, fun i b found n => ?_⟩
  have inside : i < graph.size := settled.length ▸ (List.getElem?_eq_some_iff.mp found).1
  rw [← settled.le_iff_safe wf has inside, List.getD_eq_getElem?_getD, found]
  exact Int.ofNat_le.symm

/-- A loop that takes one operand and leaves two, with a way out to a segment that takes three. -/
theorem stackBounds_le_iff_safe_of_loop :
    let p := ofCode "5b5034343460005750505000".toList
    let graph := (Automaton.empty.addEdge (.at 0 []) (.at 1 [])).addEdge (.at 0 []) (.at 0 [])
    graph.Mirrored ∧ hasNoFailure graph = true ∧
      (∀ g ∈ graph.states, g.bounded p.segments.length = true) ∧
      p.stackBounds graph = .inl [2, 3] ∧ ∀ n : Nat, 2 ≤ n ↔ p.Safe graph 0 n := by
  intro p graph
  have built : graph.Built := .addEdge (.addEdge .empty _ _) _ _
  have running : hasNoFailure graph = true := by decide +kernel
  have bounded : ∀ g ∈ graph.states, g.bounded p.segments.length = true := by decide +kernel
  have bounds : p.stackBounds graph = .inl [2, 3] := by decide +kernel
  exact ⟨built.mirrored, running, bounded, bounds,
    (stackBounds_le_iff_safe _ built.mirrored running bounded bounds).2 0 2 rfl⟩

end Program

end EvmFlow
