import EvmFlow.Proofs.DepthLimit
import EvmFlow.Proofs.DrawnExits
import Mathlib.Algebra.BigOperators.Group.Finset.Basic
import Mathlib.Algebra.GroupWithZero.Nat

/-!
# What becomes of the exits

An exploration counts the exits that fail, those that lead to a node already there and those that
are folded back. It does not count the others, but each of them adds a node. So the counts and the
nodes that have not failed together tell the number of moves, at every moment of every exploration
(`settled_add_running`). An exploration that was not cut off has followed every exit of every node
once, and then the moves are the exits of all nodes.
-/

namespace EvmFlow

/-! ### Every move is accounted for -/

/-- Exits that have been counted, since they led to no new node. -/
def Stats.settled (s : Stats) : Nat := s.visited + s.folded + s.errors

namespace Node

/-- The nodes of a list that have not failed. -/
def running (nodes : List Node) : List Node := nodes.filter fun g => !g.isFailed

theorem length_running_concat (nodes : List Node) (g : Node) :
    (running (nodes ++ [g])).length = (running nodes).length + if g.isFailed then 0 else 1 := by
  cases failed : g.isFailed <;> simp [running, failed]

end Node

theorem Move.settled_count (m : Move) (s : Stats) :
    (m.count s).settled + (if m.fate = .entered then 1 else 0) = s.settled + 1 := by
  rw [count]
  cases m.fate with
  | entered => rfl
  | failed | seen | folded =>
      simp only [Stats.settled, Stats.addError, Stats.addVisited, Stats.addFolded, reduceCtorEq,
        if_false]
      omega

namespace Progress

variable {p : Program} {l l' : Log} {done : List Node} {m : Move}

/-- Only a node that is entered adds to the nodes that have not failed. -/
theorem length_running_add (progress : Progress p m.path l done l')
    (next : m.Next p l'.found done) :
    (Node.running (l'.add m).nodes).length =
      (Node.running l'.nodes).length + if m.fate = .entered then 1 else 0 := by
  rw [progress.lawful.nodes_add progress.source_mem]
  by_cases entered : m.fate = .entered
  · obtain ⟨alive, fresh, target⟩ := next.of_entered entered
    have new : m.node ∉ l'.nodes := fresh
    rw [target, if_neg new, if_pos entered, Node.length_running_concat, alive]
    rfl
  · rw [if_neg entered]
    split
    · rfl
    · rename_i new
      have target := next.target_of_stay progress.leads entered progress.onPath
      rw [Node.length_running_concat, target.resolve_left new]
      rfl

end Progress

/-- Every move is accounted for, by a count or by the node that it has added. The initial node was
there before the first move. -/
def Log.Balanced (l : Log) : Prop :=
  l.found.stats.settled + (Node.running l.nodes).length = l.moves.length + 1

theorem Progress.balanced_add {p : Program} {l l' : Log} {done : List Node} {m : Move}
    (progress : Progress p m.path l done l') (next : m.Next p l'.found done)
    (balanced : l'.Balanced) : (l'.add m).Balanced := by
  have counted := m.settled_count l'.found.stats
  have nodes := progress.length_running_add next
  have moves : (l'.add m).moves.length = l'.moves.length + 1 := List.length_append
  rw [Log.Balanced] at balanced
  show (m.count l'.found.stats).settled + _ = _
  rw [nodes, moves]
  omega

/-- The counts and the nodes of an exploration to any depth tell how many moves it has made. -/
theorem Program.settled_add_running (p : Program) (depth : Nat) :
    (p.flowGraph depth false).stats.settled +
        (Node.running (p.flowGraph depth false).graph.states).length =
      (p.moves depth).length + 1 := by
  have balanced : (p.log depth).Balanced :=
    Progress.invariant.keeps (fun next progress => progress.balanced_add next) id depth .initial rfl
  rw [Log.Balanced, Log.nodes, found_log] at balanced
  exact balanced

/-! ### Moves and exits -/

/-- The moves are those out of the nodes of a list, if they start there. -/
theorem Move.sum_length_outOf {nodes : List Node} {ms : List Move} (nodup : nodes.Nodup)
    (sources : ∀ m ∈ ms, m.source ∈ nodes) :
    (nodes.map fun g => (outOf ms g).length).sum = ms.length := by
  have count : ∀ g, (outOf ms g).length = (ms.map source : Multiset Node).count g := by
    intro g
    rw [Multiset.coe_count, List.count, List.countP_map, List.countP_eq_length_filter]
    rfl
  calc (nodes.map fun g => (outOf ms g).length).sum
      = ∑ g ∈ nodes.toFinset, (ms.map source : Multiset Node).count g := by
        rw [List.sum_toFinset _ nodup]
        simp only [count]
    _ = (ms.map source : Multiset Node).card := by
        apply Multiset.sum_count_eq_card
        intro g hg
        obtain ⟨m, hm, rfl⟩ := List.mem_map.mp hg
        exact List.mem_toFinset.mpr (sources m hm)
    _ = ms.length := List.length_map source

namespace Program

variable {p : Program} {depth : Nat}

theorem length_moves (uncut : (p.flowGraph depth false).stats.maxDepthReached = false) :
    (p.moves depth).length =
      ((p.flowGraph depth false).graph.states.map fun g => (p.successors g).length).sum := by
  have sources : ∀ m ∈ p.moves depth, m.source ∈ (p.flowGraph depth false).graph.states := by
    intro m hm
    rw [← found_log]
    exact (p.lawful_log depth).source_mem hm
  rw [← Move.sum_length_outOf (p.wellFormed_flowGraph depth).nodup sources]
  apply congrArg List.sum
  apply List.map_congr_left
  intro g hg
  exact length_outOf_moves uncut hg

/-- A node has the exits of its segment, and a failed node has none. -/
theorem sum_length_successors (p : Program) (nodes : List Node) :
    (nodes.map fun g => (p.successors g).length).sum =
      ((p.segmentsOf (Node.running nodes)).map Segment.exits).sum := by
  induction nodes with
  | nil => rfl
  | cons g rest ih =>
      rw [List.map_cons, List.sum_cons, ih]
      cases g with
      | failed => simp [successors, Node.running, Node.isFailed]
      | «at» i stack =>
          cases found : p.segments[i]? <;>
            simp [successors, Node.running, Node.isFailed, segmentsOf, Node.segment?, found]

theorem length_segmentsOf {nodes : List Node}
    (bounded : ∀ g ∈ nodes, g.bounded p.segments.length = true) :
    (p.segmentsOf (Node.running nodes)).length = (Node.running nodes).length := by
  apply List.filterMap_length_eq_length.mpr
  intro g hg
  obtain ⟨mem, alive⟩ := List.mem_filter.mp hg
  cases g with
  | failed => cases alive
  | «at» i stack => simpa [Node.segment?, Node.bounded] using bounded _ mem

/-- When the graph of a program was built without reaching the depth, its nodes that have not failed
belong to segments, and the exits of these segments are all accounted for: each was counted as
leading to a node already there, as folded or as failed, or has added a node behind the first. -/
theorem exits_accounted (p : Program) {depth : Nat} {x : Exploration}
    (built : p.flowGraph? depth false = .ok x) (uncut : x.stats.maxDepthReached = false) :
    let running := Node.running x.graph.states
    0 < running.length ∧ (p.segmentsOf running).length = running.length ∧
      x.stats.visited + x.stats.folded + x.stats.errors + (running.length - 1) =
        ((p.segmentsOf running).map Segment.exits).sum := by
  obtain ⟨idle, rfl⟩ := flowGraph?_eq_ok.mp built
  intro running
  have lawful := p.lawful_log depth
  have segments : 0 < p.segments.length := by
    apply List.length_pos_of_ne_nil
    intro empty
    rw [idle empty] at uncut
    cases uncut
  have first : .initial ∈ running := by
    apply List.mem_filter.mpr
    have mem := List.mem_of_getElem? lawful.first
    rw [Log.nodes, found_log] at mem
    exact ⟨mem, rfl⟩
  have inhabited : 0 < running.length := List.length_pos_of_mem first
  refine ⟨inhabited, length_segmentsOf ?_, ?_⟩
  · intro g hg
    rw [← found_log] at hg
    exact (lawful.reachable g hg).bounded segments
  · have account : (p.flowGraph depth false).stats.settled + running.length =
        (p.moves depth).length + 1 := p.settled_add_running depth
    have moves : (p.moves depth).length = ((p.segmentsOf running).map Segment.exits).sum :=
      (length_moves uncut).trans (p.sum_length_successors _)
    rw [Stats.settled] at account
    omega

/-- The jump of the first loop is folded back, both exits of the next segment lead to one node, and
the last segment drops more than there is. -/
theorem exits_accounted_of_each_kind :
    let p := ofCode "60025b6001013460025734600e575b505050".toList
    ∃ x, p.flowGraph? 20 false = .ok x ∧ x.stats.maxDepthReached = false ∧ x.stats.visited = 1 ∧
      x.stats.folded = 1 ∧ x.stats.errors = 1 ∧ (Node.running x.graph.states).length = 4 ∧
      ((p.segmentsOf (Node.running x.graph.states)).map Segment.exits).sum = 6 := by
  intro p
  have built : p.flowGraph? 20 false = .ok (p.flowGraph 20 false) :=
    flowGraph?_eq_ok.mpr ⟨by decide +kernel, rfl⟩
  have uncut : (p.flowGraph 20 false).stats.maxDepthReached = false := by decide +kernel
  have visited : (p.flowGraph 20 false).stats.visited = 1 := by decide +kernel
  have folded : (p.flowGraph 20 false).stats.folded = 1 := by decide +kernel
  have errors : (p.flowGraph 20 false).stats.errors = 1 := by decide +kernel
  have nodes : (Node.running (p.flowGraph 20 false).graph.states).length = 4 := by decide +kernel
  obtain ⟨-, -, account⟩ := exits_accounted p built uncut
  rw [visited, folded, errors, nodes] at account
  exact ⟨_, built, uncut, visited, folded, errors, nodes, account.symm⟩

end Program

end EvmFlow
