import EvmFlow.Proofs.Exploration

/-!
# Explorations that fold nothing

When an exploration was not cut off and folded no exit back, nothing stands between the graph and
the program: the graph has exactly the nodes that the program can reach, and the edges out of a
node are its exits.
-/

namespace EvmFlow.Program

variable {p : Program} {depth : Nat} {g : Node}

/-- Without folds every edge leads to the node behind its exit. -/
theorem target_of_unfolded (unfolded : (p.flowGraph depth false).stats.folded = 0) {m : Move}
    (hm : m ∈ p.moves depth) : m.target = m.node := by
  have folds := (p.lawful_log depth).folds
  rw [found_log, unfolded] at folds
  have none := List.countP_eq_zero.mp folds.symm m hm
  exact Move.target_of_not_isFold (by simpa using none)

/-- Without folds the edges out of a node are its exits, in their order; of exits that lead to one
node the first counts. -/
theorem targets_of_unfolded (uncut : (p.flowGraph depth false).stats.maxDepthReached = false)
    (unfolded : (p.flowGraph depth false).stats.folded = 0)
    (hg : g ∈ (p.flowGraph depth false).graph.states) :
    (p.flowGraph depth false).graph.targets g = (p.successors g).eraseDups := by
  have targets := (p.lawful_log depth).targets g
  rw [found_log] at targets
  rw [targets, ← followed_moves p depth uncut hg, Move.followed]
  congr 1
  apply List.map_congr_left
  intro m hm
  exact target_of_unfolded unfolded (List.mem_of_mem_filter hm)

/-- An exploration to any depth of any program, if it was not cut off and has folded nothing, lists
exactly the reachable nodes, none twice. The successors of a node in the graph are the nodes behind
its exits, in the order of the exits and without repetitions; a failed node has none. -/
theorem flowGraph_exact (p : Program) (depth : Nat)
    (uncut : (p.flowGraph depth false).stats.maxDepthReached = false)
    (unfolded : (p.flowGraph depth false).stats.folded = 0) :
    (p.flowGraph depth false).graph.states.Nodup ∧
      (∀ g, g ∈ (p.flowGraph depth false).graph.states ↔ p.Reachable g) ∧
      ∀ g ∈ (p.flowGraph depth false).graph.states,
        (p.flowGraph depth false).graph.successors? g =
          .ok (if g.isFailed then [] else (p.successors g).eraseDups) := by
  have lawful := p.lawful_log depth
  have wellFormed := lawful.wellFormed
  rw [found_log] at wellFormed
  refine ⟨wellFormed.nodup, ?_, ?_⟩
  · intro g
    constructor
    · intro hg
      exact lawful.reachable g (by rwa [Log.nodes, found_log])
    · intro reach
      induction reach with
      | refl =>
          have first := List.mem_of_getElem? lawful.first
          rwa [Log.nodes, found_log] at first
      | @tail g h _ exit hg =>
          have edge : (p.flowGraph depth false).graph.Edge g h := by
            rw [Automaton.Edge, targets_of_unfolded uncut unfolded hg]
            exact List.mem_eraseDups.mpr exit
          exact edge.target_mem
  · intro g hg
    rw [wellFormed.successors?_eq hg, targets_of_unfolded uncut unfolded hg]
    split
    · rename_i failed
      rw [successors_of_isFailed failed]
      rfl
    · rfl

/-- A program with a loop, a node both of whose exits lead to one node, and a failing exit. -/
theorem flowGraph_exact_of_loop :
    let x := (ofCode "5b34600057346009575b505b00".toList).flowGraph 30 false
    x.stats.maxDepthReached = false ∧ x.stats.folded = 0 ∧ x.graph.states.Nodup ∧
      (∀ g, g ∈ x.graph.states ↔ (ofCode "5b34600057346009575b505b00".toList).Reachable g) ∧
      ∀ g ∈ x.graph.states, x.graph.successors? g =
        .ok (if g.isFailed then []
          else ((ofCode "5b34600057346009575b505b00".toList).successors g).eraseDups) :=
  ⟨by decide +kernel, by decide +kernel,
    flowGraph_exact (ofCode "5b34600057346009575b505b00".toList) 30 (by decide +kernel)
      (by decide +kernel)⟩

end EvmFlow.Program
