import EvmFlow.FlowGraph.Basic

/-!
# Stack sizes that a graph needs

For each node of a control-flow graph, the least number of operands on entry from which no path
underflows. The bound of a node follows from the bounds of its successors; the values are
recomputed round by round, and only where the bound of a successor has grown.
-/

namespace EvmFlow.Program

/-- The segment of the node at a position. -/
def segmentOfNode? (p : Program) (graph : Automaton Node) (i : Nat) : Option Segment :=
  ((graph.states[i]?).bind Node.segment?).bind (p.segments[·]?)

/-- The largest of a list of numbers; zero if there is none. -/
def largest : List Nat → Nat
  | [] => 0
  | x :: xs => max x (largest xs)

/-- The bound of each node when the node is left with any stack. -/
def localBounds (p : Program) (graph : Automaton Node) : List Nat :=
  (List.range graph.size).map fun i =>
    ((p.segmentOfNode? graph i).map fun s => s.operandsNeeded 0).getD 0

/-- The bound of a node from the current bounds of its successors. -/
def updatedBound (p : Program) (graph : Automaton Node) (base current : List Nat) (i : Nat) :
    Nat :=
  match p.segmentOfNode? graph i with
  | some s =>
    s.operandsFrom (largest ((graph.succOf i).map fun j => current.getD j 0)) (base.getD i 0)
  | none => current.getD i 0

/-- One round: new bounds, and the nodes to look at next, which are the predecessors of nodes whose
bound has grown. -/
def updateBounds (p : Program) (graph : Automaton Node) (base current scheduled : List Nat) :
    List Nat × List Nat :=
  let updated := current.mapIdx fun i v =>
    if i ∈ scheduled then p.updatedBound graph base current i else v
  let grown := (List.range current.length).filter fun i => current.getD i 0 < updated.getD i 0
  (updated, (List.range graph.size).filter fun i => grown.any fun j => i ∈ graph.predOf j)

/-- Rounds until nothing is scheduled: a fixpoint on the left, the bounds reached so far on the
right. -/
def fixBounds (p : Program) (graph : Automaton Node) (base : List Nat) :
    Nat → List Nat → List Nat → List Nat ⊕ List Nat
  | 0, scheduled, current => if scheduled.isEmpty then .inl current else .inr current
  | rounds + 1, scheduled, current =>
    if scheduled.isEmpty then .inl current
    else
      let (updated, next) := p.updateBounds graph base current scheduled
      p.fixBounds graph base rounds next updated

/-- The bounds of all nodes of a graph. -/
def stackBounds (p : Program) (graph : Automaton Node) : List Nat ⊕ List Nat :=
  let base := p.localBounds graph
  p.fixBounds graph base (graph.size + 1) (List.range graph.size) base

/-- Whether no node of a graph is a failed execution. -/
def hasNoFailure (graph : Automaton Node) : Bool := graph.states.all fun g => !g.isFailed

/-- The bounds of a graph without failures. -/
def stackBounds? (p : Program) (graph : Automaton Node) :
    Except Fault (Option (List Nat ⊕ List Nat)) := do
  if hasNoFailure graph then
    for g in graph.states do
      let _ ← p.segment (← g.segmentOf)
    return some (p.stackBounds graph)
  else return none

/-- `localBounds` of a graph whose nodes must have segments. -/
def localBounds? (p : Program) (graph : Automaton Node) : Except Fault (List Nat) := do
  for g in graph.states do
    let _ ← p.segment (← g.segmentOf)
  return p.localBounds graph

/-- Checks that the scheduled nodes can be recomputed from the given bounds. -/
def checkBounds (p : Program) (graph : Automaton Node) (base current scheduled : List Nat) :
    Except Fault Unit := do
  for i in List.range current.length do
    if i ∈ scheduled then
      let _ ← p.segment (← (← elementAt graph.states i).segmentOf)
      for j in graph.succOf i do
        let _ ← elementAt current j
      let _ ← elementAt base i

/-- `updateBounds` for any schedule. -/
def updateBounds? (p : Program) (graph : Automaton Node) (base current scheduled : List Nat) :
    Except Fault (List Nat × List Nat) := do
  p.checkBounds graph base current scheduled
  return p.updateBounds graph base current scheduled

/-- `fixBounds` for any schedule. The nodes scheduled later are checked round by round. -/
def fixBounds? (p : Program) (graph : Automaton Node) (base : List Nat) :
    Nat → List Nat → List Nat → Except Fault (List Nat ⊕ List Nat)
  | 0, scheduled, current => .ok (if scheduled.isEmpty then .inl current else .inr current)
  | rounds + 1, scheduled, current => do
    if scheduled.isEmpty then return .inl current
    let (updated, next) ← p.updateBounds? graph base current scheduled
    p.fixBounds? graph base rounds next updated

end EvmFlow.Program
