import EvmFlow.FlowGraph.Stats
import EvmFlow.Minimisation
import EvmFlow.Program.Basic

/-!
# Control-flow graphs

`Program.explore` walks a program depth first from its start and records nodes and edges. An exit
of a jump may be folded back to a node on the path when the loop that this closes keeps its own
condition; otherwise a new node is explored, down to a given depth. `Program.flowGraph` explores
and, if asked, minimises the result: nodes of one segment are taken together as far as their
successors allow.
-/

namespace EvmFlow

/-- A path through a program: nodes with the exits taken, one exit fewer than nodes. -/
structure Path where
  nodes : List Node
  exits : List Nat
  deriving DecidableEq, Repr, Inhabited

namespace Path

/-- The path that has not moved. -/
def start : Path := ⟨[.initial], []⟩

/-- The last node of a path. -/
def last (p : Path) : Node := p.nodes.getLastD .initial

/-- One more step. -/
def extend (p : Path) (exit : Nat) (g : Node) : Path := ⟨p.nodes ++ [g], p.exits ++ [exit]⟩

/-- The path taken apart. -/
def toDatum (p : Path) : Datum :=
  .node "EVMObject.Path.Path" [.seq (p.nodes.map Node.toDatum), .nats p.exits]

end Path

/-- What an exploration has found: a graph and the statistics. -/
structure Exploration where
  graph : Automaton Node
  stats : Stats
  deriving DecidableEq, Repr

namespace Exploration

/-- Before the first step only the initial node is there. -/
def start : Exploration := ⟨Automaton.empty.addState .initial, .start⟩

/-- Records an edge and changes the statistics. -/
def record (x : Exploration) (g h : Node) (count : Stats → Stats) : Exploration :=
  ⟨x.graph.addEdge g h, count x.stats⟩

end Exploration

namespace Program

/-- Whether a node belongs to a segment that ends with a jump. -/
def jumpsAt (p : Program) (g : Node) : Bool :=
  match g.segment?.bind (p.segments[·]?) with
  | some s => s.isJump
  | none => false

/-- Explores on from the end of a path, at most `depth` steps. -/
def explore (p : Program) : Nat → Path → Exploration → Exploration
  | 0, _, x => { x with stats := x.stats.setMaxDepth }
  | depth + 1, path, x =>
    let g := path.last
    (p.successors g).zipIdx.foldl
      (fun y (h, e) =>
        if h.isFailed then y.record g h Stats.addError
        else if h ∈ y.graph.states then y.record g h Stats.addVisited
        else
          let back :=
            if p.jumpsAt g then
              h.segment?.bind fun i => p.loopStart i path.nodes (path.exits ++ [e])
            else none
          match back with
          | some k => y.record g (path.nodes.getD k .initial) Stats.addFolded
          | none => p.explore depth (path.extend e h) (y.record g h id))
      x

/-- The graph found from the start of a program, as it was found. -/
def rawGraph (p : Program) (depth : Nat) : Exploration := p.explore depth .start .start

/-- Whether two nodes, by position, are one or belong to the same segment. -/
def sameSegment (graph : Automaton Node) (x y : Nat) : Bool :=
  x == y ||
    match (graph.states[x]?).bind Node.segment?, (graph.states[y]?).bind Node.segment? with
    | some i, some j => i == j
    | _, _ => false

/-- The nodes of a graph classified by their segments. -/
def bySegment (graph : Automaton Node) : Classified Node :=
  ⟨graph, (Partition.whole graph.size).finest (sameSegment graph)⟩

/-- The control-flow graph of a program, explored to a depth and minimised if asked. -/
def flowGraph (p : Program) (depth : Nat) (minimise : Bool) : Exploration :=
  let x := p.rawGraph depth
  if minimise then
    ⟨(bySegment x.graph).minimise, { x.stats with unminimised := (x.graph.size, x.graph.edges) }⟩
  else x

/-- `flowGraph` of a program that has a first segment, unless no step is asked for. -/
def flowGraph? (p : Program) (depth : Nat) (minimise : Bool) : Except Fault Exploration :=
  if p.segments.isEmpty ∧ 0 < depth then .error .pastEnd else .ok (p.flowGraph depth minimise)

end Program

end EvmFlow
