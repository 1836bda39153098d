import EvmFlow.Datum
import EvmFlow.Decimal

/-!
# Graphs of paths

A node of a path graph is named by the turns that lead to it from the start of a program: `false`
for falling through and `true` for jumping. It also carries the number of its segment, or none for
a failed execution. Two nodes may have one segment.

The short name of a node is the number that its turns write in binary, least turn first, with the
number of turns behind it: the number of turns keeps apart names that differ in trailing zeros.
-/

namespace EvmFlow

/-- A node named by the turns that lead to it. -/
structure PathNode where
  id : List Bool
  segment : Option Nat
  deriving DecidableEq, Repr, Inhabited

namespace PathNode

/-- The number that turns write in binary, the first one being the least. -/
def number : List Bool → Nat
  | [] => 0
  | b :: rest => (if b then 1 else 0) + 2 * number rest

/-- The turns as digits, closed by a mark. -/
def text (n : PathNode) : String := String.ofList (n.id.map fun b => if b then '1' else '0') ++ "E"

/-- The short name of a node. -/
def name (n : PathNode) : String :=
  Decimal.text (number n.id) ++ "_" ++ Decimal.text n.id.length

/-- The start of a program. -/
def root : PathNode := ⟨[], some 0⟩

/-- The node taken apart. -/
def toDatum (n : PathNode) : Datum :=
  .node "CFGraph.CFGNode.CFGNode" [.seq (n.id.map .bool), .option (n.segment.map .nat)]

end PathNode

/-- An edge, labelled with the turn that it takes. -/
structure PathEdge where
  source : PathNode
  jump : Bool
  target : PathNode
  deriving DecidableEq, Repr, Inhabited

/-- The edge taken apart. -/
def PathEdge.toDatum (e : PathEdge) : Datum :=
  .node "CFGraph.BoolEdge.BoolEdge" [e.source.toDatum, .bool e.jump, e.target.toDatum]

/-- Edges, the last one added first, and a bound on the segments of their nodes. -/
structure PathGraph where
  edges : List PathEdge
  maxSegment : Nat
  deriving DecidableEq, Repr, Inhabited

namespace PathGraph

/-- The graph without edges. -/
def empty : PathGraph := ⟨[], 0⟩

/-- Adds an edge and forgets the bound. -/
def addEdge (g : PathGraph) (e : PathEdge) : PathGraph := ⟨e :: g.edges, 0⟩

/-- The ends of the edges, each once, in the order of the edges. -/
def nodes (g : PathGraph) : List PathNode :=
  (g.edges.flatMap fun e => [e.source, e.target]).eraseDups

/-- Whether a segment, if there is one, is within a bound. -/
def within (bound : Nat) (n : PathNode) : Bool :=
  match n.segment with
  | some i => decide (i ≤ bound)
  | none => true

/-- Whether the bound holds for all nodes. -/
def isValid (g : PathGraph) : Bool :=
  g.edges.all fun e => within g.maxSegment e.source && within g.maxSegment e.target

/-- The graph taken apart. -/
def toDatum (g : PathGraph) : Datum :=
  .node "CFGraph.BoolCFGraph.BoolCFGraph"
    [.seq (g.edges.map PathEdge.toDatum), .nat g.maxSegment]

end PathGraph

end EvmFlow
