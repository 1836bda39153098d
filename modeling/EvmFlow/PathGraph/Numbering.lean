import EvmFlow.Collection.Dictionary
import EvmFlow.Collection.SortedMap
import EvmFlow.Fault
import EvmFlow.PathGraph.Basic

/-!
# Numbering the nodes of a path graph

Nodes are numbered from zero in the order in which the edges mention them, the source of an edge
before its target. Numbers are kept in two dictionaries, one for each direction, beside the last
number that was given. The edges become a map from exits to numbers, in which a later edge of the
same exit replaces an earlier one.
-/

namespace EvmFlow

/-- A way out of a numbered node. -/
structure Exit where
  source : Nat
  jump : Bool
  deriving DecidableEq, Repr, Ord

/-- The numbers of nodes and the nodes with these numbers, the last number that was given, and where
the exits of nodes lead. -/
structure Numbering where
  numbers : List (PathNode × Nat)
  nodes : List (Nat × PathNode)
  /-- One less than zero as long as no number was given. -/
  last : Int
  exits : List (Exit × Nat)
  deriving DecidableEq, Repr

namespace Numbering

/-- No numbers and no edges. -/
def empty : Numbering := ⟨[], [], -1, []⟩

/-- Numbers a root and no edges. -/
def start (root : PathNode) : Numbering := ⟨[(root, 0)], [(0, root)], 0, []⟩

/-- The number of a node. -/
def number? (m : Numbering) (n : PathNode) : Option Nat := m.numbers.lookup n

/-- The node with a number. -/
def node? (m : Numbering) (i : Nat) : Option PathNode := m.nodes.lookup i

/-- Where an exit leads. -/
def target? (m : Numbering) (x : Exit) : Option Nat := m.exits.lookup x

/-- The number after the last one. -/
def next (m : Numbering) : Nat := (m.last + 1).toNat

/-- The number of a node, which gets the next one if it has none. -/
def intern (m : Numbering) (n : PathNode) : Nat × Numbering :=
  match m.number? n with
  | some i => (i, m)
  | none =>
    (m.next,
      { m with
        numbers := Dictionary.set n m.next m.numbers
        nodes := Dictionary.set m.next n m.nodes
        last := m.next })

/-- Numbers the ends of an edge and records where it leads. -/
def addEdge (m : Numbering) (e : PathEdge) : Numbering :=
  let (i, m) := m.intern e.source
  let (j, m) := m.intern e.target
  { m with exits := SortedMap.insert ⟨i, e.jump⟩ j m.exits }

/-- Numbers the nodes of a list of edges. -/
def addEdges (m : Numbering) (es : List PathEdge) : Numbering := es.foldl addEdge m

/-- The node with a number that is in use. -/
def node (nodes : List PathNode) (i : Nat) : Except Fault PathNode :=
  match nodes[i]? with
  | some n => .ok n
  | none => .error .missingKey

/-- The edges between numbered nodes. -/
def edgesOf (nodes : List PathNode) (es : List (Exit × Nat)) : Except Fault (List PathEdge) :=
  es.mapM fun (x, j) => do return ⟨← node nodes x.source, x.jump, ← node nodes j⟩

end Numbering

end EvmFlow
