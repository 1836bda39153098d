import EvmFlow.Collection.SortedMap
import EvmFlow.PathGraph.Basic
import EvmFlow.Program.Basic

/-!
# The history of a walk

A walk along one path keeps the nodes it has passed, their addresses and the turns taken, and the
nodes of all states met so far, also on other paths.
-/

namespace EvmFlow

/-- What a walk remembers. -/
structure History where
  seen : List PathNode
  addresses : List Nat
  turns : List Bool
  /-- Nodes of states. -/
  states : List (State × PathNode)
  deriving DecidableEq, Repr

namespace History

/-- The walk that has not moved. -/
def start : History :=
  ⟨[.root], [0], [], [(.running ⟨0, []⟩, .root)]⟩

/-- The node of a state; of entries of one state the last one counts. -/
def nodeOf? (h : History) (s : State) : Option PathNode := h.states.reverse.lookup s

/-- Whether the segment of a node, if it has one, is a segment of the program. -/
def inProgram (p : Program) (n : PathNode) : Bool :=
  match n.segment with
  | some i => decide (i < p.segments.length)
  | none => true

/-- Whether the nodes passed are named by the turns taken and have segments of the program. -/
def follows (h : History) (p : Program) : Bool :=
  h.seen.length == h.addresses.length && h.addresses.length == h.turns.length + 1 &&
    (h.seen.zipIdx.all fun e => e.1.id == h.turns.take e.2) &&
    (h.seen.all fun n => n.segment.isSome) && h.seen.all (inProgram p)

/-- Whether the addresses are those at which the segments start. -/
def startsMatch (h : History) (p : Program) : Bool :=
  (h.addresses.zip h.seen).all fun e =>
    match e.2.segment.bind (p.segments[·]?) with
    | some s => e.1 == s.start
    | none => false

/-- Whether a history fits a program on which it has come to a state. Only a running state has an
address to compare. -/
def isConsistent (h : History) (p : Program) (s : State) : Except Fault Bool := do
  if h.follows p && (h.nodeOf? s).isSome then
    let f ← s.frame?
    return h.addresses.getLast? == some f.pc && h.startsMatch p &&
      h.states.all fun e =>
        match h.nodeOf? e.1 with
        | some n => inProgram p n
        | none => true
  else return false

/-- The history taken apart; `owner` names the family of walks. -/
def toDatum (owner : String) (h : History) : Datum :=
  .node (owner ++ ".History.History")
    [.seq (h.seen.map PathNode.toDatum), .nats h.addresses, .seq (h.turns.map .bool),
      .dict (h.states.map fun e => (e.1.toDatum, e.2.toDatum))]

end History

/-- What happened on all walks through a program. -/
structure WalkStats where
  maxDepthReached : Bool
  found : Nat
  folded : Nat
  failed : Bool
  deriving DecidableEq, Repr, Inhabited

namespace WalkStats

/-- Nothing has happened yet. -/
def start : WalkStats := ⟨false, 0, 0, false⟩

/-- A walk was cut off. -/
def setMaxDepth (s : WalkStats) : WalkStats := { s with maxDepthReached := true }

/-- A walk came to a state already met. -/
def addFound (s : WalkStats) : WalkStats := { s with found := s.found + 1 }

/-- A walk was folded back. -/
def addFolded (s : WalkStats) : WalkStats := { s with folded := s.folded + 1 }

/-- The counts as comment lines. -/
def text (s : WalkStats) : String :=
  let word (b : Bool) : String := if b then "true" else "false"
  "// MaxDepth reached:" ++ word s.maxDepthReached ++ "\n// ErrorState reached:" ++
    word s.failed ++ "\n// States seen:" ++ Decimal.text s.found ++ "\n// WPre success:" ++
    Decimal.text s.folded ++ "\n"

/-- The statistics taken apart; `owner` names the family of walks. -/
def toDatum (owner : String) (s : WalkStats) : Datum :=
  .node (owner ++ ".Stats.Stats")
    [.bool s.maxDepthReached, .nat s.found, .nat s.folded, .bool s.failed]

end WalkStats

end EvmFlow
