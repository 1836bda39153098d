import EvmFlow.State

/-!
# Nodes of a control-flow graph

A node is a segment, by number, together with the stack on entry; or the message of an execution
that failed.
-/

namespace EvmFlow

/-- A segment with the stack on entry, or a failed execution. -/
inductive Node where
  | at (segment : Nat) (stack : List Cell)
  | failed (message : String)
  deriving DecidableEq, Repr

namespace Node

/-- Where every exploration starts: the first segment with an empty stack. -/
def initial : Node := .at 0 []

instance : Inhabited Node := ⟨initial⟩

/-- Whether a node is a failed execution. -/
def isFailed : Node → Bool
  | .at _ _ => false
  | .failed _ => true

/-- The segment of a node, if it has one. -/
def segment? : Node → Option Nat
  | .at s _ => some s
  | .failed _ => none

/-- The segment of a node that has one. -/
def segmentOf : Node → Except Fault Nat
  | .at s _ => .ok s
  | .failed _ => .error .wrongCase

/-- The stack of a node, if it has one. -/
def stack? : Node → Option (List Cell)
  | .at _ stack => some stack
  | .failed _ => none

/-- Whether a node belongs to a program with `n` segments. -/
def bounded (n : Nat) : Node → Bool
  | .at s _ => s < n
  | .failed _ => true

/-- The text of a node. -/
def text : Node → String
  | .at s st => "(" ++ Decimal.text s ++ ", [" ++ Cell.stackText st ++ "])"
  | .failed m => "ErrorGState(" ++ m ++ ")"

/-- The node taken apart. -/
def toDatum : Node → Datum
  | .at s st => .node "CFGState.GState.EGState" [.nat s, Cell.stackDatum st]
  | .failed m => .node "CFGState.GState.ErrorGState" [.text m.toList]

end Node

end EvmFlow
