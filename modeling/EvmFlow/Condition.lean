import EvmFlow.State

/-!
# Conditions on the stack

A condition tracks stack positions together with the values they must hold, or is the condition
that always holds, or the one that never does. `Condition.meet` joins two conditions,
`Condition.stack` builds a stack that satisfies one.
-/

namespace EvmFlow

/-- A requirement on a stack. The entries of `tracked` are positions, counted from the top, with
the values that must be known there. -/
inductive Condition where
  | always
  | never
  | tracked (entries : List (Nat × Nat))
  deriving DecidableEq, Repr, Inhabited

namespace Condition

/-- The value tracked at a position, if it is tracked; the first entry wins. -/
def valueAt? (entries : List (Nat × Nat)) (pos : Nat) : Option Nat := entries.lookup pos

/-- Whether a position is tracked. -/
def tracks (entries : List (Nat × Nat)) (pos : Nat) : Bool := (valueAt? entries pos).isSome

/-- Drops the first entry of a position. -/
def untrack (pos : Nat) : List (Nat × Nat) → List (Nat × Nat)
  | [] => []
  | e :: rest => if e.1 = pos then rest else e :: untrack pos rest

/-- Moves every tracked position. -/
def relocate (move : Nat → Nat) (entries : List (Nat × Nat)) : List (Nat × Nat) :=
  entries.map fun e => (move e.1, e.2)

/-- The number of tracked positions. -/
def size : Condition → Nat
  | tracked es => es.length
  | _ => 0

/-- Tracked positions are there and pairwise distinct. -/
def isValid : Condition → Bool
  | tracked es => !es.isEmpty && decide ((es.map Prod.fst).Nodup)
  | _ => true

/-- Adds entries to those already tracked. A position that is already tracked keeps its value; the
last entry is compared with it, and a difference makes the condition impossible. -/
def merge (entries : List (Nat × Nat)) : List (Nat × Nat) → Condition
  | [] => tracked entries
  | [e] =>
    match valueAt? entries e.1 with
    | some v => if v = e.2 then tracked entries else never
    | none => tracked (entries ++ [e])
  | e :: rest =>
    if tracks entries e.1 then merge entries rest else merge (entries ++ [e]) rest

/-- The conjunction of two conditions. -/
def meet : Condition → Condition → Condition
  | never, _ => never
  | _, never => never
  | always, d => d
  | c, always => c
  | tracked es, tracked fs => merge es fs

/-- The conjunctions of a condition with the given ones, one after the other. -/
def meets (c : Condition) : List Condition → List Condition
  | [] => []
  | d :: ds => c.meet d :: (c.meet d).meets ds

/-- Whether a stack holds a known value at a position. -/
def holdsAt (stack : List Cell) (entry : Nat × Nat) : Bool :=
  stack[entry.1]? == some (.known entry.2)

/-- Whether a stack satisfies a condition. -/
def holds (stack : List Cell) : Condition → Bool
  | always => true
  | never => false
  | tracked es => es.all (holdsAt stack)

/-- Writes a known value into a stack, filling with unknown cells up to its position. -/
def place (stack : List Cell) (entry : Nat × Nat) : List Cell :=
  if entry.1 < stack.length then stack.set entry.1 (.known entry.2)
  else stack ++ List.replicate (entry.1 - stack.length) Cell.blank ++ [.known entry.2]

/-- A stack that satisfies a condition, unknown wherever nothing is tracked. -/
def stack : Condition → List Cell
  | tracked es => es.foldl place []
  | _ => []

/-- A frame at `pc` whose stack satisfies a condition. -/
def frame (c : Condition) (pc : Nat) : Frame := ⟨pc, c.stack⟩

/-- The tracked entries of a condition that has them. -/
def entries? : Condition → Except Fault (List (Nat × Nat))
  | tracked es => .ok es
  | _ => .error .wrongCase

/-- The condition without its first entry. -/
def tail? (c : Condition) : Except Fault Condition := do
  let es ← c.entries?
  return tracked (es.drop 1)

/-- The entry with a given number. -/
def entryAt? (c : Condition) (i : Nat) : Except Fault (Nat × Nat) := do
  let es ← c.entries?
  elementAt es i

/-- The number of the first entry for a position. A single entry is taken without looking. -/
def indexOf? (c : Condition) (pos : Nat) : Except Fault Nat := do
  let es ← c.entries?
  if es.length = 1 then return 0
  match es.findIdx? fun e => e.1 == pos with
  | some i => return i
  | none => throw .pastEnd

/-- Writes the entries from number `i` on into a given stack. -/
def stackFrom? (c : Condition) (stack : List Cell) (i : Nat) : Except Fault (List Cell) := do
  let es ← c.entries?
  if es.length < i then throw .pastEnd
  return (es.drop i).foldl place stack

/-- Whether a state satisfies a condition that tracks at least one position. -/
def holdsOf? (c : Condition) (s : State) : Except Fault Bool := do
  let es ← c.entries?
  if es.isEmpty then throw .pastEnd
  let f ← s.frame?
  return c.holds f.stack

/-- The condition taken apart. -/
def toDatum : Condition → Datum
  | always => .node "WeakPre.Cond.StTrue" []
  | never => .node "WeakPre.Cond.StFalse" []
  | tracked es =>
    .node "WeakPre.Cond.StCond" [.nats (es.map Prod.fst), .nats (es.map Prod.snd)]

/-- Positions and values in two columns. Only columns of one length make a condition. -/
def ofColumns? (positions values : List Nat) : Except Fault Condition :=
  if positions.length = values.length then .ok (tracked (positions.zip values))
  else .error .pastEnd

end Condition

end EvmFlow
