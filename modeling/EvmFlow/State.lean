import EvmFlow.Cell
import EvmFlow.Fault

/-!
# Abstract states

A `Frame` is a program counter and a stack of cells, top first. A `State` is a frame, or the
message of an execution that failed. The operations on frames are total: where an operand is
missing they leave the stack alone, and the caller checks first. The variants that end in `?`
are for callers that have not checked, and answer with a fault.
-/

namespace EvmFlow

/-- A program counter and a stack, top first. -/
structure Frame where
  pc : Nat
  stack : List Cell
  deriving DecidableEq, Repr, Inhabited

/-- The outcome of an abstract execution. -/
inductive State where
  | running (frame : Frame)
  | failed (message : String)
  deriving DecidableEq, Repr

instance : Inhabited State := ⟨.running default⟩

namespace Frame

/-- The number of cells on the stack. -/
def size (f : Frame) : Nat := f.stack.length

/-- Moves on by `n` bytes. -/
def skip (f : Frame) (n : Nat) : Frame := { f with pc := f.pc + n }

/-- Moves to an address. -/
def goto (f : Frame) (target : Nat) : Frame := { f with pc := target }

/-- Drops the top `n` cells. -/
def pop (f : Frame) (n : Nat) : Frame := { f with stack := f.stack.drop n }

/-- Puts a cell on the stack. -/
def push (f : Frame) (c : Cell) : Frame := { f with stack := c :: f.stack }

/-- Puts `n` unknown cells on the stack. -/
def pushBlanks (f : Frame) (n : Nat) : Frame :=
  { f with stack := List.replicate n Cell.blank ++ f.stack }

/-- Puts a copy of the `n`-th cell on the stack, the top being the first. -/
def dup (f : Frame) (n : Nat) : Frame :=
  match f.stack[n - 1]? with
  | some c => f.push c
  | none => f

/-- Exchanges the top with the cell `n` below it. -/
def swap (f : Frame) (n : Nat) : Frame :=
  match f.stack[0]?, f.stack[n]? with
  | some top, some c => { f with stack := (f.stack.set 0 c).set n top }
  | _, _ => f

/-- The cell at depth `k`. -/
def peek? (f : Frame) (k : Nat) : Except Fault Cell := elementAt f.stack k

/-- `dup` that needs the cell to be there. The zeroth cell is the bottom of the stack. -/
def dup? (f : Frame) (n : Nat) : Except Fault Frame :=
  match if n = 0 then f.stack.getLast? else f.stack[n - 1]? with
  | some c => .ok (f.push c)
  | none => .error .pastEnd

/-- `swap` that needs both cells to be there. -/
def swap? (f : Frame) (n : Nat) : Except Fault Frame :=
  if n < f.size then .ok (f.swap n) else .error .pastEnd

/-- Takes `pops` cells off, puts `pushes` unknown cells on and moves to the next byte; fails with
the message when there are not enough cells. -/
def exchange (f : Frame) (pops pushes : Nat) (message : String) : State :=
  if pops ≤ f.size then .running (((f.pop pops).pushBlanks pushes).skip 1) else .failed message

end Frame

namespace State

/-- The frame of a running state; a failed one has none. -/
def frame? : State → Except Fault Frame
  | running f => .ok f
  | failed _ => .error .wrongCase

/-- Whether an execution failed. -/
def isFailed : State → Bool
  | running _ => false
  | failed _ => true

/-- The text of a state. -/
def text : State → String
  | running f => "(pc=0x" ++ Hex.text f.pc ++ " stack:[" ++ Cell.stackText f.stack ++ "])"
  | failed m => "ErrorState " ++ m

/-- The state taken apart. -/
def toDatum : State → Datum
  | running f => .node "State.AState.EState" [.nat f.pc, Cell.stackDatum f.stack]
  | failed m => .node "State.AState.Error" [.text m.toList]

end State

end EvmFlow
