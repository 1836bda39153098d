import EvmFlow.Instruction.Basic
import EvmFlow.State

/-!
# Running an instruction

`Instruction.step` runs an instruction on a frame. Most instructions exchange operands for unknown
results. A pushed constant stays known exactly if it is a jump destination of the program; a jump
needs its target to be known. An exit number chooses between the two ways out of `JUMPI`.
-/

namespace EvmFlow.Instruction

/-- What is said when operands are missing. -/
def shortage : Kind → String
  | .environment => "EnvOp error"
  | .memory => "MemOp error"
  | .storage => "Storage Op error"
  | .stack => "Stack Op error"
  | .log => "LogOp error"
  | .system => "SysOp error"
  | _ => "Stack underflow"

/-- The cell that a constant becomes: known if it is a jump destination. -/
def constant (dests : List Nat) (v : Nat) : Cell :=
  if v ∈ dests then .known v else .blank

/-- Runs an instruction of the jump kind. -/
def stepJump (i : Instruction) (exit : Nat) (f : Frame) : State :=
  if i.op.code = 0x5b then .running (f.skip 1)
  else if i.op.code = 0x56 then
    match f.stack with
    | [] => .failed "Cannot execute JUMP/exit false or stack underflow"
    | .unknown _ :: _ => .failed "Jump to Random() unknown PC error"
    | .known v :: _ => .running ((f.pop 1).goto v)
  else if i.op.code = 0x57 then
    match f.stack with
    | .unknown _ :: _ :: _ => .failed "JumpI to Random() error"
    | .known v :: _ :: _ =>
      .running (if 1 ≤ exit then (f.pop 2).goto v else (f.pop 2).skip 1)
    | _ => .failed "Cannot execute JUMPI/strack underflow"
  else .failed "RJUMPs not implemented"

/-- Runs an instruction of the stack kind. -/
def stepStack (i : Instruction) (dests : List Nat) (f : Frame) : State :=
  let code := i.op.code
  if code = 0x50 ∧ 1 ≤ f.size then .running ((f.pop 1).skip 1)
  else if 0x5f ≤ code ∧ code ≤ 0x7f then
    .running ((f.push (constant dests i.argValue)).skip (1 + (code - 0x5f)))
  else if 0x80 ≤ code ∧ code ≤ 0x8f ∧ code - 0x7f ≤ f.size then
    .running ((f.dup (code - 0x7f)).skip 1)
  else if 0x90 ≤ code ∧ code ≤ 0x9f ∧ code - 0x8f < f.size then
    .running ((f.swap (code - 0x8f)).skip 1)
  else .failed (shortage .stack)

/-- Whether an opcode ends the execution before anything is looked at. -/
def halts (o : Opcode) : Bool :=
  match o.kind with
  | .system => o.isInvalid || o.isRevertStop
  | .jump => o.code != 0x5b && !o.isJump
  | _ => false

/-- Runs an instruction on a frame. -/
def step (i : Instruction) (dests : List Nat) (exit : Nat) (f : Frame) : State :=
  match i.op.kind with
  | .jump => i.stepJump exit f
  | .stack => i.stepStack dests f
  | .system =>
    if i.op.isInvalid || i.op.isRevertStop then .failed (shortage .system)
    else f.exchange i.op.pops i.op.pushes (shortage .system)
  | kind => f.exchange i.op.pops i.op.pushes (shortage kind)

/-- Runs a list of instructions, taking the first way out of each; stops at a failure. -/
def runAll (dests : List Nat) : List Instruction → Frame → State
  | [], f => .running f
  | i :: rest, f =>
    match i.step dests 0 f with
    | .running g => runAll dests rest g
    | .failed m => .failed m

/-- Whether an opcode pushes a constant. -/
def isPush (i : Instruction) : Bool :=
  i.op.kind == .stack && decide (0x5f ≤ i.op.code ∧ i.op.code ≤ 0x7f)

/-- Runs an instruction on any state. A failed state has no stack to look at, and a pushed
constant has to be a number. -/
def step? (i : Instruction) (dests : List Nat) (exit : Nat) (s : State) :
    Except Fault State := do
  if i.isPush then let _ ← i.argValue?
  match s with
  | .running f => return i.step dests exit f
  | .failed _ => if halts i.op then return i.step dests exit default else throw .wrongCase

/-- `runAll` on any state. -/
def runAll? (dests : List Nat) : List Instruction → State → Except Fault State
  | [], s => .ok s
  | i :: rest, s => do
    match ← i.step? dests 0 s with
    | .running g => runAll? dests rest (.running g)
    | .failed m => return .failed m

/-- The states after each instruction of a list, taking the given way out of each, up to and
including the first failure. -/
def trace? (dests : List Nat) (exit : Nat) : List Instruction → State →
    Except Fault (List State)
  | [], _ => .ok []
  | i :: rest, s => do
    let t ← i.step? dests exit s
    match t with
    | .running _ => return t :: (← trace? dests exit rest t)
    | .failed _ => return [t]

end EvmFlow.Instruction
