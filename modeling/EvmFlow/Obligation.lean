import EvmFlow.Instruction.Statement
import EvmFlow.Segment.Basic

/-!
# Proof obligations

A segment becomes a proof obligation: a function that runs its instructions on a machine state,
with what the state must have for that and what holds of the result. `Obligation.source` writes
the obligations of a program as one source text.
-/

namespace EvmFlow

/-- How the execution goes on after an obligation. -/
inductive Continuation where
  /-- By a jump, whose target is a cell or a position of the stack on entry. -/
  | jump (target : Cell ⊕ Nat)
  /-- With the next segment. -/
  | next
  /-- Not at all. -/
  | terminal
  deriving DecidableEq, Repr

instance : Inhabited Continuation := ⟨.jump (.inl default)⟩

/-- A segment with the stack sizes it needs. -/
structure Obligation where
  segment : Segment
  operands : Nat
  capacity : Nat
  continuation : Continuation
  deriving DecidableEq, Repr

namespace Obligation

/-- The obligation of a segment. -/
def ofSegment (s : Segment) : Obligation :=
  ⟨s, s.operandsNeeded 0, s.capacityNeeded 0,
    match s.kind with
    | .jump | .jumpi => .jump s.target
    | .cont => .next
    | .ret | .stop | .invalid => .terminal⟩

/-- The obligations of those segments that continue with the next one, all with the same sizes. -/
def continuing (operands capacity : Nat) (segments : List Segment) : List Obligation :=
  (segments.filter (·.kind == .cont)).map fun s => ⟨s, operands, capacity, .next⟩

/-- The name of a kind of obligation. -/
def kindName (o : Obligation) : String :=
  match o.continuation with
  | .jump _ => "JUMP"
  | .next => "CONT"
  | .terminal => "TERMINAL"

/-- Whether the execution goes on in the way that the segment does. -/
def isValid (o : Obligation) : Bool :=
  match o.continuation, o.segment.kind with
  | .jump _, .jump | .jump _, .jumpi => true
  | .next, .cont => true
  | .terminal, .ret | .terminal, .stop | .terminal, .invalid => true
  | _, _ => false

/-- What must hold of the target of a jump. -/
def targetRequirement (o : Obligation) : String :=
  match o.continuation with
  | .jump (.inr pos) =>
    if o.segment.last.isJump then
      "  requires s0.IsJumpDest(s0.Peek(" ++ toString pos ++ "))\n"
    else ""
  | _ => ""

/-- The target of a jump as an expression. -/
def targetText : Cell ⊕ Nat → String
  | .inl (.known v) => "0x" ++ Hex.text v
  | .inl (.unknown _) => "Could not extract value "
  | .inr pos => "s0.Peek(" ++ toString pos ++ ") as nat"

/-- The number of operands afterwards. -/
def operandsText (effect : Int) : String :=
  "  ensures s'.Operands() == s0.Operands()" ++
    (if 0 ≤ effect then " + " ++ toString effect else " - " ++ toString (-effect))

/-- What holds of the resulting state. -/
def guarantee (o : Obligation) : String :=
  let s := o.segment
  match o.continuation with
  | .jump target =>
    "  ensures s'.EXECUTING?\n" ++ "  ensures s'.PC() ==  " ++ targetText target ++
      (if s.last.op.code = 0x57 then " || s'.PC() == 0x" ++ Hex.text (s.last.address + 1)
        else "") ++
      "\n" ++ operandsText s.effect ++ "\n"
  | .next =>
    "  ensures s'.EXECUTING?\n" ++
      (if s.last.op.isInvalid then "  Last instruction is invalid"
      else "  ensures s'.PC() == 0x" ++ Hex.text s.next ++ "\n" ++ operandsText s.effect) ++ "\n"
  | .terminal => "  ensures s'.RETURNS?\n"

/-- The statements of a list of instructions, the first one from state `n`. -/
def statements (n : Nat) : List Instruction → String
  | [] => ""
  | i :: rest => "  " ++ i.statement n (n + 1) ++ "\n" ++ statements (n + 1) rest

/-- The function of an obligation. -/
def function (o : Obligation) (number : Nat) : String :=
  let s := o.segment
  let start := Hex.text s.start
  "\n/** Code starting at 0x" ++ start ++ " */\n" ++
    "function \x7b:opaque\x7d ExecuteFromTag_" ++ toString number ++
    "(s0: EvmState.ExecutingState): (s': EvmState.State)\n" ++
    "  requires s0.PC() == 0x" ++ start ++ " as nat\n" ++
    "  // Net Operands effect " ++ toString s.effect ++ "\n" ++
    "  requires s0.Operands() >= " ++ toString o.operands ++ "\n" ++
    "  // Net Capacity effect " ++ toString (-s.effect) ++ "\n" ++
    "  requires s0.Capacity() >= " ++ toString o.capacity ++ "\n" ++
    o.targetRequirement ++ o.guarantee ++
    "\x7b\n" ++ "  ValidJumpDest(s0);\n" ++ statements 0 s.instructions ++
    "  s" ++ toString s.instructions.length ++ "\n" ++ "\x7d\n"

/-- The functions of a list of obligations, numbered from `n`. -/
def functions (n : Nat) : List Obligation → String
  | [] => ""
  | o :: rest => o.function n ++ functions (n + 1) rest

/-- The lemma that lists the jump destinations, if there are any. -/
def destinations (os : List Obligation) : String :=
  let dests := os.flatMap fun o => o.segment.dests
  if dests.isEmpty then ""
  else
    "/** Lemma for Jumpdest */\n" ++
      "lemma \x7b:axiom\x7d ValidJumpDest(s: EvmState.ExecutingState)\n" ++
      String.join (dests.map fun d => " ensures s.IsJumpDest(0x" ++ Hex.text d ++ " as u256)\n") ++
      "\n"

/-- The inclusions of a library at a path, if one is given. -/
def inclusions (library : String) : String :=
  if library.isEmpty then ""
  else
    "include \"" ++ library ++ "/src/dafny/state.dfy\"\n" ++
      "include \"" ++ library ++ "/src/dafny/bytecode.dfy\"\n\n"

/-- All obligations as one source text. -/
def source (library : String) (os : List Obligation) : String :=
  inclusions library ++ "module DafnyEVMProofObject \x7b\n" ++
    "import opened Int\n" ++ "import EvmState\n" ++ "import opened Bytecode\n" ++
    destinations os ++ functions 0 os ++ "\x7d\n"

/-- The obligation taken apart. -/
def toDatum (o : Obligation) : Datum :=
  let target := match o.continuation with
    | .jump (.inl c) => [Datum.either (.inl c.toDatum)]
    | .jump (.inr n) => [Datum.either (.inr (.nat n))]
    | _ => []
  .node ("ProofObject.ProofObj." ++ o.kindName)
    ([o.segment.toDatum, .nat o.operands, .nat o.capacity] ++ target ++ [.dict []])

end Obligation

end EvmFlow
