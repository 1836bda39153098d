import EvmFlow.Datum

/-!
# Opcodes

An opcode belongs to a kind and says what it needs of the stack and does to it: free slots and
operands that must be there, values taken off and values put on. The bounds `operandsNeeded` and
`capacityNeeded` carry a requirement on the stack after the opcode back to the stack before it.
-/

namespace EvmFlow

/-- What an opcode is about. -/
inductive Kind where
  | arithmetic
  | comparison
  | bitwise
  | keccak
  | environment
  | memory
  | storage
  | jump
  | run
  | stack
  | log
  | system
  deriving DecidableEq, Repr, Inhabited

/-- The short name of a kind. -/
def Kind.name : Kind → String
  | .arithmetic => "ArithOp"
  | .comparison => "CompOp"
  | .bitwise => "BitwiseOp"
  | .keccak => "KeccakOp"
  | .environment => "EnvOp"
  | .memory => "MemOp"
  | .storage => "StorageOp"
  | .jump => "JumpOp"
  | .run => "RunOp"
  | .stack => "StackOp"
  | .log => "LogOp"
  | .system => "SysOp"

/-- An opcode with its stack discipline. -/
structure Opcode where
  kind : Kind
  /-- The mnemonic. -/
  name : String
  /-- The byte that encodes it. -/
  code : Nat
  /-- Free slots that must be there. -/
  minCapacity : Nat
  /-- Operands that must be there. -/
  minOperands : Nat
  /-- Values put on the stack. -/
  pushes : Nat
  /-- Values taken off the stack. -/
  pops : Nat
  deriving DecidableEq, Repr, Inhabited

namespace Opcode

/-- The change of the stack size. -/
def effect (o : Opcode) : Int := (o.pushes : Int) - (o.pops : Int)

/-- Bytes of the argument that follows the opcode: `PUSHk` has `k` of them. -/
def argBytes (o : Opcode) : Nat :=
  if 0x60 ≤ o.code ∧ o.code ≤ 0x7f then o.code - 0x5f else 0

/-- Execution does not simply go on after a terminal opcode. -/
def isTerminal (o : Opcode) : Bool :=
  [0x00, 0x56, 0x57, 0x5c, 0x5d, 0x5e, 0xf3, 0xfd, 0xfe].contains o.code

/-- `JUMP` and `JUMPI`. -/
def isJump (o : Opcode) : Bool := o.code == 0x56 || o.code == 0x57

/-- `JUMPDEST`. -/
def isJumpDest (o : Opcode) : Bool := o.code == 0x5b

/-- `REVERT` and `STOP`. -/
def isRevertStop (o : Opcode) : Bool := o.code == 0xfd || o.code == 0x00

/-- `RETURN`. -/
def isReturn (o : Opcode) : Bool := o.code == 0xf3

/-- `INVALID`. -/
def isInvalid (o : Opcode) : Bool := o.code == 0xfe

/-- Operands that must be there so that the opcode can run and leaves `post` of them. -/
def operandsNeeded (o : Opcode) (post : Nat) : Nat :=
  max o.minOperands (post + o.pops - o.pushes)

/-- Free slots that must be there so that the opcode can run and leaves `post` of them. -/
def capacityNeeded (o : Opcode) (post : Nat) : Nat :=
  max o.minCapacity (post + o.pushes - o.pops)

/-- The numbers of an opcode fit its kind. -/
def isValid (o : Opcode) : Bool :=
  match o.kind with
  | .arithmetic => 0x01 ≤ o.code ∧ o.code ≤ 0x0b ∧ o.pops = 2 ∧ o.pushes = 1
  | .comparison => 0x10 ≤ o.code ∧ o.code ≤ 0x15 ∧ o.pushes ≤ o.pops
  | .bitwise => 0x16 ≤ o.code ∧ o.code ≤ 0x1d ∧ o.pushes ≤ o.pops
  | .keccak => o.code = 0x20 ∧ o.pops = 2 ∧ o.pushes = 1
  | .environment =>
    0x30 ≤ o.code ∧ o.code ≤ 0x48 ∧
      ((o.pushes = 1 ∧ o.pops = 0) ∨ (o.pushes = 1 ∧ o.pops = 1) ∨
        (o.pushes = 0 ∧ o.pops = 3) ∨ (o.pushes = 0 ∧ o.pops = 4))
  | .memory =>
    (o.code = 0x51 ∧ o.pushes = 1 ∧ o.pops = 1) ∨
      (0x52 ≤ o.code ∧ o.code ≤ 0x53 ∧ o.pushes = 0 ∧ o.pops = 2)
  | .storage =>
    (o.code = 0x54 ∧ o.pushes = 1 ∧ o.pops = 1) ∨ (o.code = 0x55 ∧ o.pushes = 0 ∧ o.pops = 2)
  | .jump =>
    ((0x56 ≤ o.code ∧ o.code ≤ 0x57) ∨ (0x5b ≤ o.code ∧ o.code ≤ 0x5e)) ∧ o.pushes = 0
  | .run => 0x58 ≤ o.code ∧ o.code ≤ 0x5a ∧ o.pops = 0 ∧ o.pushes = 1
  | .stack =>
    (o.code = 0x50 ∧ o.pushes = 0 ∧ o.pops = 1) ∨
      (0x5f ≤ o.code ∧ o.code ≤ 0x8f ∧ o.pushes = 1 ∧ o.pops = 0) ∨
      (0x90 ≤ o.code ∧ o.code ≤ 0x9f ∧ o.pushes = 0 ∧ o.pops = 0)
  | .log =>
    0xa0 ≤ o.code ∧ o.code ≤ 0xa4 ∧ o.pushes = 0 ∧ o.pops = o.code - 0xa0 + 2
  | .system =>
    (o.code = 0x00 ∨ o.code = 0xef ∨ (0xf0 ≤ o.code ∧ o.code ≤ 0xff)) ∧ o.pushes ≤ 1

/-- The opcode taken apart. -/
def toDatum (o : Opcode) : Datum :=
  .node ("EVMOpcodes.Opcode." ++ o.kind.name)
    [.text o.name.toList, .nat o.code, .nat o.minCapacity, .nat o.minOperands, .nat o.pushes,
      .nat o.pops]

end Opcode

end EvmFlow
