import EvmFlow.Opcode.Table
import EvmFlow.Word

/-!
# Instructions

An instruction is an opcode at an address, with the hexadecimal digits of its argument. The
marker that stands where a text could not be read is an `INVALID` instruction whose argument is
the explanation.
-/

namespace EvmFlow

/-- An opcode at an address. -/
structure Instruction where
  op : Opcode
  /-- The digits of the argument, or the explanation of a marker. -/
  arg : List Char
  address : Nat
  deriving DecidableEq, Repr

instance : Inhabited Instruction := ⟨⟨.stop, [], 0⟩⟩

namespace Instruction

/-- Bytes that the instruction takes: one for the opcode, one for two digits of its argument. -/
def size (i : Instruction) : Nat := 1 + i.arg.length / 2

/-- The address of the byte behind the instruction. -/
def nextAddress (i : Instruction) : Nat := i.address + i.size

/-- The instruction as it is listed. -/
def text (i : Instruction) : String :=
  if i.op.isInvalid then i.op.name ++ " " ++ String.ofList i.arg
  else i.op.name ++ (if i.arg.isEmpty then "" else " 0x" ++ String.ofList i.arg)

/-- The same opcode with the same argument, wherever they stand. -/
def equivalent (i j : Instruction) : Bool := i.op == j.op && i.arg == j.arg

/-- Whether execution does not simply go on behind the instruction. -/
def isTerminal (i : Instruction) : Bool := i.op.isTerminal

/-- Whether the instruction marks a jump destination. -/
def isJumpDest (i : Instruction) : Bool := i.op.isJumpDest

/-- Whether the instruction is a jump. -/
def isJump (i : Instruction) : Bool := i.op.isJump

/-- The change of the stack size. -/
def effect (i : Instruction) : Int := i.op.effect

/-- The digits of the argument filled up with zeros to a word. -/
def wordDigits (i : Instruction) : List Char := List.replicate (64 - i.arg.length) '0' ++ i.arg

/-- The word that the argument writes. -/
def argValue? (i : Instruction) : Except Fault Nat := do
  match ← Word.u256.read? i.wordDigits with
  | some n => return n
  | none => throw .wrongCase

/-- The word that the argument writes; zero if it writes none. -/
def argValue (i : Instruction) : Nat := i.argValue?.toOption.getD 0

/-- The instruction taken apart. -/
def toDatum (i : Instruction) : Datum :=
  .node "Instructions.Instruction.Instruction" [i.op.toDatum, .text i.arg, .nat i.address]

end Instruction

end EvmFlow
