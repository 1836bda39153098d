import EvmFlow.Instruction.Basic

/-!
# Disassembly

`disassemble` reads a hexadecimal text as a list of instructions at consecutive addresses, and
`disassembleBytes` does the same for a list of bytes. Where the text cannot be read the list ends
with a marker that says why: a single character is left, two characters are no byte, or the
argument of an opcode is missing or is not hexadecimal.

`disassembleOnto` and `disassembleBytesOnto` go on with a list of instructions that is already
there. They are loops, which need no stack for a long text.
-/

namespace EvmFlow

/-- The marker for a place that cannot be read. -/
def Instruction.marker (reason : List Char) (address : Nat) : Instruction :=
  ⟨.invalid, reason, address⟩

/-- Why a text cannot be read on. -/
inductive Unreadable where
  /-- A single character is left. -/
  | odd (c : Char)
  /-- Two characters that are no byte. -/
  | notHex (c d : Char)
  /-- The argument of an opcode is missing or is not hexadecimal. -/
  | argument (o : Opcode)
  deriving DecidableEq, Repr

/-- The wording of a reason. -/
def Unreadable.message : Unreadable → List Char
  | .odd c => "Odd number of characters ending in ".toList ++ [c]
  | .notHex c d => '\'' :: c :: d :: "' is not an Hex number".toList
  | .argument o => "not enough arguments for opcode ".toList ++ o.name.toList

/-- The marker with the wording of a reason. -/
def Unreadable.marker (u : Unreadable) (address : Nat) : Instruction :=
  .marker u.message address

/-- The instructions that a hexadecimal text writes, the first one at `address`. -/
def disassemble (s : List Char) (address : Nat) : List Instruction :=
  match s with
  | [] => []
  | [c] => [(Unreadable.odd c).marker address]
  | c :: d :: rest =>
    match Hex.value? [c, d] with
    | none => [(Unreadable.notHex c d).marker address]
    | some b =>
      let op := Opcode.ofByte b
      let digits := rest.take (2 * op.argBytes)
      if rest.length < 2 * op.argBytes ∨ ¬ Hex.isText digits then
        [(Unreadable.argument op).marker address]
      else
        ⟨op, digits, address⟩ ::
          disassemble (rest.drop (2 * op.argBytes)) (address + 1 + op.argBytes)
termination_by s.length
decreasing_by
  simp only [List.length_drop, List.length_cons]
  omega

/-- The instructions that a list of bytes encodes, the first one at `address`. -/
def disassembleBytes (bytes : List Nat) (address : Nat) : List Instruction :=
  match bytes with
  | [] => []
  | b :: rest =>
    let op := Opcode.ofByte b
    if rest.length < op.argBytes then [(Unreadable.argument op).marker address]
    else
      ⟨op, Hex.ofBytes (rest.take op.argBytes), address⟩ ::
        disassembleBytes (rest.drop op.argBytes) (address + 1 + op.argBytes)
termination_by bytes.length
decreasing_by
  simp only [List.length_drop, List.length_cons]
  omega

/-- Goes on with the instructions `read` by those that a hexadecimal text writes. -/
def disassembleOnto (read : List Instruction) (s : List Char) (address : Nat) :
    List Instruction :=
  match s with
  | [] => read
  | [c] => read ++ [(Unreadable.odd c).marker address]
  | c :: d :: rest =>
    match Hex.value? [c, d] with
    | none => read ++ [(Unreadable.notHex c d).marker address]
    | some b =>
      let op := Opcode.ofByte b
      let digits := rest.take (2 * op.argBytes)
      if rest.length < 2 * op.argBytes ∨ ¬ Hex.isText digits then
        read ++ [(Unreadable.argument op).marker address]
      else
        disassembleOnto (read ++ [⟨op, digits, address⟩]) (rest.drop (2 * op.argBytes))
          (address + 1 + op.argBytes)
termination_by s.length
decreasing_by
  simp only [List.length_drop, List.length_cons]
  omega

/-- Goes on with the instructions `read` by those that a list of bytes encodes. -/
def disassembleBytesOnto (read : List Instruction) (bytes : List Nat) (address : Nat) :
    List Instruction :=
  match bytes with
  | [] => read
  | b :: rest =>
    let op := Opcode.ofByte b
    if rest.length < op.argBytes then read ++ [(Unreadable.argument op).marker address]
    else
      disassembleBytesOnto (read ++ [⟨op, Hex.ofBytes (rest.take op.argBytes), address⟩])
        (rest.drop op.argBytes) (address + 1 + op.argBytes)
termination_by bytes.length
decreasing_by
  simp only [List.length_drop, List.length_cons]
  omega

end EvmFlow
