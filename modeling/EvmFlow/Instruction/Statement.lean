import EvmFlow.Instruction.Basic

/-!
# Instructions as statements

In a generated proof obligation an instruction becomes a statement that computes the next machine
state from the last one. States are numbered, with decimal numerals that are written here. Only
some opcodes have a statement.
-/

namespace EvmFlow.Instruction

/-- A digit in the number of a state. Values past nine are written as the largest digit. -/
def stateDigit (n : Nat) : Char :=
  (['0', '1', '2', '3', '4', '5', '6', '7', '8'][n]?).getD '9'

/-- The number of a state: the number of tens, then the digit that is left. -/
def stateNumeral (n : Nat) : List Char :=
  if n < 10 then [stateDigit n] else stateNumeral (n / 10) ++ [stateDigit (n % 10)]

/-- The name of the machine state with a number. -/
def stateName (n : Nat) : String := "s" ++ String.ofList (stateNumeral n)

/-- The function of the machine's semantics for an opcode, and its argument after the state. -/
def semantics? (i : Instruction) : Option (String × String) :=
  let code := i.op.code
  if 0x80 ≤ code ∧ code ≤ 0x8f then some ("Dup", ", " ++ Nat.repr (code - 0x7f))
  else if 0x90 ≤ code ∧ code ≤ 0x9f then some ("Swap", ", " ++ Nat.repr (code - 0x8f))
  else if code = 0x60 then some ("Push1", ", 0x" ++ String.ofList i.arg)
  else
    ([(0x01, "Add"), (0x02, "Mul"), (0x03, "Sub"), (0x04, "Div"), (0x05, "SDiv"), (0x06, "Mod"),
      (0x07, "SMod"), (0x08, "AddMod"), (0x09, "MulMod"), (0x0a, "Exp"), (0x0b, "SignExtended"),
      (0x10, "Bytecode.Lt"), (0x50, "Pop"), (0x52, "Bytecode.MStore"), (0x56, "Jump"),
      (0x57, "JumpI"), (0x5b, "JumpDest"), (0x5f, "Push0"), (0xf3, "Return")].lookup code).map
      fun name => (name, "")

/-- The statement that takes state `src` to state `tgt`. -/
def statement (i : Instruction) (src tgt : Nat) : String :=
  match i.semantics? with
  | some (name, rest) =>
    "var " ++ stateName tgt ++ " := " ++ name ++ "(" ++ stateName src ++ rest ++ ");"
  | none => "Unknwon instruction:" ++ i.op.name

end EvmFlow.Instruction
