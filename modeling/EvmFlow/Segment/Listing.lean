import EvmFlow.Segment.Basic

/-!
# Listings

Instructions one a line with their addresses, and segments with what they need of the stack and
where they lead.
-/

namespace EvmFlow

/-- An address in eight digits, as far as these go. -/
def Instruction.addressText (address : Nat) : String :=
  if address < Word.count 32 then String.ofList (Word.u32.write address) else "OutofRange"

/-- Instructions one a line. -/
def Instruction.listing (is : List Instruction) : String :=
  String.join (is.map fun i => addressText i.address ++ ": " ++ i.text ++ "\n")

namespace Segment

/-- Where the final jump of a segment goes. -/
def targetText (s : Segment) : String :=
  match s.target with
  | .inl (.known address) => "0x" ++ Hex.text address
  | .inl (.unknown _) => "Could not determine stack value"
  | .inr pos => "Peek(" ++ Decimal.text pos ++ ")"

/-- What is said of a segment that ends with a jump. -/
def jumpText (s : Segment) : String :=
  if s.isJump then "JUMP/JUMPI: tgt address at the end: " ++ s.targetText ++ "\n" else ""

/-- What is said of a segment that runs into the next one. -/
def contText (s : Segment) : String :=
  if s.kind = .cont then
    (if s.last.op.isInvalid then "CONT: has an invalid instruction" ++ "\n"
    else "CONT: PC of instruction after last is: " ++ " 0x" ++ Hex.text s.next ++ "\n") ++
      "WeakestPre Operands:" ++ Decimal.text (s.operandsNeeded 0) ++ "\n" ++
      "WeakestPre Capacity:" ++ Decimal.text (s.capacityNeeded 0) ++ "\n" ++
      "Net Stack Effect:" ++ toString s.effect ++ "\n"
  else ""

/-- Segments with their instructions, numbered from `n`. -/
def listing (n : Nat) : List Segment → String
  | [] => ""
  | s :: rest =>
    "--------------------------------------------\n" ++ "Segment " ++ Decimal.text n ++ "\n" ++
      s.jumpText ++ s.contText ++ Instruction.listing s.instructions ++ listing (n + 1) rest

end Segment

end EvmFlow
