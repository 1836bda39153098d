import EvmFlow.Instruction.Markup
import EvmFlow.Instruction.Precondition
import EvmFlow.Instruction.Statement
import EvmFlow.Obligation
import EvmFlow.Program.Basic

/-!
# Surveys

Tables of what the library computes over a range of small inputs: the first opcodes, and copies of
a sample program. They serve to see at a glance whether something has changed.
-/

namespace EvmFlow.Survey

/-- A program with two nested loops. -/
def doubleLoop : String :=
  "60015f5b600a81106014575060405260206040f35b905f5b600a8110602c57506001600a9101919050600356" ++
    "5b9060020290601756"

/-- How many segments, and how many obligations, a number of copies of the sample program has. -/
def segments (copies : Nat) : List Nat :=
  let p := Program.ofCode (String.join (List.replicate copies doubleLoop)).toList
  [p.segments.length, (p.segments.map Obligation.ofSegment).length]

/-- The instruction of a byte, at the address of the same number, with a zero argument. -/
def instruction (b : Nat) : Instruction :=
  let op := Opcode.ofByte b
  ⟨op, List.replicate (2 * op.argBytes) '0', b⟩

/-- The statements of the first instructions, and multiples of thirteen in decimal. -/
def statements (count : Nat) : List Datum :=
  (List.range count).map (fun b => .bare ((instruction b).statement 1 2)) ++
    (List.range 100).map fun i => .bare (Nat.repr (13 * i))

/-- A stack of the first numbers, the least on top. -/
def ladder : Frame := ⟨0, (List.range 20).map .known⟩

/-- The stack positions from `first` on hold seven, eight and nine. -/
def threeFrom (first : Nat) : Condition := .tracked [(first, 7), (first + 1, 8), (first + 2, 9)]

/-- How an instruction looks, what it needs, where it takes things from, what it does on a stack
with and without operands, and what has to hold before it. -/
def effects (i : Instruction) : List Datum :=
  let (fore, back) := Instruction.colours i.op
  let origin (pos : Nat) : Datum :=
    .either (match i.origin pos with
      | .inl c => .inl c.toDatum
      | .inr p => .inr (.nat p))
  [.tuple [.chars fore.toList, .chars back.toList], .chars (i.table "" "").toList,
    .chars i.text.toList, .bool i.isTerminal, .bool i.isJumpDest, .bool i.isJump, .int i.effect,
    .nat (i.op.operandsNeeded 0), .nat (i.op.capacityNeeded 0), origin 0, origin 2,
    (i.step [] 0 ladder).toDatum, (i.step [] 1 ladder).toDatum, (i.step [] 0 ⟨0, []⟩).toDatum,
    (i.wpre (threeFrom 0)).toDatum, (i.wpre (threeFrom 1)).toDatum]

/-- The effects of the first instructions, and the lines of the first twenty. -/
def semantics (count : Nat) : List Datum :=
  let is := (List.range count).map instruction
  is.flatMap effects ++ [.chars (Instruction.lines (is.take 20)).toList]

end EvmFlow.Survey
