import EvmFlow.Program.Basic

/-!
# Counts of a program

How many instructions of each family a program has, and how many segments of each kind.
-/

namespace EvmFlow.Program

/-- A count with what is counted. -/
def countLine (what : String) (n : Nat) : String := what ++ ": " ++ Decimal.text n ++ "\n"

/-- The size of a program and its instructions by family. -/
def instructionReport (p : Program) : String :=
  let ops := p.instructions.map (·.op)
  let ofKind (k : Kind) : Nat := ops.countP fun o => o.kind == k
  let system (f : Opcode → Bool) : Nat := ops.countP fun o => o.kind == .system && f o
  "Bytecode Size: " ++ Decimal.text p.size ++ " Bytes\n" ++
    countLine "Number of instructions" ops.length ++
    countLine "Arithmetic opcodes" (ofKind .arithmetic) ++
    countLine "Comparison opcodes" (ofKind .comparison) ++
    countLine "Bitwise opcodes" (ofKind .bitwise) ++
    countLine "Keccak opcodes" (ofKind .keccak) ++
    countLine "Environmental opcodes" (ofKind .environment) ++
    countLine "Storage opcodes" (ofKind .storage) ++
    countLine "Memory opcodes" (ofKind .memory) ++
    countLine "Stack opcodes" (ofKind .stack) ++
    countLine "Jump opcodes" (ofKind .jump) ++
    countLine "Log opcodes" (ofKind .log) ++
    countLine "Revert/stop opcodes" (system Opcode.isRevertStop) ++
    countLine "Return opcodes" (system Opcode.isReturn) ++
    countLine "Invalid opcodes" (system Opcode.isInvalid) ++
    countLine "Other Systems opcodes"
      (system fun o => !o.isInvalid && !o.isRevertStop && !o.isReturn)

/-- The segments of a program by kind. -/
def segmentReport (p : Program) : String :=
  let ofKind (k : SegmentKind) : Nat := p.segments.countP fun s => s.kind == k
  countLine "Total number of segments" p.segments.length ++
    countLine "# of JUMP segments" (ofKind .jump) ++
    countLine "# of JUMPI segments" (ofKind .jumpi) ++
    countLine "# of RETURN segments" (ofKind .ret) ++
    countLine "# of STOP segments" (ofKind .stop) ++
    countLine "# of CONT segments" (ofKind .cont) ++
    countLine "# of INVALID segments" (ofKind .invalid)

end EvmFlow.Program
