import EvmFlow.Decimal

/-!
# Explanations of opcodes

For each byte that encodes an opcode: a sentence on what the opcode does, the line of the
reference semantics that defines it, and what it costs. The notes are looked up by byte, so bytes
that all decode to `INVALID` may still differ here.
-/

namespace EvmFlow

/-! ### Gas -/

namespace Gas

/-- The amounts of gas that operations cost or return are named after the operation. -/
def zero : Nat := 0
def jumpDest : Nat := 1
def base : Nat := 2
def veryLow : Nat := 3
def low : Nat := 5
def mid : Nat := 8
def high : Nat := 10
def blockHash : Nat := 20
def warmAccess : Nat := 100
def coldAccountAccess : Nat := 2600
def coldSload : Nat := 2100
def storageSet : Nat := 20000
def storageReset : Nat := 2900
def storageClearRefund : Nat := 15000
def selfDestructRefund : Nat := 24000
def selfDestruct : Nat := 5000
def create : Nat := 32000
def codeDeposit : Nat := 200
def callValue : Nat := 9000
def callStipend : Nat := 2300
def newAccount : Nat := 25000
def exp : Nat := 10
def expByte : Nat := 50
def memory : Nat := 3
def txCreate : Nat := 32000
def txDataZero : Nat := 4
def txDataNonZero : Nat := 16
def transaction : Nat := 21000
def log : Nat := 375
def logData : Nat := 8
def logTopic : Nat := 375
def keccak : Nat := 30
def keccakWord : Nat := 6
def copy : Nat := 3

/-- The amounts by name. Names that begin with `R` are refunds. -/
def amounts : List (String × Nat) :=
  [("G_ZERO", zero), ("G_JUMPDEST", jumpDest), ("G_BASE", base), ("G_VERYLOW", veryLow),
    ("G_LOW", low), ("G_MID", mid), ("G_HIGH", high), ("G_BLOCKHASH", blockHash),
    ("G_WARMACCESS", warmAccess), ("G_COLDACCOUNTACCESS", coldAccountAccess),
    ("G_COLDSLOAD", coldSload), ("G_SSET", storageSet), ("G_SRESET", storageReset),
    ("R_SCLEAR", storageClearRefund), ("R_SELFDESTRUCT", selfDestructRefund),
    ("G_SELFDESTRUCT", selfDestruct), ("G_CREATE", create), ("G_CODEDEPOSIT", codeDeposit),
    ("G_CALLVALUE", callValue), ("G_CALLSTIPEND", callStipend), ("G_NEWACCOUNT", newAccount),
    ("G_EXP", exp), ("G_EXPBYTE", expByte), ("G_MEMORY", memory), ("G_TXCREATE", txCreate),
    ("G_TXDATAZERO", txDataZero), ("G_TXDATANONZERO", txDataNonZero),
    ("G_TRANSACTION", transaction), ("G_LOG", log), ("G_LOGDATA", logData),
    ("G_LOGTOPIC", logTopic), ("G_KECCAK256", keccak), ("G_KECCAK256WORD", keccakWord),
    ("G_COPY", copy)]

/-- What is said of an opcode whose cost is not a constant. -/
def unfixed : String := "Depends on memory expansion"

/-- The cost of the opcode that a byte encodes. -/
def ofByte (b : Nat) : String :=
  if b = 0x00 then Decimal.text zero
  else if [0x02, 0x04, 0x05, 0x06, 0x07, 0x0b, 0x47].contains b then Decimal.text low
  else if [0x08, 0x09, 0x56].contains b then Decimal.text mid
  else if b = 0x57 then Decimal.text high
  else if b = 0x40 then Decimal.text blockHash
  else if b = 0x5b then Decimal.text jumpDest
  else if [0x01, 0x03, 0x35, 0xfe].contains b ∨ (0x10 ≤ b ∧ b ≤ 0x1d) ∨ (0x5f ≤ b ∧ b ≤ 0x9f) then
    Decimal.text veryLow
  else if [0x30, 0x32, 0x33, 0x34, 0x36, 0x38, 0x3a, 0x3d, 0x48, 0x50].contains b ∨
      (0x41 ≤ b ∧ b ≤ 0x46) ∨ (0x58 ≤ b ∧ b ≤ 0x5a) then
    Decimal.text base
  else if [0x0a, 0x20, 0x37, 0x39, 0x3b, 0x3c, 0x3e, 0x3f, 0xfa, 0xfd, 0xff].contains b ∨
      (0x51 ≤ b ∧ b ≤ 0x55) ∨ (0xa0 ≤ b ∧ b ≤ 0xa4) ∨ (0xf0 ≤ b ∧ b ≤ 0xf5) then
    unfixed
  else "Unknown opcode"

/-- Where the costs are defined. -/
def reference : String :=
  "https://github.com/Consensys/evm-dafny/blob/" ++
    "60bce44ee75978a4c97b9eab8e03424c9c233bbd/src/dafny/evm.dfy#L103"

end Gas

/-! ### Notes -/

namespace Note

/-- Where the opcodes are defined; a line number follows. -/
def reference : String :=
  "https://github.com/Consensys/evm-dafny/blob/" ++
    "60bce44ee75978a4c97b9eab8e03424c9c233bbd/src/dafny/bytecode.dfy#L"

/-- The rank of the `k`-th element of the stack in words. -/
def ordinal (k : Nat) : String :=
  if k = 1 then "1st"
  else if k = 2 then "2nd"
  else if k = 3 then "3rd"
  else Decimal.text k ++ "-th"

/-- The explanations outside the four families: byte, sentence, line. -/
def table : List (Nat × String × Nat) :=
  [(0x00, "Halts the machine without return output data", 32),
    (0x01, "Unsigned integer addition modulo TWO_256", 40),
    (0x02, "Unsigned integer multiplication modulo TWO_256", 61),
    (0x03, "Unsigned integer subtraction modulo TWO_256", 81),
    (0x04, "Unsigned integer division modulo TWO_256. Div by 0 yields 0", 154),
    (0x05, "Signed integer division modulo TWO_256. Div by 0 yields 0", 173),
    (0x06, "Unsigned modulo remainder", 195),
    (0x07, "Signed modulo remainder", 211),
    (0x08, "Unsigned integer addition modulo", 230),
    (0x09, "Unsigned integer multiplication modulo", 250),
    (0x0a, "Exponential", 272),
    (0x0b, "Extend length of two's complement signed integer", 291),
    (0x10, "Unsigned Less than", 314),
    (0x11, "Unsigned Greater than", 336),
    (0x12, "Signed less than", 358),
    (0x13, "Signed greater than", 380),
    (0x14, "equal", 402),
    (0x15, "Is equal to zero", 424),
    (0x16, "Bitwise AND", 445),
    (0x17, "Bitwise OR", 464),
    (0x18, "Bitwise XOR", 484),
    (0x19, "Bitwise NOT", 504),
    (0x1a, "Extract a byte from a word.", 522),
    (0x1b, "Left shift", 541),
    (0x1c, "Right shift", 560),
    (0x1d, "Arithmetic (signed) right shift operation", 579),
    (0x20, "Keccak 256 hash", 598),
    (0x30, "Address of current executing account", 640),
    (0x31, "Balance of a given account", 655),
    (0x32, "Originator's address", 676),
    (0x33, "Caller address", 692),
    (0x34, "Value deposited by function call", 707),
    (0x35, "Input data for this call", 723),
    (0x36, "Size of the input data", 742),
    (0x37, "Copy input data to memory", 759),
    (0x38, "Size of the code of this contract", 783),
    (0x39, "Copy the executing code to memory", 799),
    (0x3a, "Gas price in current block", 824),
    (0x3b, "Size of the calling account's code", 839),
    (0x3c, "Copy account's code to memory", 866),
    (0x3d, "Size of return data from previous call", 920),
    (0x3e, "Copy return data from previous call to memory", 937),
    (0x3f, "Hash of account's code", 895),
    (0x40, "Hash of current block", 626),
    (0x41, "Current block's beneficiay address", 970),
    (0x42, "Current block's timestamp", 985),
    (0x43, "Current block's number", 1000),
    (0x44, "Current block's difficulty", 1015),
    (0x45, "Current block's gas limit", 1030),
    (0x46, "Chain ID", 1045),
    (0x47, "Balance of currently executing account", 1060),
    (0x48, "Base fee for the currently executing block", 1080),
    (0x50, "Pop top of stack", 1097),
    (0x51, "Read a word from memory", 1133),
    (0x52, "Store a word to memory", 1165),
    (0x53, "Store a byte to memory", 1195),
    (0x54, "Read a word from storage", 1214),
    (0x55, "Store a word to storage", 1233),
    (0x56, "Uncoditional Jump", 1255),
    (0x57, "Conditional Jump", 1277),
    (0x58, "Value of program counter", 1302),
    (0x59, "Size of allocated memory", 1113),
    (0x5a, "Amount of available gas", 1318),
    (0x5b, "A valid destination for a jump", 1334),
    (0x5c, "Static relative jump using a given offset", 1343),
    (0x5d, "Conditional Static relative jump using a given offset", 1363),
    (0x5e, "Relative jump via a jump table of one or more relative offsets", 1392),
    (0x5f, "Push 0 on stack", 1428),
    (0xf0, "Create a new account with associated code", 1629),
    (0xf1, "Message-call into an account", 1674),
    (0xf2, "Message-call into this account with another account's code", 1711),
    (0xf3, "Halt execution and return data", 1742),
    (0xf4, "Message-call into this account with an alternative account's code", 1764),
    (0xf5, "Create a new account with associated code", 1799),
    (0xfa, "Static Message-call into an account", 1844),
    (0xfd, "Revert execution and return data", 1874),
    (0xfe, "Equivalent to STOP", 32),
    (0xff, "Delete this account", 1896)]

/-- What the opcode of a byte does, and the line that defines it. -/
def ofByte (b : Nat) : String × Nat :=
  if b = 0x60 then ("Push 1 byte", 1479)
  else if 0x60 < b ∧ b ≤ 0x7f then
    ("Push " ++ Decimal.text (b - 0x5f) ++ " bytes", min (1479 + 7 * (b - 0x60)) 1535)
  else if 0x80 ≤ b ∧ b ≤ 0x8f then
    ("Duplicate " ++ ordinal (b - 0x7f) ++ " element on top of the stack", 1568)
  else if 0x90 ≤ b ∧ b ≤ 0x9f then
    ("Swap top and " ++ ordinal (b - 0x8e) ++ " element of the stack", 1577)
  else if 0xa0 ≤ b ∧ b ≤ 0xa4 then
    ("Append log with " ++ Decimal.text (b - 0xa0) ++ " topics", 1600)
  else (table.lookup b).getD ("N/A", 0)

end Note

end EvmFlow
