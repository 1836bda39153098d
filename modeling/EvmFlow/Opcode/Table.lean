import EvmFlow.Opcode.Basic

/-!
# The opcode table

`Opcode.ofByte` decodes a byte. The families `PUSHk`, `DUPk`, `SWAPk` and `LOGk` are ranges of
bytes and are computed from the byte; the rest is a table. A byte that encodes nothing decodes to
`INVALID`, whose own byte is `0xfe`.
-/

namespace EvmFlow.Opcode

/-- Halts without output. -/
def stop : Opcode := ⟨.system, "STOP", 0x00, 0, 0, 0, 0⟩

/-- What every undefined byte decodes to. -/
def invalid : Opcode := ⟨.system, "INVALID", 0xfe, 0, 0, 0, 0⟩

/-- Consumes two operands and leaves one result. -/
private def binary (kind : Kind) (name : String) (code : Nat) : Opcode :=
  ⟨kind, name, code, 0, 2, 1, 2⟩

/-- Replaces one operand by one result. -/
private def unary (kind : Kind) (name : String) (code : Nat) : Opcode :=
  ⟨kind, name, code, 0, 1, 1, 1⟩

/-- Puts one value on the stack and needs a free slot for it. -/
private def source (kind : Kind) (name : String) (code : Nat) : Opcode :=
  ⟨kind, name, code, 1, 0, 1, 0⟩

/-- Consumes `n` operands and leaves nothing. -/
private def sink (kind : Kind) (name : String) (code n : Nat) : Opcode :=
  ⟨kind, name, code, 0, n, 0, n⟩

/-- Consumes `n` operands, leaves one result and asks for a free slot. -/
private def call (name : String) (code n : Nat) : Opcode :=
  ⟨.system, name, code, 1, n, 1, n⟩

/-- `PUSHk`: puts a constant of `k` bytes on the stack. -/
def push (k : Nat) : Opcode := source .stack ("PUSH" ++ toString k) (0x5f + k)

/-- `DUPk`: puts a copy of the `k`-th element on the stack. -/
def dup (k : Nat) : Opcode := ⟨.stack, "DUP" ++ toString k, 0x7f + k, 1, k, 1, 0⟩

/-- `SWAPk`: exchanges the top with the element `k` below it. -/
def swap (k : Nat) : Opcode := ⟨.stack, "SWAP" ++ toString k, 0x8f + k, 0, k + 1, 0, 0⟩

/-- `LOGk`: consumes an address, a size and `k` topics. -/
def log (k : Nat) : Opcode := sink .log ("LOG" ++ toString k) (0xa0 + k) (k + 2)

/-- The opcodes outside the four families. -/
def table : List Opcode :=
  [stop,
    binary .arithmetic "ADD" 0x01,
    binary .arithmetic "MUL" 0x02,
    binary .arithmetic "SUB" 0x03,
    binary .arithmetic "DIV" 0x04,
    binary .arithmetic "SDIV" 0x05,
    binary .arithmetic "MOD" 0x06,
    binary .arithmetic "SMOD" 0x07,
    binary .arithmetic "ADDMOD" 0x08,
    binary .arithmetic "MULMOD" 0x09,
    binary .arithmetic "EXP" 0x0a,
    binary .arithmetic "SIGNEXTEND" 0x0b,
    binary .comparison "LT" 0x10,
    binary .comparison "GT" 0x11,
    binary .comparison "SLT" 0x12,
    binary .comparison "SGT" 0x13,
    binary .comparison "EQ" 0x14,
    unary .comparison "ISZERO" 0x15,
    binary .bitwise "AND" 0x16,
    binary .bitwise "OR" 0x17,
    binary .bitwise "XOR" 0x18,
    unary .bitwise "NOT" 0x19,
    binary .bitwise "BYTE" 0x1a,
    binary .bitwise "SHL" 0x1b,
    binary .bitwise "SHR" 0x1c,
    binary .bitwise "SAR" 0x1d,
    binary .keccak "KECCAK256" 0x20,
    source .environment "ADDRESS" 0x30,
    unary .environment "BALANCE" 0x31,
    source .environment "ORIGIN" 0x32,
    source .environment "CALLER" 0x33,
    source .environment "CALLVALUE" 0x34,
    unary .environment "CALLDATALOAD" 0x35,
    source .environment "CALLDATASIZE" 0x36,
    sink .environment "CALLDATACOPY" 0x37 3,
    source .environment "CODESIZE" 0x38,
    sink .environment "CODECOPY" 0x39 3,
    source .environment "GASPRICE" 0x3a,
    unary .environment "EXTCODESIZE" 0x3b,
    sink .environment "EXTCODECOPY" 0x3c 4,
    source .environment "RETURNDATASIZE" 0x3d,
    sink .environment "RETURNDATACOPY" 0x3e 3,
    unary .environment "EXTCODEHASH" 0x3f,
    unary .environment "BLOCKHASH" 0x40,
    source .environment "COINBASE" 0x41,
    source .environment "TIMESTAMP" 0x42,
    source .environment "NUMBER" 0x43,
    source .environment "DIFFICULTY" 0x44,
    source .environment "GASLIMIT" 0x45,
    source .environment "CHAINID" 0x46,
    source .environment "SELFBALANCE" 0x47,
    source .environment "BASEFEE" 0x48,
    sink .stack "POP" 0x50 1,
    unary .memory "MLOAD" 0x51,
    sink .memory "MSTORE" 0x52 2,
    sink .memory "MSTORE8" 0x53 2,
    unary .storage "SLOAD" 0x54,
    sink .storage "SSTORE" 0x55 2,
    sink .jump "JUMP" 0x56 1,
    sink .jump "JUMPI" 0x57 2,
    source .run "PC" 0x58,
    source .run "MSIZE" 0x59,
    source .run "GAS" 0x5a,
    sink .jump "JUMPDEST" 0x5b 0,
    sink .jump "RJUMP" 0x5c 1,
    sink .jump "RJUMPI" 0x5d 2,
    sink .jump "RJUMPV" 0x5e 2,
    call "CREATE" 0xf0 3,
    call "CALL" 0xf1 7,
    call "CALLCODE" 0xf2 7,
    sink .system "RETURN" 0xf3 2,
    call "DELEGATECALL" 0xf4 6,
    call "CREATE2" 0xf5 4,
    call "STATICCALL" 0xfa 6,
    sink .system "REVERT" 0xfd 2,
    invalid,
    sink .system "SELFDESTRUCT" 0xff 1]

/-- The opcode that a byte encodes. -/
def ofByte (b : Nat) : Opcode :=
  if 0x5f ≤ b ∧ b ≤ 0x7f then push (b - 0x5f)
  else if 0x80 ≤ b ∧ b ≤ 0x8f then dup (b - 0x7f)
  else if 0x90 ≤ b ∧ b ≤ 0x9f then swap (b - 0x8f)
  else if 0xa0 ≤ b ∧ b ≤ 0xa4 then log (b - 0xa0)
  else (table.find? fun o => o.code == b).getD invalid

/-- The byte of a mnemonic. `EOF` names a reserved byte that encodes nothing. -/
def byteOf? (name : String) : Option Nat :=
  if name = "EOF" then some 0xef
  else (List.range 0x100).find? fun b => (ofByte b).name == name && (ofByte b).code == b

end EvmFlow.Opcode
