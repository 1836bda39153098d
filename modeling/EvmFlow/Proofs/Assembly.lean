import EvmFlow.Proofs.HexText
import EvmFlow.Proofs.Layout

/-!
# Assembling and reading back

The text of an instruction is the numeral of its byte and the digits of its argument. An opcode is
found by its own byte, and its byte alone says how many digits follow, so a text that starts with
the text of an instruction is read as that instruction and the rest. Disassembly therefore undoes
assembly, whatever follows the assembled text. In the same way bytes are read as their numerals are.
-/

namespace EvmFlow

variable {is : List Instruction} {i : Instruction} {n : Nat}

/-! ### Loops -/

/-- The loop puts what it reads behind what was there. -/
theorem disassembleOnto_eq (read : List Instruction) (s : List Char) (address : Nat) :
    disassembleOnto read s address = read ++ disassemble s address := by
  fun_induction disassembleOnto read s address with
  | case1 => simp [disassemble]
  | case2 => simp [disassemble]
  | case3 read address c d rest value => simp [disassemble, value]
  | case4 read address c d rest b value op digits unreadable =>
      rw [disassemble, value]
      exact congrArg (read ++ ·) (if_pos unreadable).symm
  | case5 read address c d rest b value op digits readable ih =>
      rw [ih, disassemble, value, List.append_assoc]
      exact congrArg (read ++ ·) (if_neg readable).symm

theorem disassembleBytesOnto_eq (read : List Instruction) (bytes : List Nat) (address : Nat) :
    disassembleBytesOnto read bytes address = read ++ disassembleBytes bytes address := by
  fun_induction disassembleBytesOnto read bytes address with
  | case1 => simp [disassembleBytes]
  | case2 read address b rest op short =>
      rw [disassembleBytes]
      exact congrArg (read ++ ·) (if_pos short).symm
  | case3 read address b rest op long ih =>
      rw [ih, disassembleBytes, List.append_assoc]
      exact congrArg (read ++ ·) (if_neg long).symm

/-! ### One instruction -/

/-- An opcode is found by its own byte. -/
theorem Opcode.ofByte_code (b : Nat) :
    (ofByte b).code < 256 ∧ ofByte (ofByte b).code = ofByte b := by
  refine ofByte_induction (P := fun o => o.code < 256 ∧ ofByte o.code = o) ?_ ?_ ?_ ?_
    (by decide +kernel) b
  · intro k hk
    change 0x5f + k < 256 ∧ ofByte (0x5f + k) = push k
    rw [ofByte, if_pos (by omega), Nat.add_sub_cancel_left]
    exact ⟨by omega, rfl⟩
  · intro k low high
    change 0x7f + k < 256 ∧ ofByte (0x7f + k) = dup k
    rw [ofByte, if_neg (by omega), if_pos (by omega), Nat.add_sub_cancel_left]
    exact ⟨by omega, rfl⟩
  · intro k low high
    change 0x8f + k < 256 ∧ ofByte (0x8f + k) = swap k
    rw [ofByte, if_neg (by omega), if_neg (by omega), if_pos (by omega), Nat.add_sub_cancel_left]
    exact ⟨by omega, rfl⟩
  · intro k hk
    change 0xa0 + k < 256 ∧ ofByte (0xa0 + k) = log k
    rw [ofByte, if_neg (by omega), if_neg (by omega), if_neg (by omega), if_pos (by omega),
      Nat.add_sub_cancel_left]
    exact ⟨by omega, rfl⟩

/-- The text of an instruction. -/
def Instruction.encoding (i : Instruction) : List Char := Hex.fixed 2 i.op.code ++ i.arg

/-- The text of a list of instructions. -/
def assemble (is : List Instruction) : List Char := is.flatMap Instruction.encoding

/-- A text that starts with the numeral of a byte. -/
theorem disassemble_byte {b : Nat} (small : b < 256) (rest : List Char) (address : Nat) :
    disassemble (Hex.fixed 2 b ++ rest) address =
      if rest.length < 2 * (Opcode.ofByte b).argBytes ∨
          ¬ Hex.isText (rest.take (2 * (Opcode.ofByte b).argBytes)) = true then
        [(Unreadable.argument (.ofByte b)).marker address]
      else
        ⟨.ofByte b, rest.take (2 * (Opcode.ofByte b).argBytes), address⟩ ::
          disassemble (rest.drop (2 * (Opcode.ofByte b).argBytes))
            (address + 1 + (Opcode.ofByte b).argBytes) := by
  have value : Hex.value? [Hex.digitChar (b / 16), Hex.digitChar (b % 16)] = some b :=
    Hex.value?_fixed (show b < 16 ^ 2 from small)
  change disassemble (Hex.digitChar (b / 16) :: Hex.digitChar (b % 16) :: rest) address = _
  rw [disassemble, value]

/-- A text that starts with the text of an instruction is read as it and the rest. -/
theorem disassemble_encoding (encoded : i.IsEncoded) (t : List Char) :
    disassemble (i.encoding ++ t) i.address = i :: disassemble t i.nextAddress := by
  obtain ⟨b, op⟩ := encoded.op
  obtain ⟨small, back⟩ := Opcode.ofByte_code b
  rw [← op] at small back
  have digits : (i.arg ++ t).take (2 * i.op.argBytes) = i.arg := List.take_left' encoded.digits
  have behind : (i.arg ++ t).drop (2 * i.op.argBytes) = t := List.drop_left' encoded.digits
  rw [Instruction.encoding, List.append_assoc, disassemble_byte small, back, digits, behind, if_neg,
    Instruction.nextAddress, encoded.size_eq, Nat.add_assoc]
  rw [List.length_append, encoded.digits]
  exact not_or.mpr ⟨by omega, not_not.mpr encoded.hex⟩

/-! ### Lists -/

theorem disassemble_assemble (encoded : ∀ i ∈ is, i.IsEncoded) (laid : Instruction.LaidOut n is)
    (t : List Char) :
    disassemble (assemble is ++ t) n = is ++ disassemble t (n + Segment.bytes is) := by
  induction is generalizing n with
  | nil => rfl
  | cons i rest ih =>
      obtain ⟨first, others⟩ := List.forall_mem_cons.mp encoded
      obtain ⟨rfl, behind⟩ := laid
      rw [assemble, List.flatMap_cons, List.append_assoc, disassemble_encoding first,
        Segment.bytes, ← Nat.add_assoc]
      exact congrArg (i :: ·) (ih others behind)

/-- Disassembly undoes assembly, and goes on behind the assembled text as if it had started there
with the instructions already read. -/
theorem disassembleOnto_assemble (encoded : ∀ i ∈ is, i.IsEncoded)
    (laid : Instruction.LaidOut n is) (read : List Instruction) (t : List Char) :
    disassembleOnto read (assemble is ++ t) n =
        disassembleOnto (read ++ is) t (n + Segment.bytes is) ∧
      disassembleOnto read (assemble is) n = read ++ is := by
  have undone := disassemble_assemble encoded laid
  constructor
  · rw [disassembleOnto_eq, disassembleOnto_eq, undone, List.append_assoc]
  · rw [disassembleOnto_eq, ← List.append_nil (assemble is), undone, disassemble, List.append_nil]

/-- A constant of two bytes is pushed, then memory is written, and half a constant follows. -/
theorem disassembleOnto_assemble_of_cut :
    let read : List Instruction := [⟨.ofByte 0x5b, [], 6⟩]
    let is : List Instruction := [⟨.ofByte 0x61, "0aFf".toList, 7⟩, ⟨.ofByte 0x52, [], 10⟩]
    (∀ i ∈ is, i.IsEncoded) ∧ Instruction.LaidOut 7 is ∧
      assemble is = "610aFf52".toList ∧
      disassembleOnto read (assemble is ++ "600".toList) 7 =
        read ++ is ++ [(Unreadable.argument (.push 1)).marker 11] ∧
      disassembleOnto read (assemble is) 7 = read ++ is := by
  intro read is
  have encoded : ∀ i ∈ is, i.IsEncoded := by
    simp only [is, List.forall_mem_cons, List.not_mem_nil, false_implies, implies_true, and_true]
    exact ⟨⟨⟨0x61, rfl⟩, by decide, by decide⟩, ⟨⟨0x52, rfl⟩, by decide, by decide⟩⟩
  have laid : Instruction.LaidOut 7 is := ⟨rfl, rfl, trivial⟩
  obtain ⟨goesOn, undone⟩ := disassembleOnto_assemble encoded laid read "600".toList
  exact ⟨encoded, laid, by decide, goesOn.trans (by decide +kernel), undone⟩

theorem disassembleBytes_eq {bytes : List Nat} (small : ∀ b ∈ bytes, b < 256) (address : Nat) :
    disassembleBytes bytes address = disassemble (Hex.ofBytes bytes) address := by
  fun_induction disassembleBytes bytes address with
  | case1 => simp [Hex.ofBytes, disassemble]
  | case2 address b rest op short =>
      obtain ⟨first, -⟩ := List.forall_mem_cons.mp small
      rw [Hex.ofBytes_cons, disassemble_byte first, if_pos]
      rw [Hex.length_ofBytes]
      exact .inl (Nat.mul_lt_mul_of_pos_left short (by decide))
  | case3 address b rest op long ih =>
      obtain ⟨first, others⟩ := List.forall_mem_cons.mp small
      have argument : Hex.isText (Hex.ofBytes (rest.take op.argBytes)) = true :=
        Hex.isText_ofBytes fun x hx => others x (List.mem_of_mem_take hx)
      rw [Hex.ofBytes_cons, disassemble_byte first, ← Hex.ofBytes_take, ← Hex.ofBytes_drop,
        Hex.length_ofBytes, if_neg, ih fun x hx => others x (List.mem_of_mem_drop hx)]
      have enough : 2 * op.argBytes ≤ 2 * rest.length :=
        Nat.mul_le_mul_left 2 (Nat.le_of_not_lt long)
      exact not_or.mpr ⟨Nat.not_lt.mpr enough, not_not.mpr argument⟩

/-- Bytes are read as their numerals are. -/
theorem disassembleBytesOnto_eq_text {bytes : List Nat} (small : ∀ b ∈ bytes, b < 256)
    (read : List Instruction) (address : Nat) :
    disassembleBytesOnto read bytes address =
      disassembleOnto read (Hex.ofBytes bytes) address := by
  rw [disassembleBytesOnto_eq, disassembleOnto_eq, disassembleBytes_eq small]

/-- The last constant lacks a byte. -/
theorem disassembleBytesOnto_eq_text_of_cut :
    (∀ b ∈ [0x60, 0xfe, 0x61, 0x07], b < 256) ∧
      disassembleBytesOnto [] [0x60, 0xfe, 0x61, 0x07] 3 =
        [⟨.ofByte 0x60, "fe".toList, 3⟩, (Unreadable.argument (.push 2)).marker 5] ∧
      disassembleBytesOnto [] [0x60, 0xfe, 0x61, 0x07] 3 = disassembleOnto [] "60fe6107".toList 3 := by
  have small : ∀ b ∈ [0x60, 0xfe, 0x61, 0x07], b < 256 := by decide
  exact ⟨small, by decide +kernel, disassembleBytesOnto_eq_text small [] 3⟩

end EvmFlow
