import EvmFlow.Proofs.Addresses

/-!
# The size of a program and the size of its text

The size of a program is added up from its instructions, and an instruction takes one byte for its
opcode and one for two characters of its argument. For an instruction that is written in the text
these are its bytes. A marker has the wording of a reason in the place of an argument, and is as
large as that wording is long.

A text of whole bytes is stuck only where it ends within the argument of a `PUSH`. So the size is
that of the text if the text is not cut there; if it is, the marker counts for nineteen or twenty
bytes, whatever is left of the instruction.
-/

namespace EvmFlow

variable {code : List Char} {k n : Nat}

/-- At a boundary stands the byte of `PUSHn`, and the text ends before its argument does. -/
structure CutAt (code : List Char) (k n : Nat) : Prop where
  boundary : Boundary code k
  byte : byteAt? code k = some (0x5f + n)
  width : n ≤ 32
  short : code.length / 2 < k + 1 + n

/-! ### Where a text of whole bytes is stuck -/

theorem Opcode.ofByte_push (width : n ≤ 32) : ofByte (0x5f + n) = push n := by
  rw [ofByte, if_pos (by omega), Nat.add_sub_cancel_left]

theorem Opcode.argBytes_push (width : n ≤ 32) : (push n).argBytes = n := by
  change (if 0x60 ≤ 0x5f + n ∧ 0x5f + n ≤ 0x7f then 0x5f + n - 0x5f else 0) = n
  split <;> omega

/-- Only the bytes of `PUSH` ask for an argument. -/
theorem Opcode.byte_of_argBytes {b : Nat} (argument : 0 < (ofByte b).argBytes) :
    b = 0x5f + (ofByte b).argBytes ∧ (ofByte b).argBytes ≤ 32 := by
  rcases code_ofByte b with own | undefined
  · rw [argBytes, own] at argument ⊢
    split at argument
    · rename_i range
      rw [if_pos range]
      omega
    · cases argument
  · rw [undefined] at argument
    cases argument

/-- In a text of whole bytes nothing but a `PUSH` whose argument is cut cannot be read. -/
theorem Unreadable.At.exists_push {u : Unreadable} (stuck : u.At code k)
    (hex : Hex.isText code = true) (even : 2 ∣ code.length) :
    ∃ n ≤ 32, byteAt? code k = some (0x5f + n) ∧ code.length / 2 < k + 1 + n := by
  cases stuck with
  | odd left =>
      have length := congrArg List.length left
      rw [List.length_drop, List.length_singleton] at length
      omega
  | @notHex c d rest left pair =>
      have sub : c :: d :: rest ⊆ code := left ▸ List.drop_subset _ _
      rcases pair with none | none
      · exact absurd none (Hex.digit?_ne_none hex (sub (by simp)))
      · exact absurd none (Hex.digit?_ne_none hex (sub (by simp)))
  | @argument b byte missing =>
      have digits : Hex.isText ((code.drop (2 * k + 2)).take (2 * (Opcode.ofByte b).argBytes)) =
          true :=
        Hex.isText_of_subset hex
          (List.Subset.trans (List.take_subset _ _) (List.drop_subset _ _))
      have short := missing.resolve_right (by simp [digits])
      obtain ⟨own, width⟩ := Opcode.byte_of_argBytes (b := b) (by omega)
      have inside := lt_of_byteAt? byte
      rw [List.length_drop] at short
      rw [own] at byte
      exact ⟨_, width, byte, by omega⟩

theorem CutAt.stuck (cut : CutAt code k n) (even : 2 ∣ code.length) :
    (Unreadable.argument (.push n)).At code k := by
  rw [← Opcode.ofByte_push cut.width]
  refine .argument cut.byte (.inl ?_)
  have inside := lt_of_byteAt? cut.byte
  have short := cut.short
  rw [Opcode.ofByte_push cut.width, Opcode.argBytes_push cut.width, List.length_drop]
  omega

/-! ### Sizes -/

namespace Program

/-- The bytes of a program are those of its instructions. -/
theorem size_eq_bytes (p : Program) :
    p.size = Segment.bytes (p.segments.flatMap Segment.instructions) := by
  rw [size]
  induction p.segments with
  | nil => rfl
  | cons s rest ih =>
      rw [List.foldr_cons, ih, List.flatMap_cons, Instruction.bytes_append]
      rfl

/-- The wording for a `PUSH` that is cut counts for more bytes if the opcode has two digits. -/
theorem size_marker_push (a : Nat) (width : n ≤ 32) :
    ((Unreadable.argument (.push n)).marker a).size = if n < 10 then 19 else 20 := by
  have all : ∀ n ≤ 32, 1 + (Unreadable.argument (.push n)).message.length / 2 =
      if n < 10 then 19 else 20 := by decide +kernel
  exact all n width

/-- A text that is nowhere stuck has the size of its program. -/
theorem size_ofCode_of_readable (readable : ∀ k u, ¬ Unreadable.FirstAt code k u) :
    2 * (ofCode code).size = code.length := by
  rw [size_eq_bytes, instructions_ofCode]
  exact ((reading_start code 0).covers.whole readable).2

/-- A marker adds its own size to the bytes before the place that it marks. -/
theorem size_ofCode_of_firstAt {u : Unreadable} (first : u.FirstAt code k) :
    (ofCode code).size = k + (u.marker k).size := by
  have reading := reading_start code 0
  obtain ⟨front, shape⟩ := List.getLast?_eq_some_iff.mp (reading.covers.marked k u first)
  have laid := reading.laidOut
  rw [shape] at laid
  have place : 0 + k = 0 + 0 + Segment.bytes front := laid.address_eq
  rw [size_eq_bytes, instructions_ofCode, shape, Instruction.bytes_append, Segment.bytes,
    Segment.bytes, Nat.add_zero, Nat.zero_add]
  omega

/-- Let a text have whole bytes. If it does not end within the argument of a `PUSH`, the size of the
program is the number of its bytes. If it does, the size is counted by the wording of the marker.
So it is right also when nineteen bytes of the argument are there, and in no other case. -/
theorem size_ofCode_exact (code : List Char) (hex : Hex.isText code = true)
    (even : 2 ∣ code.length) :
    ((∀ k n, ¬ CutAt code k n) → (ofCode code).size = code.length / 2) ∧
      (∀ k n, CutAt code k n → (ofCode code).size = k + if n < 10 then 19 else 20) ∧
      ((ofCode code).size = code.length / 2 ↔
        ∀ k n, CutAt code k n → code.length / 2 = k + 20) := by
  have uncut : (∀ k n, ¬ CutAt code k n) → (ofCode code).size = code.length / 2 := by
    intro uncut
    have readable : ∀ k u, ¬ Unreadable.FirstAt code k u := by
      intro k u first
      obtain ⟨n, width, byte, short⟩ := first.stuck.exists_push hex even
      exact uncut k n ⟨first.boundary, byte, width, short⟩
    have whole := size_ofCode_of_readable readable
    omega
  have cut : ∀ k n, CutAt code k n → (ofCode code).size = k + if n < 10 then 19 else 20 := by
    intro k n cut
    rw [size_ofCode_of_firstAt ((cut.stuck even).firstAt cut.boundary),
      size_marker_push k cut.width]
  refine ⟨uncut, cut, ?_, ?_⟩
  · intro right k n cutAt
    have size := cut k n cutAt
    have short := cutAt.short
    split at size <;> omega
  · intro nineteen
    by_cases stops : ∃ k n, CutAt code k n
    · obtain ⟨k, n, cutAt⟩ := stops
      have length := nineteen k n cutAt
      have short := cutAt.short
      rw [cut k n cutAt, if_neg (by omega), length]
    · exact uncut fun k n cutAt => stops ⟨k, n, cutAt⟩

/-- Behind a destination stands a `PUSH2` with one byte of its argument. -/
theorem size_ofCode_exact_of_cut :
    let code := "5b6101".toList
    Hex.isText code = true ∧ 2 ∣ code.length ∧ CutAt code 1 2 ∧ (ofCode code).size = 20 := by
  intro code
  have hex : Hex.isText code = true := by decide
  have even : 2 ∣ code.length := by decide
  have dest : Instruction.WrittenAt code 0 ⟨.ofByte 0x5b, [], 0⟩ :=
    Instruction.writtenAt_jumpDest (by decide) 0
  have cut : CutAt code 1 2 := ⟨.single ⟨_, dest, rfl⟩, by decide, by decide, by decide⟩
  exact ⟨hex, even, cut, (size_ofCode_exact code hex even).2.1 1 2 cut⟩

/-- A single byte makes a program of nineteen bytes. -/
theorem size_of_lone_push :
    let code := "60".toList
    code ≠ [] ∧ Hex.isText code = true ∧ 2 ∣ code.length ∧
      code.length / 2 = 1 ∧ (ofCode code).size = 19 := by
  decide +kernel

end Program

end EvmFlow
