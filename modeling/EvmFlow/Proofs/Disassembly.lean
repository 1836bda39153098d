import EvmFlow.Proofs.HexText
import EvmFlow.Proofs.Layout
import Mathlib.Logic.Relation

/-!
# What disassembly reads

Offsets into a text are counted in bytes, that is in pairs of characters. A text writes an
instruction at an offset if a byte stands there and behind it the digits of the argument that the
opcode asks for. `Boundary` holds of the offsets that one comes to from the start of the text by
passing over the instructions written there, and `Unreadable.At` says why no instruction is written
at an offset. Both are said without `disassemble`.

At an offset at most one opcode with one argument is written, so the boundaries lie on one line and
at most one of them ends it: the end of the text, or the first boundary where nothing can be read.
Disassembly lists the instructions written at the boundaries in their order, and marks that one.
`Reading` has a rule for each case of its recursion, `Covers` says the same of the list as a whole,
and there is only one list of which it holds.
-/

namespace EvmFlow

variable {s t : List Char} {n j k : Nat}

/-! ### What is written at an offset -/

/-- The byte that the two characters at an offset write, if both are digits. -/
def byteAt? (s : List Char) (k : Nat) : Option Nat :=
  match s[2 * k]?.bind Hex.digit?, s[2 * k + 1]?.bind Hex.digit? with
  | some x, some y => some (16 * x + y)
  | _, _ => none

/-- At an offset a byte of the opcode is written, and behind it the digits of the argument. -/
structure Instruction.WrittenAt (s : List Char) (k : Nat) (i : Instruction) : Prop where
  opcode : ∃ b, byteAt? s k = some b ∧ i.op = .ofByte b
  arg : i.arg = (s.drop (2 * k + 2)).take (2 * i.op.argBytes)
  digits : i.arg.length = 2 * i.op.argBytes
  hex : Hex.isText i.arg = true

/-- The instruction is written where its address says, in a text that starts at address `n`. -/
def Instruction.StandsIn (s : List Char) (n : Nat) (i : Instruction) : Prop :=
  ∃ k, i.address = n + k ∧ i.WrittenAt s k

/-- Why no instruction is written at an offset where the text goes on. -/
inductive Unreadable.At (s : List Char) (k : Nat) : Unreadable → Prop where
  | odd {c : Char} (left : s.drop (2 * k) = [c]) : At s k (.odd c)
  | notHex {c d : Char} {rest : List Char} (left : s.drop (2 * k) = c :: d :: rest)
      (pair : Hex.digit? c = none ∨ Hex.digit? d = none) : At s k (.notHex c d)
  | argument {b : Nat} (byte : byteAt? s k = some b)
      (missing : (s.drop (2 * k + 2)).length < 2 * (Opcode.ofByte b).argBytes ∨
        Hex.isText ((s.drop (2 * k + 2)).take (2 * (Opcode.ofByte b).argBytes)) = false) :
      At s k (.argument (.ofByte b))

theorem byteAt?_eq {c d : Char} {rest : List Char} (here : s.drop (2 * k) = c :: d :: rest) :
    byteAt? s k = Hex.value? [c, d] := by
  have first : s[2 * k]? = some c := by
    rw [← List.head?_drop, here]
    rfl
  have second : s[2 * k + 1]? = some d := by
    rw [← List.getElem?_drop, here]
    rfl
  simp only [byteAt?, first, second, Option.bind_some, Hex.value?, Hex.valueFrom?, Nat.mul_zero,
    Nat.zero_add]
  cases Hex.digit? c <;> cases Hex.digit? d <;> rfl

theorem lt_of_byteAt? {b : Nat} (byte : byteAt? s k = some b) : 2 * k + 1 < s.length := by
  by_contra short
  have second : s[2 * k + 1]? = none := List.getElem?_eq_none (Nat.le_of_not_lt short)
  rw [byteAt?, second] at byte
  split at byte <;> simp_all

theorem byteAt?_odd {c : Char} (left : s.drop (2 * k) = [c]) : byteAt? s k = none := by
  cases byte : byteAt? s k with
  | none => rfl
  | some b =>
      have long := lt_of_byteAt? byte
      have length := congrArg List.length left
      rw [List.length_drop, List.length_singleton] at length
      omega

theorem byteAt?_notHex {c d : Char} {rest : List Char} (left : s.drop (2 * k) = c :: d :: rest)
    (pair : Hex.digit? c = none ∨ Hex.digit? d = none) : byteAt? s k = none := by
  rw [byteAt?_eq left]
  exact Hex.value?_pair_eq_none.mpr pair

namespace Instruction.WrittenAt

variable {i i' : Instruction}

theorem isEncoded (written : i.WrittenAt s k) : i.IsEncoded := by
  obtain ⟨b, -, op⟩ := written.opcode
  exact ⟨⟨b, op⟩, written.digits, written.hex⟩

/-- The digits of the argument are there. -/
theorem inside (written : i.WrittenAt s k) : 2 * (k + i.size) ≤ s.length := by
  obtain ⟨b, byte, -⟩ := written.opcode
  have pair := lt_of_byteAt? byte
  have digits := written.digits
  rw [written.arg, List.length_take, List.length_drop] at digits
  rw [written.isEncoded.size_eq]
  omega

theorem op_unique (written : i.WrittenAt s k) (other : i'.WrittenAt s k) : i.op = i'.op := by
  obtain ⟨b, byte, op⟩ := written.opcode
  obtain ⟨b', byte', op'⟩ := other.opcode
  rw [op, op', Option.some.inj (byte.symm.trans byte')]

theorem size_unique (written : i.WrittenAt s k) (other : i'.WrittenAt s k) :
    i.size = i'.size := by
  rw [written.isEncoded.size_eq, other.isEncoded.size_eq, written.op_unique other]

/-- An instruction is known from where it is written. -/
theorem unique (written : i.WrittenAt s k) (other : i'.WrittenAt s k)
    (place : i.address = i'.address) : i = i' := by
  have op := written.op_unique other
  have arg : i.arg = i'.arg := by rw [written.arg, other.arg, op]
  cases i
  cases i'
  cases op
  cases arg
  cases place
  rfl

end Instruction.WrittenAt

namespace Unreadable.At

variable {u v : Unreadable}

theorem not_written (stuck : u.At s k) (i : Instruction) : ¬ i.WrittenAt s k := by
  intro written
  obtain ⟨b, byte, op⟩ := written.opcode
  cases stuck with
  | odd left =>
      rw [byteAt?_odd left] at byte
      cases byte
  | notHex left pair =>
      rw [byteAt?_notHex left pair] at byte
      cases byte
  | argument byte' missing =>
      obtain rfl : b = _ := Option.some.inj (byte.symm.trans byte')
      have digits := written.digits
      have hex := written.hex
      rw [written.arg, op] at digits hex
      rcases missing with short | bad
      · rw [List.length_take] at digits
        omega
      · rw [bad] at hex
        cases hex

theorem inside (stuck : u.At s k) : 2 * k < s.length := by
  cases stuck with
  | odd left | notHex left =>
      by_contra outside
      cases left.symm.trans (List.drop_of_length_le (Nat.le_of_not_lt outside))
  | argument byte => exact Nat.lt_of_succ_lt (lt_of_byteAt? byte)

/-- An offset has one reason. -/
theorem unique (stuck : u.At s k) (other : v.At s k) : u = v := by
  cases stuck with
  | odd left =>
      cases other with
      | odd left' => cases left.symm.trans left'; rfl
      | notHex left' => cases left.symm.trans left'
      | argument byte => cases (byteAt?_odd left).symm.trans byte
  | notHex left pair =>
      cases other with
      | odd left' => cases left.symm.trans left'
      | notHex left' => cases left.symm.trans left'; rfl
      | argument byte => cases (byteAt?_notHex left pair).symm.trans byte
  | argument byte =>
      cases other with
      | odd left => cases (byteAt?_odd left).symm.trans byte
      | notHex left pair => cases (byteAt?_notHex left pair).symm.trans byte
      | argument byte' => rw [Option.some.inj (byte.symm.trans byte')]

end Unreadable.At

/-! ### Boundaries -/

/-- The instruction written at `j` ends at `k`. -/
def Follows (s : List Char) (j k : Nat) : Prop :=
  ∃ i : Instruction, i.WrittenAt s j ∧ k = j + i.size

/-- One comes to an offset by passing over instructions from the start of the text on. -/
def Boundary (s : List Char) (k : Nat) : Prop := Relation.ReflTransGen (Follows s) 0 k

/-- The first boundary where the text goes on and no instruction is written. -/
structure Unreadable.FirstAt (s : List Char) (k : Nat) (u : Unreadable) : Prop where
  boundary : Boundary s k
  stuck : u.At s k
  first : ∀ j < k, Boundary s j → ∀ v : Unreadable, ¬ v.At s j

theorem follows_rightUnique (s : List Char) : Relator.RightUnique (Follows s) := by
  rintro j k k' ⟨i, written, rfl⟩ ⟨i', other, rfl⟩
  rw [written.size_unique other]

/-- There is an instruction at every boundary other than the one where reading ends. -/
theorem Boundary.eq_or_follows (final : Boundary s k) (ends : ∀ m, ¬ Follows s k m)
    (boundary : Boundary s j) : j = k ∨ ∃ m, Follows s j m := by
  rcases Relation.ReflTransGen.total_of_right_unique (follows_rightUnique s) boundary final with
    before | behind
  · rcases before.cases_head with same | ⟨m, follows, -⟩
    · exact .inl same
    · exact .inr ⟨m, follows⟩
  · rcases behind.cases_head with same | ⟨m, follows, -⟩
    · exact .inl same.symm
    · exact absurd follows (ends m)

theorem Unreadable.At.not_follows {u : Unreadable} (stuck : u.At s k) (m : Nat) :
    ¬ Follows s k m := by
  rintro ⟨i, written, -⟩
  exact stuck.not_written i written

theorem Unreadable.At.firstAt {u : Unreadable} (stuck : u.At s k) (boundary : Boundary s k) :
    u.FirstAt s k := by
  refine ⟨boundary, stuck, fun j before earlier v other => ?_⟩
  rcases boundary.eq_or_follows stuck.not_follows earlier with rfl | ⟨m, follows⟩
  · exact Nat.lt_irrefl j before
  · exact other.not_follows m follows

/-- A text has at most one first place that cannot be read. -/
theorem Unreadable.FirstAt.unique {u v : Unreadable} (this : u.FirstAt s j)
    (other : v.FirstAt s k) : j = k ∧ u = v := by
  rcases other.boundary.eq_or_follows other.stuck.not_follows this.boundary with rfl | ⟨m, follows⟩
  · exact ⟨rfl, this.stuck.unique other.stuck⟩
  · exact absurd follows (this.stuck.not_follows m)

theorem not_follows_end (whole : 2 * k = s.length) (m : Nat) : ¬ Follows s k m := by
  rintro ⟨i, written, -⟩
  have inside := written.inside
  rw [Instruction.size] at inside
  omega

/-- A text that is read to its end has no place that cannot be read. -/
theorem Boundary.not_firstAt (boundary : Boundary s k) (whole : 2 * k = s.length)
    {u : Unreadable} : ¬ u.FirstAt s j := by
  intro first
  rcases boundary.eq_or_follows (not_follows_end whole) first.boundary with rfl | ⟨m, follows⟩
  · exact Nat.ne_of_lt first.stuck.inside whole
  · exact first.stuck.not_follows m follows

/-! ### Reading from an offset on -/

/-- The list of what is read from an offset on: instructions one behind the other, and a marker
where reading ends before the text does. -/
inductive Reading (s : List Char) (n : Nat) : Nat → List Instruction → Prop where
  | finished {k : Nat} (whole : 2 * k = s.length) : Reading s n k []
  | stuck {k : Nat} {u : Unreadable} (why : u.At s k) : Reading s n k [u.marker (n + k)]
  | read {k : Nat} {i : Instruction} {is : List Instruction} (written : i.WrittenAt s k)
      (place : i.address = n + k) (rest : Reading s n (k + i.size) is) : Reading s n k (i :: is)

theorem drop_behind_pair {c d : Char} {rest : List Char} (here : s.drop (2 * k) = c :: d :: rest)
    (m : Nat) : s.drop (2 * k + 2 + m) = rest.drop m := by
  rw [Nat.add_assoc, ← List.drop_drop, here, Nat.add_comm]
  rfl

/-- What the recursion reads is written at its offset. -/
theorem Instruction.writtenAt_of_read {c d : Char} {rest : List Char} {a b : Nat}
    (here : s.drop (2 * k) = c :: d :: rest) (value : Hex.value? [c, d] = some b)
    (readable : ¬ (rest.length < 2 * (Opcode.ofByte b).argBytes ∨
      ¬ Hex.isText (rest.take (2 * (Opcode.ofByte b).argBytes)) = true)) :
    WrittenAt s k ⟨.ofByte b, rest.take (2 * (Opcode.ofByte b).argBytes), a⟩ := by
  have encoded : IsEncoded ⟨.ofByte b, _, a⟩ := isEncoded_of_read readable
  have behind : s.drop (2 * k + 2) = rest := drop_behind_pair here 0
  exact ⟨⟨b, (byteAt?_eq here).trans value, rfl⟩, by rw [behind], encoded.digits, encoded.hex⟩

/-- Disassembly from an offset on, by the cases of its recursion. -/
theorem reading_disassemble (s t : List Char) (n a : Nat) :
    ∀ k, s.drop (2 * k) = t → 2 * k ≤ s.length → a = n + k → Reading s n k (disassemble t a) := by
  fun_induction disassemble t a with
  | case1 a =>
      intro k here within place
      exact .finished (Nat.le_antisymm within (List.drop_eq_nil_iff.mp here))
  | case2 a c =>
      rintro k here within rfl
      exact .stuck (.odd here)
  | case3 a c d rest value =>
      rintro k here within rfl
      exact .stuck (.notHex here (Hex.value?_pair_eq_none.mp value))
  | case4 a c d rest b value op digits unreadable =>
      rintro k here within rfl
      have behind : s.drop (2 * k + 2) = rest := drop_behind_pair here 0
      refine .stuck (.argument ((byteAt?_eq here).trans value) ?_)
      rw [behind]
      exact unreadable.imp_right eq_false_of_ne_true
  | case5 a c d rest b value op digits readable ih =>
      rintro k here within rfl
      have written : Instruction.WrittenAt s k ⟨op, digits, n + k⟩ :=
        Instruction.writtenAt_of_read here value readable
      have size : Instruction.size ⟨op, digits, n + k⟩ = 1 + op.argBytes :=
        written.isEncoded.size_eq
      refine .read written rfl (ih _ ?_ written.inside ?_)
      · rw [size, ← drop_behind_pair here]
        congr 1
        omega
      · rw [size]
        omega

/-- Disassembly reads a text from its start. -/
theorem reading_start (s : List Char) (n : Nat) : Reading s n 0 (disassemble s n) :=
  reading_disassemble s s n n 0 rfl (Nat.zero_le _) rfl

/-- A reading falls into the instructions that are written, and what stands behind them. -/
theorem Reading.exists_front {is : List Instruction} (reading : Reading s n k is) :
    ∃ front tail, is = front ++ tail ∧ (∀ i ∈ front, i.StandsIn s n) ∧
      Relation.ReflTransGen (Follows s) k (k + Segment.bytes front) ∧
      ((tail = [] ∧ 2 * (k + Segment.bytes front) = s.length) ∨
        ∃ u : Unreadable, u.At s (k + Segment.bytes front) ∧
          tail = [u.marker (n + (k + Segment.bytes front))]) := by
  induction reading with
  | finished whole => exact ⟨[], [], rfl, by simp, .refl, .inl ⟨rfl, whole⟩⟩
  | stuck why => exact ⟨[], _, rfl, by simp, .refl, .inr ⟨_, why, rfl⟩⟩
  | @read k i is written place _ ih =>
      obtain ⟨front, tail, rfl, stands, reaches, ends⟩ := ih
      have bytes : k + Segment.bytes (i :: front) = k + i.size + Segment.bytes front := by
        rw [Segment.bytes, Nat.add_assoc]
      refine ⟨i :: front, tail, rfl, List.forall_mem_cons.mpr ⟨⟨k, place, written⟩, stands⟩, ?_, ?_⟩
      · rw [bytes]
        exact .head ⟨i, written, rfl⟩ reaches
      · rw [bytes]
        exact ends

theorem Reading.laidOut {is : List Instruction} (reading : Reading s n k is) :
    Instruction.LaidOut (n + k) is := by
  induction reading with
  | finished => trivial
  | stuck => exact ⟨rfl, trivial⟩
  | read _ place _ ih =>
      rw [← Nat.add_assoc] at ih
      exact ⟨place, ih⟩

/-- Where to read determines what is read. -/
theorem Reading.unique {is is' : List Instruction} (reading : Reading s n k is)
    (other : Reading s n k is') : is = is' := by
  induction reading generalizing is' with
  | finished whole =>
      cases other with
      | finished => rfl
      | stuck why => exact absurd whole (Nat.ne_of_lt why.inside)
      | read written => exact absurd ⟨_, written, rfl⟩ (not_follows_end whole _)
  | stuck why =>
      cases other with
      | finished whole => exact absurd whole (Nat.ne_of_lt why.inside)
      | stuck why' => rw [why.unique why']
      | read written => exact absurd written (why.not_written _)
  | read written place _ ih =>
      cases other with
      | finished whole => exact absurd ⟨_, written, rfl⟩ (not_follows_end whole _)
      | stuck why => exact absurd written (why.not_written _)
      | read written' place' rest =>
          obtain rfl := written.unique written' (place.trans place'.symm)
          rw [ih rest]

/-! ### The whole text -/

/-- Addresses that follow from the first one by adding sizes. -/
theorem Instruction.laidOut_iff {is : List Instruction} {a : Nat} : LaidOut a is ↔
    (∀ i, is[0]? = some i → i.address = a) ∧
      ∀ k i i', is[k]? = some i → is[k + 1]? = some i' → i'.address = i.address + i.size := by
  induction is generalizing a with
  | nil => simp [LaidOut]
  | cons first rest ih =>
      rw [LaidOut, ih]
      constructor
      · rintro ⟨rfl, second, next⟩
        refine ⟨fun i here => by cases here; rfl, fun k i i' here there => ?_⟩
        cases k with
        | zero =>
            cases here
            exact second i' there
        | succ k => exact next k i i' here there
      · rintro ⟨start, next⟩
        obtain rfl := start first rfl
        exact ⟨rfl, fun i' => next 0 first i' rfl, fun k i i' => next (k + 1) i i'⟩

/-- An instruction of a list laid out from `n` on stands behind the bytes of those before it. -/
theorem Instruction.LaidOut.address_eq {front rest : List Instruction} {i : Instruction}
    (laid : LaidOut n (front ++ i :: rest)) : i.address = n + Segment.bytes front :=
  (laidOut_append.mp laid).2.1

theorem Unreadable.message_ne_nil (u : Unreadable) : u.message ≠ [] := by
  cases u with
  | odd c =>
      change "Odd number of characters ending in ".toList ++ [c] ≠ []
      exact List.append_ne_nil_of_right_ne_nil _ (List.cons_ne_nil c [])
  | notHex c d =>
      change '\'' :: c :: d :: "' is not an Hex number".toList ≠ []
      exact List.cons_ne_nil _ _
  | argument o =>
      change "not enough arguments for opcode ".toList ++ o.name.toList ≠ []
      exact List.append_ne_nil_of_left_ne_nil (by decide) _

/-- A marker has more to say than an `INVALID` that is written. -/
theorem Unreadable.not_standsIn_marker (u : Unreadable) (a : Nat) : ¬ (u.marker a).StandsIn s n := by
  rintro ⟨k, -, written⟩
  have digits : u.message.length = 2 * Opcode.invalid.argBytes := written.digits
  have none : Opcode.invalid.argBytes = 0 := by decide
  rw [none] at digits
  exact u.message_ne_nil (List.length_eq_zero_iff.mp digits)

/-- A list of instructions covers a text that starts at address `n`. -/
structure Covers (s : List Char) (n : Nat) (r : List Instruction) : Prop where
  /-- The first instruction stands at the start. -/
  start : ∀ i, r[0]? = some i → i.address = n
  /-- Every other one stands behind the one before. -/
  next : ∀ k i i', r[k]? = some i → r[k + 1]? = some i' → i'.address = i.address + i.size
  /-- All but the last are written where they stand. -/
  written : ∀ i ∈ r.dropLast, i.StandsIn s n
  /-- The last one is written where it stands and ends with the text, or it marks the first place
  that cannot be read. -/
  last : ∀ i, r.getLast? = some i →
    (∃ k, i.address = n + k ∧ i.WrittenAt s k ∧ 2 * (k + i.size) = s.length) ∨
      ∃ k u, Unreadable.FirstAt s k u ∧ i = u.marker (n + k)
  /-- Such a place is marked. -/
  marked : ∀ k u, Unreadable.FirstAt s k u → r.getLast? = some (u.marker (n + k))
  /-- Without such a place nothing is marked, and the bytes are those of the text. -/
  whole : (∀ k u, ¬ Unreadable.FirstAt s k u) →
    (∀ i ∈ r, i.StandsIn s n) ∧ 2 * Segment.bytes r = s.length

theorem Reading.covers {r : List Instruction} (reading : Reading s n 0 r) : Covers s n r := by
  have laid := reading.laidOut
  obtain ⟨start, next⟩ := Instruction.laidOut_iff.mp laid
  obtain ⟨front, tail, rfl, stands, reaches, ends⟩ := reading.exists_front
  rw [Nat.zero_add] at reaches ends
  have boundary : Boundary s (Segment.bytes front) := reaches
  rcases ends with ⟨rfl, whole⟩ | ⟨u, why, rfl⟩
  · -- The text is read to its end.
    rw [List.append_nil] at laid start next ⊢
    refine ⟨start, next, fun i hi => stands i (List.dropLast_subset _ hi), ?_,
      fun k u first => absurd first (boundary.not_firstAt whole), fun _ => ⟨stands, whole⟩⟩
    intro i last
    obtain ⟨before, rfl⟩ := List.getLast?_eq_some_iff.mp last
    obtain ⟨k, place, written⟩ := stands i (by simp)
    have bytes : k = Segment.bytes before := by
      have := laid.address_eq
      omega
    rw [Instruction.bytes_append, ← bytes] at whole
    exact .inl ⟨k, place, written, whole⟩
  · -- Reading ends with a marker.
    have first : u.FirstAt s (Segment.bytes front) := why.firstAt boundary
    refine ⟨start, next, by rwa [List.dropLast_concat], ?_, ?_, fun none => absurd first (none _ _)⟩
    · intro i last
      rw [List.getLast?_concat] at last
      exact .inr ⟨_, u, first, (Option.some.inj last).symm⟩
    · intro k v other
      obtain ⟨rfl, rfl⟩ := first.unique other
      exact List.getLast?_concat

/-- What is left of a list that covers a text is read behind the instructions before it. -/
theorem Covers.reading_append {front rest : List Instruction} (covers : Covers s n (front ++ rest))
    (stands : ∀ i ∈ front, i.StandsIn s n) : Reading s n (Segment.bytes front) rest := by
  -- By induction on what is left: one instruction after the other goes over to the front.
  induction rest generalizing front with
  | nil =>
      rw [List.append_nil] at covers
      by_cases stops : ∃ k u, Unreadable.FirstAt s k u
      · obtain ⟨k, u, first⟩ := stops
        have mem := List.mem_of_getLast? (covers.marked k u first)
        exact absurd (stands _ mem) (u.not_standsIn_marker _)
      · have none : ∀ k u, ¬ Unreadable.FirstAt s k u := fun k u first => stops ⟨k, u, first⟩
        exact .finished (covers.whole none).2
  | cons i rest ih =>
      have laid := Instruction.laidOut_iff.mpr ⟨covers.start, covers.next⟩
      have place : ∀ k, i.address = n + k → k = Segment.bytes front := by
        have := laid.address_eq
        omega
      cases rest with
      | nil =>
          rcases covers.last i List.getLast?_concat with
            ⟨k, address, written, whole⟩ | ⟨k, u, first, rfl⟩
          · obtain rfl := place k address
            exact .read written address (.finished whole)
          · obtain rfl := place k rfl
            exact .stuck first.stuck
      | cons next others =>
          obtain ⟨k, address, written⟩ := covers.written i (by simp)
          obtain rfl := place k address
          have behind : Segment.bytes (front ++ [i]) = Segment.bytes front + i.size := by
            rw [Instruction.bytes_append]
            rfl
          refine .read written address (behind ▸ ih ?_ ?_)
          · rwa [List.append_assoc]
          · exact List.forall_mem_append.mpr
              ⟨stands, List.forall_mem_singleton.mpr ⟨_, address, written⟩⟩

/-- Disassembly is the only list of instructions that covers a text. -/
theorem covers_iff_eq_disassemble (s : List Char) (n : Nat) (r : List Instruction) :
    Covers s n r ↔ r = disassemble s n := by
  have reading := reading_start s n
  constructor
  · intro covers
    have whole : Covers s n ([] ++ r) := covers
    exact (whole.reading_append (by simp)).unique reading
  · rintro rfl
    exact reading.covers

/-- The second digit of the argument is none. -/
example : disassemble "345b606x00".toList 10 =
    [⟨.ofByte 0x34, [], 10⟩, ⟨.ofByte 0x5b, [], 11⟩, (Unreadable.argument (.push 1)).marker 12] := by
  decide +kernel

end EvmFlow
