import EvmFlow.Instruction.Basic
import EvmFlow.Proofs.HexText
import EvmFlow.Word
import Mathlib.Data.List.Induction
import Mathlib.Data.Nat.Digits.Defs

/-!
# Hexadecimal numerals and their values

The digits of base sixteen are listed in `alphabet`, and `worth` is the value of a text in the plain
sense: each digit, in either case, has its position in the alphabet as its value and counts sixteen
times as much as the digit behind it. Reading finds this value exactly if the text has digits only,
and writing the value with as many digits as were read gives the text back in lower case.

Both directions are by induction from the end of a text, where `fixed` and `natural` add a digit.
Zeros in front do not change a value, so an argument that is filled up to a word is read as it
stands. The numeral without leading zeros is the only one of its number.
-/

namespace EvmFlow.Hex

variable {c : Char} {s t : List Char} {d n u width : Nat}

/-! ### Digits -/

/-- The digits of base sixteen, in lower case and in the order of their values. -/
def alphabet : List Char :=
  ['0', '1', '2', '3', '4', '5', '6', '7', '8', '9', 'a', 'b', 'c', 'd', 'e', 'f']

/-- The value of a digit: its position in the alphabet, in either case. -/
def rank (c : Char) : Nat := alphabet.idxOf c.toLower

/-- A text of digits, in either case. -/
def OfDigits (s : List Char) : Prop := ∀ c ∈ s, c.toLower ∈ alphabet

theorem alphabet_eq : alphabet = (List.range 16).map digitChar := by decide

/-- What is written for a digit is that digit in lower case. -/
theorem digitChar_spec (small : n < 16) :
    alphabet.idxOf (digitChar n) = n ∧ (digitChar n).toLower = digitChar n ∧
      (digitChar n).toNat < 128 := by
  have all : ∀ k < 16, alphabet.idxOf (digitChar k) = k ∧ (digitChar k).toLower = digitChar k ∧
      (digitChar k).toNat < 128 := by decide
  exact all n small

theorem mem_alphabet_iff : c ∈ alphabet ↔ ∃ k < 16, digitChar k = c := by
  simp [alphabet_eq]

theorem rank_lt (digit : c.toLower ∈ alphabet) : rank c < 16 := List.idxOf_lt_length_iff.mpr digit

theorem digitChar_rank (digit : c.toLower ∈ alphabet) : digitChar (rank c) = c.toLower := by
  obtain ⟨k, small, same⟩ := mem_alphabet_iff.mp digit
  rw [rank, ← same, (digitChar_spec small).1]

theorem rank_digitChar (small : n < 16) : rank (digitChar n) = n := by
  obtain ⟨position, lower, -⟩ := digitChar_spec small
  rw [rank, lower, position]

/-- Reading one digit. Past the ASCII characters there is none, and below it is a finite matter. -/
theorem digit?_eq (c : Char) : digit? c = if c.toLower ∈ alphabet then some (rank c) else none := by
  by_cases ascii : c.toNat < 128
  · have all : ∀ k < 128, digit? (Char.ofNat k) =
        if (Char.ofNat k).toLower ∈ alphabet then some (rank (Char.ofNat k)) else none := by
      decide +kernel
    have here := all c.toNat ascii
    rwa [Char.ofNat_toNat] at here
  · have above : ∀ x : Char, x.toNat < 128 → ¬ c ≤ x :=
      fun x small le => ascii (Nat.lt_of_le_of_lt le small)
    have same : c.toLower = c := dif_neg fun upper => above 'Z' (by decide) upper.2
    have outside : c ∉ alphabet := by
      intro digit
      obtain ⟨k, small, rfl⟩ := mem_alphabet_iff.mp digit
      exact ascii (digitChar_spec small).2.2
    rw [same, if_neg outside, digit?, if_neg fun h => above '9' (by decide) h.2,
      if_neg fun h => above 'f' (by decide) h.2, if_neg fun h => above 'F' (by decide) h.2]

theorem isText_iff : isText s = true ↔ OfDigits s := by
  rw [isText, List.all_eq_true]
  refine forall₂_congr fun c _ => ?_
  rw [isDigit, digit?_eq]
  split <;> simp_all

/-! ### The value of a text -/

/-- The value of a text in base sixteen, most significant digit first. -/
def worth (s : List Char) : Nat := Nat.ofDigits 16 (s.map rank).reverse

theorem worth_concat (s : List Char) (c : Char) : worth (s ++ [c]) = 16 * worth s + rank c := by
  simp [worth, Nat.ofDigits_cons, Nat.add_comm]

theorem value?_concat (s : List Char) (c : Char) :
    value? (s ++ [c]) = (value? s).bind fun v => (digit? c).map (16 * v + ·) := by
  rw [value?, valueFrom?_append]
  refine congrArg (Option.bind _) (funext fun v => ?_)
  rw [valueFrom?]
  cases digit? c <;> rfl

theorem ofDigits_concat : OfDigits (s ++ [c]) ↔ OfDigits s ∧ c.toLower ∈ alphabet := by
  simp [OfDigits, or_imp, forall_and]

/-- Reading a text of digits finds its value. -/
theorem value?_eq_worth (digits : OfDigits s) : value? s = some (worth s) := by
  induction s using List.reverseRecOn with
  | nil => rfl
  | append_singleton s c ih =>
      obtain ⟨front, last⟩ := ofDigits_concat.mp digits
      rw [value?_concat, ih front, digit?_eq, if_pos last, worth_concat]
      rfl

theorem value?_eq_none (digits : ¬ OfDigits s) : value? s = none := by
  rw [← isText_iff, ← isSome_valueFrom? 0] at digits
  exact Option.not_isSome_iff_eq_none.mp digits

theorem worth_lt (digits : OfDigits s) : worth s < 16 ^ s.length := by
  have small : ∀ d ∈ (s.map rank).reverse, d < 16 := by
    simpa using fun c mem => rank_lt (digits c mem)
  have bound := Nat.ofDigits_lt_base_pow_length (by decide) small
  rwa [List.length_reverse, List.length_map] at bound

/-! ### Numerals of fixed width -/

theorem fixed_concat (room : u < 16 ^ width) (small : d < 16) :
    fixed (width + 1) (16 * u + d) = fixed width u ++ [digitChar d] := by
  have front : 0 < width ∨ 16 * u + d < 16 := by
    rcases Nat.eq_zero_or_pos width with rfl | pos
    · rw [Nat.lt_one_iff.mp room]
      exact .inr (by omega)
    · exact .inl pos
  have high : (16 * u + d) / 16 = u := by omega
  have low : (16 * u + d) % 16 = d := by omega
  rw [fixed_succ front, high, low]

/-- Writing the value of a text with as many digits gives the text in lower case. -/
theorem fixed_worth (digits : OfDigits s) : fixed s.length (worth s) = s.map Char.toLower := by
  induction s using List.reverseRecOn with
  | nil => rfl
  | append_singleton s c ih =>
      obtain ⟨front, last⟩ := ofDigits_concat.mp digits
      rw [worth_concat, List.length_append, List.length_singleton,
        fixed_concat (worth_lt front) (rank_lt last), ih front, digitChar_rank last,
        List.map_append, List.map_singleton]

theorem read?_of_length (length : s.length = width) : read? width s = .ok (value? s) := by
  rw [read?_of_le length.ge, List.take_of_length_le length.le]

/-! ### Numerals without leading zeros -/

/-- A numeral of a number: lower-case digits that write it, with no zero in front of others. -/
structure IsNumeral (n : Nat) (t : List Char) : Prop where
  ne_nil : t ≠ []
  digits : ∀ c ∈ t, c ∈ alphabet
  worth_eq : worth t = n
  leading : t.head? = some '0' → t = ['0']

theorem natural_of_lt (small : n < 16) : natural n = [digitChar n] := by
  rw [natural, if_pos small]

theorem natural_concat (pos : 0 < u) (small : d < 16) :
    natural (16 * u + d) = natural u ++ [digitChar d] := by
  have high : (16 * u + d) / 16 = u := by omega
  have low : (16 * u + d) % 16 = d := by omega
  rw [natural, if_neg (by omega), high, low]

theorem isNumeral_singleton (small : n < 16) : IsNumeral n [digitChar n] := by
  refine ⟨List.cons_ne_nil _ _, ?_, ?_, ?_⟩
  · simpa using mem_alphabet_iff.mpr ⟨n, small, rfl⟩
  · rw [worth, List.map_singleton, rank_digitChar small]
    exact Nat.ofDigits_singleton
  · simp

theorem IsNumeral.concat (front : IsNumeral u t) (pos : 0 < u) (small : d < 16) :
    IsNumeral (16 * u + d) (t ++ [digitChar d]) := by
  refine ⟨by simp, ?_, ?_, ?_⟩
  · intro c mem
    rcases List.mem_append.mp mem with earlier | last
    · exact front.digits c earlier
    · exact mem_alphabet_iff.mpr ⟨d, small, (List.mem_singleton.mp last).symm⟩
  · rw [worth_concat, front.worth_eq, rank_digitChar small]
  · intro zero
    rw [List.head?_append_of_ne_nil _ front.ne_nil] at zero
    have none : u = 0 := by
      rw [← front.worth_eq, front.leading zero]
      rfl
    omega

theorem isNumeral_natural (n : Nat) : IsNumeral n (natural n) := by
  fun_induction natural n with
  | case1 n small => exact isNumeral_singleton small
  | case2 n large front =>
      have pos : 0 < n / 16 := Nat.div_pos (Nat.le_of_not_lt large) (by decide)
      have whole := front.concat pos (Nat.mod_lt n (by decide))
      rwa [Nat.div_add_mod] at whole

/-- A number has no other numeral. -/
theorem IsNumeral.eq_natural (numeral : IsNumeral n t) : t = natural n := by
  induction t using List.reverseRecOn generalizing n with
  | nil => exact absurd rfl numeral.ne_nil
  | append_singleton s c ih =>
      obtain ⟨-, digits, rfl, leading⟩ := numeral
      obtain ⟨d, small, rfl⟩ := mem_alphabet_iff.mp (digits c (by simp))
      rw [worth_concat, rank_digitChar small]
      by_cases short : s = []
      · subst short
        rw [show worth [] = 0 from rfl, Nat.mul_zero, Nat.zero_add, natural_of_lt small]
        rfl
      · -- A zero in front of `s` would be in front of the whole numeral, which is longer.
        rw [List.head?_append_of_ne_nil _ short] at leading
        have noZero : s.head? ≠ some '0' := by
          intro zero
          have length := congrArg List.length (leading zero)
          rw [List.length_append, List.length_singleton] at length
          exact short (List.length_eq_zero_iff.mp (Nat.succ_inj.mp length))
        have front : s = natural (worth s) :=
          ih ⟨short, fun x mem => digits x (List.mem_append_left _ mem), rfl,
            fun zero => absurd zero noZero⟩
        have pos : 0 < worth s := by
          rw [Nat.pos_iff_ne_zero]
          intro none
          rw [none, natural_of_lt (by decide)] at front
          exact noZero (front ▸ rfl)
        rw [natural_concat pos small, ← front]

/-! ### Reading and writing -/

theorem valueFrom?_zeros (k : Nat) : valueFrom? 0 (List.replicate k '0') = some 0 := by
  induction k with
  | zero => rfl
  | succ k ih => exact ih

/-- Zeros in front of a text do not change its value. -/
theorem value?_zeros (k : Nat) (s : List Char) : value? (List.replicate k '0' ++ s) = value? s := by
  rw [value?, valueFrom?_append, valueFrom?_zeros]
  rfl

/-- Filling up an argument that fits a word is reading it as it stands. -/
theorem read?_wordDigits {i : Instruction} (short : i.arg.length ≤ 64) :
    Word.u256.read? i.wordDigits = .ok (value? i.arg) := by
  have length : i.wordDigits.length = 64 := by
    rw [Instruction.wordDigits, List.length_append, List.length_replicate]
    omega
  rw [read?_u256, read?_of_length length, Instruction.wordDigits, value?_zeros]

theorem Plain.pow_eq {c : Word.Codec} (plain : Plain c width) : 16 ^ width = 2 ^ c.bits := by
  rw [plain.bits, Nat.pow_mul]

/-- For every kind of words, writing a word takes as many digits as the width has and reading gives
it back, and a text of that many characters is read exactly if all of them are digits: the result is
its value in base sixteen, which is a word, and writing it gives the text in lower case. So the
value of an argument that fits a word is what its digits write, however many there are. The numeral
that is not filled up is the only one without leading zeros. -/
theorem codecs_inverse :
    Word.codecs.map Word.Codec.bits = [8, 16, 32, 64, 128, 256] ∧
      (∀ c ∈ Word.codecs,
        (∀ n < 2 ^ c.bits, (c.write n).length = c.bits / 4 ∧ c.read? (c.write n) = .ok (some n)) ∧
        ∀ s : List Char, s.length = c.bits / 4 →
          (OfDigits s → c.read? s = .ok (some (worth s)) ∧ worth s < 2 ^ c.bits ∧
            c.write (worth s) = s.map Char.toLower) ∧
          (¬ OfDigits s → c.read? s = .ok none)) ∧
      (∀ i : Instruction, i.arg.length ≤ 64 → OfDigits i.arg →
        i.argValue? = .ok (worth i.arg) ∧ i.argValue = worth i.arg) ∧
      ∀ n t, t = natural n ↔ IsNumeral n t := by
  refine ⟨rfl, fun c listed => ?_, fun i short digits => ?_, fun n t => ⟨?_, IsNumeral.eq_natural⟩⟩
  · have plain := plain_of_mem listed
    simp only [plain.read?, plain.write, ← plain.pow_eq]
    refine ⟨fun n small => ?_, fun s length => ⟨fun digits => ?_, fun other => ?_⟩⟩
    · exact ⟨length_fixed _ n, by rw [read?_of_length (length_fixed _ n), value?_fixed small]⟩
    · rw [read?_of_length length, value?_eq_worth digits, ← length]
      exact ⟨rfl, worth_lt digits, fixed_worth digits⟩
    · rw [read?_of_length length, value?_eq_none other]
  · have value : i.argValue? = .ok (worth i.arg) := by
      rw [Instruction.argValue?, read?_wordDigits short, value?_eq_worth digits]
      rfl
    exact ⟨value, by rw [Instruction.argValue, value]; rfl⟩
  · rintro rfl
    exact isNumeral_natural n

/-- Four digits in mixed case with a zero in front, as a word of sixteen bits and as an argument,
and four characters of which one is no digit. -/
theorem codecs_inverse_of_mixed_case :
    let s := ['0', 'A', 'b', 'C']
    let push : Instruction := ⟨.ofByte 0x61, s, 0⟩
    Word.u16 ∈ Word.codecs ∧ OfDigits s ∧ worth s = 2748 ∧ Word.u16.read? s = .ok (some 2748) ∧
      2748 < 2 ^ 16 ∧ Word.u16.write 2748 = ['0', 'a', 'b', 'c'] ∧
      Word.u16.read? (Word.u16.write 2748) = .ok (some 2748) ∧ ¬ OfDigits ['0', 'x', 'b', 'C'] ∧
      Word.u16.read? ['0', 'x', 'b', 'C'] = .ok none ∧ push.argValue? = .ok 2748 ∧
      IsNumeral 2748 ['a', 'b', 'c'] := by
  intro s push
  have listed : Word.u16 ∈ Word.codecs := by simp [Word.codecs]
  have digits : OfDigits s := isText_iff.mp (by decide)
  have value : worth s = 2748 := by decide
  have other : ¬ OfDigits ['0', 'x', 'b', 'C'] := mt isText_iff.mpr (by decide)
  have numeral : ['a', 'b', 'c'] = natural 2748 := by simp [natural, digitChar]
  obtain ⟨-, words, arguments, numerals⟩ := codecs_inverse
  obtain ⟨written, read⟩ := words Word.u16 listed
  obtain ⟨found, room, back⟩ := (read s rfl).1 digits
  rw [value] at found room back
  exact ⟨listed, digits, value, found, room, back, (written 2748 room).2, other,
    (read _ rfl).2 other, value ▸ (arguments push (by decide) digits).1,
    (numerals 2748 _).mp numeral⟩

end EvmFlow.Hex
