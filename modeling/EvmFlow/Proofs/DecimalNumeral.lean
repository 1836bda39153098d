import EvmFlow.Decimal
import EvmFlow.Instruction.Statement
import Mathlib.Logic.Function.Basic

/-!
# Decimal numerals and their values

A numeral is written from its last digit on, and a text is read from its first. Reading undoes
writing by the recursion of `natural`: a digit at the end makes the value ten times as large and
adds to it. Writing undoes reading by the recursion of `valueFrom`: once the value so far is not
zero, its numeral with the rest of the text behind it stays the same while the rest is read. Zeros
in front are read without a trace, so the numeral of a value is the text without them (`trimmed`).

The numbers of machine states are written by a printer of their own, with its own digits. It writes
the same numerals (`stateNumeral_eq`).
-/

namespace EvmFlow.Decimal

variable {c : Char} {s : List Char} {acc d n : Nat}

/-! ### Digits -/

theorem digit?_eq (c : Char) :
    digit? c = if c.isDigit then some (c.toNat - '0'.toNat) else none := by
  rw [digit?]
  refine if_congr ?_ rfl rfl
  rw [Char.isDigit_iff_toNat]
  exact Iff.rfl

/-- What is written for a value below ten is the digit of that value. -/
theorem digitChar_spec (small : n < 10) :
    digit? (digitChar n) = some n ∧ digitChar n = Nat.digitChar n ∧
      digitChar n = Char.ofNat ('0'.toNat + n) := by
  have all : ∀ k < 10, digit? (digitChar k) = some k ∧ digitChar k = Nat.digitChar k ∧
      digitChar k = Char.ofNat ('0'.toNat + k) := by decide
  exact all n small

theorem exists_digitChar (digit : c.isDigit) : ∃ d < 10, digitChar d = c := by
  obtain ⟨low, high⟩ := Char.isDigit_iff_toNat.mp digit
  have small : c.toNat - '0'.toNat < 10 := Nat.sub_lt_left_of_lt_add low (Nat.lt_succ_of_le high)
  refine ⟨_, small, ?_⟩
  rw [(digitChar_spec small).2.2, Nat.add_sub_cancel' low, Char.ofNat_toNat]

theorem isNumeral_iff : isNumeral s = true ↔ ∀ c ∈ s, c.isDigit := by
  rw [isNumeral, List.all_eq_true]
  refine forall₂_congr fun c _ => ?_
  rw [digit?_eq]
  split <;> simp_all

/-! ### Numerals -/

theorem natural_of_lt (small : n < 10) : natural n = [digitChar n] := by
  rw [natural, if_pos small]

theorem natural_concat (pos : 0 < n) (small : d < 10) :
    natural (10 * n + d) = natural n ++ [digitChar d] := by
  have high : (10 * n + d) / 10 = n := by omega
  have low : (10 * n + d) % 10 = d := by omega
  rw [natural, if_neg (by omega), high, low]

theorem natural_ne_nil (n : Nat) : natural n ≠ [] := by
  rw [natural]
  split <;> simp

/-- The standard library writes the same numerals. -/
theorem natural_eq_toDigits (n : Nat) : natural n = Nat.toDigits 10 n := by
  fun_induction natural n with
  | case1 n small => rw [Nat.toDigits_of_lt_base small, (digitChar_spec small).2.1]
  | case2 n large ih =>
      rw [ih, Nat.toDigits_of_base_le (by decide) (Nat.le_of_not_lt large),
        (digitChar_spec (Nat.mod_lt n (by decide))).2.1]

theorem isDigit_of_mem_natural (mem : c ∈ natural n) : c.isDigit := by
  rw [natural_eq_toDigits] at mem
  exact Nat.isDigit_of_mem_toDigits (by decide) (by decide) mem

/-! ### Reading what was written -/

theorem valueFrom_cons (acc : Nat) (small : d < 10) (s : List Char) :
    valueFrom acc (digitChar d :: s) = valueFrom (10 * acc + d) s := by
  rw [valueFrom, (digitChar_spec small).1, Option.getD_some]

theorem valueFrom_append (acc : Nat) (s t : List Char) :
    valueFrom acc (s ++ t) = valueFrom (valueFrom acc s) t := by
  induction s generalizing acc with
  | nil => rfl
  | cons c rest ih => exact ih _

theorem value_natural (n : Nat) : value (natural n) = n := by
  fun_induction natural n with
  | case1 n small =>
      rw [value, valueFrom_cons 0 small, Nat.mul_zero, Nat.zero_add, valueFrom]
  | case2 n large ih =>
      rw [value] at ih
      rw [value, valueFrom_append, ih, valueFrom_cons _ (Nat.mod_lt n (by decide)), valueFrom,
        Nat.div_add_mod]

theorem natural_injective : Function.Injective natural :=
  Function.LeftInverse.injective value_natural

/-! ### Writing what was read -/

/-- What was read, once it is not zero, and what is left to read make up the numeral. -/
theorem natural_valueFrom (digits : ∀ c ∈ s, c.isDigit) (pos : 0 < acc) :
    natural (valueFrom acc s) = natural acc ++ s := by
  induction s generalizing acc with
  | nil => rw [valueFrom, List.append_nil]
  | cons c rest ih =>
      obtain ⟨first, others⟩ := List.forall_mem_cons.mp digits
      obtain ⟨d, small, rfl⟩ := exists_digitChar first
      rw [valueFrom_cons acc small, ih others (by omega), natural_concat pos small,
        ← List.append_cons]

/-- A text without the zeros in front. Of a text of zeros one is left. -/
def trimmed (s : List Char) : List Char :=
  if s.all (· == '0') then ['0'] else s.dropWhile (· == '0')

theorem trimmed_zero (s : List Char) : trimmed ('0' :: s) = trimmed s := by
  simp [trimmed]

theorem trimmed_of_ne (other : c ≠ '0') (s : List Char) : trimmed (c :: s) = c :: s := by
  simp [trimmed, other]

theorem natural_value (digits : ∀ c ∈ s, c.isDigit) : natural (value s) = trimmed s := by
  induction s with
  | nil => exact natural_of_lt (by decide)
  | cons c rest ih =>
      obtain ⟨first, others⟩ := List.forall_mem_cons.mp digits
      by_cases zero : c = '0'
      · subst zero
        rw [trimmed_zero, ← ih others]
        rfl
      · -- From the first digit that is not zero on, the text is the numeral of what was read.
        obtain ⟨d, small, rfl⟩ := exists_digitChar first
        have pos : 0 < d := by
          refine Nat.pos_of_ne_zero ?_
          rintro rfl
          exact zero rfl
        rw [trimmed_of_ne zero, value, valueFrom_cons 0 small, Nat.mul_zero, Nat.zero_add,
          natural_valueFrom others pos, natural_of_lt small]
        rfl

/-! ### The numbers of states -/

theorem stateDigit_eq (small : n < 10) : Instruction.stateDigit n = digitChar n := by
  have all : ∀ k < 10, Instruction.stateDigit k = digitChar k := by decide
  exact all n small

theorem stateNumeral_eq (n : Nat) : Instruction.stateNumeral n = natural n := by
  fun_induction Instruction.stateNumeral n with
  | case1 n small => rw [stateDigit_eq small, natural_of_lt small]
  | case2 n large ih =>
      have pos : 0 < n / 10 := Nat.div_pos (Nat.le_of_not_lt large) (by decide)
      have small : n % 10 < 10 := Nat.mod_lt n (by decide)
      rw [ih, stateDigit_eq small, ← natural_concat pos small, Nat.div_add_mod]

/-! ### Texts that are not empty -/

theorem isNumeral?_eq (filled : s ≠ []) : isNumeral? s = .ok (isNumeral s) := by
  rw [isNumeral?, if_neg (mt List.isEmpty_iff.mp filled)]

theorem read?_eq (filled : s ≠ []) (digits : ∀ c ∈ s, c.isDigit) : read? s = .ok (value s) := by
  rw [read?, if_neg (mt List.isEmpty_iff.mp filled), if_pos (isNumeral_iff.mpr digits)]

/-- The numeral of a number is taken for a number, and reading gives the number back. A text that is
not empty is taken for a number exactly if all its characters are digits; it can then be read, and
writing what was read gives the text without the zeros in front. The printer of state numbers writes
the same numerals. -/
theorem conversions_inverse :
    (∀ n, isNumeral? (text n).toList = .ok true ∧ read? (text n).toList = .ok n) ∧
      (∀ s : List Char, s ≠ [] →
        (isNumeral? s = .ok true ↔ ∀ c ∈ s, c.isDigit) ∧
        ((∀ c ∈ s, c.isDigit) → ∃ n, read? s = .ok n ∧ text n = String.ofList (trimmed s))) ∧
      ∀ n, String.ofList (Instruction.stateNumeral n) = text n ∧
        Instruction.stateName n = "s" ++ text n := by
  refine ⟨fun n => ?_, fun s filled => ⟨?_, fun digits => ?_⟩, fun n => ?_⟩
  · have filled := natural_ne_nil n
    have digits : ∀ c ∈ natural n, c.isDigit := fun c mem => isDigit_of_mem_natural mem
    rw [text, String.toList_ofList, isNumeral?_eq filled, isNumeral_iff.mpr digits,
      read?_eq filled digits, value_natural]
    exact ⟨rfl, rfl⟩
  · rw [isNumeral?_eq filled, Except.ok.injEq, isNumeral_iff]
  · exact ⟨value s, read?_eq filled digits, by rw [text, natural_value digits]⟩
  · rw [Instruction.stateName, stateNumeral_eq]
    exact ⟨rfl, rfl⟩

/-- A text with two zeros in front, a text of zeros, and a text with a character that is no digit. -/
theorem conversions_inverse_of_leading_zeros :
    let s := ['0', '0', '4', '2', '0']
    let zeros := ['0', '0', '0']
    (∀ c ∈ s, c.isDigit) ∧ isNumeral? s = .ok true ∧ read? s = .ok 420 ∧ text 420 = "420" ∧
      read? (text 420).toList = .ok 420 ∧ (∀ c ∈ zeros, c.isDigit) ∧ read? zeros = .ok 0 ∧
      text 0 = "0" ∧ isNumeral? ['4', 'x'] ≠ .ok true ∧ Instruction.stateName 420 = "s420" := by
  intro s zeros
  obtain ⟨written, read, numbered⟩ := conversions_inverse
  have digits : ∀ c ∈ s, c.isDigit := isNumeral_iff.mp (by decide)
  have none : ∀ c ∈ zeros, c.isDigit := isNumeral_iff.mp (by decide)
  obtain ⟨n, found, back⟩ := (read s (by decide)).2 digits
  obtain rfl : 420 = n := Except.ok.inj found
  obtain ⟨z, nothing, lone⟩ := (read zeros (by decide)).2 none
  obtain rfl : 0 = z := Except.ok.inj nothing
  refine ⟨digits, (read s (by decide)).1.mpr digits, found, back, (written 420).2, none, nothing,
    lone, ?_, ?_⟩
  · intro accepted
    have digit := (read ['4', 'x'] (by decide)).1.mp accepted 'x' (by decide)
    exact absurd digit (by decide)
  · rw [(numbered 420).2, back]
    rfl

end EvmFlow.Decimal
