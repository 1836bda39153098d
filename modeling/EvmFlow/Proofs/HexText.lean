import EvmFlow.Word
import Mathlib.Algebra.Group.Nat.Defs
import Mathlib.Data.List.Basic
import Mathlib.Tactic.Ring

/-!
# Reading and writing hexadecimal text

A text has a value exactly if all its characters are digits, and reading a numeral of fixed width
gives back the number that was written, as long as the width has room for it. For bytes the room
is two digits, so the numerals of a list of bytes can be cut at any byte by counting characters.

Words are read and written by halves, and that comes to the same as going digit by digit: the digits
of the lower half shift the upper half by as many places (`value?_append`, `fixed_append`). A byte
is plain in this sense, doubling keeps it so, and all words are made by doubling (`plain_of_mem`).
-/

namespace EvmFlow.Hex

variable {n width : Nat} {bytes : List Nat}

theorem digit?_digitChar (small : n < 16) : digit? (digitChar n) = some n := by
  have all : ∀ k < 16, digit? (digitChar k) = some k := by decide
  exact all n small

/-- Digits go on from the value of those before them. -/
theorem valueFrom?_append (acc : Nat) (s t : List Char) :
    valueFrom? acc (s ++ t) = (valueFrom? acc s).bind (valueFrom? · t) := by
  induction s generalizing acc with
  | nil => rfl
  | cons c rest ih =>
      simp only [List.cons_append, valueFrom?]
      cases digit? c with
      | none => rfl
      | some d => exact ih _

theorem isSome_valueFrom? (acc : Nat) (s : List Char) :
    (valueFrom? acc s).isSome = isText s := by
  induction s generalizing acc with
  | nil => rfl
  | cons c rest ih =>
      simp only [valueFrom?, isText, List.all_cons, isDigit]
      cases digit? c with
      | none => rfl
      | some d => exact ih _

theorem value?_pair_eq_none {c d : Char} :
    value? [c, d] = none ↔ digit? c = none ∨ digit? d = none := by
  simp only [value?, valueFrom?]
  cases digit? c <;> cases digit? d <;> simp

theorem digit?_ne_none {s : List Char} (hex : isText s = true) {c : Char} (mem : c ∈ s) :
    digit? c ≠ none := by
  have digit : isDigit c = true := List.all_eq_true.mp hex c mem
  rw [isDigit, Option.isSome_iff_ne_none] at digit
  exact digit

/-- A part of a hexadecimal text is one. -/
theorem isText_of_subset {s t : List Char} (hex : isText t = true) (sub : s ⊆ t) :
    isText s = true :=
  List.all_eq_true.mpr fun c mem => List.all_eq_true.mp hex c (sub mem)

@[simp] theorem length_fixed (width n : Nat) : (fixed width n).length = width := by
  fun_induction fixed width n with
  | case1 => rfl
  | case2 => rfl
  | case3 width n ih => simp [ih]

/-- A number is read back from a numeral that has room for it. -/
theorem value?_fixed (room : n < 16 ^ width) : value? (fixed width n) = some n := by
  fun_induction fixed width n with
  | case1 n =>
      rw [Nat.lt_one_iff.mp room]
      rfl
  | case2 n => simp [value?, valueFrom?, digit?_digitChar room]
  | case3 width n ih =>
      have high : n / 16 < 16 ^ (width + 1) := Nat.div_lt_of_lt_mul (by rwa [← Nat.pow_succ'])
      have read : valueFrom? 0 (fixed (width + 1) (n / 16)) = some (n / 16) := ih high
      rw [value?, valueFrom?_append, read]
      simp [valueFrom?, digit?_digitChar (Nat.mod_lt n (by decide)), Nat.div_add_mod]

theorem isText_fixed (room : n < 16 ^ width) : isText (fixed width n) = true := by
  rw [← isSome_valueFrom? 0, show valueFrom? 0 (fixed width n) = some n from value?_fixed room]
  rfl

/-! ### Words by halves -/

/-- A text shifts the value before it by as many places as it has digits. -/
theorem valueFrom?_eq (acc : Nat) (s : List Char) :
    valueFrom? acc s = (value? s).map (16 ^ s.length * acc + ·) := by
  induction s generalizing acc with
  | nil => simp [valueFrom?, value?]
  | cons c rest ih =>
      simp only [value?, valueFrom?]
      cases digit? c with
      | none => rfl
      | some d =>
          simp only [ih, Option.map_map, List.length_cons]
          congr 1
          funext v
          simp only [Function.comp_apply]
          ring

theorem value?_append (s t : List Char) :
    value? (s ++ t) = Word.join (16 ^ t.length) (value? s) (value? t) := by
  rw [value?, valueFrom?_append, ← value?]
  cases value? s with
  | none => rfl
  | some v =>
      rw [Option.bind_some, valueFrom?_eq]
      cases value? t <;> rfl

/-- The last digit of a numeral. A single digit has nothing in front of it. -/
theorem fixed_succ (front : 0 < width ∨ n < 16) :
    fixed (width + 1) n = fixed width (n / 16) ++ [digitChar (n % 16)] := by
  cases width with
  | zero =>
      have small := front.resolve_left (Nat.lt_irrefl 0)
      rw [Nat.mod_eq_of_lt small]
      rfl
  | succ width => rfl

/-- A numeral can be cut into the numerals of a quotient and a remainder. -/
theorem fixed_append (pos : 0 < width) (k n : Nat) :
    fixed (width + k) n = fixed width (n / 16 ^ k) ++ fixed k (n % 16 ^ k) := by
  induction k generalizing n with
  | zero => simp [fixed]
  | succ k ih =>
      have last : n % 16 ^ (k + 1) % 16 = n % 16 :=
        Nat.mod_mod_of_dvd n (Dvd.intro_left (16 ^ k) rfl)
      have middle : n % 16 ^ (k + 1) / 16 = n / 16 % 16 ^ k := by
        rw [Nat.pow_succ', Nat.mod_mul_right_div_self]
      have upper : n / 16 ^ (k + 1) = n / 16 / 16 ^ k := by
        rw [Nat.pow_succ', Nat.div_div_eq_div_mul]
      have lower : 0 < k ∨ n % 16 ^ (k + 1) < 16 := by
        rcases Nat.eq_zero_or_pos k with rfl | pos
        · exact .inr (Nat.mod_lt n (by decide))
        · exact .inl pos
      rw [← Nat.add_assoc, fixed_succ (.inl (by omega)), ih, fixed_succ lower, last, middle, upper,
        List.append_assoc]

/-- Reads the first `width` characters one by one. The text must have them; whatever follows is not
looked at. -/
def read? (width : Nat) (s : List Char) : Except Fault (Option Nat) :=
  if s.length < width then .error .pastEnd else .ok (value? (s.take width))

theorem read?_of_le {s : List Char} (long : width ≤ s.length) :
    read? width s = .ok (value? (s.take width)) := if_neg (Nat.not_lt.mpr long)

theorem read?_of_lt {s : List Char} (short : s.length < width) :
    read? width s = .error .pastEnd := if_pos short

/-- Words of so many digits that are read and written digit by digit. -/
structure Plain (c : Word.Codec) (width : Nat) : Prop where
  pos : 0 < width
  bits : c.bits = 4 * width
  read? : ∀ s, c.read? s = read? width s
  write : ∀ n, c.write n = fixed width n

theorem plain_u8 : Plain Word.u8 2 := by
  refine ⟨by decide, rfl, fun s => ?_, fun n => rfl⟩
  rcases s with _ | ⟨c, _ | ⟨d, rest⟩⟩
  · rfl
  · rfl
  · have pair : value? ([c] ++ [d]) = _ := value?_append [c] [d]
    rw [read?_of_le (by simp)]
    show Except.ok _ = Except.ok (value? ([c] ++ [d]))
    rw [pair]
    simp only [value?, valueFrom?]
    cases digit? c <;> cases digit? d <;> simp [Word.join, Word.count]

theorem Plain.double {c : Word.Codec} {bound : Nat} (plain : Plain c width)
    (shift : bound = 16 ^ width) : Plain (c.double width bound) (2 * width) := by
  subst shift
  refine ⟨by have := plain.pos; omega, ?_, fun s => ?_, fun n => ?_⟩
  · show 2 * c.bits = 4 * (2 * width)
    rw [plain.bits]
    omega
  · simp only [Word.Codec.double, plain.read?]
    by_cases upper : width ≤ s.length
    · rw [read?_of_le (by rw [List.length_take]; omega), List.take_take, Nat.min_self]
      by_cases lower : 2 * width ≤ s.length
      · -- Both halves are there, and together they are the characters in front.
        have halves : s.take (2 * width) = s.take width ++ (s.drop width).take width := by
          rw [Nat.two_mul, List.take_add]
        have length : ((s.drop width).take width).length = width := by
          rw [List.length_take, List.length_drop]
          omega
        rw [read?_of_le lower, halves, value?_append, length,
          read?_of_le (by rw [List.length_drop]; omega)]
        rfl
      · rw [read?_of_lt (Nat.lt_of_not_le lower), read?_of_lt (by rw [List.length_drop]; omega)]
        rfl
    · have half : (s.take width).length < width := by rw [List.length_take]; omega
      have whole : s.length < 2 * width := by omega
      rw [read?_of_lt half, read?_of_lt whole]
      rfl
  · simp only [Word.Codec.double, plain.write]
    rw [Nat.two_mul, fixed_append plain.pos]

/-- All words are read and written digit by digit. -/
theorem plain_of_mem {c : Word.Codec} (listed : c ∈ Word.codecs) :
    Plain c (c.bits / 4) := by
  have two : Plain Word.u16 4 := plain_u8.double (by decide)
  have four : Plain Word.u32 8 := two.double (by decide)
  have eight : Plain Word.u64 16 := four.double (by decide)
  have sixteen : Plain Word.u128 32 := eight.double (by decide)
  simp only [Word.codecs, List.mem_cons, List.not_mem_nil, or_false] at listed
  rcases listed with rfl | rfl | rfl | rfl | rfl | rfl
  exacts [plain_u8, two, four, eight, sixteen, sixteen.double (by decide)]

theorem read?_u256 (s : List Char) : Word.u256.read? s = read? 64 s :=
  (plain_of_mem (c := Word.u256) (by simp [Word.codecs])).read? s

/-! ### Lists of bytes -/

@[simp] theorem ofBytes_cons (b : Nat) (bytes : List Nat) :
    ofBytes (b :: bytes) = fixed 2 b ++ ofBytes bytes :=
  List.flatMap_cons

@[simp] theorem length_ofBytes (bytes : List Nat) : (ofBytes bytes).length = 2 * bytes.length := by
  induction bytes with
  | nil => rfl
  | cons b rest ih =>
      rw [ofBytes_cons, List.length_append, length_fixed, ih, List.length_cons]
      omega

theorem isText_ofBytes (small : ∀ b ∈ bytes, b < 256) : isText (ofBytes bytes) = true := by
  induction bytes with
  | nil => rfl
  | cons b rest ih =>
      obtain ⟨first, others⟩ := List.forall_mem_cons.mp small
      have digits : isText (fixed 2 b) = true := isText_fixed first
      simp only [isText, ofBytes_cons, List.all_append] at digits ih ⊢
      rw [digits, ih others]
      rfl

/-- Cutting behind a byte is cutting behind its second digit. -/
theorem ofBytes_take (k : Nat) (bytes : List Nat) :
    ofBytes (bytes.take k) = (ofBytes bytes).take (2 * k) := by
  induction k generalizing bytes with
  | zero => rfl
  | succ k ih =>
      cases bytes with
      | nil => rfl
      | cons b rest =>
          have digits : 2 * (k + 1) = (fixed 2 b).length + 2 * k := by rw [length_fixed]; omega
          rw [List.take_succ_cons, ofBytes_cons, ofBytes_cons, ih, digits,
            List.take_length_add_append]

theorem ofBytes_drop (k : Nat) (bytes : List Nat) :
    ofBytes (bytes.drop k) = (ofBytes bytes).drop (2 * k) := by
  induction k generalizing bytes with
  | zero => rfl
  | succ k ih =>
      cases bytes with
      | nil => rfl
      | cons b rest =>
          have digits : 2 * (k + 1) = (fixed 2 b).length + 2 * k := by rw [length_fixed]; omega
          rw [List.drop_succ_cons, ofBytes_cons, ih, digits, List.drop_length_add_append]

end EvmFlow.Hex
