import EvmFlow.Fault

/-!
# Decimal text

Natural numbers are written without leading zeros, integers with an explicit sign unless they
are zero. A text is a number when it is not empty and all its characters are digits.
-/

namespace EvmFlow.Decimal

/-- The value of a decimal digit. -/
def digit? (c : Char) : Option Nat :=
  if '0' ≤ c ∧ c ≤ '9' then some (c.toNat - '0'.toNat) else none

/-- The digit of a value. Values past nine are written as the largest digit. -/
def digitChar (n : Nat) : Char :=
  if n < 9 then Nat.digitChar n else '9'

/-- The numeral of a natural number: the numeral of the quotient by ten, then the remainder. -/
def natural (n : Nat) : List Char :=
  if n < 10 then [digitChar n] else natural (n / 10) ++ [digitChar (n % 10)]

/-- The numeral of a natural number, as a string. -/
def text (n : Nat) : String := String.ofList (natural n)

/-- The numeral of an integer: positive numbers carry a plus sign. -/
def signed : Int → String
  | .ofNat 0 => "0"
  | .ofNat (n + 1) => "+" ++ text (n + 1)
  | .negSucc n => "-" ++ text (n + 1)

/-- Whether a non-empty text is a number. -/
def isNumeral (s : List Char) : Bool := s.all fun c => (digit? c).isSome

/-- The value of a text of digits, continuing from `acc`; characters that are no digit count
as zero. -/
def valueFrom (acc : Nat) : List Char → Nat
  | [] => acc
  | c :: rest => valueFrom (10 * acc + (digit? c).getD 0) rest

/-- The value of a text of digits. -/
def value (s : List Char) : Nat := valueFrom 0 s

/-- Whether a text is a number. The empty text has no first character to look at. -/
def isNumeral? (s : List Char) : Except Fault Bool :=
  if s.isEmpty then .error .pastEnd else .ok (isNumeral s)

/-- The number that a text writes. -/
def read? (s : List Char) : Except Fault Nat :=
  if s.isEmpty then .error .pastEnd
  else if isNumeral s then .ok (value s)
  else .error .wrongCase

end EvmFlow.Decimal
