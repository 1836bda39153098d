/-!
# Hexadecimal text

Digits are read in either case and written in lower case. Two written forms are used: `fixed`
has a given number of digits, `natural` has the fewest.
-/

namespace EvmFlow.Hex

/-- The value of a hexadecimal digit, in either case. -/
def digit? (c : Char) : Option Nat :=
  if '0' ≤ c ∧ c ≤ '9' then some (c.toNat - '0'.toNat)
  else if 'a' ≤ c ∧ c ≤ 'f' then some (c.toNat - 'a'.toNat + 10)
  else if 'A' ≤ c ∧ c ≤ 'F' then some (c.toNat - 'A'.toNat + 10)
  else none

/-- A character is a digit when it has a value. -/
def isDigit (c : Char) : Bool := (digit? c).isSome

/-- A text is hexadecimal when all its characters are digits; the empty text is. -/
def isText (s : List Char) : Bool := s.all isDigit

/-- The lower-case digit of a value. Values past fifteen are written as the largest digit. -/
def digitChar (n : Nat) : Char :=
  (['0', '1', '2', '3', '4', '5', '6', '7', '8', '9', 'a', 'b', 'c', 'd', 'e'][n]?).getD 'f'

/-- The value of a text, most significant digit first, continuing from `acc`. -/
def valueFrom? (acc : Nat) : List Char → Option Nat
  | [] => some acc
  | c :: rest =>
    match digit? c with
    | some d => valueFrom? (16 * acc + d) rest
    | none => none

/-- The value of a text of digits. -/
def value? (s : List Char) : Option Nat := valueFrom? 0 s

/-- Exactly `width` digits. The leading digit takes whatever the others leave, so a number that
is too large shows as the largest digit. -/
def fixed : Nat → Nat → List Char
  | 0, _ => []
  | 1, n => [digitChar n]
  | width + 2, n => fixed (width + 1) (n / 16) ++ [digitChar (n % 16)]

/-- The numeral without leading zeros: the numeral of the quotient by sixteen, then the remainder. -/
def natural (n : Nat) : List Char :=
  if n < 16 then [digitChar n] else natural (n / 16) ++ [digitChar (n % 16)]

/-- The two-digit numerals of a list of bytes, one after the other. -/
def ofBytes (bytes : List Nat) : List Char := bytes.flatMap (fixed 2)

/-- The numeral without leading zeros, as a string. -/
def text (n : Nat) : String := String.ofList (natural n)

end EvmFlow.Hex
