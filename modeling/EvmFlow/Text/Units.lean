import EvmFlow.Fault

/-!
# Code units and code points

Texts of sixteen-bit code units, in which a pair of surrogates stands for one character, and the
sum and difference of code points.
-/

namespace EvmFlow.Units

/-- A unit that opens a pair. -/
def isHigh (u : Nat) : Bool := decide (0xD800 ≤ u ∧ u < 0xDC00)

/-- A unit that closes a pair. -/
def isLow (u : Nat) : Bool := decide (0xDC00 ≤ u ∧ u < 0xE000)

/-- The character that stands for a unit without a partner. -/
def replacement : Char := '�'

/-- The character of a pair. -/
def pair (high low : Nat) : Char :=
  Char.ofNat (0x10000 + (high - 0xD800) * 0x400 + (low - 0xDC00))

/-- The text that code units write. -/
def decode : List Nat → List Char
  | [] => []
  | [u] => [if isHigh u || isLow u then replacement else Char.ofNat u]
  | u :: v :: rest =>
    if isHigh u && isLow v then pair u v :: decode rest
    else (if isHigh u || isLow u then replacement else Char.ofNat u) :: decode (v :: rest)

/-- The code point that a number is. -/
def codePoint (n : Int) : Except Fault Nat :=
  if 0 ≤ n ∧ n < 0x110000 then .ok n.toNat else .error .notScalar

/-- The code point that lies as far above one character as another is above zero. -/
def add (a b : Char) : Except Fault Nat := codePoint (a.toNat + b.toNat)

/-- The code point that lies as far below one character as another is above zero. -/
def sub (a b : Char) : Except Fault Nat := codePoint ((a.toNat : Int) - b.toNat)

end EvmFlow.Units
