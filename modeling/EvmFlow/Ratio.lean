import EvmFlow.Fault

/-!
# Printed quotients

A rational number is printed as a decimal when its denominator is a product of tens followed by
twos only or fives only; otherwise as a quotient of two whole numbers. The search takes factors
of ten first and then factors of one of two and five, never of both.
-/

namespace EvmFlow.Ratio

/-- Divides `x` by `f` as often as it goes, at most `fuel` times, and counts. A number that is at
most one is left alone. -/
def factorOut (f : Nat) : Nat → Nat → Nat × Nat
  | 0, x => (x, 0)
  | fuel + 1, x =>
    if 1 < x ∧ x % f = 0 then
      let (rest, count) := factorOut f fuel (x / f)
      (rest, count + 1)
    else (x, 0)

/-- The factor that turns a denominator into a power of ten, and that power. -/
def decimalScale (den : Nat) : Option (Nat × Nat) :=
  let (rest, tens) := factorOut 10 den den
  if rest % 5 = 0 ∨ rest % 2 = 0 ∨ rest = 1 then
    let (major, minor) := if rest % 5 = 0 then (5, 2) else (2, 5)
    let (last, count) := factorOut major rest rest
    if last = 1 then some (Nat.pow minor count, tens + count) else none
  else none

/-- Writes `digits` with the point `shift` places from the right. -/
def pointed (digits : String) (shift : Nat) : String :=
  let cs := digits.toList
  if shift < cs.length then
    let whole := cs.length - shift
    String.ofList (cs.take whole) ++ "." ++ String.ofList (cs.drop whole)
  else
    "0." ++ String.ofList (List.replicate (shift - cs.length) '0') ++ digits

/-- The text of a rational number. -/
def text (q : Rat) : String :=
  if q.den = 1 then toString q.num ++ ".0"
  else match decimalScale q.den with
    | none => "(" ++ toString q.num ++ ".0 / " ++ toString q.den ++ ".0)"
    | some (scale, shift) =>
      (if q.num < 0 then "-" else "") ++ pointed (toString (q.num.natAbs * scale)) shift

/-- The reduced quotient of two integers. -/
def ofPair (num den : Int) : Except Fault Rat :=
  if den = 0 then .error (.zeroDenominator num) else .ok (Rat.divInt num den)

/-- The quotient of two rational numbers. Dividing by zero leaves only the sign of the
numerator. -/
def quotient (a b : Rat) : Except Fault Rat :=
  if b.num = 0 then .error (.zeroDenominator a.num.sign) else .ok (a / b)

end EvmFlow.Ratio
