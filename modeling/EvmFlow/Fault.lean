/-!
# Faults

Most operations of the library are total. The few that are asked about something that is not
there (an element past the end of a sequence, a key that a dictionary does not have, a field of
another constructor) answer with a `Fault`, which names the cause and not the caller.
-/

namespace EvmFlow

/-- Why an operation has no answer. -/
inductive Fault where
  /-- A position at or past the end of a sequence. -/
  | pastEnd
  /-- A key that is not in the dictionary. -/
  | missingKey
  /-- A field that belongs to another constructor. -/
  | wrongCase
  /-- A number that is no code point. -/
  | notScalar
  /-- An attempt to change a collection that cannot change. -/
  | frozen
  /-- A quotient with denominator zero; the numerator is kept for the message. -/
  | zeroDenominator (numerator : Int)
  deriving DecidableEq, Repr

/-- The element at a position, or the fault of looking past the end. -/
def elementAt {α : Type} (xs : List α) (i : Nat) : Except Fault α :=
  match xs[i]? with
  | some x => .ok x
  | none => .error .pastEnd

end EvmFlow
