/-!
# Series of integers

Finite and endless enumerations, given by the element at each position.
-/

namespace EvmFlow

/-- An enumeration of integers. -/
inductive Series where
  /-- From a bound up to another one, which is left out. -/
  | between (lo hi : Int)
  /-- All integers from a bound up. -/
  | up (lo : Int)
  /-- All integers below a bound, downwards. -/
  | down (hi : Int)
  /-- All integers, by size, the negative ones first. -/
  | integers
  /-- A number doubled again and again. -/
  | doubling (start : Int)
  /-- All code units of sixteen bits. -/
  | codeUnits
  /-- All code points but the surrogates. -/
  | scalars

namespace Series

/-- The element at a position, if the series is that long. -/
def element? (i : Nat) : Series → Option Int
  | between lo hi => if lo + i < hi then some (lo + i) else none
  | up lo => some (lo + i)
  | down hi => some (hi - 1 - i)
  | integers => some (if i % 2 = 0 then (i / 2 : Nat) else -((i + 1) / 2 : Nat))
  | doubling start => some (start * Int.pow 2 i)
  | codeUnits => if i < 0x10000 then some i else none
  | scalars =>
    if i < 0xD800 then some i
    else if i + 0x800 < 0x110000 then some ((i + 0x800 : Nat) : Int)
    else none

/-- The elements from a position on, as many as asked for. -/
def window (s : Series) (skip count : Nat) : List Int :=
  (List.range count).filterMap fun i => s.element? (skip + i)

end Series

end EvmFlow
