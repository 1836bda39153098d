import EvmFlow.Fault
import EvmFlow.Hex

/-!
# Machine words

The widths of the words that numbers are read into, and the largest number of each width. Words are
read and written by halves: a byte has two hexadecimal digits, and every other word is made of two
words of half its width.
-/

namespace EvmFlow.Word

/-- The number of words of `bits` bits. -/
def count (bits : Nat) : Nat := Nat.pow 2 bits

/-- The largest word of `bits` bits. -/
def largest (bits : Nat) : Nat := count bits - 1

/-- The widths that words have. -/
def widths : List Nat := [8, 16, 32, 64, 128, 256]

/-- The bounds of words by name: `TWO_8` is a count and `MAX_U8` the largest word. -/
def bound? (name : String) : Option Nat :=
  ((widths ++ [4]).map (fun w => ("TWO_" ++ toString w, count w)) ++
    widths.map fun w => ("MAX_U" ++ toString w, largest w)).lookup name

/-- How words of some width are read from hexadecimal text and written. -/
structure Codec where
  bits : Nat
  /-- Reads the characters in front; whatever follows is not looked at. There is no word if one of
  them is no digit. -/
  read? : List Char → Except Fault (Option Nat)
  write : Nat → List Char

/-- The word with the given halves, of which the upper one counts `bound` times. -/
def join (bound : Nat) : Option Nat → Option Nat → Option Nat
  | some high, some low => some (bound * high + low)
  | _, _ => none

/-- Words of two halves. The upper half is read from the first `cut` characters and the lower one
from the others. -/
def Codec.double (half : Codec) (cut bound : Nat) : Codec where
  bits := 2 * half.bits
  read? s := do
    let high ← half.read? (s.take cut)
    let low ← half.read? (s.drop cut)
    return join bound high low
  write n := half.write (n / bound) ++ half.write (n % bound)

/-- A byte has two digits. -/
def u8 : Codec where
  bits := 8
  read?
    | c :: d :: _ => .ok (join (count 4) (Hex.digit? c) (Hex.digit? d))
    | _ => .error .pastEnd
  write n := [Hex.digitChar (n / count 4), Hex.digitChar (n % count 4)]

/-- Words of two bytes. -/
def u16 : Codec := u8.double 2 (count 8)

/-- Words of four bytes. -/
def u32 : Codec := u16.double 4 (count 16)

/-- Words of eight bytes. -/
def u64 : Codec := u32.double 8 (count 32)

/-- Words of sixteen bytes. -/
def u128 : Codec := u64.double 16 (count 64)

/-- Words of thirty-two bytes, as on the stack. -/
def u256 : Codec := u128.double 32 (count 128)

/-- All kinds of words. -/
def codecs : List Codec := [u8, u16, u32, u64, u128, u256]

end EvmFlow.Word
