import EvmFlow.Datum
import EvmFlow.Decimal
import EvmFlow.Hex

/-!
# Stack cells

An abstract stack holds cells whose value is known and cells of which nothing is known. Only jump
destinations are worth knowing, so most cells are unknown. An unknown cell may carry a remark.
-/

namespace EvmFlow

/-- What is known of a stack element. -/
inductive Cell where
  | known (value : Nat)
  | unknown (remark : String)
  deriving DecidableEq, Repr

namespace Cell

instance : Inhabited Cell := ⟨.known 0⟩

/-- A cell of which nothing is known and nothing is said. -/
def blank : Cell := .unknown ""

/-- The text of a cell: a known value in both bases, a question mark otherwise. -/
def text : Cell → String
  | known v => Decimal.text v ++ "(0x" ++ Hex.text v ++ ")"
  | unknown _ => "?"

/-- The cell taken apart. -/
def toDatum : Cell → Datum
  | known v => .node "StackElement.StackElem.Value" [.nat v]
  | unknown s => .node "StackElement.StackElem.Random" [.text s.toList]

/-- The text of a stack: the cells from the top, each followed by a comma, then the bottom. -/
def stackText (stack : List Cell) : String :=
  String.join (stack.map fun c => c.text ++ ",") ++ "Ø"

/-- A stack taken apart. -/
def stackDatum (stack : List Cell) : Datum := .seq (stack.map toDatum)

end Cell

end EvmFlow
