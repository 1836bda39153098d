import EvmFlow.Instruction.Markup
import EvmFlow.Segment.Basic

/-!
# Segments in graph labels

A graph label shows a segment as lines or as a table, with a tooltip on stack sizes and on where
the final jump goes.
-/

namespace EvmFlow

namespace Symbol

/-- Character references used in labels. -/
def lineFeed : String := "&#10;"

/-- The letter for a difference. -/
def delta : String := "&#916;"

/-- At least. -/
def atLeast : String := "&#8805;"

/-- More information. -/
def info : String := "&#8505;&#65039;"

/-- A space that is kept. -/
def space : String := "&#160;"

/-- The references by name. -/
def named : List (String × String) :=
  [("LINE_FEED_SYMBOL", lineFeed), ("DELTA_SYMBOL", delta), ("LARGER_OR_EQ_SYMBOL", atLeast),
    ("INFO_SYMBOL", info), ("WHITE_SPACE_SYMBOL", space)]

end Symbol

namespace Segment

/-- What a tooltip says of the final jump. -/
def jumpTip (s : Segment) : String :=
  if s.isJump then
    Symbol.lineFeed ++ match s.target with
      | .inl (.known address) => "Exit Jump target: Constant 0x" ++ Hex.text address
      | .inl (.unknown _) => "Exit Jump target: Unknown"
      | .inr pos => "Exit Jump target: Stack on Entry.Peek(" ++ Decimal.text pos ++ ")"
  else ""

/-- What a tooltip says of the operands that the segment needs. -/
def operandsTip (s : Segment) : String :=
  Symbol.lineFeed ++ "Stack Size on Entry for this segment " ++ Symbol.atLeast ++ " " ++
    Decimal.text (s.operandsNeeded 0)

/-- What a tooltip says of the operands that the node needs, if that is known. -/
def nodeTip (bound : Option Nat) : String :=
  match bound with
  | some n =>
    Symbol.lineFeed ++ "Stack Size on Entry for this segment at this node " ++ Symbol.atLeast ++
      " " ++ Decimal.text n
  | none => ""

/-- The number and the address of a segment. -/
def heading (s : Segment) (number : Nat) : String :=
  "Segment " ++ Decimal.text number ++ " [0x" ++ Hex.text s.start ++ "]"

/-- The label of a segment as lines. -/
def label (s : Segment) (number : Nat) : String :=
  "<B>" ++ s.heading number ++ "</B><BR ALIGN=\"CENTER\"/>\n" ++ Instruction.lines s.instructions

/-- The tooltip of a label as lines. -/
def tip (s : Segment) (bound : Option Nat) : String :=
  "Stack Size " ++ Symbol.delta ++ " : " ++ Decimal.signed s.effect ++ s.jumpTip ++
    s.operandsTip ++ nodeTip bound

/-- The label of a segment as a table. -/
def tableLabel (s : Segment) (number : Nat) (bound : Option Nat) : String :=
  "<TABLE ALIGN=\"LEFT\" CELLBORDER=\"0\" BORDER=\"0\" cellpadding=\"0\"  CELLSPACING=\"1\">\n" ++
    "<TR><TD " ++ ">" ++ s.heading number ++ "</TD>" ++ "<TD" ++
    " href=\"\" tooltip=\"Stack Size " ++ Symbol.delta ++ ": " ++ Decimal.signed s.effect ++
    s.operandsTip ++ nodeTip bound ++ s.jumpTip ++ "\"" ++ "><FONT color=\"green\">" ++
    Symbol.info ++ "</FONT></TD>" ++ "</TR><HR/>\n" ++
    Instruction.tables true s.instructions ++ "</TABLE>\n"

end Segment

end EvmFlow
