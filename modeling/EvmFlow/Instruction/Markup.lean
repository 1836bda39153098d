import EvmFlow.Decimal
import EvmFlow.Instruction.Basic
import EvmFlow.Opcode.Notes

/-!
# Instructions in graph labels

A graph label shows an instruction either as one line of text or as a small table with its
address, a link to its cost, and a coloured cell that explains the opcode. Kinds of opcodes have
their own pair of colours, one for the text and one for the background.
-/

namespace EvmFlow.Instruction

/-- The colours of the text and of the background of an opcode. -/
def colours (o : Opcode) : String × String :=
  match o.kind with
  | .arithmetic => ("#316152", "#c6eb76")
  | .comparison => ("darkgoldenrod", "bisque")
  | .bitwise => ("orange", "#f3f383")
  | .keccak => ("grey", "linen")
  | .environment => ("darkslategrey", "lightgrey")
  | .memory => ("sienna", "wheat")
  | .storage => ("fuchsia", "mistyrose")
  | .jump => ("purple", "thistle")
  | .run => ("sienna", "tan")
  | .stack => ("royalblue", "powderblue")
  | .log => ("cornflowerblue", "lavender")
  | .system =>
    if o.isRevertStop then ("brown", "lightsalmon")
    else if o.isReturn then ("teal", "greenyellow")
    else if [0xf1, 0xf2, 0xf4, 0xfa].contains o.code then ("sienna", "tan")
    else ("brown", "salmon")

/-- An address with an even number of digits. -/
def paddedAddress (address : Nat) : String :=
  let digits := Hex.natural address
  String.ofList (List.replicate (digits.length % 2) '0' ++ digits)

/-- The mnemonic in its colour. -/
def colouredName (i : Instruction) : String :=
  "<FONT color=\"" ++ (colours i.op).1 ++ "\">" ++ i.op.name ++ "</FONT>"

/-- The instruction as a line of a label. -/
def line (i : Instruction) : String :=
  let arg := String.ofList i.arg
  let body :=
    if i.op.isInvalid then i.colouredName ++ " " ++ arg
    else i.colouredName ++ (if i.arg.isEmpty then "" else " 0x" ++ arg)
  "0x" ++ paddedAddress i.address ++ ":" ++ body ++ " <BR ALIGN=\"LEFT\"/>\n"

/-- The lines of a list of instructions. -/
def lines (is : List Instruction) : String := String.join (is.map line)

/-- The instruction as a table. The two tags name the anchors for edges that arrive and leave. -/
def table (i : Instruction) (entryTag exitTag : String) : String :=
  let note := Note.ofByte i.op.code
  let addressCell :=
    "<TD width=\"1\" fixedsize=\"false\" align=\"left\" cellpadding=\"1\" " ++ entryTag ++ ">" ++
      "0x" ++ paddedAddress i.address ++ " </TD>\n"
  let gasCell :=
    "<TD width=\"1\" fixedsize=\"false\" align=\"left\" cellpadding=\"1\" tooltip=\"Gas: " ++
      Gas.ofByte i.op.code ++ " \" " ++ "target=\"_blank\" href=\"" ++ Gas.reference ++ "\"" ++
      ">" ++ "&#9981;" ++ "</TD>"
  let nameCell :=
    "<TD width=\"1\" fixedsize=\"true\" style=\"Rounded\" BORDER=\"0\" BGCOLOR=\"" ++
      (colours i.op).2 ++ "\" align=\"left\" cellpadding=\"3\" " ++ exitTag ++ " href=\"" ++
      Note.reference ++ Decimal.text note.2 ++ "\" target=\"_blank\" " ++ " tooltip=\"" ++
      note.1 ++ "\" " ++ ">" ++ i.colouredName ++ "</TD>"
  let argCell :=
    if i.arg.isEmpty then ""
    else "<TD width=\"1\" fixedsize=\"true\" align=\"left\">" ++ "  0x" ++ String.ofList i.arg ++
      "</TD>"
  "<TABLE  border=\"0\" cellpadding=\"0\" cellborder=\"0\" CELLSPACING=\"1\">" ++
    "<TR>" ++ addressCell ++ gasCell ++ nameCell ++ argCell ++ "</TR>" ++ "</TABLE>"

/-- The tables of a list of instructions, one per row. The first row has the anchor for edges that
arrive if `first` holds, and each jump has the anchor for edges that leave. -/
def tables (first : Bool) : List Instruction → String
  | [] => ""
  | i :: rest =>
    "<TR><TD width=\"1\" fixedsize=\"true\" align=\"left\">\n" ++
      i.table (if first then "PORT=\"entry\"" else "") (if i.isJump then "PORT=\"exit\"" else "") ++
      "</TD></TR>\n" ++ tables false rest

end EvmFlow.Instruction
