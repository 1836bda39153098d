/-!
# HTML-like labels

The building blocks of labels in the DOT language: coloured text, rows, cells and tables. Sizes
and colours are given as they are written.
-/

namespace EvmFlow.Html

/-- An HTML attribute with its value and a space behind it. -/
def field (name value : String) : String := name ++ "=\"" ++ value ++ "\" "

/-- Text in a colour; the empty colour leaves it as it is. -/
def font (s colour : String) : String :=
  "<FONT" ++ (if colour = "" then "> " else " COLOR=\"" ++ colour ++ "\"> ") ++ s ++ "</FONT>"

/-- A row of cells. -/
def row (s : String) : String := "<TR>" ++ s ++ "</TR>\n"

/-- The looks of a cell. -/
structure CellStyle where
  align : String
  border : String
  sides : String
  colspan : String
  rowspan : String
  bgcolour : String
  cellspacing : String
  cellpadding : String

/-- A cell. Spans are left out when they say nothing. -/
def cell (body : String) (s : CellStyle) : String :=
  "<TD " ++ field "ALIGN" s.align ++ field "BORDER" s.border ++
    field "SIDES" s.sides ++ field "BGCOLOR" s.bgcolour ++
    field "CELLPADDING" s.cellpadding ++ field "CELLSPACING" s.cellspacing ++
    (if s.colspan = "0" then "" else field "COLSPAN" s.colspan) ++
    (if s.rowspan = "1" then "" else field "ROWSPAN" s.rowspan) ++ ">" ++ body ++ "</TD>\n"

/-- The looks of a table. -/
structure TableStyle where
  colour : String
  bgcolour : String
  cellborder : String
  border : String
  cellpadding : String
  cellspacing : String

/-- A table. -/
def table (body : String) (s : TableStyle) : String :=
  "<TABLE " ++ field "BORDER" s.border ++ field "CELLBORDER" s.cellborder ++
    field "CELLPADDING" s.cellpadding ++ field "CELLSPACING" s.cellspacing ++
    field "BGCOLOR" s.bgcolour ++ field "COLOR" s.colour ++ ">" ++ body ++ "</TABLE>\n"

end EvmFlow.Html
