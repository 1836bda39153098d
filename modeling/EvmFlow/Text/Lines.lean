import EvmFlow.Hex
import EvmFlow.Text.Blank

/-!
# The lines of a file

A file is read line by line, whatever ends its lines. The lines that say something are listed
without the white space around them, each between quotes.
-/

namespace EvmFlow.Lines

/-- Divides a text into lines. A line ends with a line feed, a carriage return, or both in this
order. `line` is the open line, backwards. -/
def splitFrom (line : List Char) : List Char → List (List Char)
  | [] => [line.reverse]
  | '\r' :: '\n' :: rest => line.reverse :: splitFrom [] rest
  | '\r' :: rest => line.reverse :: splitFrom [] rest
  | '\n' :: rest => line.reverse :: splitFrom [] rest
  | c :: rest => splitFrom (c :: line) rest

/-- The lines of a text. -/
def split (s : List Char) : List (List Char) := splitFrom [] s

/-- The lines that are more than white space, without the white space around them. -/
def contents (s : List Char) : List (List Char) :=
  ((split s).map Blank.strip).filter fun l => !l.isEmpty

/-- The quote for a text: a single one, unless that would have to be escaped and a double one
would not. -/
def quoteFor (s : List Char) : Char :=
  if s.contains '\'' && !s.contains '"' then '"' else '\''

/-- A character between the given quotes. Invisible ones are written by number. -/
def escape (quote c : Char) : List Char :=
  if c = quote || c = '\\' then ['\\', c]
  else if c = '\n' then "\\n".toList
  else if c = '\r' then "\\r".toList
  else if c = '\t' then "\\t".toList
  else if Blank.isInvisible c then
    if c.toNat < 0x100 then "\\x".toList ++ Hex.fixed 2 c.toNat
    else if c.toNat < 0x10000 then "\\u".toList ++ Hex.fixed 4 c.toNat
    else "\\U".toList ++ Hex.fixed 8 c.toNat
  else [c]

/-- A text between quotes. -/
def quoted (s : List Char) : String :=
  let quote := quoteFor s
  String.ofList (quote :: s.flatMap (escape quote) ++ [quote])

/-- What is printed for the contents of a file. -/
def report (s : List Char) : String :=
  "hello\n\n[" ++ String.intercalate ", " ((contents s).map quoted) ++ "]\n"

end EvmFlow.Lines
