import EvmFlow.FlowGraph.Dot
import EvmFlow.Obligation
import EvmFlow.Options
import EvmFlow.Program.Report
import EvmFlow.Segment.Listing

/-!
# The command

The last token of a command line is a bytecode in hexadecimal, with or without a leading `0x`.
The tokens before it are options that choose what is printed; a bytecode alone is disassembled.
-/

namespace EvmFlow.Command

/-- The options of the command. -/
def options : Options :=
  [("--dis", ⟨"-d", 0, "Disassemble <string>"⟩),
    ("--proof", ⟨"-p", 0, "Generate proof object for <string>"⟩),
    ("--segment", ⟨"-s", 0, "Print segment of <string>"⟩),
    ("--lib", ⟨"-l", 1, "The path to the Dafny-EVM source code. " ++
      "Used to add includes files in the proof object. "⟩),
    ("--cfg", ⟨"-c", 1, "Max depth. Control flow graph in DOT format"⟩),
    ("--raw", ⟨"-r", 0, "Display non-minimised and minimised CFGs"⟩),
    ("--fancy", ⟨"-f", 0, "Use exit and entry ports in segments do draw arrows."⟩),
    ("--notable", ⟨"-n", 0, "Don't use tables to pretty-print DOT file. " ++
      "Reduces size of the DOT file."⟩),
    ("--title", ⟨"-t", 1, "The name of the program."⟩),
    ("--info", ⟨"-i", 0, "The stats of the program (size, segments)."⟩)].foldl
    (fun o (key, f) => o.add key f) (.start "<string>")

/-- What to print of a program. -/
structure Request where
  listing : Bool
  info : Bool
  segments : Bool
  obligations : Bool
  library : String
  depth : Nat
  raw : Bool
  noTable : Bool
  name : String
  deriving DecidableEq, Repr

/-- The request that tokens make. A depth that is no number counts as zero. -/
def Request.ofTokens (tokens : List String) : Request where
  listing := options.has "--dis" tokens
  info := options.has "--info" tokens
  segments := options.has "--segment" tokens
  obligations := options.has "--proof" tokens
  library := options.argumentD "--lib" tokens ""
  depth := (Decimal.read? (options.argumentD "--cfg" tokens "").toList).toOption.getD 0
  raw := options.has "--raw" tokens
  noTable := options.has "--notable" tokens
  name := options.argumentD "--title" tokens "Name not set"

/-- Drops a leading `0x`. -/
def digits : List Char → List Char
  | '0' :: 'x' :: rest => rest
  | s => s

/-- The listing of a program between its headings. -/
def listing (is : List Instruction) : String :=
  "Disassembled code:\n" ++ Instruction.listing is ++
    "--------------- Disassembled ---------------------\n"

/-- The parts of the output that a request asks for. A graph is drawn only from a depth above
zero and of a program that has a segment. -/
def respond (code : List Char) (r : Request) : String :=
  let p := Program.ofCode code
  (if r.listing then listing (disassemble code 0) else "") ++
    (if r.info then
      "-------- Program Stats ---------\n" ++ p.instructionReport ++
        "-------- End Program Stats ---------\n" ++ "-------- Segment Stats ---------\n" ++
        p.segmentReport ++ "-------- End Segment Stats ---------\n"
    else "") ++
    (if r.segments then
      "Segments:\n" ++ Segment.listing 0 p.segments ++
        "----------------- Segments -------------------\n"
    else "") ++
    (if r.obligations then
      "Dafny Proof Object:\n" ++
        Obligation.source r.library (p.segments.map Obligation.ofSegment) ++
        "----------------- Proof -------------------\n"
    else "") ++
    (if 0 < r.depth ∧ p.segments ≠ [] then
      (FlowGraph.build p r.depth (!r.raw)).dot r.noTable r.name
    else "")

/-- Answers for a bytecode if it is one. `odd` is the complaint about an odd length. -/
def check (odd : String) (code : String) (answer : List Char → String) : String :=
  if code.isEmpty then "String must be non empty \n"
  else if code.length % 2 ≠ 0 then odd ++ Decimal.text code.length ++ "\n"
  else if Hex.isText (digits code.toList) then answer (digits code.toList)
  else "String must be hexadecimal\n"

/-- What the command prints for the tokens of a command line. -/
def run (tokens : List String) : String :=
  match tokens with
  | [] => "Not enough arguments\n" ++ options.help
  | "--help" :: _ => "Not enough arguments\n" ++ options.help
  | [code] =>
    check "String must be non empty and have even length, length is " code fun ds =>
      listing (disassemble ds 0)
  | "-h" :: _ => options.help
  | first :: rest =>
    check "String must have even length, length is " (rest.getLastD first) fun ds =>
      respond ds (.ofTokens (first :: rest.dropLast))

/-- The complaint about a bytecode that cannot be read from a file: either the file that was named
is not there, or none was named. -/
def fileComplaint (tokens : List String) : String :=
  let files := ((Options.start "").add "--file" ⟨"-f", 1, ""⟩)
  match files.argumentD "--file" tokens "" with
  | "" => "An exception occurred: name 'data' is not defined\n"
  | name => "Either the file \"" ++ name ++ "\" is missing or not readable\n"

end EvmFlow.Command
