import EvmFlow.Fault

/-!
# Structured values and their text

A `Datum` is any value of the library taken apart: numbers, characters, texts, collections and
named constructors with their fields. `Datum.render` is the one place where such values become
text. Characters and texts are quoted and escaped; a text is written between double quotes only
where a constructor declares the field to be one, and as a sequence of characters elsewhere.
-/

namespace EvmFlow

/-- A value taken apart. -/
inductive Datum where
  | null
  | function
  | bool (b : Bool)
  | int (n : Int)
  /-- A text printed as it stands. -/
  | bare (s : String)
  | char (c : Char)
  /-- A text printed as a quoted literal. -/
  | text (s : List Char)
  | seq (xs : List Datum)
  | set (xs : List Datum)
  | dict (entries : List (Datum × Datum))
  | tuple (xs : List Datum)
  /-- A constructor, by its full name, applied to its fields. -/
  | node (name : String) (fields : List Datum)
  deriving Inhabited

namespace Datum

/-- The escaped form of a character inside quotes. -/
def escape : Char → String
  | '\n' => "\\n"
  | '\r' => "\\r"
  | '\t' => "\\t"
  | '\x00' => "\\0"
  | '\'' => "\\'"
  | '"' => "\\\""
  | '\\' => "\\\\"
  | c => c.toString

/-- A text between double quotes. -/
def quote (s : List Char) : String := "\"" ++ String.join (s.map escape) ++ "\""

/-- A character between single quotes. -/
def quoteChar (c : Char) : String := "'" ++ escape c ++ "'"

/-- A natural number as a datum. -/
def nat (n : Nat) : Datum := .int n

/-- A text as a sequence of characters. -/
def chars (s : List Char) : Datum := .seq (s.map .char)

/-- A list of natural numbers as a datum. -/
def nats (ns : List Nat) : Datum := .seq (ns.map nat)

/-- An optional value as a datum. -/
def option (v : Option Datum) : Datum :=
  match v with
  | none => .node "MiscTypes.Option.None" []
  | some d => .node "MiscTypes.Option.Some" [d]

/-- One of two alternatives as a datum. -/
def either : Datum ⊕ Datum → Datum
  | .inl d => .node "MiscTypes.Either.Left" [d]
  | .inr d => .node "MiscTypes.Either.Right" [d]

/-- The outcome of an attempt as a datum: a value, or the message of the failure. -/
def attempt : Except String Datum → Datum
  | .ok d => .node "MiscTypes.Try.Success" [d]
  | .error message => .node "MiscTypes.Try.Failure" [.text message.toList]

mutual

/-- The text of a value. -/
def render : Datum → String
  | null => "null"
  | function => "Function"
  | bool b => if b then "true" else "false"
  | int n => toString n
  | bare s => s
  | char c => quoteChar c
  | text s => quote s
  | seq xs => "[" ++ String.intercalate ", " (renderAll xs) ++ "]"
  | set xs => "\x7b" ++ String.intercalate ", " (renderAll xs) ++ "\x7d"
  | dict es => "map[" ++ String.intercalate ", " (renderEntries es) ++ "]"
  | tuple xs => "(" ++ String.intercalate ", " (renderAll xs) ++ ")"
  | node name [] => name
  | node name (f :: fs) =>
    name ++ "(" ++ String.intercalate ", " (render f :: renderAll fs) ++ ")"

/-- The texts of a list of values. -/
def renderAll : List Datum → List String
  | [] => []
  | x :: xs => render x :: renderAll xs

/-- The texts of the entries of a dictionary. -/
def renderEntries : List (Datum × Datum) → List String
  | [] => []
  | (k, v) :: es => (render k ++ " := " ++ render v) :: renderEntries es

end

mutual

/-- Equality of values. Sets and dictionaries are compared by their members. -/
def same : Datum → Datum → Bool
  | null, null => true
  | function, function => true
  | bool a, bool b => a == b
  | int a, int b => a == b
  | bare a, bare b => a == b
  | char a, char b => a == b
  | text a, text b => a == b
  | seq xs, seq ys => sameAll xs ys
  | tuple xs, tuple ys => sameAll xs ys
  | set xs, set ys => allIn xs ys && xs.length == ys.length
  | dict xs, dict ys => entriesIn xs ys && xs.length == ys.length
  | node a xs, node b ys => a == b && sameAll xs ys
  | _, _ => false

/-- Equality of lists of values. -/
def sameAll : List Datum → List Datum → Bool
  | [], [] => true
  | x :: xs, y :: ys => same x y && sameAll xs ys
  | _, _ => false

/-- Whether every value of the first list is in the second. -/
def allIn : List Datum → List Datum → Bool
  | [], _ => true
  | x :: xs, ys => ys.any (same x) && allIn xs ys

/-- Whether every entry of the first list is in the second. -/
def entriesIn : List (Datum × Datum) → List (Datum × Datum) → Bool
  | [], _ => true
  | (k, v) :: es, ys => ys.any (fun e => same k e.1 && same v e.2) && entriesIn es ys

end

/-- How many different values a list holds. -/
def countDistinct : List Datum → Nat
  | [] => 0
  | x :: xs => (if xs.any (same x) then 0 else 1) + countDistinct xs

/-- The last part of a constructor's full name. -/
def constructorName : Datum → Option String
  | node name _ => (name.splitOn ".").getLast?
  | _ => none

/-- A sequence of characters read as a text; any other value stays as it is. -/
def asText : Datum → Datum
  | seq xs =>
    match xs.mapM (fun | char c => some c | _ => none) with
    | some cs => text cs
    | none => seq xs
  | d => d

/-- The positions of the fields that a constructor declares as texts. -/
def textFields (name : String) : List Nat :=
  if name.startsWith "EVMOpcodes.Opcode." then [0]
  else if name = "Instructions.Instruction.Instruction" then [1]
  else if name = "ArgParser.CLIOption.CLIOption" then [0, 2]
  else if ["StackElement.StackElem.Random", "State.AState.Error", "CFGState.GState.ErrorGState",
      "MiscTypes.Try.Failure"].contains name then [0]
  else []

/-- A constructor applied to fields, of which those declared as texts become texts. -/
def construct (name : String) (fields : List Datum) : Datum :=
  .node name (fields.mapIdx fun i d => if (textFields name).contains i then d.asText else d)

/-- The entries that are written one after the other: a later value of a key takes the place of an
earlier one. -/
def putEntry (k v : Datum) : List (Datum × Datum) → List (Datum × Datum)
  | [] => [(k, v)]
  | e :: rest => if same k e.1 then (e.1, v) :: rest else e :: putEntry k v rest

/-- A dictionary from entries. -/
def dictOf (entries : List (Datum × Datum)) : Datum :=
  .dict (entries.foldl (fun es e => putEntry e.1 e.2 es) [])

/-- The field of a value that has one of the given constructors. -/
def onlyField (constructors : List String) : Datum → Except Fault Datum
  | d@(node _ [f]) =>
    if (constructorName d).any (constructors.contains ·) then .ok f else .error .wrongCase
  | _ => .error .wrongCase

end Datum

end EvmFlow
