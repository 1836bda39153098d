import EvmFlow.Collection.Dictionary
import EvmFlow.Datum
import EvmFlow.Decimal

/-!
# Command-line options

A set of options knows each option by its long name, in the order in which they were added, with
a short name as an alias. The arguments of an option are looked up in the tokens of a command
line by its long name; the first token that names the option counts. Arguments of other options
are tokens like all others.
-/

namespace EvmFlow

/-- What is known of an option: its short name, how many arguments follow it, and a description. -/
structure Flag where
  short : String
  arity : Nat
  help : String
  deriving DecidableEq, Repr, Inhabited

/-- The option taken apart. -/
def Flag.toDatum (f : Flag) : Datum :=
  .node "ArgParser.CLIOption.CLIOption" [.text f.short.toList, .nat f.arity, .text f.help.toList]

/-- Options by long name, and the aliases of long names. `suffix` is what a command line needs
besides options. -/
structure Options where
  suffix : String
  flags : List (String × Flag)
  aliases : List (String × String)
  deriving DecidableEq, Repr

namespace Options

/-- Why the arguments of an option cannot be given. -/
inductive Missing where
  | notFound
  | unknownKey
  | fewArguments (token : String)
  deriving DecidableEq, Repr

/-- The wording of a failed look-up. -/
def Missing.message : Missing → String
  | .notFound => "Not found"
  | .unknownKey => "Not a key"
  | .fewArguments token => "argument " ++ token ++ " needs more arguments"

/-- The options that are always there. -/
def start (suffix : String) : Options :=
  ⟨suffix, [("--help", ⟨"-h", 0, "Display help and exit"⟩)], [("-h", "--help")]⟩

/-- Adds an option. An option of the same long name is replaced; its alias stays. -/
def add (o : Options) (key : String) (f : Flag) : Options :=
  { o with flags := Dictionary.set key f o.flags, aliases := (f.short, key) :: o.aliases }

/-- The long names in their order. -/
def keys (o : Options) : List String := o.flags.map Prod.fst

/-- The long name that a token stands for; the token itself if it is no alias. -/
def canonical (o : Options) (token : String) : String := (o.aliases.lookup token).getD token

/-- The arguments that follow the first token which names an option. -/
def arguments (o : Options) (key : String) : List String → Except Missing (List String)
  | [] => .error .notFound
  | token :: rest =>
    match o.flags.lookup key with
    | none => .error .unknownKey
    | some f =>
      if o.canonical token = key then
        if rest.length < f.arity then .error (.fewArguments token) else .ok (rest.take f.arity)
      else o.arguments key rest

/-- Whether an option is given. -/
def has (o : Options) (key : String) (tokens : List String) : Bool :=
  match o.arguments key tokens with
  | .ok _ => true
  | .error _ => false

/-- The first argument of an option, or a default. -/
def argumentD (o : Options) (key : String) (tokens : List String) (default : String) : String :=
  match o.arguments key tokens with
  | .ok (x :: _) => x
  | _ => default

/-- The greatest length of the given texts, at least `least`. -/
def width (texts : List String) (least : Nat) : Nat :=
  texts.foldl (fun w s => max s.length w) least

/-- The usage line and a line for every option. -/
def help (o : Options) : String :=
  let usage := o.flags.map fun (key, f) =>
    " [" ++ key ++ "] " ++
      String.join ((List.range f.arity).map fun i => " arg" ++ Decimal.text i)
  let column := width o.keys 0 + 2
  let lines := o.flags.map fun (key, f) =>
    key ++ String.ofList (List.replicate (column - key.length) ' ') ++ " [" ++ f.short ++ "] " ++
      f.help ++ "\n"
  "usage: <this program> " ++ String.join usage ++ " " ++ o.suffix ++ "\n\noptions\n" ++
    String.join lines

/-- A short session with two options: looks both up in a command line and prints the help. -/
def demo : String :=
  let o := ((start "<filename>").add "--one" ⟨"-o", 0, "No help provided"⟩).add "--two"
    ⟨"-tw", 2, "don't do that!"⟩
  let tokens := ["-one", "--two", "a1", "a2", "-unknwon"]
  let shown (xs : List String) : String := (Datum.seq (xs.map fun s => .chars s.toList)).render
  "hello! Testing ArgParser!\n" ++
    (match o.arguments "-o" tokens with
    | .ok xs => "Success -o! has arguments:" ++ shown xs ++ "\n"
    | .error _ => "No -o! \n") ++
    (match o.arguments "--two" tokens with
    | .ok xs => "Success -two! has arguments: " ++ shown xs ++ "\n"
    | .error _ => "No --two! \n") ++
    o.help

end Options

end EvmFlow
