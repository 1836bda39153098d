import EvmFlow.Datum
import EvmFlow.FlowGraph.Dot
import EvmFlow.Obligation
import EvmFlow.Options
import EvmFlow.PathGraph.History
import EvmFlow.Ratio
import EvmFlow.Word

/-!
# A catalogue of values

The value that stands for each type before anything is known of it, and a few named constants, by
the names under which they are shown. A type of valid values is represented by a valid one.
-/

namespace EvmFlow.Catalogue

/-- An addition and nothing else: the shortest segment that is valid. -/
def addition : Segment := ⟨.cont, [], ⟨Opcode.ofByte 0x01, [], 0⟩, -1⟩

/-- The instruction that stops. -/
def halt : Instruction := ⟨Opcode.ofByte 0x00, [], 0⟩

/-- The graph with the initial node. -/
def single : Automaton Node := Automaton.empty.addState .initial

/-- A graph of nodes; `family` is the family of graphs it belongs to. -/
def graph (family : String) (a : Automaton Node) : Datum := a.toDatum family Node.toDatum

/-- The program without segments. -/
def noProgram : Datum := .node "EVMObject.EVMObj.EVMObj" [.seq [], .seq [], .dict []]

/-- The walks of one family before they start. -/
def walks (family : String) : List (String × Datum) :=
  [(family ++ ".History", (⟨[], [], [], []⟩ : History).toDatum family),
    (family ++ ".Stats", WalkStats.start.toDatum family),
    (family ++ ".DEFAULT_STATS", WalkStats.start.toDatum family),
    (family ++ ".CFGComputation",
      .node (family ++ ".CFGComputation.CFGComputation") [PathGraph.empty.toDatum, .dict []])]

/-- Values by name. -/
def entries : List (String × Datum) :=
  [("EVMOpcodes.Opcode", Opcode.toDatum ⟨.arithmetic, "", 0, 0, 0, 0, 0⟩),
    ("EVMOpcodes.ValidOpcode", (Opcode.ofByte 0x00).toDatum),
    ("Instructions.Instruction", halt.toDatum), ("Instructions.ValidInstruction", halt.toDatum),
    ("LinSegments.LinSeg", Segment.toDatum ⟨.jump, [], halt, 0⟩),
    ("LinSegments.ValidLinSeg", addition.toDatum),
    ("WeakPre.Cond", Condition.always.toDatum),
    ("WeakPre.ValidCond", (Condition.tracked [(1, 0)]).toDatum),
    ("State.AState", (State.running ⟨0, []⟩).toDatum),
    ("State.ValidState", (State.running ⟨0, []⟩).toDatum),
    ("State.DEFAULT_VALIDSTATE", (State.running ⟨0, []⟩).toDatum),
    ("StackElement.StackElem", (Cell.known 0).toDatum),
    ("CFGState.GState", Node.initial.toDatum), ("CFGState.DEFAULT_GSTATE", Node.initial.toDatum),
    ("CFGStateAutomata.DEFAULT_STATE", Node.initial.toDatum),
    ("GStateMinimiser.DEFAULT_STATE", Node.initial.toDatum),
    ("Automata.Auto", graph "Automata" .empty), ("Automata.ValidAuto", graph "Automata" .empty),
    ("CFGStateAutomata.Auto", graph "CFGStateAutomata" .empty),
    ("CFGStateAutomata.ValidAuto", graph "CFGStateAutomata" .empty),
    ("PartitionMod.Partition", Partition.toDatum ⟨0, []⟩),
    ("PartitionMod.ValidPartition", (Partition.whole 1).toDatum),
    ("GStateMinimiser.Pair", Classified.toDatum Node.toDatum ⟨.empty, .whole 1⟩),
    ("GStateMinimiser.ValidPair", Classified.toDatum Node.toDatum ⟨single, .whole 1⟩),
    ("EVMObject.EVMObj", noProgram), ("EVMObject.ValidEVMObj", noProgram),
    ("EVMObject.Path", Path.toDatum ⟨[], []⟩), ("EVMObject.ValidSeqValidLinSeg", .seq []),
    ("CFGObject.CFGObj",
      .node "CFGObject.CFGObj.CFGObj"
        [noProgram, .nat 0, graph "Automata" .empty, .bool false, Stats.start.toDatum]),
    ("ProofObject.ProofObj", Obligation.toDatum ⟨addition, 0, 0, .jump (.inl (.known 0))⟩),
    ("ProofObject.StackResolver", .dict []),
    ("ArgParser.CLIOption", Flag.toDatum ⟨"", 0, ""⟩),
    ("MiscTypes.Try", .attempt (.error "")), ("MiscTypes.Option", .option none),
    ("MiscTypes.WellDefined", .option none), ("MiscTypes.WellDefined2", .option none),
    ("MiscTypes.Foo", .nat 0), ("CFGraph.CFGNode", PathNode.toDatum ⟨[], none⟩),
    ("CFGraph.BoolEdge", PathEdge.toDatum ⟨⟨[], none⟩, false, ⟨[], none⟩⟩),
    ("CFGraph.BoolCFGraph", PathGraph.empty.toDatum),
    ("Statistics.Stats", Stats.start.toDatum),
    ("Statistics.DEFAULT_STATS", Stats.start.toDatum), ("System_.nat", .nat 0),
    ("BuildCFGraph.DEFAULT_HISTORY", History.start.toDatum "BuildCFGraph")] ++
    walks "BuildCFGraph" ++ walks "BuildCFGraphV2" ++
    Word.widths.map fun w => ("Int.u" ++ toString w, .nat 0)

/-- The value with a name: an entry, or a bound of words. -/
def find? (name : String) : Option Datum :=
  match entries.lookup name with
  | some d => some d
  | none =>
    if name.startsWith "Int." then (Word.bound? (name.drop 4).toString).map .nat else none

/-- A value inside the first or the second constructor of a type of containers. A failure has a
message of its own, with characters that must be escaped. -/
def wrap (type : String) (which : Nat) (v : Datum) : Datum :=
  match type, which with
  | "Option", 0 => .option none
  | "Option", _ => .option (some v)
  | "Either", 0 => .either (.inl v)
  | "Either", _ => .either (.inr v)
  | _, 0 => .attempt (.ok v)
  | _, _ => .attempt (.error "msg \"q\" \n")

/-- The values that stand for truth values, units, characters, integers, rational numbers,
references and tuples. -/
def basics : List Datum :=
  [.bool false, .bare "D", .char 'D', .int 0, .bare (Ratio.text 0), .null,
    .tuple [.int 0, .bool false, .tuple [.char 'D']]]

end EvmFlow.Catalogue
