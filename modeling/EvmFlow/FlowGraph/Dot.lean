import EvmFlow.FlowGraph.StackBound
import EvmFlow.Segment.Markup

/-!
# Control-flow graphs in the DOT language

The text opens with a comment on the exploration, then gives the graph with a title. A node is
labelled with its segment and, when no execution fails, with the stack size it needs.
-/

namespace EvmFlow

/-- A control-flow graph with what is known of how it was made. -/
structure FlowGraph where
  program : Program
  depth : Nat
  graph : Automaton Node
  minimised : Bool
  stats : Stats
  deriving Repr, Inhabited

namespace Program

/-- The label of a node. -/
def nodeLabel (p : Program) (asTable : Bool) (bound : Option Nat) : Node → String
  | .failed _ => "<ErrorEnd <BR ALIGN=\"CENTER\"/>>"
  | .at i _ =>
    let s := (p.segments[i]?).getD default
    "<" ++ (if asTable then s.tableLabel i bound else s.label i) ++ ">"

/-- The attributes of the edge for an exit of a node. -/
def edgeLabel (p : Program) (g : Node) (exit : Nat) : String :=
  let attributes :=
    match g with
    | .failed _ => "Error"
    | .at i _ =>
      let s := (p.segments[i]?).getD default
      if exit < s.exits then
        if s.isJump ∧ exit + 1 = s.exits then "tooltip=\"Jump\",style=dashed"
        else "tooltip=\"Next\""
      else "Error Number of exits"
  " [" ++ attributes ++ "]"

/-- `nodeLabel` of a node whose segment has to be there. -/
def nodeLabel? (p : Program) (asTable : Bool) (bound : Option Nat) (g : Node) :
    Except Fault String := do
  if let .at i _ := g then let _ ← p.segment i
  return p.nodeLabel asTable bound g

/-- `edgeLabel` of a node whose segment has to be there. -/
def edgeLabel? (p : Program) (g : Node) (exit : Nat) : Except Fault String := do
  if let .at i _ := g then let _ ← p.segment i
  return p.edgeLabel g exit

end Program

namespace FlowGraph

/-- The control-flow graph of a program, explored to a depth and minimised if asked. -/
def build (p : Program) (depth : Nat) (minimise : Bool) : FlowGraph :=
  let x := p.flowGraph depth minimise
  ⟨p, depth, x.graph, minimise, x.stats⟩

/-- The nodes whose segment ends with `INVALID`. -/
def invalidNodes (g : FlowGraph) : List Node :=
  g.graph.states.filter fun h =>
    match h.segment?.bind (g.program.segments[·]?) with
    | some s => s.kind == .invalid
    | none => false

/-- The title of a graph. -/
def title (g : FlowGraph) (name : String) : String :=
  "<B>Program Name: </B> " ++ name ++ "<BR ALIGN=\"left\"/>" ++
    "<B>Control Flow Graph Info: </B><BR ALIGN=\"left\"/>" ++ "Max depth: " ++
    Decimal.text g.depth ++ " [" ++
    (if g.stats.maxDepthReached then "Was reached" else "Was not reached") ++ "]" ++
    "<BR ALIGN=\"left\"/>" ++ Decimal.text g.graph.size ++ " nodes/" ++
    Decimal.text g.graph.edges ++ " edges<BR ALIGN=\"left\"/>"

/-- Nodes and edges in words. -/
def sizeText (nodes edges : Nat) : String :=
  Decimal.text nodes ++ " nodes, " ++ Decimal.text edges ++ " edges\n"

/-- The opening comment. -/
def preamble (g : FlowGraph) : String :=
  "/*\n" ++ "maxDepth is:" ++ Decimal.text g.depth ++ "\n" ++ g.stats.text ++
    "# of reachable invalid segments is: " ++ Decimal.text g.invalidNodes.length ++ "\n" ++
    (if g.minimised then
      "Size of non minimised CFG: " ++ sizeText g.stats.unminimised.1 g.stats.unminimised.2 ++
        "Size of minimised CFG: " ++ sizeText g.graph.size g.graph.edges ++ "Minimised CFG\n"
    else "Size of CFG: " ++ sizeText g.graph.size g.graph.edges ++ "Raw CFG\n") ++ "*/\n"

/-- The stack sizes that the nodes need, when no execution fails. -/
def bounds? (g : FlowGraph) : Option (List Nat ⊕ List Nat) :=
  if Program.hasNoFailure g.graph then some (g.program.stackBounds g.graph) else none

/-- The values of bounds, whether they are a fixpoint or not. -/
def boundValues : List Nat ⊕ List Nat → List Nat
  | .inl vs => vs
  | .inr vs => vs

/-- The graph in the DOT language. -/
def dot (g : FlowGraph) (noTable : Bool) (name : String) : String :=
  let bounds := g.bounds?
  let status := match bounds with
    | some (.inl _) => "// Wpre fixpoint status: Reached\n"
    | some (.inr _) => "// Wpre fixpoint status: Not reached\n"
    | none => ""
  let boundOf (h : Node) : Option Nat := do
    let vs ← bounds
    let i ← g.graph.index? h
    (boundValues vs)[i]?
  let header :=
    "graph[labelloc=\"t\", labeljust=\"l\", label=<" ++ g.title name ++ ">]\n" ++
      "node [shape=none, fontname=arial, style=\"rounded, filled\", fillcolor= \"whitesmoke\"]\n" ++
      "edge [fontname=arial]\nranking=TB"
  g.preamble ++ status ++
    g.graph.dot (fun h => g.program.nodeLabel (!noTable) (boundOf h) h) g.program.edgeLabel
      header ++
    (if g.minimised then "//----------------- Minimised CFG -------------------\n"
    else "//----------------- Raw CFG -------------------\n")

end FlowGraph

end EvmFlow
