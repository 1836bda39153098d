import EvmFlow.Collection.Dictionary
import EvmFlow.Datum
import EvmFlow.Decimal
import EvmFlow.Fault

/-!
# Automata

An automaton lists its states in the order in which they were first mentioned and knows them by
their position, which it writes into a dictionary when a state is added and reads from there. Its
edges are ordered too: the successors of a state are listed in the order in which they were added,
and so are the predecessors. Adding a state or an edge a second time changes nothing.
-/

namespace EvmFlow

/-- States with ordered edges in both directions, and the positions that states were given. -/
structure Automaton (α : Type) where
  states : List α
  index : List (α × Nat)
  succ : List (List Nat)
  pred : List (List Nat)
  deriving DecidableEq, Repr

namespace Automaton

variable {α : Type} [DecidableEq α]

/-- The automaton without states. -/
def empty : Automaton α := ⟨[], [], [], []⟩

instance : Inhabited (Automaton α) := ⟨empty⟩

/-- The position that a state was given. -/
def index? (a : Automaton α) (s : α) : Option Nat := a.index.lookup s

/-- Adds a state at the end unless it is there. -/
def addState (a : Automaton α) (s : α) : Automaton α :=
  if s ∈ a.states then a
  else
    { states := a.states ++ [s]
      index := Dictionary.set s a.states.length a.index
      succ := a.succ ++ [[]]
      pred := a.pred ++ [[]] }

/-- Adds states one after the other. -/
def addStates (a : Automaton α) (ss : List α) : Automaton α := ss.foldl addState a

/-- The successors of the state at a position; none past the end. -/
def succOf (a : Automaton α) (i : Nat) : List Nat := (a.succ[i]?).getD []

/-- The predecessors of the state at a position; none past the end. -/
def predOf (a : Automaton α) (i : Nat) : List Nat := (a.pred[i]?).getD []

/-- Adds an edge between positions unless it is there. -/
def link (a : Automaton α) (i j : Nat) : Automaton α :=
  if j ∈ a.succOf i then a
  else { a with succ := a.succ.modify i (· ++ [j]), pred := a.pred.modify j (· ++ [i]) }

/-- Adds an edge, and its ends where they are missing. -/
def addEdge (a : Automaton α) (s t : α) : Automaton α :=
  let b := (a.addState s).addState t
  match b.index? s, b.index? t with
  | some i, some j => b.link i j
  | _, _ => b

/-- Adds edges from one state to several; the state is there also if they are none. -/
def addEdges (a : Automaton α) (s : α) (ts : List α) : Automaton α :=
  (ts.foldl (fun b t => b.addEdge s t) a).addState s

/-- The number of states. -/
def size (a : Automaton α) : Nat := a.states.length

/-- The number of edges out of states from a position on. -/
def edgesFrom (a : Automaton α) (i : Nat) : Nat := (a.succ.drop i).flatten.length

/-- The number of edges. -/
def edges (a : Automaton α) : Nat := a.edgesFrom 0

/-- The same states with the same successors. -/
def sameGraph (a b : Automaton α) : Bool := a.succ == b.succ && decide (a.states = b.states)

/-- The successors of a state that is there. -/
def successors? (a : Automaton α) (s : α) : Except Fault (List α) :=
  match a.index? s with
  | some i => .ok ((a.succOf i).filterMap (a.states[·]?))
  | none => .error .missingKey

/-- The successors of a position that is there. -/
def succ? (a : Automaton α) (i : Nat) : Except Fault (List Nat) :=
  match a.succ[i]? with
  | some js => .ok js
  | none => .error .missingKey

/-- The predecessors of a position that is there. -/
def pred? (a : Automaton α) (i : Nat) : Except Fault (List Nat) :=
  match a.pred[i]? with
  | some js => .ok js
  | none => .error .missingKey

/-- `edgesFrom` a position that is there, or is just past the end. -/
def edgesFrom? (a : Automaton α) (i : Nat) : Except Fault Nat :=
  if i ≤ a.size then .ok (a.edgesFrom i) else .error .missingKey

/-- Recomputes the values at the scheduled positions from the values of the last round until
nothing is scheduled; what has changed is scheduled next. On the left the values when nothing is
scheduled, on the right the values when the rounds are used up. -/
def iterate (f : Nat → List α → α) : Nat → List Nat → List α → List α ⊕ List α
  | 0, scheduled, xs => if scheduled.isEmpty then .inl xs else .inr xs
  | rounds + 1, scheduled, xs =>
    if scheduled.isEmpty then .inl xs
    else
      let ys := xs.mapIdx fun i x => if i ∈ scheduled then f i xs else x
      let changed := (List.range xs.length).filter fun i => ys[i]? != xs[i]?
      iterate f rounds changed ys

/-- The graph in the DOT language, with `nodeText` for the label of a node and `edgeText` for the
attributes of the edge with a number out of a node. -/
def dot (a : Automaton α) (nodeText : α → String) (edgeText : α → Nat → String)
    (header : String) : String :=
  let nodes := a.states.zipIdx.map fun (s, i) =>
    "s_" ++ Decimal.text i ++ " [label=" ++ nodeText s ++ "]\n"
  let edges := (a.states.zip a.succ).zipIdx.map fun ((s, js), i) =>
    String.join (js.zipIdx.map fun (j, e) =>
      "s_" ++ Decimal.text i ++ " -> " ++ "s_" ++ Decimal.text j ++ edgeText s e ++ ";\n")
  "// Number of states: " ++ Decimal.text a.size ++ "\n" ++
    "// Number of transitions : " ++ Decimal.text a.edges ++ "\n" ++
    "digraph G \x7b\n" ++ header ++ "\n" ++ String.join nodes ++ String.join edges ++ "\x7d\n"

/-- The automaton taken apart, under the name of a family of automata. -/
def toDatum (family : String) (state : α → Datum) (a : Automaton α) : Datum :=
  let table (rows : List (List Nat)) : Datum :=
    .dict (rows.zipIdx.map fun (js, i) => (.nat i, .nats js))
  .node (family ++ ".Auto.Auto")
    [table a.succ, table a.pred, .seq (a.states.map state),
      .dict (a.index.map fun (s, i) => (state s, .nat i))]

end Automaton

end EvmFlow
