import EvmFlow.Disassembly
import EvmFlow.Node
import EvmFlow.Segment.Basic

/-!
# Programs

A program is a list of segments; a segment is known by its number. Jump destinations and the
segment at an address are read off the list. A program runs in two ways: on nodes, where
`successors` gives one node per exit, and on frames, where `run` follows a list of exits.
-/

namespace EvmFlow

/-- A list of segments in the order of their addresses. -/
structure Program where
  segments : List Segment
  deriving DecidableEq, Repr, Inhabited

namespace Program

/-- The program that a hexadecimal text writes. -/
def ofCode (code : List Char) : Program := ⟨Segment.split (disassemble code 0)⟩

/-- The addresses that can be jumped to, in increasing order. -/
def dests (p : Program) : List Nat := p.segments.flatMap Segment.dests

/-- The number of the segment that starts at an address. -/
def segmentAt? (p : Program) (pc : Nat) : Option Nat :=
  p.segments.findIdx? fun s => s.start == pc

/-- Start addresses with segment numbers. -/
def starts (p : Program) : List (Nat × Nat) :=
  p.segments.zipIdx.map fun e => (e.1.start, e.2)

/-- The bytes that a program takes. -/
def size (p : Program) : Nat := p.segments.foldr (fun s n => s.size + n) 0

/-- All instructions of a program. -/
def instructions (p : Program) : List Instruction := p.segments.flatMap Segment.instructions

/-- The node that a state has reached. -/
def locate (p : Program) : State → Node
  | .running f =>
    match p.segmentAt? f.pc with
    | some i => .at i f.stack
    | none => .failed ("NextG:  " ++ Decimal.text f.pc ++ " not defined")
  | .failed m => .failed m

/-- The nodes that the exits of a node lead to. -/
def successors (p : Program) : Node → List Node
  | .failed _ => []
  | .at i stack =>
    match p.segments[i]? with
    | none => []
    | some s => (List.range s.exits).map fun e => p.locate (s.run p.dests e ⟨s.start, stack⟩)

/-- Follows a list of exits. -/
def run (p : Program) : List Nat → Frame → State
  | [], f => .running f
  | e :: rest, f =>
    match p.segments.find? fun s => s.start == f.pc with
    | none => .failed ("No segment found for state " ++ (State.running f).text)
    | some s =>
      if e < s.exits then
        match s.run p.dests e f with
        | .running g => p.run rest g
        | .failed _ => .failed ("Successor state of " ++ (State.running f).text ++
            " is not an EState")
      else .failed "Exit does not exist"

/-- Whether following the exits from `pc` keeps a condition, tried on the least stack that
satisfies it. -/
def preserves (p : Program) (c : Condition) (exits : List Nat) (pc : Nat) : Bool :=
  match p.run exits (c.frame pc) with
  | .running f => c.holds f.stack
  | .failed _ => false

/-- The number of the first node of a segment, before any failed node. -/
def findSegment (i : Nat) : List Node → Option Nat
  | [] => none
  | .failed _ :: _ => none
  | .at j _ :: rest => if j = i then some 0 else (findSegment i rest).map (· + 1)

/-- The segments of a list of nodes. -/
def segmentsOf (p : Program) (nodes : List Node) : List Segment :=
  nodes.filterMap fun g => g.segment?.bind (p.segments[·]?)

/-- The address at which a segment starts. -/
def startOf (p : Program) (i : Nat) : Nat := ((p.segments[i]?).map Segment.start).getD 0

/-- The condition on the first node of a path under which the path, left by the given exits, comes
back to the start of segment `i`. -/
def closing (p : Program) (i : Nat) (path : List Node) (exits : List Nat) : Condition :=
  let segments := p.segmentsOf path
  let address := p.startOf i
  let home := match segments.getLast?, exits.getLast? with
    | some s, some e => s.leadsTo address e
    | _, _ => .never
  Segment.wprePath home address (Segment.withExits segments exits)

/-- Looks on a path for a node of segment `i` from which the rest of the path, closed to a loop,
keeps its own condition. The answer counts the nodes passed since the last candidate that was
given up. -/
def loopFrom (p : Program) (i : Nat) : Nat → List Node → List Nat → Option Nat
  | _, [], _ => none
  | _, .failed _ :: _, _ => none
  | k, .at j stack :: rest, exits =>
    if j = i then
      match p.closing i (.at j stack :: rest) exits with
      | .always => some k
      | .never => none
      | c =>
        if p.preserves c exits (p.startOf i) then some k
        else p.loopFrom i 0 rest (exits.drop 1)
    else p.loopFrom i (k + 1) rest (exits.drop 1)

/-- The node of a path to which a step to segment `i` can be folded back. -/
def loopStart (p : Program) (i : Nat) (path : List Node) (exits : List Nat) : Option Nat :=
  p.loopFrom i 0 path exits

/-! ### Callers that have not checked -/

/-- The segment with a number. -/
def segment (p : Program) (i : Nat) : Except Fault Segment := elementAt p.segments i

/-- `successors` of a node whose segment has to be there. -/
def successors? (p : Program) (g : Node) : Except Fault (List Node) := do
  match g with
  | .failed _ => return []
  | .at i _ =>
    let _ ← p.segment i
    return p.successors g

/-- `run` on any state. -/
def run? (p : Program) (exits : List Nat) : State → Except Fault State
  | .running f => .ok (p.run exits f)
  | .failed m => if exits.isEmpty then .ok (.failed m) else .error .wrongCase

/-- `preserves` for any condition; what is left to check at the end has to track a position. -/
def preserves? (p : Program) (c : Condition) (exits : List Nat) (pc : Nat) :
    Except Fault Bool :=
  match p.run exits (c.frame pc) with
  | .running f => c.holdsOf? (.running f)
  | .failed _ => .ok false

/-- `findSegment` from a node on, which has to be on the path. -/
def findSegment? (i : Nat) (nodes : List Node) (start : Nat) : Except Fault (Option Nat) :=
  if nodes.length < start then .error .pastEnd
  else .ok ((findSegment i (nodes.drop start)).map (· + start))

/-- The condition of a path of segments, given by their numbers. -/
def wprePath? (p : Program) (path exits : List Nat) (c : Condition) (target : Nat) :
    Except Fault Condition := do
  let segments ← path.mapM p.segment
  if exits.length < path.length then throw .pastEnd
  return Segment.wprePath c target (Segment.withExits segments exits)

/-- `loopStart` on any path: from the first candidate on its nodes must have segments, and there
must be an exit for each. -/
def loopStart? (p : Program) (i : Nat) (path : List Node) (exits : List Nat) :
    Except Fault (Option Nat) := do
  match findSegment i path with
  | none => return none
  | some k =>
    let rest := path.drop k
    let numbers ← rest.mapM Node.segmentOf
    let _ ← numbers.mapM p.segment
    let _ ← p.segment i
    if (exits.drop k).length < rest.length then throw .pastEnd
    return p.loopStart i path exits

end Program

end EvmFlow
