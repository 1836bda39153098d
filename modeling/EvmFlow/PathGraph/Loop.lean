import EvmFlow.PathGraph.Basic
import EvmFlow.Program.Basic

/-!
# Loops on a path

A jump back to an address may be folded to the first node of the path whose segment starts there,
if the path from that node on, closed to a loop, keeps its own condition.
-/

namespace EvmFlow

/-- The number of an exit that falls through or jumps. -/
def exitOf (jump : Bool) : Nat := if jump then 1 else 0

/-- The segment of a node that has one. -/
def PathNode.segmentOf (n : PathNode) : Except Fault Nat :=
  match n.segment with
  | some i => .ok i
  | none => .error .wrongCase

namespace Program

/-- The first node whose segment starts at an address, with its position. `k` is the position of
the first node given. -/
def findStart (p : Program) (pc : Nat) :
    Nat → List PathNode → Except Fault (Option (PathNode × Nat))
  | _, [] => .ok none
  | k, n :: rest =>
    match n.segment with
    | none => p.findStart pc (k + 1) rest
    | some i => do
      if (← p.segment i).start = pc then return some (n, k)
      p.findStart pc (k + 1) rest

/-- `findStart` from a position on, which has to be on the path or just behind it. -/
def findStartFrom (p : Program) (pc k : Nat) (nodes : List PathNode) :
    Except Fault (Option (PathNode × Nat)) :=
  if nodes.length < k then .error .pastEnd else p.findStart pc k (nodes.drop k)

/-- Runs segments one after the other, wherever the state is. -/
def runSegments (p : Program) : List Nat → List Nat → State → Except Fault State
  | [], _, s => .ok s
  | _ :: _, [], _ => .error .pastEnd
  | i :: rest, e :: exits, s => do
    match ← (← p.segment i).run? p.dests e s with
    | .running f => p.runSegments rest exits (.running f)
    | .failed m => return .failed m

/-- Whether running segments keeps a condition, tried on the least stack that satisfies it. -/
def segmentsPreserve (p : Program) (c : Condition) (segments exits : List Nat) :
    Except Fault Bool := do
  match ← p.runSegments segments exits (.running (c.frame 0)) with
  | .running f => c.holdsOf? (.running f)
  | .failed _ => return false

/-- The node to which a step to an address can be folded back. -/
def foldTarget (p : Program) (pc : Nat) (nodes : List PathNode) (exits : List Nat) :
    Except Fault (Option PathNode) := do
  match ← p.findStart pc 0 nodes with
  | none => return none
  | some (n, k) =>
    let numbers ← (nodes.drop k).mapM PathNode.segmentOf
    let segments ← numbers.mapM p.segment
    let exits := exits.drop k
    if exits.length < segments.length then throw .pastEnd
    let home := match segments.getLast?, exits.getLast? with
      | some s, some e => s.leadsTo pc e
      | _, _ => .never
    match Segment.wprePath home pc (Segment.withExits segments exits) with
    | .always => return some n
    | .never => return none
    | c => return if ← p.segmentsPreserve c numbers exits then some n else none

end Program

end EvmFlow
