import EvmFlow.Instruction.Precondition
import EvmFlow.Instruction.Step
import EvmFlow.Word

/-!
# Segments

A segment is a stretch of instructions that is entered at the top and left at the bottom. Its kind
is given by its last instruction. `Segment.split` cuts a list of instructions into segments:
a jump destination starts one and a terminal instruction ends one.
-/

namespace EvmFlow

/-- How a segment is left. -/
inductive SegmentKind where
  | jump
  | jumpi
  | ret
  | stop
  | cont
  | invalid
  deriving DecidableEq, Repr, Inhabited

/-- The name of a kind of segment. -/
def SegmentKind.name : SegmentKind → String
  | .jump => "JUMPSeg"
  | .jumpi => "JUMPISeg"
  | .ret => "RETURNSeg"
  | .stop => "STOPSeg"
  | .cont => "CONTSeg"
  | .invalid => "INVALIDSeg"

/-- The kind of a segment that ends with an opcode. -/
def SegmentKind.ofLast (o : Opcode) : SegmentKind :=
  if o.code = 0x56 then .jump
  else if o.code = 0x57 then .jumpi
  else if o.isReturn then .ret
  else if o.isRevertStop then .stop
  else if o.isInvalid then .invalid
  else .cont

/-- A stretch of instructions, the last one set apart, with the change of the stack size. -/
structure Segment where
  kind : SegmentKind
  body : List Instruction
  last : Instruction
  effect : Int
  deriving DecidableEq, Repr, Inhabited

namespace Segment

/-- The segment with the given instructions. -/
def build (body : List Instruction) (last : Instruction) : Segment :=
  ⟨.ofLast last.op, body, last, Instruction.effectAll (body ++ [last])⟩

/-- All instructions of a segment. -/
def instructions (s : Segment) : List Instruction := s.body ++ [s.last]

/-- The first instruction of a segment. -/
def first (s : Segment) : Instruction := s.body.headD s.last

/-- Cuts a list of instructions that follows the unfinished segment `current`, and puts the segments
behind those that are `collected`. -/
def splitOnto (collected : List Segment) (current : List Instruction) :
    List Instruction → List Segment
  | [] =>
    match current.getLast? with
    | none => collected
    | some last => collected ++ [build current.dropLast last]
  | i :: rest =>
    if i.isJumpDest then
      match current.getLast? with
      | none => splitOnto collected [i] rest
      | some last => splitOnto (collected ++ [build current.dropLast last]) [i] rest
    else if i.isTerminal then splitOnto (collected ++ [build current i]) [] rest
    else splitOnto collected (current ++ [i]) rest

/-- Cuts a list of instructions into segments. -/
def split (is : List Instruction) : List Segment := splitOnto [] [] is

/-- The address of the first instruction. -/
def start (s : Segment) : Nat := s.first.address

/-- The address of the byte behind the segment. -/
def next (s : Segment) : Nat := s.last.nextAddress

/-- Bytes that a list of instructions takes. -/
def bytes : List Instruction → Nat
  | [] => 0
  | i :: rest => i.size + bytes rest

/-- Bytes that a segment takes. -/
def size (s : Segment) : Nat := bytes s.instructions

/-- The address of the segment if it can be jumped to. -/
def dests (s : Segment) : List Nat := if s.first.isJumpDest then [s.start] else []

/-- The number of ways out of a segment. -/
def exits (s : Segment) : Nat :=
  match s.kind with
  | .jump | .cont => 1
  | .jumpi => 2
  | .ret | .stop | .invalid => 0

/-- Whether a segment ends with a jump. -/
def isJump (s : Segment) : Bool :=
  match s.kind with
  | .jump | .jumpi => true
  | _ => false

/-- Operands that must be there so that the segment can run and leaves `post` of them. -/
def operandsNeeded (s : Segment) (post : Nat) : Nat :=
  Instruction.operandsNeeded post s.instructions

/-- `operandsNeeded post`, from the bound `needed` for no operands left and the effect alone. -/
def operandsFrom (s : Segment) (post needed : Nat) : Nat :=
  if (post : Int) ≤ s.effect then needed else max needed (post - s.effect).toNat

/-- Free slots that must be there so that the segment can run and leaves `post` of them. -/
def capacityNeeded (s : Segment) (post : Nat) : Nat :=
  Instruction.capacityNeeded post s.instructions

/-- Where the target of the final jump comes from: a cell that the segment puts on the stack, or a
position of the stack on entry. -/
def target (s : Segment) : Cell ⊕ Nat := Instruction.originAll 0 s.body

/-- Runs a segment and leaves it by the given exit. -/
def run (s : Segment) (dests : List Nat) (exit : Nat) (f : Frame) : State :=
  match Instruction.runAll dests s.body f with
  | .running g => s.last.step dests exit g
  | .failed m => .failed m

/-- `run` on any state. -/
def run? (s : Segment) (dests : List Nat) (exit : Nat) (t : State) : Except Fault State := do
  match ← Instruction.runAll? dests s.body t with
  | .running g => s.last.step? dests exit (.running g)
  | .failed m => return .failed m

/-- The condition on the stack on entry under which `c` holds on leaving. -/
def wpre (s : Segment) (c : Condition) : Condition := Instruction.wpreAll c s.instructions

/-- The condition on the stack on entry under which the given exit leads to an address. -/
def leadsTo (s : Segment) (address exit : Nat) : Condition :=
  if Word.count 256 ≤ address then .never
  else match s.kind with
    | .jump =>
      if exit = 0 then Instruction.wpreAll (.tracked [(0, address)]) s.body else .never
    | .jumpi =>
      if exit = 1 then Instruction.wpreAll (.tracked [(0, address)]) s.body
      else if address = s.next then .always
      else .never
    | .ret | .stop => .always
    | .cont => if exit = 0 ∧ address = s.next then .always else .never
    | .invalid => .never

/-- The address that a path must reach: that of its first segment, or `target` when it is empty. -/
def entry (target : Nat) : List (Segment × Nat) → Nat
  | [] => target
  | (s, _) :: _ => s.start

/-- The condition on entry to a path of segments with their exits under which the path is followed,
ends at `target`, and `c` holds there. -/
def wprePath (c : Condition) (target : Nat) : List (Segment × Nat) → Condition
  | [] => c
  | (s, e) :: rest => (s.wpre (wprePath c target rest)).meet (s.leadsTo (entry target rest) e)

/-- Segments with their exits, of which the last ones count. -/
def withExits (segments : List Segment) (exits : List Nat) : List (Segment × Nat) :=
  segments.zip (exits.drop (exits.length - segments.length))

/-- Whether the last instruction of a body pushes a constant of at least one byte. -/
def endsInPush (s : Segment) : Bool :=
  match s.body.getLast? with
  | none => false
  | some i => decide (0x60 ≤ i.op.code ∧ i.op.code ≤ 0x7f)

/-- Pairwise equivalence of instructions. -/
def sameInstructions : List Instruction → List Instruction → Bool
  | [], [] => true
  | i :: is, j :: js => i.equivalent j && sameInstructions is js
  | _, _ => false

/-- Whether two segments do the same wherever they stand. Segments that end with a jump to a pushed
constant may push different constants. -/
def equivalent (s t : Segment) : Bool :=
  s.kind == t.kind && s.body.length == t.body.length &&
    (if s.isJump then
      s.endsInPush && (s.body.getLast?.map (·.op.code) == t.body.getLast?.map (·.op.code)) &&
        sameInstructions s.body.dropLast t.body.dropLast
    else sameInstructions s.instructions t.instructions)

/-- The segment taken apart. -/
def toDatum (s : Segment) : Datum :=
  .node ("LinSegments.LinSeg." ++ s.kind.name)
    [.seq (s.body.map Instruction.toDatum), s.last.toDatum, .int s.effect]

end Segment

end EvmFlow
