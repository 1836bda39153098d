import EvmFlow.Condition
import EvmFlow.Instruction.Basic

/-!
# Looking backwards through an instruction

`Instruction.origin` says where a stack element was before an instruction, or what the instruction
put there. `Instruction.wpre` carries a condition on the stack after an instruction to the stack
before it. Each has its own rule for every family of opcodes. Both go backwards through a list with
`originAll` and `wpreAll`, and `operandsNeeded` and `capacityNeeded` do the same for stack sizes.
-/

namespace EvmFlow.Instruction

/-- What is said of an element that an instruction computed. -/
def computed : Kind → String
  | .arithmetic => "More than one predecessor. Arithmetic operator with target 0"
  | .comparison => "More than one predecessor. Comparison operator with target 0"
  | .bitwise => "More than one predecessor. Bitwise operator with target 0"
  | .keccak => "More than one predecessor. Keccak operator with target 0"
  | .environment => "More than one predecessor. Env operator with target 0"
  | .memory => "More than one predecessor. Mem operator with target 0"
  | .storage => "More than one predecessor. Storage operator with target 0"
  | .run => "More than one predecessor. Run operator with target 0"
  | .system => "More than one predecessor. Sys operator with target 0"
  | .jump | .stack | .log => "Not implemented"

/-- The origin of a position after an instruction that computes the top. -/
def underResult (i : Instruction) (pos before : Nat) : Cell ⊕ Nat :=
  if pos = 0 then .inl (.unknown (computed i.op.kind)) else .inr before

/-- Where the element at a position was before the instruction, or the cell that the instruction
put there. -/
def origin (i : Instruction) (pos : Nat) : Cell ⊕ Nat :=
  let code := i.op.code
  match i.op.kind with
  | .arithmetic | .keccak => i.underResult pos (pos + 1)
  | .comparison | .bitwise => i.underResult pos (pos + i.op.pops - i.op.pushes)
  | .environment =>
    if i.op.pushes = 1 ∧ i.op.pops = 0 then i.underResult pos (pos - 1)
    else if i.op.pushes = 1 ∧ i.op.pops = 1 then i.underResult pos pos
    else .inr (pos + i.op.pops - i.op.pushes)
  | .memory | .storage => if i.op.pushes = 0 then .inr (pos + 2) else i.underResult pos pos
  | .run => i.underResult pos (pos - 1)
  | .log => .inr (pos + i.op.pops)
  | .system =>
    if i.op.pushes = 0 then .inr (pos + i.op.pops) else i.underResult pos (pos + i.op.pops)
  | .jump =>
    if code = 0x5b then .inr pos
    else if code = 0x56 ∨ code = 0x57 then .inr (pos + (code - 0x55))
    else .inl (.unknown (computed .jump))
  | .stack =>
    if 0x5f ≤ code ∧ code ≤ 0x7f then
      if pos = 0 then .inl (.known i.argValue) else .inr (pos - 1)
    else if 0x80 ≤ code ∧ code ≤ 0x8f then
      .inr (if pos = 0 then code - 0x80 else pos - 1)
    else if 0x90 ≤ code ∧ code ≤ 0x9f then
      .inr (if pos = 0 then code - 0x8f else if pos = code - 0x8f then 0 else pos)
    else .inr (pos + 1)

/-- Where the element at a position was before a list of instructions. -/
def originAll (pos : Nat) : List Instruction → Cell ⊕ Nat
  | [] => .inr pos
  | i :: rest =>
    match originAll pos rest with
    | .inl c => .inl c
    | .inr p => i.origin p

/-- The word that is pushed, which is read off the digits of the argument behind zeros. -/
def pushedWord (i : Instruction) : Nat :=
  (Word.u256.read? (List.replicate (64 - i.arg.length) '0' ++ i.arg)).toOption.join.getD 0

/-- The condition on the stack before a constant `v` is pushed. -/
def wprePush (v : Nat) (entries : List (Nat × Nat)) : Condition :=
  match Condition.valueAt? entries 0 with
  | none => .tracked (Condition.relocate (· - 1) entries)
  | some u =>
    if u = v then
      match Condition.untrack 0 entries with
      | [] => .always
      | rest => .tracked (Condition.relocate (· - 1) rest)
    else .never

/-- The condition on the stack before the `k`-th element is copied to the top. -/
def wpreDup (k : Nat) (entries : List (Nat × Nat)) : Condition :=
  match Condition.valueAt? entries 0, Condition.valueAt? entries k with
  | none, _ => .tracked (Condition.relocate (· - 1) entries)
  | some u, some v =>
    if u = v then .tracked (Condition.relocate (· - 1) (Condition.untrack 0 entries)) else .never
  | some _, none => .tracked (Condition.relocate (fun p => if p = 0 then k - 1 else p - 1) entries)

/-- The condition before an instruction that computes the top, of which nothing can be asked. -/
def unlessTop (entries : List (Nat × Nat)) (c : Condition) : Condition :=
  if Condition.tracks entries 0 then .never else c

/-- The condition on tracked positions before the instruction. -/
def wpreEntries (i : Instruction) (entries : List (Nat × Nat)) : Condition :=
  let code := i.op.code
  let moved (move : Nat → Nat) : Condition := .tracked (Condition.relocate move entries)
  match i.op.kind with
  | .arithmetic | .keccak => unlessTop entries (moved (· + 1))
  | .comparison | .bitwise => unlessTop entries (moved (· + i.op.pops - i.op.pushes))
  | .environment =>
    if i.op.pushes = 1 ∧ i.op.pops = 0 then unlessTop entries (moved (· - 1))
    else if i.op.pushes = 1 ∧ i.op.pops = 1 then unlessTop entries (.tracked entries)
    else moved (· + i.op.pops - i.op.pushes)
  | .memory | .storage =>
    if i.op.pushes = 0 then moved (· + 2) else unlessTop entries (.tracked entries)
  | .run => unlessTop entries (moved (· - 1))
  | .log => moved (· + i.op.pops)
  | .system =>
    if i.op.pushes = 0 then moved (· + i.op.pops) else unlessTop entries (moved (· + i.op.pops))
  | .jump =>
    if code = 0x5b then .tracked entries
    else if code = 0x56 ∨ code = 0x57 then moved (· + (code - 0x55))
    else .never
  | .stack =>
    if 0x5f ≤ code ∧ code ≤ 0x7f then wprePush i.pushedWord entries
    else if 0x80 ≤ code ∧ code ≤ 0x8f then wpreDup (code - 0x7f) entries
    else if 0x90 ≤ code ∧ code ≤ 0x9f then
      moved fun pos => if pos = 0 then code - 0x8f else if pos = code - 0x8f then 0 else pos
    else moved (· + 1)

/-- The condition on the stack before the instruction, for any condition after it. -/
def wpre (i : Instruction) : Condition → Condition
  | .tracked es => i.wpreEntries es
  | c => c

/-- The condition on the stack before a list of instructions. -/
def wpreAll (c : Condition) : List Instruction → Condition
  | [] => c
  | i :: rest => i.wpre (wpreAll c rest)

/-- Operands that must be there before a list of instructions so that `post` are left. -/
def operandsNeeded (post : Nat) : List Instruction → Nat
  | [] => post
  | i :: rest => i.op.operandsNeeded (operandsNeeded post rest)

/-- Free slots that must be there before a list of instructions so that `post` are left. -/
def capacityNeeded (post : Nat) : List Instruction → Nat
  | [] => post
  | i :: rest => i.op.capacityNeeded (capacityNeeded post rest)

/-- The change of the stack size over a list of instructions. -/
def effectAll : List Instruction → Int
  | [] => 0
  | i :: rest => i.effect + effectAll rest

/-- Whether an instruction answers any condition without looking at it. -/
def ignoresCondition (i : Instruction) : Bool := i.op.kind == .jump && !i.op.isJump

/-- `wpre` on any condition. A condition that tracks nothing has no positions to look at, and a
pushed constant that is looked at has to be a number. -/
def wpre? (i : Instruction) (c : Condition) : Except Fault Condition := do
  match c with
  | .tracked es =>
    if i.op.kind = .stack ∧ 0x5f ≤ i.op.code ∧ i.op.code ≤ 0x7f ∧ Condition.tracks es 0 then
      let _ ← i.argValue?
    return i.wpreEntries es
  | c =>
    if i.ignoresCondition then return (if i.isJumpDest then c else .never)
    else throw .wrongCase

/-- `origin` of a position, where a pushed constant that is looked at has to be a number. -/
def origin? (i : Instruction) (pos : Nat) : Except Fault (Cell ⊕ Nat) := do
  if i.op.kind = .stack ∧ 0x5f ≤ i.op.code ∧ i.op.code ≤ 0x7f ∧ pos = 0 then
    let _ ← i.argValue?
  return i.origin pos

/-- The conditions before each instruction of a list, from the last on, as long as positions are
tracked. -/
def wpreTrace? (c : Condition) : List Instruction → Except Fault (List Condition × Condition)
  | [] => .ok ([], c)
  | i :: rest => do
    let (trace, d) ← wpreTrace? c rest
    match d with
    | .tracked _ =>
      let e ← i.wpre? d
      return (trace ++ [e], e)
    | _ => return (trace, d)

end EvmFlow.Instruction
