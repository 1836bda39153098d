import EvmFlow.Proofs.Assembly
import EvmFlow.Proofs.OperandCount

/-!
# Equivalent segments

Two instructions are equivalent if they are the same once their addresses are taken away, and so
are lists of them: nothing that an instruction does or asks for depends on its address. What it does
to a stack does not depend on the address of the frame either (`SameStack`).

Segments that end with a jump are compared less strictly. The constant that is pushed just before
the jump may differ. The jump takes it off the stack again, so it is on no stack behind the segment.
A condition behind the segment says nothing about it, since a jump carries every position past it
(`wpre_push_wpre_jump`). It decides only where the jump leads, and whether it succeeds.
-/

namespace EvmFlow

/-- States that differ in their addresses at most. -/
inductive State.SameStack : State → State → Prop where
  | running {f g : Frame} (same : f.stack = g.stack) : SameStack (.running f) (.running g)
  | failed (message : String) : SameStack (.failed message) (.failed message)

namespace State.SameStack

variable {s t : State}

theorem stack_eq (same : s.SameStack t) {f g : Frame} (hs : s = .running f) (ht : t = .running g) :
    f.stack = g.stack := by
  subst hs ht
  cases same
  assumption

theorem isFailed_eq (same : s.SameStack t) : s.isFailed = t.isFailed := by
  cases same <;> rfl

end State.SameStack

/-! ### Frames -/

namespace Frame

variable {f g : Frame}

theorem stack_dup_eq (same : f.stack = g.stack) (n : Nat) : (f.dup n).stack = (g.dup n).stack := by
  rw [dup, dup, same]
  split
  · exact congrArg (_ :: ·) same
  · exact same

theorem stack_swap_eq (same : f.stack = g.stack) (n : Nat) :
    (f.swap n).stack = (g.swap n).stack := by
  rw [swap, swap, same]
  split
  · rfl
  · exact same

theorem sameStack_exchange (same : f.stack = g.stack) (pops pushes : Nat) (message : String) :
    (f.exchange pops pushes message).SameStack (g.exchange pops pushes message) := by
  rw [exchange, exchange, size, size, same]
  split
  · exact .running (congrArg (List.replicate pushes Cell.blank ++ List.drop pops ·) same)
  · exact .failed message

end Frame

namespace Instruction

variable {i j : Instruction} {is js : List Instruction} {dests : List Nat} {exit : Nat}
variable {f g : Frame} {c : Condition}

/-! ### Addresses do not matter -/

/-- The instruction without its address. -/
def unplaced (i : Instruction) : Instruction := { i with address := 0 }

theorem equivalent_iff : i.equivalent j = true ↔ i.unplaced = j.unplaced := by
  simp [equivalent, unplaced]

theorem sameInstructions_iff :
    Segment.sameInstructions is js = true ↔ is.map unplaced = js.map unplaced := by
  induction is generalizing js with
  | nil => cases js <;> simp [Segment.sameInstructions]
  | cons i rest ih => cases js <;> simp [Segment.sameInstructions, equivalent_iff, ih]

theorem wordDigits_unplaced (i : Instruction) : i.unplaced.wordDigits = i.wordDigits := rfl

theorem argValue_unplaced (i : Instruction) : i.unplaced.argValue = i.argValue := by
  rw [argValue, argValue?, wordDigits_unplaced, argValue, argValue?]

-- Both go to the value of the argument first, so that reading a word is not unfolded.
@[simp] theorem step_unplaced (i : Instruction) :
    i.unplaced.step dests exit f = i.step dests exit f := by
  simp only [step, stepStack, argValue_unplaced]
  rfl

@[simp] theorem wpre_unplaced (i : Instruction) : i.unplaced.wpre c = i.wpre c := by
  cases c with
  | tracked es =>
      simp only [wpre, wpreEntries, pushedWord_eq, argValue_unplaced]
      rfl
  | always => rfl
  | never => rfl

theorem map_op_eq_of_unplaced (alike : is.map unplaced = js.map unplaced) :
    is.map Instruction.op = js.map Instruction.op := by
  have ops := congrArg (List.map Instruction.op) alike
  rwa [List.map_map, List.map_map] at ops

theorem runAll_unplaced (is : List Instruction) (f : Frame) :
    runAll dests (is.map unplaced) f = runAll dests is f := by
  induction is generalizing f with
  | nil => rfl
  | cons i rest ih =>
      rw [List.map_cons, runAll, runAll, step_unplaced]
      cases i.step dests 0 f with
      | running g => exact ih g
      | failed m => rfl

theorem wpreAll_unplaced (c : Condition) (is : List Instruction) :
    wpreAll c (is.map unplaced) = wpreAll c is := by
  induction is with
  | nil => rfl
  | cons i rest ih => rw [List.map_cons, wpreAll, wpreAll, wpre_unplaced, ih]

theorem wpreAll_eq_of_unplaced (alike : is.map unplaced = js.map unplaced) (c : Condition) :
    wpreAll c is = wpreAll c js := by
  rw [← wpreAll_unplaced c is, alike, wpreAll_unplaced]

/-! ### What a step does to the stack -/

theorem sameStack_stepJump (i : Instruction) (exit : Nat) (same : f.stack = g.stack) :
    (i.stepJump exit f).SameStack (i.stepJump exit g) := by
  unfold stepJump
  rw [same]
  split
  · exact .running same
  split
  · split
    · exact .failed _
    · exact .failed _
    · exact .running (congrArg (List.drop 1) same)
  split
  · split
    · exact .failed _
    · refine .running ?_
      split <;> exact congrArg (List.drop 2) same
    · exact .failed _
  · exact .failed _

theorem sameStack_stepStack (i : Instruction) (dests : List Nat) (same : f.stack = g.stack) :
    (i.stepStack dests f).SameStack (i.stepStack dests g) := by
  have size : f.size = g.size := congrArg List.length same
  simp only [stepStack]
  rw [size]
  split
  · exact .running (congrArg (List.drop 1) same)
  split
  · exact .running (congrArg (constant dests i.argValue :: ·) same)
  split
  · exact .running (Frame.stack_dup_eq same _)
  split
  · exact .running (Frame.stack_swap_eq same _)
  · exact .failed _

/-- What a step leaves on the stack depends on the stack alone. -/
theorem sameStack_step (i : Instruction) (dests : List Nat) (exit : Nat)
    (same : f.stack = g.stack) : (i.step dests exit f).SameStack (i.step dests exit g) := by
  unfold step
  cases i.op.kind with
  | jump => exact i.sameStack_stepJump exit same
  | stack => exact i.sameStack_stepStack dests same
  | system =>
      simp only
      split
      · exact .failed _
      · exact Frame.sameStack_exchange same _ _ _
  | _ => exact Frame.sameStack_exchange same _ _ _

theorem sameStack_runAll (is : List Instruction) (dests : List Nat) (same : f.stack = g.stack) :
    (runAll dests is f).SameStack (runAll dests is g) := by
  induction is generalizing f g with
  | nil => exact .running same
  | cons i rest ih =>
      rw [runAll, runAll]
      have first := i.sameStack_step dests 0 same
      generalize i.step dests 0 f = s at first ⊢
      generalize i.step dests 0 g = t at first ⊢
      cases first with
      | running same => exact ih same
      | failed m => exact .failed m

theorem sameStack_runAll_of_unplaced (alike : is.map unplaced = js.map unplaced)
    (dests : List Nat) (same : f.stack = g.stack) :
    (runAll dests is f).SameStack (runAll dests js g) := by
  rw [← runAll_unplaced is, alike, runAll_unplaced]
  exact sameStack_runAll js dests same

theorem runAll_concat (run : runAll dests (is ++ [i]) f = .running g) :
    ∃ h, runAll dests is f = .running h ∧ i.step dests 0 h = .running g := by
  induction is generalizing f with
  | nil =>
      obtain ⟨h, step, done⟩ := runAll_cons run
      cases done
      exact ⟨f, rfl, step⟩
  | cons j rest ih =>
      obtain ⟨k, first, run⟩ := runAll_cons run
      obtain ⟨h, others, last⟩ := ih run
      refine ⟨h, ?_, last⟩
      rw [runAll, first]
      exact others

/-! ### Pushing a constant and jumping to it -/

/-- The instruction pushes a constant of at least one byte. -/
structure Pushes (i : Instruction) : Prop where
  kind : i.op.kind = .stack
  low : 0x60 ≤ i.op.code
  high : i.op.code ≤ 0x7f

/-- The instruction is `JUMP` or `JUMPI`. -/
structure Jumps (i : Instruction) : Prop where
  kind : i.op.kind = .jump
  code : i.op.code = 0x56 ∨ i.op.code = 0x57

theorem Pushes.stack_eq (push : i.Pushes) (run : i.step dests exit f = .running g) :
    g.stack = constant dests i.argValue :: f.stack := by
  obtain ⟨kind, low, high⟩ := push
  cases runs_of_step run with
  | push => rfl
  | exchange _ stack _ => exact absurd kind stack
  | land jump _ => cases kind.symm.trans jump
  | jump jump _ _ => cases kind.symm.trans jump
  | branch jump _ _ _ => cases kind.symm.trans jump
  | pass jump _ _ _ => cases kind.symm.trans jump
  | pop _ code _ => omega
  | dup _ low' _ _ => omega
  | swap _ low' _ _ => omega

theorem Jumps.stack_eq (jumps : i.Jumps) (run : i.step dests exit f = .running g) :
    g.stack = f.stack.drop (i.op.code - 0x55) := by
  obtain ⟨kind, code⟩ := jumps
  cases runs_of_step run with
  | exchange jump _ _ => exact absurd kind jump
  | land _ code' => omega
  | jump _ code' _ => rw [code']; rfl
  | branch _ code' _ _ => rw [code']; rfl
  | pass _ code' _ _ => rw [code']; rfl
  | pop stack _ _ => cases kind.symm.trans stack
  | push stack _ _ => cases kind.symm.trans stack
  | dup stack _ _ _ => cases kind.symm.trans stack
  | swap stack _ _ _ => cases kind.symm.trans stack

open Condition in
/-- A jump moves every position past the constant that was pushed for it, so the precondition does
not ask for the constant. -/
theorem wpre_push_wpre_jump {last push : Instruction} (jumps : last.Jumps) (pushes : push.Pushes)
    (es : List (Nat × Nat)) :
    push.wpre (last.wpre (.tracked es)) =
      .tracked (relocate (· - 1) (relocate (· + (last.op.code - 0x55)) es)) := by
  obtain ⟨kind, code⟩ := jumps
  have jumped : last.wpre (.tracked es) = .tracked (relocate (· + (last.op.code - 0x55)) es) := by
    simp only [wpre, wpreEntries, kind]
    rw [if_neg (by omega), if_pos code]
  have untracked : valueAt? (relocate (· + (last.op.code - 0x55)) es) 0 = none := by
    rw [valueAt?_eq_none, relocate, List.forall_mem_map]
    intro e _
    simp only
    omega
  obtain ⟨kind, low, high⟩ := pushes
  rw [jumped]
  simp only [wpre, wpreEntries, kind]
  rw [if_pos ⟨by omega, high⟩, wprePush, untracked]

namespace IsEncoded

/-- An opcode of the table is known by its code. -/
theorem op_eq (h : i.IsEncoded) (h' : j.IsEncoded) (code : i.op.code = j.op.code) :
    i.op = j.op := by
  obtain ⟨b, hb⟩ := h.op
  obtain ⟨b', hb'⟩ := h'.op
  rw [hb, hb'] at code ⊢
  rw [← (Opcode.ofByte_code b).2, code, (Opcode.ofByte_code b').2]

theorem pushes (h : i.IsEncoded) (low : 0x60 ≤ i.op.code) (high : i.op.code ≤ 0x7f) :
    i.Pushes := by
  refine ⟨?_, low, high⟩
  by_contra kind
  have none := h.argBytes_eq_zero kind
  rw [Opcode.argBytes, if_pos ⟨low, high⟩] at none
  omega

end IsEncoded

/-! ### Needs by opcodes -/

theorem operandsNeeded_eq_foldr (k : Nat) (is : List Instruction) :
    operandsNeeded k is = (is.map Instruction.op).foldr Opcode.operandsNeeded k := by
  induction is with
  | nil => rfl
  | cons i rest ih => rw [operandsNeeded, ih, List.map_cons, List.foldr_cons]

theorem capacityNeeded_eq_foldr (k : Nat) (is : List Instruction) :
    capacityNeeded k is = (is.map Instruction.op).foldr Opcode.capacityNeeded k := by
  induction is with
  | nil => rfl
  | cons i rest ih => rw [capacityNeeded, ih, List.map_cons, List.foldr_cons]

end Instruction

/-! ### Segments -/

namespace Segment

open Instruction

variable {s t u : Segment} {is js ks : List Instruction} {dests : List Nat} {e : Nat} {f g : Frame}

/-- Bodies that push a constant at their end, each its own of the same width, and are the same
otherwise. -/
def PushAlike (is js : List Instruction) : Prop :=
  ∃ front push front' push', is = front ++ [push] ∧ js = front' ++ [push'] ∧
    front.map unplaced = front'.map unplaced ∧ push.op.code = push'.op.code ∧
    0x60 ≤ push.op.code ∧ push.op.code ≤ 0x7f

theorem PushAlike.symm (alike : PushAlike is js) : PushAlike js is := by
  obtain ⟨front, push, front', push', his, hjs, same, code, low, high⟩ := alike
  exact ⟨front', push', front, push, hjs, his, same.symm, code.symm, code ▸ low, code ▸ high⟩

theorem PushAlike.trans (alike : PushAlike is js) (alike' : PushAlike js ks) : PushAlike is ks := by
  obtain ⟨front, push, middle, push', his, hjs, same, code, low, high⟩ := alike
  obtain ⟨middle', push'', front', last, hjs', hks, same', code', -, -⟩ := alike'
  obtain ⟨rfl, single⟩ := List.append_inj' (hjs.symm.trans hjs') rfl
  obtain rfl := List.singleton_inj.mp single
  exact ⟨front, push, front', last, his, hks, same.trans same', code.trans code', low, high⟩

theorem isJump_eq (kind : s.kind = t.kind) : s.isJump = t.isJump := by
  rw [isJump, kind, isJump]

theorem equivalent_iff_of_jump (jump : s.isJump = true) :
    s.equivalent t = true ↔ s.kind = t.kind ∧ PushAlike s.body t.body := by
  simp only [equivalent, jump, if_true, Bool.and_eq_true, beq_iff_eq, sameInstructions_iff]
  constructor
  · rintro ⟨⟨kind, length⟩, ⟨ends, code⟩, same⟩
    refine ⟨kind, ?_⟩
    cases last : s.body.getLast? with
    | none => simp [endsInPush, last] at ends
    | some push =>
        cases last' : t.body.getLast? with
        | none => simp [last, last'] at code
        | some push' =>
            obtain ⟨front, body⟩ := List.getLast?_eq_some_iff.mp last
            obtain ⟨front', body'⟩ := List.getLast?_eq_some_iff.mp last'
            have range : 0x60 ≤ push.op.code ∧ push.op.code ≤ 0x7f := by
              simpa [endsInPush, last] using ends
            rw [body, body', List.dropLast_concat, List.dropLast_concat] at same
            exact ⟨front, push, front', push', body, body', same, by simpa [last, last'] using code,
              range⟩
  · rintro ⟨kind, front, push, front', push', body, body', same, code, range⟩
    have length : front.length = front'.length := by simpa using congrArg List.length same
    rw [code] at range
    simp [endsInPush, body, body', kind, same, code, length, range]

theorem equivalent_iff_of_not_jump (jump : s.isJump = false) :
    s.equivalent t = true ↔
      s.kind = t.kind ∧ s.instructions.map unplaced = t.instructions.map unplaced := by
  simp only [equivalent, jump, Bool.and_eq_true, beq_iff_eq, sameInstructions_iff, if_neg,
    Bool.false_eq_true, not_false_eq_true, and_assoc]
  refine and_congr_right fun _ => and_iff_right_of_imp fun same => ?_
  simpa [instructions] using congrArg List.length same

theorem equivalent_symm (h : s.equivalent t = true) : t.equivalent s = true := by
  cases jump : s.isJump with
  | false =>
      obtain ⟨kind, same⟩ := (equivalent_iff_of_not_jump jump).mp h
      exact (equivalent_iff_of_not_jump (isJump_eq kind ▸ jump)).mpr ⟨kind.symm, same.symm⟩
  | true =>
      obtain ⟨kind, alike⟩ := (equivalent_iff_of_jump jump).mp h
      exact (equivalent_iff_of_jump (isJump_eq kind ▸ jump)).mpr ⟨kind.symm, alike.symm⟩

theorem equivalent_trans (h : s.equivalent t = true) (h' : t.equivalent u = true) :
    s.equivalent u = true := by
  cases jump : s.isJump with
  | false =>
      obtain ⟨kind, same⟩ := (equivalent_iff_of_not_jump jump).mp h
      obtain ⟨kind', same'⟩ := (equivalent_iff_of_not_jump (isJump_eq kind ▸ jump)).mp h'
      exact (equivalent_iff_of_not_jump jump).mpr ⟨kind.trans kind', same.trans same'⟩
  | true =>
      obtain ⟨kind, alike⟩ := (equivalent_iff_of_jump jump).mp h
      obtain ⟨kind', alike'⟩ := (equivalent_iff_of_jump (isJump_eq kind ▸ jump)).mp h'
      exact (equivalent_iff_of_jump jump).mpr ⟨kind.trans kind', alike.trans alike'⟩

/-! ### Segments of programs -/

theorem isJump_iff : s.isJump = true ↔ s.kind = .jump ∨ s.kind = .jumpi := by
  cases kind : s.kind <;> simp [isJump, kind]

/-- The last opcode of a segment that ends with a jump, by the kind of the segment. -/
theorem IsCut.code_last (cut : s.IsCut) (jump : s.isJump = true) :
    s.last.op.code = if s.kind = .jump then 0x56 else 0x57 := by
  rw [isJump_iff, cut.kind_eq, SegmentKind.ofLast] at jump
  rw [cut.kind_eq, SegmentKind.ofLast]
  split_ifs at jump ⊢ <;> simp_all

/-- A segment as reading a text makes it. -/
structure IsRead (s : Segment) : Prop where
  cut : s.IsCut
  read : ∀ i ∈ s.instructions, i.IsEncoded ∨ i.op = .invalid

namespace IsRead

theorem encoded_last (h : s.IsRead) (jump : s.isJump = true) : s.last.IsEncoded := by
  apply (h.read s.last (by simp [instructions])).resolve_right
  intro marker
  have code := h.cut.code_last jump
  rw [marker] at code
  split_ifs at code <;> cases code

theorem jumps (h : s.IsRead) (jump : s.isJump = true) : s.last.Jumps := by
  have code : s.last.op.code = 0x56 ∨ s.last.op.code = 0x57 := by
    rw [h.cut.code_last jump]
    split <;> simp
  exact ⟨(h.encoded_last jump).kind_of_isJump code, code⟩

/-- Segments that end with the same kind of jump end with the same opcode. -/
theorem op_last (h : s.IsRead) (h' : t.IsRead) (jump : s.isJump = true) (kind : s.kind = t.kind) :
    s.last.op = t.last.op := by
  have jump' : t.isJump = true := isJump_eq kind ▸ jump
  apply (h.encoded_last jump).op_eq (h'.encoded_last jump')
  rw [h.cut.code_last jump, h'.cut.code_last jump', kind]

/-- Equivalent segments that end with a jump, taken apart: they are the same but for the constant
that is pushed last. -/
theorem exists_push (h : s.IsRead) (h' : t.IsRead) (jump : s.isJump = true)
    (equivalent : s.equivalent t = true) :
    ∃ front push front' push', s.body = front ++ [push] ∧ t.body = front' ++ [push'] ∧
      front.map unplaced = front'.map unplaced ∧ push.op = push'.op ∧ push.Pushes ∧
      push'.Pushes := by
  obtain ⟨-, front, push, front', push', body, body', same, code, low, high⟩ :=
    (equivalent_iff_of_jump jump).mp equivalent
  have encoded : push.IsEncoded := h.cut.encoded_body h.read push (by simp [body])
  have encoded' : push'.IsEncoded := h'.cut.encoded_body h'.read push' (by simp [body'])
  exact ⟨front, push, front', push', body, body', same, encoded.op_eq encoded' code,
    encoded.pushes low high, encoded'.pushes (code ▸ low) (code ▸ high)⟩

theorem map_op_eq (h : s.IsRead) (h' : t.IsRead) (equivalent : s.equivalent t = true) :
    s.instructions.map Instruction.op = t.instructions.map Instruction.op := by
  cases jump : s.isJump with
  | false =>
      obtain ⟨-, same⟩ := (equivalent_iff_of_not_jump jump).mp equivalent
      exact map_op_eq_of_unplaced same
  | true =>
      obtain ⟨kind, -⟩ := (equivalent_iff_of_jump jump).mp equivalent
      obtain ⟨front, push, front', push', body, body', same, op, -, -⟩ :=
        h.exists_push h' jump equivalent
      have ops := map_op_eq_of_unplaced same
      simp [instructions, body, body', ops, op, h.op_last h' jump kind]

theorem wpre_eq (h : s.IsRead) (h' : t.IsRead) (equivalent : s.equivalent t = true)
    (c : Condition) : s.wpre c = t.wpre c := by
  cases jump : s.isJump with
  | false =>
      obtain ⟨-, same⟩ := (equivalent_iff_of_not_jump jump).mp equivalent
      exact wpreAll_eq_of_unplaced same c
  | true =>
      obtain ⟨kind, -⟩ := (equivalent_iff_of_jump jump).mp equivalent
      have jump' : t.isJump = true := isJump_eq kind ▸ jump
      obtain ⟨front, push, front', push', body, body', same, -, pushes, pushes'⟩ :=
        h.exists_push h' jump equivalent
      have before : push.wpre (s.last.wpre c) = push'.wpre (t.last.wpre c) := by
        cases c with
        | always => rfl
        | never => rfl
        | tracked es =>
            rw [wpre_push_wpre_jump (h.jumps jump) pushes,
              wpre_push_wpre_jump (h'.jumps jump') pushes', h.op_last h' jump kind]
      rw [Segment.wpre_eq, Segment.wpre_eq, body, body', wpreAll_append, wpreAll_append]
      change wpreAll (push.wpre (s.last.wpre c)) front = wpreAll (push'.wpre (t.last.wpre c)) front'
      rw [before]
      exact wpreAll_eq_of_unplaced same _

/-- The constant that a jump goes to is not on the stack behind the jump. -/
theorem stack_eq_of_jump (h : s.IsRead) (h' : t.IsRead) (jump : s.isJump = true)
    (equivalent : s.equivalent t = true) (same : f.stack = g.stack) {f' g' : Frame}
    (run : s.run dests e f = .running f') (run' : t.run dests e g = .running g') :
    f'.stack = g'.stack := by
  obtain ⟨kind, -⟩ := (equivalent_iff_of_jump jump).mp equivalent
  obtain ⟨front, push, front', push', body, body', alike, -, pushes, pushes'⟩ :=
    h.exists_push h' jump equivalent
  obtain ⟨k, run, last⟩ := run_eq_running run
  obtain ⟨k', run', last'⟩ := run_eq_running run'
  rw [body] at run
  rw [body'] at run'
  obtain ⟨m, run, pushed⟩ := runAll_concat run
  obtain ⟨m', run', pushed'⟩ := runAll_concat run'
  have below : m.stack = m'.stack :=
    (sameStack_runAll_of_unplaced alike dests same).stack_eq run run'
  have jumps := h.jumps jump
  obtain ⟨n, taken⟩ : ∃ n, s.last.op.code - 0x55 = n + 1 :=
    ⟨s.last.op.code - 0x56, by have := jumps.code; omega⟩
  rw [jumps.stack_eq last, (h'.jumps (isJump_eq kind ▸ jump)).stack_eq last',
    ← h.op_last h' jump kind, taken, pushes.stack_eq pushed, pushes'.stack_eq pushed',
    List.drop_succ_cons, List.drop_succ_cons, below]

end IsRead

/-- Segments of the same instructions leave the same stack, or fail alike. -/
theorem sameStack_run (alike : s.instructions.map unplaced = t.instructions.map unplaced)
    (dests : List Nat) (e : Nat) (same : f.stack = g.stack) :
    (s.run dests e f).SameStack (t.run dests e g) := by
  rw [instructions, instructions, List.map_append, List.map_append] at alike
  obtain ⟨body, last⟩ := List.append_inj' alike rfl
  have last : s.last.unplaced = t.last.unplaced := List.singleton_inj.mp last
  have first := sameStack_runAll_of_unplaced body dests same
  rw [run, run]
  generalize runAll dests s.body f = a at first ⊢
  generalize runAll dests t.body g = b at first ⊢
  cases first with
  | failed m => exact .failed m
  | running same =>
      simp only
      rw [← step_unplaced, last, step_unplaced]
      exact t.last.sameStack_step dests e same

/-- What is the same for two segments, wherever they stand: what they need on entry, the condition
on entry for any condition behind them, and what they leave of a stack if both can be left by an
exit. If they do not end with a jump, they can be left from the same stacks. -/
structure BehavesLike (s t : Segment) : Prop where
  operands : ∀ k, s.operandsNeeded k = t.operandsNeeded k
  capacity : ∀ k, s.capacityNeeded k = t.capacityNeeded k
  wpre : ∀ c, s.wpre c = t.wpre c
  stack : ∀ dests exit stack pc pc' g h, s.run dests exit ⟨pc, stack⟩ = .running g →
    t.run dests exit ⟨pc', stack⟩ = .running h → g.stack = h.stack
  fails : s.isJump = false → ∀ dests exit stack pc pc',
    (s.run dests exit ⟨pc, stack⟩).isFailed = (t.run dests exit ⟨pc', stack⟩).isFailed

theorem IsRead.behavesLike (h : s.IsRead) (h' : t.IsRead) (equivalent : s.equivalent t = true) :
    s.BehavesLike t := by
  have ops := h.map_op_eq h' equivalent
  refine ⟨fun k => ?_, fun k => ?_, h.wpre_eq h' equivalent, ?_, ?_⟩
  · rw [operandsNeeded, operandsNeeded_eq_foldr, ops, ← operandsNeeded_eq_foldr, operandsNeeded]
  · rw [capacityNeeded, capacityNeeded_eq_foldr, ops, ← capacityNeeded_eq_foldr, capacityNeeded]
  · intro dests exit stack pc pc' k k' run run'
    cases jump : s.isJump with
    | true => exact h.stack_eq_of_jump h' jump equivalent (by rfl) run run'
    | false =>
        obtain ⟨-, alike⟩ := (equivalent_iff_of_not_jump jump).mp equivalent
        exact (sameStack_run alike dests exit (by rfl)).stack_eq run run'
  · intro jump dests exit stack pc pc'
    obtain ⟨-, alike⟩ := (equivalent_iff_of_not_jump jump).mp equivalent
    have same : (⟨pc, stack⟩ : Frame).stack = (⟨pc', stack⟩ : Frame).stack := rfl
    exact (sameStack_run alike dests exit same).isFailed_eq

end Segment

namespace Program

theorem isRead_of_mem {code : List Char} {s : Segment} (mem : s ∈ (ofCode code).segments) :
    s.IsRead :=
  have wf := wellFormed_ofCode code
  ⟨wf.cut s mem, wf.read s mem⟩

/-- Equivalence of segments is symmetric and transitive, and equivalent segments of programs, of one
or of two, behave alike. -/
theorem equivalent_behavesLike :
    (∀ s t : Segment, s.equivalent t = true → t.equivalent s = true) ∧
      (∀ s t u : Segment, s.equivalent t = true → t.equivalent u = true → s.equivalent u = true) ∧
      ∀ code code' : List Char, ∀ s ∈ (ofCode code).segments, ∀ t ∈ (ofCode code').segments,
        s.equivalent t = true → s.BehavesLike t := by
  refine ⟨fun _ _ => Segment.equivalent_symm, fun _ _ _ => Segment.equivalent_trans, ?_⟩
  intro code code' s hs t ht equivalent
  exact (isRead_of_mem hs).behavesLike (isRead_of_mem ht) equivalent

/-- Three segments that branch to different addresses, and two that stop. -/
theorem equivalent_behavesLike_of_branch :
    let p := ofCode "34806005575b00".toList
    let q := ofCode "5b0034806007575b00".toList
    let s := p.segments.getD 0 default
    let t := q.segments.getD 1 default
    let v := p.segments.getD 1 default
    let w := q.segments.getD 0 default
    let u := (ofCode "34806002575b00".toList).segments.getD 0 default
    s ∈ p.segments ∧ t ∈ q.segments ∧ s.equivalent t = true ∧ t.equivalent s = true ∧
      t.equivalent u = true ∧ s.equivalent u = true ∧
      s.wpre (.tracked [(0, 5), (1, 7)]) = t.wpre (.tracked [(0, 5), (1, 7)]) ∧
      s.run [5, 7] 1 ⟨0, [.known 9]⟩ = .running ⟨5, [.blank, .known 9]⟩ ∧
      (∀ h, t.run [5, 7] 1 ⟨2, [.known 9]⟩ = .running h → h.stack = [.blank, .known 9]) ∧
      (∃ h, t.run [5, 7] 1 ⟨2, [.known 9]⟩ = .running h) ∧
      v ∈ p.segments ∧ w ∈ q.segments ∧ v.equivalent w = true ∧ v.isJump = false ∧
      (v.run [] 0 ⟨5, []⟩).isFailed = true ∧ (w.run [] 0 ⟨0, []⟩).isFailed = true := by
  intro p q s t v w u
  obtain ⟨symm, trans, alike⟩ := equivalent_behavesLike
  have hs : s ∈ p.segments := by decide +kernel
  have ht : t ∈ q.segments := by decide +kernel
  have hv : v ∈ p.segments := by decide +kernel
  have hw : w ∈ q.segments := by decide +kernel
  have equivalent : s.equivalent t = true := by decide +kernel
  have equivalent' : v.equivalent w = true := by decide +kernel
  have next : t.equivalent u = true := by decide +kernel
  have branch := alike _ _ s hs t ht equivalent
  have stop := alike _ _ v hv w hw equivalent'
  have run : s.run [5, 7] 1 ⟨0, [.known 9]⟩ = .running ⟨5, [.blank, .known 9]⟩ := by
    decide +kernel
  have jump : v.isJump = false := by decide +kernel
  have failed : (v.run [] 0 ⟨5, []⟩).isFailed = true := by decide +kernel
  refine ⟨hs, ht, equivalent, symm s t equivalent, next, trans s t u equivalent next,
    branch.wpre _, run, ?_, ?_, hv, hw, equivalent', jump, failed, ?_⟩
  · intro h run'
    exact (branch.stack _ _ _ _ _ _ _ run run').symm
  · exact ⟨⟨7, [.blank, .known 9]⟩, by decide +kernel⟩
  · exact (stop.fails jump [] 0 [] 5 0).symm.trans failed

end Program

end EvmFlow
