import EvmFlow.Proofs.PathPrecondition

/-!
# How many operands an execution needs

The table says how many operands an opcode needs and by how much it changes the size of the stack;
an execution checks sizes for itself, one family of opcodes at a time. Both agree: a step that
succeeds found the operands of the table and changed the size as the table says (`size_step`), and
nothing but operands is missing where an instruction does not end a segment (`exists_step`). So the
bound that is computed backwards through a list of instructions is exact.
-/

namespace EvmFlow

/-! ### Frames -/

namespace Frame

variable {f : Frame} {n : Nat}

@[simp] theorem size_skip (f : Frame) (n : Nat) : (f.skip n).size = f.size := rfl

@[simp] theorem size_goto (f : Frame) (n : Nat) : (f.goto n).size = f.size := rfl

@[simp] theorem size_pop (f : Frame) (n : Nat) : (f.pop n).size = f.size - n :=
  List.length_drop

@[simp] theorem size_push (f : Frame) (c : Cell) : (f.push c).size = f.size + 1 := rfl

@[simp] theorem size_pushBlanks (f : Frame) (n : Nat) : (f.pushBlanks n).size = n + f.size := by
  simp [pushBlanks, size]

theorem size_dup (high : n - 1 < f.size) : (f.dup n).size = f.size + 1 := by
  rw [dup, List.getElem?_eq_getElem high, size_push]

@[simp] theorem size_swap (f : Frame) (n : Nat) : (f.swap n).size = f.size := by
  rw [swap]
  split
  · simp [size]
  · rfl

end Frame

/-! ### The opcode table -/

namespace Opcode

/-- How deep an opcode looks into the stack. -/
def reach (o : Opcode) : Nat :=
  if o.kind = .stack ∧ 0x80 ≤ o.code ∧ o.code ≤ 0x8f then o.code - 0x7f
  else if o.kind = .stack ∧ 0x90 ≤ o.code ∧ o.code ≤ 0x9f then o.code - 0x8f + 1
  else o.pops

section Reach

variable {o : Opcode}

theorem reach_eq_pops (small : o.code < 0x80) : o.reach = o.pops := by
  rw [reach, if_neg (by omega), if_neg (by omega)]

theorem reach_eq_pops_of_kind (kind : o.kind ≠ .stack) : o.reach = o.pops := by
  rw [reach, if_neg (fun stack => kind stack.1), if_neg (fun stack => kind stack.1)]

theorem reach_of_dup (kind : o.kind = .stack) (low : 0x80 ≤ o.code) (high : o.code ≤ 0x8f) :
    o.reach = o.code - 0x7f :=
  if_pos ⟨kind, low, high⟩

theorem reach_of_swap (kind : o.kind = .stack) (low : 0x90 ≤ o.code) (high : o.code ≤ 0x9f) :
    o.reach = o.code - 0x8f + 1 := by
  rw [reach, if_neg (by omega), if_pos ⟨kind, low, high⟩]

end Reach

theorem minOperands_ofByte (b : Nat) : (ofByte b).minOperands = (ofByte b).reach := by
  refine ofByte_induction (P := fun o => o.minOperands = o.reach) ?_ ?_ ?_ ?_ (by decide) b
  · intro k high
    have code : (push k).code < 0x80 := Nat.add_lt_add_left (Nat.lt_succ_of_le high) 0x5f
    exact (reach_eq_pops code).symm
  · intro k low high
    have code : (dup k).code = 0x7f + k := rfl
    rw [reach_of_dup rfl (by omega) (by omega), code, Nat.add_sub_cancel_left]
    rfl
  · intro k low high
    have code : (swap k).code = 0x8f + k := rfl
    rw [reach_of_swap rfl (by omega) (by omega), code, Nat.add_sub_cancel_left]
    rfl
  · intro k high
    rfl

/-- What `JUMPDEST`, `JUMP` and `JUMPI` take, and that they leave nothing. -/
theorem jump_ofByte (b : Nat) :
    (ofByte b).kind = .jump → (ofByte b).pushes = 0 ∧
      ((ofByte b).code = 0x5b → (ofByte b).pops = 0) ∧
      ((ofByte b).code = 0x56 → (ofByte b).pops = 1) ∧
      ((ofByte b).code = 0x57 → (ofByte b).pops = 2) := by
  refine ofByte_induction (P := fun o => o.kind = .jump → o.pushes = 0 ∧
    (o.code = 0x5b → o.pops = 0) ∧ (o.code = 0x56 → o.pops = 1) ∧ (o.code = 0x57 → o.pops = 2))
    ?_ ?_ ?_ ?_ (by decide) b
  all_goals
    intros
    contradiction

end Opcode

namespace Instruction

variable {i : Instruction} {is js : List Instruction} {dests : List Nat} {exit k : Nat}
variable {f g : Frame}

namespace IsEncoded

theorem minOperands_eq (h : i.IsEncoded) : i.op.minOperands = i.op.reach := by
  obtain ⟨b, hb⟩ := h.op
  rw [hb]
  exact Opcode.minOperands_ofByte b

/-- Outside the stack kind an opcode looks at what it takes. -/
theorem minOperands_eq_pops (h : i.IsEncoded) (kind : i.op.kind ≠ .stack) :
    i.op.minOperands = i.op.pops :=
  h.minOperands_eq.trans (Opcode.reach_eq_pops_of_kind kind)

theorem of_jump (h : i.IsEncoded) (kind : i.op.kind = .jump) :
    i.op.pushes = 0 ∧ (i.op.code = 0x5b → i.op.pops = 0) ∧ (i.op.code = 0x56 → i.op.pops = 1) ∧
      (i.op.code = 0x57 → i.op.pops = 2) := by
  obtain ⟨b, hb⟩ := h.op
  rw [hb] at kind ⊢
  exact Opcode.jump_ofByte b kind

theorem of_stack (h : i.IsEncoded) (kind : i.op.kind = .stack) :
    (i.op.code = 0x50 ∧ i.op.pushes = 0 ∧ i.op.pops = 1) ∨
      (0x5f ≤ i.op.code ∧ i.op.code ≤ 0x8f ∧ i.op.pushes = 1 ∧ i.op.pops = 0) ∨
      (0x90 ≤ i.op.code ∧ i.op.code ≤ 0x9f ∧ i.op.pushes = 0 ∧ i.op.pops = 0) := by
  simpa [Opcode.isValid, kind] using h.isValid

end IsEncoded

/-! ### One instruction -/

/-- A step that succeeds has found its operands and changes the size by its effect. -/
theorem size_step (encoded : i.IsEncoded) (run : i.step dests exit f = .running g) :
    i.op.minOperands ≤ f.size ∧ (g.size : Int) = f.size + i.effect := by
  rw [effect, Opcode.effect]
  cases runs_of_step run with
  | exchange jump stack operands =>
      rw [encoded.minOperands_eq_pops stack, Frame.size_skip, Frame.size_pushBlanks,
        Frame.size_pop]
      omega
  | land kind code =>
      obtain ⟨pushes, pops, -⟩ := encoded.of_jump kind
      rw [encoded.minOperands_eq_pops (by simp [kind]), pushes, pops code, Frame.size_skip]
      omega
  | jump kind code top =>
      obtain ⟨pushes, -, pops, -⟩ := encoded.of_jump kind
      have size : 1 ≤ f.size := by simp [Frame.size, top]
      rw [encoded.minOperands_eq_pops (by simp [kind]), pushes, pops code, Frame.size_goto,
        Frame.size_pop]
      omega
  | branch kind code top taken =>
      obtain ⟨pushes, -, -, pops⟩ := encoded.of_jump kind
      have size : 2 ≤ f.size := by simp [Frame.size, top]
      rw [encoded.minOperands_eq_pops (by simp [kind]), pushes, pops code, Frame.size_goto,
        Frame.size_pop]
      omega
  | pass kind code top passed =>
      obtain ⟨pushes, -, -, pops⟩ := encoded.of_jump kind
      have size : 2 ≤ f.size := by simp [Frame.size, top]
      rw [encoded.minOperands_eq_pops (by simp [kind]), pushes, pops code, Frame.size_skip,
        Frame.size_pop]
      omega
  | pop kind code operands =>
      have sizes := encoded.of_stack kind
      rw [encoded.minOperands_eq, Opcode.reach_eq_pops (by omega), Frame.size_skip, Frame.size_pop]
      omega
  | push kind low high =>
      have sizes := encoded.of_stack kind
      rw [encoded.minOperands_eq, Opcode.reach_eq_pops (by omega), Frame.size_skip,
        Frame.size_push]
      omega
  | dup kind low high operands =>
      have sizes := encoded.of_stack kind
      rw [encoded.minOperands_eq, Opcode.reach_of_dup kind low high, Frame.size_skip,
        Frame.size_dup (by omega)]
      omega
  | swap kind low high operands =>
      have sizes := encoded.of_stack kind
      rw [encoded.minOperands_eq, Opcode.reach_of_swap kind low high, Frame.size_skip,
        Frame.size_swap]
      omega

theorem exists_stepStack (encoded : i.IsEncoded) (kind : i.op.kind = .stack)
    (operands : i.op.minOperands ≤ f.size) : ∃ g, i.stepStack dests f = .running g := by
  have sizes := encoded.of_stack kind
  rw [encoded.minOperands_eq] at operands
  simp only [stepStack]
  by_cases pop : i.op.code = 0x50
  · rw [Opcode.reach_eq_pops (by omega)] at operands
    exact ⟨_, if_pos ⟨pop, by omega⟩⟩
  rw [if_neg (fun h => pop h.1)]
  by_cases push : 0x5f ≤ i.op.code ∧ i.op.code ≤ 0x7f
  · exact ⟨_, if_pos push⟩
  rw [if_neg push]
  by_cases dup : 0x80 ≤ i.op.code ∧ i.op.code ≤ 0x8f
  · rw [Opcode.reach_of_dup kind dup.1 dup.2] at operands
    exact ⟨_, if_pos ⟨dup.1, dup.2, operands⟩⟩
  rw [if_neg (fun h => dup ⟨h.1, h.2.1⟩)]
  rw [Opcode.reach_of_swap kind (by omega) (by omega)] at operands
  exact ⟨_, if_pos (by omega)⟩

/-- An instruction that is not terminal runs as soon as its operands are there. -/
theorem exists_step (encoded : i.IsEncoded) (open_ : i.isTerminal = false)
    (operands : i.op.minOperands ≤ f.size) : ∃ g, i.step dests exit f = .running g := by
  have codes : i.op.code ∉ [0x00, 0x56, 0x57, 0x5c, 0x5d, 0x5e, 0xf3, 0xfd, 0xfe] := by
    simpa [isTerminal, Opcode.isTerminal] using open_
  simp only [List.mem_cons, List.not_mem_nil, or_false, not_or] at codes
  have exchange : i.op.kind ≠ .stack → ∀ message,
      ∃ g, f.exchange i.op.pops i.op.pushes message = .running g := by
    intro stack message
    rw [encoded.minOperands_eq_pops stack] at operands
    exact ⟨_, if_pos operands⟩
  unfold step
  cases kind : i.op.kind with
  | jump =>
      have code : i.op.code = 0x5b := by
        have valid := encoded.isValid
        simp only [Opcode.isValid, kind, decide_eq_true_eq] at valid
        omega
      exact ⟨_, if_pos code⟩
  | stack => exact exists_stepStack encoded kind operands
  | system =>
      simp only
      rw [if_neg (by simp [Opcode.isInvalid, Opcode.isRevertStop, codes])]
      exact exchange (by simp [kind]) _
  | _ => exact exchange (by simp [kind]) _

/-! ### Lists of instructions -/

theorem operandsNeeded_append (k : Nat) (is js : List Instruction) :
    operandsNeeded k (is ++ js) = operandsNeeded (operandsNeeded k js) is := by
  induction is with
  | nil => rfl
  | cons i rest ih => rw [List.cons_append, operandsNeeded, operandsNeeded, ih]

theorem operandsNeeded_cons_le {n : Nat} :
    operandsNeeded k (i :: is) ≤ n ↔
      i.op.minOperands ≤ n ∧ (operandsNeeded k is : Int) ≤ n + i.effect := by
  rw [operandsNeeded, Opcode.operandsNeeded, effect, Opcode.effect]
  omega

/-- A run that succeeds has found the operands that were needed for what it leaves, and changes the
size by the effect of its instructions. -/
theorem size_runAll (encoded : ∀ i ∈ is, i.IsEncoded) (run : runAll dests is f = .running g) :
    (∀ k ≤ g.size, operandsNeeded k is ≤ f.size) ∧ (g.size : Int) = f.size + effectAll is := by
  induction is generalizing f with
  | nil =>
      cases run
      exact ⟨fun k few => few, by simp [effectAll]⟩
  | cons i rest ih =>
      obtain ⟨h, step, run⟩ := runAll_cons run
      obtain ⟨first, others⟩ := List.forall_mem_cons.mp encoded
      obtain ⟨operands, size⟩ := size_step first step
      obtain ⟨needed, total⟩ := ih others run
      refine ⟨fun k few => operandsNeeded_cons_le.mpr ⟨operands, ?_⟩, ?_⟩
      · rw [← size]
        exact Int.ofNat_le.mpr (needed k few)
      · rw [effectAll]
        omega

/-- Instructions that are not terminal run as soon as the operands that they need are there. -/
theorem exists_runAll (encoded : ∀ i ∈ is, i.IsEncoded) (straight : ∀ i ∈ is, i.isTerminal = false)
    (operands : operandsNeeded k is ≤ f.size) :
    ∃ g, runAll dests is f = .running g ∧ k ≤ g.size := by
  induction is generalizing f with
  | nil => exact ⟨f, rfl, operands⟩
  | cons i rest ih =>
      obtain ⟨first, others⟩ := List.forall_mem_cons.mp encoded
      obtain ⟨first', others'⟩ := List.forall_mem_cons.mp straight
      obtain ⟨here, behind⟩ := operandsNeeded_cons_le.mp operands
      obtain ⟨h, step⟩ : ∃ h, i.step dests 0 f = .running h := exists_step first first' here
      rw [← (size_step first step).2] at behind
      obtain ⟨g, run, few⟩ := ih others others' (Int.ofNat_le.mp behind)
      refine ⟨g, ?_, few⟩
      rw [runAll, step]
      exact run

end Instruction

/-! ### Segments -/

namespace Segment

variable {s : Segment} {dests : List Nat} {e : Nat} {f g : Frame}

theorem operandsNeeded_eq (s : Segment) (k : Nat) :
    s.operandsNeeded k = Instruction.operandsNeeded (s.last.op.operandsNeeded k) s.body :=
  Instruction.operandsNeeded_append k s.body [s.last]

/-- A segment that can be left, by whatever exit, has found the operands that it needs. -/
theorem operandsNeeded_le_of_run (cut : s.IsCut)
    (read : ∀ i ∈ s.instructions, i.IsEncoded ∨ i.op = .invalid)
    (run : s.run dests e f = .running g) : s.operandsNeeded 0 ≤ f.size := by
  obtain ⟨h, body, last⟩ := run_eq_running run
  have encoded : s.last.IsEncoded := by
    apply (read s.last (by simp [instructions])).resolve_right
    intro marker
    simp [Instruction.step, marker, Opcode.invalid, Opcode.isInvalid] at last
  obtain ⟨operands, size⟩ := Instruction.size_step encoded last
  rw [operandsNeeded_eq]
  apply (Instruction.size_runAll (cut.encoded_body read) body).1
  rw [Opcode.operandsNeeded]
  rw [Instruction.effect, Opcode.effect] at size
  omega

/-- The last instruction of a segment that goes on behind it, unless it is a relative jump. -/
theorem IsCut.isTerminal_last (cut : s.IsCut) (kind : s.kind = .cont)
    (ahead : s.last.op.code ∉ [0x5c, 0x5d, 0x5e]) : s.last.isTerminal = false := by
  rw [cut.kind_eq] at kind
  grind [SegmentKind.ofLast, Opcode.isReturn, Opcode.isRevertStop, Opcode.isInvalid,
    Instruction.isTerminal, Opcode.isTerminal]

/-- A segment that goes on behind its last instruction is left as soon as the operands that it needs
are there. -/
theorem exists_run (cut : s.IsCut)
    (read : ∀ i ∈ s.instructions, i.IsEncoded ∨ i.op = .invalid) (kind : s.kind = .cont)
    (ahead : s.last.op.code ∉ [0x5c, 0x5d, 0x5e]) (operands : s.operandsNeeded 0 ≤ f.size) :
    ∃ g, s.run dests e f = .running g := by
  have open_ := cut.isTerminal_last kind ahead
  have encoded : s.last.IsEncoded := by
    apply (read s.last (by simp [instructions])).resolve_right
    intro marker
    rw [Instruction.isTerminal, marker] at open_
    cases open_
  rw [operandsNeeded_eq] at operands
  obtain ⟨h, body, few⟩ : ∃ h, Instruction.runAll dests s.body f = .running h ∧
      s.last.op.operandsNeeded 0 ≤ h.size :=
    Instruction.exists_runAll (cut.encoded_body read) cut.straight operands
  obtain ⟨g, last⟩ : ∃ g, s.last.step dests e h = .running g :=
    Instruction.exists_step encoded open_ (Nat.le_trans (Nat.le_max_left _ _) few)
  refine ⟨g, ?_⟩
  rw [Segment.run, body]
  exact last

end Segment

namespace Program

/-- The operands that a list of instructions needs are exactly those with which it runs and leaves
`k` of them, if no instruction is terminal; the size then changes by the effect of the list. So a
segment of a program cannot be left by any exit when operands are missing, and if it goes on behind
its last instruction, other than by a relative jump, it can be left whenever they are there. -/
theorem operandsNeeded_exact (code : List Char) :
    (∀ is : List Instruction, (∀ i ∈ is, i.IsEncoded) → (∀ i ∈ is, i.isTerminal = false) →
      ∀ (dests : List Nat) (f : Frame) (k : Nat),
        ((∃ g, Instruction.runAll dests is f = .running g ∧ k ≤ g.size) ↔
          Instruction.operandsNeeded k is ≤ f.size) ∧
        ∀ g, Instruction.runAll dests is f = .running g →
          (g.size : Int) = f.size + Instruction.effectAll is) ∧
      ∀ s ∈ (ofCode code).segments, ∀ (dests : List Nat) (e : Nat) (f : Frame),
        (f.size < s.operandsNeeded 0 → ∃ m, s.run dests e f = .failed m) ∧
        (s.kind = .cont → s.last.op.code ∉ [0x5c, 0x5d, 0x5e] →
          ((∃ g, s.run dests e f = .running g) ↔ s.operandsNeeded 0 ≤ f.size)) := by
  have wf := wellFormed_ofCode code
  constructor
  · intro is encoded straight dests f k
    refine ⟨⟨?_, Instruction.exists_runAll encoded straight⟩, ?_⟩
    · rintro ⟨g, run, few⟩
      exact (Instruction.size_runAll encoded run).1 k few
    · intro g run
      exact (Instruction.size_runAll encoded run).2
  · intro s mem dests e f
    have enough : ∀ g, s.run dests e f = .running g → s.operandsNeeded 0 ≤ f.size :=
      fun g => Segment.operandsNeeded_le_of_run (wf.cut s mem) (wf.read s mem)
    refine ⟨?_, ?_⟩
    · intro missing
      cases run : s.run dests e f with
      | failed m => exact ⟨m, rfl⟩
      | running g => exact absurd (enough g run) (Nat.not_le.mpr missing)
    · intro kind ahead
      refine ⟨?_, Segment.exists_run (wf.cut s mem) (wf.read s mem) kind ahead⟩
      rintro ⟨g, run⟩
      exact enough g run

/-- An operand is dropped, a constant is pushed and the element two below it is copied: to leave four
operands, three are needed. A segment that exchanges its two topmost operands and drops one needs
two. -/
theorem operandsNeeded_exact_of_copy :
    let is : List Instruction :=
      [⟨.ofByte 0x50, [], 0⟩, ⟨.ofByte 0x60, "05".toList, 1⟩, ⟨.ofByte 0x82, [], 3⟩]
    let s := Segment.build [⟨.ofByte 0x5b, [], 0⟩, ⟨.ofByte 0x90, [], 1⟩] ⟨.ofByte 0x50, [], 2⟩
    (∀ i ∈ is, i.IsEncoded) ∧ (∀ i ∈ is, i.isTerminal = false) ∧
      Instruction.operandsNeeded 4 is = 3 ∧
      (∃ g, Instruction.runAll [] is ⟨0, [.blank, .blank, .blank]⟩ = .running g ∧ 4 ≤ g.size) ∧
      s ∈ (ofCode "5b9050".toList).segments ∧ s.kind = .cont ∧ s.operandsNeeded 0 = 2 ∧
      (∃ m, s.run [] 0 ⟨0, [.blank]⟩ = .failed m) ∧
      ∃ g, s.run [] 0 ⟨0, [.blank, .blank]⟩ = .running g := by
  intro is s
  have encoded : ∀ i ∈ is, i.IsEncoded := by
    simp only [is, List.forall_mem_cons, List.not_mem_nil, false_implies, implies_true, and_true]
    exact ⟨⟨⟨0x50, rfl⟩, by decide, by decide⟩, ⟨⟨0x60, rfl⟩, by decide, by decide⟩,
      ⟨⟨0x82, rfl⟩, by decide, by decide⟩⟩
  have straight : ∀ i ∈ is, i.isTerminal = false := by decide
  have mem : s ∈ (ofCode "5b9050".toList).segments := by decide +kernel
  obtain ⟨lists, segments⟩ := operandsNeeded_exact "5b9050".toList
  refine ⟨encoded, straight, by decide, ?_, mem, by decide, by decide, ?_, ?_⟩
  · exact (lists is encoded straight [] _ 4).1.mpr (by decide)
  · exact (segments s mem [] 0 _).1 (by decide)
  · exact ((segments s mem [] 0 _).2 (by decide) (by decide)).mpr (by decide)

end Program

end EvmFlow
