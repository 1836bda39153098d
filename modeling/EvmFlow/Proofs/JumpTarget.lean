import EvmFlow.Proofs.OperandCount

/-!
# Where the target of a jump comes from

`Segment.target` follows the cell on top of the stack backwards through the body of a segment, to
the instruction that put it there or to a position of the stack on entry. It undoes each instruction
by `Instruction.origin`. Undone by `Instruction.source`, the instructions lead to the cell that a
run really leaves on top (`getElem?_runAll`).

The two ways back part below the result of an opcode that calls or creates, where `origin` goes on
one position too deep. They may meet again before the start of the body, for instance where an
element was copied. So what is said about the target is right for all runs exactly if both ways
end with the same, and it is right if nothing in the body calls or creates.
-/

namespace EvmFlow

namespace Instruction

variable {i : Instruction} {is : List Instruction} {dests : List Nat} {f g : Frame}
variable {stack : List Cell} {c : Cell} {a b : Cell ⊕ Nat} {pos : Nat}

/-- Where the element at a position was before a list of instructions, or what one of them put
there. -/
def sourceAll (pos : Nat) : List Instruction → Cell ⊕ Nat
  | [] => .inr pos
  | i :: rest =>
    match sourceAll pos rest with
    | .inl c => .inl c
    | .inr p => i.source p

theorem sourceAll_eq_originAll (stays : ∀ i ∈ is, i.op.callsOut = false) :
    sourceAll pos is = originAll pos is := by
  induction is with
  | nil => rfl
  | cons i rest ih =>
      obtain ⟨first, others⟩ := List.forall_mem_cons.mp stays
      rw [sourceAll, originAll, ih others]
      cases originAll pos rest with
      | inl c => rfl
      | inr p => exact source_eq_origin first p

/-- After a run every position holds what `sourceAll` names. -/
theorem getElem?_runAll (encoded : ∀ i ∈ is, i.IsEncoded) (run : runAll dests is f = .running g)
    (pos : Nat) : g.stack[pos]? = placed dests f.stack (sourceAll pos is) := by
  induction is generalizing f with
  | nil =>
      cases run
      rfl
  | cons i rest ih =>
      obtain ⟨h, step, run⟩ := runAll_cons run
      obtain ⟨first, others⟩ := List.forall_mem_cons.mp encoded
      rw [ih others run, sourceAll]
      cases sourceAll pos rest with
      | inl c => cases c <;> rfl
      | inr p => exact getElem?_step_source first step p

/-! ### What is said about a cell -/

/-- What naming a source says about a cell: it is the one at a position of the old stack, it is a
destination that was pushed, or nothing is known of it. -/
def Describes (dests : List Nat) (stack : List Cell) (c : Cell) : Cell ⊕ Nat → Prop
  | .inr pos => stack[pos]? = some c
  | .inl (.known v) => if v ∈ dests then c = .known v else ∃ remark, c = .unknown remark
  | .inl (.unknown _) => ∃ remark, c = .unknown remark

/-- A source without what does not matter: remarks, and constants that are no destinations. -/
def settle (dests : List Nat) : Cell ⊕ Nat → Cell ⊕ Nat
  | .inr pos => .inr pos
  | .inl (.known v) => .inl (constant dests v)
  | .inl (.unknown _) => .inl .blank

theorem describes_settle :
    Describes dests stack c (settle dests a) ↔ Describes dests stack c a := by
  match a with
  | .inr pos => rfl
  | .inl (.unknown _) => rfl
  | .inl (.known v) =>
      by_cases dest : v ∈ dests
      · simp [settle, Describes, constant, dest]
      · simp [settle, Describes, constant, dest, Cell.blank]

theorem describes_of_placed (placed : placed dests stack a = some c) :
    Describes dests stack c a := by
  match a with
  | .inr pos => exact placed
  | .inl (.unknown _) => exact ⟨"", (Option.some.inj placed).symm⟩
  | .inl (.known v) =>
      have cell : constant dests v = c := Option.some.inj placed
      rw [← describes_settle, settle, ← cell]
      by_cases dest : v ∈ dests
      · simp [Describes, constant, dest]
      · simp [Describes, constant, dest, Cell.blank]

/-! ### Telling sources apart -/

/-- A stack of known cells that are all different, and larger than `base`. -/
def numbered (base size : Nat) : List Cell :=
  (List.range size).map fun k => .known (base + 1 + k)

theorem getElem?_numbered {base size : Nat} :
    (numbered base size)[pos]? = some c → c = .known (base + 1 + pos) := by
  intro found
  obtain ⟨k, inside, rfl⟩ : ∃ k, (List.range size)[pos]? = some k ∧ .known (base + 1 + k) = c := by
    simpa [numbered] using found
  obtain ⟨-, rfl⟩ := List.getElem?_eq_some_iff.mp inside
  simp

/-- The constant that a source names; zero if it names none. -/
def pushed : Cell ⊕ Nat → Nat
  | .inl (.known v) => v
  | _ => 0

/-- The source of a cell, read off the cell, if the stack on entry was numbered. -/
def readOff (base : Nat) : Cell → Cell ⊕ Nat
  | .known v => if base < v then .inr (v - (base + 1)) else .inl (.known v)
  | .unknown _ => .inl .blank

/-- Of a cell that comes from a numbered stack, or is no larger than its numbers, only one thing can
be said. -/
theorem settle_eq_readOff {base size : Nat} (describes : Describes dests (numbered base size) c a)
    (small : pushed a ≤ base) : settle dests a = readOff base c := by
  match a with
  | .inr pos =>
      rw [getElem?_numbered describes, readOff, if_pos (by omega), Nat.add_sub_cancel_left]
      rfl
  | .inl (.unknown _) =>
      obtain ⟨remark, rfl⟩ := describes
      rfl
  | .inl (.known v) =>
      by_cases dest : v ∈ dests
      · obtain rfl : c = .known v := by simpa [Describes, dest] using describes
        change v ≤ base at small
        rw [readOff, if_neg (Nat.not_lt.mpr small), settle, constant, if_pos dest]
      · obtain ⟨remark, rfl⟩ : ∃ remark, c = .unknown remark := by
          simpa [Describes, dest] using describes
        rw [readOff, settle, constant, if_neg dest]

end Instruction

/-! ### Segments -/

namespace Segment

variable {s : Segment} {dests : List Nat} {a b : Cell ⊕ Nat}

/-- Where the cell on top of the stack at the end of the body comes from. -/
def source (s : Segment) : Cell ⊕ Nat := Instruction.sourceAll 0 s.body

/-- Every run of the body that leaves a cell on top leaves the one that is described. -/
def LeavesOnTop (s : Segment) (dests : List Nat) (a : Cell ⊕ Nat) : Prop :=
  ∀ (f g : Frame) (c : Cell) (rest : List Cell),
    Instruction.runAll dests s.body f = .running g → g.stack = c :: rest →
      Instruction.Describes dests f.stack c a

theorem leavesOnTop_source (encoded : ∀ i ∈ s.body, i.IsEncoded) :
    s.LeavesOnTop dests s.source := by
  intro f g c rest run top
  apply Instruction.describes_of_placed
  rw [source, ← Instruction.getElem?_runAll encoded run 0, top]
  rfl

theorem LeavesOnTop.congr (leaves : s.LeavesOnTop dests a)
    (same : Instruction.settle dests b = Instruction.settle dests a) : s.LeavesOnTop dests b := by
  intro f g c rest run top
  rw [← Instruction.describes_settle, same, Instruction.describes_settle]
  exact leaves f g c rest run top

/-- Two descriptions of the same cell that are right for all runs say the same. A run that tells
them apart starts on a numbered stack that is large enough to leave a cell. -/
theorem LeavesOnTop.settle_eq (encoded : ∀ i ∈ s.body, i.IsEncoded)
    (straight : ∀ i ∈ s.body, i.isTerminal = false) (ha : s.LeavesOnTop dests a)
    (hb : s.LeavesOnTop dests b) : Instruction.settle dests a = Instruction.settle dests b := by
  let base := max (Instruction.pushed a) (Instruction.pushed b)
  let f : Frame := ⟨s.start, Instruction.numbered base (Instruction.operandsNeeded 1 s.body)⟩
  have operands : Instruction.operandsNeeded 1 s.body ≤ f.size := by
    simp [f, Frame.size, Instruction.numbered]
  obtain ⟨g, run, some⟩ : ∃ g, Instruction.runAll dests s.body f = .running g ∧ 1 ≤ g.size :=
    Instruction.exists_runAll encoded straight operands
  obtain ⟨c, rest, top⟩ : ∃ c rest, g.stack = c :: rest :=
    List.exists_cons_of_length_pos some
  have left := Instruction.settle_eq_readOff (ha f g c rest run top) (Nat.le_max_left _ _)
  have right := Instruction.settle_eq_readOff (hb f g c rest run top) (Nat.le_max_right _ _)
  exact left.trans right.symm

end Segment

namespace Program

/-- Every run of the body of a segment leaves on top the cell from `Segment.source`. What
`Segment.target` says about that cell is right for all runs exactly if it says the same, and so it
is if no instruction of the body calls or creates. -/
theorem target_sound_iff (code : List Char) {s : Segment} (mem : s ∈ (ofCode code).segments) :
    s.LeavesOnTop (ofCode code).dests s.source ∧
      (s.LeavesOnTop (ofCode code).dests s.target ↔
        Instruction.settle (ofCode code).dests s.target =
          Instruction.settle (ofCode code).dests s.source) ∧
      ((∀ i ∈ s.body, i.op.callsOut = false) →
        s.LeavesOnTop (ofCode code).dests s.target) := by
  have wf := wellFormed_ofCode code
  have encoded := (wf.cut s mem).encoded_body (wf.read s mem)
  have source : s.LeavesOnTop (ofCode code).dests s.source := Segment.leavesOnTop_source encoded
  refine ⟨source, ⟨?_, source.congr⟩, ?_⟩
  · intro target
    exact target.settle_eq encoded (wf.cut s mem).straight source
  · intro stays
    have same : s.target = s.source := (Instruction.sourceAll_eq_originAll stays).symm
    rwa [same]

/-- An element is copied, an account is created from three constants, and its address is exchanged
with the copy. One way back goes below the copy and the other through it, and both end with the
element. -/
theorem target_sound_iff_of_copy :
    let p := ofCode "80600060006000f09056".toList
    ∃ s ∈ p.segments, s.isJump = true ∧ s.target = .inr 0 ∧ s.source = .inr 0 ∧
      s.LeavesOnTop p.dests s.target := by
  intro p
  obtain ⟨s, mem, jump, target, source⟩ : ∃ s ∈ p.segments,
      s.isJump = true ∧ s.target = .inr 0 ∧ s.source = .inr 0 := by decide +kernel
  obtain ⟨-, sound, -⟩ := target_sound_iff _ mem
  exact ⟨s, mem, jump, target, source, sound.mpr (by rw [target, source])⟩

/-- The address of the only destination is pushed and an account is created above it. The way back
goes on one position too deep, past the instruction that has pushed the address, to the stack on
entry. -/
theorem target_astray_below_result :
    let p := ofCode "600b600060006000f090565b".toList
    ∃ s ∈ p.segments, s.isJump = true ∧ s.target = .inr 0 ∧
      Instruction.runAll p.dests s.body ⟨0, []⟩ = .running ⟨10, [.known 11, .blank]⟩ ∧
      ¬ s.LeavesOnTop p.dests s.target := by
  intro p
  obtain ⟨s, mem, jump, target, run⟩ : ∃ s ∈ p.segments, s.isJump = true ∧ s.target = .inr 0 ∧
      Instruction.runAll p.dests s.body ⟨0, []⟩ = .running ⟨10, [.known 11, .blank]⟩ := by
    decide +kernel
  refine ⟨s, mem, jump, target, run, fun sound => ?_⟩
  have found := sound _ _ _ _ run rfl
  rw [target] at found
  cases found

end Program

end EvmFlow
