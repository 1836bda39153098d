import EvmFlow.Proofs.HexText
import EvmFlow.Proofs.PathPrecondition

/-!
# A single tracked position

There are two ways backwards through instructions. `Instruction.originAll` follows one element of
the stack to where it was, or to the instruction that put it there. `Instruction.wpreAll` carries a
condition back, whatever it tracks. For a condition that tracks one position the ways are the same:
the position moves to where its element was, and once an instruction has put the element there, it
is decided whether the condition holds (`Condition.ofOrigin`).

The target of a jump is such an element. So what is said about where a jump leads, and the condition
that it leads to an address, say the same.
-/

namespace EvmFlow

/-- The condition that an element has a given value, by the origin of the element. -/
def Condition.ofOrigin (v : Nat) : Cell ⊕ Nat → Condition
  | .inr pos => .tracked [(pos, v)]
  | .inl (.known u) => if u = v then .always else .never
  | .inl (.unknown _) => .never

namespace Instruction

variable {i : Instruction} {is : List Instruction} {c : Condition} {k u v pos : Nat}

open Condition

/-! ### One instruction -/

theorem valueAt?_singleton :
    valueAt? [(pos, v)] k = if pos = k then some v else none := by
  by_cases here : pos = k
  · simp [valueAt?, here]
  · rw [if_neg here, valueAt?_eq_none]
    simpa using here

theorem wprePush_singleton :
    wprePush u [(pos, v)] = ofOrigin v (if pos = 0 then .inl (.known u) else .inr (pos - 1)) := by
  rw [wprePush, valueAt?_singleton]
  by_cases top : pos = 0
  · simp [top, untrack, ofOrigin, eq_comm]
  · rw [if_neg top, if_neg top]
    rfl

theorem wpreDup_singleton (positive : k ≠ 0) :
    wpreDup k [(pos, v)] = ofOrigin v (.inr (if pos = 0 then k - 1 else pos - 1)) := by
  rw [wpreDup, valueAt?_singleton, valueAt?_singleton]
  by_cases top : pos = 0
  · simp [top, positive.symm, relocate, ofOrigin]
  · rw [if_neg top, if_neg top]
    rfl

/-- Nothing can be asked of the top after it was computed, and another position moves. -/
theorem unlessTop_singleton (move : Nat → Nat) :
    unlessTop [(pos, v)] (.tracked (relocate move [(pos, v)])) =
      ofOrigin v (i.underResult pos (move pos)) := by
  rw [unlessTop, tracks, valueAt?_singleton, underResult]
  by_cases top : pos = 0
  · simp [top, ofOrigin]
  · simp [top, ofOrigin, relocate]

/-- An instruction carries a single tracked position to the origin of its element. The two rules are
compared family by family. -/
theorem wpreEntries_singleton (i : Instruction) (pos v : Nat) :
    i.wpreEntries [(pos, v)] = ofOrigin v (i.origin pos) := by
  cases kind : i.op.kind with
  | arithmetic | keccak | comparison | bitwise | run =>
      simp only [wpreEntries, origin, kind]
      exact unlessTop_singleton _
  | environment =>
      simp only [wpreEntries, origin, kind]
      split
      · exact unlessTop_singleton (· - 1)
      split
      · exact unlessTop_singleton id
      · rfl
  | memory | storage =>
      simp only [wpreEntries, origin, kind]
      split
      · rfl
      · exact unlessTop_singleton id
  | log =>
      simp only [wpreEntries, origin, kind]
      rfl
  | system =>
      simp only [wpreEntries, origin, kind]
      split
      · rfl
      · exact unlessTop_singleton (· + i.op.pops)
  | jump =>
      simp only [wpreEntries, origin, kind]
      split
      · rfl
      split <;> rfl
  | stack =>
      simp only [wpreEntries, origin, kind, pushedWord_eq]
      split
      · exact wprePush_singleton
      split
      · rw [wpreDup_singleton (by omega)]
        simp only [Nat.sub_sub]
      split <;> rfl

/-! ### Lists of instructions -/

/-- A condition that is decided stays so, as an origin that is found does. -/
theorem wpreAll_singleton (is : List Instruction) (pos v : Nat) :
    wpreAll (.tracked [(pos, v)]) is = ofOrigin v (originAll pos is) := by
  induction is with
  | nil => rfl
  | cons i rest ih =>
      rw [wpreAll, originAll, ih]
      cases originAll pos rest with
      | inr q => exact wpreEntries_singleton i q v
      | inl cell =>
          cases cell with
          | unknown _ => rfl
          | known u => by_cases same : u = v <;> simp [ofOrigin, same, wpre]

namespace IsEncoded

/-- The argument of an instruction of the table is a number. -/
theorem argValue?_eq (encoded : i.IsEncoded) : i.argValue? = .ok i.argValue := by
  have zeros : Hex.isText (List.replicate (64 - i.arg.length) '0') = true :=
    List.all_eq_true.mpr fun c zero => by rw [List.eq_of_mem_replicate zero]; rfl
  have digits : Hex.isText i.wordDigits = true := by
    rw [wordDigits, Hex.isText, List.all_append, Bool.and_eq_true]
    exact ⟨zeros, encoded.hex⟩
  have long : 64 ≤ i.wordDigits.length := by
    rw [wordDigits, List.length_append, List.length_replicate]
    omega
  have front := Hex.isText_of_subset digits (List.take_subset 64 _)
  rw [← Hex.isSome_valueFrom? 0, ← Hex.value?] at front
  obtain ⟨n, value⟩ := Option.isSome_iff_exists.mp front
  have read : i.argValue? = .ok n := by
    rw [argValue?, Hex.read?_u256, Hex.read?_of_le long, value]
    rfl
  rw [argValue, read]
  rfl

theorem origin?_eq (encoded : i.IsEncoded) (pos : Nat) : i.origin? pos = .ok (i.origin pos) := by
  rw [origin?, encoded.argValue?_eq]
  split <;> rfl

theorem wpre?_eq (encoded : i.IsEncoded) (es : List (Nat × Nat)) :
    i.wpre? (.tracked es) = .ok (i.wpre (.tracked es)) := by
  rw [wpre?, encoded.argValue?_eq]
  split <;> rfl

end IsEncoded

/-- Carrying a condition back through instructions of the table does not fault. -/
theorem exists_wpreTrace? (encoded : ∀ i ∈ is, i.IsEncoded) (c : Condition) :
    ∃ trace, wpreTrace? c is = .ok (trace, wpreAll c is) := by
  induction is with
  | nil => exact ⟨[], rfl⟩
  | cons i rest ih =>
      obtain ⟨first, others⟩ := List.forall_mem_cons.mp encoded
      obtain ⟨trace, before⟩ := ih others
      rw [wpreTrace?, wpreAll, before]
      cases wpreAll c rest with
      | always => exact ⟨trace, rfl⟩
      | never => exact ⟨trace, rfl⟩
      | tracked es =>
          refine ⟨trace ++ [i.wpre (.tracked es)], ?_⟩
          show (i.wpre? (.tracked es) >>= fun e => pure (trace ++ [e], e)) = _
          rw [first.wpre?_eq]
          rfl

end Instruction

/-- Following an element back and carrying a condition on it back agree. For every list of
instructions, what the one finds for a position decides what the other makes of the condition that
tracks this position alone; with instructions of the table neither of them faults. In particular
the target that is found for the jump of a segment decides the condition that the jump leads to an
address. -/
theorem wpre_determined_by_origin :
    (∀ (is : List Instruction) (pos v : Nat),
      Instruction.wpreAll (.tracked [(pos, v)]) is =
        Condition.ofOrigin v (Instruction.originAll pos is) ∧
      ((∀ i ∈ is, i.IsEncoded) →
        (∀ i ∈ is, ∀ q, i.origin? q = .ok (i.origin q)) ∧
        ∃ trace, Instruction.wpreTrace? (.tracked [(pos, v)]) is =
          .ok (trace, Condition.ofOrigin v (Instruction.originAll pos is)))) ∧
    ∀ (s : Segment) (exit address : Nat), exit < s.exits → s.jumpsBy exit = true →
      address < Word.count 256 →
      s.leadsTo address exit = Condition.ofOrigin address s.target := by
  constructor
  · intro is pos v
    have agree := Instruction.wpreAll_singleton is pos v
    refine ⟨agree, fun encoded => ⟨fun i hi => (encoded i hi).origin?_eq, ?_⟩⟩
    rw [← agree]
    exact Instruction.exists_wpreTrace? encoded _
  · intro s exit address inside jumps small
    rw [Segment.leadsTo_eq inside small, if_pos jumps]
    exact Instruction.wpreAll_singleton s.body 0 address

/-- The top is the constant that was pushed, the third element was on top, and a conditional jump
takes its target from the stack on entry. -/
theorem wpre_determined_by_origin_of_copy :
    let is : List Instruction :=
      [⟨.ofByte 0x60, "05".toList, 0⟩, ⟨.ofByte 0x81, [], 2⟩, ⟨.ofByte 0x90, [], 3⟩]
    let s := Segment.build [⟨.ofByte 0x5b, [], 0⟩, ⟨.ofByte 0x80, [], 1⟩] ⟨.ofByte 0x57, [], 2⟩
    (∀ i ∈ is, i.IsEncoded) ∧
      Instruction.originAll 0 is = .inl (.known 5) ∧ Instruction.originAll 2 is = .inr 0 ∧
      (∃ trace, Instruction.wpreTrace? (.tracked [(0, 6)]) is = .ok (trace, .never)) ∧
      (∃ trace, Instruction.wpreTrace? (.tracked [(2, 6)]) is = .ok (trace, .tracked [(0, 6)])) ∧
      1 < s.exits ∧ s.jumpsBy 1 = true ∧ 9 < Word.count 256 ∧
      s.target = .inr 0 ∧ s.leadsTo 9 1 = .tracked [(0, 9)] := by
  intro is s
  have encoded : ∀ i ∈ is, i.IsEncoded := by
    simp only [is, List.forall_mem_cons, List.not_mem_nil, false_implies, implies_true, and_true]
    exact ⟨⟨⟨0x60, rfl⟩, by decide, by decide⟩, ⟨⟨0x81, rfl⟩, by decide, by decide⟩,
      ⟨⟨0x90, rfl⟩, by decide, by decide⟩⟩
  have small : 9 < Word.count 256 := by decide
  obtain ⟨lists, jumps⟩ := wpre_determined_by_origin
  exact ⟨encoded, by decide, by decide, ((lists is 0 6).2 encoded).2, ((lists is 2 6).2 encoded).2,
    by decide, by decide, small, by decide, jumps s 1 9 (by decide) (by decide) small⟩

end EvmFlow
