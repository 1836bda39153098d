import EvmFlow.Proofs.Condition
import EvmFlow.Proofs.Execution

/-!
# Weakest preconditions of instructions

An instruction carries a condition backwards entry by entry: what an entry asks for after the
instruction is asked of the element that `Instruction.origin` names (`holds_wpreEntries`). Since
the new stack holds just what `origin` names, the condition before the instruction holds exactly
when the one after it does (`holds_step`), and so it is for lists of instructions. Both halves
need the tracked positions to be distinct, which every instruction preserves (`narrows_wpre`).
-/

namespace EvmFlow.Instruction

variable {i : Instruction} {dests : List Nat} {exit : Nat} {f g : Frame}
variable {es : List (Nat × Nat)} {stack : List Cell} {c : Condition} {k v : Nat}

open Condition

/-- What a demand for a known value asks of the stack before an instruction, by the origin of the
element of which it is made. -/
def Asks (stack : List Cell) (v : Nat) : Cell ⊕ Nat → Prop
  | .inr pos => stack[pos]? = some (.known v)
  | .inl c => c = .known v

/-- A constant stays known if it is a jump destination, so for these values nothing is lost. -/
theorem placed_eq_known_iff (hv : v ∈ dests) {source : Cell ⊕ Nat} :
    placed dests stack source = some (.known v) ↔ Asks stack v source := by
  match source with
  | .inr pos => rfl
  | .inl (.unknown _) => simp [placed, Asks, Cell.blank]
  | .inl (.known u) =>
      simp only [placed, Asks, constant, Option.some.injEq, Cell.known.injEq]
      split
      · simp
      · rename_i absent
        simp only [Cell.blank, reduceCtorEq, false_iff]
        rintro rfl
        exact absent hv

/-! ### One instruction -/

theorem holds_wprePush (nodup : (es.map Prod.fst).Nodup) :
    (wprePush v es).holds stack = true ↔
      ∀ e ∈ es, Asks stack e.2 (if e.1 = 0 then .inl (.known v) else .inr (e.1 - 1)) := by
  unfold wprePush
  cases found : valueAt? es 0 with
  | none =>
      have absent := valueAt?_eq_none.mp found
      simp only [holds_relocate]
      refine forall₂_congr fun e he => ?_
      rw [if_neg (absent e he), Asks]
  | some u =>
      simp only
      by_cases same : u = v
      · -- The pushed constant is the one asked for, and only the other entries remain.
        subst same
        rw [if_pos rfl]
        trans ∀ e ∈ untrack 0 es, stack[e.1 - 1]? = some (.known e.2)
        · cases untrack 0 es <;> simp [holds_relocate]
        rw [forall_mem_untrack nodup]
        refine forall₂_congr fun e he => ?_
        by_cases top : e.1 = 0
        · simp [top, Asks, value_eq_of_valueAt? nodup found he top]
        · simp [top, Asks]
      · rw [if_neg same]
        refine ⟨fun h => by simp at h, fun all => ?_⟩
        have entry := all _ (mem_of_valueAt? found)
        rw [if_pos rfl, Asks, Cell.known.injEq] at entry
        exact absurd entry.symm same

theorem holds_wpreDup (hk : 1 ≤ k) (nodup : (es.map Prod.fst).Nodup) :
    (wpreDup k es).holds stack = true ↔
      ∀ e ∈ es, stack[if e.1 = 0 then k - 1 else e.1 - 1]? = some (.known e.2) := by
  have positive : k ≠ 0 := Nat.ne_of_gt hk
  unfold wpreDup
  cases found : valueAt? es 0 with
  | none =>
      have absent := valueAt?_eq_none.mp found
      simp only [holds_relocate]
      refine forall₂_congr fun e he => ?_
      rw [if_neg (absent e he)]
  | some u =>
      cases copied : valueAt? es k with
      | none => simp only [holds_relocate]
      | some w =>
          have source := mem_of_valueAt? copied
          simp only
          by_cases same : u = w
          · -- The copy and the element that is copied are asked for the same value.
            subst same
            rw [if_pos rfl, holds_relocate, forall_mem_untrack nodup]
            constructor
            · intro all e he
              by_cases top : e.1 = 0
              · rw [if_pos top, value_eq_of_valueAt? nodup found he top]
                exact all _ source positive
              · rw [if_neg top]
                exact all e he top
            · intro all e he below
              have entry := all e he
              rwa [if_neg below] at entry
          · rw [if_neg same]
            refine ⟨fun h => by simp at h, fun all => ?_⟩
            have top := all _ (mem_of_valueAt? found)
            have below := all _ source
            rw [if_pos rfl] at top
            rw [if_neg positive, top, Option.some.injEq, Cell.known.injEq] at below
            exact absurd below same

/-- What is pushed is what the argument writes. -/
theorem pushedWord_eq (i : Instruction) : i.pushedWord = i.argValue := by
  rw [pushedWord, argValue, argValue?, wordDigits]
  cases Word.u256.read? (List.replicate (64 - i.arg.length) '0' ++ i.arg) with
  | error fault => rfl
  | ok value => cases value <;> rfl

/-- The families of opcodes of the table that exchange operands for a result carry conditions back
by one rule: nothing can be asked of the result, and the other positions were further down. -/
theorem IsEncoded.wpreEntries_eq (encoded : i.IsEncoded) (jump : i.op.kind ≠ .jump)
    (stack : i.op.kind ≠ .stack) (es : List (Nat × Nat)) :
    i.wpreEntries es =
      if i.op.pushes ≠ 0 ∧ tracks es 0 then Condition.never
      else .tracked (relocate (below i.op) es) := by
  have valid := encoded.isValid
  have result := encoded.pushes_eq_one
  -- As for `origin_eq`, by the numbers of operands and results that each family has in the table.
  cases kind : i.op.kind <;>
    simp only [Opcode.isValid, kind, decide_eq_true_eq] at valid jump stack result <;>
    simp only [wpreEntries, unlessTop, kind] <;> split_ifs <;> simp_all [relocate, below]

/-- An operation has nothing known to offer for the top; its other elements were further down. -/
theorem holds_wpreExchange {o : Opcode} {text : String} :
    (if o.pushes ≠ 0 ∧ tracks es 0 then Condition.never
      else .tracked (relocate (below o) es)).holds stack = true ↔
      ∀ e ∈ es, Asks stack e.2
        (if o.pushes ≠ 0 ∧ e.1 = 0 then .inl (.unknown text) else .inr (below o e.1)) := by
  by_cases impossible : o.pushes ≠ 0 ∧ tracks es 0 = true
  · rw [if_pos impossible]
    refine ⟨fun h => by simp at h, fun all => ?_⟩
    obtain ⟨v, found⟩ := Option.isSome_iff_exists.mp impossible.2
    have top := all _ (mem_of_valueAt? found)
    rw [if_pos ⟨impossible.1, rfl⟩] at top
    cases top
  · rw [if_neg impossible, holds_relocate]
    refine forall₂_congr fun e he => ?_
    rw [if_neg, Asks]
    rintro ⟨result, top⟩
    have absent := tracks_eq_false.mp (Bool.eq_false_iff.mpr fun h => impossible ⟨result, h⟩)
    exact absent e he top

/-- The condition before an instruction asks, entry by entry, for what the origins have to be. -/
theorem holds_wpreEntries (encoded : i.IsEncoded) (valid : (Condition.tracked es).isValid = true) :
    (i.wpreEntries es).holds stack = true ↔ ∀ e ∈ es, Asks stack e.2 (i.origin e.1) := by
  obtain ⟨nonempty, nodup⟩ := isValid_tracked.mp valid
  cases kind : i.op.kind with
  | jump =>
      simp only [wpreEntries, origin, kind]
      split
      · exact holds_tracked
      split
      · exact holds_relocate
      · -- Nothing can be asked of an opcode that is not carried out.
        obtain ⟨e, he⟩ := List.exists_mem_of_ne_nil es nonempty
        refine ⟨fun h => by simp at h, fun all => ?_⟩
        cases all e he
  | stack =>
      simp only [wpreEntries, origin, kind, pushedWord_eq]
      split
      · exact holds_wprePush nodup
      split
      · rw [holds_wpreDup (by omega) nodup]
        simp only [Nat.sub_sub]
        rfl
      split
      · exact holds_relocate
      · exact holds_relocate
  | _ =>
      have jump : i.op.kind ≠ .jump := by simp [kind]
      have stack : i.op.kind ≠ .stack := by simp [kind]
      simp only [encoded.wpreEntries_eq jump stack, encoded.origin_eq jump stack]
      exact holds_wpreExchange

/-- A condition holds after an instruction exactly when the condition that the instruction makes of
it holds before. -/
theorem holds_step (encoded : i.IsEncoded) (stays : i.op.callsOut = false)
    (run : i.step dests exit f = .running g) (valid : c.isValid = true)
    (within : c.Within dests) :
    c.holds g.stack = true ↔ (i.wpre c).holds f.stack = true := by
  cases c with
  | always => rfl
  | never => rfl
  | tracked es =>
      rw [wpre, holds_wpreEntries encoded valid, holds_tracked]
      refine forall₂_congr fun e he => ?_
      rw [getElem?_step encoded stays run, placed_eq_known_iff (within e he)]

/-! ### Validity -/

theorem narrows_lower {fs : List (Nat × Nat)} (valid : (Condition.tracked es).isValid = true)
    (sub : fs.Sublist es) (nonempty : fs ≠ []) (lower : ∀ e ∈ fs, e.1 ≠ 0) :
    (Condition.tracked (relocate (· - 1) fs)).Narrows (.tracked es) := by
  refine .relocate valid sub nonempty ?_
  intro e he e' he' same
  have := lower e he
  have := lower e' he'
  omega

theorem narrows_wprePush (valid : (Condition.tracked es).isValid = true) :
    (wprePush v es).Narrows (.tracked es) := by
  obtain ⟨nonempty, nodup⟩ := isValid_tracked.mp valid
  unfold wprePush
  cases found : valueAt? es 0 with
  | none => exact narrows_lower valid (List.Sublist.refl es) nonempty (valueAt?_eq_none.mp found)
  | some u =>
      simp only
      split
      · cases rest : untrack 0 es with
        | nil => exact .always _
        | cons e rest' =>
            refine narrows_lower valid (rest ▸ untrack_sublist nodup) (List.cons_ne_nil _ _) ?_
            intro e' he'
            rw [← rest] at he'
            exact ((mem_untrack nodup).mp he').2
      · exact .never _

theorem narrows_wpreDup (hk : 1 ≤ k) (valid : (Condition.tracked es).isValid = true) :
    (wpreDup k es).Narrows (.tracked es) := by
  obtain ⟨nonempty, nodup⟩ := isValid_tracked.mp valid
  unfold wpreDup
  cases found : valueAt? es 0 with
  | none => exact narrows_lower valid (List.Sublist.refl es) nonempty (valueAt?_eq_none.mp found)
  | some u =>
      cases copied : valueAt? es k with
      | none =>
          -- The copy takes the place of the element that is copied, where nothing is tracked.
          have free := valueAt?_eq_none.mp copied
          refine .relocate valid (List.Sublist.refl es) nonempty ?_
          intro e he e' he' same
          have := free e he
          have := free e' he'
          split at same <;> split at same <;> omega
      | some w =>
          simp only
          split
          · have source : (k, w) ∈ untrack 0 es :=
              (mem_untrack nodup).mpr ⟨mem_of_valueAt? copied, Nat.ne_of_gt hk⟩
            exact narrows_lower valid (untrack_sublist nodup) (List.ne_nil_of_mem source)
              fun e he => ((mem_untrack nodup).mp he).2
          · exact .never _

theorem below_injective {o : Opcode} (few : o.pushes ≤ 1) {p q : Nat}
    (lower : o.pushes = 0 ∨ p ≠ 0 ∧ q ≠ 0) (same : below o p = below o q) : p = q := by
  unfold below at same
  split at same <;> omega

/-- What an instruction makes of a valid condition is valid, and no larger. -/
theorem narrows_wpre (encoded : i.IsEncoded) (valid : c.isValid = true) :
    (i.wpre c).Narrows c := by
  match c, valid with
  | .always, valid => exact .refl valid
  | .never, valid => exact .refl valid
  | .tracked es, valid =>
      obtain ⟨nonempty, nodup⟩ := isValid_tracked.mp valid
      have all : ∀ {move : Nat → Nat},
          (∀ e ∈ es, ∀ e' ∈ es, move e.1 = move e'.1 → e.1 = e'.1) →
          (Condition.tracked (relocate move es)).Narrows (.tracked es) :=
        fun apart => .relocate valid (List.Sublist.refl es) nonempty apart
      rw [wpre]
      cases kind : i.op.kind with
      | jump =>
          simp only [wpreEntries, kind]
          split
          · exact .refl valid
          split
          · refine all fun e _ e' _ same => ?_
            exact Nat.add_right_cancel same
          · exact .never _
      | stack =>
          simp only [wpreEntries, kind]
          split
          · exact narrows_wprePush valid
          split
          · exact narrows_wpreDup (by omega) valid
          split
          · refine all fun e _ e' _ same => ?_
            split_ifs at same <;> omega
          · refine all fun e _ e' _ same => ?_
            exact Nat.add_right_cancel same
      | _ =>
          rw [encoded.wpreEntries_eq (by simp [kind]) (by simp [kind])]
          split
          · exact .never _
          · rename_i possible
            refine all fun e he e' he' same => below_injective encoded.pushes_le ?_ same
            by_cases result : i.op.pushes = 0
            · exact .inl result
            · have untracked := tracks_eq_false.mp
                (Bool.eq_false_iff.mpr fun h => possible ⟨result, h⟩)
              exact .inr ⟨untracked e he, untracked e' he'⟩

/-! ### Lists of instructions -/

theorem narrows_wpreAll {is : List Instruction} (encoded : ∀ i ∈ is, i.IsEncoded)
    (valid : c.isValid = true) : (wpreAll c is).Narrows c := by
  induction is with
  | nil => exact .refl valid
  | cons i rest ih =>
      obtain ⟨first, others⟩ := List.forall_mem_cons.mp encoded
      have behind := ih others
      exact (narrows_wpre first behind.isValid).trans behind

theorem holds_runAll {is : List Instruction} (encoded : ∀ i ∈ is, i.IsEncoded)
    (stays : ∀ i ∈ is, i.op.callsOut = false) (run : runAll dests is f = .running g)
    (valid : c.isValid = true) (within : c.Within dests) :
    c.holds g.stack = true ↔ (wpreAll c is).holds f.stack = true := by
  induction is generalizing f with
  | nil =>
      cases run
      rfl
  | cons i rest ih =>
      obtain ⟨h, step, run⟩ := runAll_cons run
      obtain ⟨first, others⟩ := List.forall_mem_cons.mp encoded
      obtain ⟨first', others'⟩ := List.forall_mem_cons.mp stays
      have behind := narrows_wpreAll others valid
      rw [ih others others' run]
      exact holds_step first first' step behind.isValid (behind.within dests within)

/-- A condition holds after a list of instructions exactly when its precondition holds before, if
the tracked values are jump destinations and no instruction calls or creates. Whatever the
instructions are, the precondition of a valid condition is valid and tracks no more positions. -/
theorem wpreAll_exact (is : List Instruction) (encoded : ∀ i ∈ is, i.IsEncoded) (c : Condition)
    (valid : c.isValid = true) :
    ((wpreAll c is).isValid = true ∧ (wpreAll c is).size ≤ c.size) ∧
      ∀ dests : List Nat, (∀ i ∈ is, i.op.callsOut = false) → c.Within dests →
        ∀ f g : Frame, runAll dests is f = .running g →
          (c.holds g.stack = true ↔ (wpreAll c is).holds f.stack = true) := by
  have narrows := narrows_wpreAll encoded valid
  refine ⟨⟨narrows.isValid, narrows.size_le⟩, ?_⟩
  intro dests stays within f g run
  exact holds_runAll encoded stays run valid within

/-- A constant is pushed, the element below it is copied, and the two are exchanged. What is asked
of both is asked of the element that was copied. -/
theorem wpreAll_exact_of_copy :
    let is : List Instruction :=
      [⟨.ofByte 0x60, "05".toList, 0⟩, ⟨.ofByte 0x81, [], 2⟩, ⟨.ofByte 0x90, [], 3⟩]
    let c : Condition := .tracked [(0, 5), (1, 5)]
    let f : Frame := ⟨0, [.known 5]⟩
    let g : Frame := ⟨4, [.known 5, .known 5, .known 5]⟩
    (∀ i ∈ is, i.IsEncoded) ∧ (∀ i ∈ is, i.op.callsOut = false) ∧ c.isValid = true ∧
      c.Within [5] ∧ runAll [5] is f = .running g ∧ wpreAll c is = .tracked [(0, 5)] ∧
      (c.holds g.stack = true ↔ (wpreAll c is).holds f.stack = true) := by
  intro is c f g
  have encoded : ∀ i ∈ is, i.IsEncoded := by
    simp only [is, List.forall_mem_cons, List.not_mem_nil, false_implies, implies_true, and_true]
    exact ⟨⟨⟨0x60, rfl⟩, by decide, by decide⟩, ⟨⟨0x81, rfl⟩, by decide, by decide⟩,
      ⟨⟨0x90, rfl⟩, by decide, by decide⟩⟩
  have stays : ∀ i ∈ is, i.op.callsOut = false := by decide
  have within : c.Within [5] := by simp [c, Condition.Within]
  have run : runAll [5] is f = .running g := by decide
  exact ⟨encoded, stays, by decide, within, run, by decide,
    (wpreAll_exact is encoded c (by decide)).2 [5] stays within f g run⟩

end EvmFlow.Instruction
