import EvmFlow.Proofs.Condition

/-!
# How far joining conditions is conjunction

Joining goes through the entries of the second condition. An entry at a position that the first
condition does not track is added. At a position that is tracked already only the last entry is
compared; those before it are passed over, whatever value they ask for.

So a stack that satisfies both conditions satisfies the joined one, and a stack that satisfies the
joined one satisfies the first condition. It need not satisfy the second one: if an entry that was
passed over asks for another value than the first condition does, no stack satisfies both, and yet
some stack satisfies the joined condition. The only thing that rules this out is that the last entry
contradicts the first condition too.
-/

namespace EvmFlow.Condition

variable {es fs front : List (Nat × Nat)} {f last : Nat × Nat} {c d : Condition}
variable {stack : List Cell} {pos : Nat}

/-- The entries ask for another value at the position of an entry than it does. -/
def Clashes (es : List (Nat × Nat)) (f : Nat × Nat) : Prop := ∃ e ∈ es, e.1 = f.1 ∧ e.2 ≠ f.2

/-- The second condition contradicts the first one, but not by its last entry. -/
def Overlooks : Condition → Condition → Prop
  | tracked es, tracked fs => (∃ f ∈ fs, Clashes es f) ∧ ∀ f ∈ fs.getLast?, ¬ Clashes es f
  | _, _ => False

theorem tracks_iff : tracks es pos = true ↔ ∃ e ∈ es, e.1 = pos := by
  rw [← Bool.not_eq_false, tracks_eq_false]
  simp only [ne_eq, not_forall, not_not, exists_prop]

/-- No stack satisfies entries that clash. -/
theorem not_clashes_of_holds (holds : holds stack (.tracked es) = true)
    (known : stack[f.1]? = some (.known f.2)) : ¬ Clashes es f := by
  rintro ⟨e, mem, place, differs⟩
  have other := holds_tracked.mp holds e mem
  rw [place, known, Option.some.injEq, Cell.known.injEq] at other
  exact differs other.symm

/-! ### Entries that are passed over -/

theorem merge_cons (more : fs ≠ []) :
    merge es (f :: fs) = if tracks es f.1 then merge es fs else merge (es ++ [f]) fs := by
  cases fs with
  | nil => exact absurd rfl more
  | cons g rest =>
      rw [merge]
      exact List.cons_ne_nil g rest

/-- Of the entries before the last one only those at new positions are added. -/
theorem merge_concat (distinct : ((front ++ [last]).map Prod.fst).Nodup) :
    merge es (front ++ [last]) =
      merge (es ++ front.filter fun f => !tracks es f.1) [last] := by
  induction front generalizing es with
  | nil => simp
  | cons f rest ih =>
      rw [List.cons_append, List.map_cons, List.nodup_cons] at distinct
      obtain ⟨fresh, distinct⟩ := distinct
      rw [List.cons_append, merge_cons (by simp)]
      cases known : tracks es f.1 with
      | true =>
          rw [if_pos rfl, ih distinct, List.filter_cons_of_neg (by simp [known])]
      | false =>
          -- The entries behind have other positions, so they are as new as they were before.
          have same : ∀ g ∈ rest, (!tracks (es ++ [f]) g.1) = !tracks es g.1 := by
            intro g mem
            have apart : f.1 ≠ g.1 := fun place =>
              fresh (place ▸ List.mem_map_of_mem (List.mem_append_left _ mem))
            rw [Bool.not_inj_iff, Bool.eq_iff_iff, tracks_iff, tracks_iff]
            simp [or_and_right, exists_or, apart]
          rw [if_neg (by simp), ih distinct, List.filter_congr same,
            List.filter_cons_of_pos (by simp [known]), List.append_assoc]
          rfl

/-- What the joined condition asks of a stack. -/
theorem holds_merge_concat (distinct : ((front ++ [last]).map Prod.fst).Nodup) :
    holds stack (merge es (front ++ [last])) = true ↔
      holds stack (.tracked es) = true ∧
        (∀ f ∈ front, tracks es f.1 = false → stack[f.1]? = some (.known f.2)) ∧
        stack[last.1]? = some (.known last.2) := by
  have single : (Condition.tracked [last]).size ≤ 1 := Nat.le_refl 1
  have joined : ∀ gs, merge gs [last] = (tracked gs).meet (tracked [last]) := fun _ => rfl
  rw [merge_concat distinct, joined, holds_meet single]
  simp only [holds_tracked, List.forall_mem_append, List.forall_mem_singleton, List.mem_filter,
    Bool.not_eq_true', and_imp, and_assoc]

/-! ### Conjunction -/

/-- Joining gives an impossible condition only because of the last entry. -/
theorem merge_ne_never (distinct : ((front ++ [last]).map Prod.fst).Nodup)
    (agrees : ¬ Clashes es last) : merge es (front ++ [last]) ≠ never := by
  rw [merge_concat distinct, merge]
  split
  · rename_i v found
    rcases List.mem_append.mp (mem_of_valueAt? found) with old | new
    · have same : v = last.2 := by
        by_contra differs
        exact agrees ⟨_, old, rfl, differs⟩
      simp [same]
    · -- Two entries of the second condition would have one position.
      rw [List.map_append, List.map_singleton] at distinct
      have before : last.1 ∈ front.map Prod.fst :=
        List.mem_map.mpr ⟨_, (List.mem_filter.mp new).1, rfl⟩
      exact absurd rfl ((List.nodup_append.mp distinct).2.2 _ before _ (by simp))
  · simp

/-- For conditions that track positions: whether joining is conjunction on all stacks. -/
theorem holds_merge_iff (valid : (Condition.tracked es).isValid = true)
    (distinct : ((front ++ [last]).map Prod.fst).Nodup) :
    (∀ stack, holds stack (merge es (front ++ [last])) = true ↔
      holds stack (.tracked es) = true ∧ holds stack (.tracked (front ++ [last])) = true) ↔
        ¬ Overlooks (.tracked es) (.tracked (front ++ [last])) := by
  constructor
  · rintro conjunction ⟨⟨f, mem, clash⟩, agrees⟩
    -- The joined condition can be satisfied, and both conditions together cannot.
    have possible := merge_ne_never distinct (agrees last List.getLast?_concat)
    have joined := holds_stack (isValid_merge valid) possible
    obtain ⟨first, second⟩ := (conjunction _).mp joined
    exact not_clashes_of_holds first (holds_tracked.mp second f mem) clash
  · intro heeded stack
    rw [holds_merge_concat distinct, and_congr_right_iff]
    intro first
    rw [holds_tracked, List.forall_mem_append, List.forall_mem_singleton, and_congr_left_iff]
    intro compared
    have none : ∀ f ∈ front, ¬ Clashes es f := by
      intro f mem clash
      refine heeded ⟨⟨f, List.mem_append_left _ mem, clash⟩, fun g final => ?_⟩
      obtain rfl : last = g := by simpa using final
      exact not_clashes_of_holds first compared
    constructor
    · intro added f mem
      cases known : tracks es f.1 with
      | false => exact added f mem known
      | true =>
          obtain ⟨e, there, place⟩ := tracks_iff.mp known
          have same : e.2 = f.2 := by
            by_contra differs
            exact none f mem ⟨e, there, place, differs⟩
          rw [← place, ← same]
          exact holds_tracked.mp first e there
    · intro all f mem _
      exact all f mem

/-- Let two conditions be valid. A stack that satisfies both satisfies the joined condition, and one
that satisfies the joined condition satisfies the first. For all stacks the joined condition is the
conjunction of the two exactly if no contradiction is overlooked. -/
theorem meet_exact_iff (hc : c.isValid = true) (hd : d.isValid = true) :
    (∀ stack, holds stack c = true → holds stack d = true → holds stack (c.meet d) = true) ∧
      (∀ stack, holds stack (c.meet d) = true → holds stack c = true) ∧
      ((∀ stack, holds stack (c.meet d) = true ↔ holds stack c = true ∧ holds stack d = true) ↔
        ¬ Overlooks c d) := by
  cases c with
  | never => cases d <;> simp [meet, Overlooks]
  | always => cases d <;> simp [meet, Overlooks]
  | tracked es =>
      cases d with
      | never => simp [meet, Overlooks]
      | always => simp [meet, Overlooks]
      | tracked fs =>
          obtain ⟨nonempty, distinct⟩ := isValid_tracked.mp hd
          obtain ⟨front, last, rfl⟩ : ∃ front last, fs = front ++ [last] :=
            ⟨_, _, (List.dropLast_append_getLast nonempty).symm⟩
          refine ⟨fun stack first second => ?_, fun stack joined => ?_, holds_merge_iff hc distinct⟩
          · rw [holds_tracked, List.forall_mem_append, List.forall_mem_singleton] at second
            exact (holds_merge_concat distinct).mpr
              ⟨first, fun f mem _ => second.1 f mem, second.2⟩
          · exact ((holds_merge_concat distinct).mp joined).1

/-- Two positions are shared, in another order and with the same values. -/
theorem meet_exact_iff_of_overlap :
    let c := tracked [(0, 1), (2, 5)]
    let d := tracked [(2, 5), (1, 3), (0, 1)]
    c.isValid = true ∧ d.isValid = true ∧ ¬ Overlooks c d ∧
      ∀ stack, holds stack (c.meet d) = true ↔ holds stack c = true ∧ holds stack d = true := by
  intro c d
  have hc : c.isValid = true := by decide
  have hd : d.isValid = true := by decide
  have heeded : ¬ Overlooks c d := by simp [c, d, Overlooks, Clashes]
  exact ⟨hc, hd, heeded, (meet_exact_iff hc hd).2.2.mpr heeded⟩

/-- At the top one condition asks for 1 and the other for 2, and a stack satisfies both joined. -/
theorem meet_holds_despite_clash :
    let c := tracked [(0, 1)]
    let d := tracked [(0, 2), (1, 3)]
    c.isValid = true ∧ d.isValid = true ∧
      holds [.known 1, .known 3] (c.meet d) = true ∧ holds [.known 1, .known 3] d = false := by
  decide

end EvmFlow.Condition
