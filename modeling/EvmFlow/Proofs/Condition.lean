import EvmFlow.Proofs.StackRefinement
import Mathlib.Data.List.Nodup

/-!
# What conditions say about stacks

A condition that tracks positions holds of a stack when every entry does, so the operations on
conditions are described by what becomes of their entries. Valid conditions track a position at
most once. Joining a condition with one of a single entry is exact: that entry is compared with
whatever is tracked at its position. The stack built for a condition is the least one that
satisfies it, and stacks that say more satisfy the same conditions.
-/

namespace EvmFlow.Condition

variable {es fs : List (Nat × Nat)} {c d : Condition} {stack : List Cell} {pos v : Nat}

/-- Every tracked value is one of the given ones. -/
def Within (values : List Nat) : Condition → Prop
  | tracked es => ∀ e ∈ es, e.2 ∈ values
  | _ => True

@[simp] theorem holds_always : holds stack .always = true := rfl

@[simp] theorem holds_never : holds stack .never = false := rfl

theorem holds_tracked :
    holds stack (.tracked es) = true ↔ ∀ e ∈ es, stack[e.1]? = some (.known e.2) := by
  simp [holds, holdsAt]

theorem isValid_tracked :
    (Condition.tracked es).isValid = true ↔ es ≠ [] ∧ (es.map Prod.fst).Nodup := by
  simp [isValid]

/-! ### Entries by position -/

theorem valueAt?_eq_none : valueAt? es pos = none ↔ ∀ e ∈ es, e.1 ≠ pos := by
  simp only [valueAt?, List.lookup_eq_none_iff, bne_iff_ne, ne_eq]
  exact ⟨fun h e he same => h e he same.symm, fun h e he same => h e he same.symm⟩

theorem tracks_eq_false : tracks es pos = false ↔ ∀ e ∈ es, e.1 ≠ pos := by
  rw [← valueAt?_eq_none, tracks, Option.isSome_eq_false_iff, Option.isNone_iff_eq_none]

theorem mem_of_valueAt? (h : valueAt? es pos = some v) : (pos, v) ∈ es := by
  obtain ⟨front, back, rfl, _⟩ := List.lookup_eq_some_iff.mp h
  simp

/-- Where positions are distinct, the value found at a position is that of every entry there. -/
theorem value_eq_of_valueAt? (nodup : (es.map Prod.fst).Nodup) (h : valueAt? es pos = some v)
    {e : Nat × Nat} (he : e ∈ es) (at_pos : e.1 = pos) : e.2 = v := by
  have same := List.inj_on_of_nodup_map nodup he (mem_of_valueAt? h) at_pos
  rw [same]

/-- Where positions are distinct, dropping the first entry of a position drops all of them. -/
theorem untrack_eq_filter (nodup : (es.map Prod.fst).Nodup) :
    untrack pos es = es.filter fun e => e.1 ≠ pos := by
  induction es with
  | nil => rfl
  | cons e rest ih =>
      obtain ⟨fresh, nodup⟩ := List.nodup_cons.mp nodup
      by_cases same : e.1 = pos
      · have others : ∀ e' ∈ rest, e'.1 ≠ pos := by
          rintro e' he' rfl
          exact fresh (same ▸ List.mem_map_of_mem he')
        rw [untrack, if_pos same, List.filter_cons_of_neg (by simpa using same)]
        exact (List.filter_eq_self.mpr fun e' he' => by simpa using others e' he').symm
      · rw [untrack, if_neg same, List.filter_cons_of_pos (by simpa using same), ih nodup]

theorem mem_untrack (nodup : (es.map Prod.fst).Nodup) {e : Nat × Nat} :
    e ∈ untrack pos es ↔ e ∈ es ∧ e.1 ≠ pos := by
  rw [untrack_eq_filter nodup, List.mem_filter, decide_eq_true_eq]

theorem forall_mem_untrack (nodup : (es.map Prod.fst).Nodup) {P : Nat × Nat → Prop} :
    (∀ e ∈ untrack pos es, P e) ↔ ∀ e ∈ es, e.1 ≠ pos → P e := by
  simp only [mem_untrack nodup, and_imp]

theorem untrack_sublist (nodup : (es.map Prod.fst).Nodup) : (untrack pos es).Sublist es := by
  rw [untrack_eq_filter nodup]
  exact List.filter_sublist

theorem holds_relocate {move : Nat → Nat} :
    holds stack (.tracked (relocate move es)) = true ↔
      ∀ e ∈ es, stack[move e.1]? = some (.known e.2) := by
  rw [holds_tracked, relocate, List.forall_mem_map]

/-! ### Conditions made from others -/

/-- A valid condition that tracks no more positions than another, and only values of it. -/
structure Narrows (d c : Condition) : Prop where
  isValid : d.isValid = true
  size_le : d.size ≤ c.size
  within : ∀ values, c.Within values → d.Within values

namespace Narrows

theorem refl (valid : c.isValid = true) : c.Narrows c := ⟨valid, Nat.le_refl _, fun _ h => h⟩

theorem trans {b : Condition} (h : d.Narrows c) (h' : c.Narrows b) : d.Narrows b :=
  ⟨h.isValid, Nat.le_trans h.size_le h'.size_le,
    fun values hb => h.within values (h'.within values hb)⟩

theorem always (c : Condition) : Condition.always.Narrows c :=
  ⟨rfl, Nat.zero_le _, fun _ _ => trivial⟩

theorem never (c : Condition) : Condition.never.Narrows c :=
  ⟨rfl, Nat.zero_le _, fun _ _ => trivial⟩

/-- Some entries are kept, and their positions are moved apart. -/
theorem relocate {move : Nat → Nat} (valid : (Condition.tracked es).isValid = true)
    (sub : fs.Sublist es) (nonempty : fs ≠ [])
    (apart : ∀ e ∈ fs, ∀ e' ∈ fs, move e.1 = move e'.1 → e.1 = e'.1) :
    (Condition.tracked (Condition.relocate move fs)).Narrows (.tracked es) := by
  have nodup : (fs.map Prod.fst).Nodup := (isValid_tracked.mp valid).2.sublist (sub.map _)
  have positions : (Condition.relocate move fs).map Prod.fst = (fs.map Prod.fst).map move := by
    simp [Condition.relocate]
  refine ⟨isValid_tracked.mpr ⟨by simpa [Condition.relocate] using nonempty, ?_⟩, ?_, ?_⟩
  · rw [positions]
    refine List.Nodup.map_on ?_ nodup
    intro p hp q hq same
    obtain ⟨e, he, rfl⟩ := List.mem_map.mp hp
    obtain ⟨e', he', rfl⟩ := List.mem_map.mp hq
    exact apart e he e' he' same
  · simpa [Condition.size, Condition.relocate] using sub.length_le
  · intro values within e he
    obtain ⟨e', he', rfl⟩ := List.mem_map.mp he
    exact within e' (sub.subset he')

end Narrows

/-! ### Conjunction -/

theorem isValid_snoc (valid : (Condition.tracked es).isValid = true) {e : Nat × Nat}
    (fresh : ∀ e' ∈ es, e'.1 ≠ e.1) : (Condition.tracked (es ++ [e])).isValid = true := by
  refine isValid_tracked.mpr ⟨by simp, ?_⟩
  rw [List.map_append, List.map_singleton, ← List.concat_eq_append]
  refine (isValid_tracked.mp valid).2.concat ?_
  intro known
  obtain ⟨e', he', same⟩ := List.mem_map.mp known
  exact fresh e' he' same

/-- Whatever is added, the positions stay distinct. -/
theorem isValid_merge (valid : (Condition.tracked es).isValid = true) :
    (merge es fs).isValid = true := by
  fun_induction merge es fs with
  | case1 => exact valid
  | case2 => exact valid
  | case3 => rfl
  | case4 es e fresh => exact isValid_snoc valid (valueAt?_eq_none.mp fresh)
  | case5 es e rest _ _ ih => exact ih valid
  | case6 es e rest _ fresh ih =>
      exact ih (isValid_snoc valid (tracks_eq_false.mp (by simpa using fresh)))

theorem isValid_meet (hc : c.isValid = true) (hd : d.isValid = true) :
    (c.meet d).isValid = true := by
  cases c <;> cases d <;> first | rfl | assumption | exact isValid_merge hc

theorem within_merge {values : List Nat} (hes : ∀ e ∈ es, e.2 ∈ values)
    (hfs : ∀ e ∈ fs, e.2 ∈ values) : (merge es fs).Within values := by
  fun_induction merge es fs with
  | case1 => exact hes
  | case2 => exact hes
  | case3 => trivial
  | case4 es e _ =>
      intro e' he'
      rcases List.mem_append.mp he' with old | new
      · exact hes e' old
      · exact hfs e' new
  | case5 es e rest _ _ ih => exact ih hes fun e' he' => hfs e' (List.mem_cons_of_mem _ he')
  | case6 es e rest _ _ ih =>
      refine ih ?_ fun e' he' => hfs e' (List.mem_cons_of_mem _ he')
      intro e' he'
      rcases List.mem_append.mp he' with old | new
      · exact hes e' old
      · rw [List.mem_singleton.mp new]
        exact hfs e List.mem_cons_self

theorem within_meet {values : List Nat} (hc : c.Within values) (hd : d.Within values) :
    (c.meet d).Within values := by
  cases c <;> cases d <;> first | trivial | assumption | exact within_merge hc hd

/-- The conjunction with a condition of one entry holds exactly when both do. -/
theorem holds_meet (single : d.size ≤ 1) :
    holds stack (c.meet d) = true ↔ holds stack c = true ∧ holds stack d = true := by
  cases c with
  | never => cases d <;> simp [meet]
  | always => cases d <;> simp [meet]
  | tracked es =>
      cases d with
      | never => simp [meet]
      | always => simp [meet]
      | tracked fs =>
          rcases fs with _ | ⟨e, _ | ⟨_, _⟩⟩
          · simp [meet, merge, holds]
          · simp only [meet, merge]
            cases found : valueAt? es e.1 with
            | none => simp [holds]
            | some u =>
                simp only
                have entry := mem_of_valueAt? found
                by_cases same : u = e.2
                · -- The entry is tracked already.
                  rw [if_pos same, holds_tracked, holds_tracked, List.forall_mem_singleton]
                  refine ⟨fun all => ⟨all, ?_⟩, And.left⟩
                  simpa [same] using all _ entry
                · -- Two values are asked for at one position.
                  rw [if_neg same, holds_tracked, holds_tracked, List.forall_mem_singleton]
                  refine ⟨fun h => absurd h (by simp), ?_⟩
                  rintro ⟨all, last⟩
                  have both := (all _ entry).symm.trans last
                  simp only [Option.some.injEq, Cell.known.injEq] at both
                  exact absurd both same
          · simp [size] at single

/-! ### Stacks that satisfy a condition -/

/-- A stack that says more satisfies the same conditions. -/
theorem holds_of_refines {s t : List Cell} (refines : Stack.Refines t s)
    (h : holds s c = true) : holds t c = true := by
  cases c with
  | always => rfl
  | never => cases h
  | tracked es =>
      rw [holds_tracked] at h ⊢
      intro e he
      exact refines.2 _ _ (h e he)

/-- Writing a value that a stack knows into one that it refines. -/
theorem refines_place {s t : List Cell} (refines : Stack.Refines t s) {e : Nat × Nat}
    (known : t[e.1]? = some (.known e.2)) : Stack.Refines t (place s e) := by
  have within : e.1 < t.length := (List.getElem?_eq_some_iff.mp known).1
  have long := refines.1
  unfold place
  split
  · refine ⟨by simpa using long, ?_⟩
    intro k u hk
    rw [List.getElem?_set] at hk
    grind [refines.2 k u]
  · refine ⟨by simp; omega, ?_⟩
    intro k u hk
    have := refines.2 k u
    grind [Cell.blank]

theorem refines_foldl_place {s t : List Cell} (refines : Stack.Refines t s)
    (known : ∀ e ∈ es, t[e.1]? = some (.known e.2)) : Stack.Refines t (es.foldl place s) := by
  induction es generalizing s with
  | nil => exact refines
  | cons e rest ih =>
      obtain ⟨first, others⟩ := List.forall_mem_cons.mp known
      exact ih (refines_place refines first) others

/-- The stack built for a condition says no more than any stack that satisfies it. -/
theorem refines_stack {s : List Cell} (h : holds s c = true) : Stack.Refines s c.stack := by
  have empty : Stack.Refines s [] := ⟨Nat.zero_le _, by simp⟩
  cases c with
  | always => exact empty
  | never => exact empty
  | tracked es => exact refines_foldl_place empty (holds_tracked.mp h)

/-! ### The stack built for a condition -/

theorem getElem?_place_self (s : List Cell) (e : Nat × Nat) :
    (place s e)[e.1]? = some (.known e.2) := by
  rw [place]
  split
  · rename_i within
    rw [List.getElem?_set_self within]
  · rename_i short
    have front : (s ++ List.replicate (e.1 - s.length) Cell.blank).length = e.1 := by
      rw [List.length_append, List.length_replicate]
      omega
    rw [List.getElem?_append_right (Nat.le_of_eq front), front, Nat.sub_self]
    rfl

/-- Writing a value leaves the other cells alone. -/
theorem getElem?_place_of_ne {s : List Cell} {e : Nat × Nat} {cell : Cell} (other : e.1 ≠ pos)
    (there : s[pos]? = some cell) : (place s e)[pos]? = some cell := by
  have within := (List.getElem?_eq_some_iff.mp there).1
  rw [place]
  split
  · rw [List.getElem?_set_ne other]
    exact there
  · rw [List.append_assoc, List.getElem?_append_left within]
    exact there

theorem getElem?_foldl_place {s : List Cell} {cell : Cell} (others : ∀ e ∈ es, e.1 ≠ pos)
    (there : s[pos]? = some cell) : (es.foldl place s)[pos]? = some cell := by
  induction es generalizing s with
  | nil => exact there
  | cons e rest ih =>
      obtain ⟨first, others⟩ := List.forall_mem_cons.mp others
      exact ih others (getElem?_place_of_ne first there)

theorem holds_foldl_place (nodup : (es.map Prod.fst).Nodup) (s : List Cell) :
    holds (es.foldl place s) (.tracked es) = true := by
  induction es generalizing s with
  | nil => rfl
  | cons e rest ih =>
      obtain ⟨fresh, nodup⟩ := List.nodup_cons.mp nodup
      rw [holds_tracked, List.forall_mem_cons, List.foldl_cons]
      -- What is written first stays, since the other entries have other positions.
      refine ⟨getElem?_foldl_place ?_ (getElem?_place_self s e), holds_tracked.mp (ih nodup _)⟩
      intro e' he' same
      exact fresh (same ▸ List.mem_map_of_mem he')

/-- The stack built for a valid condition satisfies it. -/
theorem holds_stack (valid : c.isValid = true) (possible : c ≠ .never) :
    holds c.stack c = true := by
  cases c with
  | always => rfl
  | never => exact absurd rfl possible
  | tracked es => exact holds_foldl_place (isValid_tracked.mp valid).2 []

/-! ### The least stack -/

theorem length_place (s : List Cell) (e : Nat × Nat) :
    (place s e).length = max s.length (e.1 + 1) := by
  rw [place]
  split
  · rw [List.length_set]
    omega
  · simp only [List.length_append, List.length_replicate, List.length_singleton]
    omega

/-- The stack is as long as what was there and what is written ask for, and no longer. -/
theorem length_foldl_place_le_iff {s : List Cell} {n : Nat} :
    (es.foldl place s).length ≤ n ↔ s.length ≤ n ∧ ∀ e ∈ es, e.1 < n := by
  induction es generalizing s with
  | nil => simp
  | cons e rest ih =>
      rw [List.foldl_cons, ih, length_place, Nat.max_le, List.forall_mem_cons, and_assoc,
        Nat.succ_le_iff]

/-- The deepest of the tracked positions is the last one of the stack. -/
theorem exists_deepest (nonempty : es ≠ []) :
    ∃ e ∈ es, (Condition.tracked es).stack.length = 1 + e.1 ∧ ∀ e' ∈ es, e'.1 ≤ e.1 := by
  have long : ∀ n, (Condition.tracked es).stack.length ≤ n ↔ ∀ e ∈ es, e.1 < n := by
    intro n
    rw [Condition.stack, length_foldl_place_le_iff]
    simp
  generalize (Condition.tracked es).stack.length = length at long ⊢
  have inside := (long length).mp (Nat.le_refl _)
  -- If all positions were further up, a shorter stack would do.
  obtain ⟨e, he, last⟩ : ∃ e ∈ es, length ≤ 1 + e.1 := by
    by_contra none
    have shorter : length ≤ length - 1 := by
      refine (long _).mpr fun e he => ?_
      have further : ¬ length ≤ 1 + e.1 := fun last => none ⟨e, he, last⟩
      omega
    obtain ⟨e, he⟩ := List.exists_mem_of_ne_nil es nonempty
    have := inside e he
    omega
  refine ⟨e, he, ?_, fun e' he' => ?_⟩
  · have := inside e he
    omega
  · have := inside e' he'
    omega

/-- Where nothing is written, a stack is filled up with unknown cells. -/
theorem eq_blank_of_place {s : List Cell} {e : Nat × Nat} {cell : Cell} (other : e.1 ≠ pos)
    (blank : ∀ cell, s[pos]? = some cell → cell = .blank)
    (found : (place s e)[pos]? = some cell) : cell = .blank := by
  cases old : s[pos]? with
  | some cell' =>
      rw [getElem?_place_of_ne other old] at found
      obtain rfl := Option.some.inj found
      exact blank _ old
  | none =>
      have short := List.getElem?_eq_none_iff.mp old
      rw [place] at found
      split at found
      · rw [List.getElem?_set_ne other, old] at found
        cases found
      · rw [List.append_assoc, List.getElem?_append_right short, List.getElem?_append,
          List.length_replicate, List.getElem?_replicate] at found
        grind

theorem eq_blank_of_foldl_place {s : List Cell} {cell : Cell} (others : ∀ e ∈ es, e.1 ≠ pos)
    (blank : ∀ cell, s[pos]? = some cell → cell = .blank)
    (found : (es.foldl place s)[pos]? = some cell) : cell = .blank := by
  induction es generalizing s with
  | nil => exact blank _ found
  | cons e rest ih =>
      obtain ⟨first, others⟩ := List.forall_mem_cons.mp others
      exact ih others (fun _ => eq_blank_of_place first blank) found

/-- Only running states satisfy a condition, and they do by their stacks. -/
theorem holdsOf?_eq_true_iff (nonempty : es ≠ []) {s : State} :
    (Condition.tracked es).holdsOf? s = .ok true ↔
      ∃ f, s = .running f ∧ holds f.stack (.tracked es) = true := by
  have some : es.isEmpty = false := List.isEmpty_eq_false_iff.mpr nonempty
  cases s with
  | failed m => simp [holdsOf?, entries?, some, State.frame?, bind, Except.bind]
  | running f => simp [holdsOf?, entries?, some, State.frame?, bind, Except.bind, pure, Except.pure]

/-- The frame built for a valid condition, whatever the order of its entries, is the least that
satisfies it. It ends with the deepest tracked position and is unknown where nothing is tracked.
Every state that satisfies the condition has at least as long a stack, which agrees with the one
built wherever that is known. -/
theorem frame_least (valid : (Condition.tracked es).isValid = true) (pc : Nat) :
    let f := (Condition.tracked es).frame pc
    f.pc = pc ∧ (Condition.tracked es).holdsOf? (.running f) = .ok true ∧
      (∃ e ∈ es, f.size = 1 + e.1 ∧ ∀ e' ∈ es, e'.1 ≤ e.1) ∧
      (∀ pos < f.size, (∀ e ∈ es, e.1 ≠ pos) → f.stack[pos]? = some .blank) ∧
      ∀ s : State, (Condition.tracked es).holdsOf? s = .ok true →
        ∃ g, s = .running g ∧ f.size ≤ g.size ∧
          ∀ pos < f.size, (∃ remark, f.stack[pos]? = some (.unknown remark)) ∨
            g.stack[pos]? = f.stack[pos]? := by
  intro f
  have nonempty := (isValid_tracked.mp valid).1
  refine ⟨rfl, ?_, exists_deepest nonempty, ?_, ?_⟩
  · exact (holdsOf?_eq_true_iff nonempty).mpr ⟨f, rfl, holds_stack valid (by simp)⟩
  · intro pos inside others
    have found := List.getElem?_eq_getElem inside
    rw [found, eq_blank_of_foldl_place others (by simp) found]
  · intro s satisfied
    obtain ⟨g, rfl, holds⟩ := (holdsOf?_eq_true_iff nonempty).mp satisfied
    have refines := refines_stack holds
    refine ⟨g, rfl, refines.1, ?_⟩
    intro pos inside
    have found := List.getElem?_eq_getElem inside
    cases cell : f.stack[pos] with
    | unknown remark => exact .inl ⟨remark, by rw [found, cell]⟩
    | known v =>
        rw [cell] at found
        exact .inr ((refines.2 pos v found).trans found.symm)

/-- The middle one of three positions is written first, the one above it next, and the deepest one
last. -/
theorem frame_least_of_gaps :
    let c : Condition := .tracked [(4, 0x44), (1, 0x11), (7, 0x77)]
    let f : Frame := ⟨2, [.blank, .known 0x11, .blank, .blank, .known 0x44, .blank, .blank,
      .known 0x77]⟩
    let g : Frame := ⟨3, [.known 9, .known 0x11, .blank, .known 9, .known 0x44, .blank, .known 9,
      .known 0x77, .blank]⟩
    c.isValid = true ∧ c.frame 2 = f ∧ c.holdsOf? (.running f) = .ok true ∧
      c.holdsOf? (.running g) = .ok true ∧ f.size = 1 + 7 ∧ f.stack[5]? = some .blank ∧
      f.size ≤ g.size ∧ ∀ pos < f.size, (∃ remark, f.stack[pos]? = some (.unknown remark)) ∨
        g.stack[pos]? = f.stack[pos]? := by
  intro c f g
  have valid : c.isValid = true := by decide
  have built : c.frame 2 = f := by decide
  have satisfied : c.holdsOf? (.running g) = .ok true := by rfl
  obtain ⟨-, holds, -, blank, least⟩ := frame_least valid 2
  obtain ⟨h, same, shorter, agree⟩ := least _ satisfied
  cases same
  exact ⟨valid, built, holds, satisfied, by decide, blank 5 (by decide) (by decide), shorter, agree⟩

end EvmFlow.Condition
