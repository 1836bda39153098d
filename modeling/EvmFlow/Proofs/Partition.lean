import EvmFlow.Partition
import Mathlib.Algebra.BigOperators.Group.List.Basic
import Mathlib.Data.List.Nodup
import Mathlib.Data.List.Flatten
import Mathlib.Data.List.Perm.Subperm

/-!
# Partitions as equivalences

A partition says which numbers lie in one class, `Same`. Splitting by an equivalence keeps in one
class what was there and is equivalent. In a valid partition the number of a class and its least
element are then two ways to name it: each is equal for two numbers exactly if they lie in one
class.
-/

namespace EvmFlow.Partition

/-- Two numbers lie in one class. -/
def Same (p : Partition) (x y : Nat) : Prop := ∃ c ∈ p.classes, x ∈ c ∧ y ∈ c

/-- Every number below the size lies in one class and no other, and no class is empty. -/
structure Valid (p : Partition) : Prop where
  nonempty : ∀ c ∈ p.classes, c ≠ []
  increasing : ∀ c ∈ p.classes, c.Pairwise (· < ·)
  disjoint : p.classes.Pairwise List.Disjoint
  covers : ∀ x, (∃ c ∈ p.classes, x ∈ c) ↔ x < p.size

section Split

@[simp] theorem splitBy_nil (equiv : Nat → Nat → Bool) : splitBy equiv [] = [] := by
  rw [splitBy]

theorem splitBy_cons (equiv : Nat → Nat → Bool) (x : Nat) (rest : List Nat) :
    splitBy equiv (x :: rest) =
      (x :: rest.filter (equiv x)) :: splitBy equiv (rest.filter fun y => !equiv x y) := by
  rw [splitBy]

/-- Induction along splitting: from what the first class leaves to the whole list. -/
theorem split_induction {motive : List Nat → Prop} (equiv : Nat → Nat → Bool) (nil : motive [])
    (cons : ∀ x rest, motive (rest.filter fun y => !equiv x y) → motive (x :: rest))
    (xs : List Nat) : motive xs := by
  induction h : xs.length using Nat.strongRecOn generalizing xs with
  | ind n ih =>
      cases xs with
      | nil => exact nil
      | cons x rest =>
          have shorter := List.length_filter_le (fun y => !equiv x y) rest
          rw [List.length_cons] at h
          exact cons x rest (ih _ (by omega) _ rfl)

variable {equiv : Nat → Nat → Bool} {xs c : List Nat} {x y : Nat}

theorem splitBy_sublist (hc : c ∈ splitBy equiv xs) : c.Sublist xs := by
  induction xs using split_induction equiv with
  | nil => simp at hc
  | cons x rest ih =>
      rw [splitBy_cons] at hc
      rcases List.mem_cons.mp hc with rfl | hc
      · exact List.filter_sublist.cons_cons x
      · exact ((ih hc).trans List.filter_sublist).cons x

theorem splitBy_ne_nil (hc : c ∈ splitBy equiv xs) : c ≠ [] := by
  induction xs using split_induction equiv with
  | nil => simp at hc
  | cons x rest ih =>
      rw [splitBy_cons] at hc
      rcases List.mem_cons.mp hc with rfl | hc
      · exact List.cons_ne_nil x _
      · exact ih hc

/-- Nothing is lost, and nothing is added. -/
theorem exists_mem_splitBy : (∃ c ∈ splitBy equiv xs, y ∈ c) ↔ y ∈ xs := by
  constructor
  · rintro ⟨c, hc, hy⟩
    exact (splitBy_sublist hc).mem hy
  · intro hy
    induction xs using split_induction equiv with
    | nil => cases hy
    | cons x rest ih =>
        rw [splitBy_cons]
        by_cases first : y ∈ x :: rest.filter (equiv x)
        · exact ⟨_, List.mem_cons_self, first⟩
        · have later : y ∈ rest.filter fun z => !equiv x z := by
            simp only [List.mem_cons, List.mem_filter, not_or, not_and] at first hy ⊢
            have hrest := hy.resolve_left first.1
            exact ⟨hrest, by simpa using first.2 hrest⟩
          obtain ⟨c, hc, hyc⟩ := ih later
          exact ⟨c, List.mem_cons_of_mem _ hc, hyc⟩

theorem splitBy_disjoint (nodup : xs.Nodup) : (splitBy equiv xs).Pairwise List.Disjoint := by
  induction xs using split_induction equiv with
  | nil => simp
  | cons x rest ih =>
      rw [splitBy_cons]
      obtain ⟨fresh, nodup⟩ := List.nodup_cons.mp nodup
      refine List.pairwise_cons.mpr ⟨?_, ih (nodup.filter _)⟩
      intro c hc y first later
      have hy := List.mem_filter.mp ((splitBy_sublist hc).mem later)
      rcases List.mem_cons.mp first with rfl | first
      · exact fresh hy.1
      · simp [(List.mem_filter.mp first).2] at hy

/-- The classes that splitting makes are those of the equivalence. -/
theorem same_splitBy (equivalence : Equivalence fun x y => equiv x y = true) :
    (∃ c ∈ splitBy equiv xs, x ∈ c ∧ y ∈ c) ↔ x ∈ xs ∧ y ∈ xs ∧ equiv x y = true := by
  induction xs using split_induction equiv with
  | nil => simp
  | cons z rest ih =>
      have first : ∀ u, u ∈ z :: rest.filter (equiv z) ↔ u ∈ z :: rest ∧ equiv z u = true := by
        intro u
        simp only [List.mem_cons, List.mem_filter]
        constructor
        · rintro (rfl | ⟨hu, near⟩)
          · exact ⟨.inl rfl, equivalence.refl u⟩
          · exact ⟨.inr hu, near⟩
        · rintro ⟨rfl | hu, near⟩
          · exact .inl rfl
          · exact .inr ⟨hu, near⟩
      have later : ∀ u, u ∈ rest.filter (fun v => !equiv z v) ↔
          u ∈ z :: rest ∧ equiv z u = false := by
        intro u
        simp only [List.mem_cons, List.mem_filter, Bool.not_eq_true']
        constructor
        · rintro ⟨hu, far⟩
          exact ⟨.inr hu, far⟩
        · rintro ⟨rfl | hu, far⟩
          · rw [equivalence.refl u] at far
            cases far
          · exact ⟨hu, far⟩
      rw [splitBy_cons, List.exists_mem_cons_iff, first, first, ih, later, later]
      constructor
      · rintro (⟨⟨hx, nearx⟩, hy, neary⟩ | ⟨⟨hx, _⟩, ⟨hy, _⟩, near⟩)
        · exact ⟨hx, hy, equivalence.trans (equivalence.symm nearx) neary⟩
        · exact ⟨hx, hy, near⟩
      · rintro ⟨hx, hy, near⟩
        -- Both are equivalent to the first element, or neither is.
        cases nearx : equiv z x with
        | true => exact .inl ⟨⟨hx, rfl⟩, hy, equivalence.trans nearx near⟩
        | false =>
            refine .inr ⟨⟨hx, rfl⟩, ⟨hy, ?_⟩, near⟩
            by_contra neary
            have back := equivalence.trans (Bool.not_eq_false _ ▸ neary) (equivalence.symm near)
            rw [nearx] at back
            cases back

theorem splitBy_length_pos (nonempty : xs ≠ []) : 0 < (splitBy equiv xs).length := by
  obtain ⟨x, hx⟩ := List.exists_mem_of_ne_nil xs nonempty
  obtain ⟨c, hc, _⟩ := exists_mem_splitBy.mpr hx
  exact List.length_pos_of_mem hc

/-- Elements of a list that splitting leaves whole are equivalent. -/
theorem equiv_of_splitBy_length (equivalence : Equivalence fun x y => equiv x y = true)
    (whole : (splitBy equiv xs).length = 1) (hx : x ∈ xs) (hy : y ∈ xs) : equiv x y = true := by
  obtain ⟨c, only⟩ := List.length_eq_one_iff.mp whole
  have inside : ∀ u ∈ xs, u ∈ c := by
    intro u hu
    have found : ∃ d ∈ splitBy equiv xs, u ∈ d := exists_mem_splitBy.mpr hu
    obtain ⟨d, hd, hud⟩ := found
    obtain rfl : d = c := by simpa [only] using hd
    exact hud
  have same : ∃ d ∈ splitBy equiv xs, x ∈ d ∧ y ∈ d :=
    ⟨c, by simp [only], inside x hx, inside y hy⟩
  exact ((same_splitBy equivalence).mp same).2.2

end Split

section Same

variable {p : Partition} {x y z : Nat}

theorem Same.symm (h : p.Same x y) : p.Same y x := by
  obtain ⟨c, hc, hx, hy⟩ := h
  exact ⟨c, hc, hy, hx⟩

theorem Valid.same_refl (valid : p.Valid) (hx : x < p.size) : p.Same x x := by
  obtain ⟨c, hc, hxc⟩ := (valid.covers x).mpr hx
  exact ⟨c, hc, hxc, hxc⟩

theorem Valid.lt_of_same (valid : p.Valid) (h : p.Same x y) : y < p.size := by
  obtain ⟨c, hc, _, hy⟩ := h
  exact (valid.covers y).mp ⟨c, hc, hy⟩

/-- The class of a number is found at one position only. -/
theorem Valid.classOf_eq (valid : p.Valid) {i : Nat} {c : List Nat}
    (hi : p.classes[i]? = some c) (hx : x ∈ c) : p.classOf x = i := by
  obtain ⟨bound, rfl⟩ := List.getElem?_eq_some_iff.mp hi
  rw [classOf, List.findIdx_eq bound]
  refine ⟨by simpa using hx, ?_⟩
  intro j hj
  have apart := List.pairwise_iff_getElem.mp valid.disjoint j i (by omega) bound hj
  have absent : x ∉ p.classes[j] := fun h => apart h hx
  simpa using absent

theorem Valid.exists_class (valid : p.Valid) (hx : x < p.size) :
    ∃ c, p.classes[p.classOf x]? = some c ∧ x ∈ c := by
  obtain ⟨c, hc, hxc⟩ := (valid.covers x).mpr hx
  obtain ⟨i, hi⟩ := List.getElem?_of_mem hc
  exact ⟨c, by rw [valid.classOf_eq hi hxc, hi], hxc⟩

theorem Valid.classOf_eq_iff (valid : p.Valid) (hx : x < p.size) (hy : y < p.size) :
    p.classOf x = p.classOf y ↔ p.Same x y := by
  constructor
  · intro same
    obtain ⟨c, hc, hxc⟩ := valid.exists_class hx
    obtain ⟨d, hd, hyd⟩ := valid.exists_class hy
    rw [same, hd] at hc
    obtain rfl := Option.some.inj hc
    exact ⟨d, List.mem_of_getElem? hd, hxc, hyd⟩
  · rintro ⟨c, hc, hxc, hyc⟩
    obtain ⟨i, hi⟩ := List.getElem?_of_mem hc
    rw [valid.classOf_eq hi hxc, valid.classOf_eq hi hyc]

theorem Valid.same_trans (valid : p.Valid) (hxy : p.Same x y) (hyz : p.Same y z) :
    p.Same x z := by
  have hx := valid.lt_of_same hxy.symm
  have hy := valid.lt_of_same hxy
  have hz := valid.lt_of_same hyz
  rw [← valid.classOf_eq_iff hx hz, (valid.classOf_eq_iff hx hy).mpr hxy]
  exact (valid.classOf_eq_iff hy hz).mpr hyz

/-- A number is represented by the least number of its class. -/
theorem Valid.rep_least (valid : p.Valid) (hx : x < p.size) :
    p.Same x (p.rep x) ∧ ∀ y, p.Same x y → p.rep x ≤ y := by
  obtain ⟨c, hc, hxc⟩ := valid.exists_class hx
  have mem := List.mem_of_getElem? hc
  cases c with
  | nil => cases hxc
  | cons r rest =>
      have rep : p.rep x = r := by simp [Partition.rep, hc]
      rw [rep]
      refine ⟨⟨r :: rest, mem, hxc, List.mem_cons_self⟩, ?_⟩
      rintro y same
      have hy := valid.lt_of_same same
      obtain ⟨d, hd, hyd⟩ := valid.exists_class hy
      rw [← (valid.classOf_eq_iff hx hy).mpr same, hc] at hd
      obtain rfl := Option.some.inj hd
      rcases List.mem_cons.mp hyd with rfl | later
      · exact Nat.le_refl y
      · exact Nat.le_of_lt (List.rel_of_pairwise_cons (valid.increasing _ mem) later)

theorem Valid.rep_lt (valid : p.Valid) (hx : x < p.size) : p.rep x < p.size :=
  valid.lt_of_same (valid.rep_least hx).1

theorem Valid.rep_eq_iff (valid : p.Valid) (hx : x < p.size) (hy : y < p.size) :
    p.rep x = p.rep y ↔ p.Same x y := by
  obtain ⟨homex, leastx⟩ := valid.rep_least hx
  obtain ⟨homey, leasty⟩ := valid.rep_least hy
  constructor
  · intro equal
    rw [equal] at homex
    exact valid.same_trans homex homey.symm
  · intro same
    apply Nat.le_antisymm
    · exact leastx _ (valid.same_trans same homey)
    · exact leasty _ (valid.same_trans same.symm homex)

/-- There are at most as many classes as numbers. -/
theorem Valid.length_le (valid : p.Valid) : p.classes.length ≤ p.size := by
  have nodup : p.classes.flatten.Nodup := by
    rw [List.nodup_flatten]
    exact ⟨fun c hc => (valid.increasing c hc).imp Nat.ne_of_lt, valid.disjoint⟩
  have below : p.classes.flatten ⊆ List.range p.size := by
    intro x hx
    exact List.mem_range.mpr ((valid.covers x).mp (List.mem_flatten.mp hx))
  have bound := (List.subperm_of_subset nodup below).length_le
  rw [List.length_range, List.length_flatten] at bound
  refine Nat.le_trans ?_ bound
  have positive : ∀ n ∈ p.classes.map List.length, 1 ≤ n := by
    intro n hn
    obtain ⟨c, hc, rfl⟩ := List.mem_map.mp hn
    exact List.length_pos_of_ne_nil (valid.nonempty c hc)
  simpa using List.length_le_sum_of_one_le _ positive

end Same

section Refine

variable {p : Partition} {equiv : Nat → Nat → Bool} {x y : Nat}

theorem Valid.refine (valid : p.Valid) : (p.refine equiv).Valid := by
  have origin : ∀ d ∈ p.classes.flatMap (splitBy equiv),
      ∃ c ∈ p.classes, d ∈ splitBy equiv c := by
    intro d hd
    exact List.mem_flatMap.mp hd
  constructor
  · intro d hd
    obtain ⟨c, _, hd⟩ := origin d hd
    exact splitBy_ne_nil hd
  · intro d hd
    obtain ⟨c, hc, hd⟩ := origin d hd
    exact (valid.increasing c hc).sublist (splitBy_sublist hd)
  · refine List.pairwise_flatMap.mpr ⟨?_, ?_⟩
    · intro c hc
      exact splitBy_disjoint ((valid.increasing c hc).imp Nat.ne_of_lt)
    · refine valid.disjoint.imp ?_
      intro c d apart c' hc d' hd x hx hx'
      exact apart ((splitBy_sublist hc).mem hx) ((splitBy_sublist hd).mem hx')
  · intro x
    change _ ↔ x < p.size
    rw [← valid.covers x]
    constructor
    · rintro ⟨d, hd, hx⟩
      obtain ⟨c, hc, hd⟩ := origin d hd
      exact ⟨c, hc, (splitBy_sublist hd).mem hx⟩
    · rintro ⟨c, hc, hx⟩
      obtain ⟨d, hd, hxd⟩ := exists_mem_splitBy.mpr hx
      exact ⟨d, List.mem_flatMap.mpr ⟨c, hc, hd⟩, hxd⟩

theorem same_refine (equivalence : Equivalence fun x y => equiv x y = true) :
    (p.refine equiv).Same x y ↔ p.Same x y ∧ equiv x y = true := by
  constructor
  · rintro ⟨d, hd, hx, hy⟩
    obtain ⟨c, hc, hd⟩ := List.mem_flatMap.mp hd
    obtain ⟨hx, hy, near⟩ := (same_splitBy equivalence).mp ⟨d, hd, hx, hy⟩
    exact ⟨⟨c, hc, hx, hy⟩, near⟩
  · rintro ⟨⟨c, hc, hx, hy⟩, near⟩
    obtain ⟨d, hd, hxd, hyd⟩ := (same_splitBy equivalence).mpr ⟨hx, hy, near⟩
    exact ⟨d, List.mem_flatMap.mpr ⟨c, hc, hd⟩, hxd, hyd⟩

/-- Splitting never makes fewer lists, and it makes as many only if it leaves each one whole. -/
theorem length_flatMap_splitBy {cs : List (List Nat)} (nonempty : ∀ c ∈ cs, c ≠ []) :
    cs.length ≤ (cs.flatMap (splitBy equiv)).length ∧
      ((cs.flatMap (splitBy equiv)).length = cs.length →
        ∀ c ∈ cs, (splitBy equiv c).length = 1) := by
  induction cs with
  | nil => simp
  | cons c cs ih =>
      obtain ⟨grows, whole⟩ := ih fun d hd => nonempty d (List.mem_cons_of_mem c hd)
      have one : 0 < (splitBy equiv c).length := splitBy_length_pos (nonempty c List.mem_cons_self)
      rw [List.flatMap_cons, List.length_append, List.length_cons]
      refine ⟨by omega, ?_⟩
      intro equal d hd
      rcases List.mem_cons.mp hd with rfl | hd
      · omega
      · exact whole (by omega) d hd

theorem Valid.length_le_refine (valid : p.Valid) :
    p.classes.length ≤ (p.refine equiv).classes.length :=
  (length_flatMap_splitBy valid.nonempty).1

/-- A refinement with no more classes has separated nothing. -/
theorem Valid.equiv_of_length_refine (valid : p.Valid)
    (equivalence : Equivalence fun x y => equiv x y = true)
    (equal : (p.refine equiv).classes.length = p.classes.length) (same : p.Same x y) :
    equiv x y = true := by
  obtain ⟨c, hc, hx, hy⟩ := same
  have whole := (length_flatMap_splitBy valid.nonempty).2 equal c hc
  exact equiv_of_splitBy_length equivalence whole hx hy

end Refine

section Finest

variable {n x y : Nat} {equiv : Nat → Nat → Bool}

theorem members_whole (n : Nat) : (whole n).members = List.range n := by
  simp [members, whole]

theorem valid_finest_whole : ((whole n).finest equiv).Valid := by
  have classes : ((whole n).finest equiv).classes = splitBy equiv (List.range n) := by
    rw [finest, members_whole]
  constructor
  · intro c hc
    rw [classes] at hc
    exact splitBy_ne_nil hc
  · intro c hc
    rw [classes] at hc
    exact List.pairwise_lt_range.sublist (splitBy_sublist hc)
  · rw [classes]
    exact splitBy_disjoint List.nodup_range
  · intro x
    rw [classes, exists_mem_splitBy]
    exact List.mem_range

theorem same_finest_whole (equivalence : Equivalence fun x y => equiv x y = true) :
    ((whole n).finest equiv).Same x y ↔ x < n ∧ y < n ∧ equiv x y = true := by
  rw [Same, finest, members_whole, same_splitBy equivalence, List.mem_range, List.mem_range]

end Finest

end EvmFlow.Partition
