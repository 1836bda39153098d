import EvmFlow.Proofs.Partition
import Mathlib.Data.List.Sort

/-!
# The classes of an equivalence

Splitting asks an equivalence only about numbers that are in the partition, so it is enough that it
is one below the size (`EquivalenceBelow`). Then it can be extended to all numbers without a change
of the outcome (`refine_extended`), and what splitting does with an equivalence on all numbers
carries over.

A class of a valid partition is the increasing list of the numbers that lie in one class with any of
them. So the classes of the finest partition are the classes of the equivalence, as lists, and not
only up to their order.
-/

namespace EvmFlow.Partition

/-- An equivalence on the numbers below `n`. -/
structure EquivalenceBelow (n : Nat) (equiv : Nat → Nat → Bool) : Prop where
  refl : ∀ x < n, equiv x x = true
  symm : ∀ x < n, ∀ y < n, equiv x y = true → equiv y x = true
  trans : ∀ x < n, ∀ y < n, ∀ z < n, equiv x y = true → equiv y z = true → equiv x z = true

/-- The relation below `n`, and equality from there on. -/
def extended (n : Nat) (equiv : Nat → Nat → Bool) (x y : Nat) : Bool :=
  if x < n ∧ y < n then equiv x y else x == y

section Extended

variable {p : Partition} {n x y : Nat} {equiv equiv' : Nat → Nat → Bool} {xs : List Nat}

theorem extended_eq (hx : x < n) (hy : y < n) : extended n equiv x y = equiv x y :=
  if_pos ⟨hx, hy⟩

/-- A number past the bound is related to itself only. -/
theorem extended_of_le (hx : n ≤ x) :
    extended n equiv x y = (x == y) ∧ extended n equiv y x = (x == y) := by
  refine ⟨if_neg (by omega), ?_⟩
  rw [extended, if_neg (by omega), Bool.beq_comm]

theorem equivalence_extended (equivalence : EquivalenceBelow n equiv) :
    Equivalence fun x y => extended n equiv x y = true := by
  have below : ∀ {x y}, x < n → extended n equiv x y = true → y < n ∧ equiv x y = true := by
    intro x y hx near
    by_cases hy : y < n
    · rw [extended_eq hx hy] at near
      exact ⟨hy, near⟩
    · rw [(extended_of_le (Nat.le_of_not_lt hy)).2, beq_iff_eq] at near
      omega
  have above : ∀ {x y}, n ≤ x → extended n equiv x y = true → x = y := by
    intro x y hx near
    rwa [(extended_of_le hx).1, beq_iff_eq] at near
  refine ⟨fun x => ?_, fun {x y} near => ?_, fun {x y z} near near' => ?_⟩
  · by_cases hx : x < n
    · rw [extended_eq hx hx]
      exact equivalence.refl x hx
    · rw [(extended_of_le (Nat.le_of_not_lt hx)).1, beq_iff_eq]
  · by_cases hx : x < n
    · obtain ⟨hy, near⟩ := below hx near
      rw [extended_eq hy hx]
      exact equivalence.symm x hx y hy near
    · obtain rfl := above (Nat.le_of_not_lt hx) near
      exact near
  · by_cases hx : x < n
    · obtain ⟨hy, near⟩ := below hx near
      obtain ⟨hz, near'⟩ := below hy near'
      rw [extended_eq hx hz]
      exact equivalence.trans x hx y hy z hz near near'
    · obtain rfl := above (Nat.le_of_not_lt hx) near
      exact near'

/-- Splitting a list asks about members of the list only. -/
theorem splitBy_congr (agree : ∀ x ∈ xs, ∀ y ∈ xs, equiv x y = equiv' x y) :
    splitBy equiv xs = splitBy equiv' xs := by
  induction xs using split_induction equiv with
  | nil => rw [splitBy_nil, splitBy_nil]
  | cons x rest ih =>
      have first : ∀ y ∈ rest, equiv x y = equiv' x y := fun y hy =>
        agree x List.mem_cons_self y (List.mem_cons_of_mem x hy)
      have others : (rest.filter fun y => !equiv x y) = rest.filter fun y => !equiv' x y :=
        List.filter_congr fun y hy => congrArg not (first y hy)
      have later : ∀ y ∈ rest.filter (fun y => !equiv x y), y ∈ x :: rest := fun y hy =>
        List.mem_cons_of_mem x (List.mem_of_mem_filter hy)
      rw [splitBy_cons, splitBy_cons, List.filter_congr first, ← others,
        ih fun y hy z hz => agree y (later y hy) z (later z hz)]

theorem refine_extended (valid : p.Valid) :
    p.refine (extended p.size equiv) = p.refine equiv := by
  have classes : p.classes.flatMap (splitBy (extended p.size equiv)) =
      p.classes.flatMap (splitBy equiv) := by
    refine List.flatMap_congr fun c hc => splitBy_congr fun x hx y hy => ?_
    exact extended_eq ((valid.covers x).mp ⟨c, hc, hx⟩) ((valid.covers y).mp ⟨c, hc, hy⟩)
  rw [refine, classes, refine]

theorem finest_whole_extended : (whole n).finest (extended n equiv) = (whole n).finest equiv := by
  have classes : splitBy (extended n equiv) (List.range n) = splitBy equiv (List.range n) :=
    splitBy_congr fun x hx y hy => extended_eq (List.mem_range.mp hx) (List.mem_range.mp hy)
  rw [finest, members_whole, classes, finest, members_whole]

end Extended

section Classes

variable {p : Partition} {n x y : Nat} {equiv : Nat → Nat → Bool} {c : List Nat}

theorem Valid.mem_class_iff (valid : p.Valid) (hc : c ∈ p.classes) (hx : x ∈ c) :
    y ∈ c ↔ p.Same x y := by
  constructor
  · intro hy
    exact ⟨c, hc, hx, hy⟩
  · rintro ⟨d, hd, hxd, hy⟩
    obtain ⟨i, hi⟩ := List.getElem?_of_mem hc
    obtain ⟨j, hj⟩ := List.getElem?_of_mem hd
    obtain rfl : i = j := (valid.classOf_eq hi hx).symm.trans (valid.classOf_eq hj hxd)
    obtain rfl := Option.some.inj (hi.symm.trans hj)
    exact hy

/-- A class holds what is related to one of its members, in increasing order. -/
theorem Valid.class_eq_filter (valid : p.Valid)
    (same : ∀ x y, p.Same x y ↔ x < p.size ∧ y < p.size ∧ equiv x y = true)
    (hc : c ∈ p.classes) (hx : x ∈ c) : c = (List.range p.size).filter (equiv x) := by
  refine (valid.increasing c hc).eq_of_mem_iff (List.pairwise_lt_range.filter _) fun y => ?_
  have inside : x < p.size := (valid.covers x).mp ⟨c, hc, hx⟩
  rw [valid.mem_class_iff hc hx, same, List.mem_filter, List.mem_range]
  exact and_iff_right inside

/-- The classes are those of the numbers. -/
theorem Valid.mem_classes_iff (valid : p.Valid)
    (same : ∀ x y, p.Same x y ↔ x < p.size ∧ y < p.size ∧ equiv x y = true) :
    c ∈ p.classes ↔ ∃ x < p.size, c = (List.range p.size).filter (equiv x) := by
  constructor
  · intro hc
    obtain ⟨x, hx⟩ := List.exists_mem_of_ne_nil c (valid.nonempty c hc)
    exact ⟨x, (valid.covers x).mp ⟨c, hc, hx⟩, valid.class_eq_filter same hc hx⟩
  · rintro ⟨x, inside, rfl⟩
    obtain ⟨d, hd, hx⟩ := (valid.covers x).mpr inside
    rwa [← valid.class_eq_filter same hd hx]

theorem Valid.classFrom?_eq (valid : p.Valid) (hx : x < p.size) :
    p.classFrom? x 0 = .ok (p.classOf x) := by
  obtain ⟨c, hc, hxc⟩ := (valid.covers x).mpr hx
  have found : p.classes.findIdx? (·.contains x) = some (p.classOf x) :=
    List.findIdx?_eq_some_of_exists ⟨c, hc, by simpa using hxc⟩
  rw [classFrom?, List.drop_zero, found]
  exact congrArg Except.ok (Nat.zero_add _)

theorem Valid.rep?_eq (valid : p.Valid) (hx : x < p.size) : p.rep? x = .ok (p.rep x) := by
  rw [rep?, valid.classFrom?_eq hx]
  rfl

end Classes

end EvmFlow.Partition
