import EvmFlow.Proofs.Minimisation
import Mathlib.Data.List.Forall2

/-!
# States that no word tells apart

A word is a list of edge numbers, to be followed from a state. It tells two states apart if it can
be followed from one of them only, or if it leads to different classes. The rounds of refinement,
each of which looks one edge ahead, end with the classes of states that no word tells apart.

The argument is about bisimulations: relations under which related states have equally many edges,
and these lead to related states, number by number. That no word tells two states apart is the
largest bisimulation within the classes. A round keeps together what a bisimulation relates, so
nothing of it is lost when the rounds end, and then the classes are a bisimulation themselves.
-/

namespace EvmFlow

namespace Automaton

variable {α : Type} {a : Automaton α} {r s : Nat → Nat → Prop} {x y : Nat}

/-- The position to which a word leads, if there are edges with all its numbers. -/
def follow? (a : Automaton α) : Nat → List Nat → Option Nat
  | x, [] => some x
  | x, e :: word => (a.succOf x)[e]?.bind fun y => a.follow? y word

/-- Related positions have equally many edges, and these lead to related positions. -/
def Bisimulation (a : Automaton α) (r : Nat → Nat → Prop) : Prop :=
  ∀ ⦃x y⦄, r x y → List.Forall₂ r (a.succOf x) (a.succOf y)

/-- Lists that are related place by place end at the same place. -/
theorem forall₂_iff_getElem? {xs ys : List Nat} :
    List.Forall₂ r xs ys ↔ ∀ e : Nat, Option.Rel r xs[e]? ys[e]? := by
  constructor
  · intro related
    induction related with
    | nil => exact fun _ => .none
    | cons first _ ih =>
        intro e
        cases e with
        | zero => exact .some first
        | succ e => exact ih e
  · intro related
    induction xs generalizing ys with
    | nil =>
        cases ys with
        | nil => exact .nil
        | cons y ys => cases related 0
    | cons x xs ih =>
        cases ys with
        | nil => cases related 0
        | cons y ys =>
            exact .cons (Option.rel_some_some.mp (related 0)) (ih fun e => related (e + 1))

/-- What a relation implies for entries of two lists, it implies for the lists. -/
theorem forall₂_imp_of_mem {β γ : Type} {r s : β → γ → Prop} {xs : List β} {ys : List γ}
    (related : List.Forall₂ r xs ys) (imp : ∀ x ∈ xs, ∀ y ∈ ys, r x y → s x y) :
    List.Forall₂ s xs ys := by
  obtain ⟨length, pairs⟩ := List.forall₂_iff_zip.mp related
  refine List.forall₂_iff_zip.mpr ⟨length, fun pair => ?_⟩
  obtain ⟨left, right⟩ := List.of_mem_zip pair
  exact imp _ left _ right (pairs pair)

theorem rel_mono {u v : Option Nat} (sub : ∀ x y, r x y → s x y) (related : Option.Rel r u v) :
    Option.Rel s u v := by
  cases related with
  | none => exact .none
  | some here => exact .some (sub _ _ here)

/-- Words lead from related positions to related positions, or from neither of them anywhere. -/
theorem Bisimulation.rel_follow? (bisimulation : a.Bisimulation r) (related : r x y)
    (word : List Nat) : Option.Rel r (a.follow? x word) (a.follow? y word) := by
  induction word generalizing x y with
  | nil => exact .some related
  | cons e word ih =>
      rw [follow?, follow?]
      have row := forall₂_iff_getElem?.mp (bisimulation related) e
      generalize (a.succOf x)[e]? = u at row
      generalize (a.succOf y)[e]? = v at row
      cases row with
      | none => exact .none
      | some next => exact ih next

end Automaton

namespace Classified

variable {α : Type} {c : Classified α} {r : Nat → Nat → Prop} {x y : Nat}

/-- No word tells two positions apart: each word can be followed from both or from neither, and
leads from both into one class. -/
def Alike (c : Classified α) (x y : Nat) : Prop :=
  ∀ word, Option.Rel c.partition.Same (c.automaton.follow? x word) (c.automaton.follow? y word)

theorem Alike.same (alike : c.Alike x y) : c.partition.Same x y :=
  Option.rel_some_some.mp (alike [])

theorem alike_bisimulation (c : Classified α) : c.automaton.Bisimulation c.Alike := by
  intro x y alike
  apply Automaton.forall₂_iff_getElem?.mpr
  intro e
  have first := alike [e]
  have onward : ∀ word, Option.Rel c.partition.Same (c.automaton.follow? x (e :: word))
      (c.automaton.follow? y (e :: word)) := fun word => alike (e :: word)
  simp only [Automaton.follow?] at first onward
  generalize (c.automaton.succOf x)[e]? = u at first onward
  generalize (c.automaton.succOf y)[e]? = v at first onward
  match u, v with
  | none, none => exact .none
  | some _, some _ => exact .some onward
  | none, some _ => cases first
  | some _, none => cases first

/-- Every bisimulation within the classes relates only positions that no word tells apart. -/
theorem alike_of_bisimulation (bisimulation : c.automaton.Bisimulation r)
    (within : ∀ x y, r x y → c.partition.Same x y) (related : r x y) : c.Alike x y :=
  fun word => Automaton.rel_mono within (bisimulation.rel_follow? related word)

/-! ### Rounds -/

/-- A partition, and edges that stay among the numbers that it divides. -/
structure Closed (c : Classified α) : Prop where
  valid : c.partition.Valid
  inside : ∀ ⦃i j⦄, j ∈ c.automaton.succOf i → j < c.partition.size

theorem Closed.refine (closed : c.Closed) : c.refine.Closed :=
  ⟨closed.valid.refine, closed.inside⟩

theorem Proper.closed (proper : c.Proper) : c.Closed := by
  refine ⟨proper.valid, fun i j edge => ?_⟩
  rw [proper.size]
  exact proper.wellFormed.succ_lt edge

theorem Closed.successorClasses_eq_iff (closed : c.Closed) :
    c.successorClasses x = c.successorClasses y ↔
      List.Forall₂ c.partition.Same (c.automaton.succOf x) (c.automaton.succOf y) := by
  rw [successorClasses, successorClasses, ← List.forall₂_eq_eq_eq, List.forall₂_map_left_iff,
    List.forall₂_map_right_iff, List.forall₂_iff_zip, List.forall₂_iff_zip]
  refine and_congr_right fun _ => forall₂_congr fun i j => imp_congr_right fun pair => ?_
  obtain ⟨left, right⟩ := List.of_mem_zip pair
  exact closed.valid.classOf_eq_iff (closed.inside left) (closed.inside right)

/-- A round does not separate what a bisimulation relates. -/
theorem Closed.same_refine_of_bisimulation (closed : c.Closed)
    (bisimulation : c.automaton.Bisimulation r) (within : ∀ x y, r x y → c.partition.Same x y)
    (related : r x y) : c.refine.partition.Same x y := by
  have rows : List.Forall₂ c.partition.Same (c.automaton.succOf x) (c.automaton.succOf y) :=
    (bisimulation related).imp within
  refine (Partition.same_refine c.successorClasses_equivalence).mpr ⟨within x y related, ?_⟩
  exact beq_iff_eq.mpr (closed.successorClasses_eq_iff.mpr rows)

/-- Classes that a round leaves whole are a bisimulation. -/
theorem Closed.bisimulation_of_stable (closed : c.Closed) (stable : c.Stable) :
    c.automaton.Bisimulation c.partition.Same :=
  fun x y same => closed.successorClasses_eq_iff.mp (stable x y same)

/-- What rounds of refinement keep: the automaton and the numbers that are divided stay, classes are
only split, and no bisimulation within the classes at the start is broken. -/
structure Refines (d c : Classified α) : Prop where
  automaton : d.automaton = c.automaton
  size : d.partition.size = c.partition.size
  closed : d.Closed
  finer : ∀ x y, d.partition.Same x y → c.partition.Same x y
  keeps : ∀ r, c.automaton.Bisimulation r → (∀ x y, r x y → c.partition.Same x y) →
    ∀ x y, r x y → d.partition.Same x y

theorem Refines.refine {d : Classified α} (refines : d.Refines c) : d.refine.Refines c := by
  refine ⟨refines.automaton, refines.size, refines.closed.refine, ?_, ?_⟩
  · intro x y same
    exact refines.finer x y (same_of_same_refine same)
  · intro r bisimulation within x y related
    have kept := refines.keeps r bisimulation within
    rw [← refines.automaton] at bisimulation
    exact refines.closed.same_refine_of_bisimulation bisimulation kept related

theorem Closed.refines_iterate (closed : c.Closed) (k : Nat) :
    (Classified.refine^[k] c).Refines c := by
  apply iterate_refine_induction (motive := fun d => d.Refines c)
  · exact ⟨rfl, rfl, closed, fun _ _ same => same, fun _ _ within => within⟩
  · intro d refines
    exact refines.refine

theorem Closed.refines_stable (closed : c.Closed) : c.stable.Refines c ∧ c.stable.Stable := by
  obtain ⟨k, ends, -, eq⟩ := exists_endsAfter_stable closed.valid
  rw [eq]
  exact ⟨closed.refines_iterate k, ends.stable closed.valid⟩

theorem Closed.same_stable_iff (closed : c.Closed) :
    c.stable.partition.Same x y ↔ c.Alike x y := by
  obtain ⟨refines, stable⟩ := closed.refines_stable
  constructor
  · have bisimulation := refines.closed.bisimulation_of_stable stable
    rw [refines.automaton] at bisimulation
    exact alike_of_bisimulation bisimulation refines.finer
  · exact refines.keeps c.Alike c.alike_bisimulation (fun _ _ => Alike.same) x y

/-- The rounds of refinement end, after fewer rounds than there are states, with a stable partition
that is the coarsest one within the classes at the start: two states are in one class exactly if no
word of edge numbers tells them apart. -/
theorem stable_coarsest {a : Automaton α} {p : Partition}
    (inside : ∀ ⦃i j⦄, j ∈ a.succOf i → j < a.size) (valid : p.Valid) (size : p.size = a.size) :
    (∃ k, (Classified.mk a p).EndsAfter k ∧ k + p.classes.length ≤ a.size ∧
      (Classified.mk a p).stable = Classified.refine^[k] (Classified.mk a p)) ∧
    (Classified.mk a p).stable.automaton = a ∧
    (Classified.mk a p).stable.partition.size = a.size ∧
    (Classified.mk a p).stable.partition.Valid ∧
    (∀ x y, (Classified.mk a p).stable.partition.Same x y ↔
      ∀ word, Option.Rel p.Same (a.follow? x word) (a.follow? y word)) ∧
    (Classified.mk a p).stable.Stable ∧
    ∀ q : Partition, q.Valid → q.size = a.size → (∀ x y, q.Same x y → p.Same x y) →
      (Classified.mk a q).Stable →
      ∀ x y, q.Same x y → (Classified.mk a p).stable.partition.Same x y := by
  have closed : (Classified.mk a p).Closed :=
    ⟨valid, fun i j edge => Nat.lt_of_lt_of_eq (inside edge) size.symm⟩
  obtain ⟨refines, stable⟩ := closed.refines_stable
  obtain ⟨k, ends, count, eq⟩ := exists_endsAfter_stable closed.valid
  refine ⟨⟨k, ends, ?_, eq⟩, refines.automaton, refines.size.trans size, refines.closed.valid,
    fun x y => closed.same_stable_iff, stable, ?_⟩
  · rw [← size]
    exact count
  · intro q valid' size' finer stable'
    have closed' : (Classified.mk a q).Closed :=
      ⟨valid', fun i j edge => Nat.lt_of_lt_of_eq (inside edge) size'.symm⟩
    exact refines.keeps q.Same (closed'.bisimulation_of_stable stable') finer

/-- Five states, of which the last is set apart at the start. The state that leads to it by its
second edge is separated in the first round, and the one before that in the second. -/
theorem stable_coarsest_of_five :
    let a : Automaton Nat :=
      ((((Automaton.empty.addEdges 0 [1, 2]).addEdges 1 [1, 3]).addEdges 2 [1, 2]).addEdges
        3 [1, 4]).addEdges 4 [1, 2]
    let p : Partition := (Partition.whole 5).finest fun x y => (x == 4) == (y == 4)
    (∀ ⦃i j⦄, j ∈ a.succOf i → j < a.size) ∧ p.Valid ∧ p.size = a.size ∧
    p.classes = [[0, 1, 2, 3], [4]] ∧
    (Classified.mk a p).stable.partition.classes = [[0, 2], [1], [3], [4]] ∧
    (∀ word, Option.Rel p.Same (a.follow? 0 word) (a.follow? 2 word)) ∧
    ¬ ∀ word, Option.Rel p.Same (a.follow? 0 word) (a.follow? 1 word) := by
  intro a p
  have wf : a.WellFormed :=
    ((((Automaton.wellFormed_empty.addEdges 0 [1, 2]).addEdges 1 [1, 3]).addEdges 2 [1, 2]).addEdges
      3 [1, 4]).addEdges 4 [1, 2]
  have valid : p.Valid := Partition.valid_finest_whole
  have size : p.size = a.size := by decide +kernel
  have classes : (Classified.mk a p).stable.partition.classes = [[0, 2], [1], [3], [4]] := by
    decide +kernel
  obtain ⟨-, -, -, -, same_iff, -⟩ := stable_coarsest wf.succ_lt valid size
  refine ⟨wf.succ_lt, valid, size, by decide +kernel, classes, ?_, ?_⟩
  · apply (same_iff 0 2).mp
    simp [Partition.Same, classes]
  · intro alike
    have same := (same_iff 0 1).mpr alike
    simp [Partition.Same, classes] at same

end Classified

end EvmFlow
