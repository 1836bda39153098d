import EvmFlow.FlowGraph.StackBound
import Mathlib.Logic.Function.Iterate
import Mathlib.Order.Nat

/-!
# Recomputing what has changed itself

`Automaton.iterate` looks again at the entries that the last round has changed, and not at the
entries that read them. So an entry is recomputed up to the first round that leaves it as it is
(`Rests`), and not once more after that, whatever happens to the entries that it reads.

When nothing is scheduled any more, every entry has been reproduced, but each one from the values
of its own last round. The values found are a fixpoint exactly if what has changed since then makes
no difference. This is so when every entry depends on itself alone, and it fails on a chain of three
nodes, along which a value would have to be handed on twice.
-/

namespace EvmFlow.Automaton

variable {α : Type} [DecidableEq α] {f : Nat → List α → α} {xs v : List α} {i r k n : Nat}

/-! ### Rounds -/

/-- One round on what is scheduled and the values: what has changed, and the new values. -/
def round (f : Nat → List α → α) (s : List Nat × List α) : List Nat × List α :=
  let ys := s.2.mapIdx fun i x => if i ∈ s.1 then f i s.2 else x
  ((List.range s.2.length).filter fun i => ys[i]? != s.2[i]?, ys)

theorem round_nil : round f ([], xs) = ([], xs) := by
  have same : (xs.mapIdx fun _ x => x) = xs := by
    apply List.ext_getElem?
    intro i
    rw [List.getElem?_mapIdx, Option.map_id']
  simp [round, same]

/-- Rounds that are not made would change nothing. -/
theorem iterate_eq_round (scheduled : List Nat) :
    iterate f n scheduled xs =
      if ((round f)^[n] (scheduled, xs)).1.isEmpty then .inl ((round f)^[n] (scheduled, xs)).2
      else .inr ((round f)^[n] (scheduled, xs)).2 := by
  induction n generalizing scheduled xs with
  | zero => rfl
  | succ n ih =>
      rw [iterate, Function.iterate_succ_apply]
      split
      · rename_i done
        rw [List.isEmpty_iff.mp done, round_nil, Function.iterate_fixed round_nil]
        rfl
      · exact ih _

/-- What is scheduled and the values, after `r` rounds that start with everything scheduled. -/
def roundsFrom (f : Nat → List α → α) (xs : List α) (r : Nat) : List Nat × List α :=
  (round f)^[r] (List.range xs.length, xs)

/-- The values after `r` rounds that start with everything scheduled. -/
def valuesAfter (f : Nat → List α → α) (xs : List α) (r : Nat) : List α :=
  (iterate f r (List.range xs.length) xs).elim id id

theorem valuesAfter_eq : valuesAfter f xs r = (roundsFrom f xs r).2 := by
  rw [valuesAfter, iterate_eq_round]
  split <;> rfl

theorem iterate_eq_inl_iff :
    iterate f n (List.range xs.length) xs = .inl v ↔
      (roundsFrom f xs n).1 = [] ∧ valuesAfter f xs n = v := by
  rw [iterate_eq_round, valuesAfter_eq, ← List.isEmpty_iff]
  show (if (roundsFrom f xs n).1.isEmpty then _ else _) = _ ↔ _
  split
  · rename_i done
    rw [and_iff_right done, Sum.inl.injEq]
    rfl
  · rename_i busy
    simp [busy]

theorem roundsFrom_succ : roundsFrom f xs (r + 1) = round f (roundsFrom f xs r) :=
  Function.iterate_succ_apply' _ _ _

@[simp] theorem length_valuesAfter : (valuesAfter f xs r).length = xs.length := by
  rw [valuesAfter_eq]
  induction r with
  | zero => rfl
  | succ r ih => simpa [roundsFrom_succ, round] using ih

theorem getElem?_valuesAfter_succ (inside : i < xs.length) :
    (valuesAfter f xs (r + 1))[i]? =
      if i ∈ (roundsFrom f xs r).1 then some (f i (valuesAfter f xs r))
      else (valuesAfter f xs r)[i]? := by
  have found : (valuesAfter f xs r)[i]? = some _ :=
    List.getElem?_eq_getElem (inside.trans_eq length_valuesAfter.symm)
  rw [valuesAfter_eq, roundsFrom_succ, round, List.getElem?_mapIdx, ← valuesAfter_eq, found]
  split <;> rfl

/-- What a round has changed is what is scheduled next. -/
theorem mem_scheduled_succ (inside : i < xs.length) :
    i ∈ (roundsFrom f xs (r + 1)).1 ↔
      (valuesAfter f xs (r + 1))[i]? ≠ (valuesAfter f xs r)[i]? := by
  rw [valuesAfter_eq, valuesAfter_eq, roundsFrom_succ, round, List.mem_filter, bne_iff_ne,
    List.mem_range, ← valuesAfter_eq, length_valuesAfter]
  exact and_iff_right inside

/-! ### The last look at an entry -/

/-- Round `r` is the first one that leaves entry `i` as it is. -/
def Rests (f : Nat → List α → α) (xs : List α) (i r : Nat) : Prop :=
  (valuesAfter f xs (r + 1))[i]? = (valuesAfter f xs r)[i]? ∧
    ∀ k < r, (valuesAfter f xs (k + 1))[i]? ≠ (valuesAfter f xs k)[i]?

instance : Decidable (Rests f xs i r) := inferInstanceAs (Decidable (_ ∧ _))

theorem Rests.mem_scheduled (rests : Rests f xs i r) (inside : i < xs.length) :
    i ∈ (roundsFrom f xs r).1 := by
  cases r with
  | zero => exact List.mem_range.mpr inside
  | succ r => exact (mem_scheduled_succ inside).mpr (rests.2 r (Nat.lt_succ_self r))

/-- The last look at an entry reproduces it. -/
theorem Rests.reproduced (rests : Rests f xs i r) (inside : i < xs.length) :
    (valuesAfter f xs r)[i]? = some (f i (valuesAfter f xs r)) := by
  rw [← rests.1, getElem?_valuesAfter_succ inside, if_pos (rests.mem_scheduled inside)]

/-- Entries that a round leaves as they are are not looked at again. -/
theorem Rests.kept (rests : Rests f xs i r) (inside : i < xs.length) (later : r ≤ k) :
    (valuesAfter f xs k)[i]? = (valuesAfter f xs r)[i]? := by
  -- The induction needs that the next round leaves the entry alone too.
  suffices both : (valuesAfter f xs k)[i]? = (valuesAfter f xs r)[i]? ∧
      (valuesAfter f xs (k + 1))[i]? = (valuesAfter f xs k)[i]? from both.1
  induction later with
  | refl => exact ⟨rfl, rests.1⟩
  | @step k _ ih =>
      obtain ⟨same, still⟩ := ih
      have unscheduled : i ∉ (roundsFrom f xs (k + 1)).1 :=
        fun scheduled => (mem_scheduled_succ inside).mp scheduled still
      refine ⟨still.trans same, ?_⟩
      rw [getElem?_valuesAfter_succ inside, if_neg unscheduled]

/-- If nothing is scheduled after `n` rounds, one of them has left the entry as it is. -/
theorem exists_rests (done : (roundsFrom f xs n).1 = []) (inside : i < xs.length) :
    ∃ r < n, Rests f xs i r := by
  have unscheduled : i ∉ (roundsFrom f xs n).1 := done ▸ List.not_mem_nil
  cases n with
  | zero => exact absurd (List.mem_range.mpr inside) unscheduled
  | succ n =>
      have last : (valuesAfter f xs (n + 1))[i]? = (valuesAfter f xs n)[i]? :=
        not_not.mp fun changed => unscheduled ((mem_scheduled_succ inside).mpr changed)
      have some : ∃ r, (valuesAfter f xs (r + 1))[i]? = (valuesAfter f xs r)[i]? := ⟨n, last⟩
      exact ⟨Nat.find some, Nat.lt_succ_of_le (Nat.find_min' some last), Nat.find_spec some,
        fun k earlier => Nat.find_min some earlier⟩

/-- If the rounds end because nothing is scheduled, every entry of the answer was reproduced in the
first round `r` that left it as it is, and it has not been looked at since. So it is what the answer
itself gives for it exactly if it is no matter to the entry what has changed after round `r`. In
particular the answer is a fixpoint if every entry depends on itself alone. -/
theorem iterate_fixed_iff {f : Nat → List α → α} {xs v : List α} {n : Nat}
    (stopped : iterate f n (List.range xs.length) xs = .inl v) :
    v.length = xs.length ∧
      (∀ i < xs.length, ∃ r < n, Rests f xs i r ∧
        (∀ k, r ≤ k → (valuesAfter f xs k)[i]? = v[i]?) ∧
        v[i]? = some (f i (valuesAfter f xs r)) ∧
        (v[i]? = some (f i v) ↔ f i v = f i (valuesAfter f xs r))) ∧
      ((∀ i x y, x.length = xs.length → y.length = xs.length → x[i]? = y[i]? → f i x = f i y) →
        ∀ i < xs.length, v[i]? = some (f i v)) := by
  obtain ⟨done, rfl⟩ := iterate_eq_inl_iff.mp stopped
  have looks : ∀ i < xs.length, ∃ r < n, Rests f xs i r ∧
      (∀ k, r ≤ k → (valuesAfter f xs k)[i]? = (valuesAfter f xs n)[i]?) ∧
      (valuesAfter f xs n)[i]? = some (f i (valuesAfter f xs r)) ∧
      ((valuesAfter f xs n)[i]? = some (f i (valuesAfter f xs n)) ↔
        f i (valuesAfter f xs n) = f i (valuesAfter f xs r)) := by
    intro i inside
    obtain ⟨r, before, rests⟩ := exists_rests done inside
    have kept := rests.kept inside (Nat.le_of_lt before)
    have reproduced := kept.trans (rests.reproduced inside)
    refine ⟨r, before, rests, ?_, reproduced, ?_⟩
    · intro k later
      rw [rests.kept inside later, kept]
    · rw [reproduced, Option.some_inj]
      exact eq_comm
  refine ⟨length_valuesAfter, looks, ?_⟩
  intro alone i inside
  obtain ⟨r, -, -, same, -, fixed⟩ := looks i inside
  apply fixed.mpr
  exact alone i _ _ length_valuesAfter length_valuesAfter (same r (Nat.le_refl r)).symm

/-- Entries that count up to their limits, each for itself. -/
theorem iterate_fixed_iff_of_counters :
    let f := fun (i : Nat) (xs : List Nat) => min (xs.getD i 0 + 1) (i + 1)
    iterate f 4 (List.range 3) [0, 0, 0] = .inl [1, 2, 3] ∧ Rests f [0, 0, 0] 1 2 ∧
      valuesAfter f [0, 0, 0] 2 = [1, 2, 2] ∧ ∀ i < 3, [1, 2, 3][i]? = some (f i [1, 2, 3]) := by
  intro f
  have stopped : iterate f 4 (List.range 3) [0, 0, 0] = .inl [1, 2, 3] := by decide
  obtain ⟨-, -, fixed⟩ := @iterate_fixed_iff _ _ f [0, 0, 0] [1, 2, 3] 4 stopped
  refine ⟨stopped, by decide, by decide, fixed ?_⟩
  intro i x y _ _ same
  simp only [f, List.getD_eq_getElem?_getD, same]

/-- The greatest value along edges, on a chain of three nodes. The second round leaves the middle
node as it is, nothing is scheduled, and the first node has not been told of the greatest value. -/
theorem iterate_stops_before_fixpoint :
    let a : Automaton Nat := (empty.addEdge 0 1).addEdge 1 2
    let f := fun i (xs : List Nat) =>
      max (xs.getD i 0) (Program.largest ((a.succOf i).map fun j => xs.getD j 0))
    iterate f 10 (List.range 3) [0, 0, 5] = .inl [0, 5, 5] ∧ f 0 [0, 5, 5] = 5 := by
  decide

end EvmFlow.Automaton
