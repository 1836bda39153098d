import EvmFlow.Proofs.Exactness
import EvmFlow.Proofs.LoopInvariant
import EvmFlow.Proofs.RequestedGraph
import EvmFlow.Proofs.WordEquivalence
import Mathlib.Data.Finset.Card

/-!
# How small minimising makes an automaton

Minimising takes two states together exactly if no word of edge numbers tells them apart. In this
sense the result is minimal. It need not stay as large when it is minimised again. Edges of a state
that lead to one class become one edge, since an automaton has no edge twice, and the edges behind
it move up. What told two states apart may have been just this: that one of them has two edges into
a class where the other has one.

Minimising again takes two states together exactly if no word tells them apart any more. This does
not happen if states of one segment lose their edges in the same way: when the images of their
successors coincide in the same places (`FallTogether`), a relation of the images is one of the
successors themselves (`forall₂_of_eraseDups`), and a bisimulation of the small automaton is one of
the large automaton too. In a graph that was explored without folds no edges are lost at all: exits
of a node that lead into one segment lead to one node.
-/

namespace EvmFlow

/-! ### Lists that lose the same places -/

section Lists

variable {β γ : Type} {xs : List β} {ys : List γ}

/-- Entries of two lists coincide in the same places. -/
def FallTogether (xs : List β) (ys : List γ) : Prop :=
  ∀ e e' : Nat, xs[e]? = xs[e']? ↔ ys[e]? = ys[e']?

theorem FallTogether.length_eq (together : FallTogether xs ys) : xs.length = ys.length := by
  have places := together xs.length ys.length
  rw [List.getElem?_eq_none (Nat.le_refl xs.length),
    List.getElem?_eq_none (Nat.le_refl ys.length)] at places
  rcases Nat.lt_trichotomy xs.length ys.length with shorter | equal | longer
  · have past := places.mp (List.getElem?_eq_none (Nat.le_of_lt shorter)).symm
    exact absurd (List.getElem?_eq_none_iff.mp past) (Nat.not_le_of_lt shorter)
  · exact equal
  · have past := places.mpr (List.getElem?_eq_none (Nat.le_of_lt longer))
    exact absurd (List.getElem?_eq_none_iff.mp past.symm) (Nat.not_le_of_lt longer)

/-- The two lists are the halves of a list of pairs, of which each half determines the other. -/
theorem FallTogether.exists_pairs (together : FallTogether xs ys) :
    ∃ zs : List (β × γ), zs.map Prod.fst = xs ∧ zs.map Prod.snd = ys ∧
      ∀ z ∈ zs, ∀ z' ∈ zs, z.1 = z'.1 ↔ z.2 = z'.2 := by
  have length := together.length_eq
  refine ⟨xs.zip ys, List.map_fst_zip (Nat.le_of_eq length),
    List.map_snd_zip (Nat.le_of_eq length.symm), ?_⟩
  intro z hz z' hz'
  obtain ⟨e, he⟩ := List.getElem?_of_mem hz
  obtain ⟨e', he'⟩ := List.getElem?_of_mem hz'
  obtain ⟨hx, hy⟩ := List.getElem?_zip_eq_some.mp he
  obtain ⟨hx', hy'⟩ := List.getElem?_zip_eq_some.mp he'
  have coincide := together e e'
  rwa [hx, hx', hy, hy', Option.some_inj, Option.some_inj] at coincide

theorem fallTogether_of_nodup (nodup : xs.Nodup) (nodup' : ys.Nodup)
    (length : xs.length = ys.length) : FallTogether xs ys := by
  intro e e'
  by_cases inside : e < xs.length
  · rw [List.getElem?_inj inside nodup, List.getElem?_inj (length ▸ inside) nodup']
  · have outside : ys.length ≤ e := length ▸ Nat.le_of_not_lt inside
    rw [List.getElem?_eq_none (Nat.le_of_not_lt inside), List.getElem?_eq_none outside,
      eq_comm, List.getElem?_eq_none_iff, eq_comm, List.getElem?_eq_none_iff, length]

variable [DecidableEq β] [DecidableEq γ]

theorem eraseDups_of_nodup (nodup : xs.Nodup) : xs.eraseDups = xs := by
  induction xs using List.reverseRecOn with
  | nil => rfl
  | append_singleton xs x ih =>
      obtain ⟨front, -, apart⟩ := List.nodup_append.mp nodup
      have fresh : x ∉ xs := fun mem => apart x mem x (List.mem_singleton_self x) rfl
      rw [Automaton.eraseDups_concat, if_neg fresh, ih front]

/-- Two entries coincide or they do not. -/
theorem fallTogether_of_length_le_two (length : xs.length = ys.length) (short : xs.length ≤ 2)
    (different : xs.eraseDups.length = ys.eraseDups.length) : FallTogether xs ys := by
  match xs, ys, length with
  | [], [], _ => exact fallTogether_of_nodup List.nodup_nil List.nodup_nil rfl
  | [x], [y], _ =>
      exact fallTogether_of_nodup (List.nodup_singleton x) (List.nodup_singleton y) rfl
  | [x, x'], [y, y'], _ =>
      have same : x' = x ↔ y' = y := by
        by_cases hx : x' = x <;> by_cases hy : y' = y <;> simp_all [List.eraseDups_cons]
      intro e e'
      match e, e' with
      | 0, 0 | 1, 1 => simp
      | 0, 1 => simpa [eq_comm] using same
      | 1, 0 => simpa using same
      | 0, e' + 2 | 1, e' + 2 | e + 2, 0 | e + 2, 1 | e + 2, e' + 2 => simp
  | _ :: _ :: _ :: _, _, _ => simp at short

theorem eraseDups_append_self (xs : List β) : (xs ++ xs).eraseDups = xs.eraseDups := by
  have nothing : xs.removeAll xs = [] := List.filter_eq_nil_iff.mpr (by simp)
  rw [List.eraseDups_append, nothing, List.eraseDups_nil, List.append_nil]

/-- A map that is injective on a list commutes with dropping repetitions. -/
theorem eraseDups_map {f : β → γ} (injective : ∀ x ∈ xs, ∀ y ∈ xs, f x = f y → x = y) :
    (xs.map f).eraseDups = xs.eraseDups.map f := by
  induction xs using List.reverseRecOn with
  | nil => rfl
  | append_singleton xs x ih =>
      have front := ih fun y hy z hz =>
        injective y (List.mem_append_left _ hy) z (List.mem_append_left _ hz)
      have known : f x ∈ xs.map f ↔ x ∈ xs := by
        refine ⟨fun mem => ?_, List.mem_map_of_mem⟩
        obtain ⟨y, hy, same⟩ := List.mem_map.mp mem
        rwa [← injective y (List.mem_append_left _ hy) x (by simp) same]
      rw [List.map_append, List.map_singleton, Automaton.eraseDups_concat,
        Automaton.eraseDups_concat, front]
      by_cases mem : x ∈ xs
      · rw [if_pos (known.mpr mem), if_pos mem]
      · rw [if_neg (mt known.mp mem), if_neg mem, List.map_append, List.map_singleton]

/-- Lists that lose the same places are related as soon as what is left of them is. -/
theorem forall₂_of_eraseDups {r : β → γ → Prop} (together : FallTogether xs ys)
    (related : List.Forall₂ r xs.eraseDups ys.eraseDups) : List.Forall₂ r xs ys := by
  obtain ⟨zs, rfl, rfl, halves⟩ := together.exists_pairs
  -- Each half of a pair determines the other, so pairs repeat where the halves do.
  have firsts : ∀ z ∈ zs, ∀ z' ∈ zs, Prod.fst z = Prod.fst z' → z = z' :=
    fun z hz z' hz' same => Prod.ext same ((halves z hz z' hz').mp same)
  have seconds : ∀ z ∈ zs, ∀ z' ∈ zs, Prod.snd z = Prod.snd z' → z = z' :=
    fun z hz z' hz' same => Prod.ext ((halves z hz z' hz').mpr same) same
  rw [eraseDups_map firsts, eraseDups_map seconds, List.forall₂_map_left_iff,
    List.forall₂_map_right_iff, List.forall₂_same] at related
  simp only [List.mem_eraseDups] at related
  rwa [List.forall₂_map_left_iff, List.forall₂_map_right_iff, List.forall₂_same]

end Lists

/-! ### Quotients in the order of the edges -/

namespace Automaton

variable {α : Type} [DecidableEq α] {a b : Automaton α} {h : Nat → α} {r : Nat → Nat → Prop}
  {i j : Nat} {s t : α}

/-- A map from positions onto the states of an automaton, under which the targets of a state are
the images of the successors of each position that it stands for, in their order and none twice. -/
structure IsOrderedQuotient (a b : Automaton α) (h : Nat → α) : Prop where
  onto : ∀ s, s ∈ b.states ↔ ∃ x < a.size, h x = s
  targets : ∀ x < a.size, b.targets (h x) = ((a.succOf x).map h).eraseDups

/-- A relation of positions, as one of the states at them. -/
def OnStates (a : Automaton α) (r : Nat → Nat → Prop) (s t : α) : Prop :=
  ∃ i j, a.states[i]? = some s ∧ a.states[j]? = some t ∧ r i j

theorem Bisimulation.forall₂_targets (bisimulation : a.Bisimulation r) (wf : a.WellFormed)
    (hi : a.states[i]? = some s) (hj : a.states[j]? = some t) (related : r i j) :
    List.Forall₂ (a.OnStates r) (a.targets s) (a.targets t) := by
  have rows : List.Forall₂ (Option.Rel (a.OnStates r)) ((a.succOf i).map (a.states[·]?))
      ((a.succOf j).map (a.states[·]?)) := by
    rw [List.forall₂_map_left_iff, List.forall₂_map_right_iff]
    apply forall₂_imp_of_mem (bisimulation related)
    intro k left l right next
    have hk := List.getElem?_eq_getElem (wf.succ_lt left)
    have hl := List.getElem?_eq_getElem (wf.succ_lt right)
    rw [hk, hl]
    exact .some ⟨k, l, hk, hl, next⟩
  rw [wf.map_succOf hi, wf.map_succOf hj, List.forall₂_map_left_iff,
    List.forall₂_map_right_iff] at rows
  exact rows.imp fun _ _ => Option.rel_some_some.mp

/-- A bisimulation of the quotient, taken back to the positions, is one of the whole automaton, if
related positions lose the same edges. -/
theorem IsOrderedQuotient.bisimulation (quotient : a.IsOrderedQuotient b h) (wf : a.WellFormed)
    (wf' : b.WellFormed) (bisimulation : b.Bisimulation r)
    (together : ∀ x < a.size, ∀ y < a.size, b.OnStates r (h x) (h y) →
      (b.targets (h x)).length = (b.targets (h y)).length →
      FallTogether ((a.succOf x).map h) ((a.succOf y).map h)) :
    a.Bisimulation fun x y => x < a.size ∧ y < a.size ∧ b.OnStates r (h x) (h y) := by
  rintro x y ⟨hx, hy, related⟩
  have ⟨i, j, hi, hj, here⟩ := related
  have left := bisimulation.forall₂_targets wf' hi hj here
  have lose := together x hx y hy related left.length_eq
  rw [quotient.targets x hx, quotient.targets y hy] at left
  have images := forall₂_of_eraseDups lose left
  rw [List.forall₂_map_left_iff, List.forall₂_map_right_iff] at images
  apply forall₂_imp_of_mem images
  intro k left l right next
  exact ⟨wf.succ_lt left, wf.succ_lt right, next⟩

end Automaton

namespace Classified

variable {α : Type} [DecidableEq α] {c : Classified α} {h : Nat → α} {x y n : Nat}

omit [DecidableEq α] in
theorem Proper.lt_of_same (proper : c.Proper) (same : c.partition.Same x y) :
    y < c.automaton.size :=
  proper.size ▸ proper.valid.lt_of_same same

omit [DecidableEq α] in
/-- States of one class have the same images of their successors, in the same order. -/
theorem Proper.map_succOf_eq (proper : c.Proper) (stable : c.Stable) (reps : c.Represents h)
    (same : c.partition.Same x y) :
    (c.automaton.succOf x).map h = (c.automaton.succOf y).map h := by
  have rows := proper.closed.bisimulation_of_stable stable same
  rw [← List.forall₂_eq_eq_eq, List.forall₂_map_left_iff, List.forall₂_map_right_iff]
  apply Automaton.forall₂_imp_of_mem rows
  intro k left l right same
  exact (proper.rep_eq_iff reps (proper.wellFormed.succ_lt left)
    (proper.wellFormed.succ_lt right)).mpr same

/-- The first member of a class gives its representative all its targets; the others repeat
them. -/
theorem Proper.targets_joined (proper : c.Proper) (stable : c.Stable) (reps : c.Represents h)
    (hx : x < c.automaton.size) (hn : n ≤ c.automaton.size) :
    (c.joined n).targets (h x) =
      if ∃ i < n, h i = h x then ((c.automaton.succOf x).map h).eraseDups else [] := by
  induction n with
  | zero =>
      have zero : c.Joined h 0 := joined_zero
      have missing : h x ∉ (c.joined 0).states := by simp [zero.states]
      simp [zero.wellFormed.targets_of_not_mem missing]
  | succ n ih =>
      have before := ih (Nat.le_of_succ_le hn)
      have wf := (proper.joined reps (Nat.le_of_succ_le hn)).wellFormed
      rw [proper.joined_succ reps hn]
      by_cases member : h n = h x
      · have images := proper.map_succOf_eq stable reps
          ((proper.rep_eq_iff reps hn hx).mp member)
        rw [if_pos ⟨n, Nat.lt_succ_self n, member⟩, images, member]
        split at before
        · rw [Automaton.targets_addEdges_eraseDups wf before, eraseDups_append_self]
        · rw [← List.eraseDups_nil] at before
          rw [Automaton.targets_addEdges_eraseDups wf before, List.nil_append]
      · rw [Automaton.targets_addEdges_of_ne wf (Ne.symm member), before]
        simp only [Nat.exists_lt_succ_right, member, or_false]

theorem Proper.isOrderedQuotient (proper : c.Proper) (stable : c.Stable) (reps : c.Represents h) :
    c.automaton.IsOrderedQuotient c.quotient h := by
  refine ⟨(proper.isQuotient stable reps).onto, fun x hx => ?_⟩
  have whole := proper.targets_joined stable reps hx (Nat.le_refl _)
  rwa [if_pos ⟨x, hx, rfl⟩] at whole

/-- The quotient is as large as the automaton only if every class is a single state. -/
theorem Proper.size_quotient_eq_iff (proper : c.Proper) (stable : c.Stable)
    (reps : c.Represents h) :
    c.quotient.size = c.automaton.size ↔ ∀ x y, c.partition.Same x y → x = y := by
  have wf : c.quotient.WellFormed := (proper.joined reps (Nat.le_refl _)).wellFormed
  have image : c.quotient.states.toFinset = (Finset.range c.automaton.size).image h := by
    ext s
    simpa using (proper.isQuotient stable reps).onto s
  have size : c.quotient.size = ((Finset.range c.automaton.size).image h).card := by
    rw [← image, List.toFinset_card_of_nodup wf.nodup, Automaton.size]
  have injective := Finset.card_image_iff (s := Finset.range c.automaton.size) (f := h)
  rw [Finset.card_range] at injective
  rw [size, injective, Finset.coe_range]
  constructor
  · intro single x y same
    have hx := proper.lt_of_same same.symm
    have hy := proper.lt_of_same same
    exact single hx hy ((proper.rep_eq_iff reps hx hy).mpr same)
  · intro single x hx y hy equal
    exact single x y ((proper.rep_eq_iff reps hx hy).mp equal)

/-- Minimising makes an automaton smaller exactly if there are two states that no word tells
apart. -/
theorem Proper.size_minimise_eq_iff (proper : c.Proper) (nonempty : c.automaton.states ≠ []) :
    c.minimise.size = c.automaton.size ↔ ∀ x y, c.Alike x y → x = y := by
  have found := proper.stabilises_stable
  obtain ⟨h, reps⟩ := found.proper.exists_rep (by rwa [found.automaton])
  have size := found.proper.size_quotient_eq_iff found.stable reps
  rw [found.automaton] at size
  exact size.trans (forall₂_congr fun x y => imp_congr_left proper.closed.same_stable_iff)

theorem Proper.size_minimise_le (proper : c.Proper) (nonempty : c.automaton.states ≠ []) :
    c.minimise.size ≤ c.automaton.size := by
  have found := proper.stabilises_stable
  obtain ⟨h, reps⟩ := found.proper.exists_rep (by rwa [found.automaton])
  have size := (found.proper.size_edges_le found.stable reps).1
  rwa [found.automaton] at size

end Classified

/-! ### Exits into one segment -/

section Exits

variable {p : Program} {e e' k : Nat} {g t u : Node}

/-- What a segment leaves on the stack does not depend on the exit. -/
theorem Segment.stack_run_eq {s : Segment} {dests : List Nat} {f f' f'' : Frame}
    (encoded : ∀ i ∈ s.instructions, i.IsEncoded) (run : s.run dests e f = .running f')
    (run' : s.run dests e' f = .running f'') : f'.stack = f''.stack := by
  obtain ⟨k, body, last⟩ := run_eq_running run
  obtain ⟨k', body', last'⟩ := run_eq_running run'
  obtain rfl : k = k' := State.running.inj (body.symm.trans body')
  have encoded := encoded s.last (by simp [instructions])
  apply List.ext_getElem?
  intro pos
  rw [Instruction.getElem?_step_source encoded last, Instruction.getElem?_step_source encoded last']

/-- Exits of a node that lead into one segment lead to one node. -/
theorem Program.Steps.eq_of_segment (wf : p.WellFormed) (step : p.Steps e g t)
    (step' : p.Steps e' g u) (same : t.segment? = u.segment?) : t = u := by
  cases step with
  | mk source exit run _ _ =>
      cases step' with
      | mk source' _ run' _ _ =>
          cases source.symm.trans source'
          cases same
          rw [Segment.stack_run_eq (wf.encoded (List.mem_of_getElem? source) exit) run run']

theorem Node.isFailed_of_segment? (found : g.segment? = some k) : g.isFailed = false := by
  cases g with
  | «at» _ _ => rfl
  | failed _ => cases found

end Exits

/-! ### Minimising by segments, and again -/

namespace Program

variable {a b : Automaton Node} {h : Nat → Node} {x y i j : Nat}

theorem same_bySegment : (bySegment a).partition.Same x y ↔
    x < a.size ∧ y < a.size ∧ sameSegment a x y = true :=
  Partition.same_finest_whole (sameSegment_equivalence a)

/-- What minimising by segments makes of an automaton: a quotient in the order of the edges, on
nodes of the same segments, which takes together what no word tells apart. -/
structure Minimises (a b : Automaton Node) (h : Nat → Node) : Prop where
  wellFormed : b.WellFormed
  quotient : a.IsOrderedQuotient b h
  alike : ∀ x < a.size, ∀ y < a.size, h x = h y ↔ (bySegment a).Alike x y
  segment : ∀ x s, a.states[x]? = some s → (h x).segment? = s.segment?

theorem exists_minimises (wf : a.WellFormed) (nonempty : a.states ≠ []) :
    ∃ h, Minimises a (bySegment a).minimise h := by
  have proper := proper_bySegment wf
  have found := proper.stabilises_stable
  have same : (bySegment a).stable.automaton = a := found.automaton
  obtain ⟨h, reps⟩ := found.proper.exists_rep (by rwa [same])
  have quotient := found.proper.isOrderedQuotient found.stable reps
  have equal := fun {x y} => found.proper.rep_eq_iff (x := x) (y := y) reps
  rw [same] at quotient equal
  refine ⟨h, (found.proper.joined reps (Nat.le_refl _)).wellFormed, quotient, ?_, ?_⟩
  · intro x hx y hy
    exact (equal hx hy).trans proper.closed.same_stable_iff
  · intro x s hs
    obtain equal | ⟨i, image, here⟩ := rep_of_stabilises found reps hs
    · rw [equal]
    · rw [image, here]

/-- Nodes of one segment in the quotient come from nodes of one segment. -/
theorem Minimises.same_of_same (min : Minimises a b h) (hx : x < a.size) (hy : y < a.size)
    (hi : b.states[i]? = some (h x)) (hj : b.states[j]? = some (h y))
    (same : (bySegment b).partition.Same i j) : (bySegment a).partition.Same x y := by
  obtain rfl | ⟨k, left, right⟩ := sameSegment_iff.mp (same_bySegment.mp same).2.2
  · rw [hi] at hj
    exact ((min.alike x hx y hy).mp (Option.some.inj hj)).same
  · have hx' := List.getElem?_eq_getElem hx
    have hy' := List.getElem?_eq_getElem hy
    rw [hi, Option.bind_some, min.segment x _ hx'] at left
    rw [hj, Option.bind_some, min.segment y _ hy'] at right
    refine same_bySegment.mpr ⟨hx, hy, sameSegment_iff.mpr (.inr ⟨k, ?_, ?_⟩)⟩
    · rw [hx', Option.bind_some, left]
    · rw [hy', Option.bind_some, right]

/-- Nodes of one segment whose images have equally many edges lose theirs in the same places. -/
def LoseTogether (a b : Automaton Node) (h : Nat → Node) : Prop :=
  ∀ x < a.size, ∀ y < a.size, sameSegment a x y = true →
    (b.targets (h x)).length = (b.targets (h y)).length →
    FallTogether ((a.succOf x).map h) ((a.succOf y).map h)

/-- If nodes of one segment lose their edges together, what no word tells apart in the quotient is
not told apart by any word in the whole automaton. -/
theorem Minimises.eq_of_alike (min : Minimises a b h) (wf : a.WellFormed)
    (together : LoseTogether a b h) (alike : (bySegment b).Alike i j) : i = j := by
  -- Positions whose images are not told apart are related by a bisimulation within the classes.
  have within : ∀ x y, x < a.size ∧ y < a.size ∧ b.OnStates (bySegment b).Alike (h x) (h y) →
      (bySegment a).partition.Same x y := by
    rintro x y ⟨hx, hy, i, j, hi, hj, alike⟩
    exact min.same_of_same hx hy hi hj alike.same
  have bisimulation := min.quotient.bisimulation wf min.wellFormed (bySegment b).alike_bisimulation
    fun x hx y hy related =>
      together x hx y hy (same_bySegment.mp (within x y ⟨hx, hy, related⟩)).2.2
  obtain ⟨hi, hj, -⟩ := same_bySegment.mp alike.same
  have hs := List.getElem?_eq_getElem hi
  have ht := List.getElem?_eq_getElem hj
  obtain ⟨x, hx, image⟩ := (min.quotient.onto _).mp (List.getElem_mem hi)
  obtain ⟨y, hy, image'⟩ := (min.quotient.onto _).mp (List.getElem_mem hj)
  rw [← image] at hs
  rw [← image'] at ht
  have equal : h x = h y := (min.alike x hx y hy).mpr
    (Classified.alike_of_bisimulation bisimulation within ⟨hx, hy, i, j, hs, ht, alike⟩)
  exact (List.getElem?_inj hi min.wellFormed.nodup).mp (hs.trans (equal ▸ ht.symm))

/-- Edges that lead into different segments keep their targets apart. -/
theorem Minimises.nodup_map (min : Minimises a b h) (wf : a.WellFormed)
    (apart : ∀ y ∈ a.succOf x, ∀ z ∈ a.succOf x, sameSegment a y z = true → y = z) :
    ((a.succOf x).map h).Nodup := by
  refine List.Nodup.map_on (fun y hy z hz equal => apart y hy z hz ?_) (wf.succ_nodup x)
  have alike := (min.alike y (wf.succ_lt hy) z (wf.succ_lt hz)).mp equal
  exact (same_bySegment.mp alike.same).2.2

theorem Minimises.ne_nil (min : Minimises a b h) (nonempty : a.states ≠ []) : b.states ≠ [] :=
  List.ne_nil_of_mem ((min.quotient.onto (h 0)).mpr ⟨0, List.length_pos_of_ne_nil nonempty, rfl⟩)

theorem Minimises.size_eq (min : Minimises a b h) (wf : a.WellFormed) (nonempty : a.states ≠ [])
    (together : LoseTogether a b h) : (bySegment b).minimise.size = b.size :=
  ((proper_bySegment min.wellFormed).size_minimise_eq_iff (min.ne_nil nonempty)).mpr
    fun _ _ => min.eq_of_alike wf together

theorem Minimises.size_eq_of_apart (min : Minimises a b h) (wf : a.WellFormed)
    (nonempty : a.states ≠ [])
    (apart : ∀ x < a.size, ∀ y ∈ a.succOf x, ∀ z ∈ a.succOf x, sameSegment a y z = true → y = z) :
    (bySegment b).minimise.size = b.size := by
  apply min.size_eq wf nonempty
  intro x hx y hy _ count
  have left := min.nodup_map wf (apart x hx)
  have right := min.nodup_map wf (apart y hy)
  rw [min.quotient.targets x hx, min.quotient.targets y hy, eraseDups_of_nodup left,
    eraseDups_of_nodup right] at count
  exact fallTogether_of_nodup left right count

theorem Minimises.size_eq_of_few (min : Minimises a b h) (wf : a.WellFormed)
    (nonempty : a.states ≠ [])
    (few : ∀ x < a.size, ∀ y < a.size, sameSegment a x y = true →
      (a.succOf x).length = (a.succOf y).length ∧ (a.succOf x).length ≤ 2) :
    (bySegment b).minimise.size = b.size := by
  apply min.size_eq wf nonempty
  intro x hx y hy same count
  obtain ⟨length, short⟩ := few x hx y hy same
  rw [min.quotient.targets x hx, min.quotient.targets y hy] at count
  exact fallTogether_of_length_le_two (by simpa using length) (by simpa using short) count

/-! ### Graphs of programs -/

section Graph

variable {p : Program} {depth z : Nat} {g t : Node}

theorem exists_exit_of_unfolded (unfolded : (p.flowGraph depth false).stats.folded = 0)
    (edge : (p.flowGraph depth false).graph.Edge g t) :
    ∃ e : Nat, (p.successors g)[e]? = some t := by
  have lawful := p.lawful_log depth
  rw [← found_log] at edge
  obtain ⟨m, hm, rfl, rfl⟩ := lawful.edge_iff.mp edge
  rw [target_of_unfolded unfolded hm]
  exact ⟨m.exit, (lawful.legal m hm).step⟩

/-- Without folds no node of an explored graph has two edges into one segment. -/
theorem eq_of_sameSegment_of_unfolded (wf : p.WellFormed)
    (unfolded : (p.flowGraph depth false).stats.folded = 0)
    (hx : x < (p.flowGraph depth false).graph.size)
    (hy : y ∈ (p.flowGraph depth false).graph.succOf x)
    (hz : z ∈ (p.flowGraph depth false).graph.succOf x)
    (same : sameSegment (p.flowGraph depth false).graph y z = true) : y = z := by
  obtain equal | ⟨k, left, right⟩ := sameSegment_iff.mp same
  · exact equal
  have graph := (p.lawful_log depth).wellFormed
  rw [found_log] at graph
  have source := List.getElem?_eq_getElem hx
  obtain ⟨t, ht, left⟩ := Option.bind_eq_some_iff.mp left
  obtain ⟨u, hu, right⟩ := Option.bind_eq_some_iff.mp right
  obtain ⟨e, exit⟩ := exists_exit_of_unfolded unfolded ((graph.edge_iff source ht).mpr hy)
  obtain ⟨e', exit'⟩ := exists_exit_of_unfolded unfolded ((graph.edge_iff source hu).mpr hz)
  have step := steps_of_successors exit (Node.isFailed_of_segment? left)
  have step' := steps_of_successors exit' (Node.isFailed_of_segment? right)
  obtain rfl : t = u := step.eq_of_segment wf step' (left.trans right.symm)
  exact (List.getElem?_inj (graph.succ_lt hy) graph.nodup).mp (ht.trans hu.symm)

end Graph

/-- What minimising by segments makes of an automaton is minimal in this sense: two nodes become one
exactly if no word of edge numbers tells them apart. The edges of a node become the edges of its
image, in their order, except that those into one class become one edge.

Minimising again makes no more nodes, and it makes fewer exactly if there are nodes that words no
longer tell apart. There are none if nodes of one segment that keep equally many edges lose theirs
in the same places. This is so if no node has two edges into one segment, and also if nodes of one
segment have equally many edges, of which there are at most two. In particular the minimised graph
of a program is not made smaller again, if nothing was folded. -/
theorem minimise_again :
    (∀ a : Automaton Node, a.Built → a.states ≠ [] →
      let b := (bySegment a).minimise
      (bySegment b).minimise.size ≤ b.size ∧
      ((bySegment b).minimise.size = b.size ↔ ∀ i j, (bySegment b).Alike i j → i = j) ∧
      (∃ h : Nat → Node, a.IsOrderedQuotient b h ∧
        (∀ x < a.size, ∀ y < a.size, h x = h y ↔ (bySegment a).Alike x y) ∧
        (LoseTogether a b h → (bySegment b).minimise.size = b.size)) ∧
      ((∀ x < a.size, ∀ y ∈ a.succOf x, ∀ z ∈ a.succOf x, sameSegment a y z = true → y = z) →
        (bySegment b).minimise.size = b.size) ∧
      ((∀ x < a.size, ∀ y < a.size, sameSegment a x y = true →
          (a.succOf x).length = (a.succOf y).length ∧ (a.succOf x).length ≤ 2) →
        (bySegment b).minimise.size = b.size)) ∧
    ∀ (code : List Char) (depth : Nat), ((ofCode code).flowGraph depth false).stats.folded = 0 →
      let b := ((ofCode code).flowGraph depth true).graph
      (bySegment b).minimise.size = b.size := by
  constructor
  · intro a built nonempty b
    have wf := built.wellFormed
    obtain ⟨h, min⟩ := exists_minimises wf nonempty
    have proper := proper_bySegment min.wellFormed
    have nonempty' := min.ne_nil nonempty
    exact ⟨proper.size_minimise_le nonempty', proper.size_minimise_eq_iff nonempty',
      ⟨h, min.quotient, min.alike, min.size_eq wf nonempty⟩, min.size_eq_of_apart wf nonempty,
      min.size_eq_of_few wf nonempty⟩
  · intro code depth unfolded b
    have lawful := (ofCode code).lawful_log depth
    have graph := lawful.wellFormed
    have first := List.ne_nil_of_mem (List.mem_of_getElem? lawful.first)
    rw [Log.nodes, found_log] at first
    rw [found_log] at graph
    obtain ⟨h, min⟩ := exists_minimises graph first
    apply min.size_eq_of_apart graph first
    intro x hx y hy z hz
    exact eq_of_sameSegment_of_unfolded (wellFormed_ofCode code) unfolded hx hy hz

/-- Two nodes of segment 0 lose an edge each, since their edges lead to nodes of segment 1 that
become one. They become one too, and a third, which keeps both its edges, stays apart. The program
enters its last segment with two different stacks. -/
theorem minimise_again_of_seven :
    let a : Automaton Node :=
      ((Automaton.empty.addEdges (.at 0 []) [.at 1 [], .at 1 [.known 1]]).addEdges
        (.at 0 [.known 1]) [.at 1 [.known 2], .at 1 []]).addEdges
        (.at 0 [.known 2]) [.at 1 [.known 1], .failed "stuck"]
    let b := (bySegment a).minimise
    let p := ofCode "346009576001600c565b600c5b00".toList
    a.Built ∧ a.states ≠ [] ∧
      (∀ x < a.size, ∀ y < a.size, sameSegment a x y = true →
        (a.succOf x).length = (a.succOf y).length ∧ (a.succOf x).length ≤ 2) ∧
      a.size = 7 ∧ b.size = 4 ∧ b.targets (.at 0 []) = [.at 1 []] ∧
      (bySegment b).minimise.size = 4 ∧
      (p.flowGraph 20 false).stats.folded = 0 ∧ (p.flowGraph 20 false).graph.size = 5 ∧
      (p.flowGraph 20 true).graph.size = 4 ∧
      (bySegment (p.flowGraph 20 true).graph).minimise.size = 4 := by
  intro a b p
  have built : a.Built :=
    .addEdges (.addEdges (.addEdges .empty _ _) _ _) _ _
  have nonempty : a.states ≠ [] := by decide +kernel
  have few : ∀ x < a.size, ∀ y < a.size, sameSegment a x y = true →
      (a.succOf x).length = (a.succOf y).length ∧ (a.succOf x).length ≤ 2 := by decide +kernel
  have size : b.size = 4 := by decide +kernel
  have unfolded : (p.flowGraph 20 false).stats.folded = 0 := by decide +kernel
  have size' : (p.flowGraph 20 true).graph.size = 4 := by decide +kernel
  obtain ⟨automata, programs⟩ := minimise_again
  obtain ⟨-, -, -, -, again⟩ := automata a built nonempty
  exact ⟨built, nonempty, few, by decide +kernel, size, by decide +kernel, (again few).trans size,
    unfolded, by decide +kernel, size', (programs _ 20 unfolded).trans size'⟩

/-- Two nodes of segment 0 stay apart, since one has two edges into segment 1 and the other has one.
After that each has one edge, and they are taken together when this is minimised again. -/
theorem minimise_again_smaller :
    let a : Automaton Node :=
      (Automaton.empty.addEdges (.at 0 []) [.at 1 [], .at 1 [.known 1]]).addEdges
        (.at 0 [.known 1]) [.at 1 []]
    let b := (bySegment a).minimise
    a.Built ∧ a.states ≠ [] ∧ b.states = [.at 0 [], .at 1 [], .at 0 [.known 1]] ∧
      b.targets (.at 0 []) = [.at 1 []] ∧ b.targets (.at 0 [.known 1]) = [.at 1 []] ∧
      b.size = 3 ∧ (bySegment b).minimise.size = 2 := by
  intro a b
  have built : a.Built := .addEdges (.addEdges .empty _ _) _ _
  exact ⟨built, by decide +kernel, by decide +kernel, by decide +kernel, by decide +kernel,
    by decide +kernel, by decide +kernel⟩

end Program

end EvmFlow
