import EvmFlow.FlowGraph.Basic
import EvmFlow.Proofs.Automaton
import EvmFlow.Proofs.Partition
import Mathlib.Logic.Function.Iterate

/-!
# Minimisation is a quotient

Rounds of refinement end in a stable partition: states of one class have successors in the same
classes, in the same order. Every member of a class then adds the same edges to its representative,
and the automaton on the representatives is a quotient of the whole one. Its walks are the images
of walks, and states and edges become no more.
-/

namespace EvmFlow

/-- A map from positions onto the states of an automaton, under which the edges out of a state are
the images of those out of each position that it stands for. -/
structure Automaton.IsQuotient {α : Type} [DecidableEq α] (a b : Automaton α) (h : Nat → α) :
    Prop where
  onto : ∀ s, s ∈ b.states ↔ ∃ x < a.size, h x = s
  edge : ∀ x < a.size, ∀ t, b.Edge (h x) t ↔ ∃ y ∈ a.succOf x, h y = t

namespace Automaton

variable {α β : Type} [DecidableEq α] {a b : Automaton α} {label : α → β} {rel : α → α → Prop}
  {h : Nat → α}

/-- One automaton follows every edge of another from related states, and related states carry the
same label. -/
structure Simulates (a b : Automaton α) (label : α → β) (rel : α → α → Prop) : Prop where
  start : ∀ s, a.states[0]? = some s → ∃ t, b.states[0]? = some t ∧ rel s t
  step : ∀ s s' t, rel s t → a.Edge s s' → ∃ t', b.Edge t t' ∧ rel s' t'
  alike : ∀ s t, rel s t → label t = label s

theorem Simulates.exists_chain (sim : a.Simulates b label rel) {s t : α} {ws : List α}
    (related : rel s t) (chain : (s :: ws).IsChain a.Edge) :
    ∃ vs, (t :: vs).IsChain b.Edge ∧ vs.map label = ws.map label := by
  induction ws generalizing s t with
  | nil => exact ⟨[], List.isChain_singleton t, rfl⟩
  | cons s' ws ih =>
      obtain ⟨edge, rest⟩ := List.isChain_cons_cons.mp chain
      obtain ⟨t', edge', related'⟩ := sim.step s s' t related edge
      obtain ⟨vs, chain', labels⟩ := ih related' rest
      refine ⟨t' :: vs, List.isChain_cons_cons.mpr ⟨edge', chain'⟩, ?_⟩
      rw [List.map_cons, List.map_cons, sim.alike s' t' related', labels]

/-- Every walk is followed by one with the same labels. -/
theorem Simulates.exists_walk (sim : a.Simulates b label rel) (nonempty : a.states ≠ [])
    {ws : List α} (walk : a.IsWalk ws) : ∃ vs, b.IsWalk vs ∧ vs.map label = ws.map label := by
  cases ws with
  | nil =>
      have none : a.states[0]? = none := walk.head.symm
      rw [List.getElem?_eq_none_iff, Nat.le_zero, List.length_eq_zero_iff] at none
      exact absurd none nonempty
  | cons s ws =>
      obtain ⟨t, first, related⟩ := sim.start s walk.head.symm
      obtain ⟨vs, chain, labels⟩ := sim.exists_chain related walk.chain
      refine ⟨t :: vs, ⟨first.symm, chain⟩, ?_⟩
      rw [List.map_cons, List.map_cons, sim.alike s t related, labels]

/-- The quotient follows the automaton: an edge is taken to the edge between the images. -/
theorem IsQuotient.simulates (quotient : a.IsQuotient b h) (wf : a.WellFormed)
    (first' : b.states[0]? = some (h 0))
    (alike : ∀ x s, a.states[x]? = some s → label (h x) = label s) :
    a.Simulates b label fun s t => ∃ x, a.states[x]? = some s ∧ h x = t := by
  constructor
  · intro s hs
    exact ⟨h 0, first', 0, hs, rfl⟩
  · rintro s s' _ ⟨x, hx, rfl⟩ edge
    obtain ⟨y, hy⟩ := List.getElem?_of_mem edge.target_mem
    have row := (wf.edge_iff hx hy).mp edge
    have bound := (List.getElem?_eq_some_iff.mp hx).1
    exact ⟨h y, (quotient.edge x bound _).mpr ⟨y, row, rfl⟩, y, hy, rfl⟩
  · rintro s _ ⟨x, hx, rfl⟩
    exact alike x s hx

/-- The automaton follows the quotient: every position has an edge for each edge of its image. -/
theorem IsQuotient.simulated (quotient : a.IsQuotient b h) (wf : a.WellFormed)
    (first : a.states[0]? = some (h 0)) (first' : b.states[0]? = some (h 0))
    (alike : ∀ x s, a.states[x]? = some s → label (h x) = label s) :
    b.Simulates a label fun t s => ∃ x, a.states[x]? = some s ∧ h x = t := by
  constructor
  · intro t ht
    rw [first'] at ht
    exact ⟨h 0, first, 0, first, Option.some.inj ht⟩
  · rintro _ t' s ⟨x, hx, rfl⟩ edge
    have bound := (List.getElem?_eq_some_iff.mp hx).1
    obtain ⟨y, hy, image⟩ := (quotient.edge x bound t').mp edge
    have hs' := List.getElem?_eq_getElem (wf.succ_lt hy)
    exact ⟨_, (wf.edge_iff hx hs').mpr hy, y, hs', image⟩
  · rintro _ s ⟨x, hx, rfl⟩
    exact (alike x s hx).symm

/-- The same sequences of labels stand along the walks of an automaton and of its quotient. -/
theorem IsQuotient.exists_walk_iff (quotient : a.IsQuotient b h) (wf : a.WellFormed)
    (first : a.states[0]? = some (h 0)) (first' : b.states[0]? = some (h 0))
    (alike : ∀ x s, a.states[x]? = some s → label (h x) = label s) (labels : List β) :
    (∃ ws, a.IsWalk ws ∧ ws.map label = labels) ↔
      ∃ vs, b.IsWalk vs ∧ vs.map label = labels := by
  constructor
  · rintro ⟨ws, walk, rfl⟩
    exact (quotient.simulates wf first' alike).exists_walk
      (List.ne_nil_of_mem (List.mem_of_getElem? first)) walk
  · rintro ⟨vs, walk, rfl⟩
    exact (quotient.simulated wf first first' alike).exists_walk
      (List.ne_nil_of_mem (List.mem_of_getElem? first')) walk

end Automaton

namespace Classified

variable {α : Type} [DecidableEq α] {c d : Classified α} {x y n : Nat}

/-- A well formed automaton and a partition of the positions of its states. -/
structure Proper (c : Classified α) : Prop where
  wellFormed : c.automaton.WellFormed
  valid : c.partition.Valid
  size : c.partition.size = c.automaton.size

/-- States of one class have successors in the same classes, in the same order. -/
def Stable (c : Classified α) : Prop :=
  ∀ x y, c.partition.Same x y → c.successorClasses x = c.successorClasses y

/-- A stable classification of the same automaton that is at least as fine. -/
structure Stabilises (c d : Classified α) : Prop where
  proper : d.Proper
  stable : d.Stable
  automaton : d.automaton = c.automaton
  finer : ∀ x y, d.partition.Same x y → c.partition.Same x y

/-- A map that takes the position of every state to the state that represents its class. -/
def Represents (c : Classified α) (h : Nat → α) : Prop :=
  ∀ x < c.automaton.size, c.repState? x = some (h x)

section Rounds

omit [DecidableEq α]

theorem successorClasses_equivalence (c : Classified α) :
    Equivalence fun x y => (c.successorClasses x == c.successorClasses y) = true := by
  constructor
  · intro x
    simp
  · intro x y h
    simpa using (beq_iff_eq.mp h).symm
  · intro x y z hxy hyz
    simpa using (beq_iff_eq.mp hxy).trans (beq_iff_eq.mp hyz)

theorem same_of_same_refine (same : c.refine.partition.Same x y) : c.partition.Same x y :=
  ((Partition.same_refine c.successorClasses_equivalence).mp same).1

theorem Proper.refine (proper : c.Proper) : c.refine.Proper :=
  ⟨proper.wellFormed, proper.valid.refine, proper.size⟩

/-- A round that makes no more classes separates nothing. -/
theorem stable_of_length (valid : c.partition.Valid)
    (equal : c.refine.partition.classes.length = c.partition.classes.length) : c.Stable := by
  intro x y same
  have near := valid.equiv_of_length_refine c.successorClasses_equivalence equal same
  exact beq_iff_eq.mp near

/-- What every round keeps, any number of rounds keep. -/
theorem iterate_refine_induction {motive : Classified α → Prop} (start : motive c)
    (round : ∀ d, motive d → motive d.refine) (k : Nat) : motive (Classified.refine^[k] c) := by
  induction k with
  | zero => exact start
  | succ k ih =>
      rw [Function.iterate_succ_apply']
      exact round _ ih

theorem valid_iterate_refine (valid : c.partition.Valid) (k : Nat) :
    (Classified.refine^[k] c).partition.Valid :=
  iterate_refine_induction (motive := fun d => d.partition.Valid) valid
    (fun _ valid => valid.refine) k

theorem automaton_iterate_refine (c : Classified α) (k : Nat) :
    (Classified.refine^[k] c).automaton = c.automaton :=
  iterate_refine_induction (motive := fun d => d.automaton = c.automaton) rfl
    (fun _ same => same) k

/-- The rounds end after `k` of them: each of these makes more classes, and one more does not. -/
structure EndsAfter (c : Classified α) (k : Nat) : Prop where
  grows : ∀ j < k, (Classified.refine^[j + 1] c).partition.classes.length ≠
    (Classified.refine^[j] c).partition.classes.length
  stands : (Classified.refine^[k + 1] c).partition.classes.length =
    (Classified.refine^[k] c).partition.classes.length

/-- Every round but the last makes more classes, and there are never more classes than states. -/
theorem exists_endsAfter (valid : c.partition.Valid) {fuel : Nat}
    (enough : c.partition.size < fuel + c.partition.classes.length) :
    ∃ k, c.EndsAfter k ∧ k + c.partition.classes.length ≤ c.partition.size ∧
      stabilise fuel c = Classified.refine^[k] c := by
  have bound := valid.length_le
  induction fuel generalizing c with
  | zero => omega
  | succ fuel ih =>
      rw [Classified.stabilise]
      split
      · rename_i equal
        exact ⟨0, ⟨fun j early => absurd early (Nat.not_lt_zero j), equal⟩, by omega, rfl⟩
      · rename_i more
        have grows : c.partition.classes.length ≤ c.refine.partition.classes.length :=
          valid.length_le_refine
        have size : c.refine.partition.size = c.partition.size := rfl
        have valid' : c.refine.partition.Valid := valid.refine
        obtain ⟨k, ends, count, eq⟩ := ih valid' (by omega) valid'.length_le
        refine ⟨k + 1, ⟨?_, ends.stands⟩, by omega, eq⟩
        intro j early
        cases j with
        | zero => exact more
        | succ j => exact ends.grows j (Nat.lt_of_succ_lt_succ early)

/-- The number of states is fuel enough. -/
theorem exists_endsAfter_stable (valid : c.partition.Valid) :
    ∃ k, c.EndsAfter k ∧ k + c.partition.classes.length ≤ c.partition.size ∧
      c.stable = Classified.refine^[k] c :=
  exists_endsAfter valid (by omega)

theorem EndsAfter.stable {k : Nat} (ends : c.EndsAfter k) (valid : c.partition.Valid) :
    (Classified.refine^[k] c).Stable := by
  have stands := ends.stands
  rw [Function.iterate_succ_apply'] at stands
  exact stable_of_length (valid_iterate_refine valid k) stands

theorem Proper.stabilises_stable (proper : c.Proper) : c.Stabilises c.stable := by
  obtain ⟨k, ends, -, eq⟩ := exists_endsAfter_stable proper.valid
  rw [eq]
  constructor
  · exact iterate_refine_induction proper (fun _ proper => proper.refine) k
  · exact ends.stable proper.valid
  · exact automaton_iterate_refine c k
  · exact iterate_refine_induction
      (motive := fun d => ∀ x y, d.partition.Same x y → c.partition.Same x y)
      (fun _ _ same => same) (fun _ finer x y same => finer x y (same_of_same_refine same)) k

end Rounds

section Quotient

variable {h : Nat → α}

omit [DecidableEq α] in
/-- Every class has a representative. -/
theorem Proper.exists_rep (proper : c.Proper) (nonempty : c.automaton.states ≠ []) :
    ∃ h : Nat → α, c.Represents h := by
  refine ⟨fun x => (c.repState? x).getD (c.automaton.states.head nonempty), ?_⟩
  intro x hx
  have bound := proper.valid.rep_lt (proper.size ▸ hx)
  rw [proper.size, Automaton.size] at bound
  simp [repState?, List.getElem?_eq_getElem bound]

omit [DecidableEq α] in
theorem Proper.rep_eq_iff (proper : c.Proper) (reps : c.Represents h) (hx : x < c.automaton.size)
    (hy : y < c.automaton.size) : h x = h y ↔ c.partition.Same x y := by
  have hrx := proper.valid.rep_lt (proper.size ▸ hx)
  rw [proper.size, Automaton.size] at hrx
  rw [← proper.valid.rep_eq_iff (proper.size ▸ hx) (proper.size ▸ hy),
    ← List.getElem?_inj hrx proper.wellFormed.nodup, ← Option.some_inj, ← reps x hx, ← reps y hy]
  rfl

/-- The automaton on the representatives after the first states have added their edges. -/
def joined (c : Classified α) (n : Nat) : Automaton α := (List.range n).foldl c.addImages .empty

/-- One more state adds the representatives of its successors behind its own. -/
theorem Proper.joined_succ (proper : c.Proper) (reps : c.Represents h) (hn : n < c.automaton.size) :
    c.joined (n + 1) = (c.joined n).addEdges (h n) ((c.automaton.succOf n).map h) := by
  have images : (c.automaton.succOf n).filterMap c.repState? = (c.automaton.succOf n).map h := by
    rw [← List.filterMap_eq_map]
    apply List.filterMap_congr
    intro y hy
    exact reps y (proper.wellFormed.succ_lt hy)
  rw [← images, joined, List.range_succ, List.foldl_concat, addImages, reps n hn]
  rfl

/-- What has been joined after the first states: their representatives with their images as
targets. -/
structure Joined (c : Classified α) (h : Nat → α) (n : Nat) : Prop where
  wellFormed : (c.joined n).WellFormed
  states : ∀ s, s ∈ (c.joined n).states ↔
    ∃ x < n, h x = s ∨ ∃ y ∈ c.automaton.succOf x, h y = s
  edge : ∀ s t, (c.joined n).Edge s t ↔ ∃ x < n, h x = s ∧ ∃ y ∈ c.automaton.succOf x, h y = t
  first : 0 < n → (c.joined n).states[0]? = some (h 0)

theorem joined_zero : c.Joined h 0 :=
  ⟨Automaton.wellFormed_empty, by simp [joined, Automaton.empty],
    by simp [joined, Automaton.Edge, Automaton.targets, Automaton.index?, Automaton.empty],
    fun h => absurd h (Nat.lt_irrefl 0)⟩

theorem Joined.succ (before : c.Joined h n) (proper : c.Proper)
    (reps : c.Represents h) (hn : n < c.automaton.size) :
    c.Joined h (n + 1) := by
  have next := proper.joined_succ reps hn
  constructor
  · rw [next]
    exact before.wellFormed.addEdges _ _
  · intro s
    rw [next, Automaton.mem_states_addEdges before.wellFormed, before.states,
      Nat.exists_lt_succ_right, List.mem_map, eq_comm (a := s)]
  · intro s t
    rw [next, Automaton.edge_addEdges_iff before.wellFormed, before.edge,
      Nat.exists_lt_succ_right, List.mem_map, eq_comm (a := s)]
  · intro _
    have front := Automaton.addState_prefix_addEdges before.wellFormed (h n)
      ((c.automaton.succOf n).map h)
    rw [← next] at front
    have start : ((c.joined n).addState (h n)).states[0]? = some (h 0) := by
      cases n with
      | zero => rfl
      | succ n =>
          have first := before.first (Nat.succ_pos n)
          rw [Automaton.getElem?_states_addState (List.getElem?_eq_some_iff.mp first).1]
          exact first
    obtain ⟨rest, eq⟩ := front
    rw [← eq, List.getElem?_append_left (List.getElem?_eq_some_iff.mp start).1]
    exact start

theorem Proper.joined (proper : c.Proper) (reps : c.Represents h) (hn : n ≤ c.automaton.size) :
    c.Joined h n := by
  induction n with
  | zero => exact joined_zero
  | succ n ih => exact (ih (Nat.le_of_succ_le hn)).succ proper reps hn

theorem Proper.isQuotient (proper : c.Proper) (stable : c.Stable) (reps : c.Represents h) :
    c.automaton.IsQuotient c.quotient h := by
  have whole : c.Joined h c.automaton.size := proper.joined reps (Nat.le_refl _)
  constructor
  · intro s
    refine (whole.states s).trans ⟨?_, ?_⟩
    · rintro ⟨x, hx, here | ⟨y, hy, there⟩⟩
      · exact ⟨x, hx, here⟩
      · exact ⟨y, proper.wellFormed.succ_lt hy, there⟩
    · rintro ⟨x, hx, here⟩
      exact ⟨x, hx, .inl here⟩
  · intro x hx t
    refine (whole.edge (h x) t).trans ⟨?_, ?_⟩
    · rintro ⟨z, hz, equal, y, hy, rfl⟩
      -- The edge may come from another member of the class; stability finds it at `x`.
      have same := (proper.rep_eq_iff reps hz hx).mp equal
      have hclass : c.partition.classOf y ∈ c.successorClasses x := by
        rw [← stable z x same]
        exact List.mem_map_of_mem hy
      obtain ⟨w, hw, alike⟩ := List.mem_map.mp hclass
      have hy' := proper.wellFormed.succ_lt hy
      have hw' := proper.wellFormed.succ_lt hw
      refine ⟨w, hw, (proper.rep_eq_iff reps hw' hy').mpr ?_⟩
      exact (proper.valid.classOf_eq_iff (proper.size ▸ hw') (proper.size ▸ hy')).mp alike
    · rintro ⟨y, hy, there⟩
      exact ⟨x, hx, rfl, y, hy, there⟩

omit [DecidableEq α] in
/-- The representative of a class is one of its members, and stands for the same state. -/
theorem Proper.exists_member (proper : c.Proper)
    (reps : c.Represents h) (hx : x < c.automaton.size) :
    ∃ r, c.partition.Same x r ∧ c.automaton.states[r]? = some (h x) :=
  ⟨c.partition.rep x, (proper.valid.rep_least (proper.size ▸ hx)).1, reps x hx⟩

omit [DecidableEq α] in
/-- The first state represents its class. -/
theorem Proper.first_rep (proper : c.Proper) (nonempty : c.automaton.states ≠ [])
    (reps : c.Represents h) :
    c.automaton.states[0]? = some (h 0) := by
  have positive : 0 < c.automaton.size := List.length_pos_of_ne_nil nonempty
  have bound : 0 < c.partition.size := proper.size ▸ positive
  have least := (proper.valid.rep_least bound).2 0 (proper.valid.same_refl bound)
  have rep := reps 0 positive
  rwa [repState?, Nat.le_zero.mp least] at rep

/-- A state of the quotient has at most the edges that it has in the whole automaton. -/
theorem Proper.size_edges_le (proper : c.Proper) (stable : c.Stable) (reps : c.Represents h) :
    c.quotient.size ≤ c.automaton.size ∧ c.quotient.edges ≤ c.automaton.edges := by
  have quotient := proper.isQuotient stable reps
  have wf : c.quotient.WellFormed := (proper.joined reps (Nat.le_refl _)).wellFormed
  have sub : c.quotient.states ⊆ c.automaton.states := by
    intro s hs
    obtain ⟨x, hx, rfl⟩ := (quotient.onto s).mp hs
    obtain ⟨r, _, hr⟩ := proper.exists_member reps hx
    exact List.mem_of_getElem? hr
  refine ⟨(List.subperm_of_subset wf.nodup sub).length_le,
    proper.wellFormed.edges_le wf sub ?_⟩
  intro s hs
  obtain ⟨x, hx, rfl⟩ := (quotient.onto s).mp hs
  obtain ⟨r, same, hr⟩ := proper.exists_member reps hx
  have hr' := (List.getElem?_eq_some_iff.mp hr).1
  have images : c.quotient.targets (h x) ⊆ (c.automaton.succOf r).map h := by
    intro t ht
    rw [(proper.rep_eq_iff reps hx hr').mpr same] at ht
    obtain ⟨y, hy, image⟩ := (quotient.edge r hr' t).mp ht
    exact List.mem_map.mpr ⟨y, hy, image⟩
  have bound := (List.subperm_of_subset (wf.targets_nodup _) images).length_le
  rwa [List.length_map, ← proper.wellFormed.length_targets hr] at bound

end Quotient

end Classified

namespace Program

variable {a : Automaton Node} {x y : Nat}

theorem sameSegment_iff : sameSegment a x y = true ↔ x = y ∨
    ∃ i, (a.states[x]?).bind Node.segment? = some i ∧
      (a.states[y]?).bind Node.segment? = some i := by
  rw [sameSegment, Bool.or_eq_true, beq_iff_eq]
  refine or_congr Iff.rfl ?_
  split
  · rename_i i j hi hj
    rw [hi, hj, beq_iff_eq]
    constructor
    · rintro rfl
      exact ⟨i, rfl, rfl⟩
    · rintro ⟨k, hk, hk'⟩
      exact (Option.some.inj hk).trans (Option.some.inj hk').symm
  · rename_i missing
    simp only [Bool.false_eq_true, false_iff]
    rintro ⟨i, hx, hy⟩
    exact missing i i hx hy

theorem sameSegment_equivalence (a : Automaton Node) :
    Equivalence fun x y => sameSegment a x y = true := by
  constructor
  · intro x
    exact sameSegment_iff.mpr (.inl rfl)
  · intro x y near
    rcases sameSegment_iff.mp near with rfl | ⟨i, hx, hy⟩
    · exact near
    · exact sameSegment_iff.mpr (.inr ⟨i, hy, hx⟩)
  · intro x y z hxy hyz
    rcases sameSegment_iff.mp hxy with rfl | ⟨i, hx, hy⟩
    · exact hyz
    · rcases sameSegment_iff.mp hyz with rfl | ⟨j, hy', hz⟩
      · exact hxy
      · rw [hy] at hy'
        exact sameSegment_iff.mpr (.inr ⟨i, hx, hy' ▸ hz⟩)

theorem proper_bySegment (wf : a.WellFormed) : (bySegment a).Proper :=
  ⟨wf, Partition.valid_finest_whole, rfl⟩

/-- Refining the classes of segments never puts nodes of different segments, or a failure and
another node, into one class. -/
theorem rep_of_stabilises {c : Classified Node} {h : Nat → Node} {s : Node}
    (found : (bySegment a).Stabilises c) (reps : c.Represents h) (hs : a.states[x]? = some s) :
    h x = s ∨ ∃ i, (h x).segment? = some i ∧ s.segment? = some i := by
  have same : c.automaton = a := found.automaton
  have hx : x < c.automaton.size := by
    rw [same]
    exact (List.getElem?_eq_some_iff.mp hs).1
  obtain ⟨r, member, hr⟩ := found.proper.exists_member reps hx
  rw [same] at hr
  have near := (Partition.same_finest_whole (sameSegment_equivalence a)).mp
    (found.finer x r member)
  rcases sameSegment_iff.mp near.2.2 with rfl | ⟨i, hxi, hri⟩
  · exact .inl (Option.some.inj (hr.symm.trans hs))
  · rw [hs] at hxi
    rw [hr] at hri
    exact .inr ⟨i, hri, hxi⟩

/-- Minimising by segments makes a quotient. Positions go to nodes of their segment, failures to
themselves, and the first node stays first. The walks pass through the same segments, and there are
no more nodes and no more edges than before. -/
theorem minimise_isQuotient (a : Automaton Node) (built : a.Built) (nonempty : a.states ≠ []) :
    (∃ h : Nat → Node, a.IsQuotient (bySegment a).minimise h ∧
      (∀ x s, a.states[x]? = some s →
        (∀ i, s.segment? = some i → (h x).segment? = some i) ∧ (s.isFailed = true → h x = s)) ∧
      a.states[0]? = some (h 0) ∧ (bySegment a).minimise.states[0]? = some (h 0)) ∧
    (∀ is, (∃ ws, a.IsWalk ws ∧ ws.map Node.segment? = is) ↔
      ∃ vs, (bySegment a).minimise.IsWalk vs ∧ vs.map Node.segment? = is) ∧
    (bySegment a).minimise.size ≤ a.size ∧ (bySegment a).minimise.edges ≤ a.edges := by
  have wf := built.wellFormed
  have found := (proper_bySegment wf).stabilises_stable
  have same : (bySegment a).stable.automaton = a := found.automaton
  obtain ⟨h, reps⟩ := found.proper.exists_rep (by rwa [same])
  have alike : ∀ x s, a.states[x]? = some s →
      h x = s ∨ ∃ i, (h x).segment? = some i ∧ s.segment? = some i :=
    fun x s hs => rep_of_stabilises found reps hs
  have labels : ∀ x s, a.states[x]? = some s → (h x).segment? = s.segment? := by
    intro x s hs
    rcases alike x s hs with equal | ⟨i, image, here⟩
    · rw [equal]
    · rw [image, here]
  have quotient := found.proper.isQuotient found.stable reps
  have counts := found.proper.size_edges_le found.stable reps
  have first := found.proper.first_rep (by rwa [same]) reps
  have first' : (bySegment a).minimise.states[0]? = some (h 0) :=
    (found.proper.joined reps (Nat.le_refl _)).first
      (by rw [same]; exact List.length_pos_of_ne_nil nonempty)
  rw [same] at quotient counts first
  refine ⟨⟨h, quotient, ?_, first, first'⟩, ?_, counts⟩
  · intro x s hs
    refine ⟨fun i hi => (labels x s hs).trans hi, ?_⟩
    intro failed
    rcases alike x s hs with equal | ⟨i, _, here⟩
    · exact equal
    · cases s with
      | «at» j stack => cases failed
      | failed message => cases here
  · intro is
    exact quotient.exists_walk_iff wf first first' labels is

/-- Two nodes of segment 1 that fail alike become one; a third, which leads back, stays apart. -/
theorem minimise_isQuotient_of_three :
    let a : Automaton Node :=
      (((((Automaton.empty.addEdge (.at 0 []) (.at 1 [.known 1])).addEdge
        (.at 0 []) (.at 1 [.known 2])).addEdge (.at 0 []) (.at 1 [.known 3])).addEdge
        (.at 1 [.known 1]) (.failed "stuck")).addEdge (.at 1 [.known 2]) (.failed "stuck")).addEdge
        (.at 1 [.known 3]) (.at 0 [])
    a.Built ∧ a.states ≠ [] ∧ a.size = 5 ∧ (bySegment a).minimise.size = 4 ∧
    (∃ h : Nat → Node, a.IsQuotient (bySegment a).minimise h ∧
      (∀ x s, a.states[x]? = some s →
        (∀ i, s.segment? = some i → (h x).segment? = some i) ∧ (s.isFailed = true → h x = s)) ∧
      a.states[0]? = some (h 0) ∧ (bySegment a).minimise.states[0]? = some (h 0)) ∧
    (∀ is, (∃ ws, a.IsWalk ws ∧ ws.map Node.segment? = is) ↔
      ∃ vs, (bySegment a).minimise.IsWalk vs ∧ vs.map Node.segment? = is) ∧
    (bySegment a).minimise.size ≤ a.size ∧ (bySegment a).minimise.edges ≤ a.edges := by
  intro a
  have built : a.Built :=
    .addEdge (.addEdge (.addEdge (.addEdge (.addEdge (.addEdge .empty _ _) _ _) _ _) _ _) _ _) _ _
  have nonempty : a.states ≠ [] := by decide +kernel
  exact ⟨built, nonempty, by decide +kernel, by decide +kernel,
    minimise_isQuotient a built nonempty⟩

end Program

end EvmFlow
