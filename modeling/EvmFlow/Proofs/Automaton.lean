import EvmFlow.Automaton
import Mathlib.Algebra.Order.BigOperators.Group.List
import Mathlib.Algebra.Order.Group.Nat
import Mathlib.Data.List.Chain
import Mathlib.Data.List.Nodup
import Mathlib.Data.List.Perm.Subperm
import Mathlib.Tactic.Tauto

/-!
# Automata as graphs on their states

Positions are an encoding. What an automaton says about its states is the list `targets` of the
states to which the edges out of a state lead, in the order in which they were added. In a well
formed automaton each operation has one equation on `states` and one on `targets`, and later
proofs use these two views only.

`Built` holds of the automata that the operations can make; all of them are well formed, and list
their edges backwards too.
-/

namespace EvmFlow.Automaton

variable {α : Type} [DecidableEq α]

/-- The states to which the edges out of a state lead, in the order of the edges. -/
def targets (a : Automaton α) (s : α) : List α :=
  match a.index? s with
  | some i => (a.succOf i).filterMap (a.states[·]?)
  | none => []

/-- There is an edge from one state to another. -/
def Edge (a : Automaton α) (s t : α) : Prop := t ∈ a.targets s

instance (a : Automaton α) (s t : α) : Decidable (a.Edge s t) :=
  inferInstanceAs (Decidable (t ∈ a.targets s))

/-- A walk along edges, from the first state of the automaton. -/
structure IsWalk (a : Automaton α) (ws : List α) : Prop where
  head : ws.head? = a.states[0]?
  chain : ws.IsChain a.Edge

/-- No state is listed twice, the dictionary has the position of every state and nothing else, every
state has a row of successors, and a row lists positions of states, none of them twice. -/
structure WellFormed (a : Automaton α) : Prop where
  nodup : a.states.Nodup
  index : a.index = a.states.zipIdx
  rows : a.succ.length = a.states.length
  succ_lt : ∀ ⦃i j⦄, j ∈ a.succOf i → j < a.states.length
  succ_nodup : ∀ i, (a.succOf i).Nodup

/-- The automata that adding states and edges to the empty one makes. -/
inductive Built : Automaton α → Prop where
  | empty : Built .empty
  | addState {a : Automaton α} (h : Built a) (s : α) : Built (a.addState s)
  | addEdge {a : Automaton α} (h : Built a) (s t : α) : Built (a.addEdge s t)

section Positions

variable {a : Automaton α} {s t u : α} {i j : Nat}

/-- In a list without repetitions, looking up a place and looking for an entry undo each other. -/
theorem idxOf?_eq_some_iff {l : List α} (nodup : l.Nodup) :
    l.idxOf? s = some i ↔ l[i]? = some s := by
  unfold List.idxOf?
  rw [List.findIdx?_eq_some_iff_getElem]
  constructor
  · rintro ⟨hi, found, _⟩
    simpa [List.getElem?_eq_getElem hi] using found
  · intro found
    obtain ⟨hi, rfl⟩ := List.getElem?_eq_some_iff.mp found
    refine ⟨hi, by simp, ?_⟩
    intro k hk same
    have := (List.Nodup.getElem_inj_iff nodup).mp (beq_iff_eq.mp same)
    omega

/-- The dictionary answers what a search through the states would. -/
theorem WellFormed.index?_eq (wf : a.WellFormed) (s : α) : a.index? s = a.states.idxOf? s := by
  rw [index?, wf.index, Dictionary.lookup_zipIdx]
  simp

theorem WellFormed.index?_eq_some_iff (wf : a.WellFormed) :
    a.index? s = some i ↔ a.states[i]? = some s := by
  rw [wf.index?_eq, idxOf?_eq_some_iff wf.nodup]

theorem WellFormed.exists_index? (wf : a.WellFormed) (h : s ∈ a.states) :
    ∃ i, a.index? s = some i := by
  rw [← Option.isSome_iff_exists, wf.index?_eq, List.isSome_idxOf?]
  exact h

/-- The targets of a state, once its position is known. -/
theorem targets_eq (h : a.index? s = some i) :
    a.targets s = (a.succOf i).filterMap (a.states[·]?) := by
  simp [targets, h]

theorem WellFormed.targets_of_not_mem (wf : a.WellFormed) (h : s ∉ a.states) :
    a.targets s = [] := by
  have none : a.index? s = none := (wf.index?_eq s).trans (List.idxOf?_eq_none_iff.mpr h)
  simp [targets, none]

/-- What the automaton answers about a state that is there. -/
theorem WellFormed.successors?_eq (wf : a.WellFormed) (h : s ∈ a.states) :
    a.successors? s = .ok (a.targets s) := by
  obtain ⟨i, hi⟩ := wf.exists_index? h
  simp [successors?, targets, hi]

/-- Two positions of one list of states hold the same state only if they are equal, so the edge
from `s` to `t` is there exactly if the row of `s` lists the position of `t`. -/
theorem WellFormed.edge_iff (wf : a.WellFormed) (hi : a.states[i]? = some s)
    (hj : a.states[j]? = some t) : a.Edge s t ↔ j ∈ a.succOf i := by
  rw [Edge, targets_eq (wf.index?_eq_some_iff.mpr hi), List.mem_filterMap]
  constructor
  · rintro ⟨k, hk, found⟩
    have : k = j := by
      have hk' := wf.index?_eq_some_iff.mpr found
      rw [wf.index?_eq_some_iff.mpr hj] at hk'
      exact (Option.some.inj hk').symm
    exact this ▸ hk
  · intro hk
    exact ⟨j, hk, hj⟩

theorem Edge.target_mem (h : a.Edge s t) : t ∈ a.states := by
  unfold Edge targets at h
  split at h
  · obtain ⟨k, _, found⟩ := List.mem_filterMap.mp h
    exact List.mem_of_getElem? found
  · simp at h

theorem Edge.source_mem (wf : a.WellFormed) (h : a.Edge s t) : s ∈ a.states := by
  by_contra missing
  rw [Edge, wf.targets_of_not_mem missing] at h
  exact List.not_mem_nil h

end Positions

section Walks

variable {a : Automaton α} {ws : List α} {s t : α}

/-- A walk stays among the states. -/
theorem IsWalk.mem_states (walk : a.IsWalk ws) (hs : s ∈ ws) : s ∈ a.states := by
  induction ws using List.reverseRecOn generalizing s with
  | nil => cases hs
  | append_singleton ws t ih =>
      obtain ⟨chain, _, last⟩ := List.isChain_append.mp walk.chain
      rcases List.eq_nil_or_concat ws with rfl | ⟨us, u, rfl⟩
      · obtain rfl : s = t := by simpa using hs
        exact List.mem_of_getElem? walk.head.symm
      · rw [List.concat_eq_append] at ih chain last hs
        rcases List.mem_append.mp hs with before | here
        · refine ih ⟨?_, chain⟩ before
          rw [← walk.head]
          simp
        · obtain rfl : s = t := by simpa using here
          have edge : a.Edge u s := last u (by simp) s (by simp)
          exact edge.target_mem

/-- A walk goes on along an edge out of its last state. -/
theorem IsWalk.snoc (walk : a.IsWalk (ws ++ [s])) (edge : a.Edge s t) :
    a.IsWalk (ws ++ [s] ++ [t]) := by
  refine ⟨?_, List.isChain_append.mpr ⟨walk.chain, List.isChain_singleton t, ?_⟩⟩
  · rw [← walk.head]
    simp
  · intro x hx y hy
    obtain rfl : s = x := by simpa using hx
    obtain rfl : t = y := by simpa using hy
    exact edge

end Walks

section AddState

variable {a : Automaton α} {s u : α}

theorem states_addState (a : Automaton α) (s : α) :
    (a.addState s).states = if s ∈ a.states then a.states else a.states ++ [s] := by
  unfold addState
  split <;> rfl

theorem addState_of_mem (h : s ∈ a.states) : a.addState s = a := if_pos h

@[simp] theorem mem_states_addState : u ∈ (a.addState s).states ↔ u ∈ a.states ∨ u = s := by
  rw [states_addState]
  split <;> grind

/-- A row past the end is empty. -/
theorem getD_concat_nil (rows : List (List Nat)) (i : Nat) :
    ((rows ++ [[]])[i]?).getD [] = (rows[i]?).getD [] := by
  rcases Nat.lt_or_ge i rows.length with hi | hi
  · rw [List.getElem?_append_left hi]
  · rw [List.getElem?_append_right hi, List.getElem?_eq_none hi]
    cases i - rows.length <;> rfl

/-- A new state has an empty row, and the other rows stay where they are. -/
theorem succOf_addState (a : Automaton α) (s : α) (i : Nat) :
    (a.addState s).succOf i = a.succOf i := by
  unfold addState
  split
  · rfl
  · exact getD_concat_nil a.succ i

theorem WellFormed.addState (wf : a.WellFormed) (s : α) : (a.addState s).WellFormed := by
  by_cases h : s ∈ a.states
  · rw [addState_of_mem h]
    exact wf
  · have states : (a.addState s).states = a.states ++ [s] := by rw [states_addState, if_neg h]
    refine ⟨?_, ?_, ?_, ?_, ?_⟩
    · rw [states]
      exact List.nodup_append.mpr ⟨wf.nodup, List.nodup_singleton s, by grind⟩
    · -- The state is not a key yet, so its position is written behind the others.
      have new : s ∉ a.index.map Prod.fst := by
        rw [wf.index, List.zipIdx_map_fst]
        exact h
      rw [states, Automaton.addState, if_neg h, Dictionary.set_of_not_mem new, wf.index,
        List.zipIdx_append]
      simp
    · simp [Automaton.addState, h, wf.rows]
    · intro i j hj
      rw [succOf_addState] at hj
      have := wf.succ_lt hj
      simp only [states, List.length_append, List.length_singleton]
      omega
    · intro i
      rw [succOf_addState]
      exact wf.succ_nodup i

theorem getElem?_states_addState {i : Nat} (hi : i < a.states.length) :
    (a.addState s).states[i]? = a.states[i]? := by
  rw [states_addState]
  split
  · rfl
  · exact List.getElem?_append_left hi

/-- Adding a state adds no edge. -/
@[simp] theorem targets_addState (wf : a.WellFormed) (s u : α) :
    (a.addState s).targets u = a.targets u := by
  have wf' := wf.addState s
  by_cases hu : u ∈ a.states
  · obtain ⟨i, hi⟩ := wf.exists_index? hu
    have found := wf.index?_eq_some_iff.mp hi
    have bound : i < a.states.length := (List.getElem?_eq_some_iff.mp found).1
    have hi' : (a.addState s).index? u = some i := by
      rw [wf'.index?_eq_some_iff, getElem?_states_addState bound]
      exact found
    rw [targets_eq hi, targets_eq hi', succOf_addState]
    apply List.filterMap_congr
    intro j hj
    exact getElem?_states_addState (wf.succ_lt hj)
  · rw [wf.targets_of_not_mem hu]
    -- A state that has just been added has an empty row.
    unfold targets
    split
    · rename_i i hi
      have found := wf'.index?_eq_some_iff.mp hi
      have beyond : a.succ.length ≤ i := by
        by_contra below
        rw [Nat.not_le, wf.rows] at below
        rw [getElem?_states_addState below] at found
        exact hu (List.mem_of_getElem? found)
      rw [succOf_addState, succOf, List.getElem?_eq_none beyond]
      rfl
    · rfl

end AddState

section AddEdge

variable {a : Automaton α} {s t u : α} {i j : Nat}

omit [DecidableEq α] in
@[simp] theorem states_link (a : Automaton α) (i j : Nat) : (a.link i j).states = a.states := by
  unfold link
  split <;> rfl

omit [DecidableEq α] in
@[simp] theorem index_link (a : Automaton α) (i j : Nat) : (a.link i j).index = a.index := by
  unfold link
  split <;> rfl

omit [DecidableEq α] in
theorem succOf_link (hi : i < a.succ.length) (k : Nat) :
    (a.link i j).succOf k =
      if k = i ∧ j ∉ a.succOf i then a.succOf i ++ [j] else a.succOf k := by
  unfold link
  by_cases known : j ∈ a.succOf i
  · simp [known]
  · rw [if_neg known]
    simp only [succOf, List.getElem?_modify]
    by_cases hk : k = i
    · subst hk
      simpa [succOf, List.getElem?_eq_getElem hi] using known
    · simp [hk, Ne.symm hk]

omit [DecidableEq α] in
theorem WellFormed.link (wf : a.WellFormed) (hi : i < a.states.length)
    (hj : j < a.states.length) : (a.link i j).WellFormed := by
  have row := succOf_link (j := j) (wf.rows ▸ hi)
  refine ⟨by simpa using wf.nodup, by simpa using wf.index, ?_, ?_, ?_⟩
  · have rows := wf.rows
    unfold Automaton.link
    split <;> simpa using rows
  · intro k l hl
    rw [states_link]
    rw [row] at hl
    split at hl
    · rcases List.mem_append.mp hl with old | new
      · exact wf.succ_lt old
      · rw [List.mem_singleton.mp new]
        exact hj
    · exact wf.succ_lt hl
  · intro k
    rw [row]
    split
    · rename_i fresh
      exact List.nodup_append.mpr ⟨wf.succ_nodup i, List.nodup_singleton j, by grind⟩
    · exact wf.succ_nodup k

/-- An edge is added behind those that its source has, unless it is one of them. -/
theorem targets_link (wf : a.WellFormed) (hi : a.states[i]? = some s)
    (hj : a.states[j]? = some t) (u : α) :
    (a.link i j).targets u =
      if u = s ∧ t ∉ a.targets s then a.targets u ++ [t] else a.targets u := by
  have hi' := (List.getElem?_eq_some_iff.mp hi).1
  have wf' := wf.link hi' (List.getElem?_eq_some_iff.mp hj).1
  have known : t ∈ a.targets s ↔ j ∈ a.succOf i := wf.edge_iff hi hj
  have row := succOf_link (j := j) (wf.rows ▸ hi')
  by_cases hu : u ∈ a.states
  · obtain ⟨k, hk⟩ := wf.exists_index? hu
    have hk' : (a.link i j).index? u = some k := by
      rw [index?, index_link]
      exact hk
    have same : k = i ↔ u = s := by
      have hs := wf.index?_eq_some_iff.mpr hi
      constructor
      · rintro rfl
        have := wf.index?_eq_some_iff.mp hk
        rw [hi] at this
        exact (Option.some.inj this).symm
      · rintro rfl
        rw [hs] at hk
        exact (Option.some.inj hk).symm
    rw [targets_eq hk, targets_eq hk', row, states_link]
    by_cases new : u = s ∧ t ∉ a.targets s
    · rw [if_pos new, if_pos ⟨same.mpr new.1, known.not.mp new.2⟩, same.mpr new.1]
      simp [hj]
    · rw [if_neg new, if_neg (fun h => new ⟨same.mp h.1, known.not.mpr h.2⟩)]
  · have hs : u ≠ s := fun h => hu (h ▸ List.mem_of_getElem? hi)
    rw [wf.targets_of_not_mem hu, wf'.targets_of_not_mem (by simpa using hu),
      if_neg (fun h => hs h.1)]

/-- Adding an edge is adding its ends and then linking their positions. -/
theorem exists_addEdge_eq_link (wf : a.WellFormed) (s t : α) :
    ∃ i j, ((a.addState s).addState t).states[i]? = some s ∧
      ((a.addState s).addState t).states[j]? = some t ∧
      a.addEdge s t = ((a.addState s).addState t).link i j := by
  have wf' := (wf.addState s).addState t
  obtain ⟨i, hi⟩ := wf'.exists_index? (s := s) (by simp)
  obtain ⟨j, hj⟩ := wf'.exists_index? (s := t) (by simp)
  refine ⟨i, j, wf'.index?_eq_some_iff.mp hi, wf'.index?_eq_some_iff.mp hj, ?_⟩
  simp [addEdge, hi, hj]

theorem states_addEdge (wf : a.WellFormed) (s t : α) :
    (a.addEdge s t).states = ((a.addState s).addState t).states := by
  obtain ⟨i, j, _, _, eq⟩ := exists_addEdge_eq_link wf s t
  rw [eq, states_link]

/-- An edge out of a state that is there can add its target only. -/
theorem states_addEdge_of_mem (wf : a.WellFormed) (h : s ∈ a.states) (t : α) :
    (a.addEdge s t).states = if t ∈ a.states then a.states else a.states ++ [t] := by
  rw [states_addEdge wf, addState_of_mem h, states_addState]

theorem mem_states_addEdge (wf : a.WellFormed) :
    u ∈ (a.addEdge s t).states ↔ u ∈ a.states ∨ u = s ∨ u = t := by
  rw [states_addEdge wf, mem_states_addState, mem_states_addState, or_assoc]

theorem WellFormed.addEdge (wf : a.WellFormed) (s t : α) : (a.addEdge s t).WellFormed := by
  obtain ⟨i, j, hi, hj, eq⟩ := exists_addEdge_eq_link wf s t
  rw [eq]
  exact ((wf.addState s).addState t).link (List.getElem?_eq_some_iff.mp hi).1
    (List.getElem?_eq_some_iff.mp hj).1

theorem targets_addEdge (wf : a.WellFormed) (s t u : α) :
    (a.addEdge s t).targets u =
      if u = s ∧ t ∉ a.targets s then a.targets u ++ [t] else a.targets u := by
  obtain ⟨i, j, hi, hj, eq⟩ := exists_addEdge_eq_link wf s t
  rw [eq, targets_link ((wf.addState s).addState t) hi hj]
  simp only [targets_addState (wf.addState s), targets_addState wf]

theorem edge_addEdge_iff (wf : a.WellFormed) {v w : α} :
    (a.addEdge s t).Edge v w ↔ a.Edge v w ∨ (v = s ∧ w = t) := by
  unfold Edge
  rw [targets_addEdge wf]
  split <;> grind

/-- An element written behind a list is kept unless the list has it. -/
theorem eraseDups_concat (ts : List α) (t : α) :
    (ts ++ [t]).eraseDups = if t ∈ ts then ts.eraseDups else ts.eraseDups ++ [t] := by
  rw [List.eraseDups_append]
  by_cases known : t ∈ ts
  · simp [known, List.removeAll]
  · simp [known, List.removeAll, List.eraseDups_cons]

/-- If the targets of the source are a list without its repetitions, they stay so when the new
target is written behind that list. -/
theorem targets_addEdge_eraseDups (wf : a.WellFormed) {ts : List α}
    (h : a.targets s = ts.eraseDups) (t : α) :
    (a.addEdge s t).targets s = (ts ++ [t]).eraseDups := by
  rw [targets_addEdge wf, eraseDups_concat, h]
  by_cases known : t ∈ ts <;> simp [known]

end AddEdge

section AddEdges

variable {a : Automaton α} {s u v w : α} {ts : List α}

theorem addEdges_cons (a : Automaton α) (s t : α) (ts : List α) :
    a.addEdges s (t :: ts) = (a.addEdge s t).addEdges s ts := rfl

theorem WellFormed.addEdges (wf : a.WellFormed) (s : α) (ts : List α) :
    (a.addEdges s ts).WellFormed := by
  induction ts generalizing a with
  | nil => exact wf.addState s
  | cons t ts ih => exact ih (wf.addEdge s t)

theorem Built.addEdges (built : a.Built) (s : α) (ts : List α) : (a.addEdges s ts).Built := by
  induction ts generalizing a with
  | nil => exact built.addState s
  | cons t ts ih => exact ih (built.addEdge s t)

theorem mem_states_addEdges (wf : a.WellFormed) :
    u ∈ (a.addEdges s ts).states ↔ u ∈ a.states ∨ u = s ∨ u ∈ ts := by
  induction ts generalizing a with
  | nil => simp [addEdges]
  | cons t ts ih =>
      rw [addEdges_cons, ih (wf.addEdge s t), mem_states_addEdge wf, List.mem_cons]
      tauto

theorem edge_addEdges_iff (wf : a.WellFormed) :
    (a.addEdges s ts).Edge v w ↔ a.Edge v w ∨ (v = s ∧ w ∈ ts) := by
  induction ts generalizing a with
  | nil => simp [addEdges, Edge, targets_addState wf]
  | cons t ts ih =>
      rw [addEdges_cons, ih (wf.addEdge s t), edge_addEdge_iff wf, List.mem_cons]
      tauto

/-- The targets of the source stay a list without its repetitions, the new ones behind it. -/
theorem targets_addEdges_eraseDups (wf : a.WellFormed) {us : List α}
    (h : a.targets s = us.eraseDups) (ts : List α) :
    (a.addEdges s ts).targets s = (us ++ ts).eraseDups := by
  induction ts generalizing a us with
  | nil =>
      rw [List.append_nil, ← h]
      exact targets_addState wf s s
  | cons t ts ih =>
      rw [addEdges_cons, ih (wf.addEdge s t) (targets_addEdge_eraseDups wf h t), List.append_assoc,
        List.singleton_append]

theorem targets_addEdges_of_ne (wf : a.WellFormed) (other : u ≠ s) :
    (a.addEdges s ts).targets u = a.targets u := by
  induction ts generalizing a with
  | nil => exact targets_addState wf s u
  | cons t ts ih =>
      rw [addEdges_cons, ih (wf.addEdge s t), targets_addEdge wf, if_neg fun here => other here.1]

theorem states_prefix_addState (a : Automaton α) (s : α) :
    a.states <+: (a.addState s).states := by
  rw [states_addState]
  split
  · exact List.prefix_refl _
  · exact List.prefix_append _ _

/-- The source of edges is added before their targets. -/
theorem addState_prefix_addEdges (wf : a.WellFormed) (s : α) (ts : List α) :
    (a.addState s).states <+: (a.addEdges s ts).states := by
  induction ts generalizing a with
  | nil => exact List.prefix_refl _
  | cons t ts ih =>
      have source := states_prefix_addState (a.addState s) t
      rw [← states_addEdge wf] at source
      have again := states_prefix_addState (a.addEdge s t) s
      exact (source.trans again).trans (ih (wf.addEdge s t))

end AddEdges

section Counts

variable {a b : Automaton α} {s : α} {i : Nat}

theorem WellFormed.length_targets (wf : a.WellFormed) (hi : a.states[i]? = some s) :
    (a.targets s).length = (a.succOf i).length := by
  rw [targets_eq (wf.index?_eq_some_iff.mpr hi), List.filterMap_length_eq_length]
  intro j hj
  simp [wf.succ_lt hj]

/-- The entries of a row and the targets of its state, place by place. -/
theorem WellFormed.getElem?_targets (wf : a.WellFormed) (hi : a.states[i]? = some s) (e : Nat) :
    (a.targets s)[e]? = (a.succOf i)[e]?.bind (a.states[·]?) := by
  rw [targets_eq (wf.index?_eq_some_iff.mpr hi)]
  have inside : ∀ j ∈ a.succOf i, j < a.states.length := fun j hj => wf.succ_lt hj
  generalize a.succOf i = js at inside
  induction js generalizing e with
  | nil => rfl
  | cons j rest ih =>
      obtain ⟨first, others⟩ := List.forall_mem_cons.mp inside
      have found := List.getElem?_eq_getElem first
      rw [List.filterMap_cons_some found]
      cases e with
      | zero => exact found.symm
      | succ e => exact ih e others

theorem WellFormed.targets_nodup (wf : a.WellFormed) (s : α) : (a.targets s).Nodup := by
  unfold targets
  split
  · rename_i i _
    refine List.Nodup.filterMap ?_ (wf.succ_nodup i)
    intro j k t hj hk
    have index := wf.index?_eq_some_iff.mpr hj
    rw [wf.index?_eq_some_iff.mpr hk] at index
    exact (Option.some.inj index).symm
  · exact List.nodup_nil

theorem WellFormed.edges_eq (wf : a.WellFormed) :
    a.edges = (a.states.flatMap a.targets).length := by
  have rows : a.succ.map List.length = a.states.map fun s => (a.targets s).length := by
    apply List.ext_getElem
    · simp [wf.rows]
    · intro i hi hi'
      simp only [List.length_map] at hi hi'
      have count := wf.length_targets (List.getElem?_eq_getElem hi')
      simpa [succOf, List.getElem?_eq_getElem hi] using count.symm
  rw [edges, edgesFrom, List.drop_zero, List.length_flatten, rows, List.length_flatMap]

/-- Fewer states, each with fewer edges, make fewer edges. -/
theorem WellFormed.edges_le (wf : a.WellFormed) (wf' : b.WellFormed)
    (sub : b.states ⊆ a.states)
    (fewer : ∀ s ∈ b.states, (b.targets s).length ≤ (a.targets s).length) :
    b.edges ≤ a.edges := by
  rw [wf.edges_eq, wf'.edges_eq, List.length_flatMap, List.length_flatMap]
  obtain ⟨ss, perm, sublist⟩ := List.subperm_of_subset wf'.nodup sub
  calc (b.states.map fun s => (b.targets s).length).sum
      ≤ (b.states.map fun s => (a.targets s).length).sum := List.sum_le_sum fewer
    _ = (ss.map fun s => (a.targets s).length).sum := (perm.map _).sum_eq.symm
    _ ≤ (a.states.map fun s => (a.targets s).length).sum :=
      (sublist.map _).sum_le_sum fun _ _ => Nat.zero_le _

end Counts

omit [DecidableEq α] in
theorem wellFormed_empty : (empty : Automaton α).WellFormed :=
  ⟨List.nodup_nil, rfl, rfl, by simp [empty, succOf], by simp [empty, succOf]⟩

theorem Built.wellFormed {a : Automaton α} (h : a.Built) : a.WellFormed := by
  induction h with
  | empty => exact wellFormed_empty
  | addState _ s ih => exact ih.addState s
  | addEdge _ s t ih => exact ih.addEdge s t

/-! ### Predecessors -/

/-- Every state has a row of predecessors, which lists all edges that lead to it. -/
structure Mirrored (a : Automaton α) : Prop where
  rows : a.pred.length = a.states.length
  mem_predOf : ∀ ⦃i j⦄, j ∈ a.succOf i → i ∈ a.predOf j

section Mirrored

variable {a : Automaton α} {i j : Nat}

omit [DecidableEq α] in
/-- An edge leads to a state. -/
theorem Mirrored.succ_lt (mirrored : a.Mirrored) (edge : j ∈ a.succOf i) : j < a.size := by
  have back := mirrored.mem_predOf edge
  rw [predOf] at back
  cases row : a.pred[j]? with
  | none => simp [row] at back
  | some _ =>
      rw [size, ← mirrored.rows]
      exact (List.getElem?_eq_some_iff.mp row).1

theorem predOf_addState (a : Automaton α) (s : α) (i : Nat) :
    (a.addState s).predOf i = a.predOf i := by
  rw [addState]
  split
  · rfl
  · exact getD_concat_nil a.pred i

omit [DecidableEq α] in
/-- A new edge is added to the predecessors of its target. -/
theorem predOf_link (hj : j < a.pred.length) (k : Nat) :
    (a.link i j).predOf k =
      if k = j ∧ j ∉ a.succOf i then a.predOf j ++ [i] else a.predOf k := by
  rw [link]
  by_cases known : j ∈ a.succOf i
  · simp [known]
  · rw [if_neg known]
    simp only [predOf, List.getElem?_modify]
    by_cases hk : k = j
    · subst hk
      simp [known, List.getElem?_eq_getElem hj]
    · simp [hk, Ne.symm hk]

theorem Mirrored.addState (mirrored : a.Mirrored) (s : α) : (a.addState s).Mirrored := by
  constructor
  · have rows := mirrored.rows
    rw [Automaton.addState]
    split <;> simp [rows]
  · intro i j edge
    rw [succOf_addState] at edge
    rw [predOf_addState]
    exact mirrored.mem_predOf edge

omit [DecidableEq α] in
theorem Mirrored.link (mirrored : a.Mirrored) (hi : i < a.succ.length) (hj : j < a.size) :
    (a.link i j).Mirrored := by
  have hj' : j < a.pred.length := mirrored.rows ▸ hj
  constructor
  · have rows := mirrored.rows
    rw [Automaton.link]
    split <;> simpa using rows
  · intro k l edge
    rw [succOf_link hi] at edge
    rw [predOf_link hj']
    have old : l ∈ a.succOf k → k ∈ a.predOf l := fun edge => mirrored.mem_predOf edge
    grind

theorem Mirrored.addEdge (mirrored : a.Mirrored) (wf : a.WellFormed) (s t : α) :
    (a.addEdge s t).Mirrored := by
  obtain ⟨i, j, hi, hj, eq⟩ := exists_addEdge_eq_link wf s t
  have wf' := (wf.addState s).addState t
  rw [eq]
  apply ((mirrored.addState s).addState t).link
  · rw [wf'.rows]
    exact (List.getElem?_eq_some_iff.mp hi).1
  · exact (List.getElem?_eq_some_iff.mp hj).1

theorem Built.mirrored (h : a.Built) : a.Mirrored := by
  induction h with
  | empty => exact ⟨rfl, by simp [Automaton.empty, succOf]⟩
  | addState _ s ih => exact ih.addState s
  | addEdge built s t ih => exact ih.addEdge built.wellFormed s t

end Mirrored

end EvmFlow.Automaton
