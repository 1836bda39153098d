import EvmFlow.Proofs.Automaton
import Mathlib.Data.Finset.Card
import Mathlib.Data.Finset.Dedup

/-!
# Automata and the graph that was asked for

An automaton is built by requests: for a state, for several states, for an edge, or for several
edges out of one state. What the requests mention and the links they ask for are two lists, written
down without any automaton. `Represents` says that an automaton holds exactly these: its states are
those mentioned, in the order of first mention, and its rows are the links, in the order in which
they were first asked for, once by their sources and once by their targets.

The two families of rows are kept in step by a symmetry. `reverse` exchanges them, and adding an
edge to an automaton adds the reversed edge to its reverse, as long as the two families agree on
whether the edge is there. So what is shown of successors holds of predecessors too. That they agree
follows in turn, since both then describe the same links.
-/

namespace EvmFlow

variable {α : Type}

/-- What an automaton can be asked to add. -/
inductive Request (α : Type) where
  | state (s : α)
  | states (ss : List α)
  | edge (s t : α)
  | edges (s : α) (ts : List α)
  deriving DecidableEq, Repr

namespace Request

/-- The states that a request mentions, in their order. -/
def mentions : Request α → List α
  | state s => [s]
  | states ss => ss
  | edge s t => [s, t]
  | edges s ts => s :: ts

/-- The links that a request asks for, each with its source and its target. -/
def links : Request α → List (α × α)
  | state _ | states _ => []
  | edge s t => [(s, t)]
  | edges s ts => ts.map fun t => (s, t)

/-- Adds to an automaton what a request asks for. -/
def serve [DecidableEq α] (a : Automaton α) : Request α → Automaton α
  | state s => a.addState s
  | states ss => a.addStates ss
  | edge s t => a.addEdge s t
  | edges s ts => a.addEdges s ts

end Request

namespace Automaton

variable [DecidableEq α]

/-- The automaton that requests build, one after the other. -/
def ofRequests (rs : List (Request α)) : Automaton α := rs.foldl Request.serve .empty

/-- The targets of the links out of a state, in the order of the links. -/
def linkedTo (links : List (α × α)) (s : α) : List α :=
  links.filterMap fun l => if l.1 = s then some l.2 else none

/-- An automaton holds the states that are mentioned and the links that are asked for. -/
structure Represents (a : Automaton α) (mentions : List α) (links : List (α × α)) : Prop where
  /-- The states are those mentioned, in the order of first mention. -/
  states_eq : a.states = mentions.eraseDups
  nodup : a.states.Nodup
  /-- The dictionary has one entry for each state, with its position, and no other. -/
  index_eq : a.index = a.states.zipIdx
  /-- Looking up a state undoes taking the state at a position. -/
  index?_iff : ∀ s i, a.index? s = some i ↔ a.states[i]? = some s
  /-- There is a row of successors for every state, and no other. -/
  succ?_eq : ∀ i, a.succ? i = if i < a.size then .ok (a.succOf i) else .error .missingKey
  /-- There is a row of predecessors for every state, and no other. -/
  pred?_eq : ∀ i, a.pred? i = if i < a.size then .ok (a.predOf i) else .error .missingKey
  /-- A row of successors lists the targets of the links, in the order of first request. -/
  succOf_eq : ∀ i s, a.states[i]? = some s →
    (a.succOf i).map (a.states[·]?) = (linkedTo links s).eraseDups.map some
  /-- A row of predecessors lists the sources of the links in the same way. -/
  predOf_eq : ∀ i s, a.states[i]? = some s →
    (a.predOf i).map (a.states[·]?) = (linkedTo (links.map Prod.swap) s).eraseDups.map some
  succ_nodup : ∀ i, (a.succOf i).Nodup
  pred_nodup : ∀ i, (a.predOf i).Nodup
  mem_succOf_iff : ∀ i j, j ∈ a.succOf i ↔ i ∈ a.predOf j
  /-- There are as many edges as different links. -/
  edges_eq : a.edges = links.toFinset.card

/-- One automaton continues another: positions stay, and rows only grow at their end. -/
structure Extends (b a : Automaton α) : Prop where
  states : a.states <+: b.states
  index : a.index <+: b.index
  index? : ∀ s i, a.index? s = some i → b.index? s = some i
  succOf : ∀ i, a.succOf i <+: b.succOf i
  predOf : ∀ i, a.predOf i <+: b.predOf i

/-! ### Links in one direction -/

/-- The edges of an automaton are the given links, in the order in which they first occur. -/
structure Draws (a : Automaton α) (links : List (α × α)) : Prop where
  wellFormed : a.WellFormed
  targets_eq : ∀ s, a.targets s = (linkedTo links s).eraseDups

section Draws

variable {a : Automaton α} {links : List (α × α)} {s t : α} {i j : Nat}

theorem mem_linkedTo : t ∈ linkedTo links s ↔ (s, t) ∈ links := by
  simp only [linkedTo, List.mem_filterMap, Option.ite_none_right_eq_some, Option.some.injEq]
  constructor
  · rintro ⟨l, mem, rfl, rfl⟩
    exact mem
  · intro mem
    exact ⟨(s, t), mem, rfl, rfl⟩

theorem linkedTo_concat (links : List (α × α)) (s t u : α) :
    linkedTo (links ++ [(s, t)]) u =
      if s = u then linkedTo links u ++ [t] else linkedTo links u := by
  rw [linkedTo, List.filterMap_append, linkedTo]
  by_cases here : s = u <;> simp [here]

theorem draws_empty : (empty : Automaton α).Draws [] :=
  ⟨wellFormed_empty, fun _ => rfl⟩

theorem Draws.edge_iff (draws : a.Draws links) : a.Edge s t ↔ (s, t) ∈ links := by
  rw [Edge, draws.targets_eq, List.mem_eraseDups, mem_linkedTo]

theorem Draws.addState (draws : a.Draws links) (s : α) : (a.addState s).Draws links := by
  refine ⟨draws.wellFormed.addState s, fun u => ?_⟩
  rw [targets_addState draws.wellFormed, draws.targets_eq]

/-- Linking two positions writes the link of their states behind the others. -/
theorem Draws.link (draws : a.Draws links) (hi : a.states[i]? = some s)
    (hj : a.states[j]? = some t) : (a.link i j).Draws (links ++ [(s, t)]) := by
  have inside : ∀ {k u}, a.states[k]? = some u → k < a.states.length :=
    fun found => (List.getElem?_eq_some_iff.mp found).1
  refine ⟨draws.wellFormed.link (inside hi) (inside hj), fun u => ?_⟩
  rw [targets_link draws.wellFormed hi hj, linkedTo_concat, draws.targets_eq, draws.targets_eq]
  by_cases here : s = u
  · subst here
    rw [if_pos rfl, eraseDups_concat]
    by_cases known : t ∈ linkedTo links s <;> simp [known]
  · rw [if_neg here, if_neg (fun new => here new.1.symm)]

/-- A row lists a position exactly if the link of the two states was asked for. -/
theorem Draws.mem_succOf_iff (draws : a.Draws links) : j ∈ a.succOf i ↔
    ∃ s t, a.states[i]? = some s ∧ a.states[j]? = some t ∧ (s, t) ∈ links := by
  have wf := draws.wellFormed
  constructor
  · intro edge
    have source : i < a.states.length := by
      rw [← wf.rows]
      by_contra outside
      rw [succOf, List.getElem?_eq_none (Nat.le_of_not_lt outside)] at edge
      cases edge
    have hi := List.getElem?_eq_getElem source
    have hj := List.getElem?_eq_getElem (wf.succ_lt edge)
    exact ⟨_, _, hi, hj, draws.edge_iff.mp ((wf.edge_iff hi hj).mpr edge)⟩
  · rintro ⟨s, t, hi, hj, asked⟩
    exact (wf.edge_iff hi hj).mp (draws.edge_iff.mpr asked)

/-- The states at the positions of a row are the targets of its state. -/
theorem WellFormed.map_succOf (wf : a.WellFormed) (hi : a.states[i]? = some s) :
    (a.succOf i).map (a.states[·]?) = (a.targets s).map some := by
  apply List.ext_getElem?
  intro e
  rw [List.getElem?_map, List.getElem?_map, wf.getElem?_targets hi]
  cases entry : (a.succOf i)[e]? with
  | none => rfl
  | some j =>
      have found := List.getElem?_eq_getElem (wf.succ_lt (List.mem_of_getElem? entry))
      simp [found]

/-- Edges that are listed state by state are counted without repetition. -/
theorem Draws.edges_eq (draws : a.Draws links) : a.edges = links.toFinset.card := by
  have wf := draws.wellFormed
  let listed : List (α × α) := a.states.flatMap fun s => (a.targets s).map fun t => (s, t)
  have nodup : listed.Nodup := by
    apply List.nodup_flatMap.mpr
    constructor
    · intro s _
      exact (wf.targets_nodup s).map_on fun t _ t' _ same => congrArg Prod.snd same
    · refine wf.nodup.imp ?_
      intro s s' apart l here there
      obtain ⟨t, -, rfl⟩ := List.mem_map.mp here
      obtain ⟨t', -, same⟩ := List.mem_map.mp there
      exact apart (congrArg Prod.fst same).symm
  have members : listed.toFinset = links.toFinset := by
    ext ⟨s, t⟩
    simp only [listed, List.mem_toFinset, List.mem_flatMap, List.mem_map, Prod.mk.injEq]
    rw [← draws.edge_iff]
    constructor
    · rintro ⟨s, -, t, edge, rfl, rfl⟩
      exact edge
    · intro edge
      exact ⟨s, edge.source_mem wf, t, edge, rfl, rfl⟩
  rw [wf.edges_eq, ← members, List.toFinset_card_of_nodup nodup]
  simp [listed, List.length_flatMap]

end Draws

/-! ### Links in both directions -/

/-- The automaton with its edges turned round. -/
def reverse (a : Automaton α) : Automaton α := ⟨a.states, a.index, a.pred, a.succ⟩

/-- The states are those mentioned, and the edges are the given links in either direction. -/
structure Holds (a : Automaton α) (mentions : List α) (links : List (α × α)) : Prop where
  states_eq : a.states = mentions.eraseDups
  forward : a.Draws links
  backward : a.reverse.Draws (links.map Prod.swap)

section Holds

variable {a : Automaton α} {mentions : List α} {links : List (α × α)} {s t : α} {i j : Nat}

theorem reverse_addState (a : Automaton α) (s : α) :
    (a.addState s).reverse = a.reverse.addState s := by
  rw [addState, addState, show a.reverse.states = a.states from rfl]
  by_cases known : s ∈ a.states
  · rw [if_pos known, if_pos known]
  · rw [if_neg known, if_neg known]
    rfl

omit [DecidableEq α] in
/-- Turning round an edge that is new in both directions, or in none. -/
theorem reverse_link (agree : j ∈ a.succOf i ↔ i ∈ a.predOf j) :
    (a.link i j).reverse = a.reverse.link j i := by
  rw [Automaton.link, Automaton.link, show a.reverse.succOf j = a.predOf j from rfl]
  by_cases known : j ∈ a.succOf i
  · rw [if_pos known, if_pos (agree.mp known)]
  · rw [if_neg known, if_neg (agree.not.mp known)]
    rfl

theorem Holds.mem_succOf_iff (holds : a.Holds mentions links) (i j : Nat) :
    j ∈ a.succOf i ↔ i ∈ a.predOf j := by
  change _ ↔ i ∈ a.reverse.succOf j
  rw [holds.forward.mem_succOf_iff, holds.backward.mem_succOf_iff]
  constructor
  · rintro ⟨s, t, hi, hj, asked⟩
    exact ⟨t, s, hj, hi, List.mem_map_of_mem asked⟩
  · rintro ⟨t, s, hj, hi, turned⟩
    obtain ⟨l, asked, same⟩ := List.mem_map.mp turned
    obtain rfl : l = (s, t) := Prod.swap_inj.mp same
    exact ⟨s, t, hi, hj, asked⟩

theorem Holds.mem_states_iff (holds : a.Holds mentions links) : s ∈ a.states ↔ s ∈ mentions := by
  rw [holds.states_eq, List.mem_eraseDups]

theorem holds_empty : (empty : Automaton α).Holds [] [] :=
  ⟨rfl, draws_empty, draws_empty⟩

theorem Holds.addState (holds : a.Holds mentions links) (s : α) :
    (a.addState s).Holds (mentions ++ [s]) links := by
  refine ⟨?_, holds.forward.addState s, ?_⟩
  · simp only [states_addState, eraseDups_concat, holds.states_eq, List.mem_eraseDups]
  · rw [reverse_addState]
    exact holds.backward.addState s

theorem Holds.link (holds : a.Holds mentions links) (hi : a.states[i]? = some s)
    (hj : a.states[j]? = some t) : (a.link i j).Holds mentions (links ++ [(s, t)]) := by
  refine ⟨?_, holds.forward.link hi hj, ?_⟩
  · rw [states_link]
    exact holds.states_eq
  · rw [reverse_link (holds.mem_succOf_iff i j), List.map_append]
    exact holds.backward.link hj hi

/-- An edge out of a state that has been mentioned mentions its target only. -/
theorem Holds.addEdge (holds : a.Holds mentions links) (known : s ∈ mentions) (t : α) :
    (a.addEdge s t).Holds (mentions ++ [t]) (links ++ [(s, t)]) := by
  obtain ⟨i, j, hi, hj, eq⟩ := exists_addEdge_eq_link holds.forward.wellFormed s t
  rw [addState_of_mem (holds.mem_states_iff.mpr known)] at hi hj eq
  rw [eq]
  exact (holds.addState t).link hi hj

/-- An edge adds its source first. -/
theorem addEdge_addState (a : Automaton α) (s t : α) :
    (a.addState s).addEdge s t = a.addEdge s t := by
  have again : (a.addState s).addState s = a.addState s := addState_of_mem (by simp)
  rw [Automaton.addEdge, again, Automaton.addEdge]

/-- Edges add their source first, also when there are none of them. -/
theorem addEdges_addState (a : Automaton α) (s : α) (ts : List α) :
    (a.addState s).addEdges s ts = a.addEdges s ts := by
  cases ts with
  | nil => exact addState_of_mem (by simp)
  | cons t ts => rw [addEdges_cons, addEdges_cons, addEdge_addState]

theorem Holds.addEdges (holds : a.Holds mentions links) (known : s ∈ mentions) (ts : List α) :
    (a.addEdges s ts).Holds (mentions ++ ts) (links ++ ts.map fun t => (s, t)) := by
  induction ts generalizing a mentions links with
  | nil =>
      have same : a.addEdges s [] = a := addState_of_mem (holds.mem_states_iff.mpr known)
      rw [same, List.append_nil, List.map_nil, List.append_nil]
      exact holds
  | cons t ts ih =>
      have rest := ih (holds.addEdge known t) (List.mem_append_left _ known)
      rw [List.append_assoc, List.append_assoc] at rest
      exact rest

theorem Holds.addStates (holds : a.Holds mentions links) (ss : List α) :
    (a.addStates ss).Holds (mentions ++ ss) links := by
  induction ss generalizing a mentions with
  | nil =>
      rw [List.append_nil]
      exact holds
  | cons s ss ih =>
      have rest := ih (holds.addState s)
      rw [List.append_assoc] at rest
      exact rest

/-- Serving a request adds what it mentions and asks for. -/
theorem Holds.serve (holds : a.Holds mentions links) (r : Request α) :
    (r.serve a).Holds (mentions ++ r.mentions) (links ++ r.links) := by
  cases r with
  | state s =>
      have served := holds.addState s
      rwa [← List.append_nil links] at served
  | states ss =>
      have served := holds.addStates ss
      rwa [← List.append_nil links] at served
  | edge s t =>
      have served := (holds.addState s).addEdge (s := s) (by simp) t
      rw [addEdge_addState, List.append_assoc] at served
      exact served
  | edges s ts =>
      have served := (holds.addState s).addEdges (s := s) (by simp) ts
      rw [addEdges_addState, List.append_assoc] at served
      exact served

theorem holds_ofRequests (rs : List (Request α)) :
    (ofRequests rs).Holds (rs.flatMap Request.mentions) (rs.flatMap Request.links) := by
  -- By induction from the end, where the last request is served.
  induction rs using List.reverseRecOn with
  | nil => exact holds_empty
  | append_singleton rs r ih =>
      rw [ofRequests, List.foldl_append, List.flatMap_append, List.flatMap_append,
        List.flatMap_singleton, List.flatMap_singleton]
      exact ih.serve r

/-- Edges can be followed back, and back again. -/
theorem Holds.mirrored (holds : a.Holds mentions links) : a.Mirrored ∧ a.reverse.Mirrored := by
  refine ⟨⟨holds.backward.wellFormed.rows, ?_⟩, ⟨holds.forward.wellFormed.rows, ?_⟩⟩
  · intro i j edge
    exact (holds.mem_succOf_iff i j).mp edge
  · intro i j edge
    exact (holds.mem_succOf_iff j i).mpr edge

omit [DecidableEq α] in
/-- A family of rows with one row for each state. -/
theorem row_eq {rows : List (List Nat)} {n : Nat} (each : rows.length = n) (i : Nat) :
    (match rows[i]? with
      | some js => Except.ok js
      | none => Except.error Fault.missingKey) =
      if i < n then .ok ((rows[i]?).getD []) else .error .missingKey := by
  subst each
  by_cases inside : i < rows.length
  · rw [if_pos inside, List.getElem?_eq_getElem inside]
    rfl
  · rw [if_neg inside, List.getElem?_eq_none (Nat.le_of_not_lt inside)]

theorem Holds.represents (holds : a.Holds mentions links) : a.Represents mentions links := by
  have wf := holds.forward.wellFormed
  have back := holds.backward.wellFormed
  constructor
  case states_eq => exact holds.states_eq
  case nodup => exact wf.nodup
  case index_eq => exact wf.index
  case index?_iff => exact fun s i => wf.index?_eq_some_iff
  case succ?_eq => exact row_eq wf.rows
  case pred?_eq => exact row_eq back.rows
  case succOf_eq =>
    intro i s hi
    rw [wf.map_succOf hi, holds.forward.targets_eq]
  case predOf_eq =>
    intro i s hi
    have row := back.map_succOf hi
    rw [holds.backward.targets_eq] at row
    exact row
  case succ_nodup => exact wf.succ_nodup
  case pred_nodup => exact back.succ_nodup
  case mem_succOf_iff => exact holds.mem_succOf_iff
  case edges_eq => exact holds.forward.edges_eq

end Holds

/-! ### What requests leave alone -/

section Extends

variable {a b c : Automaton α}

/-- Positions stay if entries are only added at the end of the dictionary. -/
theorem index?_of_prefix {s : α} {i : Nat} (index : a.index <+: b.index)
    (found : a.index? s = some i) : b.index? s = some i := by
  obtain ⟨added, eq⟩ := index
  rw [index?] at found ⊢
  rw [← eq, List.lookup_append, found]
  rfl

theorem Extends.refl (a : Automaton α) : a.Extends a :=
  ⟨List.prefix_refl _, List.prefix_refl _, fun _ _ found => found, fun _ => List.prefix_refl _,
    fun _ => List.prefix_refl _⟩

theorem Extends.trans (second : c.Extends b) (first : b.Extends a) : c.Extends a :=
  ⟨first.states.trans second.states, first.index.trans second.index,
    fun s i found => second.index? s i (first.index? s i found),
    fun i => (first.succOf i).trans (second.succOf i),
    fun i => (first.predOf i).trans (second.predOf i)⟩

/-- A new state writes its position behind the others. -/
theorem WellFormed.index_prefix_addState (wf : a.WellFormed) (s : α) :
    a.index <+: (a.addState s).index := by
  obtain ⟨added, eq⟩ := states_prefix_addState a s
  rw [wf.index, (wf.addState s).index, ← eq, List.zipIdx_append]
  exact List.prefix_append _ _

theorem WellFormed.extends_addState (wf : a.WellFormed) (s : α) : (a.addState s).Extends a := by
  have index := wf.index_prefix_addState s
  refine ⟨states_prefix_addState a s, index, fun _ _ found => index?_of_prefix index found,
    fun i => ?_, fun i => ?_⟩
  · rw [succOf_addState]
  · rw [predOf_addState]

omit [DecidableEq α] in
theorem row_prefix_modify (rows : List (List Nat)) (i j k : Nat) :
    (rows[k]?).getD [] <+: ((rows.modify i (· ++ [j]))[k]?).getD [] := by
  rw [List.getElem?_modify]
  cases rows[k]? with
  | none => exact List.prefix_refl _
  | some row =>
      by_cases here : i = k
      · simp [here]
      · simp [here]

theorem extends_link (a : Automaton α) (i j : Nat) : (a.link i j).Extends a := by
  rw [link]
  split
  · exact .refl a
  · exact ⟨List.prefix_refl _, List.prefix_refl _, fun _ _ found => found,
      row_prefix_modify a.succ i j, row_prefix_modify a.pred j i⟩

theorem WellFormed.extends_addEdge (wf : a.WellFormed) (s t : α) : (a.addEdge s t).Extends a := by
  have ends : ((a.addState s).addState t).Extends a :=
    ((wf.addState s).extends_addState t).trans (wf.extends_addState s)
  rw [Automaton.addEdge]
  split
  · exact (extends_link _ _ _).trans ends
  · exact ends

theorem WellFormed.extends_serve (wf : a.WellFormed) (r : Request α) : (r.serve a).Extends a := by
  cases r with
  | state s => exact wf.extends_addState s
  | states ss =>
      induction ss generalizing a with
      | nil => exact .refl a
      | cons s ss ih => exact (ih (wf.addState s)).trans (wf.extends_addState s)
  | edge s t => exact wf.extends_addEdge s t
  | edges s ts =>
      induction ts generalizing a with
      | nil => exact wf.extends_addState s
      | cons t ts ih => exact (ih (wf.addEdge s t)).trans (wf.extends_addEdge s t)

end Extends

/-- Whatever is asked for, an automaton represents what was asked for: among the rest, the positions
that it has written down are those of its states. A further request leaves the positions and the
entries that are there where they are. And automata with the same states and the same successors
have the same dictionary of positions and the same predecessors, though maybe in another order. -/
theorem ofRequests_represents (rs : List (Request α)) :
    (ofRequests rs).Represents (rs.flatMap Request.mentions) (rs.flatMap Request.links) ∧
      (∀ r, (ofRequests (rs ++ [r])).Extends (ofRequests rs)) ∧
      ∀ qs, (ofRequests rs).sameGraph (ofRequests qs) = true →
        (ofRequests rs).index = (ofRequests qs).index ∧
          ∀ i j, i ∈ (ofRequests rs).predOf j ↔ i ∈ (ofRequests qs).predOf j := by
  have holds := holds_ofRequests rs
  refine ⟨holds.represents, fun r => ?_, fun qs same => ?_⟩
  · rw [ofRequests, List.foldl_append]
    exact holds.forward.wellFormed.extends_serve r
  · obtain ⟨rows, states⟩ : (ofRequests rs).succ = (ofRequests qs).succ ∧
        (ofRequests rs).states = (ofRequests qs).states := by
      simpa [sameGraph] using same
    constructor
    · rw [holds.forward.wellFormed.index, (holds_ofRequests qs).forward.wellFormed.index, states]
    · intro i j
      rw [← holds.mem_succOf_iff, ← (holds_ofRequests qs).mem_succOf_iff, succOf, succOf, rows]

/-- Two states with edges to a third, asked for in either order. -/
theorem ofRequests_represents_of_reordered :
    let rs : List (Request Nat) := [.states [5, 6, 5, 7], .edge 5 7, .edges 6 [7, 6, 7]]
    let qs : List (Request Nat) := [.states [5, 6, 7], .edges 6 [7, 6], .edge 5 7, .edge 6 6]
    (ofRequests rs).sameGraph (ofRequests qs) = true ∧
      (ofRequests rs).predOf 2 ≠ (ofRequests qs).predOf 2 ∧
      ∀ i j, i ∈ (ofRequests rs).predOf j ↔ i ∈ (ofRequests qs).predOf j := by
  intro rs qs
  have same : (ofRequests rs).sameGraph (ofRequests qs) = true := by decide
  exact ⟨same, by decide, ((ofRequests_represents rs).2.2 qs same).2⟩

end Automaton

end EvmFlow
