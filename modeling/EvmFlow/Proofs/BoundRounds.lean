import EvmFlow.Proofs.StackBound

/-!
# How many rounds the stack sizes take

After `r` rounds the bound of a node is the least size with which no walk of at most `r` edges
underflows (`Counted`). Suppose that no closed walk uses up operands. Then the part of a walk
between two visits of a node only adds to the stack, and a walk is sustained as soon as the walk
without this part is (`sustains_of_nodup`). So it is enough to look at walks that visit no node
twice. They are shorter than the graph is large, and hence the round whose number is the number of
nodes finds nothing new.

Conversely bounds that are a fixpoint pay for every edge, and so for every closed walk.
-/

namespace EvmFlow

/-- A walk along edges, with an edge from its last position back to its first. -/
def Automaton.ClosedWalk {α : Type} (graph : Automaton α) : List Nat → Prop
  | [] => False
  | i :: rest => (i :: rest ++ [i]).IsChain fun j k => k ∈ graph.succOf j

namespace Program

variable {p : Program} {graph : Automaton Node} {i r : Nat} {n m : Int}
variable {walk front back : List Nat} {scheduled current v : List Nat}

/-! ### Walks -/

/-- The change of the stack size along a walk. -/
def effectAlong (p : Program) (graph : Automaton Node) : List Nat → Int
  | [] => 0
  | i :: rest => p.effectAt graph i + p.effectAlong graph rest

theorem effectAlong_append :
    p.effectAlong graph (front ++ back) = p.effectAlong graph front + p.effectAlong graph back := by
  induction front with
  | nil => rw [List.nil_append, effectAlong, Int.zero_add]
  | cons i rest ih => rw [List.cons_append, effectAlong, effectAlong, ih, Int.add_assoc]

theorem sustains_append :
    p.Sustains graph n (front ++ back) ↔
      p.Sustains graph n front ∧ p.Sustains graph (n + p.effectAlong graph front) back := by
  induction front generalizing n with
  | nil => simp [Sustains, effectAlong]
  | cons i rest ih =>
      rw [List.cons_append, Sustains, Sustains, ih, effectAlong, Int.add_assoc, and_assoc]

theorem Sustains.mono (sustains : p.Sustains graph n walk) (le : n ≤ m) :
    p.Sustains graph m walk := by
  induction walk generalizing n m with
  | nil => trivial
  | cons i rest ih =>
      obtain ⟨need, onward⟩ := sustains
      exact ⟨Int.le_trans need le, ih onward (Int.add_le_add_right le _)⟩

/-- No closed walk uses up operands. -/
def Paid (p : Program) (graph : Automaton Node) : Prop :=
  ∀ walk, graph.ClosedWalk walk → 0 ≤ p.effectAlong graph walk

/-- A list in which something comes twice, cut open at two of its places. -/
theorem exists_append_of_not_nodup (twice : ¬ walk.Nodup) :
    ∃ front x mid back, walk = front ++ x :: (mid ++ x :: back) := by
  induction walk with
  | nil => exact absurd List.nodup_nil twice
  | cons i rest ih =>
      by_cases again : i ∈ rest
      · obtain ⟨mid, back, rfl⟩ := List.append_of_mem again
        exact ⟨[], i, mid, back, rfl⟩
      · have later : ¬ rest.Nodup := fun nodup => twice (List.nodup_cons.mpr ⟨again, nodup⟩)
        obtain ⟨front, x, mid, back, rfl⟩ := ih later
        exact ⟨i :: front, x, mid, back, rfl⟩

/-- If no closed walk uses up operands, it is enough to look at walks that visit no node twice. -/
theorem sustains_of_nodup (paid : p.Paid graph)
    (short : ∀ walk, walk.head? = some i → walk.IsChain (fun j k => k ∈ graph.succOf j) →
      walk.Nodup → p.Sustains graph n walk)
    (head : walk.head? = some i) (chain : walk.IsChain fun j k => k ∈ graph.succOf j) :
    p.Sustains graph n walk := by
  induction size : walk.length using Nat.strong_induction_on generalizing walk with
  | _ size ih =>
      subst size
      by_cases nodup : walk.Nodup
      · exact short walk head chain nodup
      · obtain ⟨front, x, mid, back, rfl⟩ := exists_append_of_not_nodup nodup
        obtain ⟨before, after⟩ := List.isChain_split.mp chain
        obtain ⟨loop, last⟩ := List.isChain_cons_split.mp after
        have heads : ∀ back, (front ++ x :: back).head? = some i := by
          intro back
          cases front <;> simpa using head
        have kept : p.Sustains graph n (front ++ x :: mid) := by
          apply ih _ ?_ (heads mid) ?_ rfl
          · simp
          · exact List.isChain_split.mpr ⟨before, List.IsChain.left_of_append loop⟩
        have cut : p.Sustains graph n (front ++ x :: back) := by
          apply ih _ ?_ (heads back) ?_ rfl
          · simp only [List.length_append, List.length_cons]
            omega
          · exact List.isChain_split.mpr ⟨before, last⟩
        have gain : 0 ≤ p.effectAlong graph (x :: mid) := paid (x :: mid) loop
        rw [show front ++ x :: (mid ++ x :: back) = (front ++ x :: mid) ++ x :: back by simp]
        refine sustains_append.mpr ⟨kept, (sustains_append.mp cut).2.mono ?_⟩
        rw [effectAlong_append]
        omega

/-! ### Walks of bounded length -/

/-- No walk of at most `r` edges from a node that is entered with `n` operands underflows. -/
def SafeFor (p : Program) (graph : Automaton Node) (r i : Nat) (n : Int) : Prop :=
  ∀ rest, rest.length ≤ r → (i :: rest).IsChain (fun j k => k ∈ graph.succOf j) →
    p.Sustains graph n (i :: rest)

theorem safeFor_zero : p.SafeFor graph 0 i n ↔ (p.needAt graph i : Int) ≤ n := by
  constructor
  · intro safe
    exact (safe [] (Nat.le_refl 0) (List.isChain_singleton i)).1
  · intro need rest short _
    rw [List.length_eq_zero_iff.mp (Nat.le_zero.mp short)]
    exact ⟨need, trivial⟩

theorem safeFor_succ :
    p.SafeFor graph (r + 1) i n ↔
      (p.needAt graph i : Int) ≤ n ∧
        ∀ j ∈ graph.succOf i, p.SafeFor graph r j (n + p.effectAt graph i) := by
  constructor
  · intro safe
    refine ⟨(safe [] (Nat.zero_le _) (List.isChain_singleton i)).1, ?_⟩
    intro j edge rest short chain
    have longer := safe (j :: rest) (Nat.succ_le_succ short)
      (List.isChain_cons_cons.mpr ⟨edge, chain⟩)
    exact longer.2
  · rintro ⟨need, onward⟩ rest short chain
    cases rest with
    | nil => exact ⟨need, trivial⟩
    | cons j rest =>
        obtain ⟨edge, chain⟩ := List.isChain_cons_cons.mp chain
        exact ⟨need, onward j edge rest (Nat.le_of_succ_le_succ short) chain⟩

/-- A walk stays in its graph. -/
theorem HasGraph.lt_of_chain (has : p.HasGraph graph) (inside : i < graph.size) {rest : List Nat}
    (chain : (i :: rest).IsChain fun j k => k ∈ graph.succOf j) :
    ∀ j ∈ i :: rest, j < graph.size := by
  induction rest generalizing i with
  | nil => simpa using inside
  | cons j rest ih =>
      obtain ⟨edge, chain⟩ := List.isChain_cons_cons.mp chain
      exact List.forall_mem_cons.mpr ⟨inside, ih (has.mirrored.succ_lt edge) chain⟩

/-- An edge at the end of a walk leads into the graph. -/
theorem HasGraph.end_lt (has : p.HasGraph graph) {k : Nat} {rest : List Nat}
    (chain : (i :: rest ++ [k]).IsChain fun j k => k ∈ graph.succOf j) : k < graph.size := by
  induction rest generalizing i with
  | nil => exact has.mirrored.succ_lt (List.isChain_pair.mp chain)
  | cons j rest ih => exact ih (List.isChain_cons_cons.mp chain).2

/-- A walk that visits no node twice has fewer edges than the graph has nodes, so if no closed walk
uses up operands, the walks up to that length tell about all walks. -/
theorem SafeFor.safe (has : p.HasGraph graph) (paid : p.Paid graph) (inside : i < graph.size)
    (long : graph.size ≤ r + 1) (safe : p.SafeFor graph r i n) : p.Safe graph i n := by
  intro rest chain
  apply sustains_of_nodup paid ?_ rfl chain
  intro walk head chain nodup
  obtain ⟨rest, rfl⟩ := List.head?_eq_some_iff.mp head
  have listed : i :: rest ⊆ List.range graph.size := by
    intro j visited
    exact List.mem_range.mpr (has.lt_of_chain inside chain j visited)
  have few := (nodup.subperm listed).length_le
  rw [List.length_range, List.length_cons] at few
  exact safe rest (by omega) chain

/-! ### Rounds -/

/-- What `r` rounds have found: the least sizes with which no walk of at most `r` edges
underflows. -/
structure Counted (p : Program) (graph : Automaton Node) (r : Nat)
    (scheduled current : List Nat) : Prop extends p.Settled graph scheduled current where
  exact : ∀ i < graph.size, ∀ n : Int,
    (current.getD i 0 : Int) ≤ n ↔ p.SafeFor graph r i n

theorem counted_localBounds :
    p.Counted graph 0 (List.range graph.size) (p.localBounds graph) := by
  refine ⟨settled_localBounds, ?_⟩
  intro i inside n
  rw [getD_localBounds inside, safeFor_zero]

/-- Recomputing a bound looks one edge further. -/
theorem Counted.updatedBound_le_iff (wf : p.WellFormed) (has : p.HasGraph graph)
    (counted : p.Counted graph r scheduled current) (inside : i < graph.size) :
    (p.updatedBound graph (p.localBounds graph) current i : Int) ≤ n ↔
      p.SafeFor graph (r + 1) i n := by
  rw [Program.updatedBound_le_iff wf has inside, safeFor_succ]
  refine and_congr_right fun _ => forall₂_congr fun j edge => ?_
  exact counted.exact j (has.mirrored.succ_lt edge) _

/-- A node that is left alone has the bound that recomputing would give it: that bound is enough
already, and the longer walks need no less. -/
theorem Counted.getD_eq_updatedBound (wf : p.WellFormed) (has : p.HasGraph graph)
    (counted : p.Counted graph r scheduled current) (inside : i < graph.size)
    (unscheduled : i ∉ scheduled) :
    current.getD i 0 = p.updatedBound graph (p.localBounds graph) current i := by
  apply Nat.le_antisymm
  · have longer := (counted.updatedBound_le_iff wf has inside).mp (Int.le_refl _)
    refine Int.ofNat_le.mp ((counted.exact i inside _).mpr fun rest short chain => ?_)
    exact longer rest (Nat.le_succ_of_le short) chain
  · exact counted.enough i inside unscheduled

theorem Counted.step (wf : p.WellFormed) (has : p.HasGraph graph)
    (counted : p.Counted graph r scheduled current) :
    p.Counted graph (r + 1) (p.updateBounds graph (p.localBounds graph) current scheduled).2
      (p.updateBounds graph (p.localBounds graph) current scheduled).1 := by
  refine ⟨counted.toSettled.step wf has, ?_⟩
  intro i inside n
  rw [← counted.updatedBound_le_iff wf has inside, getD_updateBounds (counted.length ▸ inside)]
  split
  · exact Iff.rfl
  · rename_i unscheduled
    rw [counted.getD_eq_updatedBound wf has inside unscheduled]

/-- If no closed walk uses up operands, rounds as many as there are nodes leave nothing to do. -/
theorem Counted.scheduled_eq_nil (wf : p.WellFormed) (has : p.HasGraph graph) (paid : p.Paid graph)
    (counted : p.Counted graph r scheduled current) (late : graph.size ≤ r + 1) :
    (p.updateBounds graph (p.localBounds graph) current scheduled).2 = [] := by
  have next := counted.step wf has
  refine List.filter_eq_nil_iff.mpr fun i _ grown => ?_
  obtain ⟨j, hj, -⟩ := List.any_eq_true.mp grown
  obtain ⟨inside, grown⟩ := List.mem_filter.mp hj
  have inside : j < graph.size := counted.length ▸ List.mem_range.mp inside
  have safe := ((counted.exact j inside _).mp (Int.le_refl _)).safe has paid inside late
  have bound := (next.exact j inside _).mpr fun rest _ chain => safe rest chain
  exact absurd (of_decide_eq_true grown) (Nat.not_lt.mpr (Int.ofNat_le.mp bound))

theorem Counted.fixBounds_isLeft (wf : p.WellFormed) (has : p.HasGraph graph) (paid : p.Paid graph)
    (counted : p.Counted graph r scheduled current) (done : graph.size ≤ r → scheduled = [])
    {rounds : Nat} (budget : graph.size ≤ rounds + r) :
    (p.fixBounds graph (p.localBounds graph) rounds scheduled current).isLeft = true := by
  induction rounds generalizing r scheduled current with
  | zero =>
      rw [done (by omega), Program.fixBounds]
      rfl
  | succ rounds ih =>
      rw [Program.fixBounds]
      split
      · rfl
      · apply ih (counted.step wf has) ?_ (by omega)
        intro late
        exact counted.scheduled_eq_nil wf has paid late

/-! ### Fixpoints -/

/-- A fixpoint pays for every edge, and so for every walk. -/
theorem Settled.le_add_effectAlong (wf : p.WellFormed) (has : p.HasGraph graph)
    (settled : p.Settled graph [] v) {k : Nat} {rest : List Nat} (inside : i < graph.size)
    (chain : (i :: rest ++ [k]).IsChain fun j k => k ∈ graph.succOf j) :
    (v.getD k 0 : Int) ≤ v.getD i 0 + p.effectAlong graph (i :: rest) := by
  have edges : ∀ i < graph.size, ∀ j ∈ graph.succOf i,
      (v.getD j 0 : Int) ≤ v.getD i 0 + p.effectAt graph i := by
    intro i inside
    have bound := Int.ofNat_le.mpr (settled.enough i inside List.not_mem_nil)
    exact ((updatedBound_le_iff wf has inside).mp bound).2
  induction rest generalizing i with
  | nil =>
      have edge : k ∈ graph.succOf i := by simpa using chain
      simpa [effectAlong] using edges i inside k edge
  | cons j rest ih =>
      obtain ⟨edge, chain⟩ := List.isChain_cons_cons.mp chain
      have first := edges i inside j edge
      have others := ih (has.mirrored.succ_lt edge) chain
      rw [effectAlong]
      omega

theorem Settled.paid (wf : p.WellFormed) (has : p.HasGraph graph)
    (settled : p.Settled graph [] v) : p.Paid graph := by
  intro walk closed
  match walk, closed with
  | i :: rest, closed =>
      have round := settled.le_add_effectAlong wf has (has.end_lt closed) closed
      omega

/-- There is only one fixpoint to find. -/
theorem Settled.unique (wf : p.WellFormed) (has : p.HasGraph graph) {u v : List Nat}
    (hu : p.Settled graph [] u) (hv : p.Settled graph [] v) : u = v := by
  have le : ∀ {u v : List Nat}, p.Settled graph [] u → p.Settled graph [] v →
      ∀ i < graph.size, u.getD i 0 ≤ v.getD i 0 := by
    intro u v hu hv i inside
    have safe := (hv.le_iff_safe wf has inside).mp (Int.le_refl _)
    exact Int.ofNat_le.mp ((hu.le_iff_safe wf has inside).mpr safe)
  exact eq_of_getD hu.length hv.length
    fun i inside => Nat.le_antisymm (le hu hv i inside) (le hv hu i inside)

/-- With as many rounds as there are nodes, or more, a fixpoint is found exactly if no closed walk
uses up operands. -/
theorem fixBounds_isLeft_iff (wf : p.WellFormed) (has : p.HasGraph graph) {rounds : Nat}
    (budget : graph.size ≤ rounds) :
    (p.fixBounds graph (p.localBounds graph) rounds (List.range graph.size)
      (p.localBounds graph)).isLeft = true ↔ p.Paid graph := by
  constructor
  · intro found
    obtain ⟨v, fixed⟩ := Sum.isLeft_iff.mp found
    exact (settled_localBounds.fixBounds wf has fixed).paid wf has
  · intro paid
    apply counted_localBounds.fixBounds_isLeft wf has paid ?_ budget
    intro empty
    rw [Nat.le_zero.mp empty]
    rfl

theorem not_paid_iff :
    ¬ p.Paid graph ↔ ∃ walk, graph.ClosedWalk walk ∧ p.effectAlong graph walk < 0 := by
  simp only [Paid, not_forall, Int.not_le, exists_prop]

/-- The bounds of a graph are a fixpoint unless the graph has a closed walk that uses up operands.
The budget of one round more than there are nodes is enough: what any number of rounds finds, it
finds too. -/
theorem stackBounds_isLeft_iff (code : List Char) {graph : Automaton Node}
    (mirrored : graph.Mirrored) (running : hasNoFailure graph = true)
    (bounded : ∀ g ∈ graph.states, g.bounded (ofCode code).segments.length = true) :
    (((ofCode code).stackBounds graph).isLeft = true ↔
        ¬ ∃ walk, graph.ClosedWalk walk ∧ (ofCode code).effectAlong graph walk < 0) ∧
      (((ofCode code).stackBounds graph).isRight = true ↔
        ∃ walk, graph.ClosedWalk walk ∧ (ofCode code).effectAlong graph walk < 0) ∧
      ∀ rounds v, (ofCode code).fixBounds graph ((ofCode code).localBounds graph) rounds
          (List.range graph.size) ((ofCode code).localBounds graph) = .inl v →
        (ofCode code).stackBounds graph = .inl v := by
  have wf := wellFormed_ofCode code
  have has := hasGraph_of_bounded mirrored running bounded
  have left : ((ofCode code).stackBounds graph).isLeft = true ↔ (ofCode code).Paid graph :=
    fixBounds_isLeft_iff wf has (Nat.le_succ graph.size)
  refine ⟨?_, ?_, ?_⟩
  · rw [left, ← not_paid_iff, not_not]
  · rw [← not_paid_iff, ← left, Sum.not_isLeft]
  · intro rounds v fixed
    have settled := settled_localBounds.fixBounds wf has fixed
    obtain ⟨u, found⟩ := Sum.isLeft_iff.mp (left.mpr (settled.paid wf has))
    rw [found, (settled_localBounds.fixBounds wf has found).unique wf has settled]

/-- A ring of two segments, of which the first leaves one operand more and the second takes two. -/
theorem stackBounds_isLeft_iff_of_ring :
    let p := ofCode "5b345b505000".toList
    let graph := (Automaton.empty.addEdge (.at 0 []) (.at 1 [])).addEdge (.at 1 []) (.at 0 [])
    graph.Mirrored ∧ hasNoFailure graph = true ∧
      (∀ g ∈ graph.states, g.bounded p.segments.length = true) ∧
      graph.ClosedWalk [0, 1] ∧ p.effectAlong graph [0, 1] = -1 ∧
      (p.stackBounds graph).isRight = true := by
  intro p graph
  have built : graph.Built := .addEdge (.addEdge .empty _ _) _ _
  have running : hasNoFailure graph = true := by decide +kernel
  have bounded : ∀ g ∈ graph.states, g.bounded p.segments.length = true := by decide +kernel
  have closed : graph.ClosedWalk [0, 1] := by
    change [0, 1, 0].IsChain fun j k => k ∈ graph.succOf j
    decide +kernel
  have effect : p.effectAlong graph [0, 1] = -1 := by decide +kernel
  obtain ⟨-, right, -⟩ := stackBounds_isLeft_iff _ built.mirrored running bounded
  exact ⟨built.mirrored, running, bounded, closed, effect,
    right.mpr ⟨[0, 1], closed, effect ▸ by decide⟩⟩

end Program

end EvmFlow
