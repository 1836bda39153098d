import EvmFlow.Proofs.NodesAndFrames
import EvmFlow.Proofs.ReachableNodes

/-!
# The depth limit of an exploration

An exploration takes at most `depth` steps along a path and notes when it was cut off there. The
limit bounds what is found: moves start from paths with fewer exits than the limit
(`length_exits_of_mem_moves`), so every node of the graph lies within that many steps of the start,
also when loops have been folded, since an edge that is folded goes back to a node of its path.

Otherwise the limit has no influence. What one branch has found decides what later branches see, so
two explorations with different limits have to be compared move by move; but as long as neither is
cut off they make the same moves, and a cut is never forgotten (`exploreLog_of_le`).
-/

namespace EvmFlow

namespace Program

variable {p : Program} {path : Path} {l : Log} {m : Move} {g : Node} {depth d d' : Nat}

/-! ### Deeper explorations -/

/-- An exploration that was cut off stays so, whatever is explored next. -/
theorem isCut_exploreLog (p : Program) (depth : Nat) (path : Path) (cut : l.isCut = true) :
    (p.exploreLog depth path l).isCut = true := by
  have any : p.Invariant fun _ _ _ _ => True :=
    ⟨fun _ _ _ => trivial, fun _ _ _ => trivial, fun _ _ _ _ => trivial⟩
  refine any.keeps (Q := fun l => l.isCut = true) ?_ (fun _ => rfl) depth trivial cut
  intro l l' done m _ _ cut
  rw [Log.isCut_add]
  exact cut

section Follow

variable {enter enter' : Path → Log → Log} {step : Node × Nat}

theorem isCut_follow (keeps : ∀ path l, l.isCut = true → (enter path l).isCut = true)
    (cut : l.isCut = true) : (p.follow enter path l step).isCut = true := by
  rw [follow]
  split
  · apply keeps
    rw [Log.isCut_add]
    exact cut
  · rw [Log.isCut_add]
    exact cut

/-- An exit is followed alike by two ways to explore that agree where the first is not cut off. -/
theorem follow_of_uncut
    (agree : ∀ path l, (enter path l).isCut = false → enter' path l = enter path l)
    (uncut : (p.follow enter path l step).isCut = false) :
    p.follow enter' path l step = p.follow enter path l step := by
  rw [follow] at uncut ⊢
  rw [follow]
  split
  · rename_i entered
    rw [if_pos entered] at uncut
    exact agree _ _ uncut
  · rfl

/-- When the exits of a node have been followed without a cut there was none before the last of
them, so the second way came to the same log and goes on from it in the same way. -/
theorem foldl_follow_of_uncut (keeps : ∀ path l, l.isCut = true → (enter path l).isCut = true)
    (agree : ∀ path l, (enter path l).isCut = false → enter' path l = enter path l)
    (steps : List (Node × Nat)) (uncut : (steps.foldl (p.follow enter path) l).isCut = false) :
    steps.foldl (p.follow enter' path) l = steps.foldl (p.follow enter path) l := by
  induction steps using List.reverseRecOn with
  | nil => rfl
  | append_singleton steps step ih =>
      rw [List.foldl_concat] at uncut
      rw [List.foldl_concat, List.foldl_concat]
      have before : (steps.foldl (p.follow enter path) l).isCut = false := by
        apply Bool.eq_false_iff.mpr
        intro cut
        rw [isCut_follow keeps cut] at uncut
        cases uncut
      rw [ih before]
      exact follow_of_uncut agree uncut

end Follow

/-- A deeper exploration makes the same moves as one that was not cut off. -/
theorem exploreLog_of_le (deeper : d ≤ d') (uncut : (p.exploreLog d path l).isCut = false) :
    p.exploreLog d' path l = p.exploreLog d path l := by
  induction d generalizing d' path l with
  | zero => cases uncut
  | succ d ih =>
      obtain ⟨d', rfl⟩ := Nat.exists_eq_add_of_le' (Nat.le_trans (Nat.le_add_left 1 d) deeper)
      exact foldl_follow_of_uncut (fun path l => p.isCut_exploreLog d path)
        (fun path l => ih (Nat.le_of_succ_le_succ deeper)) _ uncut

theorem rawGraph_of_le (deeper : d ≤ d') (uncut : (p.rawGraph d).stats.maxDepthReached = false) :
    p.rawGraph d' = p.rawGraph d := by
  have same : p.log d' = p.log d := by
    apply exploreLog_of_le deeper
    rw [Log.isCut, found_exploreLog]
    exact uncut
  have found := congrArg Log.found same
  rw [log, log, found_exploreLog, found_exploreLog] at found
  exact found

theorem maxDepthReached_flowGraph (p : Program) (depth : Nat) (minimise : Bool) :
    (p.flowGraph depth minimise).stats.maxDepthReached =
      (p.rawGraph depth).stats.maxDepthReached := by
  cases minimise <;> rfl

/-- A program without segments has no graph, unless no step is asked for. -/
theorem flowGraph?_eq_ok {minimise : Bool} {x : Exploration} :
    p.flowGraph? depth minimise = .ok x ↔
      (p.segments = [] → depth = 0) ∧ p.flowGraph depth minimise = x := by
  rw [flowGraph?]
  split
  · rename_i missing
    simp only [reduceCtorEq, false_iff, not_and]
    intro idle
    have := idle (List.isEmpty_iff.mp missing.1)
    omega
  · rename_i there
    simp only [Except.ok.injEq, iff_and_self]
    intro _ empty
    simp only [empty, List.isEmpty_nil, true_and, Nat.not_lt, Nat.le_zero] at there
    exact there

/-- When the graph of a program was built without reaching the depth, it is the graph that is built
to every larger depth, with the same states and edges in the same order and the same statistics. -/
theorem flowGraph?_of_le (p : Program) {d d' : Nat} (deeper : d ≤ d') {minimise : Bool}
    {x : Exploration} (built : p.flowGraph? d minimise = .ok x)
    (uncut : x.stats.maxDepthReached = false) : p.flowGraph? d' minimise = .ok x := by
  obtain ⟨empty, rfl⟩ := flowGraph?_eq_ok.mp built
  rw [maxDepthReached_flowGraph] at uncut
  apply flowGraph?_eq_ok.mpr
  constructor
  · -- An exploration without a step is always cut off.
    intro missing
    rw [empty missing] at uncut
    cases uncut
  · rw [flowGraph, flowGraph, rawGraph_of_le deeper uncut]

/-- A loop that counts is explored in three steps. -/
theorem flowGraph?_of_le_of_counter :
    let p := ofCode "60025b6001013460025700".toList
    ∃ x, p.flowGraph? 3 false = .ok x ∧ x.stats.maxDepthReached = false ∧ x.stats.folded = 1 ∧
      p.flowGraph? 1000000 false = .ok x := by
  intro p
  have built : p.flowGraph? 3 false = .ok (p.flowGraph 3 false) :=
    flowGraph?_eq_ok.mpr ⟨by decide +kernel, rfl⟩
  have uncut : (p.flowGraph 3 false).stats.maxDepthReached = false := by decide +kernel
  exact ⟨_, built, uncut, by decide +kernel, flowGraph?_of_le p (by decide) built uncut⟩

/-! ### How far nodes are from the start -/

/-- Moves are made from the ends of paths that have not come to the limit. -/
theorem length_exits_of_mem_moves (depth : Nat) (path : Path) (l : Log)
    (hm : m ∈ (p.exploreLog depth path l).moves) :
    m ∈ l.moves ∨ m.path.exits.length < path.exits.length + depth := by
  induction depth generalizing path l with
  | zero => exact .inl hm
  | succ depth ih =>
      -- Following an exit adds one move from this path, and moves from the path behind the exit.
      refine List.foldlRecOn (motive := fun l' : Log => m ∈ l'.moves →
        m ∈ l.moves ∨ m.path.exits.length < path.exits.length + (depth + 1)) _ _ .inl ?_ hm
      intro l' before step _ hm
      have added : ∀ fate, m ∈ (l'.add ⟨path, step.2, step.1, fate⟩).moves →
          m ∈ l.moves ∨ m.path.exits.length < path.exits.length + (depth + 1) := by
        intro fate hm
        obtain old | new := List.mem_append.mp hm
        · exact before old
        · rw [List.mem_singleton.mp new]
          exact .inr (Nat.lt_add_of_pos_right (Nat.succ_pos depth))
      rw [follow] at hm
      split at hm
      · obtain old | inner := ih _ _ hm
        · exact added _ old
        · refine .inr (Nat.lt_of_lt_of_eq inner ?_)
          simp only [Move.after, Path.extend, List.length_append, List.length_singleton]
          omega
      · exact added _ hm

/-- An exploration adds no node but the targets of its moves. -/
theorem target_of_mem_nodes (depth : Nat) (hg : g ∈ (p.log depth).nodes) :
    g = .initial ∨ ∃ m ∈ p.moves depth, m.target = g := by
  refine Progress.invariant.keeps
    (Q := fun l => ∀ g ∈ l.nodes, g = .initial ∨ ∃ m ∈ l.moves, m.target = g)
    ?_ id depth .initial ?_ g hg
  · intro l l' done m _ progress before g hg
    obtain old | rfl := (progress.lawful.mem_nodes_add progress.source_mem).mp hg
    · obtain first | ⟨m', hm', target⟩ := before g old
      · exact .inl first
      · exact .inr ⟨m', List.mem_append_left _ hm', target⟩
    · exact .inr ⟨m, List.mem_append_right _ (List.mem_singleton_self m), rfl⟩
  · intro g hg
    exact .inl (List.mem_singleton.mp hg)

theorem nodeAfter?_concat (exits : List Nat) (e : Nat) (g : Node) :
    p.nodeAfter? (exits ++ [e]) g = (p.nodeAfter? exits g).bind fun h => (p.successors h)[e]? := by
  induction exits generalizing g with
  | nil => simp [nodeAfter?]
  | cons first rest ih =>
      rw [List.cons_append, nodeAfter?, nodeAfter?, Option.bind_assoc]
      exact congrArg _ (funext ih)

/-- The exits of a path lead to its last node. -/
theorem Leads.nodeAfter?_last (leads : p.Leads path) :
    p.nodeAfter? path.exits .initial = some path.last := by
  induction leads with
  | start => rfl
  | extend leads step running ih =>
      rw [Path.last_extend, Path.extend, nodeAfter?_concat, ih]
      exact step

theorem Leads.exists_exits (leads : p.Leads path) (hg : g ∈ path.nodes) :
    ∃ exits, exits.length ≤ path.exits.length ∧ p.nodeAfter? exits .initial = some g := by
  induction leads with
  | start =>
      rw [List.mem_singleton.mp hg]
      exact ⟨[], Nat.le_refl _, rfl⟩
  | @extend path exit h leads step running ih =>
      obtain old | new := List.mem_append.mp hg
      · obtain ⟨exits, short, after⟩ := ih old
        refine ⟨exits, Nat.le_trans short ?_, after⟩
        simp [Path.extend]
      · rw [List.mem_singleton.mp new]
        refine ⟨path.exits ++ [exit], Nat.le_refl _, ?_⟩
        rw [nodeAfter?_concat, leads.nodeAfter?_last]
        exact step

end Program

/-- The edge of a legal move ends at most one step behind its path. -/
theorem Move.Legal.exists_exits {p : Program} {m : Move} (legal : m.Legal p) :
    ∃ exits, exits.length ≤ m.path.exits.length + 1 ∧
      p.nodeAfter? exits .initial = some m.target := by
  obtain node | back := legal.target_eq_or_mem
  · refine ⟨m.path.exits ++ [m.exit], Nat.le_of_eq List.length_append, ?_⟩
    rw [Program.nodeAfter?_concat, legal.leads.nodeAfter?_last, node]
    exact legal.step
  · obtain ⟨exits, short, after⟩ := legal.leads.exists_exits back
    exact ⟨exits, Nat.le_succ_of_le short, after⟩

namespace Program

/-- The graph of a program that was read from a text, built to any depth, starts with the initial
node. Each of its nodes is reached by following no more exits than the depth, whether or not loops
were folded, and belongs to a segment of the program unless it has failed. -/
theorem flowGraph?_states_within_depth (code : List Char) (nonempty : code ≠ []) (depth : Nat) :
    ∃ x, (ofCode code).flowGraph? depth false = .ok x ∧ x.graph.states[0]? = some (.at 0 []) ∧
      ∀ g ∈ x.graph.states,
        (∃ exits, exits.length ≤ depth ∧ (ofCode code).nodeAfter? exits (.at 0 []) = some g) ∧
        ∀ i stack, g = .at i stack → i < (ofCode code).segments.length := by
  have segments := segments_ofCode_pos nonempty
  generalize ofCode code = p at segments ⊢
  have lawful := p.lawful_log depth
  refine ⟨p.flowGraph depth false, flowGraph?_eq_ok.mpr ⟨?_, rfl⟩, ?_, ?_⟩
  · intro empty
    rw [empty] at segments
    cases segments
  · rw [← found_log]
    exact lawful.first
  intro g hg
  rw [← found_log] at hg
  constructor
  · obtain rfl | ⟨m, hm, rfl⟩ := target_of_mem_nodes depth hg
    · exact ⟨[], Nat.zero_le _, rfl⟩
    · obtain ⟨exits, short, after⟩ := (lawful.legal m hm).exists_exits
      obtain none | near := length_exits_of_mem_moves depth .start .start hm
      · cases none
      · refine ⟨exits, Nat.le_trans short (Nat.succ_le_of_lt ?_), after⟩
        simpa [Path.start] using near
  · rintro i stack rfl
    simpa [Node.bounded] using (lawful.reachable _ hg).bounded segments

/-- The loop that counts, cut off after its first round, when its jump has been folded back. -/
theorem flowGraph?_states_within_depth_of_counter :
    let p := ofCode "60025b6001013460025700".toList
    ∃ x, p.flowGraph? 2 false = .ok x ∧ x.stats.maxDepthReached = true ∧ x.stats.folded = 1 ∧
      .at 2 [.blank] ∈ x.graph.states ∧
      (∃ exits, exits.length ≤ 2 ∧ p.nodeAfter? exits (.at 0 []) = some (.at 2 [.blank])) ∧
      2 < p.segments.length := by
  intro p
  obtain ⟨x, built, -, near⟩ :=
    flowGraph?_states_within_depth "60025b6001013460025700".toList (by decide) 2
  obtain rfl : p.flowGraph 2 false = x := (flowGraph?_eq_ok.mp built).2
  have found : .at 2 [.blank] ∈ (p.flowGraph 2 false).graph.states := by decide +kernel
  obtain ⟨reached, inside⟩ := near _ found
  exact ⟨_, built, by decide +kernel, by decide +kernel, found, reached, inside 2 _ rfl⟩

end Program

end EvmFlow
