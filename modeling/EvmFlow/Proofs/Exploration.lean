import EvmFlow.FlowGraph.Basic
import EvmFlow.Proofs.Automaton
import Mathlib.Logic.Relation

/-!
# The record of an exploration

An exploration keeps a graph and some counts, but not which exit of which path gave an edge.
`Program.exploreLog` is the same exploration with a log: one `Move` for every exit that is
followed, with the path, the node behind the exit and what became of it. Erasing the log gives
`Program.explore` back (`found_exploreLog`).

`Invariant.explore` is the one induction over the depth and over the exits of a node. What
survives a move, holds of a node that is entered, and survives the exploration of that node,
holds when the exploration is over. `Progress` is such an invariant. From it come the two facts
on which everything about explored graphs rests: a log is always `Lawful`, that is, it explains
the graph and its moves go along exits of the program; and unless the depth was reached it has
one move for every exit of every node (`Program.followed_moves`).
-/

namespace EvmFlow

/-- What became of an exit that was followed. -/
inductive Fate where
  /-- It failed. -/
  | failed
  /-- It led to a node already there. -/
  | seen
  /-- It was folded back to the node at a position of the path. -/
  | folded (position : Nat)
  /-- It led to a new node, which was explored next. -/
  | entered
  deriving DecidableEq, Repr

/-- An exit followed from the end of a path, and the node behind it. -/
structure Move where
  path : Path
  exit : Nat
  node : Node
  fate : Fate
  deriving DecidableEq, Repr

namespace Move

/-- The node that was left. -/
def source (m : Move) : Node := m.path.last

/-- The node to which the recorded edge leads. -/
def target (m : Move) : Node :=
  match m.fate with
  | .folded k => m.path.nodes.getD k .initial
  | _ => m.node

/-- What the move is counted as. -/
def count (m : Move) : Stats → Stats :=
  match m.fate with
  | .failed => Stats.addError
  | .seen => Stats.addVisited
  | .folded _ => Stats.addFolded
  | .entered => id

/-- Whether the move was folded back. -/
def isFold (m : Move) : Bool :=
  match m.fate with
  | .folded _ => true
  | _ => false

/-- The path with the node behind the exit. -/
def after (m : Move) : Path := m.path.extend m.exit m.node

/-- The nodes behind the exits of a node that a list of moves has followed, in their order. -/
def followed (ms : List Move) (g : Node) : List Node := (ms.filter (·.source = g)).map node

end Move

/-- An exploration together with its moves so far. -/
structure Log where
  found : Exploration
  moves : List Move

namespace Log

/-- Nothing has been followed yet. -/
def start : Log := ⟨.start, []⟩

/-- Notes a move and records its edge. -/
def add (l : Log) (m : Move) : Log :=
  ⟨l.found.record m.source m.target m.count, l.moves ++ [m]⟩

/-- The depth has been reached. -/
def cut (l : Log) : Log := ⟨{ l.found with stats := l.found.stats.setMaxDepth }, l.moves⟩

/-- Whether the depth has been reached. -/
def isCut (l : Log) : Bool := l.found.stats.maxDepthReached

/-- The nodes found so far. -/
def nodes (l : Log) : List Node := l.found.graph.states

end Log

namespace Program

variable (p : Program)

/-- The position of the path to which an exit is folded back, if it is. -/
def foldBack (path : Path) (exit : Nat) (h : Node) : Option Nat :=
  if p.jumpsAt path.last then
    h.segment?.bind fun i => p.loopStart i path.nodes (path.exits ++ [exit])
  else none

/-- What becomes of an exit. -/
def fate (x : Exploration) (path : Path) (exit : Nat) (h : Node) : Fate :=
  if h.isFailed then .failed
  else if h ∈ x.graph.states then .seen
  else match p.foldBack path exit h with
    | some k => .folded k
    | none => .entered

/-- Follows one exit; a node that is entered is explored by `enter`. -/
def follow (enter : Path → Log → Log) (path : Path) (l : Log) (step : Node × Nat) : Log :=
  let m : Move := ⟨path, step.2, step.1, p.fate l.found path step.2 step.1⟩
  if m.fate = .entered then enter m.after (l.add m) else l.add m

/-- `explore` with a log. -/
def exploreLog : Nat → Path → Log → Log
  | 0, _, l => l.cut
  | depth + 1, path, l =>
    (p.successors path.last).zipIdx.foldl (p.follow (exploreLog depth) path) l

/-- The log of the exploration from the start of a program. -/
def log (depth : Nat) : Log := p.exploreLog depth .start .start

/-- The moves of the exploration from the start of a program. -/
def moves (depth : Nat) : List Move := (p.log depth).moves

/-- Keeping a log changes nothing in what is found. -/
theorem found_exploreLog (depth : Nat) (path : Path) (l : Log) :
    (p.exploreLog depth path l).found = p.explore depth path l.found := by
  induction depth generalizing path l with
  | zero => rfl
  | succ depth ih =>
      unfold exploreLog explore
      symm
      apply List.foldl_hom Log.found
      rintro y ⟨h, e⟩
      simp only [follow, fate]
      by_cases failed : h.isFailed
      · simp [failed, Log.add, Move.target, Move.count, Move.source]
      by_cases seen : h ∈ y.found.graph.states
      · simp [failed, seen, Log.add, Move.target, Move.count, Move.source]
      simp only [failed, seen, Bool.false_eq_true, if_false]
      rw [← foldBack]
      cases p.foldBack path e h with
      | none => simp [ih, Log.add, Move.target, Move.count, Move.source, Move.after]
      | some k => simp [Log.add, Move.target, Move.count, Move.source]

theorem found_log (depth : Nat) : (p.log depth).found = p.flowGraph depth false := by
  simp [log, found_exploreLog, flowGraph, rawGraph, Log.start]

/-- Paths along exits of a program, through nodes that have not failed. -/
inductive Leads : Path → Prop where
  | start : Leads .start
  | extend {path : Path} {exit : Nat} {h : Node} (leads : Leads path)
      (step : (p.successors path.last)[exit]? = some h) (running : h.isFailed = false) :
      Leads (path.extend exit h)

/-- Nodes to which some sequence of exits leads from the start. -/
def Reachable (g : Node) : Prop :=
  Relation.ReflTransGen (fun g h => h ∈ p.successors g) .initial g

end Program

/-! ### The induction over an exploration -/

/-- The next move from the end of a path when the exits `done` have been followed. -/
structure Move.Next (p : Program) (x : Exploration) (done : List Node) (m : Move) : Prop where
  exit : m.exit = done.length
  step : done ++ [m.node] <+: p.successors m.source
  fate : m.fate = p.fate x m.path m.exit m.node

/-- A property of an exploration under way: the exits `done` of the last node of a path have been
followed, the log was `l` before them and is `l'` now. An invariant survives a move that enters
nothing, holds of a node that is entered, and survives the exploration of that node, whether this
was cut off or came to its end. -/
structure Program.Invariant (p : Program) (I : Path → Log → List Node → Log → Prop) : Prop where
  stay : ∀ {l l' done m}, Move.Next p l'.found done m → I m.path l done l' →
    m.fate ≠ .entered → I m.path l (done ++ [m.node]) (l'.add m)
  enter : ∀ {l l' done m}, Move.Next p l'.found done m → I m.path l done l' →
    m.fate = .entered → I m.after (l'.add m) [] (l'.add m)
  leave : ∀ {l l' l'' done m}, Move.Next p l'.found done m → I m.path l done l' →
    m.fate = .entered → (l'' = (l'.add m).cut ∨ I m.after (l'.add m) (p.successors m.node) l'') →
    I m.path l (done ++ [m.node]) l''

@[simp] theorem Path.last_extend (path : Path) (exit : Nat) (h : Node) :
    (path.extend exit h).last = h := by
  simp [Path.last, Path.extend, List.getLastD_eq_getLast?]

@[simp] theorem Move.last_after (m : Move) : m.after.last = m.node := Path.last_extend _ _ _

/-- An invariant holds when all exits have been followed, unless the depth was reached before the
first of them. -/
theorem Program.Invariant.explore {p : Program} {I : Path → Log → List Node → Log → Prop}
    (inv : p.Invariant I) (depth : Nat) {path : Path} {l : Log} (h : I path l [] l) :
    p.exploreLog depth path l = l.cut ∨
      I path l (p.successors path.last) (p.exploreLog depth path l) := by
  induction depth generalizing path l with
  | zero => exact .inl rfl
  | succ depth ih =>
      refine .inr ?_
      -- The loop over the exits that are left, by induction on them.
      have loop : ∀ rest done l', done ++ rest = p.successors path.last → I path l done l' →
          I path l (done ++ rest)
            ((rest.zipIdx done.length).foldl (p.follow (p.exploreLog depth) path) l') := by
        intro rest
        induction rest with
        | nil =>
            intro done l' _ hdone
            simpa using hdone
        | cons g rest loop =>
            intro done l' split hdone
            let m : Move := ⟨path, done.length, g, p.fate l'.found path done.length g⟩
            have next : m.Next p l'.found done :=
              ⟨rfl, ⟨rest, by simp [m, Move.source, ← split]⟩, rfl⟩
            have step : I path l (done ++ [g])
                (p.follow (p.exploreLog depth) path l' (g, done.length)) := by
              change I path l (done ++ [g])
                (if m.fate = .entered then p.exploreLog depth m.after (l'.add m) else l'.add m)
              split
              · rename_i entered
                have returned := ih (inv.enter next hdone entered)
                rw [Move.last_after] at returned
                exact inv.leave next hdone entered returned
              · rename_i stay
                exact inv.stay next hdone stay
            have := loop (done ++ [g]) _ (by simpa using split) step
            simpa [List.zipIdx_cons] using this
      exact loop (p.successors path.last) [] l rfl h

/-- What every move keeps and a cut keeps, an exploration keeps. Of the moves no more has to be
known than that they go on from where an invariant holds. -/
theorem Program.Invariant.keeps {p : Program} {I : Path → Log → List Node → Log → Prop}
    (inv : p.Invariant I) {Q : Log → Prop}
    (add : ∀ {l l' done m}, Move.Next p l'.found done m → I m.path l done l' → Q l' → Q (l'.add m))
    (cut : ∀ {l : Log}, Q l → Q l.cut) (depth : Nat) {path : Path} {l : Log} (h : I path l [] l)
    (start : Q l) : Q (p.exploreLog depth path l) := by
  have both : p.Invariant fun path l done l' => I path l done l' ∧ Q l' := by
    refine ⟨?_, ?_, ?_⟩
    · intro l l' done m next holds stays
      exact ⟨inv.stay next holds.1 stays, add next holds.1 holds.2⟩
    · intro l l' done m next holds entered
      exact ⟨inv.enter next holds.1 entered, add next holds.1 holds.2⟩
    · intro l l' l'' done m next holds entered inner
      refine ⟨inv.leave next holds.1 entered (inner.imp_right And.left), ?_⟩
      obtain rfl | inner := inner
      · exact cut (add next holds.1 holds.2)
      · exact inner.2
  obtain ended | finished := both.explore depth ⟨h, start⟩
  · rw [ended]
    exact cut start
  · exact finished.2

/-! ### Paths and moves -/

namespace Program

variable {p : Program}

namespace Leads

variable {path : Path}

theorem initial_mem (h : p.Leads path) : .initial ∈ path.nodes := by
  induction h with
  | start => simp [Path.start]
  | extend _ _ _ ih => exact List.mem_append_left _ ih

theorem last_mem (h : p.Leads path) : path.last ∈ path.nodes := by
  cases h with
  | start => simp [Path.start, Path.last]
  | extend _ _ _ => simp [Path.extend, Path.last, List.getLastD_eq_getLast?]

theorem reachable_last (h : p.Leads path) : p.Reachable path.last := by
  induction h with
  | start => exact .refl
  | extend _ step _ ih =>
      rw [Path.last_extend]
      exact ih.tail (List.mem_of_getElem? step)

theorem running (h : p.Leads path) {g : Node} (hg : g ∈ path.nodes) : g.isFailed = false := by
  induction h with
  | start =>
      rw [List.mem_singleton.mp hg]
      rfl
  | extend _ _ running ih =>
      rcases List.mem_append.mp hg with old | new
      · exact ih old
      · rw [List.mem_singleton.mp new]
        exact running

/-- A position of a path stands for a node of the path, also past its end. -/
theorem getD_mem (h : p.Leads path) (k : Nat) : path.nodes.getD k .initial ∈ path.nodes := by
  rw [List.getD_eq_getElem?_getD]
  cases found : path.nodes[k]? with
  | none => exact h.initial_mem
  | some g => exact List.mem_of_getElem? found

end Leads

theorem successors_of_isFailed {h : Node} (failed : h.isFailed = true) : p.successors h = [] := by
  cases h with
  | «at» => cases failed
  | failed => rfl

/-- What each fate says about the node behind the exit. -/
theorem fate_spec (p : Program) (x : Exploration) (path : Path) (exit : Nat) (h : Node) :
    match p.fate x path exit h with
    | .failed => h.isFailed = true
    | .seen => h.isFailed = false ∧ h ∈ x.graph.states
    | .folded k => h.isFailed = false ∧ h ∉ x.graph.states ∧ p.foldBack path exit h = some k
    | .entered => h.isFailed = false ∧ h ∉ x.graph.states ∧ p.foldBack path exit h = none := by
  unfold fate
  by_cases failed : h.isFailed = true
  · simp [failed]
  by_cases seen : h ∈ x.graph.states
  · simp [failed, seen]
  cases back : p.foldBack path exit h <;> simp [failed, seen]

end Program

namespace Move

variable {p : Program} {x : Exploration} {done : List Node} {m : Move}

/-- A move along an exit of the last node of a path; when it was folded, it was folded to where
the search for a loop said. -/
structure Legal (p : Program) (m : Move) : Prop where
  leads : p.Leads m.path
  step : (p.successors m.source)[m.exit]? = some m.node
  fold : ∀ k, m.fate = .folded k → p.foldBack m.path m.exit m.node = some k

theorem Next.legal (next : m.Next p x done) (leads : p.Leads m.path) : m.Legal p := by
  refine ⟨leads, ?_, ?_⟩
  · obtain ⟨rest, split⟩ := next.step
    rw [next.exit, ← split]
    simp
  · intro k folded
    have spec := p.fate_spec x m.path m.exit m.node
    rw [← next.fate, folded] at spec
    exact spec.2.2

/-- The edge of a legal move ends at the node behind the exit or goes back to the path. -/
theorem Legal.target_eq_or_mem (legal : m.Legal p) :
    m.target = m.node ∨ m.target ∈ m.path.nodes := by
  unfold target
  split
  · exact .inr (legal.leads.getD_mem _)
  · exact .inl rfl

/-- Only a failed node can be new behind a move that enters nothing. -/
theorem Next.target_of_stay (next : m.Next p x done) (leads : p.Leads m.path)
    (stay : m.fate ≠ .entered) (onPath : ∀ g ∈ m.path.nodes, g ∈ x.graph.states) :
    m.target ∈ x.graph.states ∨ m.target.isFailed = true := by
  have spec := p.fate_spec x m.path m.exit m.node
  rw [← next.fate] at spec
  unfold target
  cases result : m.fate with
  | failed =>
      rw [result] at spec
      exact .inr spec
  | seen =>
      rw [result] at spec
      exact .inl spec.2
  | folded k => exact .inl (onPath _ (leads.getD_mem k))
  | entered => exact absurd result stay

/-- A node that is entered is new, has not failed, and is the target of its move. -/
theorem Next.of_entered (next : m.Next p x done) (entered : m.fate = .entered) :
    m.node.isFailed = false ∧ m.node ∉ x.graph.states ∧ m.target = m.node := by
  have spec := p.fate_spec x m.path m.exit m.node
  rw [← next.fate, entered] at spec
  exact ⟨spec.1, spec.2.1, by simp [target, entered]⟩

theorem target_of_not_isFold (h : m.isFold = false) : m.target = m.node := by
  unfold isFold at h
  unfold target
  cases fate : m.fate <;> simp_all

theorem followed_append (ms ns : List Move) (g : Node) :
    followed (ms ++ ns) g = followed ms g ++ followed ns g := by
  simp [followed]

theorem followed_singleton (m : Move) (g : Node) :
    followed [m] g = if m.source = g then [m.node] else [] := by
  by_cases h : m.source = g <;> simp [followed, h]

end Move

/-! ### Lawful logs -/

namespace Log

variable {p : Program} {l : Log} {m : Move} {g h : Node}

/-- A log that explains its graph: the targets of a node are those of the moves out of it, each
listed once, and every move is legal. -/
structure Lawful (p : Program) (l : Log) : Prop where
  wellFormed : l.found.graph.WellFormed
  first : l.nodes[0]? = some .initial
  targets : ∀ g, l.found.graph.targets g =
    ((l.moves.filter (·.source = g)).map Move.target).eraseDups
  legal : ∀ m ∈ l.moves, m.Legal p
  reachable : ∀ g ∈ l.nodes, p.Reachable g
  folds : l.found.stats.folded = l.moves.countP Move.isFold

@[simp] theorem isCut_add (l : Log) (m : Move) : (l.add m).isCut = l.isCut := by
  unfold isCut add Exploration.record Move.count
  cases m.fate <;> rfl

@[simp] theorem isCut_cut (l : Log) : l.cut.isCut = true := rfl

theorem Lawful.start : Log.start.Lawful p := by
  refine ⟨?_, rfl, ?_, by simp [Log.start], ?_, rfl⟩
  · exact Automaton.wellFormed_empty.addState _
  · intro g
    rw [show Log.start.found.graph = Automaton.empty.addState .initial from rfl,
      Automaton.targets_addState Automaton.wellFormed_empty]
    rfl
  · intro g hg
    have : g = .initial := by simpa [Log.start, nodes, Exploration.start, Automaton.empty] using hg
    rw [this]
    exact .refl

theorem Lawful.cut (lawful : l.Lawful p) : l.cut.Lawful p :=
  ⟨lawful.wellFormed, lawful.first, lawful.targets, lawful.legal, lawful.reachable, lawful.folds⟩

theorem Lawful.edge_iff (lawful : l.Lawful p) :
    l.found.graph.Edge g h ↔ ∃ m ∈ l.moves, m.source = g ∧ m.target = h := by
  rw [Automaton.Edge, lawful.targets, List.mem_eraseDups]
  simp [and_assoc]

theorem Lawful.nodes_add (lawful : l.Lawful p) (source : m.source ∈ l.nodes) :
    (l.add m).nodes = if m.target ∈ l.nodes then l.nodes else l.nodes ++ [m.target] :=
  Automaton.states_addEdge_of_mem lawful.wellFormed source m.target

theorem Lawful.mem_nodes_add (lawful : l.Lawful p) (source : m.source ∈ l.nodes) :
    g ∈ (l.add m).nodes ↔ g ∈ l.nodes ∨ g = m.target := by
  rw [lawful.nodes_add source]
  split <;> grind

/-- A legal move whose path has been found keeps a log lawful. -/
theorem Lawful.add (lawful : l.Lawful p) (legal : m.Legal p)
    (onPath : ∀ g ∈ m.path.nodes, g ∈ l.nodes) : (l.add m).Lawful p := by
  have source : m.source ∈ l.nodes := onPath _ legal.leads.last_mem
  refine ⟨lawful.wellFormed.addEdge _ _, ?_, ?_, ?_, ?_, ?_⟩
  · rw [lawful.nodes_add source]
    split
    · exact lawful.first
    · have : 0 < l.nodes.length := (List.getElem?_eq_some_iff.mp lawful.first).1
      rw [List.getElem?_append_left this]
      exact lawful.first
  · intro g
    by_cases same : m.source = g
    · subst same
      have := Automaton.targets_addEdge_eraseDups lawful.wellFormed (lawful.targets m.source)
        m.target
      simpa [Log.add, Exploration.record] using this
    · have := lawful.targets g
      simp only [Log.add, List.filter_append, List.filter_cons, same, decide_false,
        Bool.false_eq_true, if_false, List.filter_nil, List.append_nil]
      rw [← this]
      exact (Automaton.targets_addEdge lawful.wellFormed _ _ _).trans
        (if_neg fun h => same h.1.symm)
  · intro m' hm'
    rcases List.mem_append.mp hm' with old | new
    · exact lawful.legal m' old
    · rw [List.mem_singleton.mp new]
      exact legal
  · intro g hg
    rcases (lawful.mem_nodes_add source).mp hg with old | rfl
    · exact lawful.reachable g old
    · rcases legal.target_eq_or_mem with node | back
      · rw [node]
        exact legal.leads.reachable_last.tail (List.mem_of_getElem? legal.step)
      · exact lawful.reachable _ (onPath _ back)
  · have folds := lawful.folds
    simp only [Log.add, Exploration.record, List.countP_append, List.countP_singleton, ← folds]
    unfold Move.count Move.isFold
    cases m.fate <;> rfl

end Log

/-! ### Every exit is followed once -/

/-- The state of an exploration under way. The path and the log are as they should be, and unless
the depth was reached the moves since `l` have followed the exits `done` of the last node, all
exits of the nodes found since, and no others. -/
structure Progress (p : Program) (path : Path) (l : Log) (done : List Node) (l' : Log) : Prop where
  leads : p.Leads path
  onPath : ∀ g ∈ path.nodes, g ∈ l'.nodes
  lawful : l'.Lawful p
  grows : ∀ g ∈ l.nodes, g ∈ l'.nodes
  moves : ∃ ms, l'.moves = l.moves ++ ms ∧ (l'.isCut = false → l.isCut = false ∧
    ∀ g, Move.followed ms g =
      if g = path.last then done
      else if g ∈ l.nodes ∨ g ∉ l'.nodes then [] else p.successors g)

namespace Progress

variable {p : Program} {path : Path} {l l' l'' : Log} {done : List Node} {m : Move}

theorem start (leads : p.Leads path) (onPath : ∀ g ∈ path.nodes, g ∈ l.nodes)
    (lawful : l.Lawful p) : Progress p path l [] l := by
  refine ⟨leads, onPath, lawful, fun _ h => h, [], by simp, ?_⟩
  intro uncut
  refine ⟨uncut, fun g => ?_⟩
  by_cases old : g ∈ l.nodes <;> simp [Move.followed, old]

theorem initial : Progress p .start .start [] .start :=
  start .start (by simp [Path.start, Log.start, Log.nodes, Exploration.start]) Log.Lawful.start

theorem source_mem (progress : Progress p m.path l done l') : m.source ∈ l'.nodes :=
  progress.onPath _ progress.leads.last_mem

theorem stay (next : m.Next p l'.found done) (progress : Progress p m.path l done l')
    (stays : m.fate ≠ .entered) : Progress p m.path l (done ++ [m.node]) (l'.add m) := by
  have nodes := fun g => progress.lawful.mem_nodes_add (g := g) progress.source_mem
  have target := next.target_of_stay progress.leads stays progress.onPath
  obtain ⟨ms, moves, followed⟩ := progress.moves
  refine ⟨progress.leads, ?_, progress.lawful.add (next.legal progress.leads) progress.onPath, ?_,
    ms ++ [m], ?_, ?_⟩
  · exact fun g hg => (nodes g).mpr (.inl (progress.onPath g hg))
  · exact fun g hg => (nodes g).mpr (.inl (progress.grows g hg))
  · simp [Log.add, moves]
  · intro uncut
    rw [Log.isCut_add] at uncut
    obtain ⟨before, each⟩ := followed uncut
    refine ⟨before, fun g => ?_⟩
    rw [Move.followed_append, Move.followed_singleton, each]
    by_cases last : g = m.path.last
    · simp [last, Move.source]
    · have source : m.source ≠ g := fun h => last h.symm
      rw [if_neg last, if_neg source, if_neg last, List.append_nil]
      -- A node that this move has added has no exits.
      by_cases old : g ∈ l'.nodes
      · simp [nodes, old]
      · rw [if_pos (.inr old)]
        split
        · rfl
        · rename_i new
          rcases (nodes g).mp (by tauto) with h | rfl
          · exact absurd h old
          · exact (Program.successors_of_isFailed (target.resolve_left old)).symm

theorem enter (next : m.Next p l'.found done) (progress : Progress p m.path l done l')
    (entered : m.fate = .entered) : Progress p m.after (l'.add m) [] (l'.add m) := by
  have nodes := fun g => progress.lawful.mem_nodes_add (g := g) progress.source_mem
  obtain ⟨running, _, target⟩ := next.of_entered entered
  have legal := next.legal progress.leads
  refine start (.extend progress.leads legal.step running) ?_
    (progress.lawful.add legal progress.onPath)
  intro g hg
  rcases List.mem_append.mp hg with old | new
  · exact (nodes g).mpr (.inl (progress.onPath g old))
  · rw [List.mem_singleton.mp new, ← target]
    exact (nodes _).mpr (.inr rfl)

/-- What was said before the entered node was explored and what its own exploration says fit
together, since that exploration has left the nodes known before alone. -/
theorem leave (next : m.Next p l'.found done) (progress : Progress p m.path l done l')
    (entered : m.fate = .entered)
    (inner : l'' = (l'.add m).cut ∨ Progress p m.after (l'.add m) (p.successors m.node) l'') :
    Progress p m.path l (done ++ [m.node]) l'' := by
  have nodes := fun g => progress.lawful.mem_nodes_add (g := g) progress.source_mem
  obtain ⟨_, fresh, target⟩ := next.of_entered entered
  obtain ⟨ms, moves, followed⟩ := progress.moves
  rcases inner with rfl | inner
  · refine ⟨progress.leads, ?_, (progress.lawful.add (next.legal progress.leads)
      progress.onPath).cut, ?_, ms ++ [m], ?_, ?_⟩
    · exact fun g hg => (nodes g).mpr (.inl (progress.onPath g hg))
    · exact fun g hg => (nodes g).mpr (.inl (progress.grows g hg))
    · simp [Log.add, Log.cut, moves]
    · intro uncut
      simp at uncut
  · obtain ⟨ns, moves', followed'⟩ := inner.moves
    have kept : ∀ g ∈ l'.nodes, g ∈ l''.nodes :=
      fun g hg => inner.grows g ((nodes g).mpr (.inl hg))
    refine ⟨progress.leads, ?_, inner.lawful, ?_, ms ++ [m] ++ ns, ?_, ?_⟩
    · exact fun g hg => kept g (progress.onPath g hg)
    · exact fun g hg => kept g (progress.grows g hg)
    · simp [moves', Log.add, moves]
    · intro uncut
      obtain ⟨uncut', each'⟩ := followed' uncut
      rw [Log.isCut_add] at uncut'
      obtain ⟨before, each⟩ := followed uncut'
      refine ⟨before, fun g => ?_⟩
      rw [Move.followed_append, Move.followed_append, Move.followed_singleton, each, each',
        Move.last_after]
      have found : m.node ∈ l''.nodes := by
        refine inner.grows _ ((nodes _).mpr (.inr target.symm))
      have known : m.path.last ∈ l'.nodes := progress.source_mem
      have apart : m.path.last ≠ m.node := fun h => fresh (h ▸ known)
      have mem := nodes g
      rw [target] at mem
      have := progress.grows
      have source : m.source = m.path.last := rfl
      rw [source]
      by_cases last : g = m.path.last
      · subst last
        simp [apart, mem, known]
      · by_cases new : g = m.node
        · subst new
          have old : m.node ∉ l.nodes := fun h => fresh (progress.grows _ h)
          simp [last, Ne.symm last, show m.node ∉ l'.nodes from fresh, old, found]
        · by_cases old : g ∈ l'.nodes
          · simp [last, Ne.symm last, new, mem, old, kept g old]
          · have unknown : g ∉ l.nodes := fun h => old (progress.grows _ h)
            simp [last, Ne.symm last, new, mem, old, unknown]

theorem invariant : p.Invariant (Progress p) := ⟨stay, enter, leave⟩

end Progress

namespace Program

variable (p : Program) (depth : Nat)

/-- The exploration from the start of a program follows all exits of its first node, unless it may
take no step at all. -/
theorem progress_log : p.log depth = Log.start.cut ∨
    Progress p .start .start (p.successors .initial) (p.log depth) :=
  Progress.invariant.explore depth Progress.initial

theorem lawful_log : (p.log depth).Lawful p := by
  rcases p.progress_log depth with cut | progress
  · rw [cut]
    exact Log.Lawful.start.cut
  · exact progress.lawful

/-- Unless the depth was reached there is one move for every exit of every node, in the order of
the exits. -/
theorem followed_moves (uncut : (p.flowGraph depth false).stats.maxDepthReached = false)
    {g : Node} (hg : g ∈ (p.flowGraph depth false).graph.states) :
    Move.followed (p.moves depth) g = p.successors g := by
  rw [← found_log] at uncut hg
  rcases p.progress_log depth with cut | progress
  · rw [cut] at uncut
    cases uncut
  · obtain ⟨ms, moves, followed⟩ := progress.moves
    have all : p.moves depth = ms := moves
    rw [all, (followed uncut).2 g]
    by_cases first : g = .initial
    · simp [first, Path.start, Path.last]
    · have new : g ∉ Log.start.nodes := by
        simpa [Log.start, Log.nodes, Exploration.start, Automaton.empty, Automaton.addState]
          using first
      have last : g ≠ Path.start.last := first
      rw [if_neg last, if_neg]
      rintro (old | missing)
      · exact new old
      · exact missing hg

/-- Every exit of a node of the graph has a move. -/
theorem exists_move (uncut : (p.flowGraph depth false).stats.maxDepthReached = false)
    {g h : Node} (hg : g ∈ (p.flowGraph depth false).graph.states) (exit : h ∈ p.successors g) :
    ∃ m ∈ p.moves depth, m.source = g ∧ m.node = h := by
  rw [← p.followed_moves depth uncut hg] at exit
  simpa [Move.followed, and_assoc] using exit

end Program

end EvmFlow
