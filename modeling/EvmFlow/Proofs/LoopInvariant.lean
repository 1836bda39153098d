import EvmFlow.Proofs.Exploration
import EvmFlow.Proofs.LoopSearch
import EvmFlow.Proofs.PathPrecondition
import EvmFlow.Proofs.RepresentativeStack

/-!
# What going round a loop keeps

A path that comes back to the segment of one of its nodes may be closed to a loop. The search for
loops takes the condition under which the rest of the path is followed and tries, on the least
stack that satisfies it, whether going round once keeps it. That settles all stacks and any number
of rounds: every stack that satisfies the condition refines the least one, and refinement is kept
along the exits.

The condition asks for more than following the path. What the last segment needs in order to jump
home is asked for on entry to that segment, but also of the stack that comes home. So the node at
which the loop starts satisfies the condition exactly when the stack that has come home does what
the last segment asks of its own stack, and this may fail.
-/

namespace EvmFlow

/-! ### Known cells -/

/-- All known cells of a stack are destinations. -/
def Stack.Grounded (dests : List Nat) (stack : List Cell) : Prop :=
  ∀ (pos v : Nat), stack[pos]? = some (.known v) → v ∈ dests

section Grounded

variable {dests : List Nat} {e : Nat} {f g : Frame}

theorem Instruction.grounded_step {i : Instruction} (encoded : i.IsEncoded)
    (run : i.step dests e f = .running g) (grounded : Stack.Grounded dests f.stack) :
    Stack.Grounded dests g.stack := by
  intro pos v known
  rw [getElem?_step_source encoded run] at known
  match source : i.source pos with
  | .inr below =>
      rw [source] at known
      exact grounded below v known
  | .inl (.unknown _) =>
      rw [source] at known
      cases known
  | .inl (.known w) =>
      simp only [source, placed, constant] at known
      split at known
      · rename_i dest
        cases known
        exact dest
      · cases known

theorem Instruction.grounded_runAll {is : List Instruction} (encoded : ∀ i ∈ is, i.IsEncoded)
    (run : runAll dests is f = .running g) (grounded : Stack.Grounded dests f.stack) :
    Stack.Grounded dests g.stack := by
  induction is generalizing f with
  | nil =>
      cases run
      exact grounded
  | cons i rest ih =>
      obtain ⟨h, step, run⟩ := runAll_cons run
      obtain ⟨first, others⟩ := List.forall_mem_cons.mp encoded
      exact ih others run (grounded_step first step grounded)

/-- Leaving a segment by a jump leads to a destination. -/
theorem Segment.grounded_run {s : Segment} (cut : s.IsCut)
    (encoded : ∀ i ∈ s.instructions, i.IsEncoded) (run : s.run dests e f = .running g)
    (grounded : Stack.Grounded dests f.stack) :
    Stack.Grounded dests g.stack ∧ (s.jumpsBy e = true → g.pc ∈ dests) := by
  obtain ⟨h, body, last⟩ := run_eq_running run
  have before := Instruction.grounded_runAll (List.forall_mem_append.mp encoded).1 body grounded
  have final : s.last ∈ s.instructions := by simp [instructions]
  exact ⟨Instruction.grounded_step (encoded _ final) last before,
    fun jump => before 0 _ (top_of_jump cut encoded jump last)⟩

end Grounded

namespace Program

variable {p : Program} {f g h : Frame} {e pc target : Nat} {c : Condition}
variable {exits : List Nat} {path : List (Segment × Nat)}

/-! ### The segments that a run visits -/

/-- Following exits from a frame goes through the given segments and ends at another frame. -/
inductive Visits (p : Program) : List Nat → Frame → List Segment → Frame → Prop where
  | nil {f : Frame} : Visits p [] f [] f
  | cons {e : Nat} {s : Segment} {f g h : Frame} {exits : List Nat} {segments : List Segment}
      (found : (p.segments.find? fun t => t.start == f.pc) = some s)
      (exit : e < s.exits) (run : s.run p.dests e f = .running g)
      (onward : Visits p exits g segments h) : Visits p (e :: exits) f (s :: segments) h

/-- An exit is followed from the segment that starts at the address of the frame. -/
theorem run_cons_iff : p.run (e :: exits) f = .running h ↔
    ∃ s g, (p.segments.find? fun t => t.start == f.pc) = some s ∧ e < s.exits ∧
      s.run p.dests e f = .running g ∧ p.run exits g = .running h := by
  rw [Program.run]
  cases p.segments.find? fun t => t.start == f.pc with
  | none => simp
  | some s =>
      by_cases exit : e < s.exits
      · cases step : s.run p.dests e f <;> simp [exit, step]
      · simp [exit]

theorem exists_visits (run : p.run exits f = .running h) :
    ∃ segments, p.Visits exits f segments h := by
  induction exits generalizing f with
  | nil =>
      cases run
      exact ⟨[], .nil⟩
  | cons e rest ih =>
      obtain ⟨s, g, found, exit, step, run⟩ := run_cons_iff.mp run
      obtain ⟨segments, onward⟩ := ih run
      exact ⟨s :: segments, .cons found exit step onward⟩

theorem Visits.run {segments : List Segment} (visits : p.Visits exits f segments h) :
    p.run exits f = .running h := by
  induction visits with
  | nil => rfl
  | cons found exit run _ ih => exact run_cons_iff.mpr ⟨_, _, found, exit, run, ih⟩

theorem run_append {more : List Nat} (run : p.run (exits ++ more) f = .running h) :
    ∃ g, p.run exits f = .running g ∧ p.run more g = .running h := by
  induction exits generalizing f with
  | nil => exact ⟨f, rfl, run⟩
  | cons e rest ih =>
      obtain ⟨_, visits⟩ := exists_visits run
      cases visits with
      | cons found exit step onward =>
          obtain ⟨g, first, second⟩ := ih onward.run
          obtain ⟨segments, visits⟩ := exists_visits first
          exact ⟨g, (Visits.cons found exit step visits).run, second⟩

theorem Visits.append {more : List Nat} {segments others : List Segment}
    (visits : p.Visits exits f segments g) (onward : p.Visits more g others h) :
    p.Visits (exits ++ more) f (segments ++ others) h := by
  induction visits with
  | nil => exact onward
  | cons found exit run _ ih => exact .cons found exit run (ih onward)

theorem Visits.pc_eq_entry (visits : p.Visits exits f (path.map Prod.fst) h)
    (final : h.pc = target) : f.pc = Segment.entry target path := by
  cases path with
  | nil =>
      cases visits
      exact final
  | cons step rest =>
      cases visits with
      | cons found =>
          have start : step.1.start = f.pc := by simpa using List.find?_some found
          exact start.symm

/-- The condition of a path holds exactly when its exits lead through its segments to the target,
and the condition asked for holds there. -/
theorem Passable.holds_iff_visits (passable : p.Passable target path) (addressed : p.Addressed)
    (small : target < Word.count 256) (valid : c.isValid = true) (within : c.Within p.dests)
    (start : f.pc = Segment.entry target path) (run : p.run (path.map Prod.snd) f = .running h) :
    (Segment.wprePath c target path).holds f.stack = true ↔
      p.Visits (path.map Prod.snd) f (path.map Prod.fst) h ∧ h.pc = target ∧
        c.holds h.stack = true := by
  induction passable generalizing f with
  | nil =>
      cases run
      exact ⟨fun holds => ⟨.nil, start, holds⟩, fun h => h.2.2⟩
  | @cons s e rest exit passable ih =>
      obtain ⟨_, visits⟩ := exists_visits run
      cases visits with
      | @cons _ t _ g _ _ _ found inside step onward =>
          have same : (p.segments.find? fun t => t.start == f.pc) = some s := by
            rw [start]
            exact addressed.find?_start exit.mem
          obtain rfl : s = t := Option.some.inj (same.symm.trans found)
          obtain ⟨valid', within'⟩ := passable.wprePath_spec addressed small valid within
          rw [Segment.wprePath, exit.holds_iff addressed (passable.entry_lt addressed small)
            valid' within' step start]
          constructor
          · rintro ⟨next, holds⟩
            obtain ⟨visits, final⟩ := (ih next onward.run).mp holds
            exact ⟨.cons found inside step visits, final⟩
          · rintro ⟨visits, final⟩
            cases visits with
            | cons found' _ step' visits =>
                obtain rfl : _ = g := by simpa [step] using step'.symm
                have next := visits.pc_eq_entry final.1
                exact ⟨next, (ih next onward.run).mpr ⟨visits, final⟩⟩

/-! ### Routes through nodes -/

/-- The frame in which a node is entered. -/
def entered (p : Program) : Node → Frame
  | .at i stack => ⟨p.startOf i, stack⟩
  | .failed _ => ⟨0, []⟩

/-- An exit that leads from one node to another. -/
inductive Steps (p : Program) (e : Nat) : Node → Node → Prop where
  | mk {i j : Nat} {s t : Segment} {stack : List Cell} {f : Frame}
      (source : p.segments[i]? = some s) (exit : e < s.exits)
      (run : s.run p.dests e ⟨s.start, stack⟩ = .running f) (target : p.segments[j]? = some t)
      (pc : f.pc = t.start) :
      Steps p e (.at i stack) (.at j f.stack)

theorem startOf_eq {i : Nat} {s : Segment} (found : p.segments[i]? = some s) :
    p.startOf i = s.start := by
  simp [startOf, found]

theorem getElem?_successors {i : Nat} {s : Segment} (found : p.segments[i]? = some s)
    (stack : List Cell) (e : Nat) :
    (p.successors (.at i stack))[e]? =
      if e < s.exits then some (p.locate (s.run p.dests e ⟨s.start, stack⟩)) else none := by
  simp only [successors, found, List.getElem?_map]
  by_cases exit : e < s.exits
  · rw [List.getElem?_range exit, if_pos exit]
    rfl
  · rw [List.getElem?_eq_none (by simpa using exit), if_neg exit]
    rfl

/-- The node behind an exit. -/
theorem exit_of_successors {i : Nat} {stack : List Cell} {b : Node}
    (step : (p.successors (.at i stack))[e]? = some b) :
    ∃ s, p.segments[i]? = some s ∧ e < s.exits ∧
      b = p.locate (s.run p.dests e ⟨s.start, stack⟩) := by
  cases source : p.segments[i]? with
  | none => simp [successors, source] at step
  | some s =>
      rw [getElem?_successors source] at step
      split at step
      · rename_i exit
        exact ⟨s, rfl, exit, (Option.some.inj step).symm⟩
      · cases step

theorem steps_of_successors {a b : Node} (step : (p.successors a)[e]? = some b)
    (running : b.isFailed = false) : p.Steps e a b := by
  cases a with
  | failed => simp [successors] at step
  | «at» i stack =>
      obtain ⟨s, source, exit, rfl⟩ := exit_of_successors step
      cases run : s.run p.dests e ⟨s.start, stack⟩ with
      | failed =>
          rw [run] at running
          cases running
      | running f =>
          rw [run] at running
          cases place : p.segmentAt? f.pc with
          | none => simp [locate, place, Node.isFailed] at running
          | some j =>
              obtain ⟨t, target, start⟩ := getElem?_of_segmentAt? place
              simp only [locate, place]
              exact .mk source exit run target start.symm

/-- Exits that lead from one node through the given ones to another. -/
inductive Route (p : Program) : Node → List Nat → List Node → Node → Prop where
  | done {a : Node} : Route p a [] [] a
  | step {a b c : Node} {e : Nat} {exits : List Nat} {nodes : List Node} (step : p.Steps e a b)
      (onward : Route p b exits nodes c) : Route p a (e :: exits) (a :: nodes) c

section Route

variable {a b d : Node} {nodes : List Node}

theorem Route.snoc (route : p.Route a exits nodes b) (step : p.Steps e b d) :
    p.Route a (exits ++ [e]) (nodes ++ [b]) d := by
  induction route with
  | done => exact .step step .done
  | step first _ ih => exact .step first (ih step)

theorem Leads.route {path : Path} (leads : p.Leads path) :
    ∃ front, path.nodes = front ++ [path.last] ∧ p.Route .initial path.exits front path.last := by
  induction leads with
  | start => exact ⟨[], rfl, .done⟩
  | @extend path e h _ step running ih =>
      obtain ⟨front, nodes, route⟩ := ih
      refine ⟨path.nodes, by rw [Path.last_extend]; rfl, ?_⟩
      rw [Path.last_extend, nodes]
      exact route.snoc (steps_of_successors step running)

/-- The part of a route from one of its nodes on. -/
theorem Route.drop {j : Nat} (route : p.Route a exits nodes d) (found : nodes[j]? = some b) :
    p.Route b (exits.drop j) (nodes.drop j) d := by
  induction route generalizing j with
  | done => cases found
  | step step onward ih =>
      cases j with
      | zero =>
          cases found
          exact .step step onward
      | succ j => exact ih found

theorem segmentsOf_cons {i : Nat} {s : Segment} {stack : List Cell}
    (found : p.segments[i]? = some s) :
    p.segmentsOf (.at i stack :: nodes) = s :: p.segmentsOf nodes := by
  simp [segmentsOf, Node.segment?, found]

theorem Route.lengths (route : p.Route a exits nodes b) :
    nodes.length = exits.length ∧ (p.segmentsOf nodes).length = exits.length := by
  induction route with
  | done => exact ⟨rfl, rfl⟩
  | step step _ ih =>
      obtain ⟨source⟩ := step
      rw [segmentsOf_cons source]
      exact ⟨congrArg (· + 1) ih.1, congrArg (· + 1) ih.2⟩

/-- Following the exits of a route visits the segments of its nodes. -/
theorem Route.visits (wf : p.WellFormed) (route : p.Route a exits nodes b) :
    p.Visits exits (p.entered a) (p.segmentsOf nodes) (p.entered b) := by
  induction route with
  | done => exact .nil
  | step step _ ih =>
      obtain ⟨source, exit, run, target, pc⟩ := step
      rw [segmentsOf_cons source]
      refine .cons ?_ exit ?_ ih
      · rw [entered, startOf_eq source]
        exact wf.find?_start (List.mem_of_getElem? source)
      · simp only [entered, startOf_eq source, startOf_eq target, ← pc, run]

/-- The start of a node is what the exits before it have to lead to. -/
theorem Route.entry_eq (route : p.Route a exits nodes b) :
    Segment.entry (p.entered b).pc ((p.segmentsOf nodes).zip exits) = (p.entered a).pc := by
  cases route with
  | done => rfl
  | step step _ =>
      obtain ⟨source⟩ := step
      rw [segmentsOf_cons source, entered, startOf_eq source]
      rfl

theorem Steps.entered_lt (addressed : p.Addressed) (step : p.Steps e a b) :
    (p.entered b).pc < Word.count 256 := by
  obtain ⟨_, _, _, target, _⟩ := step
  rw [entered, startOf_eq target]
  exact addressed.small _ (List.mem_of_getElem? target)

theorem Steps.grounded (wf : p.WellFormed) (step : p.Steps e a b)
    (grounded : Stack.Grounded p.dests (p.entered a).stack) :
    Stack.Grounded p.dests (p.entered b).stack := by
  obtain ⟨source, exit, run, -, -⟩ := step
  have mem := List.mem_of_getElem? source
  exact (Segment.grounded_run (wf.cut _ mem) (wf.encoded mem exit) run grounded).1

theorem Steps.hasExit (wf : p.WellFormed) {s : Segment} (step : p.Steps e a b)
    (source : a.segment?.bind (p.segments[·]?) = some s) (plain : s.Plain)
    (grounded : Stack.Grounded p.dests (p.entered a).stack) : p.HasExit s e (p.entered b).pc := by
  obtain ⟨source', exit, run, target, pc⟩ := step
  obtain rfl : _ = s := Option.some.inj (source'.symm.trans source)
  have mem := List.mem_of_getElem? source'
  rw [entered, startOf_eq target, ← pc]
  exact ⟨mem, exit, plain,
    (Segment.grounded_run (wf.cut _ mem) (wf.encoded mem exit) run grounded).2⟩

/-- A route of plain segments that starts on a grounded stack can be passed, and all its nodes have
grounded stacks. -/
theorem Route.passable (wf : p.WellFormed) (route : p.Route a exits nodes b)
    (plain : ∀ s ∈ p.segmentsOf nodes, s.Plain)
    (grounded : Stack.Grounded p.dests (p.entered a).stack) :
    p.Passable (p.entered b).pc ((p.segmentsOf nodes).zip exits) ∧
      ∀ d ∈ nodes, Stack.Grounded p.dests (p.entered d).stack := by
  induction route with
  | done => exact ⟨.nil, by simp⟩
  | step step onward ih =>
      have shape := step
      obtain ⟨source⟩ := shape
      rw [segmentsOf_cons source] at plain ⊢
      obtain ⟨first, others⟩ := List.forall_mem_cons.mp plain
      have exit := step.hasExit wf source first grounded
      obtain ⟨passable, all⟩ := ih others (step.grounded wf grounded)
      rw [← onward.entry_eq] at exit
      exact ⟨.cons exit passable, List.forall_mem_cons.mpr ⟨grounded, all⟩⟩

end Route

/-! ### Going round -/

theorem Passable.last {s : Segment} (passable : p.Passable target path)
    (last : path.getLast? = some (s, e)) : p.HasExit s e target := by
  induction passable with
  | nil => cases last
  | @cons _ _ rest exit _ ih =>
      cases rest with
      | nil =>
          cases last
          exact exit
      | cons => exact ih (by simpa using last)

/-- What a trial on the least stack shows of every stack that satisfies the condition. -/
theorem holds_of_preserves (keeps : p.preserves c exits pc = true) (start : f.pc = pc)
    (holds : c.holds f.stack = true) (run : p.run exits f = .running h) :
    c.holds h.stack = true := by
  obtain ⟨_, all⟩ := exists_run_of_preserves keeps
  obtain ⟨h', run', -, kept⟩ := all f start holds
  obtain rfl : h = h' := by simpa [run] using run'
  exact kept

/-- From every frame at `pc` that satisfies a condition, following the exits any number of times
goes through the segments each time, and ends at `pc` with the condition satisfied. -/
def Rounds (p : Program) (segments : List Segment) (exits : List Nat) (pc : Nat) (w : Condition) :
    Prop :=
  ∀ f, f.pc = pc → w.holds f.stack = true → ∀ m h,
    p.run (List.replicate m exits).flatten f = .running h →
      p.Visits (List.replicate m exits).flatten f (List.replicate m segments).flatten h ∧
        h.pc = pc ∧ w.holds h.stack = true

theorem rounds_of_round {segments : List Segment} {w : Condition}
    (round : ∀ f h, f.pc = pc → w.holds f.stack = true → p.run exits f = .running h →
      p.Visits exits f segments h ∧ h.pc = pc ∧ w.holds h.stack = true) :
    p.Rounds segments exits pc w := by
  intro f start holds m
  induction m generalizing f with
  | zero =>
      intro h run
      cases run
      exact ⟨.nil, start, holds⟩
  | succ m ih =>
      intro h run
      rw [List.replicate_succ, List.flatten_cons] at run ⊢
      rw [List.replicate_succ, List.flatten_cons]
      obtain ⟨g, first, others⟩ := run_append run
      obtain ⟨visits, back, again⟩ := round f g start holds first
      obtain ⟨onward, final⟩ := ih g back again h others
      exact ⟨visits.append onward, final⟩

/-- The condition of a loop, from the segments with their exits. -/
theorem closing_eq {nodes : List Node} {s : Segment} (i : Nat)
    (segments : p.segmentsOf nodes = path.map Prod.fst) (last : path.getLast? = some (s, e)) :
    p.closing i nodes (path.map Prod.snd) =
      Segment.wprePath (s.leadsTo (p.startOf i) e) (p.startOf i) path := by
  simp [closing, segments, List.getLast?_map, last, Segment.withExits_unzip]

/-- At the start of a route the condition of its path holds exactly if what is asked for holds at
its end. -/
theorem Route.holds_wprePath {a b : Node} {nodes : List Node} (addressed : p.Addressed)
    (route : p.Route a exits nodes b)
    (passable : p.Passable (p.entered b).pc ((p.segmentsOf nodes).zip exits))
    (small : (p.entered b).pc < Word.count 256) (valid : c.isValid = true)
    (within : c.Within p.dests) :
    (Segment.wprePath c (p.entered b).pc ((p.segmentsOf nodes).zip exits)).holds
        (p.entered a).stack = true ↔ c.holds (p.entered b).stack = true := by
  have visits := route.visits addressed.toWellFormed
  have segments := List.map_fst_zip (Nat.le_of_eq route.lengths.2)
  have exits' := List.map_snd_zip (Nat.le_of_eq route.lengths.2.symm)
  rw [passable.holds_iff_visits addressed small valid within route.entry_eq.symm
    (exits'.symm ▸ visits.run), segments, exits']
  exact ⟨fun h => h.2.2, fun holds => ⟨visits, rfl, holds⟩⟩

/-- A loop that has been found goes round. -/
theorem Closes.rounds {i : Nat} {nodes : List Node} {s : Segment} (addressed : p.Addressed)
    (closes : p.Closes i nodes (path.map Prod.snd))
    (segments : p.segmentsOf nodes = path.map Prod.fst) (last : path.getLast? = some (s, e))
    (passable : p.Passable (p.startOf i) path) (small : p.startOf i < Word.count 256)
    (entry : Segment.entry (p.startOf i) path = p.startOf i) :
    p.Rounds (path.map Prod.fst) (path.map Prod.snd) (p.startOf i)
      (Segment.wprePath (s.leadsTo (p.startOf i) e) (p.startOf i) path) := by
  obtain ⟨valid, within⟩ := (passable.last last).leadsTo_spec addressed small
  have kept := closes.2
  rw [closing_eq i segments last] at kept
  refine rounds_of_round fun f h start holds run => ?_
  obtain ⟨visits, home, -⟩ := (passable.holds_iff_visits addressed small valid within
    (start.trans entry.symm) run).mp holds
  refine ⟨visits, home, ?_⟩
  generalize Segment.wprePath (s.leadsTo (p.startOf i) e) (p.startOf i) path = w at kept holds ⊢
  cases w with
  | always => rfl
  | never => cases kept
  | tracked es => exact holds_of_preserves kept start holds run

/-- What is known of a route that comes back to its segment and closes to a loop. -/
theorem Route.of_closes {i : Nat} {stack back : List Cell} {nodes : List Node}
    (addressed : p.Addressed) (loop : p.Route (.at i stack) exits nodes (.at i back))
    (passable : p.Passable (p.startOf i) ((p.segmentsOf nodes).zip exits))
    (small : p.startOf i < Word.count 256) (closes : p.Closes i nodes exits)
    (lastExit : exits.getLast? = some e) :
    ∃ last, (p.segmentsOf nodes).getLast? = some last ∧
      (Segment.wprePath .always (p.startOf i) ((p.segmentsOf nodes).zip exits)).holds stack = true ∧
      ((Segment.wprePath (last.leadsTo (p.startOf i) e) (p.startOf i)
          ((p.segmentsOf nodes).zip exits)).holds stack = true ↔
        (last.leadsTo (p.startOf i) e).holds back = true) ∧
      p.Rounds (p.segmentsOf nodes) exits (p.startOf i)
        (Segment.wprePath (last.leadsTo (p.startOf i) e) (p.startOf i)
          ((p.segmentsOf nodes).zip exits)) := by
  have segments := List.map_fst_zip (Nat.le_of_eq loop.lengths.2)
  have exits' := List.map_snd_zip (Nat.le_of_eq loop.lengths.2.symm)
  rw [← exits', List.getLast?_map, Option.map_eq_some_iff] at lastExit
  obtain ⟨⟨last, _⟩, final, rfl⟩ := lastExit
  have lastSegment := congrArg (Option.map Prod.fst) final
  rw [← List.getLast?_map, segments] at lastSegment
  obtain ⟨valid, within⟩ := (passable.last final).leadsTo_spec addressed small
  rw [← exits'] at closes
  have rounds := closes.rounds addressed segments.symm final passable small loop.entry_eq
  rw [segments, exits'] at rounds
  exact ⟨last, lastSegment,
    (loop.holds_wprePath (c := .always) addressed passable small rfl trivial).mpr rfl,
    loop.holds_wprePath addressed passable small valid within, rounds⟩

/-- A loop that the search finds on a path goes round from every frame that satisfies its
condition. Its first node can go round once, and satisfies the condition exactly when the stack
that comes back satisfies what the last segment asks of its own stack in order to come back. -/
theorem loopStart_rounds (code : List Char) (short : code.length / 2 < Word.count 256)
    {path : Path} {e i n : Nat} {back : List Cell} (leads : (ofCode code).Leads path)
    (step : ((ofCode code).successors path.last)[e]? = some (.at i back))
    (plain : ∀ s ∈ (ofCode code).segmentsOf path.nodes, s.Plain)
    (found : (ofCode code).loopStart i path.nodes (path.exits ++ [e]) = some n) :
    ∃ j stack last,
      let start := (ofCode code).startOf i
      let segments := (ofCode code).segmentsOf (path.nodes.drop j)
      let exits := (path.exits ++ [e]).drop j
      let home := last.leadsTo start e
      let w := Segment.wprePath home start (segments.zip exits)
      path.nodes[j]? = some (.at i stack) ∧ segments.getLast? = some last ∧
        (Segment.wprePath .always start (segments.zip exits)).holds stack = true ∧
        (w.holds stack = true ↔ home.holds back = true) ∧
        (ofCode code).Rounds segments exits start w := by
  have addressed := addressed_ofCode short
  generalize ofCode code = p at *
  -- The path is a route, and so is its part from the first node of the loop on.
  obtain ⟨front, nodes, route⟩ := leads.route
  have whole := route.snoc (steps_of_successors step rfl)
  rw [← nodes] at whole
  obtain ⟨j, closes⟩ : ∃ j, p.Closes i (path.nodes.drop j) ((path.exits ++ [e]).drop j) := by
    rcases loopStart_eq_some found with closes | ⟨r, -, closes⟩
    · exact ⟨_, closes⟩
    · exact ⟨_, closes⟩
  obtain ⟨g, first, segment⟩ := closes.segment_eq
  obtain ⟨stack, rfl⟩ : ∃ stack, g = .at i stack := by
    cases g with
    | failed => cases segment
    | «at» k stack =>
        cases segment
        exact ⟨stack, rfl⟩
  have loop := whole.drop first
  -- Its stacks are grounded because the path starts on the empty one.
  have empty : Stack.Grounded p.dests (p.entered .initial).stack := fun _ _ known => nomatch known
  have grounded := (whole.passable addressed.toWellFormed plain empty).2 _
    (List.mem_of_getElem? first)
  obtain ⟨passable, -⟩ := loop.passable addressed.toWellFormed
    (fun s hs => plain s (((List.drop_sublist j _).filterMap _).subset hs)) grounded
  have inside : j < (path.exits ++ [e]).length := by
    rw [← whole.lengths.1]
    exact (List.getElem?_eq_some_iff.mp first).1
  have lastExit : ((path.exits ++ [e]).drop j).getLast? = some e := by
    rw [List.getLast?_drop, if_neg (Nat.not_le_of_lt inside), List.getLast?_concat]
  obtain ⟨last, spec⟩ := loop.of_closes addressed passable
    ((steps_of_successors step rfl).entered_lt addressed) closes lastExit
  exact ⟨j, stack, last, first, spec⟩

/-- A loop that finds its start on top of the stack, and with each round leaves a cell below it. -/
theorem loopStart_rounds_of_growing :
    let p := ofCode "60025b34908056".toList
    let path := Path.start.extend 0 (.at 1 [.known 2])
    p.Leads path ∧ (p.successors path.last)[0]? = some (.at 1 [.known 2, .blank]) ∧
      (∀ s ∈ p.segmentsOf path.nodes, s.Plain) ∧
      p.loopStart 1 path.nodes [0, 0] = some 1 ∧
      p.Rounds (p.segments.drop 1) [0] 2 (.tracked [(0, 2)]) := by
  intro p path
  have leads : p.Leads path := .extend .start (by decide +kernel) rfl
  have step : (p.successors path.last)[0]? = some (.at 1 [.known 2, .blank]) := by decide +kernel
  have plain : ∀ s ∈ p.segmentsOf path.nodes, s.Plain := by decide +kernel
  have found : p.loopStart 1 path.nodes (path.exits ++ [0]) = some 1 := by decide +kernel
  obtain ⟨j, stack, last, first, final, -, -, rounds⟩ :=
    loopStart_rounds _ (by decide +kernel) leads step plain found
  obtain rfl : j = 1 := by
    match j with
    | 0 => cases first
    | 1 => rfl
    | _ + 2 => cases first
  obtain rfl : p.segments.getD 1 default = last :=
    Option.some.inj (Eq.trans (by decide +kernel) final)
  have segments : p.segmentsOf (path.nodes.drop 1) = p.segments.drop 1 := by decide +kernel
  have start : p.startOf 1 = 2 := by decide +kernel
  have condition : Segment.wprePath ((p.segments.getD 1 default).leadsTo 2 0) 2
      ((p.segments.drop 1).zip [0]) = .tracked [(0, 2)] := by decide +kernel
  rw [segments, start] at rounds
  exact ⟨leads, step, plain, found, condition ▸ rounds⟩

/-- A loop whose start does not satisfy its condition: the two addresses on the stack change places,
and the second round would jump to the other one. -/
theorem loopStart_start_unsatisfied :
    let p := ofCode "600960045b809190565b00".toList
    let path := Path.start.extend 0 (.at 1 [.known 4, .known 9])
    p.Leads path ∧ (p.successors path.last)[0]? = some (.at 1 [.known 9, .known 4]) ∧
      p.jumpsAt path.last = true ∧ (∀ s ∈ p.segmentsOf path.nodes, s.Plain) ∧
      p.loopStart 1 path.nodes [0, 0] = some 1 ∧
      (∀ j stack, path.nodes[j]? = some (.at 1 stack) →
        (p.closing 1 (path.nodes.drop j) ([0, 0].drop j)).holds stack = false) ∧
      p.successors (.at 1 [.known 9, .known 4]) = [.at 2 [.known 4, .known 9]] := by
  intro p path
  have leads : p.Leads path := .extend .start (by decide +kernel) rfl
  refine ⟨leads, by decide +kernel, by decide +kernel, by decide +kernel, by decide +kernel, ?_,
    by decide +kernel⟩
  intro j stack first
  match j with
  | 0 => cases first
  | 1 =>
      cases first
      decide +kernel
  | _ + 2 => cases first

end Program

end EvmFlow
