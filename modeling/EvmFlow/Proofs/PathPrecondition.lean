import EvmFlow.Proofs.Layout
import EvmFlow.Proofs.Precondition

/-!
# Weakest preconditions of paths

A path of segments with their exits is followed from a stack if every exit leads to the start of
the next segment, and the last one to a target. The condition that `Segment.wprePath` computes
backwards along the path says exactly when this happens and a condition holds at the end. Each
segment contributes two things: the condition behind it, carried back through its instructions,
and the condition that its exit leads to the right address. The second tracks at most one position
(it is the target of a jump) and so the two are joined exactly.
-/

namespace EvmFlow

namespace Instruction

theorem wpreAll_append (c : Condition) (is js : List Instruction) :
    wpreAll c (is ++ js) = wpreAll (wpreAll c js) is := by
  induction is with
  | nil => rfl
  | cons i rest ih => rw [List.cons_append, wpreAll, wpreAll, ih]

end Instruction

namespace Segment

variable {s : Segment} {dests : List Nat} {e address target : Nat} {f g : Frame} {c : Condition}
variable {path rest : List (Segment × Nat)} {frames : Nat → Frame}

/-- No instruction of the segment calls or creates. -/
def Plain (s : Segment) : Prop := ∀ i ∈ s.instructions, i.op.callsOut = false

instance (s : Segment) : Decidable s.Plain :=
  inferInstanceAs (Decidable (∀ i ∈ s.instructions, i.op.callsOut = false))

/-- The exit is the jump at the end of the segment, and not the way past it. -/
def jumpsBy (s : Segment) (exit : Nat) : Bool :=
  match s.kind with
  | .jump => true
  | .jumpi => exit == 1
  | _ => false

/-- Frames along a path: each one leaves its segment by its exit for the next. -/
def Traces (dests : List Nat) (path : List (Segment × Nat)) (frames : Nat → Frame) : Prop :=
  ∀ k (step : Segment × Nat), path[k]? = some step →
    step.1.run dests step.2 (frames k) = .running (frames (k + 1))

/-- Every frame is at the start of its segment, and the last one at the target. -/
def Passes (target : Nat) (path : List (Segment × Nat)) (frames : Nat → Frame) : Prop :=
  (∀ k (step : Segment × Nat), path[k]? = some step → (frames k).pc = step.1.start) ∧
    (frames path.length).pc = target

theorem run_eq_running (run : s.run dests e f = .running g) :
    ∃ h, Instruction.runAll dests s.body f = .running h ∧ s.last.step dests e h = .running g := by
  rw [Segment.run] at run
  cases body : Instruction.runAll dests s.body f with
  | failed =>
      rw [body] at run
      cases run
  | running h =>
      rw [body] at run
      exact ⟨h, rfl, run⟩

theorem wpre_eq (s : Segment) (c : Condition) :
    s.wpre c = Instruction.wpreAll (s.last.wpre c) s.body :=
  Instruction.wpreAll_append c s.body [s.last]

/-- A condition holds on leaving a segment, by whatever exit, exactly when its precondition holds on
entry. -/
theorem holds_run (encoded : ∀ i ∈ s.instructions, i.IsEncoded) (plain : s.Plain)
    (run : s.run dests e f = .running g) (valid : c.isValid = true) (within : c.Within dests) :
    c.holds g.stack = true ↔ (s.wpre c).holds f.stack = true := by
  obtain ⟨h, body, last⟩ := run_eq_running run
  obtain ⟨encoded, lastEncoded⟩ := List.forall_mem_append.mp encoded
  obtain ⟨plain, lastPlain⟩ := List.forall_mem_append.mp plain
  have before := Instruction.narrows_wpre (lastEncoded _ (List.mem_singleton_self _)) valid
  rw [wpre_eq, ← Instruction.holds_runAll encoded plain body before.isValid
    (before.within dests within)]
  exact Instruction.holds_step (lastEncoded _ (List.mem_singleton_self _))
    (lastPlain _ (List.mem_singleton_self _)) last valid within

/-- An exit that is no jump leads to the byte behind the segment or nowhere. -/
theorem leadsTo_eq (exit : e < s.exits) (small : address < Word.count 256) :
    s.leadsTo address e =
      if s.jumpsBy e = true then Instruction.wpreAll (.tracked [(0, address)]) s.body
      else if address = s.next then .always else .never := by
  rw [leadsTo, if_neg (Nat.not_le_of_lt small)]
  cases kind : s.kind with
  | jump =>
      obtain rfl : e = 0 := by simpa [exits, kind] using exit
      simp [jumpsBy, kind]
  | jumpi => simp [jumpsBy, kind]
  | cont =>
      obtain rfl : e = 0 := by simpa [exits, kind] using exit
      simp [jumpsBy, kind]
  | _ => simp [exits, kind] at exit

/-- The condition for an exit tracks the target of a jump at most. -/
theorem narrows_leadsTo (encoded : ∀ i ∈ s.instructions, i.IsEncoded) (exit : e < s.exits)
    (small : address < Word.count 256) :
    (s.leadsTo address e).Narrows (.tracked [(0, address)]) := by
  rw [leadsTo_eq exit small]
  split
  · exact Instruction.narrows_wpreAll (List.forall_mem_append.mp encoded).1
      (by simp [Condition.isValid])
  · split
    · exact .always _
    · exact .never _

theorem within_leadsTo (encoded : ∀ i ∈ s.instructions, i.IsEncoded) (exit : e < s.exits)
    (small : address < Word.count 256) (lands : s.jumpsBy e = true → address ∈ dests) :
    (s.leadsTo address e).Within dests := by
  by_cases jump : s.jumpsBy e = true
  · exact (narrows_leadsTo encoded exit small).within dests
      (by simpa [Condition.Within] using lands jump)
  · rw [leadsTo_eq exit small, if_neg jump]
    split <;> trivial

/-! ### Where an exit leads -/

theorem jumpsBy_iff (cut : s.IsCut) :
    s.jumpsBy e = true ↔ s.last.op.code = 0x56 ∨ s.last.op.code = 0x57 ∧ e = 1 := by
  rw [jumpsBy, cut.kind_eq, SegmentKind.ofLast]
  split_ifs <;> simp_all

/-- A segment that is not left by a jump is left for the byte behind it. -/
theorem pc_run_of_pass (cut : s.IsCut) (encoded : ∀ i ∈ s.instructions, i.IsEncoded)
    (laid : Instruction.LaidOut s.start s.instructions) (exit : e < s.exits)
    (pass : ¬ s.jumpsBy e = true) (run : s.run dests e f = .running g) (entry : f.pc = s.start) :
    g.pc = s.next := by
  obtain ⟨h, body, last⟩ := run_eq_running run
  obtain ⟨encoded, lastEncoded⟩ := List.forall_mem_append.mp encoded
  have straight : ∀ i ∈ s.body, i.isJump = false := by
    intro i hi
    have straight := cut.straight i hi
    simp only [Instruction.isTerminal, Opcode.isTerminal, List.contains_eq_mem, List.mem_cons,
      decide_eq_false_iff_not, not_or] at straight
    simp [Instruction.isJump, Opcode.isJump, straight]
  have ahead : s.last.isJump = false ∨ s.last.op.code = 0x57 ∧ e = 0 := by
    rw [jumpsBy_iff cut, not_or, not_and] at pass
    by_cases branch : s.last.op.code = 0x57
    · have two : s.exits = 2 := by simp [exits, cut.kind_eq, SegmentKind.ofLast, branch]
      have other := pass.2 branch
      exact .inr ⟨branch, by omega⟩
    · exact .inl (by simp [Instruction.isJump, Opcode.isJump, pass.1, branch])
  rw [Instruction.pc_step (lastEncoded _ (List.mem_singleton_self _)) ahead last,
    Instruction.pc_runAll encoded straight body, entry, next_eq laid, instructions,
    Instruction.bytes_append, Nat.add_assoc]
  rfl

/-- A segment that is left by a jump is left for the address on top of the stack. -/
theorem top_of_jump (cut : s.IsCut) (encoded : ∀ i ∈ s.instructions, i.IsEncoded)
    (jump : s.jumpsBy e = true) {h : Frame} (last : s.last.step dests e h = .running g) :
    h.stack[0]? = some (.known g.pc) := by
  have code := (jumpsBy_iff cut).mp jump
  have kind := (encoded s.last (by simp [instructions])).kind_of_isJump (code.imp_right And.left)
  cases Instruction.runs_of_step last with
  | jump _ _ top => simp [top, Frame.goto]
  | branch _ _ top => simp [top, Frame.goto]
  | _ => simp_all

/-- The condition for an exit holds exactly when the exit leads to the address. -/
theorem holds_leadsTo (cut : s.IsCut) (encoded : ∀ i ∈ s.instructions, i.IsEncoded)
    (plain : s.Plain) (laid : Instruction.LaidOut s.start s.instructions) (exit : e < s.exits)
    (small : address < Word.count 256) (lands : s.jumpsBy e = true → address ∈ dests)
    (run : s.run dests e f = .running g) (entry : f.pc = s.start) :
    (s.leadsTo address e).holds f.stack = true ↔ g.pc = address := by
  rw [leadsTo_eq exit small]
  by_cases jump : s.jumpsBy e = true
  · obtain ⟨h, body, last⟩ := run_eq_running run
    have within : (Condition.tracked [(0, address)]).Within dests := by
      simpa [Condition.Within] using lands jump
    rw [if_pos jump, ← Instruction.holds_runAll (List.forall_mem_append.mp encoded).1
      (List.forall_mem_append.mp plain).1 body (by simp [Condition.isValid]) within,
      Condition.holds_tracked, List.forall_mem_singleton, top_of_jump cut encoded jump last,
      Option.some.injEq, Cell.known.injEq]
  · rw [if_neg jump, pc_run_of_pass cut encoded laid exit jump run entry]
    by_cases there : address = s.next
    · simp [there]
    · simp [there, Ne.symm there]

/-! ### Frames along a path -/

theorem traces_cons :
    Traces dests ((s, e) :: rest) frames ↔
      s.run dests e (frames 0) = .running (frames 1) ∧
        Traces dests rest fun k => frames (k + 1) := by
  constructor
  · exact fun traces => ⟨traces 0 _ rfl, fun k step found => traces (k + 1) step found⟩
  · rintro ⟨first, others⟩ k step found
    cases k with
    | zero =>
        cases found
        exact first
    | succ k => exact others k step found

instance decidableTraces (dests : List Nat) :
    ∀ path frames, Decidable (Traces dests path frames)
  | [], _ => .isTrue fun _ _ found => nomatch found
  | (_, _) :: rest, frames =>
    have := decidableTraces dests rest fun k => frames (k + 1)
    decidable_of_iff' _ traces_cons

theorem passes_cons :
    Passes target ((s, e) :: rest) frames ↔
      (frames 0).pc = s.start ∧ Passes target rest fun k => frames (k + 1) := by
  constructor
  · rintro ⟨starts, final⟩
    exact ⟨starts 0 _ rfl, fun k step found => starts (k + 1) step found, final⟩
  · rintro ⟨first, starts, final⟩
    refine ⟨fun k step found => ?_, final⟩
    cases k with
    | zero =>
        cases found
        exact first
    | succ k => exact starts k step found

theorem Passes.entry (passes : Passes target path frames) :
    (frames 0).pc = Segment.entry target path := by
  cases path with
  | nil => exact passes.2
  | cons step rest => exact passes.1 0 step rfl

theorem withExits_unzip (path : List (Segment × Nat)) :
    withExits (path.map Prod.fst) (path.map Prod.snd) = path := by
  rw [withExits, List.length_map, List.length_map, Nat.sub_self, List.drop_zero, ← List.unzip_fst,
    ← List.unzip_snd, List.zip_unzip]

end Segment

namespace Program

variable {p : Program} {s : Segment} {e address target : Nat} {f g : Frame} {c : Condition}
variable {path : List (Segment × Nat)} {frames : Nat → Frame}

/-- A segment and an exit that may lead to an address. -/
structure HasExit (p : Program) (s : Segment) (e address : Nat) : Prop where
  mem : s ∈ p.segments
  exit : e < s.exits
  plain : s.Plain
  lands : s.jumpsBy e = true → address ∈ p.dests

/-- A path of which every exit may lead to the next segment, and the last one to the target. -/
inductive Passable (p : Program) (target : Nat) : List (Segment × Nat) → Prop where
  | nil : Passable p target []
  | cons {s e rest} (exit : p.HasExit s e (Segment.entry target rest))
      (onward : Passable p target rest) : Passable p target ((s, e) :: rest)

instance (p : Program) (s : Segment) (e address : Nat) : Decidable (p.HasExit s e address) :=
  decidable_of_iff
    (s ∈ p.segments ∧ e < s.exits ∧ s.Plain ∧ (s.jumpsBy e = true → address ∈ p.dests))
    ⟨fun ⟨mem, exit, plain, lands⟩ => ⟨mem, exit, plain, lands⟩,
      fun h => ⟨h.mem, h.exit, h.plain, h.lands⟩⟩

theorem passable_cons {rest : List (Segment × Nat)} :
    p.Passable target ((s, e) :: rest) ↔
      p.HasExit s e (Segment.entry target rest) ∧ p.Passable target rest :=
  ⟨fun | .cons exit onward => ⟨exit, onward⟩, fun h => .cons h.1 h.2⟩

instance decidablePassable (p : Program) (target : Nat) :
    ∀ path, Decidable (p.Passable target path)
  | [] => .isTrue .nil
  | (_, _) :: rest =>
    have := decidablePassable p target rest
    decidable_of_iff' _ passable_cons

/-- A program whose addresses are words. -/
structure Addressed (p : Program) : Prop extends p.WellFormed where
  small : ∀ s ∈ p.segments, s.start < Word.count 256

theorem addressed_ofCode {code : List Char} (short : code.length / 2 < Word.count 256) :
    (ofCode code).Addressed := by
  refine ⟨wellFormed_ofCode code, fun s hs => ?_⟩
  have := start_lt_ofCode hs
  omega

theorem Passable.entry_lt (passable : p.Passable target path) (addressed : p.Addressed)
    (small : target < Word.count 256) : Segment.entry target path < Word.count 256 := by
  cases passable with
  | nil => exact small
  | cons exit => exact addressed.small _ exit.mem

/-- The condition that one segment of a path contributes holds on entry exactly when the exit leads
to the address and what is asked for behind it holds there. -/
theorem HasExit.holds_iff (exit : p.HasExit s e address) (addressed : p.Addressed)
    (small : address < Word.count 256) (valid : c.isValid = true) (within : c.Within p.dests)
    (run : s.run p.dests e f = .running g) (entry : f.pc = s.start) :
    ((s.wpre c).meet (s.leadsTo address e)).holds f.stack = true ↔
      g.pc = address ∧ c.holds g.stack = true := by
  have encoded := addressed.encoded exit.mem exit.exit
  rw [Condition.holds_meet (Segment.narrows_leadsTo encoded exit.exit small).size_le,
    ← Segment.holds_run encoded exit.plain run valid within,
    Segment.holds_leadsTo (addressed.cut s exit.mem) encoded exit.plain
      (addressed.laid s exit.mem) exit.exit small exit.lands run entry, and_comm]

theorem HasExit.leadsTo_spec (exit : p.HasExit s e address) (addressed : p.Addressed)
    (small : address < Word.count 256) :
    (s.leadsTo address e).isValid = true ∧ (s.leadsTo address e).Within p.dests := by
  have encoded := addressed.encoded exit.mem exit.exit
  exact ⟨(Segment.narrows_leadsTo encoded exit.exit small).isValid,
    Segment.within_leadsTo encoded exit.exit small exit.lands⟩

theorem Passable.wprePath_spec (passable : p.Passable target path) (addressed : p.Addressed)
    (small : target < Word.count 256) (valid : c.isValid = true) (within : c.Within p.dests) :
    (Segment.wprePath c target path).isValid = true ∧
      (Segment.wprePath c target path).Within p.dests := by
  induction passable with
  | nil => exact ⟨valid, within⟩
  | @cons s e rest exit passable ih =>
      have before := Instruction.narrows_wpreAll (addressed.encoded exit.mem exit.exit) ih.1
      obtain ⟨valid', within'⟩ := exit.leadsTo_spec addressed (passable.entry_lt addressed small)
      exact ⟨Condition.isValid_meet before.isValid valid',
        Condition.within_meet (before.within _ ih.2) within'⟩

/-- The condition of a path holds on entry exactly when the path is followed to the target and the
condition asked for holds there. -/
theorem Passable.holds_wprePath (passable : p.Passable target path) (addressed : p.Addressed)
    (small : target < Word.count 256) (valid : c.isValid = true) (within : c.Within p.dests)
    (start : (frames 0).pc = Segment.entry target path)
    (traces : Segment.Traces p.dests path frames) :
    (Segment.wprePath c target path).holds (frames 0).stack = true ↔
      Segment.Passes target path frames ∧ c.holds (frames path.length).stack = true := by
  induction passable generalizing frames with
  | nil => simp [Segment.wprePath, Segment.Passes, start, Segment.entry]
  | @cons s e rest exit passable ih =>
      obtain ⟨first, others⟩ := Segment.traces_cons.mp traces
      obtain ⟨valid', within'⟩ := passable.wprePath_spec addressed small valid within
      rw [Segment.wprePath, exit.holds_iff addressed (passable.entry_lt addressed small) valid'
        within' first start, Segment.passes_cons, List.length_cons]
      constructor
      · rintro ⟨next, holds⟩
        obtain ⟨passes, final⟩ := (ih next others).mp holds
        exact ⟨⟨start, passes⟩, final⟩
      · rintro ⟨⟨-, passes⟩, final⟩
        exact ⟨passes.entry, (ih passes.entry others).mpr ⟨passes, final⟩⟩

/-- Segments given by their numbers. -/
theorem mapM_segment {numbers : List Nat} {segments : List Segment}
    (named : numbers.map (p.segments[·]?) = segments.map some) :
    numbers.mapM p.segment = .ok segments := by
  induction numbers generalizing segments with
  | nil => cases segments <;> first | rfl | cases named
  | cons n rest ih =>
      cases segments with
      | nil => cases named
      | cons s others =>
          obtain ⟨first, named⟩ := List.cons.inj named
          simp [List.mapM_cons, segment, elementAt, first, ih named, bind, Except.bind, pure,
            Except.pure]

/-- The precondition of a path, in a program of addresses that are words, is exact: of all entry
stacks from which the exits of the path can be taken, it holds of those from which they lead through
the segments of the path to the target, where `c` holds. -/
theorem wprePath_exact (code : List Char) (short : code.length / 2 < Word.count 256)
    {numbers : List Nat} {path : List (Segment × Nat)}
    (named : numbers.map ((ofCode code).segments[·]?) = (path.map Prod.fst).map some)
    {c : Condition} (valid : c.isValid = true) (within : c.Within (ofCode code).dests)
    {target : Nat} (small : target < Word.count 256) (passable : (ofCode code).Passable target path)
    {frames : Nat → Frame} (start : (frames 0).pc = Segment.entry target path)
    (traces : Segment.Traces (ofCode code).dests path frames) :
    (ofCode code).wprePath? numbers (path.map Prod.snd) c target =
        .ok (Segment.wprePath c target path) ∧
      ((Segment.wprePath c target path).holds (frames 0).stack = true ↔
        Segment.Passes target path frames ∧ c.holds (frames path.length).stack = true) ∧
      ∀ s e, path = [(s, e)] →
        ((s.leadsTo target e).holds (frames 0).stack = true ↔ (frames 1).pc = target) := by
  have addressed := addressed_ofCode short
  refine ⟨?_, passable.holds_wprePath addressed small valid within start traces, ?_⟩
  · have length : numbers.length = path.length := by simpa using congrArg List.length named
    simp [wprePath?, mapM_segment named, Segment.withExits_unzip, length, bind, Except.bind, pure,
      Except.pure]
  · rintro s e rfl
    cases passable with
    | cons exit _ =>
        have encoded := addressed.encoded exit.mem exit.exit
        exact Segment.holds_leadsTo (addressed.cut s exit.mem) encoded exit.plain
          (addressed.laid s exit.mem) exit.exit small exit.lands
          (Segment.traces_cons.mp traces).1 start

/-- Two segments that read their targets off the stack: a jump to the second position and a branch
to what is then on top. -/
theorem wprePath_exact_of_targets :
    let p := ofCode "5b90565b348157".toList
    let path := p.segments.zip [0, 1]
    let c : Condition := .tracked [(0, 0)]
    let frames : Nat → Frame :=
      ([⟨0, [.known 0, .known 3]⟩, ⟨3, [.known 0]⟩].getD · ⟨0, [.known 0]⟩)
    p.Passable 0 path ∧ Segment.Traces p.dests path frames ∧
      p.wprePath? [0, 1] [0, 1] c 0 = .ok (.tracked [(0, 0), (1, 3)]) ∧
      Segment.Passes 0 path frames := by
  intro p path c frames
  have named : [0, 1].map (p.segments[·]?) = (path.map Prod.fst).map some := by decide +kernel
  have valid : c.isValid = true := by decide
  have within : c.Within p.dests := by
    have dest : 0 ∈ p.dests := by decide +kernel
    simpa [c, Condition.Within] using dest
  have passable : p.Passable 0 path := by decide +kernel
  have start : (frames 0).pc = Segment.entry 0 path := by decide +kernel
  have traces : Segment.Traces p.dests path frames := by decide +kernel
  have holds : (Segment.wprePath c 0 path).holds (frames 0).stack = true := by decide +kernel
  obtain ⟨-, followed, -⟩ := wprePath_exact _ (by decide +kernel) named valid within
    (by decide +kernel) passable start traces
  exact ⟨passable, traces, by decide +kernel, (followed.mp holds).1⟩

end Program

end EvmFlow
