import EvmFlow.Proofs.LoopInvariant

/-!
# Nodes that a program can reach

The known cells of a reachable stack are jump destinations: execution starts on the empty stack,
and a constant is kept only if it is a destination. So a jump leads to a segment that starts with
`JUMPDEST`, never to an address where no segment starts. An exit that is no jump leads to the byte
behind the segment, where the next segment starts if there is one.
-/

namespace EvmFlow

/-! ### Messages -/

namespace Instruction

variable {i : Instruction} {dests : List Nat} {exit : Nat} {f : Frame} {m : String}

/-- What an instruction may say when it cannot run. -/
def complaints : List String :=
  ["Stack underflow", "EnvOp error", "MemOp error", "Storage Op error", "Stack Op error",
    "LogOp error", "SysOp error", "Cannot execute JUMP/exit false or stack underflow",
    "Jump to Random() unknown PC error", "JumpI to Random() error",
    "Cannot execute JUMPI/strack underflow", "RJUMPs not implemented"]

theorem shortage_mem (kind : Kind) : shortage kind ∈ complaints := by
  cases kind <;> simp [shortage, complaints]

theorem complaint_of_exchange {pops pushes : Nat} {message : String} (known : message ∈ complaints)
    (run : f.exchange pops pushes message = .failed m) : m ∈ complaints := by
  rw [Frame.exchange] at run
  split at run
  · cases run
  · cases run
    exact known

theorem complaint_of_stepJump (run : i.stepJump exit f = .failed m) : m ∈ complaints := by
  rw [stepJump] at run
  split at run
  · cases run
  split at run
  · split at run <;> cases run <;> simp [complaints]
  split at run
  · split at run <;> cases run <;> simp [complaints]
  · cases run
    simp [complaints]

theorem complaint_of_stepStack (run : i.stepStack dests f = .failed m) : m ∈ complaints := by
  simp only [stepStack] at run
  split_ifs at run
  cases run
  exact shortage_mem .stack

theorem complaint_of_step (run : i.step dests exit f = .failed m) : m ∈ complaints := by
  rw [step] at run
  split at run
  · exact complaint_of_stepJump run
  · exact complaint_of_stepStack run
  · split at run
    · cases run
      exact shortage_mem .system
    · exact complaint_of_exchange (shortage_mem .system) run
  · exact complaint_of_exchange (shortage_mem _) run

theorem complaint_of_runAll {is : List Instruction} (run : runAll dests is f = .failed m) :
    m ∈ complaints := by
  induction is generalizing f with
  | nil => cases run
  | cons i rest ih =>
      rw [runAll] at run
      cases step : i.step dests 0 f with
      | running g =>
          rw [step] at run
          exact ih run
      | failed n =>
          rw [step] at run
          cases run
          exact complaint_of_step step

end Instruction

theorem Segment.complaint_of_run {s : Segment} {dests : List Nat} {e : Nat} {f : Frame} {m : String}
    (run : s.run dests e f = .failed m) : m ∈ Instruction.complaints := by
  rw [Segment.run] at run
  cases body : Instruction.runAll dests s.body f with
  | running g =>
      rw [body] at run
      exact Instruction.complaint_of_step run
  | failed n =>
      rw [body] at run
      cases run
      exact Instruction.complaint_of_runAll body

namespace Program

/-- What is said of an address where no segment starts. -/
def notDefined (pc : Nat) : String := "NextG:  " ++ Decimal.text pc ++ " not defined"

theorem notDefined_not_mem (pc : Nat) : notDefined pc ∉ Instruction.complaints := by
  have first : ∀ m ∈ Instruction.complaints, m.toList.head? ≠ some 'N' := by decide
  intro mem
  apply first _ mem
  simp [notDefined]

/-! ### Where exits lead -/

variable {p : Program} {s t : Segment} {f : Frame} {stack : List Cell} {g h : Node} {i e : Nat}

/-- Behind a segment starts the next one, and behind the last segment none. -/
theorem segmentAt?_next (wf : p.WellFormed)
    (chain : p.segments.IsChain fun s t => t.start = s.next) (found : p.segments[i]? = some s) :
    p.segmentAt? s.next = if i + 1 < p.segments.length then some (i + 1) else none := by
  obtain ⟨inside, rfl⟩ := List.getElem?_eq_some_iff.mp found
  split
  · rename_i another
    rw [← chain.getElem i another]
    exact wf.segmentAt?_start (List.getElem?_eq_getElem another)
  · -- All segments start before the end of the last one.
    rename_i final
    apply List.findIdx?_eq_none_iff.mpr
    intro t mem
    obtain ⟨k, hk⟩ := List.getElem?_of_mem mem
    have size := p.segments[i].bytes_pos
    have next := Segment.next_eq (wf.laid _ (List.getElem_mem inside))
    have before : k ≤ i := by
      have := (List.getElem?_eq_some_iff.mp hk).1
      omega
    have start : t.start ≤ p.segments[i].start := by
      rcases Nat.lt_or_eq_of_le before with lower | rfl
      · exact Nat.le_of_lt (wf.start_lt hk found lower)
      · exact Nat.le_of_eq (congrArg Segment.start (Option.some.inj (hk.symm.trans found)))
    simp only [beq_eq_false_iff_ne]
    omega

/-- What is behind an exit of segment `i`: a jump leads to a segment that starts with `JUMPDEST`, any
other exit to the next segment, or off the end of the program. -/
inductive Behind (p : Program) (i : Nat) (s : Segment) (e : Nat) (stack : List Cell) : Node → Prop
  | stuck {m : String} (run : s.run p.dests e ⟨s.start, stack⟩ = .failed m)
      (known : m ∈ Instruction.complaints) : Behind p i s e stack (.failed m)
  | jump {f : Frame} {j : Nat} {t : Segment} (run : s.run p.dests e ⟨s.start, stack⟩ = .running f)
      (jump : s.jumpsBy e = true) (target : p.segments[j]? = some t)
      (first : t.first.isJumpDest = true) : Behind p i s e stack (.at j f.stack)
  | pass {f : Frame} (run : s.run p.dests e ⟨s.start, stack⟩ = .running f)
      (pass : s.jumpsBy e = false) (another : i + 1 < p.segments.length) :
      Behind p i s e stack (.at (i + 1) f.stack)
  | off {f : Frame} (run : s.run p.dests e ⟨s.start, stack⟩ = .running f)
      (pass : s.jumpsBy e = false) (final : i + 1 = p.segments.length) :
      Behind p i s e stack (.failed (notDefined f.pc))

theorem behind_of_run (wf : p.WellFormed)
    (chain : p.segments.IsChain fun s t => t.start = s.next) (found : p.segments[i]? = some s)
    (exit : e < s.exits) (grounded : Stack.Grounded p.dests stack)
    (run : s.run p.dests e ⟨s.start, stack⟩ = .running f) :
    p.Behind i s e stack (p.locate (.running f)) := by
  have mem := List.mem_of_getElem? found
  have encoded := wf.encoded mem exit
  rw [locate]
  cases jump : s.jumpsBy e with
  | true =>
      have dest := (Segment.grounded_run (wf.cut s mem) encoded run grounded).2 jump
      obtain ⟨j, t, target, first, place⟩ := segmentAt?_of_mem_dests wf dest
      rw [place]
      exact .jump run jump target first
  | false =>
      have pc : f.pc = s.next := Segment.pc_run_of_pass (wf.cut s mem) encoded (wf.laid s mem)
        exit (Bool.eq_false_iff.mp jump) run rfl
      have place := segmentAt?_next wf chain found
      rw [← pc] at place
      by_cases another : i + 1 < p.segments.length
      · rw [place, if_pos another]
        exact .pass run jump another
      · have inside := (List.getElem?_eq_some_iff.mp found).1
        rw [place, if_neg another]
        exact .off run jump (by omega)

theorem behind_of_successors (wf : p.WellFormed)
    (chain : p.segments.IsChain fun s t => t.start = s.next) (found : p.segments[i]? = some s)
    (grounded : Stack.Grounded p.dests stack)
    (step : (p.successors (.at i stack))[e]? = some h) : p.Behind i s e stack h := by
  obtain ⟨s', source, exit, rfl⟩ := exit_of_successors step
  obtain rfl : s = s' := Option.some.inj (found.symm.trans source)
  cases run : s.run p.dests e ⟨s.start, stack⟩ with
  | failed => exact .stuck run (Segment.complaint_of_run run)
  | running => exact behind_of_run wf chain found exit grounded run

/-! ### Reachable nodes -/

theorem Reachable.grounded (wf : p.WellFormed) (reach : p.Reachable g) :
    Stack.Grounded p.dests (p.entered g).stack := by
  have empty : Stack.Grounded p.dests [] := fun pos v known => nomatch known
  induction reach with
  | refl => exact empty
  | @tail g h _ exit ih =>
      cases h with
      | failed => exact empty
      | «at» j stack =>
          obtain ⟨e, step⟩ := List.getElem?_of_mem exit
          exact (steps_of_successors step rfl).grounded wf ih

/-- A reachable node that has not failed belongs to a segment, if the program has any. -/
theorem Reachable.bounded (nonempty : 0 < p.segments.length) (reach : p.Reachable g) :
    g.bounded p.segments.length = true := by
  induction reach with
  | refl => simpa [Node.initial, Node.bounded] using nonempty
  | @tail g h _ exit _ =>
      cases h with
      | failed => rfl
      | «at» j stack =>
          obtain ⟨e, step⟩ := List.getElem?_of_mem exit
          obtain ⟨_, _, _, target, _⟩ := steps_of_successors step rfl
          simpa [Node.bounded] using (List.getElem?_eq_some_iff.mp target).1

/-- On a stack that a program can reach, every known cell is the address of a `JUMPDEST`. The exits
that jump lead to segments that start with `JUMPDEST`, the others to the next segment, and exactly
those that run off the last segment say that there is none. -/
theorem exits_of_reachable (code : List Char) {i : Nat} {stack : List Cell}
    (reach : (ofCode code).Reachable (.at i stack)) :
    (∀ v, .known v ∈ stack → ∃ d ∈ disassemble code 0, d.isJumpDest = true ∧ d.address = v) ∧
      ∀ s, (ofCode code).segments[i]? = some s →
        ((ofCode code).successors (.at i stack)).length = s.exits ∧
        ∀ e h, ((ofCode code).successors (.at i stack))[e]? = some h →
          (s.jumpsBy e = true → ∀ j stack', h = .at j stack' →
            ∃ t, (ofCode code).segments[j]? = some t ∧ t.first.isJumpDest = true) ∧
          (s.jumpsBy e = false → ∀ j stack', h = .at j stack' → j = i + 1) ∧
          ((∃ pc, h = .failed ("NextG:  " ++ Decimal.text pc ++ " not defined")) ↔
            s.jumpsBy e = false ∧ i + 1 = (ofCode code).segments.length ∧
              ∃ f, s.run (ofCode code).dests e ⟨s.start, stack⟩ = .running f) := by
  have wf := wellFormed_ofCode code
  have grounded : Stack.Grounded (ofCode code).dests stack := reach.grounded wf
  constructor
  · intro v known
    obtain ⟨pos, known⟩ := List.getElem?_of_mem known
    obtain ⟨s, mem, first, rfl⟩ := mem_dests.mp (grounded pos v known)
    refine ⟨s.first, ?_, first, rfl⟩
    rw [← instructions_ofCode]
    exact List.mem_flatMap_of_mem mem s.first_mem
  intro s source
  constructor
  · simp [successors, source]
  intro e h step
  cases behind_of_successors wf (isChain_next_ofCode code) source grounded step with
  | stuck run known =>
      refine ⟨by simp, by simp, ?_, ?_⟩
      · -- No instruction uses the words that are said off the end.
        rintro ⟨pc, same⟩
        cases same
        exact absurd known (notDefined_not_mem pc)
      · rintro ⟨-, -, f, runs⟩
        rw [run] at runs
        cases runs
  | jump run jump target first =>
      refine ⟨?_, by simp [jump], by simp [jump]⟩
      rintro - j stack' same
      cases same
      exact ⟨_, target, first⟩
  | pass run pass another =>
      refine ⟨by simp [pass], ?_, by simp, fun off => by omega⟩
      rintro - j stack' same
      cases same
      rfl
  | off run pass final =>
      exact ⟨by simp, by simp, fun _ => ⟨pass, final, _, run⟩, fun _ => ⟨_, rfl⟩⟩

/-- The first segment jumps to address 7 and leaves 7 on the stack, where the second one jumps. -/
theorem exits_of_reachable_of_return :
    (ofCode "600760073490575b56".toList).Reachable (.at 1 [.known 7]) ∧
      (∃ d ∈ disassemble "600760073490575b56".toList 0, d.isJumpDest = true ∧ d.address = 7) ∧
      (ofCode "600760073490575b56".toList).successors (.at 1 [.known 7]) = [.at 1 []] ∧
      ∃ t, (ofCode "600760073490575b56".toList).segments[1]? = some t ∧
        t.first.isJumpDest = true := by
  have reach : (ofCode "600760073490575b56".toList).Reachable (.at 1 [.known 7]) :=
    .tail .refl (by decide +kernel)
  have step : (ofCode "600760073490575b56".toList).successors (.at 1 [.known 7]) = [.at 1 []] := by
    decide +kernel
  obtain ⟨s, source, jump⟩ : ∃ s, (ofCode "600760073490575b56".toList).segments[1]? = some s ∧
      s.jumpsBy 0 = true :=
    (Option.any_eq_true (Segment.jumpsBy · 0) _).mp (by decide +kernel)
  obtain ⟨addresses, exits⟩ := exits_of_reachable _ reach
  obtain ⟨-, exit⟩ := exits s source
  refine ⟨reach, addresses 7 (by decide), step, ?_⟩
  exact (exit 0 (.at 1 []) (by rw [step]; rfl)).1 jump 1 [] rfl

end Program

end EvmFlow
