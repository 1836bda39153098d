import EvmFlow.Proofs.Condition

/-!
# One stack for many

`Program.preserves` runs a program on one stack, the least that satisfies a condition, and means
all stacks that satisfy it. What carries the answer over is that execution is monotone: where it
succeeds it succeeds on every stack that knows more, arrives at the same address, and the outcome
knows more again. `execution_monotone` states this for instructions, lists of them, segments and
whole programs.

Every stack that satisfies a condition refines the least one, so the trial decides for all of them,
and the least stack is one of them. Hence `preserves_iff_every_stack` is an equivalence.
-/

namespace EvmFlow

theorem Condition.refines_frame {c : Condition} {f : Frame} (holds : c.holds f.stack = true) :
    f.Refines (c.frame f.pc) :=
  ⟨rfl, refines_stack holds⟩

namespace Program

variable {p : Program} {c : Condition} {exits : List Nat} {pc : Nat}

/-- Where an execution succeeds it succeeds on every frame that refines the first, ends at the same
address, and on a stack that refines the other. This holds of an instruction, of a list of
instructions, of a segment and of a program, along any exits. -/
theorem execution_monotone {f g : Frame} (finer : g.Refines f) :
    (∀ (i : Instruction) dests exit, (i.step dests exit g).Refines (i.step dests exit f)) ∧
      (∀ is dests,
        (Instruction.runAll dests is g).Refines (Instruction.runAll dests is f)) ∧
      (∀ (s : Segment) dests exit, (s.run dests exit g).Refines (s.run dests exit f)) ∧
      ∀ (p : Program) exits, (p.run exits g).Refines (p.run exits f) := by
  refine ⟨?_, ?_, ?_, ?_⟩
  · intro i dests exit
    exact i.refines_step dests exit finer
  · intro is dests
    exact Instruction.refines_runAll is dests finer
  · intro s dests exit
    exact s.refines_run dests exit finer
  · intro p exits
    exact p.refines_run exits finer

/-- The finer stack knows the cell below the top, which the loop moves down a place each round. -/
theorem execution_monotone_of_growing :
    let p := ofCode "60025b34908056".toList
    let f : Frame := ⟨2, [.known 2, .unknown "below"]⟩
    let g : Frame := ⟨2, [.known 2, .known 2, .known 9]⟩
    g.Refines f ∧ p.run [0, 0] f = .running ⟨2, [.known 2, .blank, .blank, .unknown "below"]⟩ ∧
      ∃ k, p.run [0, 0] g = .running k ∧
        k.Refines ⟨2, [.known 2, .blank, .blank, .unknown "below"]⟩ := by
  intro p f g
  have finer : g.Refines f := by
    refine ⟨rfl, .cons (.cons ⟨by simp, by simp⟩ ?_) fun _ known => known⟩
    intro v known
    cases known
  have run : p.run [0, 0] f =
      .running ⟨2, [.known 2, .blank, .blank, .unknown "below"]⟩ := by decide +kernel
  exact ⟨finer, run, (execution_monotone finer).2.2.2 p [0, 0] _ run⟩

theorem preserves_eq_true : p.preserves c exits pc = true ↔
    ∃ h, p.run exits (c.frame pc) = .running h ∧ c.holds h.stack = true := by
  rw [preserves]
  cases p.run exits (c.frame pc) with
  | running f => simp
  | failed => simp

/-- A trial that succeeds on the least stack succeeds on every stack that satisfies the condition,
and always ends at one address. -/
theorem exists_run_of_preserves (keeps : p.preserves c exits pc = true) :
    ∃ target, ∀ f : Frame, f.pc = pc → c.holds f.stack = true →
      ∃ h, p.run exits f = .running h ∧ h.pc = target ∧ c.holds h.stack = true := by
  obtain ⟨k, trial, kept⟩ := preserves_eq_true.mp keeps
  refine ⟨k.pc, ?_⟩
  rintro f rfl holds
  obtain ⟨h, run, finer⟩ := p.refines_run exits (Condition.refines_frame holds) k trial
  exact ⟨h, run, finer.pc, Condition.holds_of_refines finer.stack kept⟩

/-- One trial on the least stack says exactly whether every frame at an address that satisfies a
condition can follow the exits, all of them end at one address, and the condition holds there. -/
theorem preserves_iff_every_stack (p : Program) {es : List (Nat × Nat)}
    (valid : (Condition.tracked es).isValid = true) (exits : List Nat) (pc : Nat) :
    p.preserves (.tracked es) exits pc = true ↔
      ∃ target, ∀ f : Frame, f.pc = pc → (Condition.tracked es).holds f.stack = true →
        ∃ h, p.run exits f = .running h ∧ h.pc = target ∧
          (Condition.tracked es).holds h.stack = true := by
  constructor
  · exact exists_run_of_preserves
  · rintro ⟨target, all⟩
    -- The stack of the trial satisfies the condition itself.
    have least := Condition.holds_stack valid (by simp)
    obtain ⟨h, run, -, holds⟩ := all ((Condition.tracked es).frame pc) rfl least
    exact preserves_eq_true.mpr ⟨h, run, holds⟩

/-- A loop that jumps to the address on top and keeps it there, with one more value tracked below
and a cell between them of which nothing is asked. -/
theorem preserves_iff_every_stack_of_gap :
    (Condition.tracked [(2, 0), (0, 0)]).isValid = true ∧
      (ofCode "5b8056".toList).preserves (.tracked [(2, 0), (0, 0)]) [0] 0 = true ∧
      ∃ target, ∀ f : Frame, f.pc = 0 →
        (Condition.tracked [(2, 0), (0, 0)]).holds f.stack = true →
          ∃ h, (ofCode "5b8056".toList).run [0] f = .running h ∧ h.pc = target ∧
            (Condition.tracked [(2, 0), (0, 0)]).holds h.stack = true := by
  have valid : (Condition.tracked [(2, 0), (0, 0)]).isValid = true := by decide
  have keeps : (ofCode "5b8056".toList).preserves (.tracked [(2, 0), (0, 0)]) [0] 0 = true := by
    decide +kernel
  exact ⟨valid, keeps, (preserves_iff_every_stack _ valid [0] 0).mp keeps⟩

end Program

end EvmFlow
