import EvmFlow.Program.Basic
import Mathlib.Data.List.Basic

/-!
# Stacks that say more

A stack refines another when it is at least as long and knows every value that the other knows.
An execution needs operands to be there and jump targets to be known, and nothing else. So what
runs on a stack runs on every stack that refines it, along the same addresses, and the stacks on
which the two end refine one another again. `Refines` is carried from stacks to frames and to
outcomes, and each operation of the abstract machine has one lemma.
-/

namespace EvmFlow

/-- The first stack is at least as long and knows every value that the second knows. -/
def Stack.Refines (t s : List Cell) : Prop :=
  s.length ≤ t.length ∧ ∀ (k v : Nat), s[k]? = some (.known v) → t[k]? = some (.known v)

namespace Stack.Refines

variable {s t u : List Cell} {c d : Cell}

theorem refl (s : List Cell) : Refines s s := ⟨Nat.le_refl _, fun _ _ h => h⟩

theorem trans (h : Refines u t) (h' : Refines t s) : Refines u s :=
  ⟨Nat.le_trans h'.1 h.1, fun k v known => h.2 k v (h'.2 k v known)⟩

theorem cons (h : Refines t s) (top : ∀ v, c = .known v → d = .known v) :
    Refines (d :: t) (c :: s) := by
  refine ⟨by simpa using h.1, ?_⟩
  intro k v known
  cases k with
  | zero => simpa using top v (by simpa using known)
  | succ k => simpa using h.2 k v (by simpa using known)

theorem drop (h : Refines t s) (n : Nat) : Refines (t.drop n) (s.drop n) := by
  refine ⟨?_, ?_⟩
  · have := h.1
    simp only [List.length_drop]
    omega
  · intro k v known
    rw [List.getElem?_drop] at known ⊢
    exact h.2 _ v known

theorem append (h : Refines t s) (front : List Cell) : Refines (front ++ t) (front ++ s) := by
  induction front with
  | nil => exact h
  | cons c front ih => exact ih.cons fun _ known => known

theorem set (h : Refines t s) (k : Nat) (new : ∀ v, c = .known v → d = .known v) :
    Refines (t.set k d) (s.set k c) := by
  refine ⟨by simpa using h.1, ?_⟩
  intro j v known
  have long := h.1
  rw [List.getElem?_set] at known ⊢
  by_cases same : k = j
  · subst same
    rw [if_pos rfl] at known ⊢
    split at known
    · rename_i short
      rw [if_pos (by omega), new v (Option.some.inj known)]
    · cases known
  · rw [if_neg same] at known ⊢
    exact h.2 j v known

/-- Where the second stack has a cell, so has the first, and it knows at least as much. -/
theorem getElem? (h : Refines t s) {k : Nat} (hc : s[k]? = some c) :
    ∃ d, t[k]? = some d ∧ ∀ v, c = .known v → d = .known v := by
  have short : k < s.length := (List.getElem?_eq_some_iff.mp hc).1
  have long : k < t.length := Nat.lt_of_lt_of_le short h.1
  refine ⟨t[k], List.getElem?_eq_getElem long, ?_⟩
  rintro v rfl
  have := h.2 k v hc
  rw [List.getElem?_eq_getElem long] at this
  exact Option.some.inj this

theorem of_cons (h : Refines t (c :: s)) : ∃ d u, t = d :: u ∧ Refines u s := by
  cases t with
  | nil => exact absurd h.1 (by simp)
  | cons d u => exact ⟨d, u, rfl, h.drop 1⟩

theorem of_known_cons {v : Nat} (h : Refines t (.known v :: s)) :
    ∃ u, t = .known v :: u ∧ Refines u s := by
  obtain ⟨d, u, rfl, rest⟩ := h.of_cons
  have top : d = .known v := by simpa using h.2 0 v rfl
  exact ⟨u, by rw [top], rest⟩

end Stack.Refines

/-- The frames are at the same address, and one stack refines the other. -/
structure Frame.Refines (g f : Frame) : Prop where
  pc : g.pc = f.pc
  stack : Stack.Refines g.stack f.stack

/-- Where one execution has not failed the other has not, and refines it. -/
def State.Refines (t s : State) : Prop :=
  ∀ f, s = .running f → ∃ g, t = .running g ∧ g.Refines f

theorem State.Refines.running {g f : Frame} (h : g.Refines f) :
    (State.running g).Refines (.running f) := by
  rintro _ ⟨⟩
  exact ⟨g, rfl, h⟩

theorem State.Refines.of_failed (t : State) (m : String) : t.Refines (.failed m) := by
  rintro _ ⟨⟩

namespace Frame.Refines

variable {g f : Frame}

theorem size_le (h : g.Refines f) : f.size ≤ g.size := h.stack.1

theorem skip (h : g.Refines f) (n : Nat) : (g.skip n).Refines (f.skip n) :=
  ⟨congrArg (· + n) h.pc, h.stack⟩

theorem goto (h : g.Refines f) (target : Nat) : (g.goto target).Refines (f.goto target) :=
  ⟨rfl, h.stack⟩

theorem pop (h : g.Refines f) (n : Nat) : (g.pop n).Refines (f.pop n) := ⟨h.pc, h.stack.drop n⟩

theorem push (h : g.Refines f) (c : Cell) : (g.push c).Refines (f.push c) :=
  ⟨h.pc, h.stack.cons fun _ known => known⟩

theorem pushBlanks (h : g.Refines f) (n : Nat) : (g.pushBlanks n).Refines (f.pushBlanks n) :=
  ⟨h.pc, h.stack.append _⟩

theorem dup (h : g.Refines f) {n : Nat} (hn : n - 1 < f.size) : (g.dup n).Refines (f.dup n) := by
  obtain ⟨c, hc⟩ : ∃ c, f.stack[n - 1]? = some c := ⟨_, List.getElem?_eq_getElem hn⟩
  obtain ⟨d, hd, known⟩ := h.stack.getElem? hc
  simp only [Frame.dup, hc, hd]
  exact ⟨h.pc, h.stack.cons known⟩

theorem swap (h : g.Refines f) {n : Nat} (hn : n < f.size) : (g.swap n).Refines (f.swap n) := by
  have nonempty : 0 < f.size := by omega
  obtain ⟨a, ha⟩ : ∃ a, f.stack[0]? = some a := ⟨_, List.getElem?_eq_getElem nonempty⟩
  obtain ⟨c, hc⟩ : ∃ c, f.stack[n]? = some c := ⟨_, List.getElem?_eq_getElem hn⟩
  obtain ⟨b, hb, top⟩ := h.stack.getElem? ha
  obtain ⟨d, hd, below⟩ := h.stack.getElem? hc
  simp only [Frame.swap, ha, hc, hb, hd]
  exact ⟨h.pc, (h.stack.set 0 below).set n top⟩

theorem exchange (h : g.Refines f) (pops pushes : Nat) (message : String) :
    (g.exchange pops pushes message).Refines (f.exchange pops pushes message) := by
  have size := h.size_le
  unfold Frame.exchange
  by_cases enough : pops ≤ f.size
  · rw [if_pos enough, if_pos (Nat.le_trans enough size)]
    exact .running (((h.pop pops).pushBlanks pushes).skip 1)
  · rw [if_neg enough]
    exact .of_failed _ _

end Frame.Refines

/-! ### Instructions and segments -/

namespace Instruction

variable {g f : Frame}

/-- A jump looks at the top of the stack, which the finer frame knows if the coarser one does. -/
theorem refines_stepJump (i : Instruction) (exit : Nat) (h : g.Refines f) :
    (i.stepJump exit g).Refines (i.stepJump exit f) := by
  have stack := h.stack
  unfold stepJump
  split
  · exact .running (h.skip 1)
  split
  · cases hf : f.stack with
    | nil => exact .of_failed _ _
    | cons c rest =>
        cases c with
        | unknown => exact .of_failed _ _
        | known v =>
            rw [hf] at stack
            obtain ⟨u, hg, _⟩ := stack.of_known_cons
            simp only [hg]
            exact .running ((h.pop 1).goto v)
  split
  · rcases hf : f.stack with _ | ⟨c, _ | ⟨a, rest⟩⟩
    · exact .of_failed _ _
    · cases c <;> exact .of_failed _ _
    · cases c with
      | unknown => exact .of_failed _ _
      | known v =>
          rw [hf] at stack
          obtain ⟨u, hg, rest⟩ := stack.of_known_cons
          obtain ⟨b, u, rfl, _⟩ := rest.of_cons
          simp only [hg]
          split
          · exact .running ((h.pop 2).goto v)
          · exact .running ((h.pop 2).skip 1)
  · exact .of_failed _ _

theorem refines_stepStack (i : Instruction) (dests : List Nat) (h : g.Refines f) :
    (i.stepStack dests g).Refines (i.stepStack dests f) := by
  have size := h.size_le
  unfold stepStack
  simp only
  by_cases pop : i.op.code = 0x50 ∧ 1 ≤ f.size
  · rw [if_pos pop, if_pos ⟨pop.1, Nat.le_trans pop.2 size⟩]
    exact .running ((h.pop 1).skip 1)
  rw [if_neg pop]
  by_cases push : 0x5f ≤ i.op.code ∧ i.op.code ≤ 0x7f
  · rw [if_pos push, if_neg (by omega), if_pos push]
    exact .running ((h.push _).skip _)
  simp only [if_neg push]
  by_cases dup : 0x80 ≤ i.op.code ∧ i.op.code ≤ 0x8f ∧ i.op.code - 0x7f ≤ f.size
  · rw [if_pos dup, if_neg (by omega), if_pos (by omega)]
    exact .running ((h.dup (by omega)).skip 1)
  rw [if_neg dup]
  by_cases swap : 0x90 ≤ i.op.code ∧ i.op.code ≤ 0x9f ∧ i.op.code - 0x8f < f.size
  · rw [if_pos swap, if_neg (by omega), if_neg (by omega), if_pos (by omega)]
    exact .running ((h.swap (by omega)).skip 1)
  · rw [if_neg swap]
    exact .of_failed _ _

theorem refines_step (i : Instruction) (dests : List Nat) (exit : Nat) (h : g.Refines f) :
    (i.step dests exit g).Refines (i.step dests exit f) := by
  unfold step
  cases i.op.kind with
  | jump => exact i.refines_stepJump exit h
  | stack => exact i.refines_stepStack dests h
  | system =>
      simp only
      split
      · exact .of_failed _ _
      · exact h.exchange _ _ _
  | _ => exact h.exchange _ _ _

theorem refines_runAll (is : List Instruction) (dests : List Nat) (h : g.Refines f) :
    (runAll dests is g).Refines (runAll dests is f) := by
  induction is generalizing g f with
  | nil => exact .running h
  | cons i is ih =>
      unfold runAll
      cases step : i.step dests 0 f with
      | failed => exact .of_failed _ _
      | running f' =>
          obtain ⟨g', step', h'⟩ := i.refines_step dests 0 h f' step
          simp only [step']
          exact ih h'

end Instruction

theorem Segment.refines_run (s : Segment) (dests : List Nat) (exit : Nat) {g f : Frame}
    (h : g.Refines f) : (s.run dests exit g).Refines (s.run dests exit f) := by
  unfold Segment.run
  cases body : Instruction.runAll dests s.body f with
  | failed => exact .of_failed _ _
  | running f' =>
      obtain ⟨g', body', h'⟩ := Instruction.refines_runAll s.body dests h f' body
      simp only [body']
      exact s.last.refines_step dests exit h'

/-- Exits that can be followed from a frame can be followed from a finer one. -/
theorem Program.refines_run (p : Program) (exits : List Nat) {g f : Frame} (h : g.Refines f) :
    (p.run exits g).Refines (p.run exits f) := by
  induction exits generalizing g f with
  | nil => exact .running h
  | cons e rest ih =>
      rw [Program.run, Program.run, h.pc]
      cases p.segments.find? fun s => s.start == f.pc with
      | none => exact .of_failed _ _
      | some s =>
          by_cases exit : e < s.exits
          · simp only [if_pos exit]
            cases run : s.run p.dests e f with
            | failed => exact .of_failed _ _
            | running f' =>
                obtain ⟨g', run', h'⟩ := s.refines_run p.dests e h f' run
                simp only [run']
                exact ih h'
          · simp only [if_neg exit]
            exact .of_failed _ _

/-! ### Nodes -/

/-- A node covers another of the same segment when its stack refines the other's. -/
def Node.Covers : Node → Node → Prop
  | .at i t, .at j s => i = j ∧ Stack.Refines t s
  | _, _ => False

namespace Node.Covers

variable {g h k : Node}

theorem refl (running : g.isFailed = false) : g.Covers g := by
  cases g with
  | «at» => exact ⟨rfl, .refl _⟩
  | failed => cases running

theorem trans (first : g.Covers h) (second : h.Covers k) : g.Covers k := by
  cases g <;> cases h <;> cases k <;> try contradiction
  exact ⟨first.1.trans second.1, first.2.trans second.2⟩

theorem segment_eq (covers : g.Covers h) : g.segment? = h.segment? := by
  cases g <;> cases h <;> try contradiction
  exact congrArg some covers.1

theorem running (covers : g.Covers h) : g.isFailed = false := by
  cases g <;> cases h <;> try contradiction
  rfl

/-- Exit by exit, a node that covers another goes on to nodes that cover where the other goes. -/
theorem successors (p : Program) (covers : g.Covers h) {e : Nat}
    (exit : (p.successors h)[e]? = some k) (running : k.isFailed = false) :
    ∃ k', (p.successors g)[e]? = some k' ∧ k'.Covers k := by
  cases g <;> cases h <;> try contradiction
  rename_i i t j s
  obtain ⟨rfl, refines⟩ := covers
  unfold Program.successors at exit ⊢
  cases segment : p.segments[i]? with
  | none => simp [segment] at exit
  | some seg =>
      simp only [segment, List.getElem?_map, Option.map_eq_some_iff] at exit ⊢
      obtain ⟨n, found, rfl⟩ := exit
      have finer : Frame.Refines ⟨seg.start, t⟩ ⟨seg.start, s⟩ := ⟨rfl, refines⟩
      have state := seg.refines_run p.dests n finer
      refine ⟨_, ⟨n, found, rfl⟩, ?_⟩
      -- The coarser run has not failed, so the finer one has not either and is at its address.
      cases outcome : seg.run p.dests n ⟨seg.start, s⟩ with
      | failed =>
          rw [outcome] at running
          cases running
      | running f =>
          obtain ⟨g, outcome', same⟩ := state f outcome
          rw [outcome] at running
          rw [outcome']
          simp only [Program.locate, same.pc] at running ⊢
          cases place : p.segmentAt? f.pc with
          | none =>
              rw [place] at running
              cases running
          | some m => exact ⟨rfl, same.stack⟩

end Node.Covers

end EvmFlow
