import EvmFlow.Instruction.Precondition
import EvmFlow.Instruction.Step
import Mathlib.Data.List.Basic

/-!
# What an instruction does

`Instruction.Runs` lists the ways in which a step succeeds, one constructor for each, and later
proofs go by these cases instead of opening `Instruction.step`. Two descriptions follow from it.
An instruction that does not jump moves on by its size. And `Instruction.origin`, which looks
backwards, tells for every position of the new stack what stands there: a cell of the old stack,
or what the instruction has put there.

The rule of `origin` for system opcodes leaves a pushed result out of account, so the second
description is for opcodes other than those that call or create. `Instruction.source` counts the
result and describes all of them.
-/

namespace EvmFlow

/-! ### Frames -/

namespace Frame

variable {f : Frame} {n pos : Nat}

@[simp] theorem stack_skip (f : Frame) (n : Nat) : (f.skip n).stack = f.stack := rfl

@[simp] theorem stack_goto (f : Frame) (n : Nat) : (f.goto n).stack = f.stack := rfl

@[simp] theorem pc_dup (f : Frame) (n : Nat) : (f.dup n).pc = f.pc := by
  unfold dup
  split <;> rfl

@[simp] theorem pc_swap (f : Frame) (n : Nat) : (f.swap n).pc = f.pc := by
  unfold swap
  split <;> rfl

@[simp] theorem getElem?_pop : (f.pop n).stack[pos]? = f.stack[pos + n]? := by
  rw [pop, List.getElem?_drop, Nat.add_comm]

theorem getElem?_pushBlanks :
    (f.pushBlanks n).stack[pos]? = if pos < n then some .blank else f.stack[pos - n]? := by
  simp only [pushBlanks, List.getElem?_append, List.length_replicate, List.getElem?_replicate]
  split <;> rfl

theorem getElem?_dup (low : 1 ≤ n) (high : n ≤ f.size) :
    (f.dup n).stack[pos]? = f.stack[if pos = 0 then n - 1 else pos - 1]? := by
  obtain ⟨c, hc⟩ : ∃ c, f.stack[n - 1]? = some c :=
    ⟨_, List.getElem?_eq_getElem (Nat.sub_one_lt_of_le low high)⟩
  simp only [dup, hc, push]
  cases pos with
  | zero => simp [hc]
  | succ k => simp

theorem getElem?_swap (high : n < f.size) :
    (f.swap n).stack[pos]? = f.stack[if pos = 0 then n else if pos = n then 0 else pos]? := by
  change n < f.stack.length at high
  have nonempty : 0 < f.stack.length := Nat.zero_lt_of_lt high
  obtain ⟨a, top⟩ : ∃ a, f.stack[0]? = some a := ⟨_, List.getElem?_eq_getElem nonempty⟩
  obtain ⟨b, below⟩ : ∃ b, f.stack[n]? = some b := ⟨_, List.getElem?_eq_getElem high⟩
  simp only [swap, top, below, List.getElem?_set, List.length_set]
  by_cases first : pos = 0
  · subst first
    by_cases same : n = 0
    · subst same
      rw [if_pos rfl, if_pos nonempty, if_pos rfl, top]
    · rw [if_neg same, if_pos rfl, if_pos nonempty, if_pos rfl, below]
  · by_cases nth : pos = n
    · subst nth
      rw [if_pos rfl, if_pos high, if_neg first, if_pos rfl, top]
    · rw [if_neg (Ne.symm nth), if_neg (Ne.symm first), if_neg first, if_neg nth]

end Frame

/-! ### The opcode table -/

namespace Opcode

/-- `CREATE`, `CALL`, `CALLCODE`, `DELEGATECALL`, `CREATE2` and `STATICCALL`. -/
def callsOut (o : Opcode) : Bool := [0xf0, 0xf1, 0xf2, 0xf4, 0xf5, 0xfa].contains o.code

/-- A byte decodes to a member of a family or to an entry of the table. -/
theorem ofByte_induction {P : Opcode → Prop} (hpush : ∀ k ≤ 32, P (push k))
    (hdup : ∀ k, 1 ≤ k → k ≤ 16 → P (dup k)) (hswap : ∀ k, 1 ≤ k → k ≤ 16 → P (swap k))
    (hlog : ∀ k ≤ 4, P (log k)) (htable : ∀ o ∈ table, P o) (b : Nat) : P (ofByte b) := by
  unfold ofByte
  split
  · exact hpush _ (by omega)
  split
  · exact hdup _ (by omega) (by omega)
  split
  · exact hswap _ (by omega) (by omega)
  split
  · exact hlog _ (by omega)
  cases found : table.find? fun o => o.code == b with
  | none => exact htable invalid (by decide)
  | some o => exact htable o (List.mem_of_find?_eq_some found)

/-- A byte that encodes something is the code of what it encodes. -/
theorem code_ofByte (b : Nat) : (ofByte b).code = b ∨ ofByte b = invalid := by
  unfold ofByte
  split
  · exact .inl (Nat.add_sub_of_le (by omega))
  split
  · exact .inl (Nat.add_sub_of_le (by omega))
  split
  · exact .inl (Nat.add_sub_of_le (by omega))
  split
  · exact .inl (Nat.add_sub_of_le (by omega))
  cases found : table.find? fun o => o.code == b with
  | none => exact .inr rfl
  | some o =>
      have own := List.find?_some found
      exact .inl (beq_iff_eq.mp own)

theorem isValid_ofByte (b : Nat) : (ofByte b).isValid = true := by
  refine ofByte_induction (P := fun o => o.isValid = true) ?_ ?_ ?_ ?_ (by decide) b
  · intro k hk
    change isValid ⟨.stack, _, 0x5f + k, 1, 0, 1, 0⟩ = true
    simp only [isValid, decide_eq_true_eq, and_true]
    omega
  · intro k low high
    simp only [isValid, dup, decide_eq_true_eq, and_true]
    omega
  · intro k low high
    simp only [isValid, swap, decide_eq_true_eq, and_true]
    omega
  · intro k hk
    change isValid ⟨.log, _, 0xa0 + k, 0, k + 2, 0, k + 2⟩ = true
    simp only [isValid, decide_eq_true_eq, true_and]
    omega

theorem pushes_ofByte_le (b : Nat) : (ofByte b).pushes ≤ 1 :=
  ofByte_induction (P := fun o => o.pushes ≤ 1) (fun _ _ => Nat.le_refl 1)
    (fun _ _ _ => Nat.le_refl 1) (fun _ _ _ => Nat.zero_le 1) (fun _ _ => Nat.zero_le 1)
    (by decide) b

/-- Opcodes that compare or combine bits leave a result. -/
theorem pushes_ofByte_eq_one (b : Nat) :
    (ofByte b).kind = .comparison ∨ (ofByte b).kind = .bitwise → (ofByte b).pushes = 1 := by
  refine ofByte_induction
    (P := fun o => o.kind = .comparison ∨ o.kind = .bitwise → o.pushes = 1) ?_ ?_ ?_ ?_ (by decide) b
  all_goals
    intros
    rename_i kind
    rcases kind with kind | kind <;> contradiction

/-- Of the system opcodes only those that call or create leave a result. -/
theorem pushes_ofByte_eq_zero (b : Nat) :
    (ofByte b).kind = .system → (ofByte b).callsOut = false → (ofByte b).pushes = 0 := by
  refine ofByte_induction (P := fun o => o.kind = .system → o.callsOut = false → o.pushes = 0)
    ?_ ?_ ?_ ?_ (by decide) b
  all_goals
    intros
    contradiction

end Opcode

namespace Instruction

/-- An opcode of the table, with as many hexadecimal digits as its argument takes. -/
structure IsEncoded (i : Instruction) : Prop where
  op : ∃ b, i.op = .ofByte b
  digits : i.arg.length = 2 * i.op.argBytes
  hex : Hex.isText i.arg = true

variable {i : Instruction} {dests : List Nat} {exit : Nat} {f g : Frame}

namespace IsEncoded

theorem isValid (h : i.IsEncoded) : i.op.isValid = true := by
  obtain ⟨b, hb⟩ := h.op
  rw [hb]
  exact Opcode.isValid_ofByte b

theorem pushes_le (h : i.IsEncoded) : i.op.pushes ≤ 1 := by
  obtain ⟨b, hb⟩ := h.op
  rw [hb]
  exact Opcode.pushes_ofByte_le b

theorem pushes_eq_one (h : i.IsEncoded)
    (kind : i.op.kind = .comparison ∨ i.op.kind = .bitwise) : i.op.pushes = 1 := by
  obtain ⟨b, hb⟩ := h.op
  rw [hb] at kind ⊢
  exact Opcode.pushes_ofByte_eq_one b kind

theorem pushes_eq_zero (h : i.IsEncoded) (system : i.op.kind = .system)
    (stays : i.op.callsOut = false) : i.op.pushes = 0 := by
  obtain ⟨b, hb⟩ := h.op
  rw [hb] at system stays ⊢
  exact Opcode.pushes_ofByte_eq_zero b system stays

theorem size_eq (h : i.IsEncoded) : i.size = 1 + i.op.argBytes := by
  rw [size, h.digits, Nat.mul_div_cancel_left _ (by decide)]

/-- The opcodes `JUMP` and `JUMPI` are of the jump kind. -/
theorem kind_of_isJump (h : i.IsEncoded) (jump : i.op.code = 0x56 ∨ i.op.code = 0x57) :
    i.op.kind = .jump := by
  have valid := h.isValid
  cases kind : i.op.kind <;> simp only [Opcode.isValid, kind, decide_eq_true_eq] at valid <;>
    first | rfl | omega

/-- The opcodes that call or create are of the system kind. -/
theorem kind_of_callsOut (h : i.IsEncoded) (calls : i.op.callsOut = true) :
    i.op.kind = .system := by
  have valid := h.isValid
  simp only [Opcode.callsOut, List.contains_eq_mem, List.mem_cons, List.not_mem_nil, or_false,
    decide_eq_true_eq] at calls
  cases kind : i.op.kind <;> simp only [Opcode.isValid, kind, decide_eq_true_eq] at valid <;>
    first | rfl | omega

/-- Only opcodes of the stack kind have an argument. -/
theorem argBytes_eq_zero (h : i.IsEncoded) (kind : i.op.kind ≠ .stack) : i.op.argBytes = 0 := by
  have valid := h.isValid
  unfold Opcode.argBytes
  rw [if_neg]
  cases hkind : i.op.kind <;> simp only [Opcode.isValid, hkind, decide_eq_true_eq] at valid <;>
    first | omega | exact absurd hkind kind

end IsEncoded

/-! ### The ways in which a step succeeds -/

/-- What a step that succeeds has done. -/
inductive Runs (i : Instruction) (dests : List Nat) (exit : Nat) (f : Frame) : Frame → Prop where
  | exchange (jump : i.op.kind ≠ .jump) (stack : i.op.kind ≠ .stack)
      (operands : i.op.pops ≤ f.size) :
      Runs i dests exit f (((f.pop i.op.pops).pushBlanks i.op.pushes).skip 1)
  | land (kind : i.op.kind = .jump) (code : i.op.code = 0x5b) : Runs i dests exit f (f.skip 1)
  | jump {v : Nat} {rest : List Cell} (kind : i.op.kind = .jump) (code : i.op.code = 0x56)
      (top : f.stack = .known v :: rest) : Runs i dests exit f ((f.pop 1).goto v)
  | branch {v : Nat} {c : Cell} {rest : List Cell} (kind : i.op.kind = .jump)
      (code : i.op.code = 0x57) (top : f.stack = .known v :: c :: rest) (taken : 1 ≤ exit) :
      Runs i dests exit f ((f.pop 2).goto v)
  | pass {v : Nat} {c : Cell} {rest : List Cell} (kind : i.op.kind = .jump)
      (code : i.op.code = 0x57) (top : f.stack = .known v :: c :: rest) (passed : exit = 0) :
      Runs i dests exit f ((f.pop 2).skip 1)
  | pop (kind : i.op.kind = .stack) (code : i.op.code = 0x50) (operands : 1 ≤ f.size) :
      Runs i dests exit f ((f.pop 1).skip 1)
  | push (kind : i.op.kind = .stack) (low : 0x5f ≤ i.op.code) (high : i.op.code ≤ 0x7f) :
      Runs i dests exit f
        ((f.push (constant dests i.argValue)).skip (1 + (i.op.code - 0x5f)))
  | dup (kind : i.op.kind = .stack) (low : 0x80 ≤ i.op.code) (high : i.op.code ≤ 0x8f)
      (operands : i.op.code - 0x7f ≤ f.size) :
      Runs i dests exit f ((f.dup (i.op.code - 0x7f)).skip 1)
  | swap (kind : i.op.kind = .stack) (low : 0x90 ≤ i.op.code) (high : i.op.code ≤ 0x9f)
      (operands : i.op.code - 0x8f < f.size) :
      Runs i dests exit f ((f.swap (i.op.code - 0x8f)).skip 1)

theorem runs_of_stepJump (kind : i.op.kind = .jump) (run : i.stepJump exit f = .running g) :
    i.Runs dests exit f g := by
  unfold stepJump at run
  split at run
  · rename_i code
    cases run
    exact .land kind code
  split at run
  · rename_i code
    split at run
    · cases run
    · cases run
    · rename_i top
      cases run
      exact .jump kind code top
  split at run
  · rename_i code
    split at run
    · cases run
    · rename_i top
      cases run
      split
      · rename_i taken
        exact .branch kind code top taken
      · rename_i passed
        exact .pass kind code top (by omega)
    · cases run
  · cases run

theorem runs_of_stepStack (kind : i.op.kind = .stack) (run : i.stepStack dests f = .running g) :
    i.Runs dests exit f g := by
  unfold stepStack at run
  simp only at run
  split at run
  · rename_i pop
    cases run
    exact .pop kind pop.1 pop.2
  split at run
  · rename_i push
    cases run
    exact .push kind push.1 push.2
  split at run
  · rename_i dup
    cases run
    exact .dup kind dup.1 dup.2.1 dup.2.2
  split at run
  · rename_i swap
    cases run
    exact .swap kind swap.1 swap.2.1 swap.2.2
  · cases run

theorem runs_of_exchange {message : String} (jump : i.op.kind ≠ .jump) (stack : i.op.kind ≠ .stack)
    (run : f.exchange i.op.pops i.op.pushes message = .running g) : i.Runs dests exit f g := by
  unfold Frame.exchange at run
  split at run
  · rename_i operands
    cases run
    exact .exchange jump stack operands
  · cases run

theorem runs_of_step (run : i.step dests exit f = .running g) : i.Runs dests exit f g := by
  unfold step at run
  cases kind : i.op.kind with
  | jump =>
      rw [kind] at run
      exact runs_of_stepJump kind run
  | stack =>
      rw [kind] at run
      exact runs_of_stepStack kind run
  | system =>
      simp only [kind] at run
      split at run
      · cases run
      · exact runs_of_exchange (by simp [kind]) (by simp [kind]) run
  | _ =>
      simp only [kind] at run
      exact runs_of_exchange (by simp [kind]) (by simp [kind]) run

theorem runAll_cons {rest : List Instruction} (run : runAll dests (i :: rest) f = .running g) :
    ∃ h, i.step dests 0 f = .running h ∧ runAll dests rest h = .running g := by
  unfold runAll at run
  cases step : i.step dests 0 f with
  | failed =>
      rw [step] at run
      cases run
  | running h =>
      rw [step] at run
      exact ⟨h, rfl, run⟩

/-- An instruction that does not jump moves on to the address behind it. -/
theorem pc_step (encoded : i.IsEncoded) (stays : i.isJump = false ∨ i.op.code = 0x57 ∧ exit = 0)
    (run : i.step dests exit f = .running g) : g.pc = f.pc + i.size := by
  rw [encoded.size_eq]
  cases runs_of_step run with
  | exchange _ stack _ => rw [encoded.argBytes_eq_zero stack]; rfl
  | land kind _ => rw [encoded.argBytes_eq_zero (by simp [kind])]; rfl
  | jump _ code _ => simp [isJump, Opcode.isJump, code] at stays
  | branch _ code _ taken => simp [isJump, Opcode.isJump, code] at stays; omega
  | pass kind _ _ _ => rw [encoded.argBytes_eq_zero (by simp [kind])]; rfl
  | pop _ code _ =>
      have width : i.op.argBytes = 0 := if_neg (by omega)
      rw [width]
      rfl
  | push _ low high =>
      have width : i.op.argBytes = i.op.code - 0x5f := by
        unfold Opcode.argBytes
        split <;> omega
      rw [width]
      rfl
  | dup _ low high operands =>
      have width : i.op.argBytes = 0 := if_neg (by omega)
      rw [width]
      exact congrArg (· + 1) (f.pc_dup _)
  | swap _ low high operands =>
      have width : i.op.argBytes = 0 := if_neg (by omega)
      rw [width]
      exact congrArg (· + 1) (f.pc_swap _)

/-! ### Where the cells of the new stack come from -/

/-- Where an element that the opcode did not compute was before it. For system opcodes the result
is not taken into account. -/
def below (o : Opcode) (pos : Nat) : Nat :=
  match o.kind with
  | .system => pos + o.pops
  | _ => pos + o.pops - o.pushes

/-- The families of opcodes of the table that exchange operands for a result have one rule in
common: the result comes from nowhere, and the others were further down. -/
theorem IsEncoded.origin_eq (encoded : i.IsEncoded) (jump : i.op.kind ≠ .jump)
    (stack : i.op.kind ≠ .stack) (pos : Nat) :
    i.origin pos =
      if i.op.pushes ≠ 0 ∧ pos = 0 then .inl (.unknown (computed i.op.kind))
      else .inr (below i.op pos) := by
  have valid := encoded.isValid
  have result := encoded.pushes_eq_one
  -- In the table each family has its own numbers of operands and results, and with these the way in
  -- which the family counts positions is that of `below`.
  cases kind : i.op.kind <;>
    simp only [Opcode.isValid, kind, decide_eq_true_eq] at valid jump stack result <;>
    simp only [origin, underResult, below, kind] <;> split_ifs <;> simp_all

/-- The cell that `origin` names, seen from the old stack. -/
def placed (dests : List Nat) (stack : List Cell) : Cell ⊕ Nat → Option Cell
  | .inr pos => stack[pos]?
  | .inl (.known v) => some (constant dests v)
  | .inl (.unknown _) => some .blank

/-- Every position of the new stack holds what `origin` names. -/
theorem getElem?_step (encoded : i.IsEncoded) (stays : i.op.callsOut = false)
    (run : i.step dests exit f = .running g) (pos : Nat) :
    g.stack[pos]? = placed dests f.stack (i.origin pos) := by
  cases runs_of_step run with
  | exchange jump stack operands =>
      have few := encoded.pushes_le
      have result : (i.op.pushes ≠ 0 ∧ pos = 0) ↔ pos < i.op.pushes := by omega
      have moved : i.op.kind = .system → i.op.pushes = 0 := fun system =>
        encoded.pushes_eq_zero system stays
      rw [Frame.stack_skip, Frame.getElem?_pushBlanks, encoded.origin_eq jump stack]
      by_cases new : pos < i.op.pushes
      · rw [if_pos new, if_pos (result.mpr new), placed]
      · have before : below i.op pos = pos + i.op.pops - i.op.pushes := by
          cases kind : i.op.kind <;> simp_all [below]
        rw [if_neg new, if_neg (result.not.mpr new), placed, before, Frame.getElem?_pop]
        congr 1
        omega
  | land kind code => simp [origin, kind, code, placed]
  | jump kind code top => simp [origin, kind, code, placed]
  | branch kind code top taken => simp [origin, kind, code, placed]
  | pass kind code top passed => simp [origin, kind, code, placed]
  | pop kind code operands => simp [origin, kind, code, placed]
  | push kind low high =>
      simp only [origin, kind, if_pos (And.intro low high), Frame.push, Frame.stack_skip]
      cases pos <;> simp [placed]
  | dup kind low high operands =>
      rw [Frame.stack_skip, Frame.getElem?_dup (by omega) operands]
      simp only [origin, kind, if_neg (show ¬(0x5f ≤ i.op.code ∧ i.op.code ≤ 0x7f) by omega),
        if_pos (And.intro low high), placed, Nat.sub_sub]
  | swap kind low high operands =>
      rw [Frame.stack_skip, Frame.getElem?_swap operands]
      simp only [origin, kind, if_neg (show ¬(0x5f ≤ i.op.code ∧ i.op.code ≤ 0x7f) by omega),
        if_neg (show ¬(0x80 ≤ i.op.code ∧ i.op.code ≤ 0x8f) by omega),
        if_pos (And.intro low high), placed]

/-- Where the element at a position was before the instruction, or what the instruction put there.
This is `origin`, except below the result of an opcode that calls or creates. -/
def source (i : Instruction) (pos : Nat) : Cell ⊕ Nat :=
  if i.op.callsOut = true ∧ pos ≠ 0 then .inr (pos + i.op.pops - i.op.pushes) else i.origin pos

theorem source_eq_origin (stays : i.op.callsOut = false) (pos : Nat) :
    i.source pos = i.origin pos :=
  if_neg fun calls => Bool.false_ne_true (stays.symm.trans calls.1)

/-- Every position of the new stack holds what `source` names. -/
theorem getElem?_step_source (encoded : i.IsEncoded) (run : i.step dests exit f = .running g)
    (pos : Nat) : g.stack[pos]? = placed dests f.stack (i.source pos) := by
  cases calls : i.op.callsOut with
  | false =>
      rw [source_eq_origin calls]
      exact getElem?_step encoded calls run pos
  | true =>
      have system := encoded.kind_of_callsOut calls
      have few := encoded.pushes_le
      cases runs_of_step run with
      | exchange _ _ operands =>
          rw [Frame.stack_skip, Frame.getElem?_pushBlanks, Frame.getElem?_pop]
          by_cases top : pos = 0
          · subst top
            by_cases result : i.op.pushes = 0
            · simp [source, origin, system, result, placed]
            · simp [source, origin, system, result, underResult, placed, Nat.pos_of_ne_zero result]
          · have named : i.source pos = .inr (pos + i.op.pops - i.op.pushes) :=
              if_pos ⟨calls, top⟩
            rw [named, placed, if_neg (by omega)]
            congr 1
            omega
      | _ => simp_all

end Instruction

end EvmFlow
