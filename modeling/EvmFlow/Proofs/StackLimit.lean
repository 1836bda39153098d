import EvmFlow.Proofs.OperandCount
import Mathlib.Data.Int.Order.Basic

/-!
# How many free slots an execution needs

A stack has a limit. `Instruction.sizes` lists the sizes that it has before, between and behind
instructions, counted forwards from their effects, and `Instruction.Fits` says that none of them
exceeds the limit and that slots are left at the end. `Instruction.capacityNeeded` goes backwards:
it carries the slots that have to be free from behind an instruction to before it.

With the slots that are computed backwards every size fits (`fits_of_capacityNeeded`). The table
asks for a free slot wherever an opcode adds an element, and otherwise only where an opcode calls or
creates, so without these nothing less will do (`Fits.capacityNeeded_le`).
-/

namespace EvmFlow

namespace Opcode

/-- An opcode that does not call or create asks for no more free slots than it fills. -/
theorem minCapacity_ofByte_le (b : Nat) :
    (ofByte b).callsOut = false → ((ofByte b).minCapacity : Int) ≤ max 0 (ofByte b).effect := by
  refine ofByte_induction
    (P := fun o => o.callsOut = false → (o.minCapacity : Int) ≤ max 0 o.effect)
    ?_ ?_ ?_ ?_ (by decide) b
  · intro k _ _
    exact Int.le_max_right 0 1
  · intro k _ _ _
    exact Int.le_max_right 0 1
  · intro k _ _ _
    exact Int.le_max_left 0 _
  · intro k _ _
    exact Int.le_max_left 0 _

end Opcode

namespace Instruction

variable {i : Instruction} {is : List Instruction} {k : Nat} {limit n room : Int}

/-- The sizes of a stack before, between and behind instructions, from the size at the start. -/
def sizes (n : Int) : List Instruction → List Int
  | [] => [n]
  | i :: rest => n :: sizes (n + i.effect) rest

/-- No size exceeds the limit, and `k` slots are free behind the last instruction. -/
structure Fits (limit : Int) (k : Nat) (n : Int) (is : List Instruction) : Prop where
  within : ∀ m ∈ sizes n is, m ≤ limit
  free : ∀ m ∈ (sizes n is).getLast?, (k : Int) ≤ limit - m

/-! ### Counting forwards -/

theorem sizes_ne_nil (n : Int) (is : List Instruction) : sizes n is ≠ [] := by
  cases is <;> exact List.cons_ne_nil _ _

/-- A size is what the instructions up to it have made of the first one. -/
theorem effectAll_take_mem_sizes (n : Int) (is : List Instruction) (j : Nat) :
    n + effectAll (is.take j) ∈ sizes n is := by
  induction is generalizing n j with
  | nil => simp [effectAll, sizes]
  | cons i rest ih =>
      cases j with
      | zero => simp [effectAll, sizes]
      | succ j =>
          rw [List.take_succ_cons, effectAll, ← Int.add_assoc]
          exact List.mem_cons_of_mem n (ih (n + i.effect) j)

theorem Fits.start (fits : Fits limit k n is) : n ≤ limit := by
  have first := effectAll_take_mem_sizes n is 0
  rw [List.take_zero, effectAll, Int.add_zero] at first
  exact fits.within n first

theorem fits_nil : Fits limit k n [] ↔ (k : Int) ≤ limit - n := by
  constructor
  · intro fits
    exact fits.free n rfl
  · intro free
    refine ⟨fun m here => ?_, fun m last => ?_⟩
    · obtain rfl := List.mem_singleton.mp here
      omega
    · cases last
      exact free

theorem fits_cons :
    Fits limit k n (i :: is) ↔ n ≤ limit ∧ Fits limit k (n + i.effect) is := by
  have last : (sizes n (i :: is)).getLast? = (sizes (n + i.effect) is).getLast? :=
    List.getLast?_cons_of_ne_nil (sizes_ne_nil _ is)
  constructor
  · intro fits
    obtain ⟨first, within⟩ := List.forall_mem_cons.mp fits.within
    exact ⟨first, within, last ▸ fits.free⟩
  · rintro ⟨first, fits⟩
    exact ⟨List.forall_mem_cons.mpr ⟨first, fits.within⟩, last ▸ fits.free⟩

/-! ### Counting backwards -/

theorem capacityNeeded_cons_le :
    (capacityNeeded k (i :: is) : Int) ≤ room ↔
      (i.op.minCapacity : Int) ≤ room ∧ (capacityNeeded k is : Int) ≤ room - i.effect := by
  rw [capacityNeeded, Opcode.capacityNeeded, effect, Opcode.effect]
  omega

/-- The slots that are needed so that `k` are left free are enough for the instructions themselves,
and for `k` more than the instructions fill. -/
theorem capacityNeeded_le_iff :
    (capacityNeeded k is : Int) ≤ room ↔
      (capacityNeeded 0 is : Int) ≤ room ∧ k + effectAll is ≤ room := by
  induction is generalizing room with
  | nil =>
      rw [capacityNeeded, capacityNeeded, effectAll]
      omega
  | cons i rest ih =>
      rw [capacityNeeded_cons_le, capacityNeeded_cons_le, effectAll, ih]
      omega

theorem capacityNeeded_eq_max (k : Nat) (is : List Instruction) :
    (capacityNeeded k is : Int) = max (capacityNeeded 0 is : Int) (k + effectAll is) := by
  apply eq_of_forall_ge_iff
  intro room
  rw [capacityNeeded_le_iff]
  exact Int.max_le.symm

/-! ### Both ways agree -/

/-- Where the needed slots are free, the stack never grows past its limit. -/
theorem fits_of_capacityNeeded (room : (capacityNeeded k is : Int) ≤ limit - n) :
    Fits limit k n is := by
  induction is generalizing n with
  | nil => exact fits_nil.mpr room
  | cons i rest ih =>
      obtain ⟨here, behind⟩ := capacityNeeded_cons_le.mp room
      exact fits_cons.mpr ⟨by omega, ih (by omega)⟩

/-- Where the stack does not grow past its limit, the needed slots were free. -/
theorem Fits.capacityNeeded_le (decoded : ∀ i ∈ is, ∃ b, i.op = .ofByte b)
    (stays : ∀ i ∈ is, i.op.callsOut = false) (fits : Fits limit k n is) :
    (capacityNeeded k is : Int) ≤ limit - n := by
  induction is generalizing n with
  | nil => exact fits_nil.mp fits
  | cons i rest ih =>
      obtain ⟨first, decoded⟩ := List.forall_mem_cons.mp decoded
      obtain ⟨first', stays⟩ := List.forall_mem_cons.mp stays
      obtain ⟨here, behind⟩ := fits_cons.mp fits
      have next := behind.start
      have asked : (i.op.minCapacity : Int) ≤ max 0 i.effect := by
        obtain ⟨b, op⟩ := first
        rw [effect, op]
        exact Opcode.minCapacity_ofByte_le b (op ▸ first')
      have later := ih decoded stays behind
      exact capacityNeeded_cons_le.mpr ⟨by omega, by omega⟩

/-- With as many free slots as a list of instructions needs, the stack stays within its limit at
every instruction, counted by their effects as well as in every execution, and `k` slots are free at
the end. If no instruction calls or creates, this happens with no fewer slots. For any list, the
slots that are needed are the larger of those for none left free and of `k` more than the list
fills. -/
theorem capacityNeeded_exact (is : List Instruction) (k : Nat) :
    (∀ limit n : Nat, n ≤ limit → capacityNeeded k is ≤ limit - n → Fits limit k n is) ∧
      ((∀ i ∈ is, ∃ b, i.op = .ofByte b) → (∀ i ∈ is, i.op.callsOut = false) →
        ∀ limit n : Nat, n ≤ limit → Fits limit k n is → capacityNeeded k is ≤ limit - n) ∧
      ((∀ i ∈ is, i.IsEncoded) → ∀ (limit : Nat) (dests : List Nat) (f : Frame), f.size ≤ limit →
        capacityNeeded k is ≤ limit - f.size →
        ∀ j g, runAll dests (is.take j) f = .running g → g.size ≤ limit) ∧
      (capacityNeeded k is : Int) = max (capacityNeeded 0 is : Int) (k + effectAll is) := by
  refine ⟨?_, ?_, ?_, capacityNeeded_eq_max k is⟩
  · intro limit n start room
    exact fits_of_capacityNeeded (by omega)
  · intro decoded stays limit n start fits
    have least := fits.capacityNeeded_le decoded stays
    omega
  · intro encoded limit dests f start room j g run
    have fits : Fits limit k f.size is := fits_of_capacityNeeded (by omega)
    have size := (size_runAll (fun i hi => encoded i (List.mem_of_mem_take hi)) run).2
    have within := fits.within _ (effectAll_take_mem_sizes f.size is j)
    omega

/-- A constant is pushed, copied and all of it is dropped again, with one element from below. The
stack grows by two on the way, so two slots are needed, and three for four free ones at the end. -/
theorem capacityNeeded_exact_of_peak :
    let is : List Instruction :=
      [⟨.ofByte 0x60, "05".toList, 0⟩, ⟨.ofByte 0x80, [], 2⟩, ⟨.ofByte 0x50, [], 3⟩,
        ⟨.ofByte 0x50, [], 4⟩, ⟨.ofByte 0x50, [], 5⟩]
    let f : Frame := ⟨0, [.blank]⟩
    (∀ i ∈ is, i.IsEncoded) ∧ (∀ i ∈ is, i.op.callsOut = false) ∧
      capacityNeeded 0 is = 2 ∧ capacityNeeded 4 is = 3 ∧ sizes 1 is = [1, 2, 3, 2, 1, 0] ∧
      Fits 3 0 1 is ∧ Fits 4 4 1 is ∧ ¬ Fits 3 4 1 is ∧
      (∃ g, runAll [] (is.take 2) f = .running g ∧ g.size = 3 ∧ g.size ≤ 3) := by
  intro is f
  have encoded : ∀ i ∈ is, i.IsEncoded := by
    simp only [is, List.forall_mem_cons, List.not_mem_nil, false_implies, implies_true, and_true]
    exact ⟨⟨⟨0x60, rfl⟩, by decide, by decide⟩, ⟨⟨0x80, rfl⟩, by decide, by decide⟩,
      ⟨⟨0x50, rfl⟩, by decide, by decide⟩, ⟨⟨0x50, rfl⟩, by decide, by decide⟩,
      ⟨⟨0x50, rfl⟩, by decide, by decide⟩⟩
  have stays : ∀ i ∈ is, i.op.callsOut = false := by decide
  have none : capacityNeeded 0 is = 2 := by decide
  have four : capacityNeeded 4 is = 3 := by decide
  obtain ⟨enough, -, runs, -⟩ := capacityNeeded_exact is 0
  obtain ⟨enough', least', -, -⟩ := capacityNeeded_exact is 4
  refine ⟨encoded, stays, none, four, by decide, enough 3 1 (by decide) (by decide),
    enough' 4 1 (by decide) (by decide), ?_, ?_⟩
  · intro fits
    have room := least' (fun i hi => (encoded i hi).op) stays 3 1 (by decide) fits
    rw [four] at room
    exact absurd room (by decide)
  · have run : runAll [] (is.take 2) f = .running ⟨3, [.blank, .blank, .blank]⟩ := by decide
    exact ⟨_, run, rfl, runs encoded 3 [] f (by decide) (by decide) 2 _ run⟩

/-- An opcode that creates asks for a free slot that it does not fill: on a full stack it fits, and
the slot is not there. -/
example : capacityNeeded 0 [⟨.ofByte 0xf0, [], 0⟩] = 1 ∧
    sizes 3 [⟨.ofByte 0xf0, [], 0⟩] = [3, 1] := by decide

end Instruction

end EvmFlow
