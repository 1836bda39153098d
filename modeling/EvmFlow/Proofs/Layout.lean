import EvmFlow.Program.Basic
import EvmFlow.Proofs.Execution
import Mathlib.Data.List.Chain
import Mathlib.Data.List.Nodup

/-!
# The layout of programs

Disassembly puts instructions one behind the other, and cutting them into segments keeps them all
in their order. So the segments of a program lie one behind the other too, each starts where no
other does, and a segment that is left at its end is left for the byte behind it.

A text that cannot be read to its end gives a marker in place of the rest. It is an `INVALID`
instruction, which no segment with an exit contains.
-/

namespace EvmFlow

namespace Instruction

variable {is js : List Instruction} {a : Nat}

/-- Instructions that stand one behind the other from an address on. -/
def LaidOut : Nat → List Instruction → Prop
  | _, [] => True
  | a, i :: rest => i.address = a ∧ LaidOut (a + i.size) rest

@[simp] theorem bytes_append (is js : List Instruction) :
    Segment.bytes (is ++ js) = Segment.bytes is + Segment.bytes js := by
  induction is with
  | nil => simp [Segment.bytes]
  | cons i rest ih => simp only [List.cons_append, Segment.bytes, ih, Nat.add_assoc]

theorem laidOut_append :
    LaidOut a (is ++ js) ↔ LaidOut a is ∧ LaidOut (a + Segment.bytes is) js := by
  induction is generalizing a with
  | nil => simp [LaidOut, Segment.bytes]
  | cons i rest ih => simp only [List.cons_append, LaidOut, Segment.bytes, ih, and_assoc,
      Nat.add_assoc]

/-- A jump destination is not terminal. -/
theorem isTerminal_of_isJumpDest {i : Instruction} (dest : i.isJumpDest = true) :
    i.isTerminal = false := by
  simp only [isJumpDest, Opcode.isJumpDest, beq_iff_eq] at dest
  simp [isTerminal, Opcode.isTerminal, dest]

/-- A list of instructions that do not jump moves on by its bytes. -/
theorem pc_runAll {dests : List Nat} {f g : Frame} (encoded : ∀ i ∈ is, i.IsEncoded)
    (stays : ∀ i ∈ is, i.isJump = false) (run : runAll dests is f = .running g) :
    g.pc = f.pc + Segment.bytes is := by
  induction is generalizing f with
  | nil =>
      cases run
      rfl
  | cons i rest ih =>
      obtain ⟨h, step, run⟩ := runAll_cons run
      obtain ⟨first, others⟩ := List.forall_mem_cons.mp encoded
      obtain ⟨first', others'⟩ := List.forall_mem_cons.mp stays
      rw [ih others others' run, pc_step first (.inl first') step, Segment.bytes, Nat.add_assoc]

end Instruction

/-! ### Disassembly -/

/-- What has been read is an opcode of the table with its digits. -/
theorem Instruction.isEncoded_of_read {b address : Nat} {rest : List Char}
    (readable : ¬ (rest.length < 2 * (Opcode.ofByte b).argBytes ∨
      ¬ Hex.isText (rest.take (2 * (Opcode.ofByte b).argBytes)) = true)) :
    IsEncoded ⟨.ofByte b, rest.take (2 * (Opcode.ofByte b).argBytes), address⟩ := by
  obtain ⟨long, hex⟩ := not_or.mp readable
  exact ⟨⟨b, rfl⟩, List.length_take_of_le (Nat.le_of_not_lt long), not_not.mp hex⟩

theorem laidOut_disassemble (s : List Char) (address : Nat) :
    Instruction.LaidOut address (disassemble s address) := by
  fun_induction disassemble s address with
  | case1 => trivial
  | case2 => exact ⟨rfl, trivial⟩
  | case3 => exact ⟨rfl, trivial⟩
  | case4 => exact ⟨rfl, trivial⟩
  | case5 address c d rest b _ op digits readable ih =>
      refine ⟨rfl, ?_⟩
      rw [(Instruction.isEncoded_of_read readable).size_eq, ← Nat.add_assoc]
      exact ih

/-- Every instruction is one of the table or a marker, and stands within the text. -/
theorem disassemble_spec (s : List Char) (address : Nat) :
    ∀ i ∈ disassemble s address,
      (i.IsEncoded ∨ i.op = .invalid) ∧ 2 * i.address < 2 * address + s.length := by
  have marker : ∀ (u : Unreadable) (a n : Nat), ∀ i ∈ [u.marker a],
      (i.IsEncoded ∨ i.op = .invalid) ∧ 2 * i.address < 2 * a + (n + 1) := by
    intro u a n i hi
    rw [List.mem_singleton.mp hi]
    exact ⟨.inr rfl, Nat.lt_add_of_pos_right (Nat.succ_pos n)⟩
  fun_induction disassemble s address with
  | case1 => simp
  | case2 => exact marker _ _ _
  | case3 => exact marker _ _ _
  | case4 => exact marker _ _ _
  | case5 address c d rest b _ op digits readable ih =>
      refine List.forall_mem_cons.mpr ⟨⟨.inl (Instruction.isEncoded_of_read readable), ?_⟩, ?_⟩
      · simp
      · intro i hi
        obtain ⟨read, within⟩ := ih i hi
        refine ⟨read, ?_⟩
        simp only [List.length_drop, List.length_cons] at within ⊢
        omega

theorem disassemble_ne_nil {s : List Char} (address : Nat) (nonempty : s ≠ []) :
    disassemble s address ≠ [] := by
  fun_cases disassemble s address with
  | case1 => exact absurd rfl nonempty
  | case2 | case3 | case4 | case5 => exact List.cons_ne_nil _ _

/-! ### Segments -/

namespace Segment

variable {s : Segment} {a : Nat}

/-- A segment as cutting makes it: only its last instruction may be terminal. -/
structure IsCut (s : Segment) : Prop where
  built : s = build s.body s.last
  straight : ∀ i ∈ s.body, i.isTerminal = false

theorem IsCut.kind_eq (cut : s.IsCut) : s.kind = .ofLast s.last.op :=
  congrArg Segment.kind cut.built

theorem IsCut.effect_eq (cut : s.IsCut) : s.effect = Instruction.effectAll s.instructions :=
  congrArg Segment.effect cut.built

/-- The marker of an unreadable text is terminal, so it can only be the last instruction. -/
theorem IsCut.encoded_body (cut : s.IsCut)
    (read : ∀ i ∈ s.instructions, i.IsEncoded ∨ i.op = .invalid) : ∀ i ∈ s.body, i.IsEncoded := by
  intro i inside
  apply (read i (List.mem_append_left _ inside)).resolve_right
  intro marker
  have straight := cut.straight i inside
  rw [Instruction.isTerminal, marker] at straight
  cases straight

/-! ### Cutting -/

/-- The segments of a list of instructions that follows the unfinished segment `current`. -/
def splitAfter (current : List Instruction) : List Instruction → List Segment
  | [] =>
    match current.getLast? with
    | none => []
    | some last => [build current.dropLast last]
  | i :: rest =>
    if i.isJumpDest then
      match current.getLast? with
      | none => splitAfter [i] rest
      | some last => build current.dropLast last :: splitAfter [i] rest
    else if i.isTerminal then build current i :: splitAfter [] rest
    else splitAfter (current ++ [i]) rest

/-- The loop puts the segments that it cuts off behind those it has collected. -/
theorem splitOnto_eq (collected : List Segment) (current is : List Instruction) :
    splitOnto collected current is = collected ++ splitAfter current is := by
  fun_induction splitOnto collected current is with
  | case1 collected current empty => simp [splitAfter, empty]
  | case2 collected current last ends => simp [splitAfter, ends]
  | case3 collected current i rest dest empty ih => simp [splitAfter, dest, empty, ih]
  | case4 collected current i rest dest last ends ih => simp [splitAfter, dest, ends, ih]
  | case5 collected current i rest dest terminal ih => simp [splitAfter, dest, terminal, ih]
  | case6 collected current i rest dest terminal ih => simp [splitAfter, dest, terminal, ih]

theorem split_eq_splitAfter (is : List Instruction) : split is = splitAfter [] is := by
  rw [split, splitOnto_eq, List.nil_append]

/-- The segment made of the instructions of an unfinished one. -/
theorem instructions_build_dropLast {current : List Instruction} {last : Instruction}
    (h : current.getLast? = some last) :
    (build current.dropLast last).instructions = current := by
  obtain ⟨front, rfl⟩ := List.getLast?_eq_some_iff.mp h
  simp [build, instructions]

theorem instructions_splitAfter (current is : List Instruction) :
    (splitAfter current is).flatMap instructions = current ++ is := by
  fun_induction splitAfter current is with
  | case1 current none =>
      rw [List.getLast?_eq_none_iff.mp none]
      rfl
  | case2 current last found => simp [instructions_build_dropLast found]
  | case3 current i rest _ none ih =>
      rw [List.getLast?_eq_none_iff.mp none]
      simpa using ih
  | case4 current i rest _ last found ih =>
      rw [List.flatMap_cons, instructions_build_dropLast found, ih]
      rfl
  | case5 current i rest _ _ ih =>
      rw [List.flatMap_cons, ih]
      simp [build, instructions]
  | case6 current i rest _ _ ih =>
      rw [ih]
      simp

/-- Cutting keeps all instructions in their order. -/
theorem instructions_split (is : List Instruction) : (split is).flatMap instructions = is := by
  rw [split_eq_splitAfter, instructions_splitAfter, List.nil_append]

theorem isCut_build {body : List Instruction} (last : Instruction)
    (straight : ∀ i ∈ body, i.isTerminal = false) : (build body last).IsCut :=
  ⟨rfl, straight⟩

theorem isCut_splitAfter {current : List Instruction} (is : List Instruction)
    (straight : ∀ i ∈ current, i.isTerminal = false) :
    ∀ s ∈ splitAfter current is, s.IsCut := by
  have finished : ∀ (current : List Instruction) (last : Instruction),
      (∀ i ∈ current, i.isTerminal = false) → (build current.dropLast last).IsCut :=
    fun current last straight => isCut_build last fun i hi => straight i (List.dropLast_subset _ hi)
  have started : ∀ i : Instruction, i.isJumpDest = true → ∀ j ∈ [i], j.isTerminal = false := by
    intro i dest j hj
    rw [List.mem_singleton.mp hj]
    exact Instruction.isTerminal_of_isJumpDest dest
  fun_induction splitAfter current is with
  | case1 => simp
  | case2 current last found => simpa using finished current last straight
  | case3 current i rest dest none ih => exact ih (started i dest)
  | case4 current i rest dest last found ih =>
      exact List.forall_mem_cons.mpr ⟨finished current last straight, ih (started i dest)⟩
  | case5 current i rest _ _ ih =>
      exact List.forall_mem_cons.mpr ⟨isCut_build i straight, ih (by simp)⟩
  | case6 current i rest _ open_ ih =>
      refine ih fun j hj => ?_
      rcases List.mem_append.mp hj with old | new
      · exact straight j old
      · rw [List.mem_singleton.mp new]
        simpa using open_

theorem isCut_split (is : List Instruction) : ∀ s ∈ split is, s.IsCut := by
  rw [split_eq_splitAfter]
  exact isCut_splitAfter is (by simp)

/-! ### Addresses of segments -/

theorem start_eq (laid : Instruction.LaidOut a s.instructions) : s.start = a := by
  cases body : s.body with
  | nil =>
      simp only [instructions, body, List.nil_append, Instruction.LaidOut] at laid
      simpa [start, first, body] using laid.1
  | cons i rest =>
      simp only [instructions, body, List.cons_append, Instruction.LaidOut] at laid
      simpa [start, first, body] using laid.1

/-- The byte behind a segment. -/
theorem next_eq (laid : Instruction.LaidOut s.start s.instructions) :
    s.next = s.start + bytes s.instructions := by
  rw [instructions, Instruction.laidOut_append] at laid
  have last : s.last.address = s.start + bytes s.body := laid.2.1
  simp [next, Instruction.nextAddress, last, instructions, bytes, Nat.add_assoc]

theorem bytes_pos (s : Segment) : 0 < bytes s.instructions := by
  simp only [instructions, Instruction.bytes_append, bytes, Instruction.size]
  omega

/-- Segments that lie one behind the other start at increasing addresses. -/
theorem laidOut_flatMap {ss : List Segment}
    (laid : Instruction.LaidOut a (ss.flatMap instructions)) :
    (∀ s ∈ ss, a ≤ s.start ∧ Instruction.LaidOut s.start s.instructions) ∧
      ss.Pairwise fun s t => s.start < t.start := by
  induction ss generalizing a with
  | nil => simp
  | cons s rest ih =>
      rw [List.flatMap_cons, Instruction.laidOut_append] at laid
      have start := start_eq laid.1
      obtain ⟨others, ordered⟩ := ih laid.2
      have size := s.bytes_pos
      refine ⟨List.forall_mem_cons.mpr ⟨⟨by omega, start ▸ laid.1⟩, ?_⟩,
        List.pairwise_cons.mpr ⟨?_, ordered⟩⟩
      · intro t ht
        exact ⟨by have := (others t ht).1; omega, (others t ht).2⟩
      · intro t ht
        have := (others t ht).1
        omega

/-- Of segments that lie one behind the other each starts at the byte behind the one before. -/
theorem isChain_next {ss : List Segment} (laid : Instruction.LaidOut a (ss.flatMap instructions)) :
    ss.IsChain fun s t => t.start = s.next := by
  induction ss generalizing a with
  | nil => exact .nil
  | cons s rest ih =>
      rw [List.flatMap_cons, Instruction.laidOut_append] at laid
      obtain ⟨here, behind⟩ := laid
      refine List.isChain_cons.mpr ⟨fun t first => ?_, ih behind⟩
      obtain ⟨others, rfl⟩ := List.head?_eq_some_iff.mp first
      rw [List.flatMap_cons, Instruction.laidOut_append] at behind
      have start := start_eq here
      rw [start_eq behind.1, next_eq (start ▸ here), start]

theorem first_mem (s : Segment) : s.first ∈ s.instructions := by
  cases body : s.body <;> simp [first, instructions, body]

end Segment

/-! ### Programs -/

namespace Program

variable {p : Program} {s t : Segment}

/-- What reading a text makes sure of. -/
structure WellFormed (p : Program) : Prop where
  cut : ∀ s ∈ p.segments, s.IsCut
  read : ∀ s ∈ p.segments, ∀ i ∈ s.instructions, i.IsEncoded ∨ i.op = .invalid
  laid : ∀ s ∈ p.segments, Instruction.LaidOut s.start s.instructions
  ordered : p.segments.Pairwise fun s t => s.start < t.start

theorem instructions_ofCode (code : List Char) :
    (ofCode code).segments.flatMap Segment.instructions = disassemble code 0 :=
  Segment.instructions_split _

theorem wellFormed_ofCode (code : List Char) : (ofCode code).WellFormed := by
  have laid := Segment.laidOut_flatMap
    ((instructions_ofCode code).symm ▸ laidOut_disassemble code 0)
  refine ⟨Segment.isCut_split _, ?_, fun s hs => (laid.1 s hs).2, laid.2⟩
  intro s hs i hi
  have found : i ∈ disassemble code 0 := by
    rw [← instructions_ofCode]
    exact List.mem_flatMap_of_mem hs hi
  exact (disassemble_spec code 0 i found).1

/-- A text that is not empty has a first segment. -/
theorem segments_ofCode_pos {code : List Char} (nonempty : code ≠ []) :
    0 < (ofCode code).segments.length := by
  apply List.length_pos_iff.mpr
  intro none
  apply disassemble_ne_nil 0 nonempty
  rw [← instructions_ofCode, none]
  rfl

/-- A segment starts at the byte behind the one before. -/
theorem isChain_next_ofCode (code : List Char) :
    (ofCode code).segments.IsChain fun s t => t.start = s.next :=
  Segment.isChain_next ((instructions_ofCode code).symm ▸ laidOut_disassemble code 0)

/-- A segment starts within the text. -/
theorem start_lt_ofCode {code : List Char} (hs : s ∈ (ofCode code).segments) :
    2 * s.start < code.length := by
  have found : s.first ∈ disassemble code 0 := by
    rw [← instructions_ofCode]
    exact List.mem_flatMap_of_mem hs s.first_mem
  have within := (disassemble_spec code 0 _ found).2
  rwa [Nat.mul_zero, Nat.zero_add] at within

/-- The segment found at an address starts there. -/
theorem getElem?_of_segmentAt? {pc j : Nat} (place : p.segmentAt? pc = some j) :
    ∃ s, p.segments[j]? = some s ∧ s.start = pc := by
  obtain ⟨inside, start, -⟩ := List.findIdx?_eq_some_iff_getElem.mp place
  exact ⟨p.segments[j], List.getElem?_eq_getElem inside, by simpa using start⟩

namespace WellFormed

/-- Segments are told apart by where they start. -/
theorem start_injective (wf : p.WellFormed) (hs : s ∈ p.segments) (ht : t ∈ p.segments)
    (same : s.start = t.start) : s = t := by
  have nodup : (p.segments.map Segment.start).Nodup :=
    List.pairwise_map.mpr (wf.ordered.imp Nat.ne_of_lt)
  exact List.inj_on_of_nodup_map nodup hs ht same

theorem find?_start (wf : p.WellFormed) (hs : s ∈ p.segments) :
    (p.segments.find? fun t => t.start == s.start) = some s := by
  cases found : p.segments.find? fun t => t.start == s.start with
  | none =>
      have := List.find?_eq_none.mp found s hs
      simp at this
  | some t =>
      have same : t.start = s.start := by simpa using List.find?_some found
      rw [wf.start_injective (List.mem_of_find?_eq_some found) hs same]

theorem start_lt (wf : p.WellFormed) {i j : Nat} (hs : p.segments[i]? = some s)
    (ht : p.segments[j]? = some t) (before : i < j) : s.start < t.start := by
  obtain ⟨hi, rfl⟩ := List.getElem?_eq_some_iff.mp hs
  obtain ⟨hj, rfl⟩ := List.getElem?_eq_some_iff.mp ht
  exact List.pairwise_iff_getElem.mp wf.ordered i j hi hj before

/-- The segment that starts at an address is found by it. -/
theorem segmentAt?_start (wf : p.WellFormed) {j : Nat} (found : p.segments[j]? = some t) :
    p.segmentAt? t.start = some j := by
  obtain ⟨inside, rfl⟩ := List.getElem?_eq_some_iff.mp found
  apply List.findIdx?_eq_some_iff_getElem.mpr
  refine ⟨inside, beq_self_eq_true _, fun k before same => ?_⟩
  have lower := wf.start_lt (List.getElem?_eq_getElem (Nat.lt_trans before inside)) found before
  exact Nat.ne_of_lt lower (beq_iff_eq.mp same)

/-- A segment that has an exit holds no marker. -/
theorem encoded (wf : p.WellFormed) (hs : s ∈ p.segments) {e : Nat} (exit : e < s.exits) :
    ∀ i ∈ s.instructions, i.IsEncoded := by
  refine List.forall_mem_append.mpr
    ⟨(wf.cut s hs).encoded_body (wf.read s hs), List.forall_mem_singleton.mpr ?_⟩
  apply (wf.read s hs s.last (by simp [Segment.instructions])).resolve_right
  intro marker
  rw [Segment.exits, (wf.cut s hs).kind_eq, marker] at exit
  cases exit

end WellFormed

theorem mem_dests {v : Nat} :
    v ∈ p.dests ↔ ∃ s ∈ p.segments, s.first.isJumpDest = true ∧ s.start = v := by
  simp only [dests, Segment.dests, List.mem_flatMap, List.mem_ite_nil_right, List.mem_singleton,
    eq_comm]

/-- At a destination starts a segment, with `JUMPDEST`. -/
theorem segmentAt?_of_mem_dests (wf : p.WellFormed) {v : Nat} (dest : v ∈ p.dests) :
    ∃ j t, p.segments[j]? = some t ∧ t.first.isJumpDest = true ∧ p.segmentAt? v = some j := by
  obtain ⟨t, mem, first, rfl⟩ := mem_dests.mp dest
  obtain ⟨j, found⟩ := List.getElem?_of_mem mem
  exact ⟨j, t, found, first, wf.segmentAt?_start found⟩

end Program

end EvmFlow
