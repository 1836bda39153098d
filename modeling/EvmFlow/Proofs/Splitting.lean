import EvmFlow.Proofs.Layout
import Mathlib.Algebra.Ring.Int.Defs

/-!
# Cutting into segments

`IsSplitting` says how a list of instructions is cut, without the rules by which `Segment.split`
goes through it: the segments hold all instructions in their order, a jump destination can only come
first in a segment and a terminal instruction only last, and a cut is made only behind a terminal
instruction or before a destination. There is exactly one such list of segments.

That there is at most one is shown by joining: a segment that is cut in this way is found again at
the front of the list, whatever follows it, so splitting gives back the segments of any such list.
-/

namespace EvmFlow

open Segment

variable {is rest current body : List Instruction} {i last : Instruction} {s : Segment}
  {ss : List Segment}

/-- The kind of a segment by the byte of its last opcode: `JUMP`, `JUMPI`, `RETURN`, `REVERT` or
`STOP`, `INVALID`, and any other. -/
def SegmentKind.ofCode : Nat → SegmentKind
  | 0x56 => .jump
  | 0x57 => .jumpi
  | 0xf3 => .ret
  | 0xfd => .stop
  | 0x00 => .stop
  | 0xfe => .invalid
  | _ => .cont

/-- A list of segments into which a list of instructions is cut. -/
structure IsSplitting (is : List Instruction) (ss : List Segment) : Prop where
  /-- No instruction is lost. -/
  joined : ss.flatMap instructions = is
  /-- A jump destination is the first instruction of its segment. -/
  dest : ∀ s ∈ ss, ∀ i ∈ s.instructions.tail, i.isJumpDest = false
  /-- A terminal instruction is the last one of its segment. -/
  terminal : ∀ s ∈ ss, ∀ i ∈ s.instructions.dropLast, i.isTerminal = false
  /-- A segment that is not the last one is cut off for a reason. -/
  cut : ss.IsChain fun s t => s.last.isTerminal = true ∨ t.first.isJumpDest = true
  /-- The last opcode says how the segment is left. -/
  kind : ∀ s ∈ ss, s.kind = .ofCode s.last.op.code
  /-- The effects of the instructions add up. -/
  effect : ∀ s ∈ ss, s.effect = (s.instructions.map Instruction.effect).sum

/-! ### Segments -/

theorem SegmentKind.ofLast_eq (o : Opcode) : SegmentKind.ofLast o = .ofCode o.code := by
  simp only [ofLast, Opcode.isReturn, Opcode.isRevertStop, Opcode.isInvalid, Bool.or_eq_true,
    beq_iff_eq]
  generalize o.code = c
  fun_cases ofCode c with
  | case1 | case2 | case3 | case4 | case5 | case6 => rfl
  | case7 => simp_all

theorem Instruction.effectAll_eq_sum (is : List Instruction) :
    effectAll is = (is.map effect).sum := by
  induction is with
  | nil => rfl
  | cons i rest ih => rw [effectAll, ih, List.map_cons, List.sum_cons]

namespace Segment

@[simp] theorem dropLast_instructions (s : Segment) : s.instructions.dropLast = s.body :=
  List.dropLast_concat

/-- A segment is built from its instructions if its kind and its effect are theirs. -/
theorem eq_build_iff : s = build s.body s.last ↔
    s.kind = .ofCode s.last.op.code ∧ s.effect = (s.instructions.map Instruction.effect).sum := by
  rw [← SegmentKind.ofLast_eq, ← Instruction.effectAll_eq_sum]
  constructor
  · intro built
    exact ⟨congrArg kind built, congrArg effect built⟩
  · rintro ⟨kind, effect⟩
    cases s
    exact congrArg₂ (Segment.mk · _ _ ·) kind effect

/-- Whether destinations only come first, for the body and the last instruction apart. -/
theorem dest_iff : (∀ i ∈ s.instructions.tail, i.isJumpDest = false) ↔
    (∀ i ∈ s.body.tail, i.isJumpDest = false) ∧ (s.last.isJumpDest = true → s.body = []) := by
  cases body : s.body with
  | nil => simp [instructions, body]
  | cons first others => simp [instructions, body, or_imp, forall_and]

theorem head?_instructions (s : Segment) : s.instructions.head? = some s.first := by
  cases body : s.body <;> simp [instructions, first, body]

theorem head?_flatMap_instructions (ss : List Segment) :
    (ss.flatMap instructions).head? = ss.head?.map first := by
  cases ss with
  | nil => rfl
  | cons s rest => rw [List.flatMap_cons, List.head?_append, head?_instructions]; rfl

/-! ### Segments are found again -/

/-- Before a jump destination, or at the end, the unfinished segment is complete. -/
theorem splitAfter_concat (stops : ∀ i ∈ rest.head?, i.isJumpDest = true) :
    splitAfter (body ++ [last]) rest = build body last :: split rest := by
  cases rest with
  | nil => simp [split_eq_splitAfter, splitAfter]
  | cons i rest =>
      have dest : i.isJumpDest = true := stops i rfl
      simp [split_eq_splitAfter, splitAfter, dest]

/-- Instructions that are neither destinations nor terminal go to the unfinished segment. -/
theorem splitAfter_append {front : List Instruction}
    (inner : ∀ i ∈ front, i.isJumpDest = false ∧ i.isTerminal = false) :
    splitAfter current (front ++ rest) = splitAfter (current ++ front) rest := by
  induction front generalizing current with
  | nil => simp
  | cons i front ih =>
      obtain ⟨⟨dest, terminal⟩, others⟩ := List.forall_mem_cons.mp inner
      rw [List.cons_append, splitAfter, if_neg (by simp [dest]), if_neg (by simp [terminal]),
        ih others, List.append_assoc]
      rfl

/-- The body of a segment is taken up whether or not it starts with a destination. -/
theorem splitAfter_body (dest : ∀ i ∈ body.tail, i.isJumpDest = false)
    (terminal : ∀ i ∈ body, i.isTerminal = false) :
    splitAfter [] (body ++ rest) = splitAfter body rest := by
  cases body with
  | nil => rfl
  | cons first others =>
      obtain ⟨open_, terminal⟩ := List.forall_mem_cons.mp terminal
      have started : splitAfter [] (first :: (others ++ rest)) =
          splitAfter [first] (others ++ rest) := by
        simp [splitAfter, open_]
      have inner : ∀ i ∈ others, i.isJumpDest = false ∧ i.isTerminal = false :=
        fun i hi => ⟨dest i hi, terminal i hi⟩
      rw [List.cons_append, started, splitAfter_append inner]
      rfl

/-- The last instruction closes a segment if it is terminal, or if a destination or nothing
follows. -/
theorem splitAfter_last (dest : last.isJumpDest = true → body = [])
    (ends : last.isTerminal = true ∨ ∀ i ∈ rest.head?, i.isJumpDest = true) :
    splitAfter body (last :: rest) = build body last :: split rest := by
  cases isDest : last.isJumpDest with
  | true =>
      obtain rfl := dest isDest
      have open_ := Instruction.isTerminal_of_isJumpDest isDest
      have stops := ends.resolve_left (by simp [open_])
      rw [splitAfter, if_pos isDest]
      have alone : splitAfter ([] ++ [last]) rest = build [] last :: split rest :=
        splitAfter_concat stops
      exact alone
  | false =>
      rw [splitAfter, if_neg (by simp [isDest])]
      cases terminal : last.isTerminal with
      | true => rw [if_pos rfl, split_eq_splitAfter]
      | false =>
          have stops := ends.resolve_left (by simp [terminal])
          exact splitAfter_concat stops

/-- A segment is found again at the front of a list. -/
theorem split_instructions_append (built : s = build s.body s.last)
    (dest : ∀ i ∈ s.instructions.tail, i.isJumpDest = false)
    (terminal : ∀ i ∈ s.body, i.isTerminal = false)
    (ends : s.last.isTerminal = true ∨ ∀ i ∈ rest.head?, i.isJumpDest = true) :
    split (s.instructions ++ rest) = s :: split rest := by
  obtain ⟨inner, closing⟩ := dest_iff.mp dest
  rw [split_eq_splitAfter, instructions, List.append_assoc, splitAfter_body inner terminal,
    List.singleton_append, splitAfter_last closing ends, ← built]

end Segment

/-- What follows the first segment is cut in the same way. -/
theorem IsSplitting.tail (splitting : IsSplitting is (s :: ss)) :
    IsSplitting (ss.flatMap instructions) ss where
  joined := rfl
  dest t ht := splitting.dest t (List.mem_cons_of_mem s ht)
  terminal t ht := splitting.terminal t (List.mem_cons_of_mem s ht)
  cut := splitting.cut.tail
  kind t ht := splitting.kind t (List.mem_cons_of_mem s ht)
  effect t ht := splitting.effect t (List.mem_cons_of_mem s ht)

/-- The first segment is cut off behind a terminal instruction or before a destination. -/
theorem IsSplitting.ends (splitting : IsSplitting is (s :: ss)) :
    s.last.isTerminal = true ∨ ∀ i ∈ (ss.flatMap instructions).head?, i.isJumpDest = true := by
  rw [head?_flatMap_instructions]
  cases ss with
  | nil => exact .inr (by simp)
  | cons t rest =>
      apply ((List.isChain_cons.mp splitting.cut).1 t rfl).imp_right
      rintro dest i ⟨⟩
      exact dest

/-- Splitting gives back the segments of any list that is cut in this way. -/
theorem IsSplitting.split_eq (splitting : IsSplitting is ss) : split is = ss := by
  induction ss generalizing is with
  | nil =>
      rw [← splitting.joined]
      rfl
  | cons s rest ih =>
      have built : s = build s.body s.last :=
        eq_build_iff.mpr ⟨splitting.kind s List.mem_cons_self, splitting.effect s List.mem_cons_self⟩
      have dest := splitting.dest s List.mem_cons_self
      have terminal := splitting.terminal s List.mem_cons_self
      rw [dropLast_instructions] at terminal
      rw [← splitting.joined, List.flatMap_cons,
        split_instructions_append built dest terminal splitting.ends, ih splitting.tail]

/-! ### Splitting cuts -/

namespace Segment

/-- Destinations only come first. -/
theorem dest_splitAfter (is : List Instruction)
    (inner : ∀ i ∈ current.tail, i.isJumpDest = false) :
    ∀ s ∈ splitAfter current is, ∀ i ∈ s.instructions.tail, i.isJumpDest = false := by
  -- The hypothesis on the unfinished segment is what the recursion keeps when it grows.
  have extended : ∀ (current : List Instruction) (i : Instruction),
      (∀ j ∈ current.tail, j.isJumpDest = false) → ¬ i.isJumpDest = true →
        ∀ j ∈ (current ++ [i]).tail, j.isJumpDest = false := by
    intro current i inner other
    cases current with
    | nil => simp
    | cons first others =>
        exact List.forall_mem_append.mpr ⟨inner, by simpa using other⟩
  fun_induction splitAfter current is with
  | case1 => simp
  | case2 current last found =>
      rw [List.forall_mem_singleton, instructions_build_dropLast found]
      exact inner
  | case3 current i rest dest none ih => exact ih (by simp)
  | case4 current i rest dest last found ih =>
      rw [List.forall_mem_cons, instructions_build_dropLast found]
      exact ⟨inner, ih (by simp)⟩
  | case5 current i rest other _ ih =>
      exact List.forall_mem_cons.mpr ⟨extended current i inner other, ih (by simp)⟩
  | case6 current i rest other _ ih => exact ih (extended current i inner other)

theorem cut_splitAfter (current is : List Instruction) :
    (splitAfter current is).IsChain
      fun s t => s.last.isTerminal = true ∨ t.first.isJumpDest = true := by
  fun_induction splitAfter current is with
  | case1 => exact .nil
  | case2 current last found => exact .singleton _
  | case3 current i rest dest none ih => exact ih
  | case4 current i rest dest last found ih =>
      refine List.isChain_cons.mpr ⟨fun t first => .inr ?_, ih⟩
      -- No instruction is lost, so the next segment starts with the destination.
      have head := head?_flatMap_instructions (splitAfter [i] rest)
      rw [instructions_splitAfter, first] at head
      cases head
      exact dest
  | case5 current i rest _ terminal ih =>
      exact List.isChain_cons.mpr ⟨fun t _ => .inl terminal, ih⟩
  | case6 current i rest _ _ ih => exact ih

theorem isSplitting_split (is : List Instruction) : IsSplitting is (split is) := by
  refine ⟨instructions_split is, ?_, ?_, ?_,
    fun s hs => (eq_build_iff.mp (isCut_split is s hs).built).1,
    fun s hs => (eq_build_iff.mp (isCut_split is s hs).built).2⟩
  · rw [split_eq_splitAfter]
    exact dest_splitAfter is (by simp)
  · intro s hs
    rw [dropLast_instructions]
    exact (isCut_split is s hs).straight
  · rw [split_eq_splitAfter]
    exact cut_splitAfter [] is

end Segment

/-- There is exactly one way to cut a list of instructions, and splitting finds it. -/
theorem isSplitting_iff_eq_split (is : List Instruction) (ss : List Segment) :
    IsSplitting is ss ↔ ss = split is := by
  constructor
  · intro splitting
    exact splitting.split_eq.symm
  · rintro rfl
    exact isSplitting_split is

/-- Cut behind a jump, between two destinations, and at the end. -/
example : (split (disassemble "34565b5b00".toList 0)).map (fun s => (s.kind, s.start)) =
    [(.jump, 0), (.cont, 2), (.stop, 3)] := by
  decide +kernel

end EvmFlow
