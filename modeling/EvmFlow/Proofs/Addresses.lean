import EvmFlow.Proofs.Disassembly
import EvmFlow.Proofs.Splitting
import Mathlib.Logic.Function.Basic

/-!
# Addresses of segments and destinations

Three passes have to agree on where things are. Disassembly gives every instruction its address,
splitting cuts the instructions into segments, and what the program knows of addresses, its list of
destinations and its table of starts, is read off the segments. `HasLayout` says what comes of the
three together.

Destinations are looked for at the first instruction of each segment only. None is missed, since
cutting leaves no `JUMPDEST` inside a segment, and none is made up, since the bytes of an argument
are no boundary of the text. The table of starts is filled by `enter`, where a later segment would
take the place of an earlier one at the same address; the sizes of the segments keep them apart.
-/

namespace EvmFlow

/-! ### Destinations in the text -/

section Text

variable {s : List Char} {n k v : Nat} {is : List Instruction}

/-- The byte of `JUMPDEST` has no argument, so it is an instruction wherever it can be read. -/
theorem Instruction.writtenAt_jumpDest (byte : byteAt? s k = some 0x5b) (a : Nat) :
    WrittenAt s k ⟨.ofByte 0x5b, [], a⟩ :=
  ⟨⟨0x5b, byte, rfl⟩, rfl, rfl, rfl⟩

theorem Instruction.WrittenAt.isJumpDest_iff {i : Instruction} (written : i.WrittenAt s k) :
    i.isJumpDest = true ↔ byteAt? s k = some 0x5b := by
  constructor
  · intro dest
    obtain ⟨b, byte, op⟩ := written.opcode
    rw [isJumpDest, op, Opcode.isJumpDest, beq_iff_eq] at dest
    rcases Opcode.code_ofByte b with own | undefined
    · rw [byte, ← own, dest]
    · rw [undefined] at dest
      cases dest
  · intro byte
    rw [isJumpDest, written.op_unique (writtenAt_jumpDest byte 0)]
    rfl

/-- Among what is read from an offset on, the destinations are those that the text has at the
boundaries from there on. -/
theorem Reading.jumpDest_iff (reading : Reading s n k is) :
    (∃ i ∈ is, i.isJumpDest = true ∧ i.address = n + v) ↔
      Relation.ReflTransGen (Follows s) k v ∧ byteAt? s v = some 0x5b := by
  -- Where reading ends there is no further boundary, and `JUMPDEST` would have been read.
  have ended : ∀ {k : Nat}, (∀ m, ¬ Follows s k m) →
      ¬ (Relation.ReflTransGen (Follows s) k v ∧ byteAt? s v = some 0x5b) := by
    rintro k ends ⟨reaches, byte⟩
    rcases reaches.cases_head with rfl | ⟨m, follows, -⟩
    · exact ends _ ⟨_, Instruction.writtenAt_jumpDest byte 0, rfl⟩
    · exact ends m follows
  induction reading with
  | finished whole => simpa using ended (not_follows_end whole)
  | @stuck k u why =>
      have marker : (u.marker (n + k)).isJumpDest = false := rfl
      simpa [marker] using ended why.not_follows
  | @read k i is written place _ ih =>
      rw [List.exists_mem_cons_iff]
      refine (or_congr_right ih).trans ?_
      constructor
      · rintro (⟨dest, here⟩ | ⟨reaches, byte⟩)
        · obtain rfl : v = k := by omega
          exact ⟨.refl, written.isJumpDest_iff.mp dest⟩
        · exact ⟨.head ⟨i, written, rfl⟩ reaches, byte⟩
      · rintro ⟨reaches, byte⟩
        rcases reaches.cases_head with rfl | ⟨m, follows, behind⟩
        · exact .inl ⟨written.isJumpDest_iff.mpr byte, place⟩
        · obtain rfl := follows_rightUnique s follows ⟨i, written, rfl⟩
          exact .inr ⟨behind, byte⟩

end Text

/-! ### Destinations of segments -/

namespace Segment

variable {s : Segment}

/-- The destinations of a segment, if only its first instruction can be one. -/
theorem dests_eq_filter (inner : ∀ i ∈ s.instructions.tail, i.isJumpDest = false) :
    s.dests = (s.instructions.filter Instruction.isJumpDest).map Instruction.address := by
  obtain ⟨rest, shape⟩ := List.head?_eq_some_iff.mp s.head?_instructions
  rw [shape, List.tail_cons] at inner
  have none : rest.filter Instruction.isJumpDest = [] :=
    List.filter_eq_nil_iff.mpr fun i hi => by simp [inner i hi]
  rw [shape, List.filter_cons, none, dests]
  split <;> rfl

end Segment

namespace Program

/-- Destinations are in the order of the segments. -/
theorem dests_sublist (p : Program) : p.dests.Sublist (p.segments.map Segment.start) := by
  rw [dests, List.map_eq_flatMap]
  induction p.segments with
  | nil => exact .slnil
  | cons s rest ih =>
      rw [List.flatMap_cons, List.flatMap_cons]
      refine .append ?_ ih
      rw [Segment.dests]
      split
      · exact .refl _
      · exact List.nil_sublist _

/-! ### The table of starts -/

/-- The table after segments, numbered from `k` on, have been entered one after the other. A segment
takes the place of what the table has at its start. -/
def enter (table : Nat → Option Nat) : Nat → List Segment → Nat → Option Nat
  | _, [] => table
  | k, s :: rest => enter (Function.update table s.start (some k)) (k + 1) rest

/-- Looking in the table for an address is looking for the first segment that starts there. -/
theorem lookup_starts (p : Program) (pc : Nat) : p.starts.lookup pc = p.segmentAt? pc := by
  have numbered : ∀ (ss : List Segment) (k : Nat),
      ((ss.zipIdx k).map fun e => (e.1.start, e.2)).lookup pc =
        (ss.findIdx? fun s => s.start == pc).map (· + k) := by
    intro ss
    induction ss with
    | nil => exact fun _ => rfl
    | cons s rest ih =>
        intro k
        rw [List.zipIdx_cons, List.map_cons, List.lookup_cons, List.findIdx?_cons, ih]
        by_cases here : s.start = pc
        · simp [here]
        · have other : (pc == s.start) = false := beq_false_of_ne (Ne.symm here)
          simp [here, other, Function.comp_def, Nat.add_assoc, Nat.add_comm 1]
  rw [starts, segmentAt?, numbered]
  simp

/-- Where no two segments start at one address, nothing that was entered is replaced. -/
theorem enter_eq {ss : List Segment} (apart : (ss.map Segment.start).Nodup)
    (table : Nat → Option Nat) (k pc : Nat) :
    enter table k ss pc = ((ss.findIdx? fun s => s.start == pc).map (· + k)).or (table pc) := by
  induction ss generalizing table k with
  | nil => rfl
  | cons s rest ih =>
      obtain ⟨fresh, apart⟩ := List.nodup_cons.mp apart
      rw [enter, ih apart, List.findIdx?_cons, Function.update_apply]
      by_cases here : s.start = pc
      · have behind : (rest.findIdx? fun t => t.start == pc) = none := by
          apply List.findIdx?_eq_none_iff.mpr
          intro t ht
          have other : t.start ≠ pc := fun same =>
            fresh (here ▸ same ▸ List.mem_map_of_mem ht)
          simpa using other
        simp [here, behind]
      · simp [here, Ne.symm here, Function.comp_def, Nat.add_assoc, Nat.add_comm 1]

/-! ### The layout of a program -/

/-- How a program lies in the text that it was read from. -/
structure HasLayout (code : List Char) (p : Program) : Prop where
  /-- Segments start at increasing addresses. -/
  increasing : (p.segments.map Segment.start).Pairwise (· < ·)
  /-- A segment ends behind its bytes. -/
  ends : ∀ s ∈ p.segments, s.next = s.start + s.size
  /-- The next one starts there. -/
  contiguous : ∀ k s t, p.segments[k]? = some s → p.segments[k + 1]? = some t → t.start = s.next
  /-- The destinations are the addresses of all `JUMPDEST` instructions. -/
  dests_eq : p.dests =
    ((disassemble code 0).filter Instruction.isJumpDest).map Instruction.address
  dests_increasing : p.dests.Pairwise (· < ·)
  /-- They are the boundaries of the text at which the byte of `JUMPDEST` stands. -/
  dest_iff : ∀ v, v ∈ p.dests ↔ Boundary code v ∧ byteAt? code v = some 0x5b
  /-- The table has the starts as its keys. -/
  keys : p.starts.map Prod.fst = p.segments.map Segment.start
  /-- It leads from the start of a segment to its number. -/
  lookup : ∀ k s, p.segments[k]? = some s → p.starts.lookup s.start = some k
  /-- Filling it replaces nothing. -/
  entered : ∀ pc, enter (fun _ => none) 0 p.segments pc = p.starts.lookup pc
  /-- It has every destination, and the segment that starts there begins with `JUMPDEST`. -/
  dest : ∀ v ∈ p.dests, ∃ k s, p.starts.lookup v = some k ∧ p.segments[k]? = some s ∧
    s.start = v ∧ s.first.isJumpDest = true

theorem dests_ofCode (code : List Char) : (ofCode code).dests =
    ((disassemble code 0).filter Instruction.isJumpDest).map Instruction.address := by
  have cut := Segment.isSplitting_split (disassemble code 0)
  rw [← instructions_ofCode, List.filter_flatMap, List.map_flatMap]
  exact List.flatMap_congr fun s hs => Segment.dests_eq_filter (cut.dest s hs)

theorem mem_dests_ofCode (code : List Char) (v : Nat) :
    v ∈ (ofCode code).dests ↔ Boundary code v ∧ byteAt? code v = some 0x5b := by
  rw [dests_ofCode, Boundary, ← (reading_start code 0).jumpDest_iff]
  simp only [List.mem_map, List.mem_filter, Nat.zero_add, and_assoc]

/-- Every text gives a program that is laid out in it. -/
theorem hasLayout_ofCode (code : List Char) : HasLayout code (ofCode code) := by
  have wf := wellFormed_ofCode code
  have increasing : ((ofCode code).segments.map Segment.start).Pairwise (· < ·) :=
    List.pairwise_map.mpr wf.ordered
  have chain := isChain_next_ofCode code
  constructor
  case increasing => exact increasing
  case ends =>
    intro s hs
    exact Segment.next_eq (wf.laid s hs)
  case contiguous =>
    intro k s t here behind
    obtain ⟨_, rfl⟩ := List.getElem?_eq_some_iff.mp here
    obtain ⟨another, rfl⟩ := List.getElem?_eq_some_iff.mp behind
    exact chain.getElem k another
  case dests_eq => exact dests_ofCode code
  case dests_increasing => exact increasing.sublist (dests_sublist _)
  case dest_iff => exact mem_dests_ofCode code
  case keys =>
    rw [starts, List.map_map, ← List.zipIdx_map_fst 0 (ofCode code).segments, List.map_map]
    simp [Function.comp_def]
  case lookup =>
    intro k s found
    rw [lookup_starts]
    exact wf.segmentAt?_start found
  case entered =>
    intro pc
    rw [enter_eq (increasing.imp Nat.ne_of_lt), lookup_starts, segmentAt?]
    simp
  case dest =>
    intro v dest
    obtain ⟨k, s, found, first, place⟩ := segmentAt?_of_mem_dests wf dest
    obtain ⟨t, found', start⟩ := getElem?_of_segmentAt? place
    obtain rfl : s = t := Option.some.inj (found.symm.trans found')
    exact ⟨k, s, (lookup_starts _ v).trans place, found, start, first⟩

/-- The first `5b` is the argument of `PUSH1`. -/
example : (ofCode "605b5b00".toList).dests = [2] := by
  decide +kernel

end Program

end EvmFlow
