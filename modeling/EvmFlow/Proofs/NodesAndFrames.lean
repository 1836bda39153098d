import EvmFlow.Proofs.LoopInvariant
import Mathlib.Tactic.TFAE

/-!
# Running on nodes and running on frames

A program runs in two ways. `Program.successors` goes from node to node and knows segments by
their numbers; `nodeAfter?` follows it along a list of exits. `Program.run` goes from frame to frame
and finds segments by the address in the program counter. Both leave a segment in the same way, so
what has to be shown is that looking up an address undoes taking the start of a segment. It does in
programs that were read from a text, where no two segments start at one address.

The two part where no segment starts: on nodes the run has failed there, on frames it has not until
an exit is asked for. Neither is counted as having arrived.
-/

namespace EvmFlow.Program

variable {p : Program} {s : Segment} {e i j pc : Nat} {stack back : List Cell} {f h : Frame}
variable {exits : List Nat}

/-- The node at which following exits from a node ends. There is none when an exit is missing, and a
failed node has no exits. -/
def nodeAfter? (p : Program) : List Nat → Node → Option Node
  | [], g => some g
  | e :: rest, g => (p.successors g)[e]?.bind (p.nodeAfter? rest)

/-! ### Addresses and segment numbers -/

theorem exists_start_iff :
    (∃ s, p.segments[j]? = some s ∧ s.start = pc) ↔ j < p.segments.length ∧ pc = p.startOf j := by
  constructor
  · rintro ⟨s, found, rfl⟩
    exact ⟨(List.getElem?_eq_some_iff.mp found).1, (startOf_eq found).symm⟩
  · rintro ⟨inside, rfl⟩
    have found := List.getElem?_eq_getElem inside
    exact ⟨p.segments[j], found, (startOf_eq found).symm⟩

/-- Looking up an address undoes taking the start of a segment. -/
theorem WellFormed.segmentAt?_eq_some_iff (wf : p.WellFormed) :
    p.segmentAt? pc = some j ↔ j < p.segments.length ∧ pc = p.startOf j := by
  rw [← exists_start_iff]
  constructor
  · exact getElem?_of_segmentAt?
  · rintro ⟨s, found, rfl⟩
    exact wf.segmentAt?_start found

theorem mem_starts : (pc, j) ∈ p.starts ↔ j < p.segments.length ∧ pc = p.startOf j := by
  rw [← exists_start_iff]
  simp [starts, List.mem_zipIdx_iff_getElem?]

/-! ### One exit -/

/-- No exit leads out of a failed node. -/
theorem nodeAfter?_failed (p : Program) (exits : List Nat) (m : String) :
    p.nodeAfter? exits (.failed m) ≠ some (.at j back) := by
  cases exits with
  | nil => simp [nodeAfter?]
  | cons e rest => simp [nodeAfter?, successors]

theorem nodeAfter?_cons_iff (found : p.segments[i]? = some s) :
    p.nodeAfter? (e :: exits) (.at i stack) = some (.at j back) ↔
      e < s.exits ∧ ∃ f k, s.run p.dests e ⟨s.start, stack⟩ = .running f ∧
        p.segmentAt? f.pc = some k ∧ p.nodeAfter? exits (.at k f.stack) = some (.at j back) := by
  rw [nodeAfter?, getElem?_successors found]
  by_cases exit : e < s.exits
  · rw [if_pos exit, Option.bind_some]
    cases s.run p.dests e ⟨s.start, stack⟩ with
    | failed m => simpa [locate] using nodeAfter?_failed p exits m
    | running f =>
        rw [locate]
        cases place : p.segmentAt? f.pc with
        | none => simpa [place] using nodeAfter?_failed p exits _
        | some k => simp [exit, place]
  · simp [exit]

/-- A run on frames goes on only where a segment starts, and so does not leave such places in order
to come to one. -/
theorem segmentAt?_of_run (run : p.run exits f = .running h) (place : p.segmentAt? h.pc = some j) :
    ∃ k, p.segmentAt? f.pc = some k := by
  cases exits with
  | nil =>
      cases run
      exact ⟨j, place⟩
  | cons e rest =>
      obtain ⟨s, _, found, -⟩ := run_cons_iff.mp run
      apply Option.isSome_iff_exists.mp
      rw [segmentAt?, List.findIdx?_isSome, List.any_eq_true]
      have start := List.find?_some found
      exact ⟨s, List.mem_of_find?_eq_some found, start⟩

/-! ### Any number of exits -/

/-- The exits lead from node to node exactly as they lead from frame to frame. -/
theorem nodeAfter?_eq_some_iff (wf : p.WellFormed) (found : p.segments[i]? = some s) :
    p.nodeAfter? exits (.at i stack) = some (.at j back) ↔
      ∃ pc, p.run exits ⟨s.start, stack⟩ = .running ⟨pc, back⟩ ∧ p.segmentAt? pc = some j := by
  induction exits generalizing i s stack with
  | nil =>
      have here := wf.segmentAt?_start found
      constructor
      · intro after
        cases after
        exact ⟨s.start, rfl, here⟩
      · rintro ⟨pc, run, place⟩
        cases run
        obtain rfl : i = j := Option.some.inj (here.symm.trans place)
        rfl
  | cons e rest ih =>
      have here := wf.find?_start (List.mem_of_getElem? found)
      rw [nodeAfter?_cons_iff found]
      constructor
      · rintro ⟨exit, f, k, step, place, after⟩
        obtain ⟨t, next, start⟩ := getElem?_of_segmentAt? place
        obtain ⟨pc, run, arrived⟩ := (ih next).mp after
        rw [start] at run
        exact ⟨pc, run_cons_iff.mpr ⟨s, f, here, exit, step, run⟩, arrived⟩
      · rintro ⟨pc, run, arrived⟩
        obtain ⟨s', f, found', exit, step, run⟩ := run_cons_iff.mp run
        obtain rfl : s = s' := Option.some.inj (here.symm.trans found')
        obtain ⟨k, place⟩ := segmentAt?_of_run run arrived
        obtain ⟨t, next, start⟩ := getElem?_of_segmentAt? place
        refine ⟨exit, f, k, step, place, (ih next).mpr ⟨pc, ?_, arrived⟩⟩
        rw [start]
        exact run

/-- Following exits from a node of segment `i` ends at a node of segment `j` exactly if running them
from the start of segment `i` ends with its stack at an address where `j` is found; that is, which
the table of starts lists with `j`; that is, at the start of segment `j`. -/
theorem nodeAfter?_iff_run (code : List Char) {i : Nat} (inside : i < (ofCode code).segments.length)
    (stack : List Cell) (exits : List Nat) (j : Nat) (back : List Cell) :
    let p := ofCode code
    [ p.nodeAfter? exits (.at i stack) = some (.at j back),
      ∃ pc, p.run exits ⟨p.startOf i, stack⟩ = .running ⟨pc, back⟩ ∧ p.segmentAt? pc = some j,
      ∃ pc, p.run exits ⟨p.startOf i, stack⟩ = .running ⟨pc, back⟩ ∧ (pc, j) ∈ p.starts,
      j < p.segments.length ∧
        p.run exits ⟨p.startOf i, stack⟩ = .running ⟨p.startOf j, back⟩ ].TFAE := by
  intro p
  have wf : p.WellFormed := wellFormed_ofCode code
  have found : p.segments[i]? = some p.segments[i] := List.getElem?_eq_getElem inside
  tfae_have 1 ↔ 2 := by
    rw [startOf_eq found]
    exact nodeAfter?_eq_some_iff wf found
  tfae_have 2 ↔ 3 := by
    simp only [wf.segmentAt?_eq_some_iff, mem_starts]
  tfae_have 2 ↔ 4 := by
    simp only [wf.segmentAt?_eq_some_iff]
    constructor
    · rintro ⟨pc, run, inside, rfl⟩
      exact ⟨inside, run⟩
    · rintro ⟨inside, run⟩
      exact ⟨p.startOf j, run, inside, rfl⟩
  tfae_finish

/-- A call that comes back: the first segment jumps to the second and leaves its address for it, and
the second jumps to itself. -/
theorem nodeAfter?_iff_run_of_return :
    let p := ofCode "600760073490575b56".toList
    0 < p.segments.length ∧ p.nodeAfter? [1, 0] (.at 0 []) = some (.at 1 []) ∧
      1 < p.segments.length ∧ p.run [1, 0] ⟨p.startOf 0, []⟩ = .running ⟨p.startOf 1, []⟩ := by
  intro p
  have inside : 0 < p.segments.length := by decide +kernel
  have after : p.nodeAfter? [1, 0] (.at 0 []) = some (.at 1 []) := by decide +kernel
  have agree := nodeAfter?_iff_run "600760073490575b56".toList inside [] [1, 0] 1 []
  exact ⟨inside, after, (agree.out 0 3).mp after⟩

end EvmFlow.Program
