import EvmFlow.Program.Basic
import Mathlib.Data.List.Basic

/-!
# Where the search for a loop ends

`Program.loopStart` goes through the nodes of a path that belong to a segment. From each of them
the rest of the path either closes to a loop that keeps its own condition, and the search ends, or
is given up for the next one. The answer counts nodes from the last one given up on. So it is the
position of the loop in the path only if none was (`loopStart_eq_some`).
-/

namespace EvmFlow.Program

variable {p : Program} {i : Nat}

/-- A path starts at a segment, and the loop that a step back to the segment makes of it keeps its
own condition. -/
def Closes (p : Program) (i : Nat) (nodes : List Node) (exits : List Nat) : Prop :=
  nodes.head?.bind Node.segment? = some i ∧
    match p.closing i nodes exits with
    | .always => True
    | .never => False
    | .tracked es => p.preserves (.tracked es) exits (p.startOf i) = true

/-- A path starts at a segment and could be closed, but one turn of the loop does not keep the
condition. -/
def GivenUp (p : Program) (i : Nat) (nodes : List Node) (exits : List Nat) : Prop :=
  nodes.head?.bind Node.segment? = some i ∧
    match p.closing i nodes exits with
    | .tracked es => p.preserves (.tracked es) exits (p.startOf i) = false
    | _ => False

/-- The loop that the search has found starts as many nodes behind the place from which it counts
as the answer says: the place where the search started, or the node behind one given up. -/
theorem loopFrom_eq_some {k n : Nat} {nodes : List Node} {exits : List Nat}
    (h : p.loopFrom i k nodes exits = some n) :
    (∃ j, n = k + j ∧ p.Closes i (nodes.drop j) (exits.drop j)) ∨
      ∃ r, p.GivenUp i (nodes.drop r) (exits.drop r) ∧
        p.Closes i (nodes.drop (r + 1 + n)) (exits.drop (r + 1 + n)) := by
  induction nodes generalizing k exits with
  | nil => cases h
  | cons g rest ih =>
      cases g with
      | failed => cases h
      | «at» s stack =>
          have behind : ∀ j, (exits.drop 1).drop j = exits.drop (j + 1) := by
            intro j
            rw [List.drop_drop, Nat.add_comm]
          unfold loopFrom at h
          by_cases candidate : s = i
          · subst candidate
            rw [if_pos rfl] at h
            cases closing : p.closing s (.at s stack :: rest) exits with
            | always =>
                rw [closing] at h
                cases h
                exact .inl ⟨0, rfl, rfl, by simp [closing]⟩
            | never =>
                rw [closing] at h
                cases h
            | tracked es =>
                simp only [closing] at h
                by_cases keeps : p.preserves (.tracked es) exits (p.startOf s) = true
                · rw [if_pos keeps] at h
                  cases h
                  exact .inl ⟨0, rfl, rfl, by simp [closing, keeps]⟩
                · -- The count starts again behind this node.
                  rw [if_neg keeps] at h
                  have given : p.GivenUp s (.at s stack :: rest) exits :=
                    ⟨rfl, by simpa [closing] using keeps⟩
                  rcases ih h with ⟨j, rfl, closes⟩ | ⟨r, given', closes⟩
                  · rw [behind] at closes
                    refine .inr ⟨0, given, ?_⟩
                    rw [show 0 + 1 + (0 + j) = j + 1 by omega]
                    exact closes
                  · rw [behind] at given' closes
                    refine .inr ⟨r + 1, given', ?_⟩
                    rw [show r + 1 + 1 + n = r + 1 + n + 1 by omega]
                    exact closes
          · rw [if_neg candidate] at h
            rcases ih h with ⟨j, rfl, closes⟩ | ⟨r, given, closes⟩
            · rw [behind] at closes
              exact .inl ⟨j + 1, by omega, closes⟩
            · rw [behind] at given closes
              refine .inr ⟨r + 1, given, ?_⟩
              rw [show r + 1 + 1 + n = r + 1 + n + 1 by omega]
              exact closes

/-- The answer of the search is the position of the loop, or it counts from behind a node that was
given up. -/
theorem loopStart_eq_some {n : Nat} {nodes : List Node} {exits : List Nat}
    (h : p.loopStart i nodes exits = some n) :
    p.Closes i (nodes.drop n) (exits.drop n) ∨
      ∃ r, p.GivenUp i (nodes.drop r) (exits.drop r) ∧
        p.Closes i (nodes.drop (r + 1 + n)) (exits.drop (r + 1 + n)) := by
  rcases loopFrom_eq_some h with ⟨j, rfl, closes⟩ | shifted
  · rw [Nat.zero_add]
    exact .inl closes
  · exact .inr shifted

/-- A loop starts at a node of its segment. -/
theorem Closes.segment_eq {n : Nat} {nodes : List Node} {exits : List Nat}
    (h : p.Closes i (nodes.drop n) exits) :
    ∃ g, nodes[n]? = some g ∧ g.segment? = some i := by
  have head := h.1
  rw [List.head?_drop] at head
  exact Option.bind_eq_some_iff.mp head

end EvmFlow.Program
