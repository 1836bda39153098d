import EvmFlow.Proofs.Exploration
import EvmFlow.Proofs.LoopSearch

/-!
# Edges and exits

An edge of an explored graph should lead where an exit of its source leads: to the node behind the
exit, or to another node of the same segment that stands for it. Edges that were not folded do,
and so do folds to the first candidate of the search for a loop. But when the search has given up
a candidate, its answer is counted from there and taken as a position of the whole path, and the
edge may lead to any segment on the path. `edges_alongExit_iff` says that the edges of a graph all
lead along exits exactly if none of these folds goes astray.
-/

namespace EvmFlow

/-- Two nodes belong to one segment. -/
def Node.SameSegment (g h : Node) : Prop := ∃ i, g.segment? = some i ∧ h.segment? = some i

theorem Node.SameSegment.refl {g : Node} (running : g.isFailed = false) : g.SameSegment g := by
  cases g with
  | «at» i stack => exact ⟨i, rfl, rfl⟩
  | failed => cases running

/-- An exit of the first node leads to the second, or to a node of the same segment. -/
def Program.AlongExit (p : Program) (q t : Node) : Prop :=
  ∃ (e : Nat) (h : Node), (p.successors q)[e]? = some h ∧ (h = t ∨ h.SameSegment t)

theorem Program.AlongExit.exists_sameSegment {p : Program} {q t : Node}
    (along : p.AlongExit q t) (running : t.isFailed = false) :
    ∃ h ∈ p.successors q, h.SameSegment t := by
  obtain ⟨e, h, exit, rfl | same⟩ := along
  · exact ⟨h, List.mem_of_getElem? exit, .refl running⟩
  · exact ⟨h, List.mem_of_getElem? exit, same⟩

namespace Move

variable {p : Program} {m : Move}

/-- A fold to position `k` of the path, made after the candidate at position `r` was given up. The
loop that was found starts at position `r + 1 + k`. -/
structure Shifted (p : Program) (m : Move) (i r k : Nat) : Prop where
  fate : m.fate = .folded k
  segment : m.node.segment? = some i
  given : p.GivenUp i (m.path.nodes.drop r) ((m.path.exits ++ [m.exit]).drop r)
  closes : p.Closes i (m.path.nodes.drop (r + 1 + k)) ((m.path.exits ++ [m.exit]).drop (r + 1 + k))

theorem Legal.alongExit_of_target_eq (legal : m.Legal p) (target : m.target = m.node) :
    p.AlongExit m.source m.target :=
  ⟨m.exit, m.node, legal.step, .inl target.symm⟩

/-- A fold leads to the segment of the exit that it stands for, or it is shifted. -/
theorem Legal.fold_cases (legal : m.Legal p) {k : Nat} (fate : m.fate = .folded k) :
    m.node.SameSegment m.target ∨ ∃ i r, m.Shifted p i r k := by
  have back := legal.fold k fate
  unfold Program.foldBack at back
  split at back
  · obtain ⟨i, segment, start⟩ := Option.bind_eq_some_iff.mp back
    rcases Program.loopStart_eq_some start with closes | ⟨r, given, closes⟩
    · obtain ⟨g, position, home⟩ := closes.segment_eq
      refine .inl ⟨i, segment, ?_⟩
      simpa [target, fate, List.getD_eq_getElem?_getD, position] using home
    · exact .inr ⟨i, r, fate, segment, given, closes⟩
  · cases back

/-- The edge of a fold leads to a node that has not failed. -/
theorem Legal.running_target (legal : m.Legal p) {k : Nat} (fate : m.fate = .folded k) :
    m.target.isFailed = false := by
  have position : m.target = m.path.nodes.getD k .initial := by simp [target, fate]
  rw [position]
  exact legal.leads.running (legal.leads.getD_mem k)

end Move

namespace Program

/-- All edges of an explored graph lead along exits exactly if every fold that was made after a
candidate had been given up happens to lead to a segment behind some exit of its source. -/
theorem edges_alongExit_iff (p : Program) (depth : Nat) :
    (∀ q t, (p.flowGraph depth false).graph.Edge q t → q.isFailed = false → p.AlongExit q t) ↔
      ∀ m ∈ p.moves depth, ∀ i r k, m.Shifted p i r k →
        ∃ h ∈ p.successors m.source, h.SameSegment m.target := by
  have lawful := p.lawful_log depth
  rw [← found_log]
  constructor
  · intro sound m hm i r k shifted
    have legal := lawful.legal m hm
    have edge := lawful.edge_iff.mpr ⟨m, hm, rfl, rfl⟩
    have along := sound m.source m.target edge (legal.leads.running legal.leads.last_mem)
    exact along.exists_sameSegment (legal.running_target shifted.fate)
  · intro right q t edge _
    obtain ⟨m, hm, rfl, rfl⟩ := lawful.edge_iff.mp edge
    have legal := lawful.legal m hm
    cases fate : m.fate with
    | failed | seen | entered =>
        exact legal.alongExit_of_target_eq (by simp [Move.target, fate])
    | folded k =>
        rcases legal.fold_cases fate with same | ⟨i, r, shifted⟩
        · exact ⟨m.exit, m.node, legal.step, .inr same⟩
        · obtain ⟨h, exit, same⟩ := right m hm i r k shifted
          obtain ⟨e, he⟩ := List.getElem?_of_mem exit
          exact ⟨e, h, he, .inr same⟩

/-- Two calls of one subroutine. On the way from the second, the search gives up the first call and
closes the loop at the second, three nodes further along than the position that it answers. The
edge leads to segment 1, and the only exit of its source to segment 2. -/
theorem edge_astray_after_given_up :
    ¬ ∀ q t, ((ofCode "5b5b60096007565b565b600f6007565b34600f600756".toList).flowGraph 20
        false).graph.Edge q t → q.isFailed = false →
      (ofCode "5b5b60096007565b565b600f6007565b34600f600756".toList).AlongExit q t := by
  intro sound
  have along := sound (.at 4 []) (.at 1 []) (by decide +kernel) rfl
  obtain ⟨h, exit, i, here, there⟩ := along.exists_sameSegment rfl
  have home : ∀ h ∈ (ofCode "5b5b60096007565b565b600f6007565b34600f600756".toList).successors
      (.at 4 []), h.segment? = some 2 := by decide +kernel
  have segment : i = 2 := Option.some.inj (here.symm.trans (home h exit))
  have other : 1 = i := Option.some.inj there
  omega

end Program

end EvmFlow
