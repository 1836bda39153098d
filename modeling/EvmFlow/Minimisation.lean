import EvmFlow.Automaton
import EvmFlow.Partition

/-!
# Minimisation

An automaton together with a partition of its states. A round of refinement separates states whose
successors, taken in order, lie in different classes. When a round separates nothing, the classes
are the states of the smaller automaton, each represented by its least member.
-/

namespace EvmFlow

/-- An automaton with a partition of its states. -/
structure Classified (α : Type) where
  automaton : Automaton α
  partition : Partition
  deriving Repr

namespace Classified

variable {α : Type} [DecidableEq α]

/-- The classes of the successors of a state, in order. -/
def successorClasses (c : Classified α) (i : Nat) : List Nat :=
  (c.automaton.succOf i).map c.partition.classOf

/-- One round of refinement. -/
def refine (c : Classified α) : Classified α :=
  { c with
    partition := c.partition.refine fun x y => c.successorClasses x == c.successorClasses y }

/-- A classification and what a number of rounds make of it, one after the other. -/
def rounds : Nat → Classified α → List (Classified α)
  | 0, c => [c]
  | n + 1, c => c :: rounds n c.refine

/-- Rounds of refinement until one separates nothing, at most `fuel` of them. -/
def stabilise : Nat → Classified α → Classified α
  | 0, c => c
  | fuel + 1, c =>
    if c.refine.partition.classes.length = c.partition.classes.length then c
    else stabilise fuel c.refine

/-- The coarsest refinement that a further round does not change. There are never more classes than
states, so that many rounds are enough. -/
def stable (c : Classified α) : Classified α := stabilise (c.partition.size + 1) c

/-- The state that represents the class of a state. -/
def repState? (c : Classified α) (i : Nat) : Option α :=
  c.automaton.states[c.partition.rep i]?

/-- Adds the edges of a state between the representatives of the classes. -/
def addImages (c : Classified α) (b : Automaton α) (i : Nat) : Automaton α :=
  match c.repState? i with
  | some s => b.addEdges s ((c.automaton.succOf i).filterMap c.repState?)
  | none => b

/-- The automaton on the representatives of the classes. -/
def quotient (c : Classified α) : Automaton α :=
  (List.range c.automaton.size).foldl c.addImages .empty

/-- The smallest automaton for the given classes. -/
def minimise (c : Classified α) : Automaton α := c.stable.quotient

/-- The classified automaton taken apart. -/
def toDatum (state : α → Datum) (c : Classified α) : Datum :=
  .node "GStateMinimiser.Pair.Pair" [c.automaton.toDatum "Automata" state, c.partition.toDatum]

end Classified

end EvmFlow
