/-!
# Finite sets

A finite set is the increasing list of its members, so two sets are equal exactly when their lists
are. `ofList` sorts and drops repetitions.
-/

namespace EvmFlow.SortedSet

variable {α : Type} [DecidableEq α] [Ord α]

/-- Puts a value into an increasing list unless it is there. -/
def insert (x : α) : List α → List α
  | [] => [x]
  | y :: ys =>
    match compare x y with
    | .lt => x :: y :: ys
    | .eq => y :: ys
    | .gt => y :: insert x ys

/-- The set of the members of a list. -/
def ofList (xs : List α) : List α := xs.foldr insert []

/-- The members of either set. -/
def union (s t : List α) : List α := ofList (s ++ t)

/-- The members of both sets. -/
def inter (s t : List α) : List α := s.filter (t.contains ·)

/-- The members of the first set that are not in the second. -/
def diff (s t : List α) : List α := s.filter fun x => !t.contains x

/-- Whether all members of the first set are in the second. -/
def isSubset (s t : List α) : Bool := s.all (t.contains ·)

/-- Whether the first set is a subset of the second and is not equal to it. -/
def isProperSubset (s t : List α) : Bool := isSubset s t && s != t

/-- The members of some set of a list. -/
def unionAll (ss : List (List α)) : List α := ofList ss.flatten

/-- The members of all sets of a list; none when there is no set. -/
def interAll : List (List α) → List α
  | [] => []
  | [s] => s
  | s :: ss => inter s (interAll ss)

/-- The members that satisfy a condition, and the others. -/
def split (f : α → Bool) (s : List α) : List α × List α :=
  (s.filter f, s.filter fun x => !f x)

/-- All subsets, in the lexicographic order of their lists. -/
def subsets : List α → List (List α)
  | [] => [[]]
  | x :: xs => [] :: ((subsets xs).map (x :: ·) ++ (subsets xs).drop 1)

end EvmFlow.SortedSet
