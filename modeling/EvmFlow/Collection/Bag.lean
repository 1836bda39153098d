import EvmFlow.Collection.SortedSet

/-!
# Bags

A bag is the sorted list of its members, each as often as it is in the bag, so two bags are equal
exactly when their lists are.
-/

namespace EvmFlow.Bag

variable {α : Type} [DecidableEq α] [Ord α]

/-- Puts one more copy of a value into a sorted list. -/
def insert (x : α) : List α → List α
  | [] => [x]
  | y :: ys =>
    match compare x y with
    | .gt => y :: insert x ys
    | _ => x :: y :: ys

/-- The bag of the members of a list. -/
def ofList (xs : List α) : List α := xs.foldr insert []

/-- The members of both bags together. -/
def add (s t : List α) : List α := ofList (s ++ t)

/-- The members of the first bag without one copy for each member of the second. -/
def diff (s t : List α) : List α := t.foldl List.erase s

/-- As many copies as both bags have. -/
def inter : List α → List α → List α
  | [], _ => []
  | x :: xs, t => if t.contains x then x :: inter xs (t.erase x) else inter xs t

/-- Whether the second bag has all copies of the first. -/
def isSub (s t : List α) : Bool := (diff s t).isEmpty

/-- Whether the second bag has all copies of the first and more. -/
def isProperSub (s t : List α) : Bool := isSub s t && decide (s.length < t.length)

/-- Whether no value is in both bags. -/
def isDisjoint (s t : List α) : Bool := s.all fun x => !t.contains x

/-- Gives a value a number of copies. -/
def setCount (s : List α) (x : α) (n : Nat) : List α :=
  ofList (s.filter (· ≠ x) ++ List.replicate n x)

/-- The different members. -/
def keys (s : List α) : List α := SortedSet.ofList s

end EvmFlow.Bag
