import EvmFlow.Fault

/-!
# Sequences

Operations on lists that ask for an element which may not be there.
-/

namespace EvmFlow.Sequence

variable {α β : Type}

/-- The last element. -/
def last? (xs : List α) : Except Fault α :=
  match xs.getLast? with
  | some x => .ok x
  | none => .error .pastEnd

/-- Pairs the elements of the first list with those of the second, which must have as many. -/
def zip? (xs : List α) (ys : List β) : Except Fault (List (α × β)) :=
  if ys.length < xs.length then .error .pastEnd else .ok (xs.zip ys)

/-- Replaces an element that is there. -/
def set? (xs : List α) (i : Nat) (x : α) : Except Fault (List α) :=
  if i < xs.length then .ok (xs.set i x) else .error .pastEnd

/-- The elements from `lo` on and before `hi`, as far as there are any. -/
def slice (xs : List α) (lo hi : Nat) : List α := (xs.take hi).drop lo

/-- Looks through a list for an element that decides a question: `all` asks whether all elements
satisfy a condition, otherwise whether one does. Gives the answer and the elements looked at. -/
def decideBy (all : Bool) (f : α → Bool) : List α → Bool × List α
  | [] => (all, [])
  | x :: xs =>
    if f x = all then
      let (answer, seen) := decideBy all f xs
      (answer, x :: seen)
    else (!all, [x])

end EvmFlow.Sequence
