import EvmFlow.Datum
import EvmFlow.Fault

/-!
# Partitions

A partition of the numbers below `size` is a list of classes. A class is listed in increasing
order, so its first element represents it. Refining splits each class into the classes of an
equivalence on it, in the order of their least elements.
-/

namespace EvmFlow

/-- The numbers below `size` in classes. -/
structure Partition where
  size : Nat
  classes : List (List Nat)
  deriving DecidableEq, Repr, Inhabited

namespace Partition

/-- All numbers in one class. -/
def whole (n : Nat) : Partition := ⟨n, [List.range n]⟩

/-- The numbers that are in some class, in increasing order. -/
def members (p : Partition) : List Nat :=
  (List.range p.size).filter fun x => p.classes.any (·.contains x)

/-- Splits a list into the classes of an equivalence: the first element with all that are
equivalent to it, then the rest. -/
def splitBy (equiv : Nat → Nat → Bool) (xs : List Nat) : List (List Nat) :=
  match xs with
  | [] => []
  | x :: rest =>
    (x :: rest.filter (equiv x)) :: splitBy equiv (rest.filter fun y => !equiv x y)
termination_by xs.length
decreasing_by
  simp only [List.length_cons, List.length_unattach]
  exact Nat.lt_succ_of_le
    (Nat.le_trans (List.length_filter_le _ _) (Nat.le_of_eq List.length_attach))

/-- The classes of an equivalence on all numbers, whatever the classes were. -/
def finest (p : Partition) (equiv : Nat → Nat → Bool) : Partition :=
  { p with classes := splitBy equiv p.members }

/-- Splits every class by an equivalence. -/
def refine (p : Partition) (equiv : Nat → Nat → Bool) : Partition :=
  { p with classes := p.classes.flatMap (splitBy equiv) }

/-- Two classes: what satisfies `f`, and what does not. An empty one is left out. -/
def halve (p : Partition) (f : Nat → Bool) : Partition :=
  { p with
    classes := [p.members.filter f, p.members.filter fun x => !f x].filter fun c => !c.isEmpty }

/-- The number of the class of an element; past the end if it has none. -/
def classOf (p : Partition) (x : Nat) : Nat := p.classes.findIdx (·.contains x)

/-- The least element of the class of an element; the element itself if it has none. -/
def rep (p : Partition) (x : Nat) : Nat := ((p.classes[p.classOf x]?).bind List.head?).getD x

/-- The number of the class of an element, looked for from a class on. -/
def classFrom? (p : Partition) (x start : Nat) : Except Fault Nat :=
  match (p.classes.drop start).findIdx? (·.contains x) with
  | some k => .ok (start + k)
  | none => .error .pastEnd

/-- The least element of the class of an element that has one. -/
def rep? (p : Partition) (x : Nat) : Except Fault Nat := do
  let _ ← p.classFrom? x 0
  return p.rep x

/-- `finest`, which needs at least one number. -/
def finest? (p : Partition) (equiv : Nat → Nat → Bool) : Except Fault Partition :=
  if p.members.isEmpty then .error .pastEnd else .ok (p.finest equiv)

/-- `refine`, which needs every class to have a first element. -/
def refine? (p : Partition) (equiv : Nat → Nat → Bool) : Except Fault Partition :=
  if p.classes.any List.isEmpty then .error .pastEnd else .ok (p.refine equiv)

/-- The classes, one a line. -/
def text (p : Partition) : String :=
  String.join (p.classes.map fun c => (Datum.nats c).render ++ "\n")

/-- The partition taken apart. -/
def toDatum (p : Partition) : Datum :=
  .node "PartitionMod.Partition.Partition"
    [.nat p.size, .seq (p.classes.map fun c => .set (c.map .nat))]

end Partition

end EvmFlow
