import EvmFlow.Collection.SortedSet
import EvmFlow.Fault

/-!
# Finite maps

A finite map is the list of its entries, in increasing order of keys. `insert` replaces the value
of a key that is there, so the last write wins.
-/

namespace EvmFlow.SortedMap

variable {α β : Type} [DecidableEq α] [Ord α]

/-- Gives a key a value. -/
def insert (k : α) (v : β) : List (α × β) → List (α × β)
  | [] => [(k, v)]
  | (x, w) :: rest =>
    match compare k x with
    | .lt => (k, v) :: (x, w) :: rest
    | .eq => (k, v) :: rest
    | .gt => (x, w) :: insert k v rest

/-- The map that the given entries write one after the other. -/
def ofList (entries : List (α × β)) : List (α × β) :=
  entries.foldl (fun m e => insert e.1 e.2 m) []

/-- All entries of two maps; the second one wins. -/
def merge (m n : List (α × β)) : List (α × β) := n.foldl (fun m e => insert e.1 e.2 m) m

/-- The map without the given keys. -/
def erase (m : List (α × β)) (ks : List α) : List (α × β) := m.filter fun e => !ks.contains e.1

/-- The keys in increasing order. -/
def keys (m : List (α × β)) : List α := m.map Prod.fst

/-- The values that some key has. -/
def values [DecidableEq β] [Ord β] (m : List (α × β)) : List β :=
  SortedSet.ofList (m.map Prod.snd)

/-- Adds a value to the list that a key has. -/
def append? {γ : Type} (m : List (α × List γ)) (k : α) (v : γ) :
    Except Fault (List (α × List γ)) :=
  match m.lookup k with
  | some vs => .ok (insert k (vs ++ [v]) m)
  | none => .error .missingKey

end EvmFlow.SortedMap
