/-!
# Dictionaries

A dictionary is the list of its entries, in the order in which their keys were first written.
Writing a key again replaces its value where it stands.
-/

namespace EvmFlow.Dictionary

variable {α β : Type} [DecidableEq α] {k : α} {v : β} {d : List (α × β)}

/-- Gives a key a value, at its place if the key is there and at the end otherwise. -/
def set (k : α) (v : β) : List (α × β) → List (α × β)
  | [] => [(k, v)]
  | (x, w) :: rest => if x = k then (k, v) :: rest else (x, w) :: set k v rest

theorem lookup_cons (x y : α) (w : β) (d : List (α × β)) :
    ((y, w) :: d).lookup x = if x = y then some w else d.lookup x := by
  rw [List.lookup_cons]
  by_cases here : x = y
  · rw [if_pos here, beq_iff_eq.mpr here]
  · rw [if_neg here, beq_eq_false_iff_ne.mpr here]

/-- The last write of a key wins, and the others are left alone. -/
theorem lookup_set (k x : α) (v : β) (d : List (α × β)) :
    (set k v d).lookup x = if x = k then some v else d.lookup x := by
  induction d with
  | nil => rw [set, lookup_cons]
  | cons e rest ih =>
      obtain ⟨y, w⟩ := e
      rw [set]
      by_cases same : y = k
      · rw [if_pos same, lookup_cons, lookup_cons, same]
        split <;> rfl
      · rw [if_neg same, lookup_cons, lookup_cons, ih]
        by_cases here : x = y
        · rw [if_pos here, if_pos here, if_neg (here ▸ same)]
        · rw [if_neg here, if_neg here]

/-- A key that is not there is written at the end. -/
theorem set_of_not_mem (new : k ∉ d.map Prod.fst) : set k v d = d ++ [(k, v)] := by
  induction d with
  | nil => rfl
  | cons e rest ih =>
      rw [List.map_cons, List.mem_cons, not_or] at new
      rw [set, if_neg (Ne.symm new.1), ih new.2, List.cons_append]

/-! ### The entries of a list and their places -/

/-- Looking up an entry of a list is looking for its place. -/
theorem lookup_zipIdx (l : List α) (x : α) (n : Nat) :
    (l.zipIdx n).lookup x = (l.idxOf? x).map (· + n) := by
  induction l generalizing n with
  | nil => rfl
  | cons y rest ih =>
      rw [List.zipIdx_cons, lookup_cons, List.idxOf?_cons, ih]
      by_cases here : y = x
      · simp [here]
      · simp [here, Ne.symm here, Function.comp_def, Nat.add_assoc, Nat.add_comm 1]

omit [DecidableEq α] in
/-- Looking up a place is taking the entry there. -/
theorem lookup_zipIdx_swap (l : List α) (i n : Nat) :
    ((l.zipIdx n).map Prod.swap).lookup (i + n) = l[i]? := by
  induction l generalizing i n with
  | nil => rfl
  | cons y rest ih =>
      rw [List.zipIdx_cons, List.map_cons, Prod.swap_prod_mk, lookup_cons]
      cases i with
      | zero => simp
      | succ i =>
          rw [if_neg (by omega), List.getElem?_cons_succ, ← ih i (n + 1)]
          congr 1
          omega

end EvmFlow.Dictionary
