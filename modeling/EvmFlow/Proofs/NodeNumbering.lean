import EvmFlow.PathGraph.Numbering
import EvmFlow.Proofs.Automaton
import Mathlib.Data.List.Induction

/-!
# Numbering nodes in the order of mention

Numbering the nodes of a list of edges writes two dictionaries and a counter. `Lists` says what the
three have in common: they number one list, that of the nodes mentioned, without repetitions and in
the order of first mention. Each node that is interned keeps them in step. So the number of a node
and the node with a number undo each other, and a node that has a number keeps it, since later nodes
are mentioned behind it.

The map of exits is written edge by edge, and the last write of an exit wins (`lookup_insert`). As
numbers do not change, an exit that was written for a node stays one of that node, and what the map
holds in the end is the last edge out of each node along each turn.
-/

namespace EvmFlow

/-! ### Maps that are written one entry after the other -/

namespace SortedMap

open Dictionary (lookup_cons)

variable {α β : Type} [DecidableEq α] [Ord α] {k x : α} {v w : β} {m : List (α × β)}

/-- The keys of a map stand in increasing order. -/
def Increasing (m : List (α × β)) : Prop := (keys m).Pairwise fun a b => compare a b = .lt

omit [DecidableEq α] in
theorem mem_keys_insert (mem : x ∈ keys (insert k v m)) : x = k ∨ x ∈ keys m := by
  induction m with
  | nil => simpa [insert, keys] using mem
  | cons e rest ih =>
      obtain ⟨y, w⟩ := e
      rw [insert] at mem
      split at mem
      · exact List.mem_cons.mp mem
      · exact (List.mem_cons.mp mem).imp_right (List.mem_cons_of_mem y)
      · rcases List.mem_cons.mp mem with rfl | mem
        · exact .inr List.mem_cons_self
        · exact (ih mem).imp_right (List.mem_cons_of_mem y)

variable [Std.LawfulEqOrd α]

/-- The last write of a key wins, and the others are left alone. -/
theorem lookup_insert (k x : α) (v : β) (m : List (α × β)) :
    (insert k v m).lookup x = if x = k then some v else m.lookup x := by
  induction m with
  | nil => rw [insert, lookup_cons]
  | cons e rest ih =>
      obtain ⟨y, w⟩ := e
      rw [insert]
      split
      · rw [lookup_cons]
      · rename_i same
        obtain rfl : k = y := Std.LawfulEqCmp.eq_of_compare same
        rw [lookup_cons, lookup_cons]
        split <;> rfl
      · rename_i behind
        have other : k ≠ y := by
          rintro rfl
          cases behind.symm.trans Std.ReflCmp.compare_self
        rw [lookup_cons, lookup_cons, ih]
        by_cases here : x = k
        · rw [if_pos here, if_pos here, if_neg (here ▸ other)]
        · rw [if_neg here, if_neg here]

/-- A map with increasing keys has no second entry of a key. -/
theorem Increasing.lookup_eq_some_iff (increasing : Increasing m) :
    m.lookup x = some v ↔ (x, v) ∈ m := by
  induction m with
  | nil => simp
  | cons e rest ih =>
      obtain ⟨y, w⟩ := e
      obtain ⟨least, others⟩ := List.pairwise_cons.mp increasing
      rw [lookup_cons, List.mem_cons, Prod.mk.injEq]
      by_cases here : x = y
      · subst here
        have once : (x, v) ∉ rest := by
          intro again
          have before := least x (List.mem_map_of_mem again)
          cases before.symm.trans Std.ReflCmp.compare_self
        simp [once, eq_comm]
      · simp [here, ih others]

variable [Std.TransOrd α]

omit [DecidableEq α] in
theorem Increasing.insert (increasing : Increasing m) (k : α) (v : β) :
    Increasing (insert k v m) := by
  induction m with
  | nil => exact List.pairwise_singleton _ _
  | cons e rest ih =>
      obtain ⟨y, w⟩ := e
      obtain ⟨least, others⟩ := List.pairwise_cons.mp increasing
      rw [SortedMap.insert]
      split
      · rename_i before
        refine List.pairwise_cons.mpr ⟨?_, increasing⟩
        intro x mem
        rcases List.mem_cons.mp mem with rfl | mem
        · exact before
        · exact Std.TransCmp.lt_trans before (least x mem)
      · rename_i same
        obtain rfl := Std.LawfulEqCmp.eq_of_compare same
        exact increasing
      · rename_i behind
        refine List.pairwise_cons.mpr ⟨?_, ih others⟩
        intro x mem
        rcases mem_keys_insert mem with rfl | mem
        · exact Std.OrientedCmp.gt_iff_lt.mp behind
        · exact least x mem

end SortedMap

/-! ### Exits in order -/

theorem Exit.compare_eq :
    (compare : Exit → Exit → Ordering) =
      compareLex (compareOn Exit.source) (compareOn Exit.jump) := by
  funext x y
  show (compare x.source y.source).then ((compare x.jump y.jump).then .eq) = _
  rw [Ordering.then_eq]
  rfl

instance : Std.TransOrd Exit := by
  rw [Std.TransOrd, Exit.compare_eq]
  infer_instance

instance : Std.LawfulEqOrd Exit where
  eq_of_compare := by
    intro x y same
    rw [Exit.compare_eq, compareLex, Ordering.then_eq_eq] at same
    cases x
    cases y
    exact congrArg₂ Exit.mk (Std.LawfulEqCmp.eq_of_compare same.1)
      (Std.LawfulEqCmp.eq_of_compare same.2)

/-- The last edge out of a node along a turn. -/
def PathEdge.last? (es : List PathEdge) (n : PathNode) (jump : Bool) : Option PathEdge :=
  es.reverse.find? fun e => e.source = n ∧ e.jump = jump

/-- The ends of an edge, its source first. -/
def PathEdge.ends (e : PathEdge) : List PathNode := [e.source, e.target]

namespace Numbering

variable {m m' : Numbering} {n root : PathNode} {ns ns' : List PathNode} {e : PathEdge}
variable {es : List PathEdge} {i j : Nat} {jump : Bool}

/-! ### Numbers -/

/-- Both dictionaries number the nodes of a list, in the order of first mention and from zero, and
the last number is that of the last node. -/
structure Lists (m : Numbering) (ns : List PathNode) : Prop where
  nodup : ns.eraseDups.Nodup
  numbers : m.numbers = ns.eraseDups.zipIdx
  nodes : m.nodes = ns.eraseDups.zipIdx.map Prod.swap
  last : m.last + 1 = ns.eraseDups.length

theorem lists_start (root : PathNode) : (start root).Lists [root] :=
  ⟨List.nodup_singleton root, rfl, rfl, rfl⟩

namespace Lists

theorem number?_eq (lists : m.Lists ns) (n : PathNode) : m.number? n = ns.eraseDups.idxOf? n := by
  rw [number?, lists.numbers, Dictionary.lookup_zipIdx]
  simp

theorem node?_eq (lists : m.Lists ns) (i : Nat) : m.node? i = ns.eraseDups[i]? := by
  rw [node?, lists.nodes]
  exact Dictionary.lookup_zipIdx_swap _ i 0

theorem number?_eq_some_iff (lists : m.Lists ns) : m.number? n = some i ↔ m.node? i = some n := by
  rw [lists.number?_eq, lists.node?_eq, Automaton.idxOf?_eq_some_iff lists.nodup]

/-- A number belongs to one node, and a node has one number. -/
theorem node?_inj (lists : m.Lists ns) (hi : m.node? i = some n) (hj : m.node? j = some n) :
    i = j := by
  rw [← lists.number?_eq_some_iff] at hi hj
  exact Option.some_inj.mp (hi.symm.trans hj)

theorem exists_node?_iff (lists : m.Lists ns) : (∃ i, m.node? i = some n) ↔ n ∈ ns := by
  simp only [lists.node?_eq, ← List.mem_iff_getElem?, List.mem_eraseDups]

theorem next_eq (lists : m.Lists ns) : m.next = ns.eraseDups.length := by
  rw [next, lists.last, Int.toNat_natCast]

/-- Interning a node mentions it. -/
theorem intern (lists : m.Lists ns) (n : PathNode) : (m.intern n).2.Lists (ns ++ [n]) := by
  have dups := Automaton.eraseDups_concat ns n
  rw [Numbering.intern]
  cases found : m.number? n with
  | some i =>
      have mem : n ∈ ns := lists.exists_node?_iff.mp ⟨i, lists.number?_eq_some_iff.mp found⟩
      rw [if_pos mem] at dups
      constructor <;> rw [dups]
      exacts [lists.nodup, lists.numbers, lists.nodes, lists.last]
  | none =>
      have new : n ∉ ns.eraseDups := by
        rw [lists.number?_eq] at found
        exact List.idxOf?_eq_none_iff.mp found
      rw [if_neg fun mem => new (List.mem_eraseDups.mpr mem)] at dups
      constructor <;> rw [dups]
      · exact List.nodup_append_comm.mp (List.nodup_cons.mpr ⟨new, lists.nodup⟩)
      · have fresh : n ∉ m.numbers.map Prod.fst := by
          rwa [lists.numbers, List.zipIdx_map_fst]
        rw [Dictionary.set_of_not_mem fresh, lists.numbers, lists.next_eq, List.zipIdx_append]
        simp
      · -- The numbers that were given are those below the next one.
        have fresh : m.next ∉ m.nodes.map Prod.fst := by
          rw [lists.nodes, lists.next_eq, List.map_map]
          simp [Function.comp_def, List.zipIdx_map_snd]
        rw [Dictionary.set_of_not_mem fresh, lists.nodes, lists.next_eq, List.zipIdx_append]
        simp
      · simp [lists.next_eq]

/-- The number that interning gives is the number of the node. -/
theorem node?_intern (lists : m.Lists ns) (n : PathNode) :
    (m.intern n).2.node? (m.intern n).1 = some n := by
  rw [← (lists.intern n).number?_eq_some_iff, Numbering.intern]
  cases found : m.number? n with
  | some i => exact found
  | none => rw [number?, Dictionary.lookup_set, if_pos rfl]

/-- A node keeps its number when others are mentioned after it. -/
theorem node?_of_grown (lists : m.Lists ns) (lists' : m'.Lists (ns ++ ns'))
    (found : m.node? i = some n) : m'.node? i = some n := by
  rw [lists.node?_eq] at found
  obtain ⟨inside, same⟩ := List.getElem?_eq_some_iff.mp found
  rw [lists'.node?_eq, List.eraseDups_append, List.getElem?_append_left inside, found]

theorem node?_iff_of_grown (lists : m.Lists ns) (lists' : m'.Lists (ns ++ ns')) (mem : n ∈ ns) :
    m'.node? i = some n ↔ m.node? i = some n := by
  constructor
  · intro found
    obtain ⟨k, number⟩ := lists.exists_node?_iff.mpr mem
    rwa [lists'.node?_inj found (lists.node?_of_grown lists' number)]
  · exact lists.node?_of_grown lists'

end Lists

theorem exits_intern (m : Numbering) (n : PathNode) : (m.intern n).2.exits = m.exits := by
  rw [intern]
  split <;> rfl

/-- What adding an edge does: its ends are mentioned and have numbers, and the exit is written. -/
theorem Lists.addEdge (lists : m.Lists ns) (e : PathEdge) :
    (m.addEdge e).Lists (ns ++ e.ends) ∧
      ∃ i j, (m.addEdge e).node? i = some e.source ∧ (m.addEdge e).node? j = some e.target ∧
        (m.addEdge e).exits = SortedMap.insert ⟨i, e.jump⟩ j m.exits := by
  have source := lists.intern e.source
  have target := source.intern e.target
  -- Writing the exit leaves the numbers alone.
  have written : (m.addEdge e).Lists (ns ++ [e.source] ++ [e.target]) :=
    ⟨target.nodup, target.numbers, target.nodes, target.last⟩
  refine ⟨?_, (m.intern e.source).1, ((m.intern e.source).2.intern e.target).1, ?_, ?_, ?_⟩
  · rw [List.append_assoc] at written
    exact written
  · exact source.node?_of_grown written (lists.node?_intern e.source)
  · exact source.node?_intern e.target
  · rw [← (exits_intern _ e.target).trans (exits_intern m e.source)]
    rfl

/-! ### Exits -/

theorem last?_concat :
    PathEdge.last? (es ++ [e]) n jump =
      if e.source = n ∧ e.jump = jump then some e else PathEdge.last? es n jump := by
  rw [PathEdge.last?, List.reverse_concat, List.find?_cons]
  split <;> simp_all [PathEdge.last?]

theorem mem_of_last? (last : PathEdge.last? es n jump = some e) : e ∈ es ∧ e.source = n := by
  have taken := List.find?_some last
  exact ⟨List.mem_reverse.mp (List.mem_of_find?_eq_some last), (of_decide_eq_true taken).1⟩

/-- What numbering edges from a root keeps: the root is mentioned and then the ends of the edges, and
the map of exits tells where the last edge of each exit leads. -/
structure Numbers (m : Numbering) (root : PathNode) (es : List PathEdge) : Prop where
  lists : m.Lists (root :: es.flatMap PathEdge.ends)
  increasing : SortedMap.Increasing m.exits
  target?_iff : ∀ i jump j, m.target? ⟨i, jump⟩ = some j ↔
    ∃ n e, m.node? i = some n ∧ PathEdge.last? es n jump = some e ∧ m.node? j = some e.target

theorem numbers_start (root : PathNode) : (start root).Numbers root [] := by
  refine ⟨lists_start root, List.Pairwise.nil, ?_⟩
  simp [start, target?, PathEdge.last?]

theorem mem_mentioned :
    n ∈ root :: es.flatMap PathEdge.ends ↔ n = root ∨ ∃ e ∈ es, n = e.source ∨ n = e.target := by
  simp [PathEdge.ends]

/-- An edge that was there keeps the numbers of its ends. -/
theorem Numbers.ends_iff (numbers : m.Numbers root es)
    (lists' : m'.Lists (root :: es.flatMap PathEdge.ends ++ ns'))
    (last : PathEdge.last? es n jump = some e) :
    (m'.node? i = some n ∧ m'.node? j = some e.target) ↔
      m.node? i = some n ∧ m.node? j = some e.target := by
  obtain ⟨mem, rfl⟩ := mem_of_last? last
  have source : e.source ∈ root :: es.flatMap PathEdge.ends :=
    mem_mentioned.mpr (.inr ⟨e, mem, .inl rfl⟩)
  have target : e.target ∈ root :: es.flatMap PathEdge.ends :=
    mem_mentioned.mpr (.inr ⟨e, mem, .inr rfl⟩)
  rw [numbers.lists.node?_iff_of_grown lists' source, numbers.lists.node?_iff_of_grown lists' target]

/-- An exit that a new edge does not take leads where it led. -/
theorem Numbers.target?_iff_of_other (numbers : m.Numbers root es)
    (lists' : m'.Lists (root :: es.flatMap PathEdge.ends ++ ns'))
    (source : m'.node? i = some e.source) {k : Nat}
    (other : (⟨k, jump⟩ : Exit) ≠ ⟨i, e.jump⟩) :
    m.target? ⟨k, jump⟩ = some j ↔
      ∃ n e', m'.node? k = some n ∧ PathEdge.last? (es ++ [e]) n jump = some e' ∧
        m'.node? j = some e'.target := by
  have older : ∀ n, m'.node? k = some n →
      PathEdge.last? (es ++ [e]) n jump = PathEdge.last? es n jump := by
    intro n node
    rw [last?_concat, if_neg]
    rintro ⟨rfl, rfl⟩
    exact other (congrArg (Exit.mk · e.jump) (lists'.node?_inj node source))
  rw [numbers.target?_iff]
  constructor
  · rintro ⟨n, e', node, last, leads⟩
    obtain ⟨node, leads⟩ := (numbers.ends_iff lists' last).mpr ⟨node, leads⟩
    exact ⟨n, e', node, (older n node).trans last, leads⟩
  · rintro ⟨n, e', node, last, leads⟩
    rw [older n node] at last
    obtain ⟨node, leads⟩ := (numbers.ends_iff lists' last).mp ⟨node, leads⟩
    exact ⟨n, e', node, last, leads⟩

theorem Numbers.addEdge (numbers : m.Numbers root es) (e : PathEdge) :
    (m.addEdge e).Numbers root (es ++ [e]) := by
  obtain ⟨lists, i, j, source, target, exits⟩ := numbers.lists.addEdge e
  refine ⟨?_, ?_, ?_⟩
  · rw [List.flatMap_append, List.flatMap_singleton]
    exact lists
  · rw [exits]
    exact numbers.increasing.insert _ _
  · intro k jump l
    rw [target?, exits, SortedMap.lookup_insert]
    by_cases here : (⟨k, jump⟩ : Exit) = ⟨i, e.jump⟩
    · -- The exit that is written is one of the source of the edge, which is the last of its exit.
      obtain ⟨rfl, rfl⟩ := Exit.mk.inj here
      have last : PathEdge.last? (es ++ [e]) e.source e.jump = some e := by
        rw [last?_concat, if_pos ⟨rfl, rfl⟩]
      rw [if_pos here, Option.some_inj]
      constructor
      · rintro rfl
        exact ⟨e.source, e, source, last, target⟩
      · rintro ⟨n, e', node, last', leads⟩
        obtain rfl := Option.some_inj.mp (source.symm.trans node)
        obtain rfl := Option.some_inj.mp (last.symm.trans last')
        exact lists.node?_inj target leads
    · rw [if_neg here]
      exact numbers.target?_iff_of_other lists source here

theorem Numbers.addEdges (numbers : m.Numbers root []) (es : List PathEdge) :
    (m.addEdges es).Numbers root es := by
  induction es using List.reverseRecOn with
  | nil => exact numbers
  | append_singleton es e ih =>
      rw [Numbering.addEdges, List.foldl_concat]
      exact ih.addEdge e

/-- Numbering the edges of a list from a root numbers the root and the ends of the edges, in the
order of first mention, and no other node. The two dictionaries undo each other, the numbers are
those up to the last one, and the root has the first. The map of exits has one entry for each node
and turn along which an edge leads, and no other: the number of the target of the last such edge of
the list. -/
theorem addEdges_numbers (root : PathNode) (es : List PathEdge) :
    let m := (start root).addEdges es
    m.numbers = (root :: es.flatMap PathEdge.ends).eraseDups.zipIdx ∧
      m.nodes = (root :: es.flatMap PathEdge.ends).eraseDups.zipIdx.map Prod.swap ∧
      m.number? root = some 0 ∧
      (∀ n i, m.number? n = some i ↔ m.node? i = some n) ∧
      (∀ n, (∃ i, m.number? n = some i) ↔ n = root ∨ ∃ e ∈ es, n = e.source ∨ n = e.target) ∧
      (∀ i : Nat, (∃ n, m.node? i = some n) ↔ (i : Int) ≤ m.last) ∧
      (∀ x j, (x, j) ∈ m.exits ↔ m.target? x = some j) ∧
      ∀ i jump j, m.target? ⟨i, jump⟩ = some j ↔
        ∃ n e, m.number? n = some i ∧ PathEdge.last? es n jump = some e ∧
          m.number? e.target = some j := by
  intro m
  have numbers : m.Numbers root es := (numbers_start root).addEdges es
  have lists := numbers.lists
  have inverse : ∀ n i, m.number? n = some i ↔ m.node? i = some n :=
    fun n i => lists.number?_eq_some_iff
  refine ⟨lists.numbers, lists.nodes, ?_, inverse, ?_, ?_, ?_, ?_⟩
  · rw [inverse, lists.node?_eq, List.eraseDups_cons, List.getElem?_cons_zero]
  · intro n
    simp only [inverse, lists.exists_node?_iff, mem_mentioned]
  · intro i
    rw [← Option.isSome_iff_exists, lists.node?_eq, isSome_getElem?]
    have last := lists.last
    omega
  · intro x j
    exact numbers.increasing.lookup_eq_some_iff.symm
  · intro i jump j
    simp only [inverse]
    exact numbers.target?_iff i jump j

end Numbering

end EvmFlow
