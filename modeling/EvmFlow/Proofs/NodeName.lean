import EvmFlow.PathGraph.Basic
import EvmFlow.Proofs.DecimalNumeral
import Mathlib.Data.List.Basic

/-!
# Short names of nodes

The short name of a node writes two numbers with a mark between them. The mark is no digit, so it
can stand at one place only, and the two numerals can be told from the name; each of them is the
numeral of one number. The second number is how many turns there are, and among the lists of turns
of one length the first number belongs to one only: its parity is the first turn, and its half is
the number of the others. Falling through adds nothing to a number, so the length is needed.
-/

namespace EvmFlow.PathNode

open Decimal

/-- The first turn is the parity of a number, and the others have its half for their number. -/
theorem number_cons (b : Bool) (rest : List Bool) :
    (number (b :: rest) % 2 = 1 ↔ b = true) ∧ number (b :: rest) / 2 = number rest := by
  cases b with
  | false => simp [number]
  | true =>
      simp only [number, if_true, iff_true]
      omega

/-- Turns of one length are told apart by their number. -/
theorem number_inj {x y : List Bool} (length : x.length = y.length) :
    number x = number y ↔ x = y := by
  refine ⟨fun same => ?_, congrArg number⟩
  induction x generalizing y with
  | nil => exact (List.length_eq_zero_iff.mp length.symm).symm
  | cons a x ih =>
      cases y with
      | nil => cases length
      | cons b y =>
          obtain ⟨first, half⟩ := number_cons a x
          rw [same] at first half
          have turn : a = b := Bool.eq_iff_iff.mpr (first.symm.trans (number_cons b y).1)
          have others : number x = number y := half.symm.trans (number_cons b y).2
          rw [turn, ih (Nat.succ_inj.mp length) others]

-- Falling through once more at the end is seen by the length only.
example : number [true] = number [true, false] := rfl

theorem toList_name (n : PathNode) :
    n.name.toList = natural (number n.id) ++ '_' :: natural n.id.length := by
  simp [name, Decimal.text]

theorem mark_not_mem_natural (n : Nat) : '_' ∉ natural n :=
  fun mem => absurd (isDigit_of_mem_natural mem) (by decide)

/-- Two nodes have one short name exactly if the same turns lead to them. -/
theorem name_eq_iff (m n : PathNode) : m.name = n.name ↔ m.id = n.id := by
  constructor
  · intro same
    have texts := congrArg String.toList same
    rw [toList_name, toList_name,
      List.append_cons_inj_of_notMem (mark_not_mem_natural _) (mark_not_mem_natural _)] at texts
    obtain ⟨numbers, -, lengths⟩ := texts
    exact (number_inj (natural_injective lengths)).mp (natural_injective numbers)
  · intro same
    rw [name, name, same]

end EvmFlow.PathNode
