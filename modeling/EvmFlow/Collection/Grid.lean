import EvmFlow.Datum

/-!
# Grids

A grid of several dimensions is a tree: rows of rows, down to its cells. A path of positions
leads to a cell, and a shorter path to a row.
-/

namespace EvmFlow

/-- A cell, or a row of grids. -/
inductive Grid (α : Type) where
  | cell (value : α)
  | row (entries : List (Grid α))

namespace Grid

variable {α : Type}

/-- A grid with the same value in all cells. There has to be at least one dimension. -/
def fill (value : α) : List Nat → Except Fault (Grid α)
  | [] => .error .pastEnd
  | [n] => .ok (.row (List.replicate n (.cell value)))
  | n :: m :: rest => do return .row (List.replicate n (← fill value (m :: rest)))

/-- The grid at the end of a path. -/
def get? : List Nat → Grid α → Except Fault (Grid α)
  | [], g => .ok g
  | _ :: _, .cell _ => .error .wrongCase
  | i :: path, .row gs => do get? path (← elementAt gs i)

/-- Replaces the grid at the end of a path, which has at least one step. -/
def set? (new : Grid α) : List Nat → Grid α → Except Fault (Grid α)
  | [], _ => .error .pastEnd
  | _ :: _, .cell _ => .error .wrongCase
  | [i], .row gs => if i < gs.length then .ok (.row (gs.set i new)) else .error .pastEnd
  | i :: j :: path, .row gs => do
    return .row (gs.set i (← set? new (j :: path) (← elementAt gs i)))

/-- How a grid with the given dimensions is shown. -/
def label (dims : List Nat) : String := "array" ++ (Datum.nats dims).render

end Grid

end EvmFlow
