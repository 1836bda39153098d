import EvmFlow.Datum
import EvmFlow.Decimal

/-!
# Statistics of an exploration
-/

namespace EvmFlow

/-- What happened while a program was explored. -/
structure Stats where
  /-- Some path was cut off. -/
  maxDepthReached : Bool
  /-- Exits that led to a node already there. -/
  visited : Nat
  /-- Exits that were folded back to a node on the path. -/
  folded : Nat
  /-- Exits that failed. -/
  errors : Nat
  /-- Nodes and edges before minimisation; zero if there was none. -/
  unminimised : Nat × Nat
  deriving DecidableEq, Repr, Inhabited

namespace Stats

/-- Nothing has happened yet. -/
def start : Stats := ⟨false, 0, 0, 0, (0, 0)⟩

/-- A path was cut off. -/
def setMaxDepth (s : Stats) : Stats := { s with maxDepthReached := true }

/-- An exit led to a node already there. -/
def addVisited (s : Stats) : Stats := { s with visited := s.visited + 1 }

/-- An exit was folded back. -/
def addFolded (s : Stats) : Stats := { s with folded := s.folded + 1 }

/-- An exit failed. -/
def addError (s : Stats) : Stats := { s with errors := s.errors + 1 }

/-- The counts, one a line. -/
def text (s : Stats) : String :=
  "MaxDepth reached:" ++ (if s.maxDepthReached then "true" else "false") ++ "\n" ++
    "ErrorStates reached:" ++ Decimal.text s.errors ++ "\n" ++
    "States seen:" ++ Decimal.text s.visited ++ "\n" ++
    "WPre success:" ++ Decimal.text s.folded ++ "\n"

/-- The statistics taken apart. -/
def toDatum (s : Stats) : Datum :=
  .node "Statistics.Stats.Stats"
    [.bool s.maxDepthReached, .nat s.visited, .nat s.folded, .nat s.errors,
      .tuple [.nat s.unminimised.1, .nat s.unminimised.2]]

end Stats

end EvmFlow
