import EvmFlow.Fault
import EvmFlow.PathGraph.Basic
import EvmFlow.Segment.Basic

/-!
# Path graphs in the DOT language
-/

namespace EvmFlow

namespace Colour

/-- The colour of jumps. -/
def jump : String := "royalblue"

/-- The colour of falling through. -/
def skip : String := "black"

/-- A colour as an attribute of an edge. -/
def ofEdge (colour : String) : String := "color=" ++ colour ++ ","

/-- A colour as an attribute of a filled node. -/
def ofNode (colour : String) : String := "style=filled,color=" ++ colour ++ ",fontcolor=white,"

/-- Segments that stop or revert. -/
def revert : String := ofNode "orange"

/-- Segments that return. -/
def ret : String := ofNode "olivedrab"

/-- Segments that are invalid. -/
def invalid : String := ofNode "firebrick"

/-- Segments that branch. -/
def branch : String := ""

/-- The colours and attributes by name. -/
def named : List (String × String) :=
  [("jcolour", jump), ("jumpColour", ofEdge jump), ("skcolour", skip), ("skipColour", ofEdge skip),
    ("revertColour", revert), ("returnColour", ret), ("invalidColour", invalid),
    ("branchColour", branch)]

/-- The attribute of a segment by its kind. -/
def ofSegment (s : Segment) : String :=
  match s.kind with
  | .jump | .cont => ""
  | .jumpi => branch
  | .ret => ret
  | .stop => revert
  | .invalid => invalid

end Colour

namespace PathEdge

/-- The edge with a tooltip. With anchors, a jump leaves and arrives at anchors of its nodes. -/
def dot (e : PathEdge) (anchors : Bool) : String :=
  let atAnchor (place : String) : String := if anchors && e.jump then place else ""
  "s" ++ e.source.name ++ atAnchor ":exit:se " ++ " -> s" ++ e.target.name ++
    atAnchor ":entry:w " ++ " [" ++
    (if e.jump then "tooltip=\"Jump\",style=dashed" else "tooltip=\"Next\"") ++ "]\n"

/-- The edge in colour with a label. -/
def colouredDot (e : PathEdge) : String :=
  let (colour, what) := if e.jump then (Colour.jump, "jump") else (Colour.skip, "skip")
  "s" ++ e.source.name ++ " -> s" ++ e.target.name ++ " [" ++ Colour.ofEdge colour ++
    "label=<<FONT color=\"" ++ colour ++ "\">" ++ what ++ "</FONT>>]\n"

end PathEdge

namespace PathGraph

/-- The edges without anchors. -/
def edgesDot (g : PathGraph) : String := String.join (g.edges.map (·.dot false))

/-- The line of a node without a segment. -/
def failedDot (n : PathNode) : String :=
  "s" ++ n.name ++ "[label=<ErrorEnd <BR ALIGN=\"CENTER\"/>>]\n"

/-- The whole graph, when no node has a segment. -/
def dot? (g : PathGraph) : Except Fault String :=
  if g.nodes.any (·.segment.isSome) then .error .pastEnd
  else .ok <|
    "digraph CFG \x7b\nnode [shape=box]\nnode[fontname=arial]\n" ++
      "edge[fontname=arial]\nranking=TB\n " ++
      String.join (g.nodes.map failedDot) ++ g.edgesDot ++ "\x7d\n"

end PathGraph

end EvmFlow
