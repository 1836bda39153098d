import EvmFlow.FlowGraph.Basic

/-!
# Walks along given exits

A walk starts where every exploration does and takes one exit after the other, counted round the
exits that there are. It ends early at a node without exits, and before a failed execution.
-/

namespace EvmFlow

/-- What is seen on one step of a walk: the nodes to choose from, why the walk ends here if it
does, and, behind a jump, the node to which the step could be folded back. -/
structure Step where
  choices : List Node
  stop : Option String
  loop : Option (Option Nat)

/-- Walks on from the end of a path. -/
def Program.walk (p : Program) : Path → List Nat → Except Fault (List Step × Path)
  | path, [] => .ok ([], path)
  | path, e :: rest => do
    let choices ← p.successors? path.last
    let e := e % choices.length
    match choices[e]? with
    | none => return ([⟨choices, some "no exit", none⟩], path)
    | some g =>
      if g.isFailed then return ([⟨choices, some "error", none⟩], path)
      let loop ← if p.jumpsAt path.last then
          some <$> p.loopStart? (← g.segmentOf) path.nodes (path.exits ++ [e])
        else pure none
      let (steps, final) ← p.walk (path.extend e g) rest
      return (⟨choices, none, loop⟩ :: steps, final)

end EvmFlow
