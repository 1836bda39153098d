/-!
# Labelled blocks

A block may carry a label. Leaving or repeating a block names the label of the block that is
meant; starting a function over is meant for the block without a label.
-/

namespace EvmFlow

/-- A way to leave the inner blocks. -/
inductive Departure where
  | leave (target : Option String)
  | again (target : Option String)
  | restart

/-- A block that can be left, or one that can be repeated, with its label. -/
inductive Block where
  | leavable (label : Option String)
  | repeatable (label : Option String)

/-- Whether a departure ends at a block. -/
def Block.catches : Block → Departure → Bool
  | leavable label, .leave target => target == label
  | leavable label, .restart => label.isNone
  | repeatable label, .again target => target == label
  | _, _ => false

end EvmFlow
