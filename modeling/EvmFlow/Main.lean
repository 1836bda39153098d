import EvmFlow.Command

/-!
# The program

Prints what the command answers for its arguments.
-/

/-- Prints what the command answers for its arguments. -/
def main (args : List String) : IO Unit := IO.print (EvmFlow.Command.run args)
