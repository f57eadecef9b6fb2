import FormulaEngine.CommandLine

/-!
# The program

Prints what the command line asks for.
-/

/-- Run the command line. -/
def main (words : List String) : IO UInt32 := do
  let outcome := FormulaEngine.CommandLine.run words
  (← IO.getStdout).putStr outcome.output
  (← IO.getStderr).putStr outcome.errors
  return outcome.code.toUInt32
