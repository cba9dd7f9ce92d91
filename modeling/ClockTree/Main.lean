import ClockTree.CommandLine

/-! The program. -/

def main (arguments : List String) : IO UInt32 := do
  let outcome := (ClockTree.Command.ofArguments arguments).run
  (← IO.getStdout).putStr outcome.stdout
  (← IO.getStderr).putStr outcome.stderr
  return outcome.exit
