import SeriesParallel.CommandLine

/-!
# Main — the program

The outer layer: it reads standard input when a request needs it and writes
what the request leaves behind.
-/

open SeriesParallel CommandLine

/-- Runs the program. -/
def main (args : List String) : IO UInt32 := do
  let request := Request.ofArguments args
  let input ← if request.readsInput then (← IO.getStdin).readBinToEnd else pure ByteArray.empty
  let outcome := request.run input
  (← IO.getStdout).putStr outcome.output
  (← IO.getStderr).putStr outcome.errors
  return outcome.code.toUInt32
