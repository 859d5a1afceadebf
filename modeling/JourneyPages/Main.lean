import JourneyPages.CommandLine

/-!
The command: reads the files named by its arguments and prints the answer.
-/
namespace JourneyPages.CommandLine

/-- The text of a file, if it can be had. -/
def readText (path : String) : IO (Option String) := do
  try
    return some (← IO.FS.readFile path)
  catch _ => return none

end JourneyPages.CommandLine

open JourneyPages.CommandLine in
def main (arguments : List String) : IO UInt32 := do
  let outcome := run (← (arguments.take 2).mapM readText)
  (← IO.getStdout).putStr outcome.output
  (← IO.getStderr).putStr outcome.errors
  return UInt32.ofNat outcome.exitCode
