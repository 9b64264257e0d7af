import Stepwise.CommandLine

/-!
# The program

Reads the file that the command line names and writes the result.
-/

namespace Stepwise.CommandLine

/-- The content of a file, if it can be read. -/
def readContent (path : String) : IO (Option ByteArray) := do
  try
    return some (← IO.FS.readBinFile path)
  catch _ =>
    return none

/-- The content of the file a request needs, if it needs one and it can be
read. -/
def Request.readContent (request : Request) : IO (Option ByteArray) :=
  match request.path? with
  | some path => CommandLine.readContent path
  | none => pure none

end Stepwise.CommandLine

open Stepwise

/-- Answers the command line on the output streams and with the exit code. -/
def main (arguments : List String) : IO UInt32 := do
  let request := CommandLine.Request.ofArguments arguments
  let result := request.run (← request.readContent)
  (← IO.getStdout).putStr result.output
  (← IO.getStderr).putStr result.errors
  return result.code.toUInt32
