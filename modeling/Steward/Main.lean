import Steward.Cli

/-!
# The program

Reads the files that the arguments name, carries out the command, and prints what comes of it.
-/

open Steward

/-- The text of a file that can be read. -/
def readText (path : String) : IO (Option (String × String)) := do
  try
    let text ← IO.FS.readFile path
    return some (path, text)
  catch _ => return none

def main (args : List String) : IO UInt32 := do
  let request := Cli.Request.ofArguments args
  let files ← request.paths.filterMapM readText
  let report := request.report fun path => List.lookup path files
  IO.print report.output
  IO.eprint report.complaint
  return UInt32.ofNat report.exit
