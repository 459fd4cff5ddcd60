/-
The console program: it runs, explains and completes command lines.
-/
import CommandLines.Console.Report

namespace CommandLines.Console

/-- The text of a file, if it can be read. -/
def contents? (path : String) : IO (Option String) := do
  try return some (← IO.FS.readFile path) catch _ => return none

/-- Answer a request on the standard output; misuse and asides go to the standard error. -/
def serve (arguments : List String) : IO UInt32 := do
  let output ← IO.getStdout
  let format := if ← output.isTty then Format.pretty else .json
  match Invocation.ofArguments format arguments with
  | .error misuse =>
    IO.eprintln ("error: " ++ misuse.message)
    return badUse.toUInt32
  | .ok invocation =>
    let text? ← match invocation.file? with
      | none => pure none
      | some path => contents? path
    let report := invocation.report text?
    output.putStr report.output
    for aside in report.asides do IO.eprintln aside
    return report.status.toUInt32

end CommandLines.Console

def main (arguments : List String) : IO UInt32 := CommandLines.Console.serve arguments
