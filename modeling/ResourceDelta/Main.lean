import ResourceDelta.CommandLine

/-!
# The program

Reads the files that the arguments name, runs the batch that they ask for, and writes the fragments
to standard output and everything else to standard error.
-/

set_option autoImplicit false

open ResourceDelta

/-- The content of a file, if it can be read as text. -/
def readFile (file : String) : IO (String × Option String) := do
  try
    let text ← IO.FS.readFile file
    return (file, some text)
  catch _ => return (file, none)

/-- Writes a text to standard output, and tells whether it could be written. -/
def writeOutput (text : String) : IO Bool := do
  try
    IO.print text
    (← IO.getStdout).flush
    return true
  catch _ => return false

def main (arguments : List String) : IO UInt32 := do
  match Batch.ofArguments? arguments with
  | none =>
    IO.eprintln "usage: compare [OPTIONS] <DEFINITIONS>..."
    return 2
  | some batch =>
    let contents ← (batch.config.toList ++ batch.definitions).mapM readFile
    let report ← batch.runWith .yaml (fun file => (contents.lookup file).join) writeOutput
    for error in report.skipped do
      let texts := error.message :: error.causes
      IO.eprintln ("skipping resource definition: " ++ ": ".intercalate texts)
    for line in (report.error.map BatchError.report).getD [] do
      IO.eprintln line
    return report.exitCode.toUInt32
