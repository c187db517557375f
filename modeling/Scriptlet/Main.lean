import Scriptlet.CommandLine.Run

/-!
# The command line

## Main definitions

* `main` — reads the file of a command, runs it and prints what comes of it.
-/

namespace Scriptlet

/-- The text of a file, if it can be read. -/
def textOfFile? (path : String) : IO (Option String) := do
  try return some (← IO.FS.readFile path)
  catch _ => return none

/-- Prints the lines that a command leaves behind, and gives its exit code. -/
def leave (o : Output) : IO UInt32 := do
  for line in o.notices do IO.eprintln line
  for line in o.printed do IO.println line
  return o.code.toUInt32

end Scriptlet

open Scriptlet in
/-- Runs the command that the arguments hold. -/
def main (arguments : List String) : IO UInt32 := do
  match Command.ofArguments? arguments with
  | none => leave .usage
  | some c =>
    let file? ← match c.path? with
      | some path => textOfFile? path
      | none => pure none
    leave (c.run .tall file?)
