import Trellis.CommandLine

/-!
# The program

Reads the file that the arguments name, prints the report on standard output, and what went wrong
on standard error.
-/

open Trellis CommandLine

/-- The text of the file that the options name, if it can be read. -/
def readSource (o : Options) : IO (Option String) := do
  match o.source with
  | some (.file path) => try return some (← IO.FS.readFile path) catch _ => return none
  | _ => return none

def main (arguments : List String) : IO UInt32 := do
  let fail (f : Failure) : IO UInt32 := do
    IO.eprintln f.message
    return f.exitCode.toUInt32
  match Options.parse arguments with
  | .error f => fail f
  | .ok o =>
    let text ← readSource o
    match execute o fun _ => text with
    | .error f => fail f
    | .ok out =>
      IO.print out
      return 0
