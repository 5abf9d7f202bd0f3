import Blockflow.Command.Parser

/-!
# The program

Reads the files of a command, carries it out and prints what it leaves behind.
-/

open Blockflow

def readText (path : String) : IO (Option String) := do
  try return some (← IO.FS.readFile path)
  catch _ => return none

def writeResult : Option (String × String) → IO Bool
  | none => return true
  | some (path, text) => do
    try
      IO.FS.writeFile path text
      return true
    catch _ =>
      IO.eprintln s!"Error: writing {path}"
      return false

/-- Carry out a command line: 2 stands for one that cannot be read, 1 for a failure. -/
def main (line : List String) : IO UInt32 := do
  match Command.parse? line with
  | none =>
    IO.eprintln Command.usage
    return 2
  | some command =>
    let files ← command.inputs.mapM fun path => return (path, ← readText path)
    let outcome := command.execute fun path => (files.lookup path).join
    IO.print outcome.output
    if ← writeResult outcome.written then
      IO.eprint outcome.errors
      return if outcome.succeeded then 0 else 1
    else return 1
