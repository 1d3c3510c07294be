import WriteBack.CommandLine.Execute

/-!
# WriteBack.Main

The program: reads its arguments and the configuration file, executes the command, and prints.
-/

namespace WriteBack.CommandLine

/-- The contents of a file, if it can be read. -/
def contentsOf (path : String) : IO (Option ByteArray) := do
  try
    return some (← IO.FS.readBinFile path)
  catch _ => return none

/-- Prints an answer and gives its exit code. -/
def printReply (r : Reply) : IO UInt32 := do
  r.out.forM IO.println
  r.err.forM IO.eprintln
  return r.exit

end WriteBack.CommandLine

open WriteBack CommandLine

/-- The program. -/
def main (args : List String) : IO UInt32 := do
  match parse args with
  | .error stop => printReply stop.reply
  | .ok command =>
    let file ← match command.options.config with
      | none => pure none
      | some path => contentsOf path
    let start ← IO.monoNanosNow
    let outcome ← IO.lazyPure fun _ => command.execute file
    let stop ← IO.monoNanosNow
    printReply (command.reply (some (stop - start)) outcome)
