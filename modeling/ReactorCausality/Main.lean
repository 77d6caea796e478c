import ReactorCausality.CommandLine.Command

/-!
The command on a terminal: the files that the command line names are read, and everything else is
left to `Command.run`.
-/

/-- The texts of files, as far as they can be read. -/
def readTexts (paths : List String) : IO (List (String × String)) :=
  paths.filterMapM fun (path : String) => do
    try
      let text ← IO.FS.readFile path
      return some (path, text)
    catch _ => return none

def main (arguments : List String) : IO UInt32 := do
  let texts ← readTexts (ReactorCausality.Command.paths arguments)
  let outcome := ReactorCausality.Command.run (fun path => texts.lookup path) arguments
  IO.print outcome.output
  IO.eprint outcome.errors
  return UInt32.ofNat outcome.exitCode
