import Packrat.Cli.Program

/-!
# Main — the program

Reads files and standard input, runs `Cli.run` and writes what it says.
-/

namespace Packrat.Cli

/-- The bytes of a source, if it can be read. -/
def readSource (source : Source) : IO (Option (Array UInt8)) := do
  try
    let bytes ← match source with
      | .stdin => (← IO.getStdin).readBinToEnd
      | .file path => IO.FS.readBinFile path
    return some bytes.data
  catch _ => return none

end Packrat.Cli

open Packrat.Cli in
/-- Runs the program on the arguments of the process. -/
def main (args : List String) : IO UInt32 := do
  let env : Environment := {
    term := ← IO.getEnv "TERM"
    noColor := (← IO.getEnv "NO_COLOR").isSome }
  let exit ← run readSource env args
  IO.print exit.stdout
  match exit.diagnostic? with
  | none => pure ()
  | some d =>
    IO.eprintln d.code
    IO.eprintln s!"error: {d.message}"
    match d.help? with
    | some help => IO.eprintln s!"help: {help}"
    | none => pure ()
  return UInt32.ofNat exit.status
