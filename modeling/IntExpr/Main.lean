import IntExpr.CommandLine.Run

/-!
# Main — the command line program

Reads the surroundings of a run, runs it, and carries out what it leaves behind.
-/

namespace IntExpr.CommandLine

/-- The settings' environment variables that are set. -/
def readVariables : IO (List (String × String)) :=
  Setting.all.filterMapM fun s => do
    return (← IO.getEnv s.variableName).map (s.variableName, ·)

/-- Carry out an outcome; a file that cannot be written ends the program by itself. -/
def Outcome.carryOut (o : Outcome) : IO UInt32 := do
  for (path, text) in o.files do
    IO.FS.writeFile path text
  IO.print o.stdout
  IO.eprint o.stderr
  match o.ending with
  | .crashed (.limit e) => IO.eprintln e.message
  | .crashed (.rejected c) => IO.eprintln c.rejection
  | _ => pure ()
  return o.ending.exitCode.toUInt32

end IntExpr.CommandLine

/-- The program: its exit code is that of its run. -/
def main (args : List String) : IO UInt32 := do
  let s : IntExpr.CommandLine.Surroundings :=
    { environment := ← IntExpr.CommandLine.readVariables, hasDirectory := fun _ => true }
  (IntExpr.CommandLine.run s args).carryOut
