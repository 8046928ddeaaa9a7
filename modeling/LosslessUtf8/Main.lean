import LosslessUtf8.CommandLine.Run

/-!
# The program

Looks up the file that the arguments ask for, runs, and prints.
-/

namespace LosslessUtf8.CommandLine

/-- What a path leads to in the file system. -/
def entryOf (path : Path) : IO Entry := do
  match ← (IO.FS.realPath path.toString).toBaseIO with
  | .error _ => return .absent
  | .ok place =>
    if ← place.isDir then return .directory
    else return .file (← IO.FS.readBinFile place).toList

/-- The path that the arguments ask for, if it matters what it leads to. -/
def pathAsked (arguments : List String) : Option Path :=
  match Settings.ofArguments arguments with
  | .ok settings => if settings.path.isEmpty then none else some (.ofString settings.path)
  | .error _ => none

/-- Runs the program and prints what it has to say. The machine is not asked in advance how much
memory it has. -/
def execute (arguments : List String) : IO UInt32 := do
  let entry ← match pathAsked arguments with
    | some path => entryOf path
    | none => pure .absent
  let result := run .ample arguments fun _ => entry
  (← IO.getStdout).putStr result.stdout
  (← IO.getStderr).putStr result.stderr
  return .ofNat result.exitCode

end LosslessUtf8.CommandLine

def main (arguments : List String) : IO UInt32 :=
  LosslessUtf8.CommandLine.execute arguments
