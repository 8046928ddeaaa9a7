import LosslessUtf8.CommandLine.Settings
import LosslessUtf8.Files
import LosslessUtf8.Report

/-!
# Runs of the program

What a run of the program prints and how it ends, given its arguments, a way to look up files and
the memory of the machine that it runs on.
-/

namespace LosslessUtf8.CommandLine

/-- How a run ends. -/
structure Result where
  exitCode : Nat
  stdout : String
  stderr : String
  deriving DecidableEq, Repr

/-- The log as far as it is shown, one record a line. -/
def showLog (verbose : Bool) (records : List Log.Record) : String :=
  String.join ((records.filter (·.isShown verbose)).map fun record => record.line ++ "\n")

/-- The line that reports why there is no report. -/
def failureLine (reason : String) : String :=
  "Error analyzing file: " ++ reason ++ "\n"

/-- The words in which it is reported that a path leads to a directory. -/
def directoryMessage (path : Path) : String :=
  "[Errno 21] Is a directory: " ++ Quoted.ofString path.toString

/-- The words in which it is reported that the chunk size was asked for without a number. -/
def sizelessMessage : String :=
  "'<=' not supported between instances of 'list' and 'int'"

/-- The limits that the settings ask for, or why there are none. -/
def limitsOf (settings : Settings) : Except String Chunked.Limits :=
  match settings.chunkSize? with
  | none => .error sizelessMessage
  | some chunkSize =>
    (Chunked.Limits.ofInts chunkSize Chunked.Limits.defaultCapacity).mapError (·.message)

/-- Reports on what a path leads to. -/
def analyze (memory : Memory) (settings : Settings) (path : Path) (entry : Entry) : Result :=
  match limitsOf settings with
  | .error reason => ⟨1, "", failureLine reason⟩
  | .ok limits =>
    match entry with
    | .file content =>
      let subject : Report.Subject := ⟨path.name, path.toString, content.length⟩
      match Report.analyze memory subject limits (limits.stream memory content) content with
      | (.error failure, records) =>
        ⟨1, "", showLog settings.verbose records ++ failureLine failure.message⟩
      | (.ok report, records) =>
        ⟨if report.lossless then 0 else 1, report.render subject,
          showLog settings.verbose records⟩
    | _ =>
      let opening := Report.opening path.toString limits
      ⟨1, "", showLog settings.verbose [opening] ++ failureLine (directoryMessage path)⟩

/-- Runs the program. -/
def run (memory : Memory) (arguments : List String) (find : Path → Entry) : Result :=
  match Settings.ofArguments arguments with
  | .error .help => ⟨0, help, ""⟩
  | .error .version => ⟨0, versionLine, ""⟩
  | .error (.misuse misuse) =>
    ⟨2, "", usage ++ program ++ ": error: " ++ misuse.message ++ "\n"⟩
  | .ok settings =>
    if settings.path.isEmpty then ⟨0, help, ""⟩
    else
      let path := Path.ofString settings.path
      match find path with
      | .absent => ⟨1, "", "Error: File not found: " ++ path.toString ++ "\n"⟩
      | entry => analyze memory settings path entry

end LosslessUtf8.CommandLine
