import LosslessUtf8.Chunked.Session
import LosslessUtf8.Encoding

/-!
# Reports

A report on some content says how many scalars it decodes to, how many of them are escapes, and
whether encoding them gives the content back. The content is decoded chunk by chunk; each piece is
encoded again and held against the bytes that a second look at the content has in the same place.
There is no report if memory is lacking, or if a piece could not be encoded.
-/

namespace LosslessUtf8

/-- What is known about content. -/
structure Report where
  scalars : Nat
  escapes : Nat
  lossless : Bool
  deriving DecidableEq, Repr

namespace Report

/-- What the analysis of some content is about: the name and the place under which it is reported,
and its size as its keeper knows it. -/
structure Subject where
  name : String
  path : String
  size : Nat
  deriving DecidableEq, Repr

/-- Why there is no report. -/
inductive Failure where
  /-- A piece cannot be encoded. -/
  | unencodable (failure : Unencodable)
  /-- There is no memory to decode the content. -/
  | outOfMemory (fault : Memory.Fault)
  deriving DecidableEq, Repr

/-- The words in which a failure is reported. -/
def Failure.message : Failure → String
  | .unencodable failure => failure.message
  | .outOfMemory fault => fault.message

/-- An analysis as far as it has come. `expected` is what a second look has not been compared yet,
and the log is in reverse. -/
structure Progress where
  scalars : Nat
  escapes : Nat
  size : Nat
  lossless : Bool
  expected : Bytes
  log : List Log.Record
  deriving DecidableEq, Repr

/-- A note of the analysis. -/
def note (level : Log.Level) (message : String) : Log.Record :=
  ⟨level, "utf8b.cli.analyze", message⟩

/-- Takes a piece into account. Once the comparison has failed it is not taken up again. -/
def Progress.addPiece (progress : Progress) (text : Text) : Except Unencodable Progress := do
  let bytes ← encode text
  let size := progress.size + bytes.length
  let counted :=
    { progress with
      scalars := progress.scalars + text.length
      escapes := progress.escapes + text.escapeCount
      size := size }
  if ¬ progress.lossless then return counted
  else if progress.expected.take bytes.length == bytes then
    return { counted with expected := progress.expected.drop bytes.length }
  else
    let mismatch := note .debug
      ("Mismatch in the " ++ toString bytes.length ++ " bytes ending at offset " ++ toString size)
    return { counted with
      lossless := false
      log := mismatch :: progress.log }

/-- Takes the events of a session into account, each with the session's own note of it, up to the
first piece that cannot be encoded. -/
def Progress.follow (progress : Progress) :
    List Chunked.Event → Progress × Option Unencodable
  | [] => (progress, none)
  | event :: events =>
    match event.piece? with
    | none => follow { progress with log := event.record?.toList ++ progress.log } events
    | some text =>
      match progress.addPiece text with
      | .ok next => follow next events
      | .error failure => (progress, some failure)

/-- The note with which an analysis starts. -/
def opening (path : String) (limits : Chunked.Limits) : Log.Record :=
  note .debug ("Analyzing " ++ path ++ " with chunk size " ++ toString limits.chunkSize)

/-- The warning with which an analysis ends that found a difference. -/
def warning (path : String) : Log.Record :=
  note .warning ("Round-trip mismatch for " ++ path)

/-- Analyses content that is decoded from a stream, and compares it with what a second look finds.
The content is lossless if nothing is left over there either. The log tells what was done. -/
def analyze (memory : Memory) (subject : Subject) (limits : Chunked.Limits)
    (stream : Chunked.Stream) (expected : Bytes) : Except Failure Report × List Log.Record :=
  let opened := opening subject.path limits
  match Chunked.decodeStream memory limits stream with
  | .error fault => (.error (.outOfMemory fault), [opened])
  | .ok events =>
    let start : Progress := ⟨0, 0, 0, true, expected, [opened]⟩
    match start.follow events with
    | (progress, some failure) => (.error (.unencodable failure), progress.log.reverse)
    | (progress, none) =>
      let lossless := progress.lossless && progress.expected.isEmpty
      let log := if lossless then progress.log else warning subject.path :: progress.log
      (.ok ⟨progress.scalars, progress.escapes, lossless⟩, log.reverse)

/-- The width of a line of a report from its label to its value. -/
def valueColumn : Nat := 38

/-- A label and its value, with dots between them. -/
def row (label value : String) : String :=
  label ++ String.ofList (List.replicate (valueColumn - label.length) '.') ++ value ++ "\n"

/-- A report in words, one line each under a title. -/
def render (report : Report) (subject : Subject) : String :=
  let rule := String.ofList (List.replicate 19 '=')
  rule ++ " " ++ subject.name ++ " " ++ rule ++ "\n" ++
    row "Bytes" (toString subject.size) ++
    row "Scalars" (toString report.scalars) ++
    row "Escaped bytes" (toString report.escapes) ++
    row "Well-formed UTF-8" (if report.escapes = 0 then "yes" else "no") ++
    row "Lossless round-trip" (if report.lossless then "yes" else "NO")

end Report

end LosslessUtf8
