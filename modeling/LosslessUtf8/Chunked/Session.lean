import LosslessUtf8.Chunked.Limits
import LosslessUtf8.Decoding
import LosslessUtf8.Memory

/-!
# Chunked sessions

A session decodes input that arrives in reads. What one read leaves undecoded is put in front of the
next; the empty read that ends the input also says that nothing follows. Within a read the scalars
come in pieces of limited length. A session is the list of what happens in it, in order, and each
event may leave a note in a log. It needs memory, for the scalars of a piece and for the bytes of a
read; without that nothing is decoded at all.
-/

namespace LosslessUtf8

/-! ## Logs -/

namespace Log

/-- How much a record matters. -/
inductive Level where
  | debug
  | warning
  deriving DecidableEq, Repr

/-- The name of a level in a record. -/
def Level.name : Level → String
  | .debug => "DEBUG"
  | .warning => "WARNING"

/-- A note under the name of what made it. -/
structure Record where
  level : Level
  logger : String
  message : String
  deriving DecidableEq, Repr

/-- A record as one line. -/
def Record.line (record : Record) : String :=
  record.level.name ++ " " ++ record.logger ++ ": " ++ record.message

/-- Warnings are always shown; the rest only on request. -/
def Record.isShown (verbose : Bool) (record : Record) : Bool :=
  verbose || record.level == .warning

end Log

/-! ## Events -/

namespace Chunked

/-- What happens in a session. -/
inductive Event where
  /-- Some scalars were decoded. -/
  | piece (text : Text)
  /-- A read ended inside a sequence, and some bytes are carried over to the next read. -/
  | carried (count : Nat)
  /-- The input ended after a number of bytes in all. -/
  | finished (total : Nat)
  deriving DecidableEq, Repr

namespace Event

/-- The scalars that an event brings, if it brings any. -/
def piece? : Event → Option Text
  | .piece text => some text
  | _ => none

/-- The note that an event leaves in the log, if it leaves any. -/
def record? : Event → Option Log.Record
  | .piece _ => none
  | .carried count =>
    some (note ("Carrying " ++ toString count ++ " pending byte(s) to the next chunk"))
  | .finished total => some (note ("Decoded " ++ toString total ++ " bytes from stream"))
where
  note (message : String) : Log.Record := ⟨.debug, "utf8b.streaming.stream", message⟩

end Event

/-! ## Decoding -/

/-- Decodes a window, one run of limited length after the other. The pieces are put behind events
that are there already, in reverse; the second answer is what is left of the window. -/
def drain (limits : Limits) (final : Bool) (reversed : List Event) (window : Bytes) :
    List Event × Bytes :=
  let progress := Decoding.fill final limits.capacity window
  let reversed := if progress.text.isEmpty then reversed else .piece progress.text :: reversed
  if _ : progress.stop = .outputFull then drain limits final reversed progress.rest
  else (reversed, progress.rest)
termination_by window.length
decreasing_by
  exact Decoding.length_rest_lt_of_stop_eq_outputFull limits.capacity_pos ‹_›

/-- Decodes the bytes that are pending together with a read, and notes what is left of them. -/
def receive (limits : Limits) (final : Bool) (reversed : List Event) (pending read : Bytes) :
    List Event × Bytes :=
  let drained := drain limits final reversed (pending ++ read)
  if drained.2.isEmpty then drained else (.carried drained.2.length :: drained.1, drained.2)

/-- Goes on with a session in which `total` bytes were read so far and some of them are pending. -/
def resume (limits : Limits) (reversed : List Event) (pending : Bytes) (total : Nat) :
    List Bytes → List Event
  | [] | [] :: _ => (.finished total :: (receive limits true reversed pending []).1).reverse
  | read :: reads =>
    let received := receive limits false reversed pending read
    resume limits received.1 received.2 (total + read.length) reads

/-- All that happens while input is decoded that arrives in the given reads. The first empty read
ends the input, as does the end of the list. -/
def session (limits : Limits) (reads : List Bytes) : List Event :=
  resume limits [] [] 0 reads

/-- Cuts bytes into reads of a given size, behind reads that are there already, in reverse. -/
def cutOnto (size : Nat) (positive : 0 < size) (reversed : List Bytes) (bytes : Bytes) :
    List Bytes :=
  if bytes.isEmpty then reversed.reverse
  else cutOnto size positive (bytes.take size :: reversed) (bytes.drop size)
termination_by bytes.length
decreasing_by
  cases bytes with
  | nil => contradiction
  | cons byte bytes =>
    simp only [List.length_drop, List.length_cons]
    omega

/-- The reads in which a file hands out its bytes: all of them as large as may be. -/
def Limits.cut (limits : Limits) (bytes : Bytes) : List Bytes :=
  cutOnto limits.chunkSize limits.chunkSize_pos [] bytes

/-- What a stream answers to being read: some reads, up to the end of the input, or the fault that
the first of them ends in. -/
abbrev Stream := Except Memory.Fault (List Bytes)

/-- A file as a stream. Every read takes a buffer of the size that is asked for. -/
def Limits.stream (limits : Limits) (memory : Memory) (content : Bytes) : Stream := do
  memory.buffer limits.chunkSize
  return limits.cut content

/-- Decodes a stream, if there is memory for it. The slots for a piece are set aside before anything
is read. -/
def decodeStream (memory : Memory) (limits : Limits) (stream : Stream) :
    Except Memory.Fault (List Event) := do
  memory.slots limits.capacity
  return session limits (← stream)

/-- The pieces of text of a session. -/
def pieces (events : List Event) : List Text :=
  events.filterMap Event.piece?

/-- The log of a session. -/
def records (events : List Event) : List Log.Record :=
  events.filterMap Event.record?

end Chunked

end LosslessUtf8
