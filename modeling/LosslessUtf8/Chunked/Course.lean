import LosslessUtf8.Chunked.Session
import LosslessUtf8.Proofs.Spans

/-!
# Sessions in one row of slots

A session can do with one row of slots, which each run fills from its start again, and with a
position that tells how far the bytes at hand are used up. Here every conversion of the session is
asked for by its arguments and may turn them down, and the session is given up if there is no memory
for the row or for a read, or if bytes are pending behind its end. Main statement: a run that fills
the row uses up some bytes (`Row.lt_of_decode_eq_outputFull`), so draining ends.
-/

namespace LosslessUtf8.Chunked

/-- Why a session was given up. -/
inductive Failure where
  /-- There was no memory for it. -/
  | outOfMemory (fault : Memory.Fault)
  /-- A conversion turned its arguments down. -/
  | rejected (rejection : Rejection)
  /-- Some bytes are pending behind the end of the input. -/
  | leftOver (count : Nat)
  deriving DecidableEq, Repr

/-- The words in which a failure is reported. -/
def Failure.message : Failure → String
  | .outOfMemory fault => fault.message
  | .rejected rejection => "Cannot decode chunk: " ++ rejection.message
  | .leftOver count => toString count ++ " bytes still pending at end of stream"

/-! ## Courses -/

/-- What happens on the way to a value, in order, and the value, unless the way was given up. -/
structure Course (α : Type) where
  events : List Event
  outcome : Except Failure α

namespace Course

variable {α β : Type}

/-- The way that goes on behind the value of another. -/
def andThen (course : Course α) (next : α → Course β) : Course β :=
  match course.outcome with
  | .error failure => ⟨course.events, .error failure⟩
  | .ok value => ⟨course.events ++ (next value).events, (next value).outcome⟩

instance : Monad Course where
  pure value := ⟨[], .ok value⟩
  bind := andThen

/-- An event on the way. -/
def report (event : Event) : Course Unit :=
  ⟨[event], .ok ()⟩

/-- The end of the way without a value. -/
def giveUp (failure : Failure) : Course α :=
  ⟨[], .error failure⟩

/-- The way on with what was granted, or its end where that was nothing. -/
def ofGrant : Except Memory.Fault α → Course α
  | .ok value => pure value
  | .error fault => giveUp (.outOfMemory fault)

end Course

/-! ## The row -/

/-- A row of slots of fixed size. -/
structure Row (capacity : Nat) where
  slots : Text
  length_slots : slots.length = capacity

namespace Row

variable {capacity : Nat}

/-- Sets aside a row into which nothing was decoded yet. -/
def fresh (memory : Memory) (capacity : Nat) : Except Memory.Fault (Row capacity) := do
  memory.slots capacity
  return ⟨List.replicate capacity ⟨0⟩, List.length_replicate⟩

/-- Decodes bytes from a position on into the row. -/
def decode (row : Row capacity) (final : Bool) (bytes : Bytes) (position : Nat) :
    Decoding.Outcome × Row capacity :=
  let decoded := decodeInto bytes row.slots
    { start := .integer position, endOfInput := .boolean final }
  (decoded.1, ⟨decoded.2, (length_decodeInto _ _ _).trans row.length_slots⟩)

section Decode

variable (row : Row capacity) (final : Bool) {bytes : Bytes} {position : Nat}

theorem decode_fst_of_le (reached : position ≤ bytes.length) :
    (row.decode final bytes position).1 =
      (Decoding.fill final capacity (bytes.drop position)).outcome (bytes.drop position) := by
  have decoded := congrArg Prod.fst (@decodeInto_from bytes row.slots position final reached)
  rw [row.length_slots] at decoded
  exact decoded

theorem decode_fst_of_lt (beyond : bytes.length < position) :
    (row.decode final bytes position).1 =
      .rejected (.exceeds ⟨.input, position, bytes.length, bytes.length⟩) :=
  congrArg Prod.fst (decodeInto_of_lt beyond)

/-- What was decoded stands at the start of the row. -/
theorem take_slots_decode (reached : position ≤ bytes.length) {text : Text}
    (textIs : (Decoding.fill final capacity (bytes.drop position)).text = text) :
    (row.decode final bytes position).2.slots.take text.length = text := by
  have decoded := congrArg Prod.snd (@decodeInto_from bytes row.slots position final reached)
  rw [row.length_slots] at decoded
  have slots : (row.decode final bytes position).2.slots = overwrite row.slots 0 text :=
    textIs ▸ decoded
  rw [slots]
  exact take_drop_overwrite (Nat.zero_le _)

end Decode

/-- A run that fills the row uses up some of the bytes that are left. -/
theorem lt_of_decode_eq_outputFull {row after : Row capacity} {final : Bool} {bytes : Bytes}
    {position consumed produced : Nat} (positive : 0 < capacity)
    (decoded : row.decode final bytes position =
      (.decoded consumed produced .outputFull, after)) :
    position < bytes.length ∧ 0 < consumed := by
  have outcome := congrArg Prod.fst decoded
  rcases Nat.lt_or_ge bytes.length position with beyond | reached
  · rw [decode_fst_of_lt _ _ beyond] at outcome
    contradiction
  · rw [decode_fst_of_le _ _ reached] at outcome
    injection outcome with consumedIs _ full
    have shorter := Decoding.length_rest_lt_of_stop_eq_outputFull positive full
    rw [List.length_drop] at shorter consumedIs
    omega

end Row

/-! ## The session -/

/-- Decodes bytes from a position on, one run after the other, and answers the position behind the
last. -/
def drainInPlace (limits : Limits) (final : Bool) (bytes : Bytes) (row : Row limits.capacity)
    (position : Nat) : Course (Row limits.capacity × Nat) :=
  match _ : row.decode final bytes position with
  | (.rejected rejection, _) => .giveUp (.rejected rejection)
  | (.decoded consumed produced stop, row) => do
    if produced ≠ 0 then .report (.piece (row.slots.take produced))
    if _ : stop = .outputFull then
      drainInPlace limits final bytes row (position + consumed)
    else return (row, position + consumed)
termination_by bytes.length - position
decreasing_by
  subst stop
  have progress := Row.lt_of_decode_eq_outputFull limits.capacity_pos ‹_›
  omega

/-- Decodes the bytes that are pending together with a read, and answers what is left of them. -/
def receiveInPlace (limits : Limits) (final : Bool) (row : Row limits.capacity)
    (pending read : Bytes) : Course (Row limits.capacity × Bytes) := do
  let bytes := pending ++ read
  let (row, position) ← drainInPlace limits final bytes row 0
  let pending := bytes.drop position
  if ¬ pending.isEmpty then .report (.carried pending.length)
  return (row, pending)

/-- Receives reads behind which others may follow. -/
def feedInPlace (limits : Limits) (row : Row limits.capacity) (pending : Bytes) :
    List Bytes → Course (Row limits.capacity × Bytes)
  | [] => return (row, pending)
  | read :: reads => do
    let (row, pending) ← receiveInPlace limits false row pending read
    feedInPlace limits row pending reads

/-- Decodes reads into a row, and answers the bytes that are pending behind their end. The first
empty read ends the input, as does the end of the list. -/
def decodeInPlace (limits : Limits) (row : Row limits.capacity) (reads : List Bytes) :
    Course Bytes := do
  let reads := reads.takeWhile fun read => !read.isEmpty
  let (row, pending) ← feedInPlace limits row [] reads
  let (_, pending) ← receiveInPlace limits true row pending []
  if ¬ pending.isEmpty then .giveUp (.leftOver pending.length)
  .report (.finished reads.flatten.length)
  return pending

/-- A whole session in one row of slots, which is set aside before the stream is read. -/
def sessionInPlace (memory : Memory) (limits : Limits) (stream : Stream) : Course Bytes := do
  let row ← .ofGrant (Row.fresh memory limits.capacity)
  let reads ← .ofGrant stream
  decodeInPlace limits row reads

end LosslessUtf8.Chunked
