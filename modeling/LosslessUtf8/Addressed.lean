import LosslessUtf8.Position
import LosslessUtf8.Transfer

/-!
# Conversion by address

The conversions between buffers as loops over positions. Every scalar, byte and slot is addressed on
its own at the moment it is needed, and any of the addresses may turn out to lie outside its buffer.
A loop over input ends at a given stop, a loop over output at the end of its room. Encoding is also
done with the input cut out beforehand, so that its output alone is addressed (`place`).
-/

namespace LosslessUtf8

/-! ## Addressing output alone -/

/-- Places a text from a position of a buffer on; `index` is where in the whole text it starts. -/
def placeFrom (output : Bytes) (position index : Nat) : Text → Position.Stored Encoding.Outcome
  | [] => ⟨output, .ok (.encoded position)⟩
  | scalar :: text =>
    if scalar.Encodable then
      let stored := Position.store scalar output position output.length
      match stored.result with
      | .error fault => ⟨stored.output, .error fault⟩
      | .ok 0 => ⟨stored.output, .ok (.full position index)⟩
      | .ok written => placeFrom stored.output (position + written) (index + 1) text
    else ⟨output, .ok (.unencodable ⟨scalar, index⟩)⟩

/-- Places a span of a text in a buffer, as far as the buffer reaches. -/
def place (text : Text) (output : Bytes) (given : EncodeArguments) :
    Position.Stored Encoding.Outcome :=
  match given.resolve text.length output.length with
  | .error rejection => ⟨output, .ok (.rejected rejection)⟩
  | .ok plan => placeFrom output plan.outputStart plan.input.start (plan.input.slice text)

namespace Position

/-- The item at a position of a buffer. -/
def fetch {α : Type} (buffer : List α) (position : Int) : Except AddressFault α :=
  (locate buffer.length position).map buffer.get

theorem gather_succ_ne_nil (data : Bytes) (position : Int) (count : Nat) :
    gather data position (count + 1) ≠ ([], none) := by
  rw [gather]
  cases locate data.length position with
  | error fault => simp
  | ok index => simp

/-- Between two positions in order, at least one byte is read. -/
theorem length_pos_of_load {data : Bytes} {position stop : Nat} {final : Bool} {loaded : Loaded}
    (inside : position < stop) (read : load data position stop final = .ok loaded) :
    0 < loaded.length := by
  obtain ⟨count, available⟩ : ∃ count, min 4 ((stop : Int) - position).toNat = count + 1 :=
    Nat.exists_eq_add_one.2 (by omega)
  rw [load, available] at read
  split at read
  · next nothing => exact (gather_succ_ne_nil data position count nothing).elim
  · contradiction
  · next lead rest fault gathered =>
      split at read
      · next found behind scanned =>
          cases read
          exact List.length_pos_iff.2 (Token.bytes_ne_nil_of_scan scanned)
      · contradiction
      · have remains : 0 < ((stop : Int) - position).toNat := by omega
        cases read
        cases final with
        | true => exact Nat.zero_lt_one
        | false => exact remains

end Position

namespace Addressed

/-! ## Measuring -/

/-- Adds the widths of the scalars of a text, from an index up to a stop, to a total. -/
def widthFrom (text : Text) (stop index total : Nat) : Except AddressFault Nat :=
  if index < stop then
    match Position.fetch text index with
    | .error fault => .error fault
    | .ok scalar => widthFrom text stop (index + 1) (total + scalar.width)
  else .ok total
termination_by stop - index

/-- Counts the scalars that some bytes decode to, from a position up to a stop that nothing
follows. -/
def countFrom (data : Bytes) (stop position counted : Nat) : Except AddressFault Nat :=
  if position < stop then
    match read : Position.load data position stop true with
    | .error fault => .error fault
    | .ok loaded => countFrom data stop (position + loaded.length) (counted + 1)
  else .ok counted
termination_by stop - position
decreasing_by
  have positive := Position.length_pos_of_load ‹position < stop› read
  omega

theorem countFrom_of_before {data : Bytes} {stop position : Nat} (before : position < stop)
    (counted : Nat) :
    countFrom data stop position counted =
      match Position.load data position stop true with
      | .error fault => .error fault
      | .ok loaded => countFrom data stop (position + loaded.length) (counted + 1) := by
  rw [countFrom, if_pos before]
  split
  · next fault missing => rw [missing]
  · next loaded read => rw [read]

/-- The width of a span of a text. -/
def widthWithin (text : Text) (start stop : Argument) :
    Except AddressFault (Except Rejection Nat) :=
  match EncodeArguments.resolve { start, stop } text.length 0 with
  | .error rejection => .ok (.error rejection)
  | .ok plan => (widthFrom text plan.input.stop plan.input.start 0).map .ok

/-- The number of scalars that a span of some bytes decodes to when nothing follows it. -/
def tokenCountWithin (bytes : Bytes) (start stop : Argument) :
    Except AddressFault (Except Rejection Nat) :=
  match DecodeArguments.resolve { start, stop } bytes.length 0 with
  | .error rejection => .ok (.error rejection)
  | .ok plan => (countFrom bytes plan.input.stop plan.input.start 0).map .ok

/-! ## Encoding -/

/-- Places the scalars of a text, from an index up to a stop, one by one in a buffer. -/
def encodeFrom (text : Text) (stop : Nat) (output : Bytes) (position index : Nat) :
    Position.Stored Encoding.Outcome :=
  if index < stop then
    match Position.fetch text index with
    | .error fault => ⟨output, .error fault⟩
    | .ok scalar =>
      let placed := placeFrom output position index [scalar]
      match placed.result with
      | .ok (.encoded reached) => encodeFrom text stop placed.output reached (index + 1)
      | _ => placed
  else ⟨output, .ok (.encoded position)⟩
termination_by stop - index

/-- Encodes a span of a text into a buffer, as far as the buffer reaches. -/
def encodeInto (text : Text) (output : Bytes) (given : EncodeArguments) :
    Position.Stored Encoding.Outcome :=
  match given.resolve text.length output.length with
  | .error rejection => ⟨output, .ok (.rejected rejection)⟩
  | .ok plan => encodeFrom text plan.input.stop output plan.outputStart plan.input.start

/-! ## Decoding -/

/-- Slots after an attempt to fill some of them, and what came of the attempt. -/
structure Filled (α : Type) where
  slots : Text
  result : Except AddressFault α
  deriving Repr

/-- Where a loop over some bytes and some slots ended, and why. -/
structure Halt where
  position : Nat
  slot : Nat
  stop : Decoding.Stop
  deriving DecidableEq, Repr

/-- Decodes some bytes, from a position up to a stop, into the slots that are in a room from a slot
on. -/
def decodeFrom (data : Bytes) (final : Bool) (stop : Nat) (slots : Text) (position slot : Nat) :
    (room : Nat) → Filled Halt
  | 0 =>
    if position < stop then ⟨slots, .ok ⟨position, slot, .outputFull⟩⟩
    else ⟨slots, .ok ⟨position, slot, .inputExhausted⟩⟩
  | room + 1 =>
    if position < stop then
      match Position.load data position stop final with
      | .error fault => ⟨slots, .error fault⟩
      | .ok loaded =>
        match loaded.scalar? with
        | none => ⟨slots, .ok ⟨position, slot, .incomplete⟩⟩
        | some scalar =>
          match Position.locate slots.length slot with
          | .error fault => ⟨slots, .error fault⟩
          | .ok index =>
            decodeFrom data final stop (slots.set index scalar) (position + loaded.length)
              (slot + 1) room
    else ⟨slots, .ok ⟨position, slot, .inputExhausted⟩⟩

/-- Decodes a span of some bytes into a span of slots. -/
def decodeInto (bytes : Bytes) (slots : Text) (given : DecodeArguments) :
    Filled Decoding.Outcome :=
  match given.resolve bytes.length slots.length with
  | .error rejection => ⟨slots, .ok (.rejected rejection)⟩
  | .ok plan =>
    let filled := decodeFrom bytes plan.final plan.input.stop slots plan.input.start
      plan.output.start plan.output.size
    ⟨filled.slots, filled.result.map fun halt =>
      .decoded (halt.position - plan.input.start) (halt.slot - plan.output.start) halt.stop⟩

end Addressed

end LosslessUtf8
