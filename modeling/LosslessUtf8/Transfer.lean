import LosslessUtf8.Arguments
import LosslessUtf8.Decoding
import LosslessUtf8.Encoding

/-!
# Conversion between buffers

Encoding and decoding from a span of one buffer into another buffer of fixed size. All positions in
an outcome are positions of the buffers and not of the spans. The buffer written to keeps its size,
and what was converted before a stop stays in it.
-/

namespace LosslessUtf8

/-- A buffer after items were written over it from a position on. -/
def overwrite {α : Type} (buffer : List α) (position : Nat) (items : List α) : List α :=
  buffer.take position ++ items ++ buffer.drop (position + items.length)

/-- Items that fit into a buffer leave its size as it is. -/
theorem length_overwrite {α : Type} {buffer items : List α} {position : Nat}
    (fits : position + items.length ≤ buffer.length) :
    (overwrite buffer position items).length = buffer.length := by
  simp only [overwrite, List.length_append, List.length_take, List.length_drop]
  omega

@[simp] theorem overwrite_nil {α : Type} (buffer : List α) (position : Nat) :
    overwrite buffer position [] = buffer := by
  simp [overwrite]

namespace Encoding

/-- What came of encoding into a buffer. -/
inductive Outcome where
  /-- All is written; the position is the one behind the last byte. -/
  | encoded (position : Nat)
  /-- A scalar has no byte form. -/
  | unencodable (failure : Unencodable)
  /-- The scalar at the index does not fit at the position. -/
  | full (position index : Nat)
  /-- Nothing was done. -/
  | rejected (rejection : Rejection)
  deriving DecidableEq, Repr

/-- The outcome of a run over the span from `start` that wrote from `outputStart` on. -/
def Progress.outcome (start outputStart : Nat) (progress : Progress) : Outcome :=
  match progress.stop with
  | .finished => .encoded (outputStart + progress.bytes.length)
  | .unencodable scalar => .unencodable ⟨scalar, start + progress.taken⟩
  | .full => .full (outputStart + progress.bytes.length) (start + progress.taken)

end Encoding

namespace Decoding

/-- What came of decoding into slots. -/
inductive Outcome where
  /-- Some bytes were used up and some slots filled. -/
  | decoded (consumed produced : Nat) (stop : Stop)
  /-- Nothing was done. -/
  | rejected (rejection : Rejection)
  deriving DecidableEq, Repr

/-- The outcome of a run over a window. -/
def Progress.outcome (window : Bytes) (progress : Progress) : Outcome :=
  .decoded (window.length - progress.rest.length) progress.text.length progress.stop

end Decoding

/-- Encodes a span of a text into a buffer, as far as the buffer reaches. -/
def encodeInto (text : Text) (output : Bytes) (given : EncodeArguments) :
    Encoding.Outcome × Bytes :=
  match given.resolve text.length output.length with
  | .error rejection => (.rejected rejection, output)
  | .ok plan =>
    let progress := Encoding.pack (output.length - plan.outputStart) (plan.input.slice text)
    (progress.outcome plan.input.start plan.outputStart,
      overwrite output plan.outputStart progress.bytes)

/-- Decodes a span of some bytes into a span of slots. -/
def decodeInto (bytes : Bytes) (slots : Text) (given : DecodeArguments) :
    Decoding.Outcome × Text :=
  match given.resolve bytes.length slots.length with
  | .error rejection => (.rejected rejection, slots)
  | .ok plan =>
    let window := plan.input.slice bytes
    let progress := Decoding.fill plan.final plan.output.size window
    (progress.outcome window, overwrite slots plan.output.start progress.text)

/-- Decoding never changes the number of slots. -/
theorem length_decodeInto (bytes : Bytes) (slots : Text) (given : DecodeArguments) :
    (decodeInto bytes slots given).2.length = slots.length := by
  unfold decodeInto
  split
  · rfl
  · next plan _ =>
    apply length_overwrite
    have inSpan := Decoding.length_text_le plan.final plan.output.size (plan.input.slice bytes)
    have size : plan.output.size = plan.output.stop - plan.output.start := rfl
    have ordered := plan.output.start_le_stop
    have inSlots := plan.output.stop_le_length
    omega

/-- The width of a span of a text. -/
def widthWithin (text : Text) (start stop : Argument) : Except Rejection Nat :=
  (EncodeArguments.resolve { start, stop } text.length 0).map fun plan =>
    Text.width (plan.input.slice text)

/-- The number of scalars that a span of some bytes decodes to when nothing follows it. -/
def tokenCountWithin (bytes : Bytes) (start stop : Argument) : Except Rejection Nat :=
  (DecodeArguments.resolve { start, stop } bytes.length 0).map fun plan =>
    tokenCount (plan.input.slice bytes)

end LosslessUtf8
