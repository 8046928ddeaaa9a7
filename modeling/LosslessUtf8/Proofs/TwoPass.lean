import LosslessUtf8.Proofs.Packing
import LosslessUtf8.Proofs.Segmentation
import LosslessUtf8.Proofs.Spans
import LosslessUtf8.TwoPass

/-!
# The second pass keeps what the first promised

Measuring and converting agree on every input, so the checks between the two passes never fail:
decoding in two passes always succeeds (`decodeTwoPass_eq`), and encoding does on encodable texts
(`encodeTwoPass_of_encode`).
-/

namespace LosslessUtf8

/-! ## Decoding -/

theorem decodeInto_of_resolve {bytes : Bytes} {slots : Text} {given : DecodeArguments}
    {plan : DecodePlan bytes.length slots.length}
    (accepted : given.resolve bytes.length slots.length = .ok plan) :
    decodeInto bytes slots given =
      let window := plan.input.slice bytes
      let progress := Decoding.fill plan.final plan.output.size window
      (progress.outcome window, overwrite slots plan.output.start progress.text) := by
  rw [decodeInto, accepted]

theorem tokenCountWithin_whole (bytes : Bytes) :
    tokenCountWithin bytes (.integer 0) .null = .ok (decode bytes).length := by
  have accepted := DecodeArguments.resolve_endOfInput true bytes.length 0
  rw [tokenCountWithin, accepted]
  simp only [Except.map, Span.slice_whole, tokenCount_eq]

/-- Decoding in two passes always succeeds. -/
theorem decodeTwoPass_eq (bytes : Bytes) : decodeTwoPass bytes = .ok (decode bytes) := by
  have accepted := DecodeArguments.resolve_endOfInput true bytes.length
    (List.replicate (decode bytes).length (Scalar.mk 0)).length
  have filled := Decoding.fill_true_of_length_decode_le (Nat.le_refl (decode bytes).length)
  rw [decodeTwoPass, tokenCountWithin_whole]
  dsimp only
  rw [decodeInto_of_resolve accepted]
  simp only [Span.size_whole, Span.start_whole, Span.slice_whole, List.length_replicate, filled,
    Decoding.Progress.outcome, overwrite_replicate, List.length_nil, Nat.sub_zero, and_self,
    if_true]

/-! ## Encoding -/

theorem encodeInto_of_encode {text : Text} {bytes output : Bytes} {outputStart : Nat}
    (encoded : encode text = .ok bytes) (fits : outputStart + bytes.length ≤ output.length) :
    encodeInto text output { outputStart := .integer outputStart } =
      (.encoded (outputStart + bytes.length), overwrite output outputStart bytes) := by
  have reached : outputStart ≤ output.length := by omega
  have packed : Encoding.pack (output.length - outputStart) text =
      ⟨bytes, text.length, .finished⟩ := Encoding.pack_of_encode encoded (by omega)
  rw [encodeInto, EncodeArguments.resolve_outputStart reached]
  simp only [Span.slice_whole, packed]
  rfl

theorem widthWithin_whole (text : Text) :
    widthWithin text (.integer 0) .null = .ok text.width := by
  have accepted := EncodeArguments.resolve_default text.length 0
  rw [widthWithin, accepted]
  simp only [Except.map, Span.slice_whole]

theorem widthWithin_from {text : Text} {position : Nat} (reached : position ≤ text.length) :
    widthWithin text (.integer position) .null = .ok (Text.width (text.drop position)) := by
  rw [widthWithin, EncodeArguments.resolve_from reached]
  simp only [Except.map, Span.slice_from]

theorem widthWithin_extract {text : Text} {start stop : Nat} (ordered : start ≤ stop)
    (inside : stop ≤ text.length) :
    widthWithin text (.integer start) (.integer stop) =
      .ok (Text.width (text.extract start stop)) := by
  have accepted := EncodeArguments.resolve_span ⟨start, stop, ordered, inside⟩ 0
  rw [widthWithin, accepted]
  rfl

theorem encodeInto_of_resolve {text : Text} {output : Bytes} {given : EncodeArguments}
    {plan : EncodePlan text.length output.length}
    (accepted : given.resolve text.length output.length = .ok plan) :
    encodeInto text output given =
      let progress := Encoding.pack (output.length - plan.outputStart) (plan.input.slice text)
      (progress.outcome plan.input.start plan.outputStart,
        overwrite output plan.outputStart progress.bytes) := by
  rw [encodeInto, accepted]

theorem encodeInto_from {text : Text} {position : Nat} (reached : position ≤ text.length)
    (output : Bytes) :
    encodeInto text output { start := .integer position } =
      let progress := Encoding.pack output.length (text.drop position)
      (progress.outcome position 0, overwrite output 0 progress.bytes) := by
  rw [encodeInto_of_resolve (EncodeArguments.resolve_from reached output.length)]
  simp only [Span.slice_from, Nat.sub_zero]

/-- A buffer with room for the width of a text is never full: all of the text is written, or all
in front of a scalar that has no byte form. -/
theorem Encoding.outcome_pack {room : Nat} {text : Text} (enough : text.width ≤ room)
    (start outputStart : Nat) :
    (pack room text).outcome start outputStart =
      match encode text with
      | .ok bytes => .encoded (outputStart + bytes.length)
      | .error failure => .unencodable ⟨failure.scalar, start + failure.index⟩ := by
  cases encoded : encode text with
  | ok bytes =>
      rw [pack_of_encode encoded (length_of_encode encoded ▸ enough)]
      rfl
  | error failure =>
      obtain ⟨written, packed⟩ := pack_of_encode_error encoded enough
      rw [packed]
      rfl

/-- Encoding in two passes gives the bytes of every text that has any. -/
theorem encodeTwoPass_of_encode {text : Text} {bytes : Bytes} (encoded : encode text = .ok bytes) :
    encodeTwoPass text = .ok bytes := by
  have fits : 0 + bytes.length ≤ (List.replicate bytes.length (0 : UInt8)).length := by simp
  have written : encodeInto text (List.replicate bytes.length 0) {} =
      (.encoded bytes.length, bytes) := by
    have atStart := encodeInto_of_encode encoded fits
    rw [overwrite_replicate, Nat.zero_add] at atStart
    exact atStart
  rw [encodeTwoPass, widthWithin_whole, ← length_of_encode encoded]
  dsimp only
  rw [written]
  exact if_pos rfl

/-- The pieces of a text are written as the pieces of its bytes. -/
theorem exists_map_encodeTwoPass {pieces : List Text} {bytes : Bytes}
    (encoded : encode pieces.flatten = .ok bytes) :
    ∃ parts : List Bytes, pieces.map encodeTwoPass = parts.map .ok ∧ parts.flatten = bytes := by
  induction pieces generalizing bytes with
  | nil =>
      cases encoded
      exact ⟨[], rfl, rfl⟩
  | cons piece pieces ih =>
      rw [List.flatten_cons] at encoded
      obtain ⟨part, rest, partEncoded, restEncoded, rfl⟩ := exists_encode_of_append encoded
      obtain ⟨parts, each, rfl⟩ := ih restEncoded
      refine ⟨part :: parts, ?_, rfl⟩
      rw [List.map_cons, List.map_cons, encodeTwoPass_of_encode partEncoded, each]

/-- Encoding in two passes fails only where a scalar has no byte form. -/
theorem encodeTwoPass_eq (text : Text) :
    encodeTwoPass text = (encode text).mapError .unencodable := by
  cases encoded : encode text with
  | ok bytes => exact encodeTwoPass_of_encode encoded
  | error failure =>
      have accepted := EncodeArguments.resolve_default text.length
        (List.replicate text.width (0 : UInt8)).length
      have outcome := Encoding.outcome_pack (Nat.le_refl text.width) 0 0
      rw [encoded] at outcome
      rw [encodeTwoPass, widthWithin_whole]
      dsimp only
      rw [encodeInto_of_resolve accepted]
      simp only [Span.slice_whole, Span.start_whole, List.length_replicate, Nat.sub_zero,
        outcome, Nat.zero_add]
      rfl

end LosslessUtf8
