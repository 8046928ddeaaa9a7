import LosslessUtf8.Proofs.TwoPass

/-!
# Nothing is lost

The scalars that decoding writes always encode to the bytes that it used up, whatever made it stop
(`exists_encode_fill`). Bytes that were decoded whole come back whole (`encode_decode`).
-/

namespace LosslessUtf8

namespace Decoding

/-- What a run decoded and what it left are the window that it was given. -/
theorem exists_encode_fill (final : Bool) (room : Nat) (window : Bytes) :
    ∃ front, encode (fill final room window).text = .ok front ∧
      front ++ (fill final room window).rest = window := by
  induction room, window using fillInduction final with
  | ended room =>
      rw [fill_nil]
      exact ⟨[], rfl, rfl⟩
  | full lead rest => exact ⟨[], rfl, rfl⟩
  | starved room lead rest starved =>
      rw [fill_succ_of_none room starved]
      exact ⟨[], rfl, rfl⟩
  | taken room lead rest token behind taken ih =>
      obtain ⟨front, encoded, parts⟩ := ih
      rw [fill_succ_of_some room taken]
      refine ⟨token.bytes ++ front, ?_, ?_⟩
      · rw [Progress.cons, encode_cons_eq_ok_iff]
        exact ⟨token.bytes, front, Token.spell?_of_read taken, encoded, rfl⟩
      · rw [Progress.cons, List.append_assoc, parts]
        exact Token.bytes_append_of_read taken

theorem rest_fill_eq_drop (final : Bool) (room : Nat) (window : Bytes) :
    (fill final room window).rest =
      window.drop (window.length - (fill final room window).rest.length) := by
  obtain ⟨front, -, parts⟩ := exists_encode_fill final room window
  exact List.suffix_iff_eq_drop.1 ⟨front, parts⟩

/-- The scalars of a run encode to the bytes that the run used up. -/
theorem encode_text_fill (final : Bool) (room : Nat) (window : Bytes) :
    encode (fill final room window).text =
      .ok (window.take (window.length - (fill final room window).rest.length)) := by
  obtain ⟨front, encoded, parts⟩ := exists_encode_fill final room window
  have sizes := congrArg List.length parts
  rw [List.length_append] at sizes
  have used : window.length - (fill final room window).rest.length = front.length := by omega
  have frontIs : front = window.take front.length := List.prefix_iff_eq_take.1 ⟨_, parts⟩
  rw [encoded, used, ← frontIs]

end Decoding

theorem encode_decode (bytes : Bytes) : encode (decode bytes) = .ok bytes := by
  have encoded := Decoding.encode_text_fill true (decode bytes).length bytes
  rw [Decoding.fill_true_of_length_decode_le (Nat.le_refl _)] at encoded
  rw [encoded, List.length_nil, Nat.sub_zero, List.take_length]

theorem encode_flatMap_decode (parts : List Bytes) :
    encode (parts.flatMap decode) = .ok parts.flatten := by
  induction parts with
  | nil => rfl
  | cons part parts ih => exact encode_append (encode_decode part) ih

/-- Decoding into fresh slots fills their front with the scalars of a run. -/
theorem exists_decodeInto_replicate (final : Bool) (capacity : Nat) (bytes : Bytes) :
    ∃ slots,
      decodeInto bytes (List.replicate capacity ⟨0⟩) { endOfInput := .boolean final } =
        ((Decoding.fill final capacity bytes).outcome bytes, slots) ∧
      slots.take (Decoding.fill final capacity bytes).text.length =
        (Decoding.fill final capacity bytes).text := by
  let slots : Text := List.replicate capacity ⟨0⟩
  have capacityIs : slots.length = capacity := List.length_replicate
  have accepted := DecodeArguments.resolve_endOfInput final bytes.length slots.length
  refine ⟨overwrite slots 0 (Decoding.fill final capacity bytes).text, ?_, ?_⟩
  · rw [decodeInto_of_resolve accepted]
    simp only [Span.size_whole, Span.start_whole, Span.slice_whole, capacityIs]
  · exact take_drop_overwrite (Nat.zero_le _)

/-- The scalars that an accepted decoding wrote encode to the bytes it used up, and are written over
these bytes without changing them. -/
theorem encodeInto_of_decodeInto {bytes : Bytes} {slots : Text} {given : DecodeArguments}
    {plan : DecodePlan bytes.length slots.length}
    (accepted : given.resolve bytes.length slots.length = .ok plan) :
    ∃ consumed written stop after,
      decodeInto bytes slots given = (.decoded consumed written.length stop, after) ∧
      (after.drop plan.output.start).take written.length = written ∧
      consumed ≤ plan.input.size ∧
      encode written = .ok ((bytes.drop plan.input.start).take consumed) ∧
      encodeInto written bytes { outputStart := .integer plan.input.start } =
        (.encoded (plan.input.start + consumed), bytes) := by
  let window := plan.input.slice bytes
  let progress := Decoding.fill plan.final plan.output.size window
  let consumed := window.length - progress.rest.length
  have windowSize : window.length = plan.input.size := plan.input.length_slice
  have inWindow : consumed ≤ plan.input.size := by omega
  have inBytes : plan.input.start + consumed ≤ bytes.length := by
    have ordered := plan.input.start_le_stop
    have inside := plan.input.stop_le_length
    have size : plan.input.size = plan.input.stop - plan.input.start := rfl
    omega
  have inSlots : plan.output.start ≤ slots.length :=
    Nat.le_trans plan.output.start_le_stop plan.output.stop_le_length
  have encoded : encode progress.text = .ok ((bytes.drop plan.input.start).take consumed) := by
    rw [← plan.input.take_slice inWindow]
    exact Decoding.encode_text_fill _ _ _
  have usedSize : ((bytes.drop plan.input.start).take consumed).length = consumed := by
    rw [List.length_take, List.length_drop]
    omega
  refine ⟨consumed, progress.text, progress.stop,
    overwrite slots plan.output.start progress.text, ?_, ?_, inWindow, encoded, ?_⟩
  · exact decodeInto_of_resolve accepted
  · exact take_drop_overwrite inSlots
  · rw [encodeInto_of_encode encoded (by rw [usedSize]; exact inBytes), usedSize,
      overwrite_self _ _ _ inBytes]

/-- Nothing is lost: whatever window of some bytes is decoded, into whatever slots, and whatever
stops it, the scalars written are encodable and encode to exactly the bytes used up. All of the
bytes come back if all are decoded, which always succeeds. -/
theorem decoding_lossless (bytes : Bytes) :
    (∀ (slotCount : Nat) (plan : DecodePlan bytes.length slotCount),
      plan.arguments.resolve bytes.length slotCount = .ok plan) ∧
    (∀ (slots : Text) (given : DecodeArguments) (plan : DecodePlan bytes.length slots.length),
      given.resolve bytes.length slots.length = .ok plan →
      ∃ consumed written stop after,
        decodeInto bytes slots given = (.decoded consumed written.length stop, after) ∧
        (after.drop plan.output.start).take written.length = written ∧
        consumed ≤ plan.input.size ∧
        (∀ scalar ∈ written, scalar.Encodable) ∧
        encode written = .ok ((bytes.drop plan.input.start).take consumed) ∧
        encodeInto written bytes { outputStart := .integer plan.input.start } =
          (.encoded (plan.input.start + consumed), bytes)) ∧
    decodeTwoPass bytes = .ok (decode bytes) ∧
      (∀ scalar ∈ decode bytes, scalar.Encodable) ∧
      encode (decode bytes) = .ok bytes ∧ encodeTwoPass (decode bytes) = .ok bytes := by
  refine ⟨fun _ => DecodePlan.resolve_arguments, ?_, ?_⟩
  · intro slots given plan accepted
    obtain ⟨consumed, written, stop, after, decoded, writtenIs, inWindow, encoded, rewritten⟩ :=
      encodeInto_of_decodeInto accepted
    exact ⟨consumed, written, stop, after, decoded, writtenIs, inWindow,
      encodable_of_encode encoded, encoded, rewritten⟩
  · have encoded := encode_decode bytes
    exact ⟨decodeTwoPass_eq bytes, encodable_of_encode encoded, encoded,
      encodeTwoPass_of_encode encoded⟩

/-- A byte that starts no sequence and a whole sequence are decoded behind the start of a window
that breaks off inside a sequence. -/
theorem decoding_lossless_cut_short :
    let bytes : Bytes := [0x41, 0xFF, 0xE2, 0x82, 0xAC, 0xF0, 0x9F]
    let slots : Text := List.replicate 4 ⟨0⟩
    let given : DecodeArguments :=
      { start := .integer 1, outputStart := .integer 1, endOfInput := .boolean false }
    let plan : DecodePlan bytes.length slots.length :=
      ⟨⟨1, 7, by decide, by decide⟩, ⟨1, 4, by decide, by decide⟩, false⟩
    given.resolve bytes.length slots.length = .ok plan ∧
    ∃ consumed written stop after,
      decodeInto bytes slots given = (.decoded consumed written.length stop, after) ∧
      (after.drop plan.output.start).take written.length = written ∧
      consumed ≤ plan.input.size ∧
      (∀ scalar ∈ written, scalar.Encodable) ∧
      encode written = .ok ((bytes.drop plan.input.start).take consumed) ∧
      encodeInto written bytes { outputStart := .integer plan.input.start } =
        (.encoded (plan.input.start + consumed), bytes) :=
  ⟨rfl, (decoding_lossless _).2.1 _ _ _ rfl⟩

end LosslessUtf8
