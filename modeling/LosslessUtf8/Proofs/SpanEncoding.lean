import LosslessUtf8.Proofs.Addressed
import LosslessUtf8.Proofs.TwoPass
import Mathlib.Order.Bounds.Basic

/-!
# Encoding a span

Encoding goes through a span of a text until a scalar blocks it: one that has no byte form, or one
with which the text up to there is wider than the room for it. What is in front of the first such
scalar is written and nothing else is (`packs_pack`), and the scalar tells how encoding ends.
-/

namespace LosslessUtf8

namespace Encoding

variable {text front back : Text} {scalar : Scalar} {spelling bytes : Bytes} {room : Nat}
  {progress : Progress}

/-- The ways in which a run over a text can end. -/
inductive Packs (room : Nat) : Text → Progress → Prop where
  | finished {text : Text} {bytes : Bytes} : encode text = .ok bytes → bytes.length ≤ room →
      Packs room text ⟨bytes, text.length, .finished⟩
  | unencodable (front back : Text) {bytes : Bytes} {scalar : Scalar} :
      encode front = .ok bytes → bytes.length ≤ room → ¬ scalar.Encodable →
      Packs room (front ++ scalar :: back) ⟨bytes, front.length, .unencodable scalar⟩
  | full (front back : Text) {bytes : Bytes} {scalar : Scalar} :
      encode front = .ok bytes → bytes.length ≤ room → scalar.Encodable →
      room < bytes.length + scalar.width →
      Packs room (front ++ scalar :: back) ⟨bytes, front.length, .full⟩

theorem encode_cons_of_spell? (spelled : scalar.spell? = some spelling)
    (encoded : encode text = .ok bytes) : encode (scalar :: text) = .ok (spelling ++ bytes) :=
  encode_cons_eq_ok_iff.2 ⟨spelling, bytes, spelled, encoded, rfl⟩

theorem Packs.cons (spelled : scalar.spell? = some spelling) (fits : spelling.length ≤ room)
    (packs : Packs (room - spelling.length) text progress) :
    Packs room (scalar :: text) (progress.cons spelling) := by
  cases packs with
  | finished encoded behindFits =>
      apply Packs.finished (encode_cons_of_spell? spelled encoded)
      rw [List.length_append]
      omega
  | unencodable front back encoded behindFits unencodable =>
      have encoded := encode_cons_of_spell? spelled encoded
      apply Packs.unencodable (scalar :: front) back encoded _ unencodable
      rw [List.length_append]
      omega
  | full front back encoded behindFits encodable tight =>
      have encoded := encode_cons_of_spell? spelled encoded
      apply Packs.full (scalar :: front) back encoded _ encodable
      · rw [List.length_append]
        omega
      · rw [List.length_append]
        omega

theorem packs_pack (room : Nat) (text : Text) : Packs room text (pack room text) := by
  induction text generalizing room with
  | nil => exact .finished encode_nil (Nat.zero_le room)
  | cons scalar text ih =>
      cases spelled : scalar.spell? with
      | none =>
          have unencodable := Scalar.spell?_eq_none_iff.1 spelled
          rw [pack_cons_of_none room text spelled]
          exact .unencodable [] text encode_nil (Nat.zero_le room) unencodable
      | some spelling =>
          by_cases fits : spelling.length ≤ room
          · rw [pack_cons_of_le text spelled fits]
            exact (ih (room - spelling.length)).cons spelled fits
          · have tight := Nat.lt_of_not_le fits
            have encodable := Scalar.encodable_of_spell? spelled
            rw [pack_cons_of_lt text spelled tight]
            apply Packs.full [] text encode_nil (Nat.zero_le room) encodable
            rwa [List.length_nil, Nat.zero_add, ← Scalar.length_of_spell?_eq_some spelled]

end Encoding

/-! ## Windows of a text -/

section Windows

variable {text front back : Text} {start stop : Nat}

theorem extract_front (window : text.extract start stop = front ++ back) :
    text.extract start (start + front.length) = front := by
  have size := congrArg List.length window
  rw [List.length_take, List.length_append] at size
  have taken := congrArg (List.take front.length) window
  rw [List.take_take, List.take_left, Nat.min_eq_left (by omega)] at taken
  rw [List.extract, Nat.add_sub_cancel_left, taken]

theorem getElem?_front (window : text.extract start stop = front ++ back) {offset : Nat}
    (inFront : offset < front.length) : text[start + offset]? = front[offset]? := by
  have frontIs := extract_front window
  rw [List.extract, Nat.add_sub_cancel_left] at frontIs
  rw [← List.getElem?_drop, ← frontIs, List.getElem?_take_of_lt inFront]

theorem getElem?_behind_front {scalar : Scalar}
    (window : text.extract start stop = front ++ scalar :: back) :
    text[start + front.length]? = some scalar := by
  have upTo : text.extract start stop = (front ++ [scalar]) ++ back := by
    rw [window, List.append_assoc]
    rfl
  rw [getElem?_front upTo (by simp), List.getElem?_concat_length]

theorem add_length_lt_of_window {scalar : Scalar}
    (window : text.extract start stop = front ++ scalar :: back) :
    start + front.length < stop := by
  have size := congrArg List.length window
  rw [List.length_take, List.length_append, List.length_cons] at size
  omega

/-- The front of a window is as wide as the bytes that it is written as. -/
theorem widthWithin_front {bytes : Bytes} (window : text.extract start stop = front ++ back)
    (ordered : start ≤ stop) (inside : stop ≤ text.length) (encoded : encode front = .ok bytes) :
    widthWithin text (.integer start) (.integer (start + front.length : Nat)) =
      .ok bytes.length := by
  have size := length_of_extract_eq window inside
  rw [List.length_append] at size
  rw [widthWithin_extract (Nat.le_add_right _ _) (by omega), extract_front window,
    length_of_encode encoded]

theorem Text.width_take_le (text : Text) (count : Nat) :
    Text.width (text.take count) ≤ text.width := by
  have parts := congrArg Text.width (List.take_append_drop count text)
  rw [Text.width_append] at parts
  omega

end Windows

/-! ## What blocks encoding -/

/-- The indexes of a span of a text at which encoding into a buffer cannot go on: the scalar there
has no byte form, or the text up to it is wider than the buffer has room for. -/
def blockedIndexes (text : Text) (start stop outputStart capacity : Nat) : Set Nat :=
  {index | start ≤ index ∧ index < stop ∧
    ((∃ scalar, text[index]? = some scalar ∧ ¬ scalar.Encodable) ∨
      ∃ width, widthWithin text (.integer start) (.integer (index + 1 : Nat)) = .ok width ∧
        capacity < outputStart + width)}

section Blocked

variable {text front back : Text} {bytes : Bytes} {scalar : Scalar}
  {start stop outputStart capacity index : Nat}

/-- Nothing in front of what was written blocks encoding. -/
theorem not_blocked_of_lt (window : text.extract start stop = front ++ back)
    (inside : stop ≤ text.length) (encoded : encode front = .ok bytes)
    (fits : outputStart + bytes.length ≤ capacity) (inFront : index < start + front.length) :
    index ∉ blockedIndexes text start stop outputStart capacity := by
  rintro ⟨reached, before, obstacle⟩
  obtain ⟨offset, rfl⟩ := Nat.exists_eq_add_of_le reached
  have offsetInFront : offset < front.length := by omega
  cases obstacle with
  | inl unencodable =>
      obtain ⟨scalar, found, unencodable⟩ := unencodable
      rw [getElem?_front window offsetInFront] at found
      exact unencodable (encodable_of_encode encoded scalar (List.mem_of_getElem? found))
  | inr tight =>
      obtain ⟨width, measured, tight⟩ := tight
      have split : text.extract start stop =
          front.take (offset + 1) ++ (front.drop (offset + 1) ++ back) := by
        rw [window, ← List.append_assoc, List.take_append_drop]
      have upTo := extract_front split
      rw [List.length_take_of_le offsetInFront] at upTo
      rw [widthWithin_extract (by omega) (by omega), Nat.add_assoc, upTo] at measured
      have narrower := Text.width_take_le front (offset + 1)
      have sized := length_of_encode encoded
      have widthIs := Except.ok.inj measured
      omega

theorem blocked_of_window (window : text.extract start stop = front ++ scalar :: back)
    (inside : stop ≤ text.length) (encoded : encode front = .ok bytes)
    (obstacle : ¬ scalar.Encodable ∨ capacity < outputStart + (bytes.length + scalar.width)) :
    start + front.length ∈ blockedIndexes text start stop outputStart capacity := by
  have before := add_length_lt_of_window window
  refine ⟨Nat.le_add_right start front.length, before, ?_⟩
  cases obstacle with
  | inl unencodable => exact .inl ⟨scalar, getElem?_behind_front window, unencodable⟩
  | inr tight =>
      have split : text.extract start stop = (front ++ [scalar]) ++ back := by
        rw [window, List.append_assoc]
        rfl
      have upTo := extract_front split
      rw [List.length_append, List.length_singleton] at upTo
      right
      refine ⟨Text.width (front ++ [scalar]), ?_, ?_⟩
      · rw [widthWithin_extract (by omega) (by omega), Nat.add_assoc, upTo]
      · rw [Text.width_append, ← length_of_encode encoded]
        exact tight

theorem isLeast_blocked (window : text.extract start stop = front ++ scalar :: back)
    (inside : stop ≤ text.length) (encoded : encode front = .ok bytes)
    (fits : outputStart + bytes.length ≤ capacity)
    (obstacle : ¬ scalar.Encodable ∨ capacity < outputStart + (bytes.length + scalar.width)) :
    IsLeast (blockedIndexes text start stop outputStart capacity) (start + front.length) := by
  constructor
  · exact blocked_of_window window inside encoded obstacle
  · intro index blocked
    apply Nat.le_of_not_lt
    intro inFront
    exact not_blocked_of_lt window inside encoded fits inFront blocked

end Blocked

/-- An accepted encoding writes its span up to the first index that blocks it, and nothing else
changes, also where the buffer has bytes left that the next scalar does not fit into. If nothing
blocks it, all is encoded. Otherwise the scalar at that index is refused if it has no byte form,
whether or not there is room, and the buffer is full if it has one. -/
theorem span_encoding_exact (text : Text) (output : Bytes) (given : EncodeArguments)
    (plan : EncodePlan text.length output.length)
    (accepted : given.resolve text.length output.length = .ok plan) :
    let start := plan.input.start
    let stop := plan.input.stop
    let blocked := blockedIndexes text start stop plan.outputStart output.length
    (blocked = ∅ ∧
      ∃ width bytes after, widthWithin text (.integer start) (.integer stop) = .ok width ∧
        encode (text.extract start stop) = .ok bytes ∧
        Addressed.encodeInto text output given =
          ⟨after, .ok (.encoded (plan.outputStart + width))⟩ ∧
        WrittenAt output plan.outputStart bytes after) ∨
    ∃ index, IsLeast blocked index ∧
      ∃ scalar width bytes after, text[index]? = some scalar ∧
        widthWithin text (.integer start) (.integer index) = .ok width ∧
        encode (text.extract start index) = .ok bytes ∧
        Addressed.encodeInto text output given = ⟨after, .ok
          (if scalar.Encodable then .full (plan.outputStart + width) index
            else .unencodable ⟨scalar, index⟩)⟩ ∧
        WrittenAt output plan.outputStart bytes after := by
  intro start stop blocked
  have ordered : start ≤ stop := plan.input.start_le_stop
  have inside : stop ≤ text.length := plan.input.stop_le_length
  have inOutput := plan.outputStart_le
  have ran : Addressed.encodeInto text output given =
      let progress := Encoding.pack (output.length - plan.outputStart) (text.extract start stop)
      ⟨overwrite output plan.outputStart progress.bytes,
        .ok (progress.outcome start plan.outputStart)⟩ := by
    rw [Addressed.encodeInto_eq, encodeInto_of_resolve accepted]
    rfl
  have packs := Encoding.packs_pack (output.length - plan.outputStart) (text.extract start stop)
  generalize window : text.extract start stop = span at *
  generalize Encoding.pack (output.length - plan.outputStart) span = progress at *
  cases packs with
  | finished encoded fits =>
      left
      have whole : text.extract start stop = span ++ [] := by rw [window, List.append_nil]
      have size : (text.extract start stop).length = stop - start := length_extract_of_le inside
      rw [window] at size
      constructor
      · apply Set.eq_empty_of_forall_notMem
        intro index blocked
        have before : index < stop := blocked.2.1
        exact not_blocked_of_lt whole inside encoded (by omega) (by omega) blocked
      · refine ⟨_, _, _, ?_, encoded, ran, writtenAt_overwrite (by omega)⟩
        rw [widthWithin_extract ordered inside, window, length_of_encode encoded]
  | unencodable front back encoded fits unencodable =>
      right
      refine ⟨start + front.length,
        isLeast_blocked window inside encoded (by omega) (.inl unencodable), _, _, _, _,
        getElem?_behind_front window, widthWithin_front window ordered inside encoded,
        (extract_front window).symm ▸ encoded, ?_, writtenAt_overwrite (by omega)⟩
      rw [ran, if_neg unencodable]
      rfl
  | full front back encoded fits encodable tight =>
      right
      refine ⟨start + front.length,
        isLeast_blocked window inside encoded (by omega) (.inr (by omega)), _, _, _, _,
        getElem?_behind_front window, widthWithin_front window ordered inside encoded,
        (extract_front window).symm ▸ encoded, ?_, writtenAt_overwrite (by omega)⟩
      rw [ran, if_pos encodable]
      rfl

/-- A character of which only two bytes would fit, in front of a surrogate. -/
theorem span_encoding_exact_two_bytes_left :
    let text : Text := [⟨0x41⟩, ⟨0xDCFF⟩, ⟨0x20AC⟩, ⟨0xD800⟩]
    let output : Bytes := [0x2A, 0x2A, 0x2A, 0x2A]
    let given : EncodeArguments := { start := .integer 1, outputStart := .integer 1 }
    let plan : EncodePlan text.length output.length :=
      ⟨⟨1, 4, by decide, by decide⟩, 1, by decide⟩
    let blocked := blockedIndexes text 1 4 1 4
    given.resolve text.length output.length = .ok plan ∧
    ((blocked = ∅ ∧
      ∃ width bytes after, widthWithin text (.integer 1) (.integer 4) = .ok width ∧
        encode (text.extract 1 4) = .ok bytes ∧
        Addressed.encodeInto text output given = ⟨after, .ok (.encoded (1 + width))⟩ ∧
        WrittenAt output 1 bytes after) ∨
    ∃ index, IsLeast blocked index ∧
      ∃ scalar width bytes after, text[index]? = some scalar ∧
        widthWithin text (.integer 1) (.integer index) = .ok width ∧
        encode (text.extract 1 index) = .ok bytes ∧
        Addressed.encodeInto text output given = ⟨after, .ok
          (if scalar.Encodable then .full (1 + width) index
            else .unencodable ⟨scalar, index⟩)⟩ ∧
        WrittenAt output 1 bytes after) := by
  intro text output given plan blocked
  exact ⟨rfl, span_encoding_exact text output given plan rfl⟩

end LosslessUtf8
