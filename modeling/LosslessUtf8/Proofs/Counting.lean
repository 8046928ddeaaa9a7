import LosslessUtf8.Proofs.Addressed
import LosslessUtf8.Proofs.TwoPass

/-!
# Counting before decoding

The number of scalars that is counted in a window is the number of slots that decoding it takes.
With fewer slots the first scalars are decoded (`text_fill_true`), and with as many no run is ever
short of room, whether or not more input may follow (`stop_ne_outputFull_of_length_decode_le`).
-/

namespace LosslessUtf8

open String (utf8EncodeChar)

/-- No scalar stands for more than four bytes. -/
theorem length_le_four_mul_length_decode (bytes : Bytes) :
    bytes.length ≤ 4 * (decode bytes).length := by
  induction bytes using segmentInduction with
  | nil => exact Nat.le_refl 0
  | form character behind ih =>
      have size : (utf8EncodeChar character).length ≤ 4 := by
        rw [String.length_utf8EncodeChar]
        exact character.utf8Size_le_four
      rw [decode_utf8EncodeChar_append, List.length_append, List.length_cons]
      omega
  | stray lead rest raw stands ih =>
      rw [decode_cons_of_not_startsWithForm stands, List.length_cons, List.length_cons]
      omega

namespace Decoding

variable {final : Bool} {room : Nat} {window : Bytes}

/-- A run to the end of the input decodes the first scalars of its window. -/
theorem text_fill_true (room : Nat) (window : Bytes) :
    (fill true room window).text = (decode window).take room := by
  have parts := decode_eq_fill true room window
  have split := List.take_append_drop room (decode window)
  rw [decode_rest_fill_true] at parts
  exact List.append_cancel_right (parts.symm.trans split.symm)

theorem rest_fill_true_eq_nil_iff :
    (fill true room window).rest = [] ↔ (decode window).length ≤ room := by
  rw [← List.drop_eq_nil_iff, ← decode_rest_fill_true]
  constructor
  · intro none
    rw [none, decode_nil]
  · exact eq_nil_of_decode_eq_nil

theorem stop_fill_true_eq_inputExhausted_iff :
    (fill true room window).stop = .inputExhausted ↔ (decode window).length ≤ room := by
  constructor
  · intro exhausted
    have ends := ends_fill true room window
    rw [← rest_fill_true_eq_nil_iff]
    generalize fill true room window = progress at *
    cases ends with
    | inputExhausted text => rfl
    | outputFull rest filled nonempty => contradiction
    | incomplete text notLast starved => contradiction
  · intro enough
    rw [fill_true_of_length_decode_le enough]

/-- A slot for every scalar that a window decodes to is enough also where more input may follow. -/
theorem stop_ne_outputFull_of_length_decode_le (enough : (decode window).length ≤ room) :
    (fill final room window).stop ≠ .outputFull := by
  intro full
  have size := congrArg List.length (decode_eq_fill final room window)
  have filled := length_text_of_stop_eq_outputFull full
  have ends := ends_fill final room window
  rw [List.length_append, filled] at size
  generalize fill final room window = progress at *
  cases ends with
  | inputExhausted text => contradiction
  | outputFull rest _ nonempty =>
      apply nonempty
      apply eq_nil_of_decode_eq_nil
      apply List.eq_nil_of_length_eq_zero
      dsimp only at size
      omega
  | incomplete text notLast starved => contradiction

/-- What a count of scalars tells about decoding a window of the given size into a given room. -/
structure KeepsCount (final : Bool) (room size count consumed produced : Nat) (stop : Stop) :
    Prop where
  produced_eq : final = true → produced = min room count
  inputExhausted_iff : final = true → (stop = .inputExhausted ↔ count ≤ room)
  consumed_eq_iff : final = true → (consumed = size ↔ count ≤ room)
  not_outputFull : count ≤ room → stop ≠ .outputFull

theorem keepsCount_fill (final : Bool) (room : Nat) (window : Bytes) :
    let progress := fill final room window
    KeepsCount final room window.length (decode window).length
      (window.length - progress.rest.length) progress.text.length progress.stop where
  produced_eq := by
    rintro rfl
    rw [text_fill_true, List.length_take]
  inputExhausted_iff := by
    rintro rfl
    exact stop_fill_true_eq_inputExhausted_iff
  consumed_eq_iff := by
    rintro rfl
    have inside := length_rest_add_length_text_le true room window
    rw [← rest_fill_true_eq_nil_iff, ← List.length_eq_zero_iff]
    omega
  not_outputFull := stop_ne_outputFull_of_length_decode_le

end Decoding

/-- The scalars of a window are counted right: there are as many as decoding the window on its own
gives, no more than it has bytes, and no fewer than a quarter of that. Decoding the window into
slots produces as many scalars as were counted or as there are slots, whichever is less, and uses up
the window if and only if there are enough slots. Where more input may follow, as many slots as were
counted are never too few. So decoding in two passes does not fail. -/
theorem counting_exact (bytes : Bytes) :
    (∀ (start stop : Argument) (measured : DecodePlan bytes.length 0),
      DecodeArguments.resolve { start, stop } bytes.length 0 = .ok measured →
      ∃ count text,
        Addressed.tokenCountWithin bytes start stop = .ok (.ok count) ∧
        decodeTwoPass (bytes.extract measured.input.start measured.input.stop) = .ok text ∧
        text.length = count ∧
        count ≤ measured.input.size ∧ measured.input.size ≤ 4 * count ∧
        ∀ (slots : Text) (given : DecodeArguments) (plan : DecodePlan bytes.length slots.length),
          given.resolve bytes.length slots.length = .ok plan → plan.input = measured.input →
          ∃ consumed produced halt after,
            Addressed.decodeInto bytes slots given =
              ⟨after, .ok (.decoded consumed produced halt)⟩ ∧
            Decoding.KeepsCount plan.final plan.output.size measured.input.size count consumed
              produced halt) ∧
    ∀ failure, decodeTwoPass bytes ≠ .error failure := by
  constructor
  · intro start stop measured accepted
    let window := bytes.extract measured.input.start measured.input.stop
    have size : window.length = measured.input.size := measured.input.length_slice
    have counted : Addressed.tokenCountWithin bytes start stop = .ok (.ok (tokenCount window)) := by
      rw [Addressed.tokenCountWithin_eq, tokenCountWithin, accepted]
      rfl
    refine ⟨(decode window).length, decode window, tokenCount_eq window ▸ counted,
      decodeTwoPass_eq window, rfl, ?_, ?_, ?_⟩
    · rw [← size]
      exact Decoding.length_text_le true window.length window
    · rw [← size]
      exact length_le_four_mul_length_decode window
    · intro slots given plan planAccepted sameInput
      rw [← size, Addressed.decodeInto_of_resolve planAccepted, sameInput]
      exact ⟨_, _, _, _, rfl, Decoding.keepsCount_fill _ _ window⟩
  · intro failure failed
    rw [decodeTwoPass_eq] at failed
    contradiction

/-- A window from inside one sequence up to inside another, decoded into too few slots, and into
enough where more input may follow. -/
theorem counting_exact_between_sequences :
    let bytes : Bytes := [0x41, 0xE2, 0x82, 0xAC, 0x42, 0xF0, 0x9F, 0x98, 0x80]
    let input : Span bytes.length := ⟨2, 7, by decide, by decide⟩
    let few : Text := List.replicate 3 ⟨0⟩
    let enough : Text := List.replicate 5 ⟨0⟩
    let last : DecodeArguments := { start := .integer 2, stop := .integer 7 }
    let notLast : DecodeArguments := { last with endOfInput := .boolean false }
    DecodeArguments.resolve { start := .integer 2, stop := .integer 7 } bytes.length 0 =
      .ok ⟨input, .whole 0, true⟩ ∧
    last.resolve bytes.length few.length = .ok ⟨input, .whole 3, true⟩ ∧
    notLast.resolve bytes.length enough.length = .ok ⟨input, .whole 5, false⟩ ∧
    ∃ count text,
      Addressed.tokenCountWithin bytes (.integer 2) (.integer 7) = .ok (.ok count) ∧
      decodeTwoPass (bytes.extract 2 7) = .ok text ∧ text.length = count ∧
      count ≤ 5 ∧ 5 ≤ 4 * count ∧
      (∃ consumed produced halt after,
        Addressed.decodeInto bytes few last = ⟨after, .ok (.decoded consumed produced halt)⟩ ∧
        Decoding.KeepsCount true 3 5 count consumed produced halt) ∧
      ∃ consumed produced halt after,
        Addressed.decodeInto bytes enough notLast =
          ⟨after, .ok (.decoded consumed produced halt)⟩ ∧
        Decoding.KeepsCount false 5 5 count consumed produced halt := by
  intro bytes input few enough last notLast
  obtain ⟨count, text, counted, decoded, size, atMost, atLeast, keeps⟩ :=
    (counting_exact bytes).1 (.integer 2) (.integer 7) ⟨input, .whole 0, true⟩ rfl
  exact ⟨rfl, rfl, rfl, count, text, counted, decoded, size, atMost, atLeast,
    keeps few last ⟨input, .whole 3, true⟩ rfl rfl,
    keeps enough notLast ⟨input, .whole 5, false⟩ rfl rfl⟩

end LosslessUtf8
