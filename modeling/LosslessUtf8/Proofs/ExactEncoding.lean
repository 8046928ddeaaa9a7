import LosslessUtf8.Proofs.Fusion
import LosslessUtf8.Proofs.Placement

/-!
# What a text is written as

A text is written as its scalars are, one after the other: a character in its standard form, an
escape as the byte that it stands for. Encoding fails only on texts that hold any other scalar, and
then names the first of them. Measuring does not look for such scalars, but the size that it finds
is never too small for what is written.
-/

namespace LosslessUtf8

open String (utf8EncodeChar)

/-- The values of the scalars that have a byte form. -/
def encodableValues : Set Int :=
  {value | 0 ≤ value ∧ value < 0xD800 ∨ 0xDC80 ≤ value ∧ value < 0xDD00 ∨
    0xE000 ≤ value ∧ value < 0x110000}

theorem Scalar.mem_encodableValues_iff {scalar : Scalar} :
    scalar.value ∈ encodableValues ↔ scalar.Encodable :=
  encodable_iff.symm

/-- What an encodable scalar is written as. -/
def Scalar.form (scalar : Scalar) : Bytes :=
  if scalar.IsEscape then [scalar.lowByte] else utf8EncodeChar (.ofNat scalar.value.toNat)

theorem Scalar.spell?_eq_form {scalar : Scalar} (encodable : scalar.Encodable) :
    scalar.spell? = some scalar.form := by
  by_cases escape : scalar.IsEscape
  · obtain ⟨byte, raw, rfl⟩ := exists_ofRawByte_eq escape
    rw [spell?_ofRawByte raw, form, if_pos escape, lowByte_ofRawByte]
  · obtain ⟨character, rfl⟩ := exists_ofChar_eq encodable escape
    rw [spell?_ofChar, form, if_neg escape, value_ofChar, Int.toNat_natCast, Char.ofNat_toNat]

theorem encode_eq_flatMap_form {text : Text} (encodable : ∀ scalar ∈ text, scalar.Encodable) :
    encode text = .ok (text.flatMap Scalar.form) := by
  induction text with
  | nil => rfl
  | cons scalar text ih =>
      rw [List.forall_mem_cons] at encodable
      rw [encode_cons_of_some text (Scalar.spell?_eq_form encodable.1), ih encodable.2]
      rfl

theorem encodeInto_of_width {text : Text} {start stop : Argument} {width : Nat}
    (measured : widthWithin text start stop = .ok width) {output : Bytes}
    (sized : output.length = width) :
    (encodeInto text output { start, stop }).1 = .encoded width ∨
      ∃ failure, (encodeInto text output { start, stop }).1 = .unencodable failure := by
  unfold widthWithin at measured
  cases resolved : EncodeArguments.resolve { start, stop } text.length 0 with
  | error rejection =>
      rw [resolved] at measured
      contradiction
  | ok plan =>
      rw [resolved] at measured
      have widthIs : Text.width (plan.input.slice text) = width := Except.ok.inj measured
      have accepted := EncodeArguments.resolve_of_resolve_zero resolved output.length
      have enough : Text.width (plan.input.slice text) ≤ output.length := by omega
      have outcome := Encoding.outcome_pack enough plan.input.start 0
      rw [encodeInto_of_resolve accepted]
      dsimp only
      rw [Nat.sub_zero, outcome]
      cases encoded : encode (plan.input.slice text) with
      | ok bytes =>
          left
          dsimp only
          rw [Nat.zero_add, length_of_encode encoded, widthIs]
      | error failure => exact .inr ⟨_, rfl⟩

/-- A text of encodable scalars is written as they are, one after the other, in as many bytes as
were measured. Any other text is refused for the first scalar that is not encodable. A buffer of the
measured size never runs full, whatever the text holds, and no byte is ever addressed outside of a
buffer. -/
theorem encoding_exact (text : Text) :
    ((∀ scalar ∈ text, scalar.value ∈ encodableValues) →
      encodeTwoPass text = .ok (text.flatMap Scalar.form) ∧
      widthWithin text (.integer 0) .null = .ok (text.flatMap Scalar.form).length) ∧
    ((∃ scalar ∈ text, scalar.value ∉ encodableValues) →
      ∃ front scalar back, text = front ++ scalar :: back ∧
        (∀ earlier ∈ front, earlier.value ∈ encodableValues) ∧
        scalar.value ∉ encodableValues ∧
        encodeTwoPass text = .error (.unencodable ⟨scalar, front.length⟩)) ∧
    (∀ start stop width, widthWithin text start stop = .ok width →
      ∀ output : Bytes, output.length = width →
        (encodeInto text output { start, stop }).1 = .encoded width ∨
          ∃ failure, (encodeInto text output { start, stop }).1 = .unencodable failure) ∧
    (∀ output given, place text output given =
      ⟨(encodeInto text output given).2, .ok (encodeInto text output given).1⟩) := by
  simp only [Scalar.mem_encodableValues_iff]
  refine ⟨?_, ?_, ?_, place_eq text⟩
  · intro encodable
    have encoded := encode_eq_flatMap_form encodable
    rw [widthWithin_whole, length_of_encode encoded]
    exact ⟨encodeTwoPass_of_encode encoded, rfl⟩
  · rintro ⟨scalar, member, unencodable⟩
    cases encoded : encode text with
    | ok bytes => exact (unencodable (encodable_of_encode encoded scalar member)).elim
    | error failure =>
        obtain ⟨front, back, parts, index, encodable, first⟩ := exists_of_encode_eq_error encoded
        refine ⟨front, failure.scalar, back, parts, encodable, first, ?_⟩
        rw [encodeTwoPass_eq, encoded, ← index]
        rfl
  · intro start stop width measured output sized
    exact encodeInto_of_width measured sized

/-- Forms of every length, then scalars of every kind that has none, a surrogate before all. -/
theorem encoding_exact_up_to_surrogate :
    let written : Text := [⟨0x41⟩, ⟨0xE9⟩, ⟨0x20AC⟩, ⟨0xDCFF⟩, ⟨0x1F600⟩]
    let text : Text := written ++ [⟨0xD800⟩, ⟨-1⟩, ⟨0x110000⟩]
    (∀ scalar ∈ written, scalar.value ∈ encodableValues) ∧
    encodeTwoPass written = .ok (written.flatMap Scalar.form) ∧
    (∃ scalar ∈ text, scalar.value ∉ encodableValues) ∧
    (∃ front scalar back, text = front ++ scalar :: back ∧
      (∀ earlier ∈ front, earlier.value ∈ encodableValues) ∧
      scalar.value ∉ encodableValues ∧
      encodeTwoPass text = .error (.unencodable ⟨scalar, front.length⟩)) ∧
    widthWithin text (.integer 6) .null = .ok 5 ∧
    let output : Bytes := List.replicate 5 0
    (encodeInto text output { start := .integer 6 }).1 = .encoded 5 ∨
      ∃ failure, (encodeInto text output { start := .integer 6 }).1 = .unencodable failure := by
  intro written text
  have encodable : ∀ scalar ∈ written, scalar.value ∈ encodableValues := by
    simp only [Scalar.mem_encodableValues_iff]
    decide
  have unencodable : ∃ scalar ∈ text, scalar.value ∉ encodableValues := by
    simp only [Scalar.mem_encodableValues_iff]
    decide
  have measured : widthWithin text (.integer 6) .null = .ok 5 := rfl
  exact ⟨encodable, ((encoding_exact written).1 encodable).1, unencodable,
    (encoding_exact text).2.1 unencodable, measured,
    (encoding_exact text).2.2.1 _ _ _ measured _ rfl⟩

end LosslessUtf8
