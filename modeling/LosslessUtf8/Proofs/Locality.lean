import LosslessUtf8.Proofs.WellFormedness

/-!
# Decoding is local

Bytes that are cut in two decode to the texts of both parts, side by side, unless the cut goes
through a standard form (`decode_append_iff`). A form that the cut goes through is decoded as one
scalar, whatever ill-formed bytes stand around it, while its first byte is escaped where it stands
at the end of the front part.
-/

namespace LosslessUtf8

open String (utf8EncodeChar)

/-- A standard form starts in front of the cut between two runs of bytes, and ends behind it. -/
def Straddled (front back : Bytes) : Prop :=
  ∃ before character behind, before ++ utf8EncodeChar character ++ behind = front ++ back ∧
    before.length < front.length ∧
    front.length < before.length + (utf8EncodeChar character).length

variable {character : Char} {lead : UInt8} {front back : Bytes}

/-! ## Moving the start of the front part -/

theorem not_straddled_nil : ¬ Straddled [] back := by
  rintro ⟨before, character, behind, -, starts, -⟩
  exact Nat.not_lt_zero _ starts

theorem Straddled.append_left (before : Bytes) (straddled : Straddled front back) :
    Straddled (before ++ front) back := by
  obtain ⟨others, character, behind, parts, starts, ends⟩ := straddled
  refine ⟨before ++ others, character, behind, ?_, ?_, ?_⟩
  · rw [List.append_assoc, List.append_assoc, List.append_assoc, ← parts, List.append_assoc]
  · rw [List.length_append, List.length_append]
    omega
  · rw [List.length_append, List.length_append]
    omega

theorem straddled_form_append_iff :
    Straddled (utf8EncodeChar character ++ front) back ↔ Straddled front back := by
  constructor
  · rintro ⟨before, other, behind, parts, starts, ends⟩
    rw [List.append_assoc (utf8EncodeChar character)] at parts
    rcases eq_nil_or_exists_append parts with ⟨rfl, rfl, rfl⟩ | ⟨inner, rfl, behindForm⟩
    · rw [List.length_append, List.length_nil] at ends
      omega
    · rw [List.length_append, List.length_append] at starts ends
      exact ⟨inner, other, behind, behindForm, by omega, by omega⟩
  · exact Straddled.append_left (utf8EncodeChar character)

theorem straddled_cons_iff (stands : ¬ StartsWithForm (lead :: (front ++ back))) :
    Straddled (lead :: front) back ↔ Straddled front back := by
  constructor
  · rintro ⟨before, character, behind, parts, starts, ends⟩
    obtain ⟨inner, rfl, behindFirst⟩ := exists_cons_of_not_startsWithForm stands parts
    rw [List.length_cons, List.length_cons] at starts ends
    exact ⟨inner, character, behind, behindFirst, by omega, by omega⟩
  · exact Straddled.append_left [lead]

/-- A form that only starts where more bytes follow goes on beyond the cut. -/
theorem straddled_of_startsWithForm (stands : ¬ StartsWithForm (lead :: front))
    (starts : StartsWithForm (lead :: (front ++ back))) : Straddled (lead :: front) back := by
  obtain ⟨character, form⟩ := starts
  have notInside : ¬ (utf8EncodeChar character).length ≤ (lead :: front).length := by
    intro inside
    apply stands
    exact ⟨character, List.prefix_of_prefix_length_le form (List.prefix_append _ back) inside⟩
  obtain ⟨behind, parts⟩ := form
  refine ⟨[], character, behind, parts, Nat.zero_lt_succ _, ?_⟩
  rw [List.length_nil]
  omega

/-! ## Cuts -/

/-- Both parts are decoded as in the whole if and only if no form lies across the cut. -/
theorem decode_append_iff :
    decode (front ++ back) = decode front ++ decode back ↔ ¬ Straddled front back := by
  induction front using segmentInduction with
  | nil => exact iff_of_true rfl not_straddled_nil
  | form character behind ih =>
      rw [List.append_assoc, decode_utf8EncodeChar_append, decode_utf8EncodeChar_append,
        List.cons_append, List.cons_inj_right, ih, straddled_form_append_iff]
  | stray lead rest raw stands ih =>
      rw [List.cons_append, decode_cons_of_not_startsWithForm stands, List.cons_append]
      by_cases starts : StartsWithForm (lead :: (rest ++ back))
      · -- The whole has a character where the front part has an escape.
        apply iff_of_false
        · obtain ⟨character, behind, parts⟩ := starts
          rw [← parts, decode_utf8EncodeChar_append]
          intro same
          apply Scalar.not_isEscape_ofChar character
          rw [(List.cons.inj same).1]
          exact Scalar.isEscape_ofRawByte raw
        · exact not_not_intro (straddled_of_startsWithForm stands starts)
      · rw [decode_cons_of_not_startsWithForm starts, List.cons_inj_right, ih,
          straddled_cons_iff starts]

/-- A form that lies across the cut is cut itself. -/
theorem Straddled.exists_parts (straddled : Straddled front back) :
    ∃ character part tail, utf8EncodeChar character = part ++ tail ∧ part ≠ [] ∧ tail ≠ [] ∧
      tail <+: back := by
  obtain ⟨before, character, behind, parts, starts, ends⟩ := straddled
  rw [List.append_assoc] at parts
  have inFront : before <+: front := List.prefix_of_prefix_length_le
    ⟨_, parts⟩ (List.prefix_append front back) (Nat.le_of_lt starts)
  obtain ⟨part, rfl⟩ := inFront
  rw [List.append_assoc] at parts
  rw [List.length_append] at starts ends
  have behindBefore : utf8EncodeChar character ++ behind = part ++ back :=
    List.append_cancel_left parts
  have inForm : part <+: utf8EncodeChar character := List.prefix_of_prefix_length_le
    ⟨_, behindBefore.symm⟩ (List.prefix_append _ behind) (by omega)
  obtain ⟨tail, form⟩ := inForm
  rw [← form, List.append_assoc] at behindBefore
  rw [← form, List.length_append] at ends
  refine ⟨character, part, tail, form.symm, ?_, ?_, behind, List.append_cancel_left behindBefore⟩
  · exact List.ne_nil_of_length_pos (by omega)
  · exact List.ne_nil_of_length_pos (by omega)

/-- Behind a cut through a form stands a continuation byte. -/
theorem Straddled.exists_isContinuation (straddled : Straddled front back) :
    ∃ second ∈ back.head?, isContinuation second := by
  obtain ⟨character, part, tail, form, partNonempty, tailNonempty, behind, rfl⟩ :=
    straddled.exists_parts
  obtain ⟨lead, others, rfl⟩ := List.exists_cons_of_ne_nil partNonempty
  obtain ⟨second, tail, rfl⟩ := List.exists_cons_of_ne_nil tailNonempty
  have continuations := (isContinuation_of_utf8EncodeChar form).2
  exact ⟨second, rfl, continuations second (List.mem_append_right others List.mem_cons_self)⟩

theorem not_straddled_of_head (apart : ∀ first ∈ back.head?, ¬ isContinuation first) :
    ¬ Straddled front back := by
  intro straddled
  obtain ⟨second, atFront, continuation⟩ := straddled.exists_isContinuation
  exact apart second atFront continuation

theorem not_straddled_of_isWellFormed_front (wellFormed : isWellFormed front = true) :
    ¬ Straddled front back := by
  obtain ⟨characters, rfl⟩ := isWellFormed_iff.1 wellFormed
  induction characters with
  | nil => exact not_straddled_nil
  | cons character characters ih =>
      rw [List.flatMap_cons, straddled_form_append_iff]
      exact ih (isWellFormed_iff.2 ⟨characters, rfl⟩)

theorem not_straddled_of_isWellFormed_back (wellFormed : isWellFormed back = true) :
    ¬ Straddled front back := by
  obtain ⟨characters, rfl⟩ := isWellFormed_iff.1 wellFormed
  apply not_straddled_of_head
  cases characters with
  | nil => simp
  | cons character characters =>
      rw [List.flatMap_cons]
      obtain ⟨lead, tail, form⟩ :=
        List.exists_cons_of_ne_nil (@String.utf8EncodeChar_ne_nil character)
      rw [form]
      intro first atFront
      cases atFront
      exact (isContinuation_of_utf8EncodeChar form).1

/-- A cut behind the first of three bytes. -/
example : decode ([0xE2] ++ [0x82, 0xAC]) ≠ decode [0xE2] ++ decode [0x82, 0xAC] := by decide

/-- Bytes that are cut in two decode to the texts of both parts, side by side, if and only if no
standard form of a character lies across the cut. None does where the part behind it is empty or
does not start with a byte from 0x80 to 0xBF, and none where one of the parts is well-formed,
whatever the other holds. -/
theorem decoding_local (front back : Bytes) :
    ∃ whole first second,
      decodeTwoPass (front ++ back) = .ok whole ∧ decodeTwoPass front = .ok first ∧
      decodeTwoPass back = .ok second ∧
      (whole = first ++ second ↔ ¬ Straddled front back) ∧
      ((∀ lead ∈ back.head?, ¬ (0x80 ≤ lead ∧ lead ≤ 0xBF)) → whole = first ++ second) ∧
      (isWellFormed front = true ∨ isWellFormed back = true → whole = first ++ second) := by
  refine ⟨decode (front ++ back), decode front, decode back, decodeTwoPass_eq _,
    decodeTwoPass_eq _, decodeTwoPass_eq _, decode_append_iff, ?_, ?_⟩
  · intro apart
    apply decode_append_iff.2
    apply not_straddled_of_head
    intro lead atFront continuation
    have bounds := isContinuation_iff.1 continuation
    apply apart lead atFront
    rw [UInt8.le_iff_toNat_le, UInt8.le_iff_toNat_le]
    exact ⟨bounds.1, Nat.le_of_lt_succ bounds.2⟩
  · intro wellFormed
    apply decode_append_iff.2
    rcases wellFormed with frontWellFormed | backWellFormed
    · exact not_straddled_of_isWellFormed_front frontWellFormed
    · exact not_straddled_of_isWellFormed_back backWellFormed

/-- A form that breaks off in front of the cut, and ill-formed bytes behind a character. -/
theorem decoding_local_beside_ill_formed :
    let broken : Bytes := [0xFF, 0xE2, 0x82]
    let letters : Bytes := [0x41, 0xC3, 0xA9]
    let stray : Bytes := [0xAC, 0xF0]
    (∀ lead ∈ letters.head?, ¬ (0x80 ≤ lead ∧ lead ≤ 0xBF)) ∧ isWellFormed letters = true ∧
    (∃ whole first second,
      decodeTwoPass (broken ++ letters) = .ok whole ∧ decodeTwoPass broken = .ok first ∧
      decodeTwoPass letters = .ok second ∧ whole = first ++ second) ∧
    ∃ whole first second,
      decodeTwoPass (letters ++ stray) = .ok whole ∧ decodeTwoPass letters = .ok first ∧
      decodeTwoPass stray = .ok second ∧ whole = first ++ second := by
  intro broken letters stray
  have apart : ∀ lead ∈ letters.head?, ¬ (0x80 ≤ lead ∧ lead ≤ 0xBF) := by
    decide +kernel
  have wellFormed : isWellFormed letters = true := by decide
  obtain ⟨whole, first, second, wholeIs, firstIs, secondIs, -, sameApart, -⟩ :=
    decoding_local broken letters
  obtain ⟨joined, front, back, joinedIs, frontIs, backIs, -, -, sameWellFormed⟩ :=
    decoding_local letters stray
  exact ⟨apart, wellFormed, ⟨whole, first, second, wholeIs, firstIs, secondIs, sameApart apart⟩,
    ⟨joined, front, back, joinedIs, frontIs, backIs, sameWellFormed (.inl wellFormed)⟩⟩

end LosslessUtf8
