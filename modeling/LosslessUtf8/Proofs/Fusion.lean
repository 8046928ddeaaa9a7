import LosslessUtf8.Proofs.Lossless
import Mathlib.Data.Set.Operations

/-!
# Escapes that fuse

Text that was not decoded from bytes can hold escapes that spell a character together. Once encoded
they cannot be told from the character, and decoding brings back one scalar in their place. Nothing
else stands in the way of a text coming back, so the texts that decoding gives are the encodable
ones without such escapes (`exists_decode_eq_iff`).
-/

namespace LosslessUtf8

open String (utf8EncodeChar)

/-- The lowest byte of a scalar. -/
def Scalar.lowByte (scalar : Scalar) : UInt8 :=
  UInt8.ofNat (scalar.value % 0x100).toNat

/-- Some escapes whose raw bytes are the standard form of one character. -/
structure Fuses (block : Text) : Prop where
  several : 2 ≤ block.length
  few : block.length ≤ 4
  escapes : ∀ scalar ∈ block, scalar.IsEscape
  spells : ∃ character, block.map Scalar.lowByte = utf8EncodeChar character

/-- A text holds a block of escapes that fuse. -/
def Fusible (text : Text) : Prop :=
  ∃ block, Fuses block ∧ block <:+: text

namespace Scalar

@[simp] theorem lowByte_ofRawByte (byte : UInt8) : (ofRawByte byte).lowByte = byte := by
  have small := byte.toNat_lt
  apply UInt8.toNat_inj.1
  rw [lowByte, value_ofRawByte, UInt8.toNat_ofNat']
  omega

theorem ofRawByte_lowByte {scalar : Scalar} (escape : scalar.IsEscape) :
    ofRawByte scalar.lowByte = scalar := by
  obtain ⟨byte, -, rfl⟩ := exists_ofRawByte_eq escape
  rw [lowByte_ofRawByte]

end Scalar

theorem fuses_iff {block : Text} :
    Fuses block ↔ ∃ character, 2 ≤ (utf8EncodeChar character).length ∧
      block = (utf8EncodeChar character).map .ofRawByte := by
  constructor
  · intro fuses
    obtain ⟨character, spells⟩ := fuses.spells
    refine ⟨character, ?_, ?_⟩
    · rw [← spells, List.length_map]
      exact fuses.several
    · have back : ∀ scalar ∈ block, (Scalar.ofRawByte ∘ Scalar.lowByte) scalar = id scalar := by
        intro scalar member
        exact Scalar.ofRawByte_lowByte (fuses.escapes scalar member)
      rw [← spells, List.map_map, List.map_congr_left back, List.map_id]
  · rintro ⟨character, several, rfl⟩
    have raw := raw_of_mem_utf8EncodeChar several
    refine ⟨?_, ?_, ?_, character, ?_⟩
    · rw [List.length_map]
      exact several
    · rw [List.length_map, String.length_utf8EncodeChar]
      exact character.utf8Size_le_four
    · intro scalar member
      obtain ⟨byte, byteMember, rfl⟩ := List.mem_map.1 member
      exact Scalar.isEscape_ofRawByte (raw byte byteMember)
    · rw [List.map_map]
      exact List.map_id'' Scalar.lowByte_ofRawByte _

/-! ## Blocks at the front -/

variable {text behind : Text} {bytes rest : Bytes}

theorem fusible_cons {scalar : Scalar} :
    Fusible (scalar :: text) ↔
      (∃ block, Fuses block ∧ block <+: scalar :: text) ∨ Fusible text := by
  simp only [Fusible, List.infix_cons_iff, and_or_left, exists_or]

theorem fusible_append (front : Text) (fusible : Fusible behind) : Fusible (front ++ behind) := by
  obtain ⟨block, fuses, inside⟩ := fusible
  exact ⟨block, fuses, inside.trans (List.suffix_append front behind).isInfix⟩

theorem not_fuses_ofChar {character : Char} {block : Text}
    (atFront : block <+: .ofChar character :: text) : ¬ Fuses block := by
  intro fuses
  cases block with
  | nil => exact absurd fuses.several (by decide)
  | cons first others =>
      rw [List.cons_prefix_cons] at atFront
      apply Scalar.not_isEscape_ofChar character
      rw [← atFront.1]
      exact fuses.escapes first List.mem_cons_self

theorem startsWithForm_of_fuses {block : Text} (encoded : encode text = .ok bytes)
    (fuses : Fuses block) (atFront : block <+: text) : StartsWithForm bytes := by
  obtain ⟨character, several, rfl⟩ := fuses_iff.1 fuses
  obtain ⟨behind, rfl⟩ := atFront
  have encodable : ∀ scalar ∈ behind, scalar.Encodable := by
    intro scalar member
    exact encodable_of_encode encoded scalar (List.mem_append_right _ member)
  obtain ⟨rest, behindEncoded⟩ := exists_encode_eq_ok_iff.2 encodable
  have blockEncoded := encode_map_ofRawByte (raw_of_mem_utf8EncodeChar several)
  have parts := encode_append blockEncoded behindEncoded
  rw [encoded] at parts
  cases parts
  exact ⟨character, rest, rfl⟩

/-! ## What was written at the front -/

theorem eq_ofRawByte_cons {lead : UInt8} (stands : ¬ StartsWithForm (lead :: rest))
    (encoded : encode text = .ok (lead :: rest)) :
    ∃ behind, text = .ofRawByte lead :: behind ∧ encode behind = .ok rest := by
  rcases encode_eq_cons_cases encoded with
    ⟨character, behind, others, -, -, parts⟩ | ⟨behind, textIs, behindEncoded, -⟩
  · exact (stands ⟨character, others, parts⟩).elim
  · exact ⟨behind, textIs, behindEncoded⟩

theorem eq_map_ofRawByte_append {tail : Bytes}
    (continuations : ∀ byte ∈ tail, isContinuation byte)
    (encoded : encode text = .ok (tail ++ rest)) :
    ∃ behind, text = tail.map .ofRawByte ++ behind ∧ encode behind = .ok rest := by
  induction tail generalizing text with
  | nil => exact ⟨text, rfl, encoded⟩
  | cons byte tail ih =>
      rw [List.forall_mem_cons] at continuations
      have stands : ¬ StartsWithForm (byte :: (tail ++ rest)) :=
        not_startsWithForm_of_isContinuation continuations.1
      obtain ⟨others, rfl, othersEncoded⟩ := eq_ofRawByte_cons stands encoded
      obtain ⟨behind, rfl, behindEncoded⟩ := ih continuations.2 othersEncoded
      exact ⟨behind, rfl, behindEncoded⟩

/-- A standard form at the front was written for its character, or for escapes that fuse. -/
theorem eq_ofChar_cons_or_eq_append {character : Char}
    (encoded : encode text = .ok (utf8EncodeChar character ++ rest)) :
    ∃ behind, encode behind = .ok rest ∧
      (text = .ofChar character :: behind ∨ ∃ block, Fuses block ∧ text = block ++ behind) := by
  cases form : utf8EncodeChar character with
  | nil => exact (String.utf8EncodeChar_ne_nil form).elim
  | cons lead tail =>
      rw [form, List.cons_append] at encoded
      rcases encode_eq_cons_cases encoded with
        ⟨written, behind, others, rfl, behindEncoded, parts⟩ | ⟨others, rfl, othersEncoded, raw⟩
      · rw [← List.cons_append, ← form] at parts
        obtain ⟨rfl, rfl⟩ := eq_of_utf8EncodeChar_append parts
        exact ⟨behind, behindEncoded, .inl rfl⟩
      · have continuations := (isContinuation_of_utf8EncodeChar form).2
        obtain ⟨behind, rfl, behindEncoded⟩ := eq_map_ofRawByte_append continuations othersEncoded
        have several : 2 ≤ (utf8EncodeChar character).length := by
          have tailIs := (tail_ne_nil_iff_of_utf8EncodeChar form).2 raw
          rw [form, List.length_cons]
          exact Nat.succ_le_succ (List.length_pos_iff.2 tailIs)
        refine ⟨behind, behindEncoded, .inr ⟨_, fuses_iff.2 ⟨character, several, rfl⟩, ?_⟩⟩
        rw [form]
        rfl

/-! ## What comes back -/

theorem not_fusible_nil : ¬ Fusible [] := by
  rintro ⟨block, fuses, inside⟩
  rw [List.infix_nil] at inside
  subst inside
  exact absurd fuses.several (by decide)

/-- What a text may come back as: the text itself if none of its escapes fuse, and any shorter text
otherwise. -/
inductive ComesBackAs (text : Text) : Text → Prop where
  | same : ¬ Fusible text → ComesBackAs text text
  | shorter {back : Text} : Fusible text → back.length < text.length → ComesBackAs text back

namespace ComesBackAs

variable {back : Text}

theorem length_le (comes : ComesBackAs text back) : back.length ≤ text.length := by
  cases comes with
  | same plain => exact Nat.le_refl _
  | shorter fusible less => exact Nat.le_of_lt less

theorem eq_iff_not_fusible (comes : ComesBackAs text back) : back = text ↔ ¬ Fusible text := by
  cases comes with
  | same plain => exact iff_of_true rfl plain
  | shorter fusible less =>
      apply iff_of_false
      · intro same
        rw [same] at less
        exact Nat.lt_irrefl _ less
      · exact not_not_intro fusible

theorem length_lt_of_fusible (comes : ComesBackAs text back) (fusible : Fusible text) :
    back.length < text.length := by
  cases comes with
  | same plain => exact (plain fusible).elim
  | shorter fusible less => exact less

theorem cons {scalar : Scalar} (comes : ComesBackAs text back)
    (apart : ∀ block, block <+: scalar :: text → ¬ Fuses block) :
    ComesBackAs (scalar :: text) (scalar :: back) := by
  cases comes with
  | same plain =>
      apply same
      rw [fusible_cons]
      rintro (⟨block, fuses, atFront⟩ | fusible)
      · exact apart block atFront fuses
      · exact plain fusible
  | shorter fusible less =>
      apply shorter
      · exact fusible_append [scalar] fusible
      · exact Nat.succ_lt_succ less

theorem fuse {block : Text} (comes : ComesBackAs text back) (fuses : Fuses block)
    (scalar : Scalar) : ComesBackAs (block ++ text) (scalar :: back) := by
  have notLonger := comes.length_le
  have several := fuses.several
  apply shorter
  · exact ⟨block, fuses, (List.prefix_append block text).isInfix⟩
  · rw [List.length_cons, List.length_append]
    omega

end ComesBackAs

theorem comesBackAs_decode (encoded : encode text = .ok bytes) :
    ComesBackAs text (decode bytes) := by
  -- The cut of the bytes guides the induction, as escapes that fuse leave the text in one step.
  induction bytes using segmentInduction generalizing text with
  | nil =>
      rw [eq_nil_of_encode_eq_nil encoded, decode_nil]
      exact .same not_fusible_nil
  | form character rest ih =>
      rw [decode_utf8EncodeChar_append]
      obtain ⟨behind, behindEncoded, rfl | ⟨block, fuses, rfl⟩⟩ :=
        eq_ofChar_cons_or_eq_append encoded
      · apply (ih behindEncoded).cons
        intro block atFront
        exact not_fuses_ofChar atFront
      · exact (ih behindEncoded).fuse fuses _
  | stray lead rest raw stands ih =>
      obtain ⟨behind, rfl, behindEncoded⟩ := eq_ofRawByte_cons stands encoded
      rw [decode_cons_of_not_startsWithForm stands]
      apply (ih behindEncoded).cons
      intro block atFront fuses
      exact stands (startsWithForm_of_fuses encoded fuses atFront)

/-- The texts that decoding gives are the encodable ones in which no escapes fuse. -/
theorem exists_decode_eq_iff :
    (∃ bytes, decode bytes = text) ↔
      (∀ scalar ∈ text, scalar.Encodable) ∧ ¬ Fusible text := by
  constructor
  · rintro ⟨bytes, rfl⟩
    have encoded := encode_decode bytes
    exact ⟨encodable_of_encode encoded, (comesBackAs_decode encoded).eq_iff_not_fusible.1 rfl⟩
  · rintro ⟨encodable, plain⟩
    obtain ⟨bytes, encoded⟩ := exists_encode_eq_ok_iff.2 encodable
    exact ⟨bytes, (comesBackAs_decode encoded).eq_iff_not_fusible.2 plain⟩

theorem not_fusible_of_not_isEscape (noEscape : ∀ scalar ∈ text, ¬ scalar.IsEscape) :
    ¬ Fusible text := by
  rintro ⟨block, fuses, inside⟩
  have several := fuses.several
  obtain ⟨scalar, member⟩ := List.exists_mem_of_length_pos (show 0 < block.length by omega)
  exact noEscape scalar (inside.subset member) (fuses.escapes scalar member)

/-- Encoding a text and decoding it again gives the text back if and only if it holds no escapes
that fuse, and a shorter one otherwise. So decoding gives exactly the encodable texts without them,
which all encodable texts without any escapes are. -/
theorem decoding_undoes_encoding :
    (∀ text : Text, (∀ scalar ∈ text, scalar.Encodable) →
      ∃ bytes, encode text = .ok bytes ∧
        (decode bytes = text ↔ ¬ Fusible text) ∧
        (Fusible text → (decode bytes).length < text.length)) ∧
    Set.range decode = {text | (∀ scalar ∈ text, scalar.Encodable) ∧ ¬ Fusible text} ∧
    (∀ text : Text, (∀ scalar ∈ text, scalar.Encodable ∧ ¬ scalar.IsEscape) →
      ∃ bytes, encode text = .ok bytes ∧ decode bytes = text) := by
  refine ⟨?_, ?_, ?_⟩
  · intro text encodable
    obtain ⟨bytes, encoded⟩ := exists_encode_eq_ok_iff.2 encodable
    have comes := comesBackAs_decode encoded
    exact ⟨bytes, encoded, comes.eq_iff_not_fusible, comes.length_lt_of_fusible⟩
  · ext text
    exact exists_decode_eq_iff
  · intro text plain
    obtain ⟨bytes, encoded⟩ := exists_encode_eq_ok_iff.2 fun scalar member =>
      (plain scalar member).1
    have noFusion := not_fusible_of_not_isEscape fun scalar member => (plain scalar member).2
    exact ⟨bytes, encoded, (comesBackAs_decode encoded).eq_iff_not_fusible.2 noFusion⟩

/-- Three escapes behind a letter spell a character, and the letter alone comes back. -/
theorem decoding_undoes_encoding_letter_and_escapes :
    let letter : Scalar := ⟨0x41⟩
    let block : Text := [⟨0xDCE2⟩, ⟨0xDC82⟩, ⟨0xDCAC⟩]
    (∀ scalar ∈ letter :: block, scalar.Encodable) ∧ Fusible (letter :: block) ∧
    (∃ bytes, encode (letter :: block) = .ok bytes ∧
      (decode bytes).length < (letter :: block).length) ∧
    (∀ scalar ∈ [letter], scalar.Encodable ∧ ¬ scalar.IsEscape) ∧
    ∃ bytes, encode [letter] = .ok bytes ∧ decode bytes = [letter] := by
  intro letter block
  have fuses : Fuses block := ⟨by decide, by decide, by decide, '€', by decide⟩
  have fusible : Fusible (letter :: block) := ⟨block, fuses, [letter], [], rfl⟩
  have encodable : ∀ scalar ∈ letter :: block, scalar.Encodable := by decide
  have plain : ∀ scalar ∈ [letter], scalar.Encodable ∧ ¬ scalar.IsEscape := by decide
  obtain ⟨bytes, encoded, -, shorter⟩ := decoding_undoes_encoding.1 _ encodable
  exact ⟨encodable, fusible, ⟨bytes, encoded, shorter fusible⟩, plain,
    decoding_undoes_encoding.2.2 _ plain⟩

end LosslessUtf8
