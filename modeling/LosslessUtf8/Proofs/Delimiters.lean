import LosslessUtf8.Proofs.Locality
import LosslessUtf8.Proofs.Lossless

/-!
# Delimiters

A byte below 0x80 is decoded to the scalar of the same number wherever it stands, and nothing else
is decoded to that scalar. So it makes no difference whether bytes are split at such a byte and the
pieces decoded, or the whole is decoded and the text split (`splitOn_decode`), however ill-formed
the pieces are.
-/

namespace LosslessUtf8

open String (utf8EncodeChar)

/-- The scalar that a byte below 0x80 is decoded to. -/
def Scalar.ofAscii (byte : UInt8) : Scalar :=
  ⟨byte.toNat⟩

variable {delimiter lead : UInt8} {front back bytes : Bytes}

theorem Scalar.ofAscii_ne_ofRawByte (ascii : delimiter.toNat < 0x80) :
    ofAscii delimiter ≠ ofRawByte lead := by
  intro same
  have values : (delimiter.toNat : Int) = 0xDC00 + lead.toNat := congrArg Scalar.value same
  omega

theorem utf8EncodeChar_of_ofAscii_eq {character : Char} (ascii : delimiter.toNat < 0x80)
    (same : Scalar.ofAscii delimiter = .ofChar character) :
    utf8EncodeChar character = [delimiter] := by
  have values : (delimiter.toNat : Int) = character.toNat := congrArg Scalar.value same
  have number : character.toNat = delimiter.toNat := (Int.ofNat.inj values).symm
  rw [Scalar.utf8EncodeChar_eq, number, if_pos ascii, Scalar.oneByte, UInt8.ofNat_toNat]

/-! ## Where a delimiter stands -/

theorem decode_cons_of_ascii (ascii : delimiter.toNat < 0x80) :
    decode (delimiter :: back) = .ofAscii delimiter :: decode back := by
  rw [decode_cons, Token.take_of_scan (Token.scan_of_one ascii)]
  rfl

/-- No form goes on behind an ASCII byte, and none goes through it. -/
theorem decode_append_cons_of_ascii (ascii : delimiter.toNat < 0x80) :
    decode (front ++ delimiter :: back) = decode front ++ .ofAscii delimiter :: decode back := by
  have apart : ¬ Straddled front (delimiter :: back) := by
    apply not_straddled_of_head
    intro first atFront continuation
    cases atFront
    exact Nat.not_lt_of_le (isContinuation_iff.1 continuation).1 ascii
  rw [decode_append_iff.2 apart, decode_cons_of_ascii ascii]

theorem mem_of_ofAscii_mem_decode (ascii : delimiter.toNat < 0x80)
    (decoded : .ofAscii delimiter ∈ decode bytes) : delimiter ∈ bytes := by
  induction bytes using segmentInduction with
  | nil => contradiction
  | form character behind ih =>
      rw [decode_utf8EncodeChar_append, List.mem_cons] at decoded
      rw [List.mem_append]
      cases decoded with
      | inl same =>
          left
          rw [utf8EncodeChar_of_ofAscii_eq ascii same]
          exact List.mem_singleton_self delimiter
      | inr behindForm =>
          right
          exact ih behindForm
  | stray lead rest raw stands ih =>
      rw [decode_cons_of_not_startsWithForm stands, List.mem_cons] at decoded
      cases decoded with
      | inl same => exact (Scalar.ofAscii_ne_ofRawByte ascii same).elim
      | inr behindFirst => exact List.mem_cons_of_mem lead (ih behindFirst)

/-- Bytes of which none is ASCII are decoded to scalars of which none is. -/
theorem not_ascii_of_mem_decode (raw : ∀ byte ∈ bytes, 0x80 ≤ byte.toNat) {scalar : Scalar}
    (decoded : scalar ∈ decode bytes) : 0x80 ≤ scalar.value := by
  apply Int.not_lt.1
  intro small
  have nonnegative : 0 ≤ scalar.value :=
    (encodable_of_encode (encode_decode bytes) scalar decoded).1
  have number : (UInt8.ofNat scalar.value.toNat).toNat = scalar.value.toNat :=
    UInt8.toNat_ofNat_of_lt' (show _ < 256 by omega)
  have sameScalar : Scalar.ofAscii (UInt8.ofNat scalar.value.toNat) = scalar := by
    ext
    rw [Scalar.ofAscii, number]
    exact Int.toNat_of_nonneg nonnegative
  have ascii : (UInt8.ofNat scalar.value.toNat).toNat < 0x80 := by omega
  rw [← sameScalar] at decoded
  exact Nat.not_le_of_lt ascii (raw _ (mem_of_ofAscii_mem_decode ascii decoded))

/-! ## Splitting -/

theorem splitOn_decode (ascii : delimiter.toNat < 0x80) (bytes : Bytes) :
    (decode bytes).splitOn (.ofAscii delimiter) = (bytes.splitOn delimiter).map decode := by
  induction size : bytes.length using Nat.strongRecOn generalizing bytes with
  | _ size ih =>
      subst size
      by_cases inside : delimiter ∈ bytes
      · obtain ⟨front, back, rfl⟩ := List.append_of_mem inside
        have frontShorter : front.length < (front ++ delimiter :: back).length := by simp
        have backShorter : back.length < (front ++ delimiter :: back).length := by
          simp only [List.length_append, List.length_cons]
          omega
        rw [decode_append_cons_of_ascii ascii, List.splitOn_append_cons_self,
          List.splitOn_append_cons_self, List.map_append, ih _ frontShorter front rfl,
          ih _ backShorter back rfl]
      · have notDecoded : .ofAscii delimiter ∉ decode bytes := by
          intro decoded
          exact inside (mem_of_ofAscii_mem_decode ascii decoded)
        rw [List.splitOn_eq_singleton notDecoded, List.splitOn_eq_singleton inside]
        rfl

/-- A broken sequence, an overlong slash and a slash on both sides of a name. -/
example : (decode [0xE2, 0x82, 0x2F, 0xC0, 0xAF, 0x61, 0x2F]).splitOn (.ofAscii 0x2F) =
    [[⟨0xDCE2⟩, ⟨0xDC82⟩], [⟨0xDCC0⟩, ⟨0xDCAF⟩, ⟨0x61⟩], []] := by decide

/-- A text that is split at an ASCII scalar falls into the texts that its bytes decode to when they
are split at that byte: as many, and in the same order. Wherever the byte stands, it is a scalar on
its own between what is decoded in front of it and behind it, and without ASCII bytes there are no
ASCII scalars. -/
theorem decoding_respects_delimiters (delimiter : UInt8) (ascii : delimiter < 0x80)
    (bytes : Bytes) :
    (∃ text parts, decodeTwoPass bytes = .ok text ∧
      (bytes.splitOn delimiter).map decodeTwoPass = parts.map .ok ∧
      text.splitOn (.ofAscii delimiter) = parts) ∧
    (∀ front back, front ++ delimiter :: back = bytes →
      ∃ text first second, decodeTwoPass bytes = .ok text ∧ decodeTwoPass front = .ok first ∧
        decodeTwoPass back = .ok second ∧ text = first ++ .ofAscii delimiter :: second) ∧
    ((∀ byte ∈ bytes, 0x80 ≤ byte) →
      ∃ text, decodeTwoPass bytes = .ok text ∧ ∀ scalar ∈ text, 0x80 ≤ scalar.value) := by
  have small : delimiter.toNat < 0x80 := UInt8.lt_iff_toNat_lt.1 ascii
  refine ⟨?_, ?_, ?_⟩
  · refine ⟨decode bytes, (bytes.splitOn delimiter).map decode, decodeTwoPass_eq bytes, ?_,
      splitOn_decode small bytes⟩
    rw [List.map_map]
    apply List.map_congr_left
    intro piece _
    exact decodeTwoPass_eq piece
  · rintro front back rfl
    exact ⟨_, _, _, decodeTwoPass_eq _, decodeTwoPass_eq _, decodeTwoPass_eq _,
      decode_append_cons_of_ascii small⟩
  · intro raw
    refine ⟨_, decodeTwoPass_eq bytes, ?_⟩
    intro scalar decoded
    apply not_ascii_of_mem_decode _ decoded
    intro byte member
    exact UInt8.le_iff_toNat_le.1 (raw byte member)

/-- Slashes behind a broken sequence and behind an overlong slash, and overlong slashes alone. -/
theorem decoding_respects_delimiters_slash :
    let front : Bytes := [0xE2, 0x82]
    let back : Bytes := [0xC0, 0xAF, 0x61, 0x2F]
    let overlong : Bytes := [0xC0, 0xAF, 0xE0, 0x80, 0xAF]
    (0x2F : UInt8) < 0x80 ∧
    (∃ text parts, decodeTwoPass (front ++ 0x2F :: back) = .ok text ∧
      ((front ++ 0x2F :: back).splitOn 0x2F).map decodeTwoPass = parts.map .ok ∧
      text.splitOn (.ofAscii 0x2F) = parts) ∧
    (∃ text first second, decodeTwoPass (front ++ 0x2F :: back) = .ok text ∧
      decodeTwoPass front = .ok first ∧ decodeTwoPass back = .ok second ∧
      text = first ++ .ofAscii 0x2F :: second) ∧
    (∀ byte ∈ overlong, 0x80 ≤ byte) ∧
    ∃ text, decodeTwoPass overlong = .ok text ∧ ∀ scalar ∈ text, 0x80 ≤ scalar.value := by
  intro front back overlong
  have ascii : (0x2F : UInt8) < 0x80 := by decide
  have raw : ∀ byte ∈ overlong, 0x80 ≤ byte := by decide +kernel
  obtain ⟨split, apart, -⟩ := decoding_respects_delimiters 0x2F ascii (front ++ 0x2F :: back)
  exact ⟨ascii, split, apart front back rfl, raw,
    (decoding_respects_delimiters 0x2F ascii overlong).2.2 raw⟩

end LosslessUtf8
