import LosslessUtf8.Scalar.Spelling

/-!
# Standard forms

The encodable scalars are of two kinds: characters, which are spelled in their standard UTF-8 form,
and escapes, which are spelled as the one raw byte that they stand for
(`exists_of_spell?_eq_some`). The bytes of a standard form tell its places apart: the first is never
a continuation byte, and all others are.
-/

namespace LosslessUtf8

open String (utf8EncodeChar)

namespace Scalar

/-- The scalar of a character. -/
def ofChar (character : Char) : Scalar :=
  ⟨character.toNat⟩

@[simp] theorem value_ofChar (character : Char) : (ofChar character).value = character.toNat := rfl

@[simp] theorem value_ofRawByte (byte : UInt8) : (ofRawByte byte).value = 0xDC00 + byte.toNat :=
  rfl

theorem eq_of_ofChar_eq {character other : Char} (same : ofChar character = ofChar other) :
    character = other := by
  have values : (character.toNat : Int) = other.toNat := congrArg Scalar.value same
  exact Char.toNat_inj.1 (Int.ofNat.inj values)

theorem toNat_bounds (character : Char) :
    character.toNat < 0xD800 ∨ 0xE000 ≤ character.toNat ∧ character.toNat < 0x110000 := by
  rcases character.valid with low | high
  · exact .inl low
  · exact .inr ⟨high.1, high.2⟩

theorem exists_toNat_eq (number : Nat)
    (allowed : number < 0xD800 ∨ 0xE000 ≤ number ∧ number < 0x110000) :
    ∃ character : Char, character.toNat = number := by
  have valid : number.isValidChar := by
    rcases allowed with low | high
    · exact .inl low
    · exact .inr ⟨high.1, high.2⟩
  exact ⟨.ofNatAux number valid, rfl⟩

theorem not_isEscape_ofChar (character : Char) : ¬ (ofChar character).IsEscape := by
  intro escape
  have bounds := toNat_bounds character
  simp only [IsEscape, value_ofChar] at escape
  omega

theorem isEscape_ofRawByte {byte : UInt8} (raw : 0x80 ≤ byte.toNat) :
    (ofRawByte byte).IsEscape := by
  have small := byte.toNat_lt
  simp only [IsEscape, value_ofRawByte]
  omega

/-- An encodable scalar is a character or an escape. -/
theorem exists_ofChar_eq {scalar : Scalar} (encodable : scalar.Encodable)
    (plain : ¬ scalar.IsEscape) : ∃ character, ofChar character = scalar := by
  have ranges := encodable_iff.1 encodable
  simp only [IsEscape] at plain
  have allowed : scalar.value.toNat < 0xD800 ∨
      0xE000 ≤ scalar.value.toNat ∧ scalar.value.toNat < 0x110000 := by omega
  obtain ⟨character, number⟩ := exists_toNat_eq _ allowed
  refine ⟨character, ?_⟩
  ext
  rw [value_ofChar, number]
  omega

theorem exists_ofRawByte_eq {scalar : Scalar} (escape : scalar.IsEscape) :
    ∃ byte : UInt8, 0x80 ≤ byte.toNat ∧ ofRawByte byte = scalar := by
  simp only [IsEscape] at escape
  have small : (UInt8.ofNat (scalar.value.toNat - 0xDC00)).toNat =
      scalar.value.toNat - 0xDC00 := by
    rw [UInt8.toNat_ofNat']
    omega
  refine ⟨UInt8.ofNat (scalar.value.toNat - 0xDC00), by omega, ?_⟩
  ext
  rw [value_ofRawByte, small]
  omega

/-! ## Spellings -/

theorem utf8EncodeChar_eq (character : Char) :
    utf8EncodeChar character =
      if character.toNat < 0x80 then oneByte character.toNat
      else if character.toNat < 0x800 then twoBytes character.toNat
      else if character.toNat < 0x10000 then threeBytes character.toNat
      else fourBytes character.toNat := by
  have bounds := toNat_bounds character
  unfold utf8EncodeChar
  simp only [Char.toNat, ← Nat.lt_succ_iff] at *
  generalize character.val.toNat = number at *
  split
  · rfl
  split
  · rw [twoBytes, show number / 64 % 32 + 192 = 192 + number / 64 by omega, Nat.add_comm 128]
  split
  · rw [threeBytes, show number / 4096 % 16 + 224 = 224 + number / 4096 by omega,
      Nat.add_comm 128, Nat.add_comm 128]
  · rw [fourBytes, show number / 262144 % 8 + 240 = 240 + number / 262144 by omega,
      Nat.add_comm 128, Nat.add_comm 128, Nat.add_comm 128]

theorem spell?_ofChar (character : Char) :
    (ofChar character).spell? = some (utf8EncodeChar character) := by
  have bounds := toNat_bounds character
  have plain := not_isEscape_ofChar character
  have noSurrogate : ¬ (ofChar character).IsSurrogate := by
    simp only [IsSurrogate, value_ofChar]
    omega
  have value : (ofChar character).value = character.toNat := rfl
  have nonnegative : ¬ (character.toNat : Int) < 0 := by omega
  rw [utf8EncodeChar_eq, spell?, value, if_neg plain, if_neg noSurrogate, Int.toNat_natCast,
    if_neg nonnegative]
  by_cases one : character.toNat < 0x80
  · rw [if_pos (by omega : (character.toNat : Int) < 0x80), if_pos one]
  rw [if_neg (by omega : ¬ (character.toNat : Int) < 0x80), if_neg one]
  by_cases two : character.toNat < 0x800
  · rw [if_pos (by omega : (character.toNat : Int) < 0x800), if_pos two]
  rw [if_neg (by omega : ¬ (character.toNat : Int) < 0x800), if_neg two]
  by_cases three : character.toNat < 0x10000
  · rw [if_pos (by omega : (character.toNat : Int) < 0x10000), if_pos three]
  rw [if_neg (by omega : ¬ (character.toNat : Int) < 0x10000), if_neg three,
    if_pos (by omega : (character.toNat : Int) < 0x110000)]

theorem spell?_ofRawByte {byte : UInt8} (raw : 0x80 ≤ byte.toNat) :
    (ofRawByte byte).spell? = some [byte] := by
  have number : (0xDC00 + (byte.toNat : Int)).toNat - 0xDC00 = byte.toNat := by omega
  simp only [spell?, if_pos (isEscape_ofRawByte raw), value_ofRawByte, number]
  rw [if_neg (by omega), if_neg (by omega), oneByte, UInt8.ofNat_toNat]

/-- What a spelling spells: a character in its standard form, or an escape as its raw byte. -/
theorem exists_of_spell?_eq_some {scalar : Scalar} {spelling : Bytes}
    (spelled : scalar.spell? = some spelling) :
    (∃ character, scalar = ofChar character ∧ spelling = utf8EncodeChar character) ∨
      ∃ byte : UInt8, 0x80 ≤ byte.toNat ∧ scalar = ofRawByte byte ∧ spelling = [byte] := by
  have encodable : scalar.Encodable := by
    rw [← spell?_isSome_iff, spelled]
    rfl
  by_cases escape : scalar.IsEscape
  · right
    obtain ⟨byte, raw, rfl⟩ := exists_ofRawByte_eq escape
    rw [spell?_ofRawByte raw] at spelled
    exact ⟨byte, raw, rfl, (Option.some.inj spelled).symm⟩
  · left
    obtain ⟨character, rfl⟩ := exists_ofChar_eq encodable escape
    rw [spell?_ofChar] at spelled
    exact ⟨character, rfl, (Option.some.inj spelled).symm⟩

end Scalar

end LosslessUtf8
