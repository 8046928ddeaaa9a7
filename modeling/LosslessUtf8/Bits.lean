import LosslessUtf8.Token
import Mathlib.Algebra.Ring.Nat

/-!
# Byte forms bit by bit

The bytes of a sequence hold a number in parts: each byte is a marker and, below it, some bits of
the number. Here the parts are cut out and joined by shifts and masks. Main statements: the parts
cut out of a scalar are the bytes that it is written as (`Scalar.spell?_eq_fields`), and the parts
joined are the numbers that the scan asks about (`Token.twoByteBits_eq` and the like).
-/

namespace LosslessUtf8

/-- Below a multiple of a power of two, bits are filled in by adding. -/
theorem or_eq_add {width high low : Nat} (aligned : 2 ^ width ∣ high) (small : low < 2 ^ width) :
    high ||| low = high + low := by
  obtain ⟨count, rfl⟩ := aligned
  exact (Nat.two_pow_add_eq_or_of_lt small count).symm

namespace Scalar

/-- A marker and, below it, the bits of a number that a mask keeps, from one of its bits on. -/
def field (marker mask shift number : Nat) : Nat :=
  marker ||| (number >>> shift &&& mask)

/-- The numbers that the bytes of an encodable scalar are. -/
def fields (scalar : Scalar) : List Nat :=
  let number := scalar.value.toNat
  if scalar.value < 0x80 ∨ scalar.IsEscape then [number &&& 0xFF]
  else if scalar.value < 0x800 then [field 0xC0 0x1F 6 number, field 0x80 0x3F 0 number]
  else if scalar.value < 0x10000 then
    [field 0xE0 0x0F 12 number, field 0x80 0x3F 6 number, field 0x80 0x3F 0 number]
  else
    [field 0xF0 0x07 18 number, field 0x80 0x3F 12 number, field 0x80 0x3F 6 number,
      field 0x80 0x3F 0 number]

theorem field_eq (width : Nat) {marker : Nat} (aligned : 2 ^ width ∣ marker) (shift number : Nat) :
    field marker (2 ^ width - 1) shift number = marker + number / 2 ^ shift % 2 ^ width := by
  rw [field, Nat.and_two_pow_sub_one_eq_mod, Nat.shiftRight_eq_div_pow]
  exact or_eq_add aligned (Nat.mod_lt _ (Nat.two_pow_pos width))

/-- Every byte but the first holds six bits. -/
theorem field_continuation (shift number : Nat) :
    field 0x80 0x3F shift number = 0x80 + number / 2 ^ shift % 64 :=
  field_eq 6 ⟨2, rfl⟩ shift number

theorem field_two {number : Nat} (small : number < 0x800) :
    field 0xC0 0x1F 6 number = 0xC0 + number / 64 := by
  have part : field 0xC0 0x1F 6 number = 0xC0 + number / 64 % 32 := field_eq 5 ⟨6, rfl⟩ 6 number
  omega

theorem field_three {number : Nat} (small : number < 0x10000) :
    field 0xE0 0x0F 12 number = 0xE0 + number / 4096 := by
  have part : field 0xE0 0x0F 12 number = 0xE0 + number / 4096 % 16 :=
    field_eq 4 ⟨14, rfl⟩ 12 number
  omega

theorem field_four {number : Nat} (small : number < 0x110000) :
    field 0xF0 0x07 18 number = 0xF0 + number / 262144 := by
  have part : field 0xF0 0x07 18 number = 0xF0 + number / 262144 % 8 :=
    field_eq 3 ⟨30, rfl⟩ 18 number
  omega

variable {scalar : Scalar}

/-- The parts cut out of an encodable scalar are the bytes that it is spelled as. -/
theorem spell?_eq_fields (encodable : scalar.Encodable) :
    scalar.spell? = some (scalar.fields.map UInt8.ofNat) := by
  have ranges := encodable_iff.1 encodable
  rw [spell?, fields, if_neg (by omega)]
  generalize numberIs : scalar.value.toNat = number
  have low : number &&& 0xFF = number % 256 := Nat.and_two_pow_sub_one_eq_mod number 8
  by_cases ascii : scalar.value < 0x80
  · have whole : number % 256 = number := by omega
    rw [if_pos ascii, if_pos (.inl ascii), low, whole]
    rfl
  by_cases escape : scalar.IsEscape
  · have bounds := escape
    rw [IsEscape] at bounds
    have raw : number % 256 = number - 0xDC00 := by omega
    rw [if_neg ascii, if_pos escape, if_pos (.inr escape), low, raw]
    rfl
  have noSurrogate : ¬ scalar.IsSurrogate := fun surrogate => escape (encodable.2.2 surrogate)
  rw [if_neg ascii, if_neg escape, if_neg noSurrogate, if_neg (not_or.2 ⟨ascii, escape⟩)]
  simp only [field_continuation, Nat.pow_zero, Nat.div_one]
  by_cases two : scalar.value < 0x800
  · rw [if_pos two, if_pos two, field_two (by omega)]
    rfl
  rw [if_neg two, if_neg two]
  by_cases three : scalar.value < 0x10000
  · rw [if_pos three, if_pos three, field_three (by omega)]
    rfl
  · rw [if_neg three, if_neg three, if_pos encodable.2.1, field_four (by omega)]
    rfl

theorem field_lt {marker mask : Nat} (markerSmall : marker < 0x100) (maskSmall : mask < 0x100)
    (shift number : Nat) : field marker mask shift number < 0x100 :=
  @Nat.or_lt_two_pow marker _ 8 markerSmall (Nat.and_lt_two_pow _ maskSmall)

/-- Each of the parts fits in a byte. -/
theorem lt_of_mem_fields (scalar : Scalar) : ∀ number ∈ scalar.fields, number < 0x100 := by
  rw [fields]
  split
  · rw [List.forall_mem_singleton]
    exact @Nat.and_lt_two_pow _ _ 8 (by decide)
  repeat' split
  all_goals simp [field_lt]

/-- An escape is its raw byte with the bits of 0xDC00 set. -/
theorem ofRawByte_eq_or (byte : UInt8) : ofRawByte byte = ⟨(0xDC00 ||| byte.toNat : Nat)⟩ := by
  rw [@or_eq_add 8 0xDC00 byte.toNat ⟨220, rfl⟩ byte.toNat_lt]
  rfl

end Scalar

/-- The continuation bytes are told by their two highest bits. -/
theorem isContinuation_iff_and {byte : UInt8} : isContinuation byte ↔ byte &&& 0xC0 = 0x80 := by
  obtain ⟨bits⟩ := byte
  revert bits
  decide

namespace Token

/-- The bits of a byte that a mask keeps, moved up to one of the bits of a number. -/
def part (byte mask : UInt8) (shift : Nat) : Nat :=
  (byte &&& mask).toNat <<< shift

/-- The parts of the number that a two-byte sequence spells, joined. -/
def twoByteBits (lead second : UInt8) : Nat :=
  part lead 0x1F 6 ||| part second 0x3F 0

/-- The parts of the number that a three-byte sequence spells, joined. -/
def threeByteBits (lead second third : UInt8) : Nat :=
  part lead 0x0F 12 ||| part second 0x3F 6 ||| part third 0x3F 0

/-- The parts of the number that a four-byte sequence spells, joined. -/
def fourByteBits (lead second third fourth : UInt8) : Nat :=
  part lead 0x07 18 ||| part second 0x3F 12 ||| part third 0x3F 6 ||| part fourth 0x3F 0

theorem part_eq (width : Nat) {mask : UInt8} (lowest : mask.toNat = 2 ^ width - 1)
    (byte : UInt8) (shift : Nat) : part byte mask shift = byte.toNat % 2 ^ width * 2 ^ shift := by
  rw [part, UInt8.toNat_and, lowest, Nat.and_two_pow_sub_one_eq_mod, Nat.shiftLeft_eq]

theorem part_continuation (byte : UInt8) (shift : Nat) :
    part byte 0x3F shift = byte.toNat % 64 * 2 ^ shift :=
  part_eq 6 rfl byte shift

variable (lead second third fourth : UInt8)

theorem twoByteBits_eq : twoByteBits lead second = twoByteValue lead second := by
  rw [twoByteBits, twoByteValue, part_eq 5 rfl, part_continuation]
  simp only [Nat.reducePow, Nat.mul_one]
  exact @or_eq_add 6 _ _ (by omega) (by omega)

theorem threeByteBits_eq :
    threeByteBits lead second third = threeByteValue lead second third := by
  rw [threeByteBits, threeByteValue, part_eq 4 rfl, part_continuation, part_continuation]
  simp only [Nat.reducePow, Nat.mul_one]
  have upper : lead.toNat % 16 * 4096 ||| second.toNat % 64 * 64 =
      lead.toNat % 16 * 4096 + second.toNat % 64 * 64 :=
    @or_eq_add 12 _ _ (by omega) (by omega)
  rw [upper]
  exact @or_eq_add 6 _ _ (by omega) (by omega)

theorem fourByteBits_eq :
    fourByteBits lead second third fourth = fourByteValue lead second third fourth := by
  rw [fourByteBits, fourByteValue, part_eq 3 rfl, part_continuation, part_continuation,
    part_continuation]
  simp only [Nat.reducePow, Nat.mul_one]
  have upper : lead.toNat % 8 * 262144 ||| second.toNat % 64 * 4096 =
      lead.toNat % 8 * 262144 + second.toNat % 64 * 4096 :=
    @or_eq_add 18 _ _ (by omega) (by omega)
  have middle : lead.toNat % 8 * 262144 + second.toNat % 64 * 4096 ||| third.toNat % 64 * 64 =
      lead.toNat % 8 * 262144 + second.toNat % 64 * 4096 + third.toNat % 64 * 64 :=
    @or_eq_add 12 _ _ (by omega) (by omega)
  rw [upper, middle]
  exact @or_eq_add 6 _ _ (by omega) (by omega)

end Token

end LosslessUtf8
