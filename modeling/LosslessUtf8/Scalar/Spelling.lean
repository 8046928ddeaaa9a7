import LosslessUtf8.Scalar

/-!
# The byte form of a scalar

`Scalar.spell?` gives the bytes that a scalar is written as: the standard one- to four-byte sequence
for a code point that is no surrogate, and the single raw byte that an escape stands for. Main
statements: a scalar is spelled exactly when it is encodable (`spell?_isSome_iff`), and its spelling
has the length that its size alone predicts (`length_of_spell?_eq_some`).
-/

namespace LosslessUtf8

/-- A run of bytes. -/
abbrev Bytes := List UInt8

namespace Scalar

/-- A number below 256 as a byte of its own. -/
def oneByte (number : Nat) : Bytes :=
  [UInt8.ofNat number]

/-- A number of up to eleven bits behind a lead byte of the form 110xxxxx. -/
def twoBytes (number : Nat) : Bytes :=
  [UInt8.ofNat (0xC0 + number / 64), UInt8.ofNat (0x80 + number % 64)]

/-- A number of up to sixteen bits behind a lead byte of the form 1110xxxx. -/
def threeBytes (number : Nat) : Bytes :=
  [UInt8.ofNat (0xE0 + number / 4096), UInt8.ofNat (0x80 + number / 64 % 64),
    UInt8.ofNat (0x80 + number % 64)]

/-- A number of up to 21 bits behind a lead byte of the form 11110xxx. -/
def fourBytes (number : Nat) : Bytes :=
  [UInt8.ofNat (0xF0 + number / 262144), UInt8.ofNat (0x80 + number / 4096 % 64),
    UInt8.ofNat (0x80 + number / 64 % 64), UInt8.ofNat (0x80 + number % 64)]

/-- The bytes a scalar is written as, or `none` if it has no byte form. -/
def spell? (scalar : Scalar) : Option Bytes :=
  let number := scalar.value.toNat
  if scalar.value < 0 then none
  else if scalar.value < 0x80 then some (oneByte number)
  else if scalar.IsEscape then some (oneByte (number - 0xDC00))
  else if scalar.value < 0x800 then some (twoBytes number)
  else if scalar.IsSurrogate then none
  else if scalar.value < 0x10000 then some (threeBytes number)
  else if scalar.value < 0x110000 then some (fourBytes number)
  else none

/-- The scalars with a byte form are the encodable ones. -/
theorem spell?_isSome_iff {scalar : Scalar} : scalar.spell?.isSome ↔ scalar.Encodable := by
  simp only [spell?, Encodable]
  repeat' split
  all_goals simp only [IsSurrogate, IsEscape] at *
  all_goals simp only [Option.isSome_some, Option.isSome_none, false_iff, true_iff,
    Bool.false_eq_true]
  all_goals omega

theorem spell?_eq_none_iff {scalar : Scalar} : scalar.spell? = none ↔ ¬ scalar.Encodable := by
  rw [← spell?_isSome_iff, Option.not_isSome_iff_eq_none]

theorem encodable_of_spell? {scalar : Scalar} {spelling : Bytes}
    (spelled : scalar.spell? = some spelling) : scalar.Encodable := by
  rw [← spell?_isSome_iff, spelled]
  rfl

/-- A byte form is as long as the width of its scalar. -/
theorem length_of_spell?_eq_some {scalar : Scalar} {spelling : Bytes}
    (spelled : scalar.spell? = some spelling) : spelling.length = scalar.width := by
  unfold spell? at spelled
  unfold width
  split at spelled
  · contradiction
  split at spelled
  · cases spelled
    rw [if_pos ‹_›]
    rfl
  rw [if_neg ‹_›]
  split at spelled
  · next escape =>
    have := escape.1
    cases spelled
    rw [if_neg (by omega), if_pos escape]
    rfl
  split at spelled
  · cases spelled
    rw [if_pos ‹_›]
    rfl
  rw [if_neg ‹_›, if_neg ‹_›]
  split at spelled
  · contradiction
  split at spelled
  · cases spelled
    rw [if_pos ‹_›]
    rfl
  rw [if_neg ‹_›]
  split at spelled
  · cases spelled
    rfl
  · contradiction

end Scalar

end LosslessUtf8
