import LosslessUtf8.Text.Numeral

/-!
# Scalars

The values that text is made of. A scalar holds any integer: most integers have no byte form, and an
error has to be able to name the one that it met. Three predicates sort them: `Encodable` scalars
have a byte form, `IsSurrogate` ones are left out of it by the standard, and `IsEscape` ones are the
surrogates that get a byte form after all, each standing for one raw byte: a byte from 0x80 to 0xFF
that belongs to no well-formed sequence travels through text as the scalar that lies 0xDC00 above
it.
-/

namespace LosslessUtf8

/-- One position of a text: a code point if it is encodable, any other integer if it is not. -/
@[ext] structure Scalar where
  value : Int
  deriving DecidableEq, Repr, Inhabited

/-- A text: its scalars in order. -/
abbrev Text := List Scalar

namespace Scalar

/-- The surrogates that each stand for one raw byte from 0x80 to 0xFF. -/
def IsEscape (scalar : Scalar) : Prop :=
  0xDC80 ≤ scalar.value ∧ scalar.value < 0xDD00

instance (scalar : Scalar) : Decidable scalar.IsEscape :=
  inferInstanceAs (Decidable (_ ∧ _))

/-- The code points that the standard reserves and that no well-formed sequence spells. -/
def IsSurrogate (scalar : Scalar) : Prop :=
  0xD800 ≤ scalar.value ∧ scalar.value < 0xE000

instance (scalar : Scalar) : Decidable scalar.IsSurrogate :=
  inferInstanceAs (Decidable (_ ∧ _))

/-- A scalar has a byte form when it is a code point and, if a surrogate, an escape. -/
def Encodable (scalar : Scalar) : Prop :=
  0 ≤ scalar.value ∧ scalar.value < 0x110000 ∧ (scalar.IsSurrogate → scalar.IsEscape)

instance (scalar : Scalar) : Decidable scalar.Encodable :=
  inferInstanceAs (Decidable (_ ∧ _ ∧ (_ → _)))

/-- The encodable scalars are three ranges: below the surrogates, the escapes, above them. -/
theorem encodable_iff {scalar : Scalar} :
    scalar.Encodable ↔
      0 ≤ scalar.value ∧ scalar.value < 0xD800 ∨
        0xDC80 ≤ scalar.value ∧ scalar.value < 0xDD00 ∨
        0xE000 ≤ scalar.value ∧ scalar.value < 0x110000 := by
  simp only [Encodable, IsSurrogate, IsEscape]
  omega

/-- The number of bytes that a scalar of this size is given when sizes are added up. It sorts by
size only and so also answers for scalars that have no byte form. -/
def width (scalar : Scalar) : Nat :=
  if scalar.value < 0x80 then 1
  else if scalar.value < 0x800 then 2
  else if scalar.IsEscape then 1
  else if scalar.value < 0x10000 then 3
  else 4

theorem width_pos (scalar : Scalar) : 0 < scalar.width := by
  unfold width
  repeat' split
  all_goals omega

theorem width_le_four (scalar : Scalar) : scalar.width ≤ 4 := by
  unfold width
  repeat' split
  all_goals omega

end Scalar

namespace Text

/-- The widths of a text, added up. -/
def width (text : Text) : Nat :=
  text.foldr (fun scalar total => scalar.width + total) 0

@[simp] theorem width_nil : width [] = 0 := rfl

@[simp] theorem width_cons (scalar : Scalar) (text : Text) :
    width (scalar :: text) = scalar.width + width text := rfl

@[simp] theorem width_append (front back : Text) :
    width (front ++ back) = width front + width back := by
  induction front with
  | nil => simp
  | cons scalar front ih => simp only [List.cons_append, width_cons, ih, Nat.add_assoc]

/-- The number of escapes in a text. -/
def escapeCount (text : Text) : Nat :=
  text.countP fun scalar => decide scalar.IsEscape

/-- The text that a string holds. -/
def ofString (string : String) : Text :=
  string.toList.map fun character => ⟨character.toNat⟩

/-- The string that holds a text of code points without surrogates. -/
def toString (text : Text) : String :=
  String.ofList (text.map fun scalar => Char.ofNat scalar.value.toNat)

@[simp] theorem toString_ofString (string : String) : toString (ofString string) = string := by
  simp [toString, ofString, Function.comp_def]

theorem not_isSurrogate_of_mem_ofString {scalar : Scalar} {string : String}
    (member : scalar ∈ ofString string) : ¬ scalar.IsSurrogate := by
  obtain ⟨character, -, rfl⟩ := List.mem_map.1 member
  have valid := character.valid
  simp only [Scalar.IsSurrogate, Char.toNat]
  unfold UInt32.isValidChar Nat.isValidChar at valid
  omega

end Text

/-! ## Raw bytes -/

/-- The escape of a raw byte. Below 0x80 the sum is no escape; no caller escapes such a byte. -/
def Scalar.ofRawByte (byte : UInt8) : Scalar :=
  ⟨0xDC00 + byte.toNat⟩

namespace RawByte

/-- Why a number could not be turned into an escape, or an escape back into a number. -/
inductive Mismatch where
  /-- The number is no byte from 0x80 to 0xFF. -/
  | notRaw (number : Int)
  /-- The scalar stands for no raw byte. -/
  | notEscape (scalar : Scalar)
  deriving DecidableEq, Repr

/-- The words in which a mismatch is reported. -/
def Mismatch.message : Mismatch → String
  | .notRaw number =>
      "Only bytes 0x80-0xFF can be escaped, got 0x" ++ Hexadecimal.upper number
  | .notEscape scalar =>
      "0x" ++ Hexadecimal.upper scalar.value ++ " is not a UTF-8b escape value"

/-- The escape of a number that is a raw byte. -/
def toEscape (number : Int) : Except Mismatch Scalar :=
  if 0x80 ≤ number ∧ number ≤ 0xFF then .ok ⟨0xDC00 + number⟩ else .error (.notRaw number)

/-- The raw byte, as a number, that an escape stands for. -/
def ofEscape (scalar : Scalar) : Except Mismatch Int :=
  if scalar.IsEscape then .ok (scalar.value - 0xDC00) else .error (.notEscape scalar)

end RawByte

end LosslessUtf8
