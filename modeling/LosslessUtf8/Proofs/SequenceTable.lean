import LosslessUtf8.Proofs.Scanning
import Mathlib.Data.List.Forall2

/-!
# The table of well-formed sequences

The standard lists the well-formed sequences by the ranges of their bytes: the range of the second
byte hangs on the lead byte, so that no overlong form, no surrogate and no number above 0x10FFFF is
in the table. The sequences of the table are the standard forms of the characters
(`isSequence_iff`).
-/

namespace LosslessUtf8

open String (utf8EncodeChar)

/-- The bytes from one to another. -/
structure ByteRange where
  low : UInt8
  high : UInt8
  deriving DecidableEq, Repr

namespace ByteRange

/-- The bytes of a range. -/
def Holds (range : ByteRange) (byte : UInt8) : Prop :=
  range.low ≤ byte ∧ byte ≤ range.high

instance (range : ByteRange) (byte : UInt8) : Decidable (range.Holds byte) :=
  inferInstanceAs (Decidable (_ ∧ _))

/-- The continuation bytes. -/
def continuation : ByteRange := ⟨0x80, 0xBF⟩

theorem holds_iff {range : ByteRange} {byte : UInt8} :
    range.Holds byte ↔ range.low.toNat ≤ byte.toNat ∧ byte.toNat ≤ range.high.toNat := by
  rw [Holds, UInt8.le_iff_toNat_le, UInt8.le_iff_toNat_le]

theorem holds_ofNat {range : ByteRange} {number : Nat}
    (low : range.low.toNat ≤ number) (high : number ≤ range.high.toNat) :
    range.Holds (UInt8.ofNat number) := by
  have small := range.high.toNat_lt
  rw [holds_iff, UInt8.toNat_ofNat_of_lt' (Nat.lt_of_le_of_lt high small)]
  exact ⟨low, high⟩

theorem continuation_holds_ofNat (number : Nat) :
    continuation.Holds (UInt8.ofNat (0x80 + number % 64)) := by
  apply holds_ofNat
  · exact Nat.le_add_right _ _
  · have small := Nat.mod_lt number (show 0 < 64 by decide)
    exact Nat.add_le_add_left (Nat.le_of_lt_succ small) 0x80

end ByteRange

open ByteRange

/-- The well-formed sequences of bytes, a row for each way in which the ranges of their bytes follow
each other. -/
def sequenceTable : List (List ByteRange) :=
  [[⟨0x00, 0x7F⟩],
    [⟨0xC2, 0xDF⟩, continuation],
    [⟨0xE0, 0xE0⟩, ⟨0xA0, 0xBF⟩, continuation],
    [⟨0xE1, 0xEC⟩, continuation, continuation],
    [⟨0xED, 0xED⟩, ⟨0x80, 0x9F⟩, continuation],
    [⟨0xEE, 0xEF⟩, continuation, continuation],
    [⟨0xF0, 0xF0⟩, ⟨0x90, 0xBF⟩, continuation, continuation],
    [⟨0xF1, 0xF3⟩, continuation, continuation, continuation],
    [⟨0xF4, 0xF4⟩, ⟨0x80, 0x8F⟩, continuation, continuation]]

/-- Some bytes are a sequence if the ranges of a row hold them, one by one. -/
def IsSequence (bytes : Bytes) : Prop :=
  ∃ row ∈ sequenceTable, List.Forall₂ Holds row bytes

instance (bytes : Bytes) : Decidable (IsSequence bytes) :=
  inferInstanceAs (Decidable (∃ row ∈ sequenceTable, _))

theorem exists_of_isSequence {bytes : Bytes} (sequence : IsSequence bytes) :
    ∃ character, utf8EncodeChar character = bytes := by
  obtain ⟨row, member, held⟩ := sequence
  simp only [sequenceTable, List.mem_cons, List.not_mem_nil, or_false] at member
  rcases member with rfl | rfl | rfl | rfl | rfl | rfl | rfl | rfl | rfl
  all_goals simp only [List.forall₂_cons_left_iff, List.forall₂_nil_left_iff, holds_iff,
    continuation, UInt8.reduceToNat] at held
  · obtain ⟨lead, _, leadHeld, rfl, rfl⟩ := held
    obtain ⟨character, form⟩ := Token.exists_ofChar_of_one (show lead.toNat < 0x80 by omega)
    exact ⟨character, congrArg Token.bytes form⟩
  · obtain ⟨lead, _, leadHeld, ⟨second, _, secondHeld, rfl, rfl⟩, rfl⟩ := held
    have secondFollows : isContinuation second := isContinuation_iff.2 (by omega)
    obtain ⟨character, form⟩ :=
      Token.exists_ofChar_of_two (show 0xC2 ≤ lead.toNat by omega) (by omega) secondFollows
    exact ⟨character, congrArg Token.bytes form⟩
  iterate 4
    obtain ⟨lead, _, leadHeld, ⟨second, _, secondHeld, ⟨third, _, thirdHeld, rfl, rfl⟩, rfl⟩,
      rfl⟩ := held
    have secondFollows : isContinuation second := isContinuation_iff.2 (by omega)
    have thirdFollows : isContinuation third := isContinuation_iff.2 (by omega)
    have allowed : Token.NeedsThreeBytes (Token.threeByteValue lead second third) := by
      rw [Token.NeedsThreeBytes, Token.threeByteValue]
      omega
    obtain ⟨character, form⟩ :=
      Token.exists_ofChar_of_three (by omega) (by omega) secondFollows thirdFollows allowed
    exact ⟨character, congrArg Token.bytes form⟩
  iterate 3
    obtain ⟨lead, _, leadHeld, ⟨second, _, secondHeld, ⟨third, _, thirdHeld,
      ⟨fourth, _, fourthHeld, rfl, rfl⟩, rfl⟩, rfl⟩, rfl⟩ := held
    have secondFollows : isContinuation second := isContinuation_iff.2 (by omega)
    have thirdFollows : isContinuation third := isContinuation_iff.2 (by omega)
    have fourthFollows : isContinuation fourth := isContinuation_iff.2 (by omega)
    have allowed : Token.NeedsFourBytes (Token.fourByteValue lead second third fourth) := by
      rw [Token.NeedsFourBytes, Token.fourByteValue]
      omega
    obtain ⟨character, form⟩ := Token.exists_ofChar_of_four (by omega) (by omega)
      secondFollows thirdFollows fourthFollows allowed
    exact ⟨character, congrArg Token.bytes form⟩

theorem isSequence_threeBytes {number : Nat} (low : 0x800 ≤ number) (high : number < 0x10000)
    (noSurrogate : number < 0xD800 ∨ 0xE000 ≤ number) : IsSequence (Scalar.threeBytes number) := by
  have third := continuation_holds_ofNat number
  have second := continuation_holds_ofNat (number / 64)
  have lead {range : ByteRange} := @holds_ofNat range (0xE0 + number / 4096)
  by_cases small : number < 0x1000
  · have narrowed : Holds ⟨0xA0, 0xBF⟩ (UInt8.ofNat (0x80 + number / 64 % 64)) :=
      holds_ofNat (show 0xA0 ≤ _ by omega) (show _ ≤ 0xBF by omega)
    exact ⟨[⟨0xE0, 0xE0⟩, ⟨0xA0, 0xBF⟩, continuation], by decide,
      .cons (lead (show 0xE0 ≤ _ by omega) (show _ ≤ 0xE0 by omega))
        (.cons narrowed (.cons third .nil))⟩
  by_cases belowLast : number < 0xD000
  · exact ⟨[⟨0xE1, 0xEC⟩, continuation, continuation], by decide,
      .cons (lead (show 0xE1 ≤ _ by omega) (show _ ≤ 0xEC by omega))
        (.cons second (.cons third .nil))⟩
  by_cases last : number < 0xD800
  · have narrowed : Holds ⟨0x80, 0x9F⟩ (UInt8.ofNat (0x80 + number / 64 % 64)) :=
      holds_ofNat (show 0x80 ≤ _ by omega) (show _ ≤ 0x9F by omega)
    exact ⟨[⟨0xED, 0xED⟩, ⟨0x80, 0x9F⟩, continuation], by decide,
      .cons (lead (show 0xED ≤ _ by omega) (show _ ≤ 0xED by omega))
        (.cons narrowed (.cons third .nil))⟩
  · exact ⟨[⟨0xEE, 0xEF⟩, continuation, continuation], by decide,
      .cons (lead (show 0xEE ≤ _ by omega) (show _ ≤ 0xEF by omega))
        (.cons second (.cons third .nil))⟩

theorem isSequence_fourBytes {number : Nat} (low : 0x10000 ≤ number) (high : number < 0x110000) :
    IsSequence (Scalar.fourBytes number) := by
  have fourth := continuation_holds_ofNat number
  have third := continuation_holds_ofNat (number / 64)
  have second := continuation_holds_ofNat (number / 4096)
  have lead {range : ByteRange} := @holds_ofNat range (0xF0 + number / 262144)
  by_cases small : number < 0x40000
  · have narrowed : Holds ⟨0x90, 0xBF⟩ (UInt8.ofNat (0x80 + number / 4096 % 64)) :=
      holds_ofNat (show 0x90 ≤ _ by omega) (show _ ≤ 0xBF by omega)
    exact ⟨[⟨0xF0, 0xF0⟩, ⟨0x90, 0xBF⟩, continuation, continuation], by decide,
      .cons (lead (show 0xF0 ≤ _ by omega) (show _ ≤ 0xF0 by omega))
        (.cons narrowed (.cons third (.cons fourth .nil)))⟩
  by_cases large : number < 0x100000
  · exact ⟨[⟨0xF1, 0xF3⟩, continuation, continuation, continuation], by decide,
      .cons (lead (show 0xF1 ≤ _ by omega) (show _ ≤ 0xF3 by omega))
        (.cons second (.cons third (.cons fourth .nil)))⟩
  · have narrowed : Holds ⟨0x80, 0x8F⟩ (UInt8.ofNat (0x80 + number / 4096 % 64)) :=
      holds_ofNat (show 0x80 ≤ _ by omega) (show _ ≤ 0x8F by omega)
    exact ⟨[⟨0xF4, 0xF4⟩, ⟨0x80, 0x8F⟩, continuation, continuation], by decide,
      .cons (lead (show 0xF4 ≤ _ by omega) (show _ ≤ 0xF4 by omega))
        (.cons narrowed (.cons third (.cons fourth .nil)))⟩

theorem isSequence_utf8EncodeChar (character : Char) : IsSequence (utf8EncodeChar character) := by
  have bounds := Scalar.toNat_bounds character
  rw [Scalar.utf8EncodeChar_eq]
  split
  · exact ⟨[⟨0x00, 0x7F⟩], by decide,
      .cons (holds_ofNat (Nat.zero_le _) (show _ ≤ 0x7F by omega)) .nil⟩
  split
  · exact ⟨[⟨0xC2, 0xDF⟩, continuation], by decide,
      .cons (holds_ofNat (show 0xC2 ≤ _ by omega) (show _ ≤ 0xDF by omega))
        (.cons (continuation_holds_ofNat _) .nil)⟩
  split
  · exact isSequence_threeBytes (by omega) (by omega) (by omega)
  · exact isSequence_fourBytes (by omega) (by omega)

/-- The sequences of the table are the standard forms of the characters. -/
theorem isSequence_iff {bytes : Bytes} :
    IsSequence bytes ↔ ∃ character, utf8EncodeChar character = bytes := by
  constructor
  · exact exists_of_isSequence
  · rintro ⟨character, rfl⟩
    exact isSequence_utf8EncodeChar character

end LosslessUtf8
