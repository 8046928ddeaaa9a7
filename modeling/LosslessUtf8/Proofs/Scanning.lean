import LosslessUtf8.Proofs.StandardForm
import LosslessUtf8.Token

/-!
# Scanning standard forms

The left-to-right scan takes exactly the standard forms of characters, and takes any other byte on
its own. Main statements: what can be at the front of a scan (`scan_cases`), that a standard form at
the front is always taken whole (`scan_of_utf8EncodeChar_append`), and that bytes behind a decision
do not change it (`scan_append`).
-/

namespace LosslessUtf8

open String (utf8EncodeChar)

theorem isContinuation_iff {byte : UInt8} :
    isContinuation byte ↔ 0x80 ≤ byte.toNat ∧ byte.toNat < 0xC0 := by
  simp [isContinuation, UInt8.le_iff_toNat_le, UInt8.lt_iff_toNat_lt]

theorem isContinuation_ofNat {number : Nat} (small : number < 64) :
    isContinuation (UInt8.ofNat (0x80 + number)) := by
  rw [isContinuation_iff, UInt8.toNat_ofNat_of_lt' (show _ < 256 by omega)]
  omega

theorem not_isContinuation_ofNat {number : Nat}
    (outside : number < 0x80 ∨ 0xC0 ≤ number ∧ number < 0x100) :
    ¬ isContinuation (UInt8.ofNat number) := by
  rw [isContinuation_iff, UInt8.toNat_ofNat_of_lt' (show _ < 256 by omega)]
  omega

/-- Only the first byte of a standard form is no continuation byte. -/
theorem isContinuation_of_utf8EncodeChar {character : Char} {lead : UInt8} {tail : Bytes}
    (form : utf8EncodeChar character = lead :: tail) :
    ¬ isContinuation lead ∧ ∀ byte ∈ tail, isContinuation byte := by
  have bounds := Scalar.toNat_bounds character
  have follows (number : Nat) : isContinuation (UInt8.ofNat (0x80 + number % 64)) :=
    isContinuation_ofNat (Nat.mod_lt number (by decide))
  rw [Scalar.utf8EncodeChar_eq] at form
  repeat' split at form
  all_goals
    cases form
    refine ⟨not_isContinuation_ofNat (by omega), ?_⟩
    simp only [List.forall_mem_cons, List.not_mem_nil, false_implies, implies_true, follows,
      and_self]

/-- A standard form has several bytes if and only if it starts with a raw byte. -/
theorem tail_ne_nil_iff_of_utf8EncodeChar {character : Char} {lead : UInt8} {tail : Bytes}
    (form : utf8EncodeChar character = lead :: tail) : tail ≠ [] ↔ 0x80 ≤ lead.toNat := by
  have bounds := Scalar.toNat_bounds character
  rw [Scalar.utf8EncodeChar_eq] at form
  repeat' split at form
  all_goals
    cases form
    rw [UInt8.toNat_ofNat_of_lt' (show _ < 256 by omega)]
    simp
    omega

theorem raw_of_mem_utf8EncodeChar {character : Char}
    (several : 2 ≤ (utf8EncodeChar character).length) :
    ∀ byte ∈ utf8EncodeChar character, 0x80 ≤ byte.toNat := by
  cases form : utf8EncodeChar character with
  | nil => exact (String.utf8EncodeChar_ne_nil form).elim
  | cons lead tail =>
      rw [form, List.length_cons] at several
      rw [List.forall_mem_cons]
      constructor
      · apply (tail_ne_nil_iff_of_utf8EncodeChar form).1
        apply List.ne_nil_of_length_pos
        exact Nat.le_of_succ_le_succ several
      · intro byte member
        exact (isContinuation_iff.1 ((isContinuation_of_utf8EncodeChar form).2 byte member)).1

namespace Token

/-- The token of a character that stands in its standard form. -/
def ofChar (character : Char) : Token :=
  ⟨.ofChar character, utf8EncodeChar character⟩

/-! ## Forms by length -/

section Forms

variable {lead second third fourth : UInt8}

theorem exists_ofChar_of_one (small : lead.toNat < 0x80) :
    ∃ character, ofChar character = ⟨⟨lead.toNat⟩, [lead]⟩ := by
  obtain ⟨character, number⟩ := Scalar.exists_toNat_eq lead.toNat (by omega)
  refine ⟨character, ?_⟩
  rw [ofChar, Scalar.utf8EncodeChar_eq, Scalar.ofChar, number, if_pos small, Scalar.oneByte,
    UInt8.ofNat_toNat]

theorem exists_ofChar_of_two (low : 0xC2 ≤ lead.toNat) (high : lead.toNat < 0xE0)
    (secondFollows : isContinuation second) :
    ∃ character, ofChar character = ⟨⟨twoByteValue lead second⟩, [lead, second]⟩ := by
  rw [isContinuation_iff] at secondFollows
  have value : twoByteValue lead second = (lead.toNat - 0xC0) * 64 + (second.toNat - 0x80) := by
    rw [twoByteValue]
    omega
  generalize twoByteValue lead second = number at *
  obtain ⟨character, rfl⟩ := Scalar.exists_toNat_eq number (by omega)
  have leadBack : 0xC0 + character.toNat / 64 = lead.toNat := by omega
  have secondBack : 0x80 + character.toNat % 64 = second.toNat := by omega
  refine ⟨character, ?_⟩
  rw [ofChar, Scalar.utf8EncodeChar_eq, if_neg (by omega), if_pos (by omega), Scalar.twoBytes,
    leadBack, secondBack, UInt8.ofNat_toNat, UInt8.ofNat_toNat, Scalar.ofChar]

theorem exists_ofChar_of_three (low : 0xE0 ≤ lead.toNat) (high : lead.toNat < 0xF0)
    (secondFollows : isContinuation second) (thirdFollows : isContinuation third)
    (allowed : NeedsThreeBytes (threeByteValue lead second third)) :
    ∃ character,
      ofChar character = ⟨⟨threeByteValue lead second third⟩, [lead, second, third]⟩ := by
  rw [isContinuation_iff] at secondFollows thirdFollows
  have value : threeByteValue lead second third =
      (lead.toNat - 0xE0) * 4096 + (second.toNat - 0x80) * 64 + (third.toNat - 0x80) := by
    rw [threeByteValue]
    omega
  rw [NeedsThreeBytes] at allowed
  generalize threeByteValue lead second third = number at *
  obtain ⟨character, rfl⟩ := Scalar.exists_toNat_eq number (by omega)
  have leadBack : 0xE0 + character.toNat / 4096 = lead.toNat := by omega
  have secondBack : 0x80 + character.toNat / 64 % 64 = second.toNat := by omega
  have thirdBack : 0x80 + character.toNat % 64 = third.toNat := by omega
  refine ⟨character, ?_⟩
  rw [ofChar, Scalar.utf8EncodeChar_eq, if_neg (by omega), if_neg (by omega), if_pos (by omega),
    Scalar.threeBytes, leadBack, secondBack, thirdBack, UInt8.ofNat_toNat, UInt8.ofNat_toNat,
    UInt8.ofNat_toNat, Scalar.ofChar]

theorem exists_ofChar_of_four (low : 0xF0 ≤ lead.toNat) (high : lead.toNat ≤ 0xF4)
    (secondFollows : isContinuation second) (thirdFollows : isContinuation third)
    (fourthFollows : isContinuation fourth)
    (allowed : NeedsFourBytes (fourByteValue lead second third fourth)) :
    ∃ character, ofChar character =
      ⟨⟨fourByteValue lead second third fourth⟩, [lead, second, third, fourth]⟩ := by
  rw [isContinuation_iff] at secondFollows thirdFollows fourthFollows
  have value : fourByteValue lead second third fourth =
      (lead.toNat - 0xF0) * 262144 + (second.toNat - 0x80) * 4096 +
        (third.toNat - 0x80) * 64 + (fourth.toNat - 0x80) := by
    rw [fourByteValue]
    omega
  rw [NeedsFourBytes] at allowed
  generalize fourByteValue lead second third fourth = number at *
  obtain ⟨character, rfl⟩ := Scalar.exists_toNat_eq number (by omega)
  have leadBack : 0xF0 + character.toNat / 262144 = lead.toNat := by omega
  have secondBack : 0x80 + character.toNat / 4096 % 64 = second.toNat := by omega
  have thirdBack : 0x80 + character.toNat / 64 % 64 = third.toNat := by omega
  have fourthBack : 0x80 + character.toNat % 64 = fourth.toNat := by omega
  refine ⟨character, ?_⟩
  rw [ofChar, Scalar.utf8EncodeChar_eq, if_neg (by omega), if_neg (by omega), if_neg (by omega),
    Scalar.fourBytes, leadBack, secondBack, thirdBack, fourthBack, UInt8.ofNat_toNat,
    UInt8.ofNat_toNat, UInt8.ofNat_toNat, UInt8.ofNat_toNat, Scalar.ofChar]

/-! ## The scan at a form -/

variable {rest : Bytes} {number : Nat}

theorem scan_of_one (small : lead.toNat < 0x80) :
    scan lead rest = some (⟨⟨lead.toNat⟩, [lead]⟩, rest) := by
  unfold scan
  rw [if_pos (UInt8.lt_iff_toNat_lt.2 small)]

theorem scan_of_two (low : 0x80 ≤ number) (high : number < 0x800)
    (leadIs : lead.toNat = 0xC0 + number / 64) (secondIs : second.toNat = 0x80 + number % 64) :
    scan lead (second :: rest) = some (⟨⟨number⟩, [lead, second]⟩, rest) := by
  have secondFollows : isContinuation second := isContinuation_iff.2 (by omega)
  have value : twoByteValue lead second = number := by
    rw [twoByteValue]
    omega
  simp only [scan, UInt8.lt_iff_toNat_lt, UInt8.reduceToNat, secondFollows, value,
    not_true_eq_false, if_false]
  rw [if_neg (by omega), if_neg (by omega), if_pos (by omega)]

theorem scan_of_three (allowed : NeedsThreeBytes number) (high : number < 0x10000)
    (leadIs : lead.toNat = 0xE0 + number / 4096)
    (secondIs : second.toNat = 0x80 + number / 64 % 64)
    (thirdIs : third.toNat = 0x80 + number % 64) :
    scan lead (second :: third :: rest) = some (⟨⟨number⟩, [lead, second, third]⟩, rest) := by
  have secondFollows : isContinuation second := isContinuation_iff.2 (by omega)
  have thirdFollows : isContinuation third := isContinuation_iff.2 (by omega)
  have value : threeByteValue lead second third = number := by
    rw [threeByteValue]
    omega
  simp only [scan, UInt8.lt_iff_toNat_lt, UInt8.reduceToNat, secondFollows, thirdFollows, value,
    allowed, not_true_eq_false, if_false, if_true]
  rw [if_neg (by omega), if_neg (by omega), if_neg (by omega), if_pos (by omega)]

theorem scan_of_four (allowed : NeedsFourBytes number)
    (leadIs : lead.toNat = 0xF0 + number / 262144)
    (secondIs : second.toNat = 0x80 + number / 4096 % 64)
    (thirdIs : third.toNat = 0x80 + number / 64 % 64)
    (fourthIs : fourth.toNat = 0x80 + number % 64) :
    scan lead (second :: third :: fourth :: rest) =
      some (⟨⟨number⟩, [lead, second, third, fourth]⟩, rest) := by
  have secondFollows : isContinuation second := isContinuation_iff.2 (by omega)
  have thirdFollows : isContinuation third := isContinuation_iff.2 (by omega)
  have fourthFollows : isContinuation fourth := isContinuation_iff.2 (by omega)
  have bounds := allowed
  rw [NeedsFourBytes] at bounds
  have value : fourByteValue lead second third fourth = number := by
    rw [fourByteValue]
    omega
  simp only [scan, UInt8.lt_iff_toNat_lt, UInt8.reduceToNat, secondFollows, thirdFollows,
    fourthFollows, value, allowed, not_true_eq_false, if_false, if_true]
  rw [if_neg (by omega), if_neg (by omega), if_neg (by omega), if_neg (by omega)]

end Forms

/-! ## What the scan takes -/

variable {lead : UInt8} {rest behind : Bytes} {token : Token} {character : Char}

/-- At the front of a scan is the standard form of a character or a byte on its own. -/
theorem scan_cases (scanned : scan lead rest = some (token, behind)) :
    (∃ character, token = ofChar character) ∨
      token = stray lead ∧ behind = rest ∧ 0x80 ≤ lead.toNat := by
  revert scanned
  fun_cases scan lead rest with
  | case1 _ small =>
      intro scanned
      cases scanned
      obtain ⟨character, equal⟩ := exists_ofChar_of_one (UInt8.lt_iff_toNat_lt.1 small)
      exact .inl ⟨character, equal.symm⟩
  | case2 | case4 | case7 | case9 | case11 | case13 =>
      intro scanned
      cases scanned
      exact .inr ⟨rfl, rfl, Nat.le_of_not_lt ‹¬ lead < 0x80›⟩
  | case3 | case6 | case10 =>
      intro scanned
      contradiction
  | case5 _ inRange second _ secondFollows isTwo =>
      intro scanned
      cases scanned
      have low : 0xC2 ≤ lead.toNat := Nat.le_of_not_lt fun less => inRange (.inl less)
      obtain ⟨character, equal⟩ :=
        exists_ofChar_of_two low isTwo (Decidable.not_not.1 secondFollows)
      exact .inl ⟨character, equal.symm⟩
  | case8 _ _ second secondFollows notTwo third _ thirdFollows isThree allowed =>
      intro scanned
      cases scanned
      obtain ⟨character, equal⟩ := exists_ofChar_of_three (Nat.le_of_not_lt notTwo) isThree
        (Decidable.not_not.1 secondFollows) (Decidable.not_not.1 thirdFollows) allowed
      exact .inl ⟨character, equal.symm⟩
  | case12 _ inRange second secondFollows _ third thirdFollows notThree fourth _ fourthFollows
      allowed =>
      intro scanned
      cases scanned
      have high : lead.toNat ≤ 0xF4 := Nat.le_of_not_lt fun greater => inRange (.inr greater)
      obtain ⟨character, equal⟩ := exists_ofChar_of_four (Nat.le_of_not_lt notThree) high
        (Decidable.not_not.1 secondFollows) (Decidable.not_not.1 thirdFollows)
        (Decidable.not_not.1 fourthFollows) allowed
      exact .inl ⟨character, equal.symm⟩

/-- A standard form at the front is taken whole, whatever stands behind it. -/
theorem scan_of_utf8EncodeChar_append (parts : utf8EncodeChar character ++ behind = lead :: rest) :
    scan lead rest = some (ofChar character, behind) := by
  have bounds := Scalar.toNat_bounds character
  have back {number : Nat} (small : number < 256) : (UInt8.ofNat number).toNat = number :=
    UInt8.toNat_ofNat_of_lt' small
  rw [ofChar, Scalar.ofChar]
  rw [Scalar.utf8EncodeChar_eq] at parts ⊢
  by_cases one : character.toNat < 0x80
  · have leadIs : (UInt8.ofNat character.toNat).toNat = character.toNat := back (by omega)
    rw [if_pos one] at parts ⊢
    cases parts
    rw [scan_of_one (by omega), leadIs]
    rfl
  rw [if_neg one] at parts ⊢
  by_cases two : character.toNat < 0x800
  · rw [if_pos two] at parts ⊢
    cases parts
    apply scan_of_two (by omega) two <;> exact back (by omega)
  rw [if_neg two] at parts ⊢
  by_cases three : character.toNat < 0x10000
  · rw [if_pos three] at parts ⊢
    cases parts
    apply scan_of_three ⟨by omega, by omega⟩ three <;> exact back (by omega)
  · rw [if_neg three] at parts ⊢
    cases parts
    apply scan_of_four ⟨by omega, by omega⟩ <;> exact back (by omega)

/-- Bytes behind a decision do not change it. -/
theorem scan_append (scanned : scan lead rest = some (token, behind)) (more : Bytes) :
    scan lead (rest ++ more) = some (token, behind ++ more) := by
  revert scanned
  fun_cases scan lead rest
  all_goals
    intro scanned
    cases scanned
  -- Each way to a decision is open to the longer input as well.
  all_goals simp only [scan, List.cons_append, if_true, if_false, *]
  all_goals rfl

end Token

end LosslessUtf8
