import LosslessUtf8.Proofs.SequenceTable
import LosslessUtf8.Proofs.TwoPass
import Mathlib.Data.Nat.Count

/-!
# Escapes mark ill-formed bytes

A standard form may occur anywhere in some bytes, but no two of them overlap, as none starts inside
of another. So the cut that decoding makes from the left finds every one, and the bytes that it
escapes are those in none of them (`escapeCount_decode`).
-/

namespace LosslessUtf8

open String (utf8EncodeChar)

/-- A position of some bytes lies in a standard form, wherever that starts. -/
def Covered (bytes : Bytes) (position : Nat) : Prop :=
  ∃ front character back, front ++ utf8EncodeChar character ++ back = bytes ∧
    front.length ≤ position ∧ position < front.length + (utf8EncodeChar character).length

theorem covered_iff {bytes : Bytes} {position : Nat} :
    Covered bytes position ↔
      ∃ start < position + 1, ∃ stop < bytes.length + 1, position < stop ∧
        IsSequence ((bytes.take stop).drop start) := by
  constructor
  · rintro ⟨front, character, back, rfl, reached, inside⟩
    refine ⟨front.length, Nat.lt_succ_of_le reached, (front ++ utf8EncodeChar character).length,
      ?_, ?_, ?_⟩
    · exact Nat.lt_succ_of_le (List.prefix_append _ back).length_le
    · rw [List.length_append]
      exact inside
    · rw [List.take_left, List.drop_left]
      exact isSequence_utf8EncodeChar character
  · rintro ⟨start, reached, stop, ends, inside, sequence⟩
    obtain ⟨character, form⟩ := isSequence_iff.1 sequence
    have frontSize : ((bytes.take stop).take start).length = start := by
      rw [List.length_take, List.length_take]
      omega
    refine ⟨(bytes.take stop).take start, character, bytes.drop stop, ?_, ?_, ?_⟩
    · rw [form, List.take_append_drop, List.take_append_drop]
    · omega
    · rw [form, frontSize, List.length_drop, List.length_take]
      omega

instance (bytes : Bytes) (position : Nat) : Decidable (Covered bytes position) :=
  decidable_of_iff' _ covered_iff

variable {character : Char} {lead : UInt8} {rest behind : Bytes} {position : Nat}

/-! ## No forms overlap -/

/-- Where a form stands, another can only start with it or behind it. -/
theorem eq_nil_or_eq_nil_of_startsWithForm {front part : Bytes}
    (form : utf8EncodeChar character = front ++ part) (starts : StartsWithForm (part ++ behind)) :
    front = [] ∨ part = [] := by
  cases front with
  | nil => exact .inl rfl
  | cons lead tail =>
      cases part with
      | nil => exact .inr rfl
      | cons inner others =>
          have continuations := (isContinuation_of_utf8EncodeChar form).2
          have continuation := continuations inner (List.mem_append_right tail List.mem_cons_self)
          exact (not_startsWithForm_of_isContinuation continuation starts).elim

/-- A form that occurs behind another, or where that stands, is that one or lies behind it. -/
theorem eq_nil_or_exists_append {front back : Bytes} {other : Char}
    (parts : front ++ utf8EncodeChar other ++ back = utf8EncodeChar character ++ behind) :
    (front = [] ∧ other = character ∧ back = behind) ∨
      ∃ inner, front = utf8EncodeChar character ++ inner ∧
        inner ++ utf8EncodeChar other ++ back = behind := by
  rw [List.append_assoc] at parts
  rcases List.append_eq_append_iff.1 parts with ⟨part, form, same⟩ | ⟨inner, rfl, rfl⟩
  · rcases eq_nil_or_eq_nil_of_startsWithForm form ⟨other, back, same⟩ with rfl | rfl
    · rw [List.nil_append] at form
      obtain ⟨rfl, rfl⟩ := eq_of_utf8EncodeChar_append (form ▸ same)
      exact .inl ⟨rfl, rfl, rfl⟩
    · rw [List.append_nil] at form
      exact .inr ⟨[], by rw [form, List.append_nil], same⟩
  · exact .inr ⟨inner, rfl, List.append_assoc _ _ _⟩

/-- Where no form starts, one can only occur behind the first byte. -/
theorem exists_cons_of_not_startsWithForm {front back : Bytes} {other : Char}
    (stands : ¬ StartsWithForm (lead :: rest))
    (parts : front ++ utf8EncodeChar other ++ back = lead :: rest) :
    ∃ inner, front = lead :: inner ∧ inner ++ utf8EncodeChar other ++ back = rest := by
  cases front with
  | nil => exact (stands ⟨other, back, parts⟩).elim
  | cons first inner =>
      obtain ⟨rfl, behindFirst⟩ := List.cons.inj parts
      exact ⟨inner, rfl, behindFirst⟩

/-! ## Positions in forms -/

theorem covered_of_lt (inside : position < (utf8EncodeChar character).length) :
    Covered (utf8EncodeChar character ++ behind) position := by
  refine ⟨[], character, behind, rfl, Nat.zero_le position, ?_⟩
  rw [List.length_nil, Nat.zero_add]
  exact inside

theorem Covered.append_left (front : Bytes) (covered : Covered behind position) :
    Covered (front ++ behind) (front.length + position) := by
  obtain ⟨others, character, back, rfl, reached, inside⟩ := covered
  refine ⟨front ++ others, character, back, ?_, ?_, ?_⟩
  · simp only [List.append_assoc]
  · rw [List.length_append]
    omega
  · rw [List.length_append]
    omega

theorem covered_add_iff :
    Covered (utf8EncodeChar character ++ behind) ((utf8EncodeChar character).length + position) ↔
      Covered behind position := by
  constructor
  · rintro ⟨front, other, back, parts, reached, inside⟩
    rcases eq_nil_or_exists_append parts with ⟨rfl, rfl, rfl⟩ | ⟨inner, rfl, behindForm⟩
    · rw [List.length_nil] at inside
      omega
    · rw [List.length_append] at reached inside
      exact ⟨inner, other, back, behindForm, by omega, by omega⟩
  · exact Covered.append_left (utf8EncodeChar character)

theorem not_covered_zero (stands : ¬ StartsWithForm (lead :: rest)) :
    ¬ Covered (lead :: rest) 0 := by
  rintro ⟨front, character, back, parts, reached, -⟩
  rw [List.length_eq_zero_iff.1 (Nat.le_zero.1 reached)] at parts
  exact stands ⟨character, back, parts⟩

theorem covered_cons_succ_iff (stands : ¬ StartsWithForm (lead :: rest)) :
    Covered (lead :: rest) (position + 1) ↔ Covered rest position := by
  constructor
  · rintro ⟨front, character, back, parts, reached, inside⟩
    obtain ⟨inner, rfl, behindFirst⟩ := exists_cons_of_not_startsWithForm stands parts
    rw [List.length_cons] at reached inside
    exact ⟨inner, character, back, behindFirst, by omega, by omega⟩
  · intro covered
    rw [Nat.add_comm]
    exact covered.append_left [lead]

/-! ## Counting -/

theorem Text.escapeCount_cons (scalar : Scalar) (text : Text) :
    Text.escapeCount (scalar :: text) = text.escapeCount + if scalar.IsEscape then 1 else 0 := by
  rw [escapeCount, List.countP_cons]
  simp only [decide_eq_true_eq]
  rfl

/-- Decoding escapes the bytes that lie in no standard form. -/
theorem escapeCount_decode (bytes : Bytes) :
    (decode bytes).escapeCount =
      Nat.count (fun position => ¬ Covered bytes position) bytes.length := by
  induction bytes using segmentInduction with
  | nil => rfl
  | form character behind ih =>
      have plain := Scalar.not_isEscape_ofChar character
      have noneInForm : Nat.count (fun position => ¬ Covered (utf8EncodeChar character ++ behind)
          position) (utf8EncodeChar character).length = 0 := by
        rw [Nat.count_iff_forall_not]
        intro position inside
        exact not_not_intro (covered_of_lt inside)
      rw [decode_utf8EncodeChar_append, Text.escapeCount_cons, if_neg plain, ih,
        List.length_append, Nat.count_add, noneInForm, Nat.zero_add, Nat.add_zero]
      simp only [covered_add_iff]
  | stray lead rest raw stands ih =>
      rw [decode_cons_of_not_startsWithForm stands, Text.escapeCount_cons,
        if_pos (Scalar.isEscape_ofRawByte raw), ih, List.length_cons, Nat.count_succ',
        if_pos (not_covered_zero stands)]
      simp only [covered_cons_succ_iff stands]

/-- A continuation byte between two forms is the only one in none. -/
example : Nat.count (fun position => ¬ Covered [0xE2, 0x82, 0xAC, 0x82, 0x41] position) 5 = 1 := by
  decide +kernel

/-! ## Bytes without escapes -/

theorem decode_flatMap_utf8EncodeChar (characters : List Char) :
    decode (characters.flatMap utf8EncodeChar) = characters.map .ofChar := by
  induction characters with
  | nil => rfl
  | cons character characters ih =>
      rw [List.flatMap_cons, decode_utf8EncodeChar_append, ih, List.map_cons]

theorem flatMap_utf8EncodeChar_injective :
    Function.Injective fun characters : List Char => characters.flatMap utf8EncodeChar := by
  intro characters others same
  have texts := congrArg decode same
  dsimp only at texts
  rw [decode_flatMap_utf8EncodeChar, decode_flatMap_utf8EncodeChar] at texts
  exact List.map_injective_iff.2 (fun _ _ => Scalar.eq_of_ofChar_eq) texts

theorem exists_characters_of_escapeCount {bytes : Bytes}
    (noEscape : (decode bytes).escapeCount = 0) :
    ∃ characters : List Char, characters.flatMap utf8EncodeChar = bytes := by
  induction bytes using segmentInduction with
  | nil => exact ⟨[], rfl⟩
  | form character behind ih =>
      rw [decode_utf8EncodeChar_append, Text.escapeCount_cons,
        if_neg (Scalar.not_isEscape_ofChar character)] at noEscape
      obtain ⟨characters, rfl⟩ := ih noEscape
      exact ⟨character :: characters, rfl⟩
  | stray lead rest raw stands ih =>
      rw [decode_cons_of_not_startsWithForm stands, Text.escapeCount_cons,
        if_pos (Scalar.isEscape_ofRawByte raw)] at noEscape
      contradiction

/-- Bytes are well-formed exactly if they are standard forms of characters, side by side. -/
theorem isWellFormed_iff {bytes : Bytes} :
    isWellFormed bytes = true ↔
      ∃ characters : List Char, characters.flatMap utf8EncodeChar = bytes := by
  rw [isWellFormed, beq_iff_eq]
  constructor
  · exact exists_characters_of_escapeCount
  · rintro ⟨characters, rfl⟩
    rw [decode_flatMap_utf8EncodeChar, Text.escapeCount, List.countP_map, List.countP_eq_zero]
    intro character _ escape
    exact Scalar.not_isEscape_ofChar character (of_decide_eq_true escape)

/-- There are as many escapes in a decoded text as its bytes have positions that lie in no standard
form, wherever one starts. So the well-formed bytes are the standard forms of some characters, side
by side, and these characters are the text. -/
theorem escapes_mark_ill_formed (bytes : Bytes) :
    (∃ text, decodeTwoPass bytes = .ok text ∧
      text.escapeCount = Nat.count (fun position => ¬ Covered bytes position) bytes.length) ∧
    (isWellFormed bytes = true ↔
      ∃ characters : List Char, characters.flatMap utf8EncodeChar = bytes) ∧
    ∀ characters : List Char, characters.flatMap utf8EncodeChar = bytes →
      decodeTwoPass bytes = .ok (characters.map .ofChar) ∧
      ∀ others : List Char, others.flatMap utf8EncodeChar = bytes → others = characters := by
  refine ⟨⟨decode bytes, decodeTwoPass_eq bytes, escapeCount_decode bytes⟩, isWellFormed_iff, ?_⟩
  rintro characters rfl
  constructor
  · rw [decodeTwoPass_eq, decode_flatMap_utf8EncodeChar]
  · intro others same
    exact flatMap_utf8EncodeChar_injective same

/-- Two characters that are two and three bytes long. -/
theorem escapes_mark_ill_formed_two_characters :
    let bytes : Bytes := [0xC3, 0xA9, 0xE2, 0x82, 0xAC]
    let characters : List Char := ['é', '€']
    characters.flatMap utf8EncodeChar = bytes ∧
    decodeTwoPass bytes = .ok (characters.map .ofChar) ∧
    ∀ others : List Char, others.flatMap utf8EncodeChar = bytes → others = characters := by
  intro bytes characters
  have forms : characters.flatMap utf8EncodeChar = bytes := by decide
  exact ⟨forms, (escapes_mark_ill_formed bytes).2.2 characters forms⟩

end LosslessUtf8
