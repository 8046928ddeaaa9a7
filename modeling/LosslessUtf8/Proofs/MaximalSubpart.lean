import LosslessUtf8.Proofs.TwoPass
import LosslessUtf8.Proofs.SequenceTable
import Mathlib.Data.Nat.Find

/-!
# Escaping maximal subparts

The usual way to decode with escapes reads from the left as well, but on an error it skips more than
one byte: all of the longest piece that could have become a well-formed sequence. Decoding escapes
one byte and reads on behind it. Both give the same text, since a sequence that goes wrong has only
continuation bytes behind its lead byte, and these are escaped one by one when they are read again.
-/

namespace LosslessUtf8

open String (utf8EncodeChar)

/-- Some bytes that a well-formed sequence begins with. -/
def IsBeginning (part : Bytes) : Prop :=
  ∃ missing, IsSequence (part ++ missing)

/-- The longest piece at the front of some bytes that a well-formed sequence begins with; the first
byte alone, if no sequence begins with it. -/
structure IsMaximalSubpart (part bytes : Bytes) : Prop where
  atFront : part <+: bytes
  nonempty : part ≠ []
  beginning : IsBeginning part ∨ part.length = 1
  longest : ∀ other, other <+: bytes → IsBeginning other → other.length ≤ part.length

/-- Decoding that takes a well-formed sequence for the scalar that it spells, and escapes every byte
of a maximal subpart where there is none. -/
inductive DecodesBySubparts : Bytes → Text → Prop where
  | nil : DecodesBySubparts [] []
  | sequence {sequence rest : Bytes} {text : Text} {character : Char} :
      IsSequence sequence → utf8EncodeChar character = sequence → DecodesBySubparts rest text →
      DecodesBySubparts (sequence ++ rest) (.ofChar character :: text)
  | subpart {part rest : Bytes} {text : Text} :
      (∀ sequence, IsSequence sequence → ¬ sequence <+: part ++ rest) →
      IsMaximalSubpart part (part ++ rest) → DecodesBySubparts rest text →
      DecodesBySubparts (part ++ rest) (part.map .ofRawByte ++ text)

theorem startsWithForm_iff {bytes : Bytes} :
    StartsWithForm bytes ↔ ∃ sequence, IsSequence sequence ∧ sequence <+: bytes := by
  constructor
  · rintro ⟨character, atFront⟩
    exact ⟨_, isSequence_utf8EncodeChar character, atFront⟩
  · rintro ⟨sequence, isSequence, atFront⟩
    obtain ⟨character, rfl⟩ := isSequence_iff.1 isSequence
    exact ⟨character, atFront⟩

theorem isBeginning_nil : IsBeginning [] :=
  ⟨_, isSequence_utf8EncodeChar 'a'⟩

theorem isContinuation_of_isBeginning {lead : UInt8} {tail : Bytes}
    (beginning : IsBeginning (lead :: tail)) : ∀ byte ∈ tail, isContinuation byte := by
  obtain ⟨missing, sequence⟩ := beginning
  obtain ⟨character, form⟩ := isSequence_iff.1 sequence
  intro byte member
  apply (isContinuation_of_utf8EncodeChar form).2
  exact List.mem_append_left missing member

/-- What is skipped at once is escaped byte by byte if it is not. -/
theorem decode_subpart_append {part rest : Bytes} (stands : ¬ StartsWithForm (part ++ rest))
    (maximal : IsMaximalSubpart part (part ++ rest)) :
    decode (part ++ rest) = part.map .ofRawByte ++ decode rest := by
  cases part with
  | nil => exact (maximal.nonempty rfl).elim
  | cons lead tail =>
      have continuations : ∀ byte ∈ tail, isContinuation byte := by
        rcases maximal.beginning with beginning | single
        · exact isContinuation_of_isBeginning beginning
        · rw [List.length_eq_zero_iff.1 (Nat.succ.inj single)]
          simp
      rw [List.cons_append] at stands ⊢
      rw [decode_cons_of_not_startsWithForm stands,
        decode_append_of_isContinuation continuations]
      rfl

theorem exists_isMaximalSubpart {bytes : Bytes} (nonempty : bytes ≠ []) :
    ∃ part, IsMaximalSubpart part bytes := by
  classical
  let begins (count : Nat) : Prop := IsBeginning (bytes.take count)
  let most := Nat.findGreatest begins bytes.length
  have mostBegins : begins most :=
    Nat.findGreatest_spec (P := begins) (Nat.zero_le _) isBeginning_nil
  have mostInside : most ≤ bytes.length := Nat.findGreatest_le _
  have someByte : 0 < bytes.length := List.length_pos_iff.2 nonempty
  have size : (bytes.take (max 1 most)).length = max 1 most := by
    rw [List.length_take]
    omega
  -- A byte that no sequence begins with makes a piece of its own, even though `most` is zero there.
  refine ⟨bytes.take (max 1 most), List.take_prefix _ _, ?_, ?_, ?_⟩
  · apply List.ne_nil_of_length_pos
    omega
  · rcases Nat.le_total most 1 with single | several
    · right
      omega
    · left
      rw [max_eq_right several]
      exact mostBegins
  · intro other atFront beginning
    have otherBegins : begins other.length := by
      show IsBeginning (bytes.take other.length)
      rw [← List.prefix_iff_eq_take.1 atFront]
      exact beginning
    have inMost : other.length ≤ most := Nat.le_findGreatest atFront.length_le otherBegins
    omega

namespace DecodesBySubparts

theorem decode_eq {bytes : Bytes} {text : Text} (decodes : DecodesBySubparts bytes text) :
    decode bytes = text := by
  induction decodes with
  | nil => exact decode_nil
  | sequence _ form _ ih =>
      rw [← form, decode_utf8EncodeChar_append, ih]
  | subpart noSequence maximal _ ih =>
      rw [decode_subpart_append ?_ maximal, ih]
      intro starts
      obtain ⟨sequence, isSequence, atFront⟩ := startsWithForm_iff.1 starts
      exact noSequence sequence isSequence atFront

/-- A text is found for any bytes. -/
theorem exists_text (bytes : Bytes) : ∃ text, DecodesBySubparts bytes text := by
  induction size : bytes.length using Nat.strongRecOn generalizing bytes with
  | ind length ih =>
      by_cases empty : bytes = []
      · subst empty
        exact ⟨[], .nil⟩
      by_cases starts : StartsWithForm bytes
      · obtain ⟨character, rest, rfl⟩ := starts
        have shorter : rest.length < length := by
          have positive := List.length_pos_iff.2 (@String.utf8EncodeChar_ne_nil character)
          rw [List.length_append] at size
          omega
        obtain ⟨text, decodes⟩ := ih rest.length shorter rest rfl
        exact ⟨_, .sequence (isSequence_utf8EncodeChar character) rfl decodes⟩
      · obtain ⟨part, maximal⟩ := exists_isMaximalSubpart empty
        obtain ⟨rest, rfl⟩ := maximal.atFront
        have shorter : rest.length < length := by
          have positive := List.length_pos_iff.2 maximal.nonempty
          rw [List.length_append] at size
          omega
        obtain ⟨text, decodes⟩ := ih rest.length shorter rest rfl
        refine ⟨_, .subpart ?_ maximal decodes⟩
        intro sequence isSequence atFront
        exact starts (startsWithForm_iff.2 ⟨sequence, isSequence, atFront⟩)

end DecodesBySubparts

/-- Escaping the lead byte of an ill-formed piece and reading the rest again is the same as escaping
its maximal subpart at once: decoding gives the text, and the only one, that is found so. -/
theorem decodesBySubparts_iff (bytes : Bytes) (text : Text) :
    DecodesBySubparts bytes text ↔ decodeTwoPass bytes = .ok text := by
  rw [decodeTwoPass_eq, Except.ok.injEq]
  constructor
  · intro decodes
    exact decodes.decode_eq
  · intro decoded
    obtain ⟨found, decodes⟩ := DecodesBySubparts.exists_text bytes
    rw [← decoded, decodes.decode_eq]
    exact decodes

end LosslessUtf8
