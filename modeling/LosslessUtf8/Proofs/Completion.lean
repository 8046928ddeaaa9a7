import LosslessUtf8.Proofs.SequenceTable
import LosslessUtf8.Proofs.Unfinished

/-!
# Completing what was held back

A sequence is held back while its form allows: the lead byte asks for more bytes, and all that is
there are continuation bytes. Whether the number that it spells is allowed is asked at the end. Four
lead bytes allow only some of the continuation bytes behind them, so with these the second byte
settles what the last one would: an unfinished sequence can be completed unless its second byte is
ruled out (`completable_iff`), and if it is, then the lead byte is escaped in the end, whatever
comes (`Token.eq_stray_of_secondRuledOut`).
-/

namespace LosslessUtf8

open String (utf8EncodeChar)

/-- The second byte is none that the lead byte allows: with it, the number is too small for as many
bytes, or a surrogate, or too large for a code point. -/
def SecondRuledOut : Bytes → Prop
  | lead :: second :: _ =>
    lead = 0xE0 ∧ second < 0xA0 ∨ lead = 0xED ∧ 0xA0 ≤ second ∨
      lead = 0xF0 ∧ second < 0x90 ∨ lead = 0xF4 ∧ 0x90 ≤ second
  | _ => False

instance : (bytes : Bytes) → Decidable (SecondRuledOut bytes)
  | [] => inferInstanceAs (Decidable False)
  | [_] => inferInstanceAs (Decidable False)
  | _ :: _ :: _ => inferInstanceAs (Decidable (_ ∨ _))

/-- With some further input, a token that reaches beyond the bytes at hand and is no escape. -/
def Completable (bytes : Bytes) : Prop :=
  ∃ more found,
    Position.load (bytes ++ more) 0 (bytes ++ more).length true = .ok (.token found) ∧
    ¬ found.scalar.IsEscape ∧ bytes.length < found.bytes.length

variable {lead second third fourth : UInt8} {rest bytes : Bytes}

theorem SecondRuledOut.append (ruledOut : SecondRuledOut bytes) (more : Bytes) :
    SecondRuledOut (bytes ++ more) := by
  match bytes with
  | [] => exact ruledOut.elim
  | [_] => exact ruledOut.elim
  | _ :: _ :: _ => exact ruledOut

theorem secondRuledOut_iff :
    SecondRuledOut (lead :: second :: rest) ↔
      lead.toNat = 0xE0 ∧ second.toNat < 0xA0 ∨ lead.toNat = 0xED ∧ 0xA0 ≤ second.toNat ∨
        lead.toNat = 0xF0 ∧ second.toNat < 0x90 ∨ lead.toNat = 0xF4 ∧ 0x90 ≤ second.toNat := by
  simp only [SecondRuledOut, UInt8.lt_iff_toNat_lt, UInt8.le_iff_toNat_le, ← UInt8.toNat_inj,
    UInt8.reduceToNat]

theorem SecondRuledOut.le_lead (ruledOut : SecondRuledOut (lead :: rest)) :
    0xE0 ≤ lead.toNat := by
  cases rest with
  | nil => exact ruledOut.elim
  | cons second behind =>
      rw [secondRuledOut_iff] at ruledOut
      omega

namespace Token

theorem isSequence_of_ofChar_eq {character : Char} {token : Token}
    (form : ofChar character = token) : IsSequence token.bytes :=
  form ▸ isSequence_utf8EncodeChar character

/-! ## What the second byte settles -/

theorem needsThreeBytes_iff (low : 0xE0 ≤ lead.toNat) (high : lead.toNat < 0xF0)
    (secondFollows : isContinuation second) :
    NeedsThreeBytes (threeByteValue lead second third) ↔
      ¬ SecondRuledOut (lead :: second :: rest) := by
  rw [isContinuation_iff] at secondFollows
  rw [secondRuledOut_iff, NeedsThreeBytes, threeByteValue]
  omega

theorem needsFourBytes_iff (low : 0xF0 ≤ lead.toNat) (high : lead.toNat ≤ 0xF4)
    (secondFollows : isContinuation second) :
    NeedsFourBytes (fourByteValue lead second third fourth) ↔
      ¬ SecondRuledOut (lead :: second :: rest) := by
  rw [isContinuation_iff] at secondFollows
  rw [secondRuledOut_iff, NeedsFourBytes, fourByteValue]
  omega

/-- With a second byte that is ruled out, the scan comes to the lead byte alone, if to anything. -/
theorem scan_of_secondRuledOut (ruledOut : SecondRuledOut (lead :: rest)) :
    scan lead rest = none ∨ scan lead rest = some (stray lead, rest) := by
  have low := ruledOut.le_lead
  -- A sequence is taken whole in four cases: two whose lead byte is too small, and two whose number
  -- the second byte has ruled out.
  fun_cases scan lead rest with
  | case2 | case4 | case7 | case9 | case11 | case13 => exact .inr rfl
  | case3 | case6 | case10 => exact .inl rfl
  | case1 _ small => exact (Nat.not_lt.2 low (Nat.lt_trans small (by decide))).elim
  | case5 _ _ _ _ _ isTwo => exact (Nat.not_lt.2 low isTwo).elim
  | case8 _ _ second secondFollows notTwo third _ thirdFollows isThree allowed =>
      have follows := Decidable.not_not.1 secondFollows
      exact ((needsThreeBytes_iff low isThree follows).1 allowed ruledOut).elim
  | case12 _ inRange second secondFollows _ third thirdFollows notThree fourth _ _ allowed =>
      have follows := Decidable.not_not.1 secondFollows
      have high : lead.toNat ≤ 0xF4 := Nat.le_of_not_lt fun greater => inRange (.inr greater)
      exact ((needsFourBytes_iff (Nat.le_of_not_lt notThree) high follows).1 allowed
        ruledOut).elim

theorem eq_stray_of_secondRuledOut {final : Bool} {behind : Bytes} {token : Token}
    (ruledOut : SecondRuledOut (lead :: rest))
    (taken : read final lead rest = some (token, behind)) : token = stray lead := by
  rw [read] at taken
  rcases scan_of_secondRuledOut ruledOut with undecided | scanned
  · rw [undecided] at taken
    cases final with
    | true =>
        cases taken
        rfl
    | false => contradiction
  · rw [scanned] at taken
    cases taken
    rfl

/-- Only where the scan leaves it open, more input makes a longer token. -/
theorem scan_eq_none_of_length_lt {more : Bytes}
    (longer : (lead :: rest).length < (take lead (rest ++ more)).1.bytes.length) :
    scan lead rest = none := by
  cases scanned : scan lead rest with
  | none => rfl
  | some found =>
      obtain ⟨token, behind⟩ := found
      have size := congrArg List.length (bytes_append_of_scan scanned)
      rw [take_of_scan (scan_append scanned more)] at longer
      rw [List.length_append] at size
      dsimp only at longer
      omega

end Token

/-! ## Which unfinished sequences can be completed -/

namespace Unfinished

theorem exists_second (unfinished : Unfinished [lead]) (several : 0xE0 ≤ lead.toNat) :
    ∃ second, Unfinished [lead, second] ∧ ¬ SecondRuledOut [lead, second] := by
  have high : lead.toNat ≤ 0xF4 := unfinished.1.2
  have longer (second : UInt8) (follows : isContinuation second) :
      Unfinished [lead, second] := by
    refine ⟨unfinished.1, List.forall_mem_singleton.2 follows, ?_⟩
    have notTwo : ¬ lead < 0xE0 := Nat.not_lt.2 several
    rw [sequenceLength, if_neg notTwo]
    split
    · exact show 2 < 3 by decide
    · exact show 2 < 4 by decide
  -- Some lead bytes ask for a large second byte, others for a small one, and none for both.
  by_cases small : lead.toNat = 0xE0 ∨ lead.toNat = 0xF0
  · refine ⟨0xA0, longer 0xA0 rfl, ?_⟩
    rw [secondRuledOut_iff, show UInt8.toNat 0xA0 = 0xA0 from rfl]
    omega
  · refine ⟨0x80, longer 0x80 rfl, ?_⟩
    rw [secondRuledOut_iff, show UInt8.toNat 0x80 = 0x80 from rfl]
    omega

/-- Behind a second byte that is allowed, any continuation bytes are. -/
theorem exists_missing_of_second (unfinished : Unfinished (lead :: second :: rest))
    (allowed : ¬ SecondRuledOut (lead :: second :: rest)) :
    ∃ missing, missing ≠ [] ∧ IsSequence (lead :: second :: rest ++ missing) := by
  obtain ⟨⟨-, high⟩, continuations, short⟩ := unfinished
  obtain ⟨secondFollows, continuations⟩ := List.forall_mem_cons.1 continuations
  have last : isContinuation 0x80 := rfl
  rw [sequenceLength, List.length_cons, List.length_cons] at short
  by_cases two : lead < 0xE0
  · rw [if_pos two] at short
    omega
  have low : 0xE0 ≤ lead.toNat := Nat.le_of_not_lt two
  rw [if_neg two] at short
  by_cases three : lead < 0xF0
  · rw [if_pos three] at short
    obtain rfl : rest = [] := List.eq_nil_of_length_eq_zero (by omega)
    obtain ⟨character, form⟩ := Token.exists_ofChar_of_three low three secondFollows last
      ((Token.needsThreeBytes_iff low three secondFollows).2 allowed)
    exact ⟨[0x80], by decide, Token.isSequence_of_ofChar_eq form⟩
  have low : 0xF0 ≤ lead.toNat := Nat.le_of_not_lt three
  rw [if_neg three] at short
  cases rest with
  | nil =>
      obtain ⟨character, form⟩ := Token.exists_ofChar_of_four low high secondFollows last last
        ((Token.needsFourBytes_iff low high secondFollows).2 allowed)
      exact ⟨[0x80, 0x80], by decide, Token.isSequence_of_ofChar_eq form⟩
  | cons third rest =>
      have thirdFollows := (List.forall_mem_cons.1 continuations).1
      rw [List.length_cons] at short
      obtain rfl : rest = [] := List.eq_nil_of_length_eq_zero (by omega)
      obtain ⟨character, form⟩ := Token.exists_ofChar_of_four low high secondFollows thirdFollows
        last ((Token.needsFourBytes_iff low high secondFollows).2 allowed)
      exact ⟨[0x80], by decide, Token.isSequence_of_ofChar_eq form⟩

/-- As long as its second byte is not ruled out, an unfinished sequence lacks the bytes that make it
a sequence. -/
theorem exists_missing (unfinished : Unfinished bytes) (allowed : ¬ SecondRuledOut bytes) :
    ∃ missing, missing ≠ [] ∧ IsSequence (bytes ++ missing) := by
  match bytes with
  | [] => exact unfinished.elim
  | [lead] =>
      by_cases two : lead.toNat < 0xE0
      · obtain ⟨character, form⟩ :=
          Token.exists_ofChar_of_two unfinished.1.1 two (show isContinuation 0x80 from rfl)
        exact ⟨[0x80], by decide, Token.isSequence_of_ofChar_eq form⟩
      · obtain ⟨second, longer, allowed⟩ := unfinished.exists_second (Nat.le_of_not_lt two)
        obtain ⟨missing, -, sequence⟩ := longer.exists_missing_of_second allowed
        exact ⟨second :: missing, List.cons_ne_nil _ _, sequence⟩
  | _ :: _ :: _ => exact unfinished.exists_missing_of_second allowed

end Unfinished

/-- What is read from all of some bytes that nothing follows. -/
theorem Position.load_whole (lead : UInt8) (rest : Bytes) :
    load (lead :: rest) 0 (lead :: rest).length true = .ok (.token (Token.take lead rest).1) := by
  have window : (lead :: rest).extract 0 (lead :: rest).length = lead :: rest := by
    rw [List.extract_eq_take_drop, Nat.sub_zero, List.drop_zero, List.take_length]
  exact load_of_read window (Nat.le_refl _) (Token.read_true lead rest)

/-- What is the beginning of a sequence, but not all of it, can be completed. -/
theorem completable_of_isSequence {missing : Bytes} (nonempty : missing ≠ [])
    (sequence : IsSequence (lead :: rest ++ missing)) : Completable (lead :: rest) := by
  obtain ⟨character, form⟩ := isSequence_iff.1 sequence
  have whole : utf8EncodeChar character ++ [] = lead :: (rest ++ missing) :=
    (List.append_nil _).trans form
  have size := congrArg List.length form
  have longer := List.length_pos_iff.2 nonempty
  rw [List.length_append] at size
  refine ⟨missing, Token.ofChar character, ?_, Scalar.not_isEscape_ofChar character, ?_⟩
  · rw [List.cons_append, Position.load_whole, Token.take_of_utf8EncodeChar_append whole]
  · dsimp only [Token.ofChar]
    omega

/-- Some bytes can be completed if and only if they are an unfinished sequence whose second byte is
not ruled out. -/
theorem completable_iff :
    Completable (lead :: rest) ↔ Unfinished (lead :: rest) ∧ ¬ SecondRuledOut (lead :: rest) := by
  constructor
  · rintro ⟨more, found, loaded, genuine, longer⟩
    rw [List.cons_append, Position.load_whole] at loaded
    cases loaded
    constructor
    · exact Token.scan_eq_none_iff.1 (Token.scan_eq_none_of_length_lt longer)
    · intro ruledOut
      have stray : (Token.take lead (rest ++ more)).1 = .stray lead :=
        Token.eq_stray_of_secondRuledOut (ruledOut.append more) (Token.read_true _ _)
      have raw : 0x80 ≤ lead.toNat := Nat.le_trans (by decide) ruledOut.le_lead
      rw [stray] at genuine
      exact genuine (Scalar.isEscape_ofRawByte raw)
  · rintro ⟨unfinished, allowed⟩
    obtain ⟨missing, nonempty, sequence⟩ := unfinished.exists_missing allowed
    exact completable_of_isSequence nonempty sequence

theorem completable_iff_isSequence :
    Completable (lead :: rest) ↔
      ∃ missing, missing ≠ [] ∧ IsSequence (lead :: rest ++ missing) := by
  constructor
  · intro completable
    obtain ⟨unfinished, allowed⟩ := completable_iff.1 completable
    exact unfinished.exists_missing allowed
  · rintro ⟨missing, nonempty, sequence⟩
    exact completable_of_isSequence nonempty sequence

/-! ## What is held back -/

namespace Position

variable {data : Bytes} {pos stop : Nat}

theorem load_eq_incomplete_iff (window : data.extract pos stop = lead :: rest)
    (inside : stop ≤ data.length) {available : Nat} :
    load data pos stop false = .ok (.incomplete available) ↔
      available = stop - pos ∧ Unfinished (lead :: rest) := by
  have size := length_of_extract_eq window inside
  rw [load_eq window inside, ← Token.scan_eq_none_iff, size, Token.read]
  cases Token.scan lead rest with
  | none => simp [eq_comm]
  | some found => simp

theorem load_eq_stray (window : data.extract pos stop = lead :: rest)
    (inside : stop ≤ data.length) (stands : ¬ StartsWithForm (lead :: rest))
    (finished : ¬ Unfinished (lead :: rest)) :
    load data pos stop false = .ok (.token (.stray lead)) := by
  cases scanned : Token.scan lead rest with
  | none => exact (finished (Token.scan_eq_none_iff.1 scanned)).elim
  | some found =>
      obtain ⟨token, behind⟩ := found
      have taken := Token.read_of_scan scanned false
      rcases Token.read_cases taken with ⟨character, rfl⟩ | ⟨rfl, -, -, -⟩
      · exact (stands ⟨character, behind, Token.bytes_append_of_read taken⟩).elim
      · exact load_of_read window inside taken

end Position

/-- Between two positions, an unfinished sequence is held back, and nothing else is. It can be
completed, to a sequence that stands for a character, unless its second byte is ruled out; and if it
is, then its lead byte is escaped at the end of the input, whatever comes before that. Any other
bytes that neither start with the standard form of a character nor can be completed are escaped at
once. -/
theorem held_back_by_form (data : Bytes) (pos stop : Nat) (before : pos < stop)
    (inside : stop ≤ data.length) :
    let window := data.extract pos stop
    let lead := data[pos]
    (∀ available, Position.load data pos stop false = .ok (.incomplete available) ↔
      available = stop - pos ∧ Unfinished window) ∧
    (Completable window ↔ Unfinished window ∧ ¬ SecondRuledOut window) ∧
    (Completable window ↔ ∃ missing, missing ≠ [] ∧ IsSequence (window ++ missing)) ∧
    (SecondRuledOut window → ∀ more,
      Position.load (window ++ more) 0 (window ++ more).length true =
        .ok (.token (.stray lead))) ∧
    (¬ StartsWithForm window → ¬ Completable window →
      ¬ (Unfinished window ∧ SecondRuledOut window) →
      Position.load data pos stop false = .ok (.token (.stray lead))) := by
  intro window lead
  have parts : window = lead :: data.extract (pos + 1) stop :=
    extract_eq_cons before (Nat.lt_of_lt_of_le before inside)
  rw [parts]
  refine ⟨fun _ => Position.load_eq_incomplete_iff parts inside, completable_iff,
    completable_iff_isSequence, ?_, ?_⟩
  · intro ruledOut more
    have stray : (Token.take lead (data.extract (pos + 1) stop ++ more)).1 = .stray lead :=
      Token.eq_stray_of_secondRuledOut (ruledOut.append more) (Token.read_true _ _)
    rw [List.cons_append, Position.load_whole, stray]
  · intro stands stuck otherwise
    apply Position.load_eq_stray parts inside stands
    intro unfinished
    exact stuck (completable_iff.2 ⟨unfinished, fun ruledOut => otherwise ⟨unfinished, ruledOut⟩⟩)

/-- Bytes that break off in a sequence that can be completed, and the same bytes with one behind
them that does not go on with it. -/
theorem held_back_by_form_three_bytes :
    let data : Bytes := [0x41, 0xF0, 0x9F, 0x98, 0x41]
    Position.load data 1 4 false = .ok (.incomplete 3) ∧
    Completable (data.extract 1 4) ∧
    ¬ Completable (data.extract 1 5) ∧
    Position.load data 1 5 false = .ok (.token (.stray 0xF0)) := by
  intro data
  obtain ⟨heldBack, completable, -⟩ := held_back_by_form data 1 4 (by decide) (by decide)
  obtain ⟨-, completableAll, -, -, escaped⟩ := held_back_by_form data 1 5 (by decide) (by decide)
  have stuck : ¬ Completable (data.extract 1 5) := by
    rw [completableAll]
    decide
  have stands : ¬ StartsWithForm (data.extract 1 5) :=
    Token.not_startsWithForm_of_scan (by decide) rfl
  exact ⟨(heldBack 3).2 ⟨rfl, by decide⟩, completable.2 (by decide), stuck,
    escaped stands stuck (by decide)⟩

/-- Bytes that are held back though no further input completes them: their second byte makes any
number too small for three bytes, but the number is asked for when all three are there. -/
theorem held_back_not_completable :
    Position.load [0xE0, 0x80] 0 2 false = .ok (.incomplete 2) ∧ ¬ Completable [0xE0, 0x80] := by
  constructor
  · rfl
  · rw [completable_iff]
    decide

end LosslessUtf8
