import LosslessUtf8.Decoding
import LosslessUtf8.Proofs.Scanning

/-!
# Segmentation

Decoding cuts its input into segments from the left: wherever the standard form of a character
starts, all of it, and one byte anywhere else. `segmentInduction` follows this cut, and
`decode_append_fill` says that a run which stops early leaves the cut of the rest as it was,
whatever stopped it.
-/

namespace LosslessUtf8

open String (utf8EncodeChar)

/-- Some bytes start with the standard form of a character. -/
def StartsWithForm (bytes : Bytes) : Prop :=
  ∃ character, utf8EncodeChar character <+: bytes

theorem not_startsWithForm_of_isContinuation {lead : UInt8} {rest : Bytes}
    (continuation : isContinuation lead) : ¬ StartsWithForm (lead :: rest) := by
  rintro ⟨character, starts⟩
  cases form : utf8EncodeChar character with
  | nil => exact String.utf8EncodeChar_ne_nil form
  | cons first tail =>
      rw [form, List.cons_prefix_cons] at starts
      rw [starts.1] at form
      exact (isContinuation_of_utf8EncodeChar form).1 continuation

namespace Token

variable {final : Bool} {lead : UInt8} {rest behind : Bytes} {token : Token} {character : Char}

theorem ofChar_ne_stray (raw : 0x80 ≤ lead.toNat) : ofChar character ≠ stray lead := by
  intro equal
  apply Scalar.not_isEscape_ofChar character
  rw [show Scalar.ofChar character = .ofRawByte lead from congrArg Token.scalar equal]
  exact Scalar.isEscape_ofRawByte raw

theorem raw_of_scan_eq_none (starved : scan lead rest = none) : 0x80 ≤ lead.toNat := by
  apply Nat.le_of_not_lt
  intro small
  rw [scan_of_one small] at starved
  contradiction

theorem scan_of_startsWithForm (starts : StartsWithForm (lead :: rest)) :
    ∃ character behind, utf8EncodeChar character ++ behind = lead :: rest ∧
      scan lead rest = some (ofChar character, behind) := by
  obtain ⟨character, behind, parts⟩ := starts
  exact ⟨character, behind, parts, scan_of_utf8EncodeChar_append parts⟩

theorem not_startsWithForm_of_scan (raw : 0x80 ≤ lead.toNat)
    (scanned : scan lead rest = some (stray lead, rest)) : ¬ StartsWithForm (lead :: rest) := by
  intro starts
  obtain ⟨character, behind, -, found⟩ := scan_of_startsWithForm starts
  rw [scanned] at found
  exact ofChar_ne_stray raw (congrArg Prod.fst (Option.some.inj found)).symm

theorem not_startsWithForm_of_scan_eq_none (starved : scan lead rest = none) :
    ¬ StartsWithForm (lead :: rest) := by
  intro starts
  obtain ⟨character, behind, -, found⟩ := scan_of_startsWithForm starts
  rw [starved] at found
  contradiction

/-- What is read is a standard form, or a byte on its own where no standard form starts. -/
theorem read_cases (taken : read final lead rest = some (token, behind)) :
    (∃ character, token = ofChar character) ∨
      token = stray lead ∧ behind = rest ∧ 0x80 ≤ lead.toNat ∧
        ¬ StartsWithForm (lead :: rest) := by
  unfold read at taken
  cases scanned : scan lead rest with
  | some found =>
      rw [scanned] at taken
      cases taken
      rcases scan_cases scanned with form | ⟨rfl, rfl, raw⟩
      · exact .inl form
      · exact .inr ⟨rfl, rfl, raw, not_startsWithForm_of_scan raw scanned⟩
  | none =>
      rw [scanned] at taken
      cases final with
      | false => contradiction
      | true =>
          cases taken
          exact .inr ⟨rfl, rfl, raw_of_scan_eq_none scanned,
            not_startsWithForm_of_scan_eq_none scanned⟩

/-- A token spells the scalar that it stands for. -/
theorem spell?_of_read (taken : read final lead rest = some (token, behind)) :
    token.scalar.spell? = some token.bytes := by
  rcases read_cases taken with ⟨character, rfl⟩ | ⟨rfl, -, raw, -⟩
  · exact Scalar.spell?_ofChar character
  · exact Scalar.spell?_ofRawByte raw

theorem read_true (lead : UInt8) (rest : Bytes) :
    read true lead rest = some (take lead rest) :=
  (Option.some_get _).symm

theorem take_of_read (taken : read true lead rest = some (token, behind)) :
    take lead rest = (token, behind) := by
  rw [read_true] at taken
  exact Option.some.inj taken

theorem read_of_scan (scanned : scan lead rest = some (token, behind)) (final : Bool) :
    read final lead rest = some (token, behind) := by
  rw [read, scanned]

theorem take_of_scan (scanned : scan lead rest = some (token, behind)) :
    take lead rest = (token, behind) :=
  take_of_read (read_of_scan scanned true)

/-- What was read stays what is read when more input follows, unless none was to follow. -/
theorem take_append_of_read (taken : read final lead rest = some (token, behind)) {more : Bytes}
    (last : final = true → more = []) :
    take lead (rest ++ more) = (token, behind ++ more) := by
  cases final with
  | true =>
      rw [last rfl, List.append_nil, List.append_nil]
      exact take_of_read taken
  | false =>
      unfold read at taken
      cases scanned : scan lead rest with
      | none =>
          rw [scanned] at taken
          contradiction
      | some found =>
          rw [scanned] at taken
          cases taken
          exact take_of_scan (scan_append scanned more)

theorem take_of_utf8EncodeChar_append
    (parts : utf8EncodeChar character ++ behind = lead :: rest) :
    take lead rest = (ofChar character, behind) :=
  take_of_scan (scan_of_utf8EncodeChar_append parts)

theorem take_of_not_startsWithForm (stands : ¬ StartsWithForm (lead :: rest)) :
    take lead rest = (stray lead, rest) := by
  rcases read_cases (read_true lead rest) with ⟨character, form⟩ | ⟨token, behind, -, -⟩
  · have parts := bytes_append_of_read (read_true lead rest)
    rw [form] at parts
    exact (stands ⟨character, _, parts⟩).elim
  · exact Prod.ext token behind

theorem raw_of_not_startsWithForm (stands : ¬ StartsWithForm (lead :: rest)) :
    0x80 ≤ lead.toNat := by
  apply Nat.le_of_not_lt
  intro small
  apply stands
  obtain ⟨character, form⟩ := exists_ofChar_of_one small
  refine ⟨character, rest, ?_⟩
  rw [show utf8EncodeChar character = [lead] from congrArg Token.bytes form]
  rfl

end Token

/-! ## Decoding all of the input -/

namespace Decoding

theorem fill_true_cons (room : Nat) (lead : UInt8) (rest : Bytes) :
    fill true (room + 1) (lead :: rest) =
      (fill true room (Token.take lead rest).2).cons (Token.take lead rest).1.scalar :=
  fill_succ_of_some room (Token.read_true lead rest)

theorem fill_true_eq_of_length_le {room other : Nat} {window : Bytes}
    (enough : window.length ≤ room) (alsoEnough : window.length ≤ other) :
    fill true room window = fill true other window := by
  induction room generalizing other window with
  | zero =>
      rw [List.length_eq_zero_iff.1 (Nat.le_zero.1 enough), fill_nil, fill_nil]
  | succ room ih =>
      cases window with
      | nil => rw [fill_nil, fill_nil]
      | cons lead rest =>
          have shorter := Token.length_take_lt lead rest
          rw [List.length_cons] at enough alsoEnough
          obtain ⟨other, rfl⟩ := Nat.exists_eq_succ_of_ne_zero (show other ≠ 0 by omega)
          have behindEqual : fill true room (Token.take lead rest).2 =
              fill true other (Token.take lead rest).2 := ih (by omega) (by omega)
          rw [fill_true_cons, fill_true_cons, behindEqual]

end Decoding

@[simp] theorem decode_nil : decode [] = [] := rfl

theorem decode_cons (lead : UInt8) (rest : Bytes) :
    decode (lead :: rest) = (Token.take lead rest).1.scalar :: decode (Token.take lead rest).2 := by
  have shorter := Token.length_take_lt lead rest
  rw [decode, List.length_cons, Decoding.fill_true_cons,
    Decoding.fill_true_eq_of_length_le (by omega) (Nat.le_refl _)]
  rfl

theorem eq_nil_of_decode_eq_nil {bytes : Bytes} (empty : decode bytes = []) : bytes = [] := by
  cases bytes with
  | nil => rfl
  | cons lead rest =>
      rw [decode_cons] at empty
      contradiction

theorem decode_utf8EncodeChar_append (character : Char) (behind : Bytes) :
    decode (utf8EncodeChar character ++ behind) = .ofChar character :: decode behind := by
  cases parts : utf8EncodeChar character ++ behind with
  | nil => exact (String.utf8EncodeChar_ne_nil (List.append_eq_nil_iff.1 parts).1).elim
  | cons lead rest =>
      rw [decode_cons, Token.take_of_utf8EncodeChar_append parts]
      rfl

/-- The form at the front of some bytes is told by the bytes. -/
theorem eq_of_utf8EncodeChar_append {character other : Char} {behind back : Bytes}
    (same : utf8EncodeChar character ++ behind = utf8EncodeChar other ++ back) :
    character = other ∧ behind = back := by
  have texts := congrArg decode same
  rw [decode_utf8EncodeChar_append, decode_utf8EncodeChar_append] at texts
  obtain rfl : character = other := Scalar.eq_of_ofChar_eq (List.cons.inj texts).1
  exact ⟨rfl, List.append_cancel_left same⟩

theorem decode_cons_of_not_startsWithForm {lead : UInt8} {rest : Bytes}
    (stands : ¬ StartsWithForm (lead :: rest)) :
    decode (lead :: rest) = .ofRawByte lead :: decode rest := by
  rw [decode_cons, Token.take_of_not_startsWithForm stands]
  rfl

theorem decode_append_of_isContinuation {tail : Bytes}
    (continuations : ∀ byte ∈ tail, isContinuation byte) (behind : Bytes) :
    decode (tail ++ behind) = tail.map .ofRawByte ++ decode behind := by
  induction tail with
  | nil => rfl
  | cons byte tail ih =>
      rw [List.forall_mem_cons] at continuations
      rw [List.cons_append, decode_cons_of_not_startsWithForm
        (not_startsWithForm_of_isContinuation continuations.1), ih continuations.2]
      rfl

/-- To prove a property of all inputs, follow the cut that decoding makes. -/
@[elab_as_elim] theorem segmentInduction {motive : Bytes → Prop} (nil : motive [])
    (form : ∀ character behind, motive behind → motive (utf8EncodeChar character ++ behind))
    (stray : ∀ lead rest, 0x80 ≤ lead.toNat → ¬ StartsWithForm (lead :: rest) → motive rest →
      motive (lead :: rest))
    (bytes : Bytes) : motive bytes := by
  induction size : bytes.length using Nat.strongRecOn generalizing bytes with
  | _ size ih =>
      subst size
      cases bytes with
      | nil => exact nil
      | cons lead rest =>
          by_cases starts : StartsWithForm (lead :: rest)
          · obtain ⟨character, behind, parts⟩ := starts
            have nonempty := List.length_pos_iff.2 (@String.utf8EncodeChar_ne_nil character)
            rw [← parts] at ih ⊢
            apply form
            exact ih behind.length (by rw [List.length_append]; omega) behind rfl
          · apply stray lead rest (Token.raw_of_not_startsWithForm starts) starts
            exact ih rest.length (Nat.lt_succ_self _) rest rfl

/-! ## Decoding some of the input -/

namespace Decoding

/-- A run that stops early leaves the cut of what it did not decode as it was, also when more input
follows, as long as none was ruled out. -/
theorem decode_append_fill {final : Bool} {more : Bytes} (last : final = true → more = [])
    (room : Nat) (window : Bytes) :
    decode (window ++ more) =
      (fill final room window).text ++ decode ((fill final room window).rest ++ more) := by
  induction room, window using fillInduction final with
  | ended room => simp
  | full lead rest => simp
  | starved room lead rest starved => simp [fill_succ_of_none room starved]
  | taken room lead rest token behind taken ih =>
      rw [fill_succ_of_some room taken, List.cons_append, decode_cons,
        Token.take_append_of_read taken last, ih]
      rfl

/-- A window decodes to what a run decodes of it, and to what its rest decodes to. -/
theorem decode_eq_fill (final : Bool) (room : Nat) (window : Bytes) :
    decode window =
      (fill final room window).text ++ decode (fill final room window).rest := by
  have nothing : final = true → ([] : Bytes) = [] := fun _ => rfl
  have parts := decode_append_fill nothing room window
  rwa [List.append_nil, List.append_nil] at parts

/-- Behind a run to the end of the input is what the run had no room for. -/
theorem decode_rest_fill_true (room : Nat) (window : Bytes) :
    decode (fill true room window).rest = (decode window).drop room := by
  induction room generalizing window with
  | zero =>
      cases window with
      | nil => rfl
      | cons lead rest => rfl
  | succ room ih =>
      cases window with
      | nil => rfl
      | cons lead rest =>
          rw [fill_true_cons, Progress.cons, ih, decode_cons, List.drop_succ_cons]

/-- A run to the end of the input is cut short by its room alone. -/
theorem fill_true_of_length_decode_le {room : Nat} {window : Bytes}
    (enough : (decode window).length ≤ room) :
    fill true room window = ⟨decode window, [], .inputExhausted⟩ := by
  induction room generalizing window with
  | zero =>
      cases window with
      | nil => rfl
      | cons lead rest =>
          rw [decode_cons] at enough
          contradiction
  | succ room ih =>
      cases window with
      | nil => rfl
      | cons lead rest =>
          rw [decode_cons, List.length_cons, Nat.add_le_add_iff_right] at enough
          rw [fill_true_cons, ih enough, decode_cons]
          rfl

theorem countTokens_eq (counted : Nat) (window : Bytes) :
    countTokens counted window = counted + (decode window).length := by
  induction counted, window using countTokens.induct with
  | case1 counted => simp [countTokens]
  | case2 counted lead rest ih =>
      rw [countTokens, ih, decode_cons, List.length_cons]
      omega

end Decoding

theorem tokenCount_eq (window : Bytes) : tokenCount window = (decode window).length := by
  rw [tokenCount, Decoding.countTokens_eq, Nat.zero_add]

end LosslessUtf8
