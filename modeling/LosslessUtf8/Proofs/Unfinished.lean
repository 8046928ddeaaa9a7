import LosslessUtf8.Proofs.Addressed
import LosslessUtf8.Proofs.Lossless
import LosslessUtf8.Proofs.AmpleRoom
import Mathlib.Data.List.DropRight

/-!
# The unfinished end

Where more input may follow, decoding holds back the sequence that its input breaks off in. Although
decoding gets there from the front, cutting whatever comes before, the end alone tells which bytes
these are: a lead byte always starts a segment, so nothing in front of the last lead byte matters
(`unfinishedEnd_of_suffix`), and the last three bytes are enough to look at
(`unfinishedEnd_rtake_three`).
-/

namespace LosslessUtf8

open String (utf8EncodeChar)

/-- The number of bytes of a sequence that starts with the given lead byte. -/
def sequenceLength (lead : UInt8) : Nat :=
  if lead < 0xE0 then 2 else if lead < 0xF0 then 3 else 4

/-- Some bytes are an unfinished sequence: a lead byte, and behind it continuation bytes, but fewer
than the lead byte asks for. -/
def Unfinished : Bytes → Prop
  | [] => False
  | lead :: tail =>
    (0xC2 ≤ lead ∧ lead ≤ 0xF4) ∧ (∀ byte ∈ tail, isContinuation byte) ∧
      (lead :: tail).length < sequenceLength lead

instance : (bytes : Bytes) → Decidable (Unfinished bytes)
  | [] => inferInstanceAs (Decidable False)
  | _ :: tail =>
    -- Only the bytes of the tail are to be looked at, not all bytes that there are.
    let _ : Decidable (∀ byte ∈ tail, isContinuation byte) := List.decidableBAll _ tail
    inferInstanceAs (Decidable ((_ ∧ _) ∧ _ ∧ _))

/-- The unfinished sequence at the end of some bytes, if there is one. -/
def unfinishedEnd : Bytes → Bytes
  | [] => []
  | lead :: rest => if Unfinished (lead :: rest) then lead :: rest else unfinishedEnd rest

variable {lead : UInt8} {rest bytes suffix : Bytes}

/-! ## Unfinished sequences -/

namespace Token

/-- The scan leaves open what is an unfinished sequence, and nothing else. -/
theorem scan_eq_none_iff : scan lead rest = none ↔ Unfinished (lead :: rest) := by
  fun_cases scan lead rest
  -- Each way through the scan settles all that an unfinished sequence is told by.
  all_goals
    simp only [Unfinished, sequenceLength, UInt8.le_iff_toNat_le, UInt8.lt_iff_toNat_lt,
      List.length_cons, List.length_nil, List.forall_mem_cons, reduceCtorEq, false_iff,
      true_iff] at *
    grind

end Token

namespace Unfinished

theorem scan_eq_none (unfinished : Unfinished (lead :: rest)) : Token.scan lead rest = none :=
  Token.scan_eq_none_iff.2 unfinished

theorem length_le (unfinished : Unfinished bytes) : bytes.length ≤ 3 := by
  cases bytes with
  | nil => exact Nat.zero_le 3
  | cons lead rest => exact Token.length_le_of_scan_eq_none unfinished.scan_eq_none

theorem not_isContinuation (unfinished : Unfinished (lead :: rest)) : ¬ isContinuation lead := by
  have low : 0xC2 ≤ lead.toNat := unfinished.1.1
  rw [isContinuation_iff]
  omega

/-- With nothing to follow, an unfinished sequence is escaped byte by byte. -/
theorem decode_eq (unfinished : Unfinished bytes) : decode bytes = bytes.map .ofRawByte := by
  cases bytes with
  | nil => rfl
  | cons lead rest =>
      have stands := Token.not_startsWithForm_of_scan_eq_none unfinished.scan_eq_none
      have escaped := decode_append_of_isContinuation unfinished.2.1 []
      rw [List.append_nil, decode_nil, List.append_nil] at escaped
      rw [decode_cons_of_not_startsWithForm stands, escaped]
      rfl

end Unfinished

/-! ## The unfinished end of bytes -/

theorem Unfinished.unfinishedEnd_eq (unfinished : Unfinished bytes) :
    unfinishedEnd bytes = bytes := by
  cases bytes with
  | nil => rfl
  | cons lead rest => exact if_pos unfinished

theorem unfinishedEnd_cons_of_not (finished : ¬ Unfinished (lead :: rest)) :
    unfinishedEnd (lead :: rest) = unfinishedEnd rest :=
  if_neg finished

theorem unfinishedEnd_suffix (bytes : Bytes) : unfinishedEnd bytes <:+ bytes := by
  induction bytes with
  | nil => exact List.suffix_refl []
  | cons lead rest ih =>
      by_cases unfinished : Unfinished (lead :: rest)
      · exact ⟨[], unfinished.unfinishedEnd_eq⟩
      · rw [unfinishedEnd_cons_of_not unfinished]
        exact ih.trans (List.suffix_cons lead rest)

theorem unfinishedEnd_eq_nil_or (bytes : Bytes) :
    unfinishedEnd bytes = [] ∨ Unfinished (unfinishedEnd bytes) := by
  induction bytes with
  | nil => exact .inl rfl
  | cons lead rest ih =>
      by_cases unfinished : Unfinished (lead :: rest)
      · rw [unfinished.unfinishedEnd_eq]
        exact .inr unfinished
      · rwa [unfinishedEnd_cons_of_not unfinished]

theorem decode_unfinishedEnd (bytes : Bytes) :
    decode (unfinishedEnd bytes) = (unfinishedEnd bytes).map .ofRawByte := by
  rcases unfinishedEnd_eq_nil_or bytes with none | unfinished
  · rw [none]
    rfl
  · exact unfinished.decode_eq

theorem unfinishedEnd_append_of_isContinuation {tail : Bytes}
    (continuations : ∀ byte ∈ tail, isContinuation byte) (behind : Bytes) :
    unfinishedEnd (tail ++ behind) = unfinishedEnd behind := by
  induction tail with
  | nil => rfl
  | cons byte tail ih =>
      rw [List.forall_mem_cons] at continuations
      rw [List.cons_append, unfinishedEnd_cons_of_not fun unfinished =>
        unfinished.not_isContinuation continuations.1, ih continuations.2]

/-- An unfinished sequence at the end is found, whatever is in front of it: a sequence that starts
before it would have its lead byte for a continuation byte. -/
theorem Unfinished.unfinishedEnd_append (unfinished : Unfinished suffix) (front : Bytes) :
    unfinishedEnd (front ++ suffix) = suffix := by
  induction front with
  | nil => exact unfinished.unfinishedEnd_eq
  | cons byte front ih =>
      have finished : ¬ Unfinished (byte :: (front ++ suffix)) := by
        intro longer
        cases suffix with
        | nil => exact unfinished
        | cons lead rest =>
            have follows := longer.2.1 lead
              (List.mem_append_right front List.mem_cons_self)
            exact unfinished.not_isContinuation follows
      rw [List.cons_append, unfinishedEnd_cons_of_not finished, ih]

theorem Unfinished.unfinishedEnd_of_suffix (unfinished : Unfinished suffix)
    (ends : suffix <:+ bytes) : unfinishedEnd bytes = suffix := by
  obtain ⟨front, rfl⟩ := ends
  exact unfinished.unfinishedEnd_append front

theorem unfinishedEnd_eq_nil (none : ∀ suffix, suffix <:+ bytes → ¬ Unfinished suffix) :
    unfinishedEnd bytes = [] := by
  rcases unfinishedEnd_eq_nil_or bytes with empty | unfinished
  · exact empty
  · exact (none _ (unfinishedEnd_suffix bytes) unfinished).elim

/-- The last three bytes tell the unfinished end. -/
theorem unfinishedEnd_rtake_three (bytes : Bytes) :
    unfinishedEnd (bytes.rtake 3) = unfinishedEnd bytes := by
  have near : bytes.rtake 3 <:+ bytes := List.drop_suffix _ bytes
  rcases unfinishedEnd_eq_nil_or bytes with none | unfinished
  · rw [none]
    apply unfinishedEnd_eq_nil
    intro suffix ends unfinished
    rw [unfinished.unfinishedEnd_of_suffix (ends.trans near)] at none
    rw [none] at unfinished
    exact unfinished
  · apply unfinished.unfinishedEnd_of_suffix
    apply List.suffix_of_suffix_length_le (unfinishedEnd_suffix bytes) near
    have short := unfinished.length_le
    have inside := (unfinishedEnd_suffix bytes).length_le
    rw [List.rtake, List.length_drop]
    omega

/-! ## What decoding holds back -/

namespace Decoding

variable {room : Nat} {window : Bytes}

/-- A token that is read leaves the unfinished end behind it. -/
theorem unfinishedEnd_of_read {token : Token} {behind : Bytes}
    (taken : Token.read false lead rest = some (token, behind)) :
    unfinishedEnd (lead :: rest) = unfinishedEnd behind := by
  have finished : ¬ Unfinished (lead :: rest) := by
    intro unfinished
    rw [Token.read, unfinished.scan_eq_none] at taken
    contradiction
  rw [unfinishedEnd_cons_of_not finished]
  rcases Token.read_cases taken with ⟨character, rfl⟩ | ⟨-, behindIs, -, -⟩
  · have parts : utf8EncodeChar character ++ behind = lead :: rest :=
      Token.bytes_append_of_read taken
    cases form : utf8EncodeChar character with
    | nil => exact (String.utf8EncodeChar_ne_nil form).elim
    | cons first tail =>
        have continuations := (isContinuation_of_utf8EncodeChar form).2
        rw [form, List.cons_append] at parts
        rw [← (List.cons.inj parts).2]
        exact unfinishedEnd_append_of_isContinuation continuations behind
  · rw [behindIs]

theorem unfinishedEnd_rest_fill (room : Nat) (window : Bytes) :
    unfinishedEnd (fill false room window).rest = unfinishedEnd window := by
  induction room, window using fillInduction false with
  | ended room => rw [fill_nil]
  | full lead rest => rfl
  | starved room lead rest starved => rw [fill_succ_of_none room starved]
  | taken room lead rest token behind taken ih =>
      rw [fill_succ_of_some room taken, unfinishedEnd_of_read taken]
      exact ih

theorem rest_fillAll_false (window : Bytes) :
    (fillAll false window).rest = unfinishedEnd window := by
  have same : unfinishedEnd (fillAll false window).rest = unfinishedEnd window :=
    unfinishedEnd_rest_fill window.length window
  have ample : (fillAll false window).stop ≠ .outputFull :=
    stop_ne_outputFull_of_length_le (Nat.le_refl _)
  have ends : Ends false window.length (fillAll false window) := ends_fill _ _ _
  rw [← same]
  generalize fillAll false window = progress at *
  cases ends with
  | inputExhausted text => rfl
  | outputFull rest filled nonempty => exact (ample rfl).elim
  | incomplete text notLast starved =>
      exact (Token.scan_eq_none_iff.1 starved).unfinishedEnd_eq.symm

/-- The scalars that stand in front of the unfinished end, and the escapes of that end. -/
theorem decode_eq_fillAll (window : Bytes) :
    decode window = (fillAll false window).text ++ (unfinishedEnd window).map .ofRawByte := by
  rw [← decode_unfinishedEnd, ← rest_fillAll_false]
  exact decode_eq_fill false window.length window

/-- Only an unfinished sequence decodes to no more scalars than its unfinished end. -/
theorem unfinishedEnd_eq_of_length_decode_le
    (few : (decode bytes).length ≤ (unfinishedEnd bytes).length) : unfinishedEnd bytes = bytes := by
  have size := congrArg List.length (decode_eq_fillAll bytes)
  rw [List.length_append, List.length_map] at size
  have noText : (fillAll false bytes).text = [] := by
    apply List.eq_nil_of_length_eq_zero
    omega
  obtain ⟨front, encoded, parts⟩ := exists_encode_fill false bytes.length bytes
  rw [show (fill false bytes.length bytes).text = [] from noText] at encoded
  cases encoded
  rw [← rest_fillAll_false]
  exact parts

/-- A run has room enough if it has a slot for every scalar in front of the unfinished end. -/
theorem rest_fill_false
    (enough : (decode window).length ≤ room + (unfinishedEnd window).length) :
    (fill false room window).rest = unfinishedEnd window := by
  by_cases full : (fill false room window).stop = .outputFull
  · have size := congrArg List.length (decode_eq_fill false room window)
    rw [List.length_append, length_text_of_stop_eq_outputFull full] at size
    rw [← unfinishedEnd_rest_fill room window] at enough ⊢
    rw [unfinishedEnd_eq_of_length_decode_le (by omega)]
  · rw [fill_eq_fillAll_of_stop_ne_outputFull full, rest_fillAll_false]

end Decoding

/-- Where more input may follow, an accepted decoding with room enough uses up all of its window but
the unfinished end: the one suffix of the window that is an unfinished sequence, or nothing if no
suffix is. The last three bytes of the window tell which it is. Without anything to follow, the
window decodes to the scalars that were produced and one escape for each byte held back. -/
theorem unfinished_end_held_back (bytes : Bytes) (slots : Text) (given : DecodeArguments)
    (plan : DecodePlan bytes.length slots.length)
    (accepted : given.resolve bytes.length slots.length = .ok plan)
    (notLast : plan.final = false) :
    let window := bytes.extract plan.input.start plan.input.stop
    let held := unfinishedEnd window
    (∀ suffix, suffix <:+ window → Unfinished suffix → held = suffix) ∧
    ((∀ suffix, suffix <:+ window → ¬ Unfinished suffix) → held = []) ∧
    held = unfinishedEnd (window.rtake 3) ∧
    ((decode window).length ≤ plan.output.size + held.length →
      ∃ consumed produced stop after,
        Addressed.decodeInto bytes slots given =
          ⟨after, .ok (.decoded consumed produced stop)⟩ ∧
        consumed + held.length = window.length ∧ window.drop consumed = held ∧
        decodeTwoPass window =
          .ok ((after.drop plan.output.start).take produced ++ held.map .ofRawByte)) := by
  intro window held
  refine ⟨?_, unfinishedEnd_eq_nil, (unfinishedEnd_rtake_three window).symm, ?_⟩
  · intro suffix ends unfinished
    exact unfinished.unfinishedEnd_of_suffix ends
  · intro enough
    have rest : (Decoding.fill false plan.output.size window).rest = held :=
      Decoding.rest_fill_false enough
    have text : decode window =
        (Decoding.fill false plan.output.size window).text ++ held.map .ofRawByte := by
      have parts := Decoding.decode_eq_fill false plan.output.size window
      rwa [rest, decode_unfinishedEnd] at parts
    have inside : held.length ≤ window.length := (unfinishedEnd_suffix window).length_le
    have inSlots : plan.output.start ≤ slots.length :=
      Nat.le_trans plan.output.start_le_stop plan.output.stop_le_length
    rw [Addressed.decodeInto_of_resolve accepted, notLast]
    refine ⟨_, _, _, _, rfl, ?_, ?_, ?_⟩
    · rw [rest, Nat.sub_add_cancel inside]
    · rw [← Decoding.rest_fill_eq_drop, rest]
    · rw [decodeTwoPass_eq, take_drop_overwrite inSlots, text]

/-- A window that breaks off in a sequence, behind ill-formed bytes, with just room enough. -/
theorem unfinished_end_held_back_four_bytes :
    let bytes : Bytes := [0xFF, 0xE2, 0x82, 0xAC, 0x80, 0xF0, 0x9F, 0x98]
    let slots : Text := List.replicate 4 ⟨0x2A⟩
    let given : DecodeArguments := { outputStart := .integer 1, endOfInput := .boolean false }
    let held : Bytes := [0xF0, 0x9F, 0x98]
    given.resolve bytes.length slots.length =
      .ok ⟨.whole 8, ⟨1, 4, by decide, by decide⟩, false⟩ ∧
    unfinishedEnd (bytes.extract 0 8) = held ∧
    unfinishedEnd ((bytes.extract 0 8).rtake 3) = held ∧
    (decode (bytes.extract 0 8)).length ≤ 3 + held.length ∧
    ∃ consumed produced stop after,
      Addressed.decodeInto bytes slots given = ⟨after, .ok (.decoded consumed produced stop)⟩ ∧
      consumed + held.length = (bytes.extract 0 8).length ∧
      (bytes.extract 0 8).drop consumed = held ∧
      decodeTwoPass (bytes.extract 0 8) =
        .ok ((after.drop 1).take produced ++ held.map .ofRawByte) := by
  intro bytes slots given held
  have few : (decode (bytes.extract 0 8)).length ≤ 3 + held.length := by decide
  obtain ⟨isHeld, -, near, decoded⟩ := unfinished_end_held_back bytes slots given
    ⟨.whole 8, ⟨1, 4, by decide, by decide⟩, false⟩ rfl rfl
  have heldIs : unfinishedEnd (bytes.extract 0 8) = held :=
    isHeld held (by decide) (by decide)
  exact ⟨rfl, heldIs, near ▸ heldIs, few, decoded few⟩

end LosslessUtf8
