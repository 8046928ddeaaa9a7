import LosslessUtf8.Proofs.Segmentation

/-!
# Runs with room for everything

A run that has a slot for every byte is never short of room. It stops at the end of its input or in
front of the beginning of a sequence, which is at most three bytes long (`length_rest_fillAll_le`).
However little room the runs of a loop have, together they decode what one such run does
(`fillAll_of_stop_eq_outputFull`).
-/

namespace LosslessUtf8

namespace Token

/-- Three bytes are the most that leave a token open. -/
theorem length_le_of_scan_eq_none {lead : UInt8} {rest : Bytes}
    (starved : scan lead rest = none) : (lead :: rest).length ≤ 3 := by
  revert starved
  fun_cases scan lead rest
  all_goals
    intro starved
    first
      | contradiction
      | simp

theorem scan_eq_none_of_read {final : Bool} {lead : UInt8} {rest : Bytes}
    (starved : read final lead rest = none) : final = false ∧ scan lead rest = none := by
  unfold read at starved
  split at starved
  · contradiction
  · next undecided =>
      split at starved
      · contradiction
      · next open_ => exact ⟨Bool.not_eq_true final ▸ open_, undecided⟩

end Token

namespace Decoding

variable {final : Bool} {room : Nat} {window : Bytes}

/-- The ways in which a run can end. -/
inductive Ends (final : Bool) (room : Nat) : Progress → Prop where
  | inputExhausted (text : Text) : Ends final room ⟨text, [], .inputExhausted⟩
  | outputFull {text : Text} (rest : Bytes) : text.length = room → rest ≠ [] →
      Ends final room ⟨text, rest, .outputFull⟩
  | incomplete (text : Text) {lead : UInt8} {rest : Bytes} : final = false →
      Token.scan lead rest = none → Ends final room ⟨text, lead :: rest, .incomplete⟩

theorem Ends.cons {progress : Progress} (ends : Ends final room progress) (scalar : Scalar) :
    Ends final (room + 1) (progress.cons scalar) := by
  cases ends with
  | inputExhausted text => exact .inputExhausted _
  | outputFull rest filled nonempty => exact .outputFull rest (congrArg Nat.succ filled) nonempty
  | incomplete text notLast starved => exact .incomplete _ notLast starved

theorem ends_fill (final : Bool) (room : Nat) (window : Bytes) :
    Ends final room (fill final room window) := by
  induction room, window using fillInduction final with
  | ended room =>
      rw [fill_nil]
      exact .inputExhausted []
  | full lead rest => exact .outputFull _ rfl (List.cons_ne_nil lead rest)
  | starved room lead rest starved =>
      obtain ⟨notLast, undecided⟩ := Token.scan_eq_none_of_read starved
      rw [fill_succ_of_none room starved]
      exact .incomplete [] notLast undecided
  | taken room lead rest token behind taken ih =>
      rw [fill_succ_of_some room taken]
      exact ih.cons token.scalar

/-! ## More room -/

theorem fill_add_of_stop_ne_outputFull (short : (fill final room window).stop ≠ .outputFull)
    (more : Nat) : fill final (room + more) window = fill final room window := by
  induction room, window using fillInduction final with
  | ended room => rw [fill_nil, fill_nil]
  | full lead rest => exact (short rfl).elim
  | starved room lead rest starved =>
      rw [Nat.succ_add, fill_succ_of_none _ starved, fill_succ_of_none _ starved]
  | taken room lead rest token behind taken ih =>
      rw [fill_succ_of_some _ taken] at short
      rw [Nat.succ_add, fill_succ_of_some _ taken, fill_succ_of_some _ taken, ih short]

theorem fill_add_of_stop_eq_outputFull (full : (fill final room window).stop = .outputFull)
    (more : Nat) :
    fill final (room + more) window =
      { fill final more (fill final room window).rest with
        text := (fill final room window).text ++
          (fill final more (fill final room window).rest).text } := by
  induction room, window using fillInduction final with
  | ended room =>
      rw [fill_nil] at full
      contradiction
  | full lead rest =>
      rw [Nat.zero_add, fill_zero_cons]
      rfl
  | starved room lead rest starved =>
      rw [fill_succ_of_none _ starved] at full
      contradiction
  | taken room lead rest token behind taken ih =>
      rw [fill_succ_of_some _ taken] at full
      rw [Nat.succ_add, fill_succ_of_some _ taken, fill_succ_of_some _ taken, ih full]
      rfl

/-- A run with a slot for every byte. -/
def fillAll (final : Bool) (window : Bytes) : Progress :=
  fill final window.length window

theorem stop_ne_outputFull_of_length_le (enough : window.length ≤ room) :
    (fill final room window).stop ≠ .outputFull := by
  intro full
  have used := length_rest_add_length_text_le final room window
  have ends := ends_fill final room window
  generalize fill final room window = progress at *
  cases ends with
  | outputFull rest filled nonempty =>
      have left := List.length_pos_iff.2 nonempty
      dsimp only at used
      omega
  | _ => contradiction

theorem fill_eq_fillAll_of_length_le (enough : window.length ≤ room) :
    fill final room window = fillAll final window := by
  obtain ⟨more, rfl⟩ := Nat.exists_eq_add_of_le enough
  exact fill_add_of_stop_ne_outputFull (stop_ne_outputFull_of_length_le (Nat.le_refl _)) more

/-- A run that is not short of room would not go on with more. -/
theorem fill_eq_fillAll_of_stop_ne_outputFull
    (ample : (fill final room window).stop ≠ .outputFull) :
    fill final room window = fillAll final window := by
  rw [← fill_add_of_stop_ne_outputFull ample window.length]
  exact fill_eq_fillAll_of_length_le (Nat.le_add_left _ _)

/-- What a run has no room for is left to be decoded as it would have been. -/
theorem fillAll_of_stop_eq_outputFull (full : (fill final room window).stop = .outputFull) :
    fillAll final window =
      { fillAll final (fill final room window).rest with
        text := (fill final room window).text ++
          (fillAll final (fill final room window).rest).text } := by
  have used := length_rest_add_length_text_le final room window
  rw [← fill_eq_fillAll_of_length_le (Nat.le_add_left window.length room),
    fill_add_of_stop_eq_outputFull full, fill_eq_fillAll_of_length_le (by omega)]

/-- What is left waits for the missing bytes of one sequence. -/
theorem length_rest_fillAll_le (final : Bool) (window : Bytes) :
    (fillAll final window).rest.length ≤ 3 := by
  have ample : (fillAll final window).stop ≠ .outputFull :=
    stop_ne_outputFull_of_length_le (Nat.le_refl _)
  have ends : Ends final window.length (fillAll final window) := ends_fill _ _ _
  generalize fillAll final window = progress at *
  cases ends with
  | inputExhausted text => exact Nat.zero_le 3
  | outputFull rest filled nonempty => exact (ample rfl).elim
  | incomplete text notLast starved => exact Token.length_le_of_scan_eq_none starved

/-- Behind a run that may be followed by more, decoding goes on as if there had been no cut. -/
theorem decode_append_fillAll (window more : Bytes) :
    decode (window ++ more) =
      (fillAll false window).text ++ decode ((fillAll false window).rest ++ more) :=
  decode_append_fill (fun last => (Bool.false_ne_true last).elim) window.length window

theorem fillAll_true (window : Bytes) :
    fillAll true window = ⟨decode window, [], .inputExhausted⟩ :=
  fill_true_of_length_decode_le (length_text_le true window.length window)

end Decoding

end LosslessUtf8
