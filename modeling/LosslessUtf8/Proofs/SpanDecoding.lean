import LosslessUtf8.Proofs.Addressed
import LosslessUtf8.Proofs.TwoPass

/-!
# Decoding a span

Read again and again from the front, a window is cut into tokens, up to its end or up to the first
place where there is no token yet. A run in a given room takes those of them that it has slots for
(`takes_fill`), and the reason for which it stops tells what kept it from taking more.
-/

namespace LosslessUtf8

namespace Token

/-- The tokens that a window is cut into, up to the first place where there is none yet. -/
def cut (final : Bool) : Bytes → List Token
  | [] => []
  | lead :: rest =>
    match _ : read final lead rest with
    | none => []
    | some (token, behind) => token :: cut final behind
termination_by window => window.length
decreasing_by exact length_lt_of_read ‹_›

variable {final : Bool} {lead : UInt8} {rest behind : Bytes} {token : Token}

theorem cut_nil (final : Bool) : cut final [] = [] := by
  rw [cut]

theorem cut_of_none (starved : read final lead rest = none) : cut final (lead :: rest) = [] := by
  rw [cut]
  split
  · rfl
  · next taken =>
      rw [starved] at taken
      contradiction

theorem cut_of_some (taken : read final lead rest = some (token, behind)) :
    cut final (lead :: rest) = token :: cut final behind := by
  rw [cut]
  split
  · next starved =>
      rw [taken] at starved
      contradiction
  · next found =>
      rw [taken] at found
      cases found
      rfl

end Token

namespace Decoding

variable {final : Bool} {room : Nat} {window : Bytes} {progress : Progress}

/-- A run took some tokens from the front of a window. -/
structure Takes (room : Nat) (window : Bytes) (tokens : List Token) (progress : Progress) :
    Prop where
  text_eq : progress.text = tokens.map Token.scalar
  parts : tokens.flatMap Token.bytes ++ progress.rest = window
  length_lt : progress.stop = .incomplete → tokens.length < room

theorem Takes.nothing (stop : Stop) (roomLeft : stop = .incomplete → 0 < room) :
    Takes room window [] ⟨[], window, stop⟩ :=
  ⟨rfl, rfl, roomLeft⟩

theorem Takes.cons {behind : Bytes} {tokens : List Token} (token : Token)
    (takes : Takes room behind tokens progress) :
    Takes (room + 1) (token.bytes ++ behind) (token :: tokens) (progress.cons token.scalar) where
  text_eq := congrArg (token.scalar :: ·) takes.text_eq
  parts := by
    rw [List.flatMap_cons, List.append_assoc, ← takes.parts]
    rfl
  length_lt := fun stopped => Nat.succ_lt_succ (takes.length_lt stopped)

/-- A run takes the first of the tokens that its window is cut into, as many as it has room for. -/
theorem takes_fill (final : Bool) (room : Nat) (window : Bytes) :
    Takes room window ((Token.cut final window).take room) (fill final room window) := by
  induction room, window using fillInduction final with
  | ended room =>
      rw [Token.cut_nil, List.take_nil, fill_nil]
      exact .nothing _ (by simp)
  | full lead rest => exact .nothing _ (by simp)
  | starved room lead rest starved =>
      rw [fill_succ_of_none room starved, Token.cut_of_none starved]
      exact .nothing _ fun _ => Nat.zero_lt_succ room
  | taken room lead rest token behind taken ih =>
      rw [fill_succ_of_some room taken, Token.cut_of_some taken, List.take_succ_cons,
        ← Token.bytes_append_of_read taken]
      exact ih.cons token

theorem Takes.length_text {tokens : List Token} (takes : Takes room window tokens progress) :
    progress.text.length = tokens.length := by
  rw [takes.text_eq, List.length_map]

theorem Takes.length_window {tokens : List Token} (takes : Takes room window tokens progress) :
    window.length = (tokens.flatMap Token.bytes).length + progress.rest.length := by
  rw [← takes.parts, List.length_append]

/-- A run stops at the end of its window, or else for want of room, or else for want of input. -/
theorem Takes.stop_iff {tokens : List Token} (takes : Takes room window tokens progress)
    (ends : Ends final room progress) :
    (progress.stop = .inputExhausted ↔
      (tokens.flatMap Token.bytes).length = window.length) ∧
    (progress.stop = .outputFull ↔
      (tokens.flatMap Token.bytes).length < window.length ∧ tokens.length = room) ∧
    (progress.stop = .incomplete ↔
      (tokens.flatMap Token.bytes).length < window.length ∧ tokens.length < room) := by
  have taken := takes.length_text
  have windowSize := takes.length_window
  have roomLeft := takes.length_lt
  cases ends with
  | inputExhausted text =>
      rw [List.length_nil] at windowSize
      simp only [reduceCtorEq, true_iff, false_iff]
      omega
  | outputFull rest filled nonempty =>
      have left := List.length_pos_iff.2 nonempty
      dsimp only at taken windowSize
      simp only [reduceCtorEq, true_iff, false_iff]
      omega
  | incomplete text notLast starved =>
      have short := roomLeft rfl
      rw [List.length_cons] at windowSize
      simp only [reduceCtorEq, true_iff, false_iff]
      omega

/-- What an incomplete sequence leaves is one to three bytes, which more input may follow. -/
theorem Takes.rest_of_incomplete {tokens : List Token} (takes : Takes room window tokens progress)
    (ends : Ends final room progress) (stopped : progress.stop = .incomplete) :
    final = false ∧ 1 ≤ window.length - (tokens.flatMap Token.bytes).length ∧
      window.length - (tokens.flatMap Token.bytes).length ≤ 3 := by
  have windowSize := takes.length_window
  cases ends with
  | inputExhausted text => contradiction
  | outputFull rest filled nonempty => contradiction
  | incomplete text notLast starved =>
      have few := Token.length_le_of_scan_eq_none starved
      rw [List.length_cons] at windowSize few
      exact ⟨notLast, by omega, by omega⟩

/-- What comes of decoding a window into a span of slots: how many bytes are used up, how many
scalars produced, why decoding stops and what is in the slots afterwards. -/
structure FillsSpan (window : Bytes) (final : Bool) {slots : Text} (output : Span slots.length)
    (consumed produced : Nat) (stop : Stop) (after : Text) : Prop where
  produced_eq : produced = min (Token.cut final window).length output.size
  consumed_eq : consumed = (((Token.cut final window).take produced).flatMap Token.bytes).length
  written : WrittenAt slots output.start (((Token.cut final window).take produced).map Token.scalar)
    after
  produced_le : produced ≤ output.size
  consumed_le : consumed ≤ window.length
  inputExhausted_iff : stop = .inputExhausted ↔ consumed = window.length
  outputFull_iff : stop = .outputFull ↔ consumed < window.length ∧ produced = output.size
  incomplete_iff : stop = .incomplete ↔ consumed < window.length ∧ produced < output.size
  rest_of_incomplete : stop = .incomplete →
    final = false ∧ 1 ≤ window.length - consumed ∧ window.length - consumed ≤ 3

theorem fillsSpan_fill (window : Bytes) (final : Bool) {slots : Text}
    (output : Span slots.length) :
    let progress := fill final output.size window
    FillsSpan window final output (window.length - progress.rest.length) progress.text.length
      progress.stop (overwrite slots output.start progress.text) := by
  intro progress
  have takes : Takes output.size window ((Token.cut final window).take output.size) progress :=
    takes_fill final output.size window
  have ends : Ends final output.size progress := ends_fill final output.size window
  have produced : progress.text.length = min (Token.cut final window).length output.size := by
    rw [takes.length_text, List.length_take, Nat.min_comm]
  have taken : (Token.cut final window).take progress.text.length =
      (Token.cut final window).take output.size := by
    rw [List.take_eq_take_iff]
    omega
  have windowSize := takes.length_window
  have consumed : window.length - progress.rest.length =
      (((Token.cut final window).take output.size).flatMap Token.bytes).length := by omega
  have inSpan : progress.text.length ≤ output.size := length_text_le final output.size window
  have fits : output.start + progress.text.length ≤ slots.length := by
    have size : output.size = output.stop - output.start := rfl
    have ordered := output.start_le_stop
    have inSlots := output.stop_le_length
    omega
  obtain ⟨exhausted, full, incomplete⟩ := takes.stop_iff ends
  rw [← takes.length_text, ← consumed] at full incomplete
  exact {
    produced_eq := produced
    consumed_eq := by rw [taken, consumed]
    written := by
      rw [taken, ← takes.text_eq]
      exact writtenAt_overwrite fits
    produced_le := inSpan
    consumed_le := Nat.sub_le _ _
    inputExhausted_iff := consumed ▸ exhausted
    outputFull_iff := full
    incomplete_iff := incomplete
    rest_of_incomplete := consumed ▸ takes.rest_of_incomplete ends }

end Decoding

/-- What an accepted decoding does hangs on its window alone, and on the span of slots that it is
given. As many of the tokens that the window is cut into as there are slots for are written there,
side by side, and their bytes are used up; nothing else changes. Decoding stops at the end of the
window, or else in front of a token that has no slot, or else in front of one to three bytes that
are the beginning of a sequence, if more input may follow. -/
theorem span_decoding_exact (bytes : Bytes) (slots : Text) (given : DecodeArguments)
    (plan : DecodePlan bytes.length slots.length)
    (accepted : given.resolve bytes.length slots.length = .ok plan) :
    (∃ consumed produced stop after,
      Addressed.decodeInto bytes slots given = ⟨after, .ok (.decoded consumed produced stop)⟩ ∧
      Decoding.FillsSpan (bytes.extract plan.input.start plan.input.stop) plan.final plan.output
        consumed produced stop after) ∧
    ∀ (others : Bytes) (otherGiven : DecodeArguments)
      (otherPlan : DecodePlan others.length slots.length),
      otherGiven.resolve others.length slots.length = .ok otherPlan →
      others.extract otherPlan.input.start otherPlan.input.stop =
        bytes.extract plan.input.start plan.input.stop →
      otherPlan.output = plan.output → otherPlan.final = plan.final →
      Addressed.decodeInto others slots otherGiven = Addressed.decodeInto bytes slots given := by
  have windowIs : plan.input.slice bytes = bytes.extract plan.input.start plan.input.stop := rfl
  constructor
  · refine ⟨_, _, _, _, ?_, Decoding.fillsSpan_fill _ plan.final plan.output⟩
    rw [Addressed.decodeInto_eq, decodeInto_of_resolve accepted, windowIs]
    rfl
  · intro others otherGiven otherPlan otherAccepted sameWindow sameOutput sameFinal
    have otherWindowIs : otherPlan.input.slice others =
        bytes.extract plan.input.start plan.input.stop := sameWindow
    rw [Addressed.decodeInto_eq, Addressed.decodeInto_eq, decodeInto_of_resolve accepted,
      decodeInto_of_resolve otherAccepted, windowIs, otherWindowIs, sameOutput, sameFinal]

/-- A window that breaks off inside a sequence, between the same bytes and between others. -/
theorem span_decoding_exact_cut_short :
    let bytes : Bytes := [0x41, 0xFF, 0xE2, 0x82, 0xAC, 0xF0, 0x9F, 0x98, 0x80]
    let others : Bytes := [0xFF, 0xE2, 0x82, 0xAC, 0xF0, 0x9F]
    let slots : Text := List.replicate 4 ⟨0x2A⟩
    let given : DecodeArguments :=
      { start := .integer 1, stop := .integer 7, outputStart := .integer 1,
        endOfInput := .boolean false }
    let otherGiven : DecodeArguments :=
      { outputStart := .integer 1, endOfInput := .boolean false }
    let output : Span slots.length := ⟨1, 4, by decide, by decide⟩
    given.resolve bytes.length slots.length =
      .ok ⟨⟨1, 7, by decide, by decide⟩, output, false⟩ ∧
    otherGiven.resolve others.length slots.length =
      .ok ⟨⟨0, 6, by decide, by decide⟩, output, false⟩ ∧
    others.extract 0 6 = bytes.extract 1 7 ∧
    (∃ consumed produced stop after,
      Addressed.decodeInto bytes slots given = ⟨after, .ok (.decoded consumed produced stop)⟩ ∧
      Decoding.FillsSpan (bytes.extract 1 7) false output consumed produced stop after) ∧
    Addressed.decodeInto others slots otherGiven = Addressed.decodeInto bytes slots given := by
  intro bytes others slots given otherGiven output
  obtain ⟨filled, same⟩ := span_decoding_exact bytes slots given
    ⟨⟨1, 7, by decide, by decide⟩, output, false⟩ rfl
  exact ⟨rfl, rfl, rfl, filled,
    same others otherGiven ⟨⟨0, 6, by decide, by decide⟩, output, false⟩ rfl rfl rfl rfl⟩

end LosslessUtf8
