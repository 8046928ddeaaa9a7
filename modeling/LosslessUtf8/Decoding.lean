import LosslessUtf8.Token

/-!
# Decoding

Bytes become text token by token. `Decoding.fill` works under a limit: it stops when the input is
used up, when there is no room for another scalar, or when the input breaks off inside a sequence
that may yet be completed. `decode` sets no limit and lets nothing follow, so it uses up
everything. Main statements: the equations of `fill`, one for each way it can go on or stop, the
induction that follows them (`fillInduction`), and that every round of a loop over full outputs has
less to do (`length_rest_lt_of_stop_eq_outputFull`).
-/

namespace LosslessUtf8

namespace Decoding

/-- Why decoding stopped. -/
inductive Stop where
  /-- All input is used up. -/
  | inputExhausted
  /-- There is input left and no room for another scalar. -/
  | outputFull
  /-- What is left is the beginning of a sequence, and more input may follow. -/
  | incomplete
  deriving DecidableEq, Repr

/-- The name under which a stop is reported. -/
def Stop.name : Stop → String
  | .inputExhausted => "input_exhausted"
  | .outputFull => "output_full"
  | .incomplete => "incomplete"

/-- The scalars that were decoded and the input that was not. -/
structure Progress where
  text : Text
  rest : Bytes
  stop : Stop
  deriving DecidableEq, Repr

/-- Puts one more scalar in front of what was decoded. -/
def Progress.cons (scalar : Scalar) (progress : Progress) : Progress :=
  { progress with text := scalar :: progress.text }

/-- Decodes into a given room, behind scalars that are already there, in reverse. -/
def fillOnto (final : Bool) (reversed : Text) : (room : Nat) → (window : Bytes) → Progress
  | _, [] => ⟨reversed.reverse, [], .inputExhausted⟩
  | 0, lead :: rest => ⟨reversed.reverse, lead :: rest, .outputFull⟩
  | room + 1, lead :: rest =>
    match Token.read final lead rest with
    | none => ⟨reversed.reverse, lead :: rest, .incomplete⟩
    | some (token, behind) => fillOnto final (token.scalar :: reversed) room behind

/-- Decodes up to a given number of scalars from the front of a window; `final` says that nothing
follows the window. -/
def fill (final : Bool) (room : Nat) (window : Bytes) : Progress :=
  fillOnto final [] room window

theorem fillOnto_eq (final : Bool) (reversed : Text) (room : Nat) (window : Bytes) :
    fillOnto final reversed room window =
      { fill final room window with
        text := reversed.reverse ++ (fill final room window).text } := by
  induction room generalizing reversed window with
  | zero => cases window <;> simp [fill, fillOnto]
  | succ room ih =>
    cases window with
    | nil => simp [fill, fillOnto]
    | cons lead rest =>
      simp only [fill, fillOnto]
      split
      · simp
      · rw [ih, ih [_]]
        simp

@[simp] theorem fill_nil (final : Bool) (room : Nat) :
    fill final room [] = ⟨[], [], .inputExhausted⟩ := by
  cases room <;> rfl

@[simp] theorem fill_zero_cons (final : Bool) (lead : UInt8) (rest : Bytes) :
    fill final 0 (lead :: rest) = ⟨[], lead :: rest, .outputFull⟩ := rfl

theorem fill_succ_of_none {final : Bool} {lead : UInt8} {rest : Bytes}
    (room : Nat) (starved : Token.read final lead rest = none) :
    fill final (room + 1) (lead :: rest) = ⟨[], lead :: rest, .incomplete⟩ := by
  simp [fill, fillOnto, starved]

theorem fill_succ_of_some {final : Bool} {lead : UInt8} {rest behind : Bytes} {token : Token}
    (room : Nat) (taken : Token.read final lead rest = some (token, behind)) :
    fill final (room + 1) (lead :: rest) = (fill final room behind).cons token.scalar := by
  simp only [fill, fillOnto, taken]
  rw [fillOnto_eq]
  rfl

/-- To prove a property of all runs, follow a run: it is at the end of its window, or it is short
of room or of input, or it reads a token and goes on behind it. -/
@[elab_as_elim] theorem fillInduction (final : Bool) {motive : Nat → Bytes → Prop}
    (ended : ∀ room, motive room [])
    (full : ∀ lead rest, motive 0 (lead :: rest))
    (starved : ∀ room lead rest, Token.read final lead rest = none →
      motive (room + 1) (lead :: rest))
    (taken : ∀ room lead rest token behind, Token.read final lead rest = some (token, behind) →
      motive room behind → motive (room + 1) (lead :: rest))
    (room : Nat) (window : Bytes) : motive room window := by
  induction room generalizing window with
  | zero =>
    cases window with
    | nil => exact ended 0
    | cons lead rest => exact full lead rest
  | succ room ih =>
    cases window with
    | nil => exact ended (room + 1)
    | cons lead rest =>
      cases found : Token.read final lead rest with
      | none => exact starved room lead rest found
      | some pair => exact taken room lead rest pair.1 pair.2 found (ih pair.2)

/-- Every scalar that is decoded uses up some input. -/
theorem length_rest_add_length_text_le (final : Bool) (room : Nat) (window : Bytes) :
    (fill final room window).rest.length + (fill final room window).text.length ≤
      window.length := by
  induction room, window using fillInduction final with
  | ended room => simp
  | full lead rest => simp
  | starved room lead rest starved => simp [fill_succ_of_none room starved]
  | taken room lead rest token behind taken ih =>
    have shorter := Token.length_lt_of_read taken
    rw [fill_succ_of_some room taken]
    simp only [Progress.cons, List.length_cons]
    omega

/-- Decoding keeps to its room. -/
theorem length_text_le (final : Bool) (room : Nat) (window : Bytes) :
    (fill final room window).text.length ≤ room := by
  induction room, window using fillInduction final with
  | ended room => simp
  | full lead rest => simp
  | starved room lead rest starved => simp [fill_succ_of_none room starved]
  | taken room lead rest token behind taken ih =>
    rw [fill_succ_of_some room taken]
    exact Nat.succ_le_succ ih

/-- Decoding stops for want of room only when all the room is taken. -/
theorem length_text_of_stop_eq_outputFull {final : Bool} {room : Nat} {window : Bytes}
    (full : (fill final room window).stop = .outputFull) :
    (fill final room window).text.length = room := by
  induction room, window using fillInduction final with
  | ended room => simp at full
  | full lead rest => simp
  | starved room lead rest starved => simp [fill_succ_of_none room starved] at full
  | taken room lead rest token behind taken ih =>
    rw [fill_succ_of_some room taken] at full ⊢
    simpa [Progress.cons] using ih full

/-- Decoding that stops for want of room leaves less than there was, if there was room at all. -/
theorem length_rest_lt_of_stop_eq_outputFull {final : Bool} {room : Nat} {window : Bytes}
    (positive : 0 < room) (full : (fill final room window).stop = .outputFull) :
    (fill final room window).rest.length < window.length := by
  have used := length_rest_add_length_text_le final room window
  have taken := length_text_of_stop_eq_outputFull full
  omega

/-- The number of tokens in a window that nothing follows, on top of a number counted before. -/
def countTokens (counted : Nat) : Bytes → Nat
  | [] => counted
  | lead :: rest => countTokens (counted + 1) (Token.take lead rest).2
termination_by window => window.length
decreasing_by exact Token.length_take_lt lead rest

end Decoding

/-- The number of scalars that a window decodes to when nothing follows it. -/
def tokenCount (window : Bytes) : Nat :=
  Decoding.countTokens 0 window

/-- The text that some bytes stand for. No byte stands for more than one scalar, so there is room
for all. -/
def decode (bytes : Bytes) : Text :=
  (Decoding.fill true bytes.length bytes).text

/-- Bytes are well-formed if none of them had to be escaped. -/
def isWellFormed (bytes : Bytes) : Bool :=
  (decode bytes).escapeCount == 0

end LosslessUtf8
