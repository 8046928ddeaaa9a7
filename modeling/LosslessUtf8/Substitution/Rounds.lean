import LosslessUtf8.Proofs.TwoPass
import LosslessUtf8.Substitution

/-!
# Substitution in rounds

A text can be encoded under any policy in rounds. A round measures what is left of the text, encodes
it into a buffer of that size and keeps what was written in front of the first scalar that has no
byte form. Then the policy is asked about that scalar, and says where the next round starts. Main
statement: every round ends, at the end of the text or at a scalar that it had not passed yet
(`round_cases`), and what a policy says uses it up or leads on (`Policy.settle_decreases`), so the
rounds come to an end.
-/

namespace LosslessUtf8.Substitution

/-- Why a text was not encoded in rounds. -/
inductive RoundFailure where
  /-- The policy gave up, or could not be followed. -/
  | failed (failure : Failure)
  /-- A part of the text could not be measured. -/
  | unmeasured (rejection : Rejection)
  /-- A round ended neither at the end of the text nor at a scalar that has no byte form. -/
  | stopped (outcome : Encoding.Outcome)
  deriving DecidableEq, Repr

/-! ## One round -/

/-- How a round ends. -/
inductive Round where
  /-- All that was left of the text is encoded. -/
  | finished (bytes : Bytes)
  /-- What is in front of a scalar without a byte form is encoded. -/
  | met (bytes : Bytes) (failure : Unencodable)
  /-- The round came to nothing. -/
  | broken (failure : RoundFailure)
  deriving DecidableEq, Repr

/-- Encodes a text from a position on, up to the first scalar that has no byte form. The buffer has
room for that scalar and all behind it as well, so what was written in front of it is cut out. -/
def round (text : Text) (position : Nat) : Round :=
  match widthWithin text (.integer position) .null with
  | .error rejection => .broken (.unmeasured rejection)
  | .ok width =>
    match encodeInto text (List.replicate width 0) { start := .integer position } with
    | (.encoded stop, output) => .finished (output.take stop)
    | (.unencodable failure, output) =>
      match widthWithin text (.integer position) (.integer failure.index) with
      | .error rejection => .broken (.unmeasured rejection)
      | .ok written => .met (output.take written) failure
    | (outcome, _) => .broken (.stopped outcome)

section Round

variable {text : Text} {position : Nat} {bytes : Bytes} {failure : Unencodable}

theorem round_of_encode (reached : position ≤ text.length)
    (encoded : encode (text.drop position) = .ok bytes) :
    round text position = .finished bytes := by
  have size := length_of_encode encoded
  have room : bytes.length ≤ (List.replicate bytes.length (0 : UInt8)).length :=
    Nat.le_of_eq List.length_replicate.symm
  rw [round, widthWithin_from reached, ← size]
  dsimp only
  rw [encodeInto_from reached, Encoding.pack_of_encode encoded room]
  simp only [Encoding.Progress.outcome, overwrite_replicate, Nat.zero_add, List.take_length]

theorem round_of_isFirst (first : failure.IsFirst text position)
    (encoded : encode (text.extract position failure.index) = .ok bytes) :
    round text position = .met bytes failure := by
  have inside := first.index_lt
  have ordered := first.position_le
  have reached : position ≤ text.length := by omega
  have room := Nat.le_refl (Text.width (text.drop position))
  rw [first.drop_eq] at room
  have packed := Encoding.pack_of_first encoded first.unencodable room
  rw [← first.drop_eq] at packed
  have index : position + (text.extract position failure.index).length = failure.index := by
    rw [first.length_extract]
    omega
  have cut : (overwrite (List.replicate (Text.width (text.drop position)) 0) 0 bytes).take
      bytes.length = bytes := take_drop_overwrite (Nat.zero_le _)
  rw [round, widthWithin_from reached]
  dsimp only
  rw [encodeInto_from reached, List.length_replicate, packed]
  simp only [Encoding.Progress.outcome, index,
    widthWithin_extract ordered (Nat.le_of_lt inside), ← length_of_encode encoded, cut]

/-- A round ends at the end of the text or at the first scalar that has no byte form. -/
theorem round_cases (reached : position ≤ text.length) :
    (∃ bytes, encode (text.drop position) = .ok bytes ∧ round text position = .finished bytes) ∨
      ∃ failure bytes, failure.IsFirst text position ∧
        encode (text.extract position failure.index) = .ok bytes ∧
        round text position = .met bytes failure := by
  rcases encode_drop_cases text position with ⟨bytes, encoded⟩ | ⟨failure, bytes, first, encoded⟩
  · exact .inl ⟨bytes, encoded, round_of_encode reached encoded⟩
  · exact .inr ⟨failure, bytes, first, encoded, round_of_isFirst first encoded⟩

theorem isFirst_of_round (reached : position ≤ text.length)
    (met : round text position = .met bytes failure) : failure.IsFirst text position := by
  rcases round_cases reached with ⟨_, _, finished⟩ | ⟨_, _, first, _, other⟩
  · rw [met] at finished
    contradiction
  · rw [met] at other
    cases other
    exact first

end Round

/-! ## Between two rounds -/

/-- Asks a policy about a scalar. A rule goes on behind it, a script uses up an answer. The second
result is what is left of the policy. -/
def Policy.ask (policy : Policy) (failure : Unencodable) : Except Failure Answer × Policy :=
  match policy with
  | .rule replace =>
    match replace failure.scalar with
    | .error .refused => (.error (.unencodable failure), policy)
    | .error (.missing fault) => (.error (.missingRule fault), policy)
    | .ok replacement => (.ok ⟨replacement, failure.index + 1⟩, policy)
  | .script [] => (.error (.unencodable failure), policy)
  | .script (answer :: answers) => (.ok answer, .script answers)

/-- The bytes of a replacement, which are found in two passes. -/
def Replacement.encodeTwoPass : Replacement → Except Encoding.PassFailure Bytes
  | .text inserted => LosslessUtf8.encodeTwoPass inserted
  | .bytes inserted => .ok inserted

/-- The bytes that an answer puts in the place of a scalar, and the place at which a text of the
given length is taken up again. The bytes are looked at first. -/
def Answer.settle (answer : Answer) (length : Nat) (failure : Unencodable) :
    Except Failure (Bytes × Nat) :=
  match answer.replacement.encodeTwoPass with
  | .error _ => .error (.unencodable failure)
  | .ok inserted => (placeOf length answer.resume).map (inserted, ·)

/-- What a policy makes of a scalar, and what is left of the policy. -/
def Policy.settle (policy : Policy) (length : Nat) (failure : Unencodable) :
    Except Failure (Bytes × Nat) × Policy :=
  match policy.ask failure with
  | (.error reason, left) => (.error reason, left)
  | (.ok answer, left) => (answer.settle length failure, left)

/-- The place at which an answer wants a text of the given length to be taken up again. -/
def Answer.place (answer : Answer) (length : Nat) : Int :=
  if answer.resume < 0 then answer.resume + length else answer.resume

/-- The number of answers that are left. -/
def Policy.answerCount : Policy → Nat
  | .rule _ => 0
  | .script answers => answers.length

section Settle

variable {length next : Nat} {failure inner : Unencodable} {answer : Answer} {inserted : Bytes}

theorem placeOf_eq (answer : Answer) (length : Nat) :
    placeOf length answer.resume =
      if 0 ≤ answer.place length ∧ answer.place length ≤ length then
        .ok (answer.place length).toNat
      else .error (.ofPosition (answer.place length)) := rfl

theorem Answer.settle_eq (answer : Answer) (length : Nat) (failure : Unencodable) :
    answer.settle length failure =
      match answer.replacement.encode with
      | .error _ => .error (.unencodable failure)
      | .ok inserted => (placeOf length answer.resume).map (inserted, ·) := by
  rw [Answer.settle]
  cases answer.replacement with
  | bytes inserted => rfl
  | text inserted =>
      rw [Replacement.encodeTwoPass, encodeTwoPass_eq, Replacement.encode]
      cases encode inserted <;> rfl

theorem Answer.settle_of_error (unencodable : answer.replacement.encode = .error inner) :
    answer.settle length failure = .error (.unencodable failure) := by
  rw [settle_eq, unencodable]

theorem Answer.settle_of_outside (encoded : answer.replacement.encode = .ok inserted)
    (outside : ¬ (0 ≤ answer.place length ∧ answer.place length ≤ length)) :
    answer.settle length failure = .error (.ofPosition (answer.place length)) := by
  rw [settle_eq, encoded, placeOf_eq, if_neg outside]
  rfl

theorem Answer.settle_eq_ok_iff :
    answer.settle length failure = .ok (inserted, next) ↔
      answer.replacement.encode = .ok inserted ∧ answer.place length = next ∧ next ≤ length := by
  rw [settle_eq, placeOf_eq]
  cases answer.replacement.encode with
  | error inner => simp
  | ok other =>
      dsimp only
      split
      · next inside =>
          simp only [Except.map, Except.ok.injEq, Prod.mk.injEq]
          constructor
          · rintro ⟨rfl, rfl⟩
            exact ⟨rfl, by omega, by omega⟩
          · rintro ⟨rfl, placed, -⟩
            exact ⟨rfl, by omega⟩
      · next outside =>
          simp only [Except.map, reduceCtorEq, false_iff]
          rintro ⟨-, placed, bounded⟩
          omega

theorem Policy.settle_of_ask {policy left : Policy}
    (asking : policy.ask failure = (.ok answer, left)) :
    policy.settle length failure = (answer.settle length failure, left) := by
  rw [settle, asking]

theorem Policy.settle_of_ask_error {policy left : Policy} {reason : Failure}
    (asking : policy.ask failure = (.error reason, left)) :
    policy.settle length failure = (.error reason, left) := by
  rw [settle, asking]

end Settle

theorem Answer.place_behind (replacement : Replacement) (index length : Nat) :
    Answer.place ⟨replacement, index + 1⟩ length = (index + 1 : Nat) := by
  rw [place, if_neg (by simp only; omega)]
  rfl

/-- What a policy says uses up an answer, or leads on behind the scalar. -/
theorem Policy.settle_cases {policy left : Policy} {length next : Nat} {failure : Unencodable}
    {inserted : Bytes} (settled : policy.settle length failure = (.ok (inserted, next), left)) :
    left.answerCount < policy.answerCount ∨
      left.answerCount = policy.answerCount ∧ next = failure.index + 1 := by
  unfold Policy.settle at settled
  cases policy with
  | rule replace =>
      right
      cases replaced : replace failure.scalar with
      | error refusal => cases refusal <;> simp [Policy.ask, replaced] at settled
      | ok replacement =>
          simp only [Policy.ask, replaced, Prod.mk.injEq] at settled
          obtain ⟨answered, rfl⟩ := settled
          have placed := (Answer.settle_eq_ok_iff.1 answered).2.1
          rw [Answer.place_behind] at placed
          exact ⟨rfl, (Int.ofNat.inj placed).symm⟩
  | script answers =>
      left
      cases answers with
      | nil => simp [Policy.ask] at settled
      | cons answer answers =>
          simp only [Policy.ask, Prod.mk.injEq] at settled
          rw [← settled.2]
          exact Nat.lt_succ_self answers.length

/-- Answers are used up, and between two of them the text comes to an end. -/
theorem Policy.settle_decreases {text : Text} {policy left : Policy} {position next : Nat}
    {failure : Unencodable} {inserted : Bytes} (first : failure.IsFirst text position)
    (settled : policy.settle text.length failure = (.ok (inserted, next), left)) :
    Prod.Lex (· < ·) (· < ·) (left.answerCount, text.length - next)
      (policy.answerCount, text.length - position) := by
  have notBehind := first.position_le
  have inside := first.index_lt
  rcases settle_cases settled with fewer | ⟨same, further⟩
  · exact .left _ _ fewer
  · rw [same]
    exact .right _ (by omega)

/-! ## All rounds -/

/-- What comes of rounds, what they leave of the policy, and the scalars that it was asked about. -/
structure Rounds where
  outcome : Except RoundFailure Bytes
  left : Policy
  asked : List Unencodable

/-- Rounds behind a scalar that the policy was asked about. -/
def Rounds.behind (failure : Unencodable) (rounds : Rounds) : Rounds :=
  { rounds with asked := failure :: rounds.asked }

/-- Encodes a text from a position on, behind bytes that are there already. -/
def encodeFrom (policy : Policy) (text : Text) (encoded : Bytes) (position : Nat) : Rounds :=
  if _ : position < text.length then
    match _ : round text position with
    | .broken failure => ⟨.error failure, policy, []⟩
    | .finished bytes => ⟨.ok (encoded ++ bytes), policy, []⟩
    | .met bytes failure =>
      match _ : policy.settle text.length failure with
      | (.error reason, left) => ⟨.error (.failed reason), left, [failure]⟩
      | (.ok (inserted, next), left) =>
        (encodeFrom left text (encoded ++ bytes ++ inserted) next).behind failure
  else ⟨.ok encoded, policy, []⟩
termination_by (policy.answerCount, text.length - position)
decreasing_by exact Policy.settle_decreases (isFirst_of_round (Nat.le_of_lt ‹_›) ‹_›) ‹_›

/-- Encodes a text in rounds. -/
def encodeInRounds (policy : Policy) (text : Text) : Rounds :=
  encodeFrom policy text [] 0

end LosslessUtf8.Substitution
