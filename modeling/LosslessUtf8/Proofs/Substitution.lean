import LosslessUtf8.Substitution.Rounds

/-!
# Substitution under a policy

`Substitutes` says how a text is encoded under a policy, from one scalar without a byte form to the
next. Main statements: every round is followed by one at a later position or with fewer answers
(`rounds_induction`), so that there is one way for every policy and text, and encoding takes it, in
rounds as well as at once (`rounds_follow_policy`). A rule that takes no scalar fails on just the
texts that cannot be encoded (`encodeUnder_of_substitute_error`), and so does a name that leads to
no rule.
-/

namespace LosslessUtf8.Substitution

/-- How a text is encoded under a policy from a position on: what comes of it, what is left of the
policy, and which scalars the policy was asked about. -/
inductive Substitutes (text : Text) :
    Policy → Nat → Except Failure Bytes → Policy → List Unencodable → Prop where
  | finished {policy : Policy} {position : Nat} {bytes : Bytes} :
      encode (text.drop position) = .ok bytes →
      Substitutes text policy position (.ok bytes) policy []
  | refused {policy left : Policy} {position : Nat} {failure : Unencodable} {reason : Failure} :
      failure.IsFirst text position → policy.ask failure = (.error reason, left) →
      Substitutes text policy position (.error reason) left [failure]
  | unencodable {policy left : Policy} {position : Nat} {failure inner : Unencodable}
      {answer : Answer} :
      failure.IsFirst text position → policy.ask failure = (.ok answer, left) →
      answer.replacement.encode = .error inner →
      Substitutes text policy position (.error (.unencodable failure)) left [failure]
  | outOfBounds {policy left : Policy} {position : Nat} {failure : Unencodable} {answer : Answer}
      {inserted : Bytes} :
      failure.IsFirst text position → policy.ask failure = (.ok answer, left) →
      answer.replacement.encode = .ok inserted →
      ¬ (0 ≤ answer.place text.length ∧ answer.place text.length ≤ text.length) →
      ¬ Numeral.IsLong (answer.place text.length) →
      Substitutes text policy position (.error (.outOfBounds (answer.place text.length))) left
        [failure]
  | farOutOfBounds {policy left : Policy} {position : Nat} {failure : Unencodable}
      {answer : Answer} {inserted : Bytes} :
      failure.IsFirst text position → policy.ask failure = (.ok answer, left) →
      answer.replacement.encode = .ok inserted →
      ¬ (0 ≤ answer.place text.length ∧ answer.place text.length ≤ text.length) →
      Numeral.IsLong (answer.place text.length) →
      Substitutes text policy position (.error (.farOutOfBounds (answer.place text.length))) left
        [failure]
  | again {policy left last : Policy} {position next : Nat} {failure : Unencodable}
      {answer : Answer} {front inserted : Bytes} {outcome : Except Failure Bytes}
      {asked : List Unencodable} :
      failure.IsFirst text position → encode (text.extract position failure.index) = .ok front →
      policy.ask failure = (.ok answer, left) → answer.replacement.encode = .ok inserted →
      answer.place text.length = next → next ≤ text.length →
      Substitutes text left next outcome last asked →
      Substitutes text policy position (outcome.map (front ++ inserted ++ ·)) last
        (failure :: asked)

/-! ## In rounds -/

section Rounds

variable {text : Text} {policy : Policy} {position : Nat} {failure : Unencodable}
  {front bytes : Bytes}

theorem encodeFrom_of_encode (before : Bytes) (encoded : encode (text.drop position) = .ok bytes) :
    encodeFrom policy text before position = ⟨.ok (before ++ bytes), policy, []⟩ := by
  rw [encodeFrom.eq_def]
  split
  · next more =>
      have finished := round_of_encode (Nat.le_of_lt more) encoded
      split
      · next broken => cases finished.symm.trans broken
      · next other =>
          cases finished.symm.trans other
          rfl
      · next met => cases finished.symm.trans met
  · next reached =>
      rw [List.drop_eq_nil_of_le (Nat.le_of_not_lt reached), encode_nil] at encoded
      cases encoded
      rw [List.append_nil]

theorem encodeFrom_of_isFirst (before : Bytes) (first : failure.IsFirst text position)
    (encoded : encode (text.extract position failure.index) = .ok front) :
    encodeFrom policy text before position =
      match policy.settle text.length failure with
      | (.error reason, left) => ⟨.error (.failed reason), left, [failure]⟩
      | (.ok (inserted, next), left) =>
        (encodeFrom left text (before ++ front ++ inserted) next).behind failure := by
  have more : position < text.length := Nat.lt_of_le_of_lt first.position_le first.index_lt
  have met := round_of_isFirst first encoded
  rw [encodeFrom.eq_def, dif_pos more]
  split
  · next broken => cases met.symm.trans broken
  · next finished => cases met.symm.trans finished
  · next other =>
      cases met.symm.trans other
      split <;> next settled => rw [settled]

end Rounds

/-! ## At once -/

theorem encodeByRule_append {front : Text} {bytes : Bytes} (encoded : encode front = .ok bytes)
    (rule : Rule) (reversed : Bytes) (index : Nat) (back : Text) :
    encodeByRule rule reversed index (front ++ back) =
      encodeByRule rule (bytes.reverse ++ reversed) (index + front.length) back := by
  induction front generalizing bytes reversed index with
  | nil =>
      rw [encode_nil] at encoded
      cases encoded
      rfl
  | cons scalar front ih =>
      rw [encode_cons_eq_ok_iff] at encoded
      obtain ⟨spelling, rest, spelled, restEncoded, rfl⟩ := encoded
      rw [List.cons_append, encodeByRule, spelled]
      dsimp only
      rw [ih restEncoded, List.reverseAux_eq, List.reverse_append, List.append_assoc,
        List.length_cons, Nat.add_assoc, Nat.add_comm 1]

/-- Encodes a text from a position on under a policy, behind bytes that are there already. -/
def encodeUnderFrom (policy : Policy) (text : Text) (before : Bytes) (position : Nat) :
    Except Failure Bytes × Policy :=
  match policy with
  | .rule rule => (encodeByRule rule before.reverse position (text.drop position), policy)
  | .script answers =>
    let (outcome, left) := encodeByScript text before.reverse position answers
    (outcome, .script left)

theorem encodeUnder_eq (policy : Policy) (text : Text) :
    encodeUnder policy text = encodeUnderFrom policy text [] 0 := by
  cases policy <;> rfl

section AtOnce

variable {text : Text} {policy : Policy} {position : Nat} {failure : Unencodable}
  {front bytes : Bytes}

theorem encodeUnderFrom_of_encode (before : Bytes)
    (encoded : encode (text.drop position) = .ok bytes) :
    encodeUnderFrom policy text before position = (.ok (before ++ bytes), policy) := by
  cases policy with
  | rule rule =>
      have all := encodeByRule_append encoded rule before.reverse position []
      rw [List.append_nil] at all
      simp [encodeUnderFrom, all, encodeByRule]
  | script answers =>
      have all := Encoding.spellOnto_append encoded before.reverse position []
      rw [List.append_nil] at all
      cases answers <;> simp [encodeUnderFrom, encodeByScript, all, Encoding.spellOnto]

theorem Policy.settle_rule (rule : Rule) {length : Nat} (inside : failure.index < length) :
    (Policy.rule rule).settle length failure =
      ((rule.substitute failure).map (·, failure.index + 1), .rule rule) := by
  rw [settle, ask, Rule.substitute]
  cases rule failure.scalar with
  | error refusal => cases refusal <;> rfl
  | ok replacement =>
      dsimp only
      cases encoded : replacement.encode with
      | error inner =>
          rw [Answer.settle_of_error encoded]
          rfl
      | ok inserted =>
          have placed := Answer.place_behind replacement failure.index length
          rw [Answer.settle_eq_ok_iff.2 ⟨encoded, placed, inside⟩]
          rfl

/-- A rule is asked where the scalar stands, a script by its next answer. -/
theorem encodeUnderFrom_of_isFirst (before : Bytes) (first : failure.IsFirst text position)
    (encoded : encode (text.extract position failure.index) = .ok front) :
    encodeUnderFrom policy text before position =
      match policy.settle text.length failure with
      | (.error reason, left) => (.error reason, left)
      | (.ok (inserted, next), left) =>
        encodeUnderFrom left text (before ++ front ++ inserted) next := by
  have index : position + (text.extract position failure.index).length = failure.index := by
    rw [first.length_extract]
    exact Nat.add_sub_cancel' first.position_le
  have unspelled := Scalar.spell?_eq_none_iff.2 first.unencodable
  cases policy with
  | rule rule =>
      rw [Policy.settle_rule rule first.index_lt, encodeUnderFrom, first.drop_eq,
        encodeByRule_append encoded, index, encodeByRule, unspelled]
      dsimp only
      cases rule.substitute failure with
      | error reason => rfl
      | ok inserted =>
          simp [Except.map, encodeUnderFrom, List.reverseAux_eq]
  | script answers =>
      have met := Encoding.spellOnto_append encoded before.reverse position
        (failure.scalar :: text.drop (failure.index + 1))
      rw [← first.drop_eq, index, Encoding.spellOnto, unspelled] at met
      cases answers with
      | nil => simp [encodeUnderFrom, encodeByScript, met, Policy.settle, Policy.ask]
      | cons answer answers =>
          rw [encodeUnderFrom, encodeByScript, met, Policy.settle, Policy.ask]
          dsimp only
          rw [Answer.settle_eq]
          cases answer.replacement.encode with
          | error inner => rfl
          | ok inserted =>
              cases placeOf text.length answer.resume with
              | error reason => rfl
              | ok next => simp [Except.map, encodeUnderFrom, List.reverseAux_eq]

end AtOnce

/-! ## One way for every policy and text -/

/-- Every round starts at a later position, or with fewer answers, than the one before it. -/
@[elab_as_elim]
theorem rounds_induction (text : Text) {motive : Policy → Nat → Prop}
    (finished : ∀ policy position bytes, encode (text.drop position) = .ok bytes →
      motive policy position)
    (ended : ∀ policy position failure front reason left, failure.IsFirst text position →
      encode (text.extract position failure.index) = .ok front →
      policy.settle text.length failure = (.error reason, left) → motive policy position)
    (again : ∀ policy position failure front inserted next left, failure.IsFirst text position →
      encode (text.extract position failure.index) = .ok front →
      policy.settle text.length failure = (.ok (inserted, next), left) → motive left next →
      motive policy position)
    (policy : Policy) (position : Nat) : motive policy position := by
  rcases encode_drop_cases text position with ⟨bytes, encoded⟩ | ⟨failure, front, first, encoded⟩
  · exact finished policy position bytes encoded
  · rcases settled : policy.settle text.length failure with ⟨reason | ⟨inserted, next⟩, left⟩
    · exact ended policy position failure front reason left first encoded settled
    · exact again policy position failure front inserted next left first encoded settled
        (rounds_induction text finished ended again left next)
termination_by (policy.answerCount, text.length - position)
decreasing_by exact Policy.settle_decreases first settled

section Ways

variable {text : Text} {policy left last : Policy} {position next : Nat} {failure : Unencodable}
  {inserted front : Bytes} {reason : Failure} {outcome : Except Failure Bytes}
  {asked : List Unencodable}

/-- Rounds come to what encoding at once comes to. -/
theorem encodeFrom_eq (policy : Policy) (text : Text) (before : Bytes) (position : Nat) :
    (encodeFrom policy text before position).outcome =
        (encodeUnderFrom policy text before position).1.mapError .failed ∧
      (encodeFrom policy text before position).left =
        (encodeUnderFrom policy text before position).2 := by
  induction policy, position using rounds_induction text generalizing before with
  | finished policy position bytes encoded =>
      rw [encodeFrom_of_encode before encoded, encodeUnderFrom_of_encode before encoded]
      exact ⟨rfl, rfl⟩
  | ended policy position failure front reason left first encoded settled =>
      rw [encodeFrom_of_isFirst before first encoded,
        encodeUnderFrom_of_isFirst before first encoded, settled]
      exact ⟨rfl, rfl⟩
  | again policy position failure front inserted next left first encoded settled ih =>
      rw [encodeFrom_of_isFirst before first encoded,
        encodeUnderFrom_of_isFirst before first encoded, settled]
      exact ih (before ++ front ++ inserted)

theorem Substitutes.of_error (first : failure.IsFirst text position)
    (settled : policy.settle text.length failure = (.error reason, left)) :
    Substitutes text policy position (.error reason) left [failure] := by
  rcases asking : policy.ask failure with ⟨refusal | answer, rest⟩
  · rw [Policy.settle_of_ask_error asking] at settled
    cases settled
    exact .refused first asking
  · rw [Policy.settle_of_ask asking] at settled
    cases encoded : answer.replacement.encode with
    | error inner =>
        rw [Answer.settle_of_error encoded] at settled
        cases settled
        exact .unencodable first asking encoded
    | ok inserted =>
        by_cases inside : 0 ≤ answer.place text.length ∧ answer.place text.length ≤ text.length
        · obtain ⟨next, placed⟩ := Int.eq_ofNat_of_zero_le inside.1
          rw [Answer.settle_eq_ok_iff.2 ⟨encoded, placed, by omega⟩] at settled
          cases settled
        · rw [Answer.settle_of_outside encoded inside] at settled
          cases settled
          by_cases long : Numeral.IsLong (answer.place text.length)
          · rw [Failure.ofPosition, if_pos long]
            exact .farOutOfBounds first asking encoded inside long
          · rw [Failure.ofPosition, if_neg long]
            exact .outOfBounds first asking encoded inside long

theorem Substitutes.of_ok (first : failure.IsFirst text position)
    (encoded : encode (text.extract position failure.index) = .ok front)
    (settled : policy.settle text.length failure = (.ok (inserted, next), left))
    (substitutes : Substitutes text left next outcome last asked) :
    Substitutes text policy position (outcome.map (front ++ inserted ++ ·)) last
      (failure :: asked) := by
  rcases asking : policy.ask failure with ⟨refusal | answer, rest⟩
  · rw [Policy.settle_of_ask_error asking] at settled
    cases settled
  · rw [Policy.settle_of_ask asking] at settled
    obtain ⟨answered, rfl⟩ := Prod.mk.inj settled
    obtain ⟨replaced, placed, inside⟩ := Answer.settle_eq_ok_iff.1 answered
    exact .again first encoded asking replaced placed inside substitutes

theorem exists_substitutes (text : Text) (policy : Policy) (position : Nat) :
    ∃ outcome left asked, Substitutes text policy position outcome left asked := by
  induction policy, position using rounds_induction text with
  | finished policy position bytes encoded => exact ⟨_, _, _, .finished encoded⟩
  | ended policy position failure front reason left first encoded settled =>
      exact ⟨_, _, _, .of_error first settled⟩
  | again policy position failure front inserted next left first encoded settled ih =>
      obtain ⟨outcome, last, asked, substitutes⟩ := ih
      exact ⟨_, _, _, .of_ok first encoded settled substitutes⟩

theorem map_append_map (front back : Bytes) (outcome : Except Failure Bytes) :
    (outcome.map (back ++ ·)).map (front ++ ·) = outcome.map (front ++ back ++ ·) := by
  cases outcome <;> simp [Except.map]

/-- Encoding in rounds takes the way that the policy leads. -/
theorem Substitutes.encodeFrom_eq
    (substitutes : Substitutes text policy position outcome left asked) (before : Bytes) :
    encodeFrom policy text before position =
      ⟨(outcome.map (before ++ ·)).mapError .failed, left, asked⟩ := by
  induction substitutes generalizing before with
  | finished encoded => exact encodeFrom_of_encode before encoded
  | refused first asking =>
      obtain ⟨front, encoded⟩ := first.exists_encode
      rw [encodeFrom_of_isFirst before first encoded, Policy.settle_of_ask_error asking]
      rfl
  | unencodable first asking replaced =>
      obtain ⟨front, encoded⟩ := first.exists_encode
      rw [encodeFrom_of_isFirst before first encoded, Policy.settle_of_ask asking,
        Answer.settle_of_error replaced]
      rfl
  | outOfBounds first asking replaced outside short =>
      obtain ⟨front, encoded⟩ := first.exists_encode
      rw [encodeFrom_of_isFirst before first encoded, Policy.settle_of_ask asking,
        Answer.settle_of_outside replaced outside, Failure.ofPosition, if_neg short]
      rfl
  | farOutOfBounds first asking replaced outside long =>
      obtain ⟨front, encoded⟩ := first.exists_encode
      rw [encodeFrom_of_isFirst before first encoded, Policy.settle_of_ask asking,
        Answer.settle_of_outside replaced outside, Failure.ofPosition, if_pos long]
      rfl
  | again first encoded asking replaced placed inside _ ih =>
      rw [encodeFrom_of_isFirst before first encoded, Policy.settle_of_ask asking,
        Answer.settle_eq_ok_iff.2 ⟨replaced, placed, inside⟩]
      dsimp only
      rw [ih, map_append_map, List.append_assoc]
      rfl

end Ways

/-! ## Rules that take no scalar -/

/-- The names that rules have. -/
def Rule.names : List String :=
  ["strict", "surrogateescape", "surrogatepass", "replace", "ignore", "backslashreplace",
    "namereplace", "xmlcharrefreplace"]

theorem Rule.ofName_of_not_mem {name : String} (unknown : name ∉ names) :
    ofName name = missing (if '\x00' ∈ name.toList then .null else .unknown name) := by
  unfold ofName
  split
  all_goals first
    | rfl
    | exact absurd (by decide) unknown

theorem takeWhile_append_of_head {α : Type} {keeps : α → Bool} {front back : List α}
    (kept : ∀ item ∈ front, keeps item) (ended : ∀ item ∈ back.head?, ¬ keeps item) :
    (front ++ back).takeWhile keeps = front := by
  rw [List.takeWhile_append_of_pos kept]
  cases back with
  | nil => simp
  | cons item back => simp [ended item rfl]

theorem Rule.ofText_ofString (name : String) : ofText (.ofString name) = ofName name := by
  have plain : ∀ scalar ∈ Text.ofString name, !decide scalar.IsSurrogate := by
    intro scalar member
    simpa using Text.not_isSurrogate_of_mem_ofString member
  have none : ∀ scalar ∈ ([] : Text).head?, ¬ (!decide scalar.IsSurrogate) := by simp
  have front := takeWhile_append_of_head plain none
  rw [List.append_nil] at front
  simp [ofText, front]

/-- A name with surrogates is turned down for the first row of them. -/
theorem Rule.ofText_of_surrogates {front row back : Text}
    (plain : ∀ scalar ∈ front, ¬ scalar.IsSurrogate) (present : row ≠ [])
    (surrogates : ∀ scalar ∈ row, scalar.IsSurrogate)
    (ended : ∀ scalar ∈ back.head?, ¬ scalar.IsSurrogate) :
    ofText (front ++ row ++ back) = missing (.surrogates front.length row) := by
  obtain ⟨first, rest, rfl⟩ := List.exists_cons_of_ne_nil present
  have before : (front ++ (first :: rest ++ back)).takeWhile
      (fun scalar => !decide scalar.IsSurrogate) = front :=
    takeWhile_append_of_head (by simpa using plain) (by simpa using surrogates first (by simp))
  have within : (first :: rest ++ back).takeWhile (fun scalar => decide scalar.IsSurrogate) =
      first :: rest :=
    takeWhile_append_of_head (by simpa using surrogates) (by simpa using ended)
  rw [List.append_assoc, ofText, before, List.drop_left, within]
  rfl

theorem encodeUnder_of_substitute_error {rule : Rule} {reason : Unencodable → Failure}
    (fails : ∀ failure, rule.substitute failure = .error (reason failure)) (text : Text) :
    encodeUnder (.rule rule) text = ((encode text).mapError reason, .rule rule) := by
  rw [encodeUnder_eq]
  cases encoded : encode text with
  | ok bytes => exact encodeUnderFrom_of_encode [] encoded
  | error failure =>
      have first : failure.IsFirst text 0 := by
        have atStart : Unencodable.IsFirst ⟨failure.scalar, 0 + failure.index⟩ text 0 :=
          Unencodable.isFirst_of_encode_drop encoded
        rwa [Nat.zero_add] at atStart
      obtain ⟨front, frontEncoded⟩ := first.exists_encode
      rw [encodeUnderFrom_of_isFirst [] first frontEncoded, Policy.settle_rule rule first.index_lt,
        fails]
      rfl

/-! ## The one way -/

theorem eq_of_mapError_failed {outcome other : Except Failure Bytes}
    (same : outcome.mapError RoundFailure.failed = other.mapError .failed) : outcome = other := by
  cases outcome <;> cases other <;> cases same <;> rfl

theorem Substitutes.encodeInRounds_eq {text : Text} {policy left : Policy}
    {outcome : Except Failure Bytes} {asked : List Unencodable}
    (substitutes : Substitutes text policy 0 outcome left asked) :
    encodeInRounds policy text = ⟨outcome.mapError .failed, left, asked⟩ := by
  rw [encodeInRounds, substitutes.encodeFrom_eq]
  cases outcome <;> rfl

theorem encodeUnder_of_encodeInRounds {text : Text} {policy left : Policy}
    {outcome : Except Failure Bytes} {asked : List Unencodable}
    (encoded : encodeInRounds policy text = ⟨outcome.mapError .failed, left, asked⟩) :
    encodeUnder policy text = (outcome, left) := by
  have rounds := encodeFrom_eq policy text [] 0
  rw [← encodeInRounds, ← encodeUnder_eq, encoded] at rounds
  exact Prod.ext (eq_of_mapError_failed rounds.1).symm rounds.2.symm

theorem Substitutes.encodeUnder_eq {text : Text} {policy left : Policy}
    {outcome : Except Failure Bytes} {asked : List Unencodable}
    (substitutes : Substitutes text policy 0 outcome left asked) :
    encodeUnder policy text = (outcome, left) :=
  encodeUnder_of_encodeInRounds substitutes.encodeInRounds_eq

theorem Substitutes.unique {text : Text} {policy left otherLeft : Policy}
    {outcome otherOutcome : Except Failure Bytes} {asked otherAsked : List Unencodable}
    (substitutes : Substitutes text policy 0 outcome left asked)
    (other : Substitutes text policy 0 otherOutcome otherLeft otherAsked) :
    otherOutcome = outcome ∧ otherLeft = left ∧ otherAsked = asked := by
  have same := other.encodeInRounds_eq.symm.trans substitutes.encodeInRounds_eq
  obtain ⟨outcomes, lefts, askeds⟩ := Rounds.mk.inj same
  exact ⟨eq_of_mapError_failed outcomes, lefts, askeds⟩

/-- Under any policy a text is encoded in the one way that the policy leads, in rounds as well as at
once, and no round ever stops anywhere else. Following the strict rule is encoding without a rule.
A name under which there is no rule is a failure on those texts alone that cannot be encoded: for
what it is if it can be looked up, else for its null characters or its first row of surrogates. -/
theorem rounds_follow_policy (text : Text) :
    (∀ policy, ∃ outcome left asked,
      (∀ outcome' left' asked', Substitutes text policy 0 outcome' left' asked' ↔
        outcome' = outcome ∧ left' = left ∧ asked' = asked) ∧
      encodeInRounds policy text = ⟨outcome.mapError .failed, left, asked⟩ ∧
      encodeUnder policy text = (outcome, left)) ∧
    encodeUnder (.rule (.ofName "strict")) text =
      ((encode text).mapError .unencodable, .rule (.ofName "strict")) ∧
    (∀ name, Rule.ofText (.ofString name) = .ofName name) ∧
    (∀ name ∉ Rule.names, encodeUnder (.rule (.ofName name)) text =
      ((encode text).mapError fun _ =>
        .missingRule (if '\x00' ∈ name.toList then .null else .unknown name),
        .rule (.ofName name))) ∧
    ∀ front row back : Text, (∀ scalar ∈ front, ¬ scalar.IsSurrogate) → row ≠ [] →
      (∀ scalar ∈ row, scalar.IsSurrogate) → (∀ scalar ∈ back.head?, ¬ scalar.IsSurrogate) →
      let rule := Rule.ofText (front ++ row ++ back)
      encodeUnder (.rule rule) text =
        ((encode text).mapError fun _ => .missingRule (.surrogates front.length row),
          .rule rule) := by
  have ofMissing (fault : LookupFault) : encodeUnder (.rule (Rule.missing fault)) text =
      ((encode text).mapError fun _ => .missingRule fault, .rule (Rule.missing fault)) :=
    encodeUnder_of_substitute_error (fun _ => rfl) text
  refine ⟨fun policy => ?_, ?_, Rule.ofText_ofString, ?_, ?_⟩
  · obtain ⟨outcome, left, asked, substitutes⟩ := exists_substitutes text policy 0
    refine ⟨outcome, left, asked, fun outcome' left' asked' => ?_,
      substitutes.encodeInRounds_eq, substitutes.encodeUnder_eq⟩
    constructor
    · intro other
      exact substitutes.unique other
    · rintro ⟨rfl, rfl, rfl⟩
      exact substitutes
  · exact encodeUnder_of_substitute_error (fun _ => rfl) text
  · intro name unknown
    rw [Rule.ofName_of_not_mem unknown]
    exact ofMissing _
  · intro front row back plain present surrogates ended rule
    have turnedDown : rule = _ := Rule.ofText_of_surrogates plain present surrogates ended
    rw [turnedDown]
    exact ofMissing _

/-- A surrogate between two letters, under a name that no rule has and under two that cannot be
looked up. -/
theorem rounds_follow_policy_unknown_name :
    let text : Text := [⟨0x61⟩, ⟨0xD800⟩, ⟨0x62⟩]
    let front : Text := [⟨0x61⟩]
    let row : Text := [⟨0xD83D⟩, ⟨0xDE00⟩]
    let back : Text := [⟨0x62⟩, ⟨0xDC80⟩]
    let broken := Rule.ofText (front ++ row ++ back)
    "substitute" ∉ Rule.names ∧
      encodeUnder (.rule (.ofName "substitute")) text =
        (.error (.missingRule (.unknown "substitute")), .rule (.ofName "substitute")) ∧
      "a\x00b" ∉ Rule.names ∧
      encodeUnder (.rule (.ofName "a\x00b")) text =
        (.error (.missingRule .null), .rule (.ofName "a\x00b")) ∧
      ((∀ scalar ∈ front, ¬ scalar.IsSurrogate) ∧ row ≠ [] ∧
        (∀ scalar ∈ row, scalar.IsSurrogate) ∧ ∀ scalar ∈ back.head?, ¬ scalar.IsSurrogate) ∧
      encodeUnder (.rule broken) text =
        (.error (.missingRule (.surrogates 1 row)), .rule broken) := by
  intro text front row back broken
  have unknown : "substitute" ∉ Rule.names := by decide
  have withNull : "a\x00b" ∉ Rule.names := by decide
  have plain : ∀ scalar ∈ front, ¬ scalar.IsSurrogate := by decide
  have present : row ≠ [] := by decide
  have surrogates : ∀ scalar ∈ row, scalar.IsSurrogate := by decide
  have ended : ∀ scalar ∈ back.head?, ¬ scalar.IsSurrogate := by decide
  obtain ⟨-, -, -, named, turnedDown⟩ := rounds_follow_policy text
  exact ⟨unknown, named "substitute" unknown, withNull, named "a\x00b" withNull,
    ⟨plain, present, surrogates, ended⟩, turnedDown front row back plain present surrogates ended⟩

/-- Not every name that no rule has is told to be unknown: one with a null character in it is not
looked up. -/
theorem not_told_unknown_with_null :
    "a\x00b" ∉ Rule.names ∧
      encodeUnder (.rule (.ofText (.ofString "a\x00b"))) [⟨0xD800⟩] =
        (.error (.missingRule .null), .rule (.ofText (.ofString "a\x00b"))) ∧
      Failure.missingRule .null ≠ .missingRule (.unknown "a\x00b") ∧
      Failure.message (.missingRule .null) = "embedded null character" :=
  ⟨by decide, rfl, by decide, rfl⟩

/-- An answer can take the text up in front of its scalar, which then uses up another answer. -/
example :
    let answers : List Answer := [⟨.bytes [0x2D], -3⟩, ⟨.text [⟨0x3F⟩], 2⟩]
    (encodeUnder (.script answers) [⟨0x61⟩, ⟨0xD800⟩, ⟨0x62⟩]).1 =
      .ok [0x61, 0x2D, 0x61, 0x3F, 0x62] := by
  rfl

end LosslessUtf8.Substitution
