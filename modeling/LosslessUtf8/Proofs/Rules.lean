import LosslessUtf8.Proofs.ExactEncoding
import LosslessUtf8.Proofs.Substitution

/-!
# What a text is written as under a rule

A rule looks at a scalar alone, so a text is written scalar by scalar: each in its own form, or as
what the rule puts in its place. Main statements: rounds come to just that as long as every scalar
is written (`encodeInRounds_of_writes`), and end at the first that is not
(`encodeInRounds_of_not_writes`); either way the rule is asked about the scalars without a byte form
that were passed, once each and in order.
-/

namespace LosslessUtf8.Substitution

namespace Rule

/-- What a scalar is written as: its own form, or what the rule puts in its place. -/
def written? (rule : Rule) (scalar : Scalar) : Option Bytes :=
  if scalar.Encodable then some scalar.form
  else
    match rule scalar with
    | .error _ => none
    | .ok replacement => replacement.encode.toOption

/-- Something is written for a scalar. -/
def Writes (rule : Rule) (scalar : Scalar) : Prop :=
  (rule.written? scalar).isSome

instance (rule : Rule) (scalar : Scalar) : Decidable (rule.Writes scalar) :=
  inferInstanceAs (Decidable (_ = true))

/-- Why nothing is written for a scalar, which stands at some index of a text. -/
def failureAt (rule : Rule) (scalar : Scalar) (index : Nat) : Failure :=
  match rule scalar with
  | .error (.missing fault) => .missingRule fault
  | _ => .unencodable ⟨scalar, index⟩

/-- What a text is written as. -/
def spell (rule : Rule) (text : Text) : Bytes :=
  (text.filterMap rule.written?).flatten

variable {rule : Rule} {scalar : Scalar} {bytes : Bytes}

theorem written?_of_encodable (rule : Rule) (encodable : scalar.Encodable) :
    rule.written? scalar = some scalar.form :=
  if_pos encodable

theorem substitute_of_written? (unencodable : ¬ scalar.Encodable)
    (written : rule.written? scalar = some bytes) (index : Nat) :
    rule.substitute ⟨scalar, index⟩ = .ok bytes := by
  rw [written?, if_neg unencodable] at written
  unfold substitute
  dsimp only
  cases replaced : rule scalar with
  | error refusal =>
      rw [replaced] at written
      cases written
  | ok replacement =>
      rw [replaced] at written
      dsimp only at written ⊢
      cases encoded : replacement.encode with
      | error inner =>
          rw [encoded] at written
          cases written
      | ok inserted =>
          rw [encoded] at written
          cases written
          rfl

theorem substitute_of_not_writes (unwritten : ¬ rule.Writes scalar) (index : Nat) :
    rule.substitute ⟨scalar, index⟩ = .error (rule.failureAt scalar index) := by
  unfold Writes written? at unwritten
  unfold substitute failureAt
  dsimp only
  split at unwritten
  · exact absurd rfl unwritten
  · cases replaced : rule scalar with
    | error refusal => cases refusal <;> rfl
    | ok replacement =>
        rw [replaced] at unwritten
        dsimp only at unwritten ⊢
        cases encoded : replacement.encode with
        | error inner => rfl
        | ok inserted =>
            rw [encoded] at unwritten
            exact absurd rfl unwritten

theorem spell_cons (written : rule.written? scalar = some bytes) (text : Text) :
    rule.spell (scalar :: text) = bytes ++ rule.spell text := by
  rw [spell, List.filterMap_cons_some written, List.flatten_cons, spell]

theorem spell_flatten (rule : Rule) (pieces : List Text) :
    rule.spell pieces.flatten = (pieces.map rule.spell).flatten := by
  rw [spell, List.filterMap_flatten, List.flatten_flatten, List.map_map]
  rfl

end Rule

/-! ## The scalars without a byte form -/

/-- The scalars of a text that have no byte form, numbered from some index on. -/
def unencodables (index : Nat) (text : Text) : List Unencodable :=
  (text.zipIdx index).filterMap fun (scalar, index) =>
    if scalar.Encodable then none else some ⟨scalar, index⟩

theorem unencodables_cons_of_encodable {scalar : Scalar} (encodable : scalar.Encodable)
    (index : Nat) (text : Text) :
    unencodables index (scalar :: text) = unencodables (index + 1) text := by
  simp [unencodables, List.zipIdx_cons, encodable]

theorem unencodables_cons_of_not_encodable {scalar : Scalar} (unencodable : ¬ scalar.Encodable)
    (index : Nat) (text : Text) :
    unencodables index (scalar :: text) = ⟨scalar, index⟩ :: unencodables (index + 1) text := by
  simp [unencodables, List.zipIdx_cons, unencodable]

theorem unencodables_append (index : Nat) (front back : Text) :
    unencodables index (front ++ back) =
      unencodables index front ++ unencodables (index + front.length) back := by
  rw [unencodables, List.zipIdx_append, List.filterMap_append]
  rfl

theorem map_scalar_unencodables (index : Nat) (text : Text) :
    (unencodables index text).map (·.scalar) =
      text.filter fun scalar => ¬ scalar.Encodable := by
  induction text generalizing index with
  | nil => rfl
  | cons scalar text ih =>
      by_cases encodable : scalar.Encodable
      · rw [unencodables_cons_of_encodable encodable, ih]
        simp [encodable]
      · rw [unencodables_cons_of_not_encodable encodable, List.map_cons, ih]
        simp [encodable]

/-! ## Scalar by scalar -/

section Scalars

variable {text front back : Text} {scalar : Scalar} {position : Nat}

theorem drop_add_one_of_drop (here : text.drop position = scalar :: back) :
    text.drop (position + 1) = back := by
  rw [List.drop_add_one_eq_tail_drop, here, List.tail_cons]

/-- A scalar that has a byte form can be taken out of a round. -/
theorem encodeFrom_of_encodable (policy : Policy) (before : Bytes)
    (here : text.drop position = scalar :: back) (encodable : scalar.Encodable) :
    encodeFrom policy text before position =
      encodeFrom policy text (before ++ scalar.form) (position + 1) := by
  have behind := drop_add_one_of_drop here
  have spelled := Scalar.spell?_eq_form encodable
  have headed := encode_cons_of_some back spelled
  cases encoded : encode back with
  | ok bytes =>
      rw [encoded, ← here] at headed
      rw [← behind] at encoded
      rw [encodeFrom_of_encode before headed, encodeFrom_of_encode _ encoded, List.append_assoc]
  | error failure =>
      -- Both rounds meet the same scalar, and one form is all that is between their bytes.
      rw [encoded, ← here] at headed
      rw [← behind] at encoded
      have first := Unencodable.isFirst_of_encode_drop headed
      have firstBehind := Unencodable.isFirst_of_encode_drop encoded
      obtain ⟨bytes, frontEncoded⟩ := firstBehind.exists_encode
      have index : position + (failure.index + 1) = position + 1 + failure.index := by omega
      rw [index] at first
      have parts : text.extract position (position + 1 + failure.index) =
          scalar :: text.extract (position + 1) (position + 1 + failure.index) := by
        rw [List.extract, List.extract, here, behind, Nat.add_sub_cancel_left, ← index,
          Nat.add_sub_cancel_left, List.take_succ_cons]
      have headedFront := encode_cons_of_some
        (text.extract (position + 1) (position + 1 + failure.index)) spelled
      rw [frontEncoded, ← parts] at headedFront
      rw [encodeFrom_of_isFirst before first headedFront,
        encodeFrom_of_isFirst _ firstBehind frontEncoded, List.append_assoc before]

/-- At a scalar that has no byte form a rule is asked. -/
theorem encodeFrom_of_not_encodable (rule : Rule) (before : Bytes)
    (here : text.drop position = scalar :: back) (unencodable : ¬ scalar.Encodable) :
    encodeFrom (.rule rule) text before position =
      match rule.substitute ⟨scalar, position⟩ with
      | .error reason => ⟨.error (.failed reason), .rule rule, [⟨scalar, position⟩]⟩
      | .ok inserted =>
        (encodeFrom (.rule rule) text (before ++ inserted) (position + 1)).behind
          ⟨scalar, position⟩ := by
  have failed := encode_cons_of_none back (Scalar.spell?_eq_none_iff.2 unencodable)
  rw [← here] at failed
  have first : Unencodable.IsFirst ⟨scalar, position⟩ text position :=
    Unencodable.isFirst_of_encode_drop failed
  have nothing : encode (text.extract position position) = .ok [] := by
    rw [List.extract, Nat.sub_self, List.take_zero, encode_nil]
  rw [encodeFrom_of_isFirst before first nothing, Policy.settle_rule rule first.index_lt]
  cases rule.substitute ⟨scalar, position⟩ with
  | error reason => rfl
  | ok inserted =>
      rw [List.append_nil]
      rfl

/-- Rounds pass all scalars that are written. -/
theorem encodeFrom_append_of_writes (rule : Rule) (before : Bytes)
    (written : ∀ scalar ∈ front, rule.Writes scalar) (here : text.drop position = front ++ back) :
    encodeFrom (.rule rule) text before position =
      let rounds := encodeFrom (.rule rule) text (before ++ rule.spell front)
        (position + front.length)
      { rounds with asked := unencodables position front ++ rounds.asked } := by
  induction front generalizing before position with
  | nil => simp [Rule.spell, unencodables]
  | cons scalar front ih =>
      rw [List.forall_mem_cons] at written
      obtain ⟨bytes, spelled⟩ := Option.isSome_iff_exists.1 written.1
      have behind := drop_add_one_of_drop here
      have rest := ih (before ++ bytes) written.2 behind
      rw [List.append_assoc, ← Rule.spell_cons spelled, Nat.add_assoc, Nat.add_comm 1] at rest
      by_cases encodable : scalar.Encodable
      · rw [rule.written?_of_encodable encodable] at spelled
        cases spelled
        rw [encodeFrom_of_encodable _ before here encodable, rest,
          unencodables_cons_of_encodable encodable, List.length_cons]
      · rw [encodeFrom_of_not_encodable rule before here encodable,
          Rule.substitute_of_written? encodable spelled]
        dsimp only
        rw [rest, unencodables_cons_of_not_encodable encodable, List.length_cons]
        rfl

theorem encodeInRounds_of_writes {rule : Rule} (written : ∀ scalar ∈ text, rule.Writes scalar) :
    encodeInRounds (.rule rule) text =
      ⟨.ok (rule.spell text), .rule rule, unencodables 0 text⟩ := by
  have whole : text.drop 0 = text ++ [] := (List.append_nil text).symm
  have nothing : encode (text.drop (0 + text.length)) = .ok [] := by
    rw [Nat.zero_add, List.drop_length, encode_nil]
  rw [encodeInRounds, encodeFrom_append_of_writes rule [] written whole,
    encodeFrom_of_encode _ nothing]
  simp only [List.nil_append, List.append_nil]

theorem encodeInRounds_of_not_writes {rule : Rule} (back : Text)
    (written : ∀ other ∈ front, rule.Writes other) (unwritten : ¬ rule.Writes scalar) :
    encodeInRounds (.rule rule) (front ++ scalar :: back) =
      ⟨.error (.failed (rule.failureAt scalar front.length)), .rule rule,
        unencodables 0 (front ++ [scalar])⟩ := by
  have unencodable : ¬ scalar.Encodable := by
    intro encodable
    rw [Rule.Writes, rule.written?_of_encodable encodable] at unwritten
    exact unwritten rfl
  have here : (front ++ scalar :: back).drop (0 + front.length) = scalar :: back := by
    rw [Nat.zero_add, List.drop_left]
  rw [encodeInRounds, encodeFrom_append_of_writes rule [] written List.drop_zero,
    encodeFrom_of_not_encodable rule _ here unencodable, Nat.zero_add,
    Rule.substitute_of_not_writes unwritten, unencodables_append, Nat.zero_add,
    unencodables_cons_of_not_encodable unencodable]
  rfl

theorem encodeUnder_of_writes {rule : Rule} (written : ∀ scalar ∈ text, rule.Writes scalar) :
    encodeUnder (.rule rule) text = (.ok (rule.spell text), .rule rule) :=
  encodeUnder_of_encodeInRounds (encodeInRounds_of_writes written)

theorem encodeUnder_of_not_writes {rule : Rule} (back : Text)
    (written : ∀ other ∈ front, rule.Writes other) (unwritten : ¬ rule.Writes scalar) :
    encodeUnder (.rule rule) (front ++ scalar :: back) =
      (.error (rule.failureAt scalar front.length), .rule rule) :=
  encodeUnder_of_encodeInRounds (encodeInRounds_of_not_writes back written unwritten)

end Scalars

end LosslessUtf8.Substitution
