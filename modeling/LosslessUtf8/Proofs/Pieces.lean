import LosslessUtf8.Piecewise
import LosslessUtf8.Proofs.Rules

/-!
# Encoding in pieces

A text that comes in pieces is encoded to the bytes of the whole, wherever it was cut, as long as
nothing but a rule is asked: neither encoding nor a rule looks past a scalar. Where a scalar cannot
be written, the pieces in front of its own are encoded, and its own is not (`pieces_encode_whole`).
-/

namespace LosslessUtf8.Piecewise

open Substitution (Rule encodeInRounds encodeUnder unencodables)

/-! ## Runs on which the state stays the same -/

section Collect

variable {σ ι α ε : Type} {convert : σ → ι → Except ε (List α) × σ} {state : σ}
  {result : ι → List α} {earlier inputs later : List ι}

theorem Run.collect_append
    (converted : ∀ input ∈ earlier, convert state input = (.ok (result input), state))
    (reversed : List (List α)) (later : List ι) :
    collect convert state reversed (earlier ++ later) =
      collect convert state (((earlier.map result).filter (!·.isEmpty)).reverse ++ reversed)
        later := by
  induction earlier generalizing reversed with
  | nil => rfl
  | cons input earlier ih =>
      rw [List.forall_mem_cons] at converted
      rw [List.cons_append, collect, converted.1]
      dsimp only
      rw [ih converted.2, List.map_cons]
      cases empty : (result input).isEmpty <;> simp [empty]

theorem Run.collect_append_of_nil {input : ι}
    (empty : ∀ state, (convert state input).1 = .ok []) (state : σ) (reversed : List (List α))
    (inputs : List ι) :
    collect convert state reversed (inputs ++ [input]) = collect convert state reversed inputs := by
  induction inputs generalizing state reversed with
  | nil =>
      obtain ⟨next, converts⟩ : ∃ next, convert state input = (.ok [], next) :=
        ⟨_, Prod.ext (empty state) rfl⟩
      simp [collect, converts]
  | cons earlier inputs ih =>
      rw [List.cons_append, collect, collect]
      split
      · rfl
      · exact ih _ _

theorem Run.collect_of_ok
    (converted : ∀ input ∈ inputs, convert state input = (.ok (result input), state)) :
    collect convert state [] inputs = ⟨(inputs.map result).filter (!·.isEmpty), none⟩ := by
  have all := collect_append converted [] []
  rw [List.append_nil, List.append_nil] at all
  rw [all, collect, List.reverse_reverse]

theorem Run.collect_of_error {input : ι} {failure : ε}
    (converted : ∀ input ∈ earlier, convert state input = (.ok (result input), state))
    (failed : (convert state input).1 = .error failure) (later : List ι) :
    collect convert state [] (earlier ++ input :: later) =
      ⟨(earlier.map result).filter (!·.isEmpty), some failure⟩ := by
  rw [collect_append converted, collect]
  split
  · next other converts =>
      rw [converts] at failed
      cases failed
      rw [List.append_nil, List.reverse_reverse]
  · next converts =>
      rw [converts] at failed
      cases failed

end Collect

/-! ## The first scalar that is not allowed -/

/-- Pieces of a text that holds a scalar which is not allowed, cut at the first such scalar. -/
structure Obstacle (Allowed : Scalar → Prop) where
  earlier : List Text
  front : Text
  scalar : Scalar
  back : Text
  later : List Text
  allowed_earlier : ∀ piece ∈ earlier, ∀ other ∈ piece, Allowed other
  allowed_front : ∀ other ∈ front, Allowed other
  not_allowed : ¬ Allowed scalar

namespace Obstacle

variable {Allowed : Scalar → Prop}

/-- The piece that holds the scalar. -/
def piece (obstacle : Obstacle Allowed) : Text :=
  obstacle.front ++ obstacle.scalar :: obstacle.back

/-- All pieces. -/
def pieces (obstacle : Obstacle Allowed) : List Text :=
  obstacle.earlier ++ obstacle.piece :: obstacle.later

/-- The text in front of the scalar. -/
def before (obstacle : Obstacle Allowed) : Text :=
  obstacle.earlier.flatten ++ obstacle.front

theorem allowed_before (obstacle : Obstacle Allowed) :
    ∀ other ∈ obstacle.before, Allowed other := by
  intro other member
  rcases List.mem_append.1 member with early | inFront
  · obtain ⟨piece, among, inside⟩ := List.mem_flatten.1 early
    exact obstacle.allowed_earlier piece among other inside
  · exact obstacle.allowed_front other inFront

theorem flatten_pieces (obstacle : Obstacle Allowed) :
    obstacle.pieces.flatten =
      obstacle.before ++ obstacle.scalar :: (obstacle.back ++ obstacle.later.flatten) := by
  simp only [pieces, piece, before, List.flatten_append, List.flatten_cons, List.append_assoc,
    List.cons_append]

end Obstacle

/-- Pieces that hold a scalar which is not allowed hold a first one. -/
theorem exists_obstacle {Allowed : Scalar → Prop} [DecidablePred Allowed] {pieces : List Text}
    (fails : ∃ scalar ∈ pieces.flatten, ¬ Allowed scalar) :
    ∃ obstacle : Obstacle Allowed, obstacle.pieces = pieces := by
  induction pieces with
  | nil => simp at fails
  | cons piece pieces ih =>
      cases found : piece.find? (¬ Allowed ·) with
      | none =>
          have allowed : ∀ other ∈ piece, Allowed other := by simpa using found
          have behind : ∃ scalar ∈ pieces.flatten, ¬ Allowed scalar := by
            obtain ⟨scalar, member, unallowed⟩ := fails
            rcases List.mem_append.1 member with inside | later
            · exact absurd (allowed scalar inside) unallowed
            · exact ⟨scalar, later, unallowed⟩
          obtain ⟨obstacle, rfl⟩ := ih behind
          have allowedEarlier := List.forall_mem_cons.2 ⟨allowed, obstacle.allowed_earlier⟩
          exact ⟨{ obstacle with
            earlier := piece :: obstacle.earlier
            allowed_earlier := allowedEarlier }, rfl⟩
      | some scalar =>
          obtain ⟨unallowed, front, back, rfl, allowed⟩ := List.find?_eq_some_iff_append.1 found
          refine ⟨⟨[], front, scalar, back, pieces, by simp, ?_, ?_⟩, rfl⟩
          · simpa using allowed
          · simpa using unallowed

/-! ## Pieces under a rule -/

/-- The step of a piece. An encoder keeps nothing back for the next piece, so that it does not
matter whether the piece is said to be the last. -/
def Encoder.Step.ofPiece (piece : Text) (_final : Bool) : Step :=
  .encode piece

/-- A run over pieces, of which any may be said to be the last. -/
def Encoder.runPieces (encoder : Encoder) (final : Nat → Bool) (pieces : List Text) :
    List (Option (Except Substitution.Failure Bytes)) :=
  encoder.run (pieces.mapIdx fun index piece => .ofPiece piece (final index))

theorem Encoder.runPieces_rule (rule : Rule) (final : Nat → Bool) (pieces : List Text) :
    runPieces ⟨.rule rule⟩ final pieces =
      pieces.map fun piece => some (encodeUnder (.rule rule) piece).1 := by
  induction pieces generalizing final with
  | nil => rfl
  | cons piece pieces ih =>
      have rest := ih fun index => final (index + 1)
      rw [runPieces] at rest ⊢
      rw [List.mapIdx_cons, run, List.map_cons, ← rest]
      rfl

/-- The empty piece behind the last brings nothing. -/
theorem encodePieces_append_nil (policy : Substitution.Policy) (pieces : List Text) :
    encodePieces policy (pieces ++ [[]]) = encodePieces policy pieces := by
  apply Run.collect_append_of_nil
  intro encoder
  have nothing : encodeUnder encoder.policy [] = (.ok [], encoder.policy) := by
    rw [Substitution.encodeUnder_eq]
    exact Substitution.encodeUnderFrom_of_encode [] encode_nil
  rw [Encoder.encode, nothing]

variable {rule : Rule} {pieces : List Text}

theorem Encoder.encode_of_writes {piece : Text} (written : ∀ scalar ∈ piece, rule.Writes scalar) :
    encode ⟨.rule rule⟩ piece = (.ok (rule.spell piece), ⟨.rule rule⟩) := by
  rw [encode, Substitution.encodeUnder_of_writes written]

theorem encodePieces_of_writes (written : ∀ piece ∈ pieces, ∀ scalar ∈ piece, rule.Writes scalar) :
    encodePieces (.rule rule) pieces = ⟨(pieces.map rule.spell).filter (!·.isEmpty), none⟩ :=
  Run.collect_of_ok fun piece member => Encoder.encode_of_writes (written piece member)

theorem encodePieces_of_not_writes (obstacle : Obstacle rule.Writes) :
    encodePieces (.rule rule) obstacle.pieces =
      ⟨(obstacle.earlier.map rule.spell).filter (!·.isEmpty),
        some (rule.failureAt obstacle.scalar obstacle.front.length)⟩ := by
  apply Run.collect_of_error
  · intro piece member
    exact Encoder.encode_of_writes (obstacle.allowed_earlier piece member)
  · rw [Encoder.encode, Obstacle.piece,
      Substitution.encodeUnder_of_not_writes _ obstacle.allowed_front obstacle.not_allowed]

theorem runPieces_of_writes (written : ∀ piece ∈ pieces, ∀ scalar ∈ piece, rule.Writes scalar)
    (final : Nat → Bool) :
    Encoder.runPieces ⟨.rule rule⟩ final pieces =
      pieces.map fun piece => some (.ok (rule.spell piece)) := by
  rw [Encoder.runPieces_rule]
  apply List.map_congr_left
  intro piece member
  rw [Substitution.encodeUnder_of_writes (written piece member)]

theorem runPieces_of_not_writes (obstacle : Obstacle rule.Writes) (final : Nat → Bool) :
    ∃ later, Encoder.runPieces ⟨.rule rule⟩ final obstacle.pieces =
      (obstacle.earlier.map fun piece => some (.ok (rule.spell piece))) ++
        some (.error (rule.failureAt obstacle.scalar obstacle.front.length)) :: later := by
  have written := runPieces_of_writes obstacle.allowed_earlier final
  rw [Encoder.runPieces_rule] at written
  rw [Encoder.runPieces_rule, Obstacle.pieces, List.map_append, written, List.map_cons,
    Obstacle.piece,
    Substitution.encodeUnder_of_not_writes _ obstacle.allowed_front obstacle.not_allowed]
  exact ⟨_, rfl⟩

/-! ## Pieces without a rule -/

theorem isEmpty_flatMap_form (text : Text) : (text.flatMap Scalar.form).isEmpty = text.isEmpty := by
  cases text with
  | nil => rfl
  | cons scalar text =>
      have nonempty : scalar.form ≠ [] := by
        unfold Scalar.form
        split
        · simp
        · exact String.utf8EncodeChar_ne_nil
      simp [nonempty]

theorem filter_map_form (pieces : List Text) :
    (pieces.map (·.flatMap Scalar.form)).filter (!·.isEmpty) =
      (pieces.filter (!·.isEmpty)).map (·.flatMap Scalar.form) := by
  rw [List.filter_map]
  congr 1
  apply List.filter_congr
  intro piece _
  rw [Function.comp_apply, isEmpty_flatMap_form]

theorem encodeEach_of_encodable (encodable : ∀ piece ∈ pieces, ∀ scalar ∈ piece, scalar.Encodable) :
    encodeEach pieces =
      ⟨(pieces.filter (!·.isEmpty)).map (·.flatMap Scalar.form), none⟩ := by
  rw [← filter_map_form]
  apply Run.collect_of_ok
  intro piece member
  rw [encode_eq_flatMap_form (encodable piece member)]

theorem encodeEach_of_not_encodable (obstacle : Obstacle Scalar.Encodable) :
    encodeEach obstacle.pieces =
      ⟨(obstacle.earlier.filter (!·.isEmpty)).map (·.flatMap Scalar.form),
        some ⟨obstacle.scalar, obstacle.front.length⟩⟩ := by
  rw [← filter_map_form]
  apply Run.collect_of_error
  · intro piece member
    rw [encode_eq_flatMap_form (obstacle.allowed_earlier piece member)]
  · exact encode_append_cons obstacle.allowed_front obstacle.not_allowed _

/-! ## Pieces and the whole -/

theorem forall_mem_pieces {Allowed : Scalar → Prop}
    (allowed : ∀ scalar ∈ pieces.flatten, Allowed scalar) :
    ∀ piece ∈ pieces, ∀ scalar ∈ piece, Allowed scalar := by
  intro piece member scalar inside
  exact allowed scalar (List.mem_flatten_of_mem member inside)

/-- A rule is asked about the same scalars in the pieces as in the whole. -/
theorem flatMap_asked (written : ∀ piece ∈ pieces, ∀ scalar ∈ piece, rule.Writes scalar) :
    (pieces.flatMap fun piece => (encodeInRounds (.rule rule) piece).asked.map (·.scalar)) =
      pieces.flatten.filter fun scalar => ¬ scalar.Encodable := by
  induction pieces with
  | nil => rfl
  | cons piece pieces ih =>
      rw [List.forall_mem_cons] at written
      rw [List.flatMap_cons, ih written.2, Substitution.encodeInRounds_of_writes written.1,
        Substitution.map_scalar_unencodables, List.flatten_cons, List.filter_append]

/-- Under a rule, the pieces of a text are encoded to the pieces of what the whole is encoded to,
whichever of them is said to be the last, and the rule is asked about each scalar without a byte
form once, in order. If the rule does not write all scalars of the text, all pieces are encoded that
are in front of the first such scalar's own, which then fails as the whole does, but with the place
of the scalar in the piece. Without a rule it is the same, and empty pieces bring nothing. -/
theorem pieces_encode_whole (rule : Rule) (pieces : List Text) (final : Nat → Bool) :
    (∀ policy, encodePieces policy (pieces ++ [[]]) = encodePieces policy pieces) ∧
    ((∀ scalar ∈ pieces.flatten, rule.Writes scalar) →
      encodeInRounds (.rule rule) pieces.flatten =
        ⟨.ok (rule.spell pieces.flatten), .rule rule, unencodables 0 pieces.flatten⟩ ∧
      encodeUnder (.rule rule) pieces.flatten = (.ok (rule.spell pieces.flatten), .rule rule) ∧
      Encoder.runPieces ⟨.rule rule⟩ final pieces =
        (pieces.map fun piece => some (.ok (rule.spell piece))) ∧
      (pieces.map rule.spell).flatten = rule.spell pieces.flatten ∧
      (∃ parts, encodePieces (.rule rule) pieces = ⟨parts, none⟩ ∧
        parts = (pieces.map rule.spell).filter (!·.isEmpty) ∧
        parts.flatten = rule.spell pieces.flatten) ∧
      (pieces.flatMap fun piece => (encodeInRounds (.rule rule) piece).asked.map (·.scalar)) =
        (unencodables 0 pieces.flatten).map (·.scalar)) ∧
    ((∃ scalar ∈ pieces.flatten, ¬ rule.Writes scalar) →
      ∃ obstacle : Obstacle rule.Writes, obstacle.pieces = pieces ∧
        encodeInRounds (.rule rule) pieces.flatten =
          ⟨.error (.failed (rule.failureAt obstacle.scalar obstacle.before.length)), .rule rule,
            unencodables 0 (obstacle.before ++ [obstacle.scalar])⟩ ∧
        encodeUnder (.rule rule) pieces.flatten =
          (.error (rule.failureAt obstacle.scalar obstacle.before.length), .rule rule) ∧
        (∃ later, Encoder.runPieces ⟨.rule rule⟩ final pieces =
          (obstacle.earlier.map fun piece => some (.ok (rule.spell piece))) ++
            some (.error (rule.failureAt obstacle.scalar obstacle.front.length)) :: later) ∧
        encodePieces (.rule rule) pieces =
          ⟨(obstacle.earlier.map rule.spell).filter (!·.isEmpty),
            some (rule.failureAt obstacle.scalar obstacle.front.length)⟩) ∧
    ((∀ scalar ∈ pieces.flatten, scalar.Encodable) →
      encodeTwoPass pieces.flatten = .ok (pieces.flatten.flatMap Scalar.form) ∧
      ∃ parts, encodeEach pieces = ⟨parts, none⟩ ∧
        parts = (pieces.filter (!·.isEmpty)).map (·.flatMap Scalar.form) ∧
        parts.flatten = pieces.flatten.flatMap Scalar.form) ∧
    ((∃ scalar ∈ pieces.flatten, ¬ scalar.Encodable) →
      ∃ obstacle : Obstacle Scalar.Encodable, obstacle.pieces = pieces ∧
        encodeTwoPass pieces.flatten =
          .error (.unencodable ⟨obstacle.scalar, obstacle.before.length⟩) ∧
        encodeEach pieces =
          ⟨(obstacle.earlier.filter (!·.isEmpty)).map (·.flatMap Scalar.form),
            some ⟨obstacle.scalar, obstacle.front.length⟩⟩) := by
  refine ⟨fun policy => encodePieces_append_nil policy pieces, ?_, ?_, ?_, ?_⟩
  · intro written
    have each := forall_mem_pieces written
    refine ⟨Substitution.encodeInRounds_of_writes written,
      Substitution.encodeUnder_of_writes written, runPieces_of_writes each final,
      (rule.spell_flatten pieces).symm, ⟨_, encodePieces_of_writes each, rfl, ?_⟩, ?_⟩
    · rw [List.flatten_filter_not_isEmpty, rule.spell_flatten]
    · rw [flatMap_asked each, Substitution.map_scalar_unencodables]
  · intro fails
    obtain ⟨obstacle, rfl⟩ := exists_obstacle fails
    have allowed := obstacle.allowed_before
    refine ⟨obstacle, rfl, ?_, ?_, runPieces_of_not_writes obstacle final,
      encodePieces_of_not_writes obstacle⟩
    · rw [obstacle.flatten_pieces]
      exact Substitution.encodeInRounds_of_not_writes _ allowed obstacle.not_allowed
    · rw [obstacle.flatten_pieces]
      exact Substitution.encodeUnder_of_not_writes _ allowed obstacle.not_allowed
  · intro encodable
    have each := forall_mem_pieces encodable
    refine ⟨encodeTwoPass_of_encode (encode_eq_flatMap_form encodable), _,
      encodeEach_of_encodable each, rfl, ?_⟩
    rw [← filter_map_form, List.flatten_filter_not_isEmpty, ← List.flatMap_def,
      List.flatten_eq_flatMap, List.flatMap_assoc]
    rfl
  · intro fails
    obtain ⟨obstacle, rfl⟩ := exists_obstacle fails
    refine ⟨obstacle, rfl, ?_, encodeEach_of_not_encodable obstacle⟩
    rw [obstacle.flatten_pieces, encodeTwoPass_eq,
      encode_append_cons obstacle.allowed_before obstacle.not_allowed]
    rfl

/-- A cut between two surrogates, of which the second follows an empty piece, under a rule that
writes both, under one that writes neither, and without a rule. -/
theorem pieces_encode_whole_between_surrogates :
    let replace := Rule.ofName "replace"
    let strict := Rule.ofName "strict"
    let written : List Text := [[⟨0xE9⟩], [], [⟨0xDC82⟩]]
    let pieces : List Text := written ++ [[⟨0x61⟩, ⟨0xD83D⟩], [], [⟨0xDE00⟩]]
    (∀ scalar ∈ pieces.flatten, replace.Writes scalar) ∧
      encodeUnder (.rule replace) pieces.flatten =
        (.ok (replace.spell pieces.flatten), .rule replace) ∧
      (∃ scalar ∈ pieces.flatten, ¬ strict.Writes scalar) ∧
      (∃ obstacle : Obstacle strict.Writes, obstacle.pieces = pieces ∧
        encodeUnder (.rule strict) pieces.flatten =
          (.error (strict.failureAt obstacle.scalar obstacle.before.length), .rule strict)) ∧
      (∀ scalar ∈ written.flatten, scalar.Encodable) ∧
      encodeTwoPass written.flatten = .ok (written.flatten.flatMap Scalar.form) ∧
      (∃ scalar ∈ pieces.flatten, ¬ scalar.Encodable) ∧
      ∃ obstacle : Obstacle Scalar.Encodable, obstacle.pieces = pieces ∧
        encodeTwoPass pieces.flatten =
          .error (.unencodable ⟨obstacle.scalar, obstacle.before.length⟩) := by
  intro replace strict written pieces
  have replaced : ∀ scalar ∈ pieces.flatten, replace.Writes scalar := by decide
  have refused : ∃ scalar ∈ pieces.flatten, ¬ strict.Writes scalar := by decide
  have encodable : ∀ scalar ∈ written.flatten, scalar.Encodable := by decide
  have unencodable : ∃ scalar ∈ pieces.flatten, ¬ scalar.Encodable := by decide
  obtain ⟨obstacle, partsAre, -, fails, -⟩ :=
    (pieces_encode_whole strict pieces fun _ => false).2.2.1 refused
  obtain ⟨other, otherParts, otherFails, -⟩ :=
    (pieces_encode_whole strict pieces fun _ => false).2.2.2.2 unencodable
  exact ⟨replaced, ((pieces_encode_whole replace pieces fun _ => true).2.1 replaced).2.1, refused,
    ⟨obstacle, partsAre, fails⟩, encodable,
    ((pieces_encode_whole replace written fun _ => true).2.2.2.1 encodable).1, unencodable,
    ⟨other, otherParts, otherFails⟩⟩

end LosslessUtf8.Piecewise
