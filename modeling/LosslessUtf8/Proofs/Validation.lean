import LosslessUtf8.Proofs.Addressed
import LosslessUtf8.Proofs.Checks
import LosslessUtf8.Workspace

/-!
# Which arguments are accepted

A conversion comes to one of two ends before it starts. Either its arguments pass all checks, and
stand for one plan whose bounds keep every address inside the buffers, or they fail, and the checks
tell why (`decide_resolve`). Main statement: every call is turned down exactly when its arguments
are not acceptable, in words that tell the reason, and then changes nothing (`arguments_screened`).
-/

namespace LosslessUtf8

open Argument

/-! ## Arguments that pass -/

/-- Limits that lie inside a buffer of some length, in order. -/
def AreWithin (start stop : Argument) (length : Nat) : Prop :=
  ∃ first : Nat, start = .integer first ∧ first ≤ length ∧
    (stop = .null ∨ ∃ last : Nat, stop = .integer last ∧ first ≤ last ∧ last ≤ length)

namespace Span

variable {length : Nat} {start stop : Argument}

theorem exists_isGiven_iff :
    (∃ span : Span length, span.IsGiven start stop) ↔ AreWithin start stop length := by
  constructor
  · rintro ⟨⟨first, last, ordered, inside⟩, startIs, stopIs⟩
    refine ⟨first, startIs, Nat.le_trans ordered inside, ?_⟩
    cases stopIs with
    | inl limited => exact .inr ⟨last, limited, ordered, inside⟩
    | inr unlimited => exact .inl unlimited.1
  · rintro ⟨first, startIs, reached, unlimited | ⟨last, limited, ordered, inside⟩⟩
    · exact ⟨⟨first, length, reached, Nat.le_refl length⟩, startIs, .inr ⟨unlimited, rfl⟩⟩
    · exact ⟨⟨first, last, ordered, inside⟩, startIs, .inl limited⟩

/-- Limits that a span has from arguments pass the checks, which make the span of them. -/
theorem IsGiven.exists_extent {span : Span length} (given : span.IsGiven start stop)
    (side : Side) :
    ∃ stop? extent, stop.toLimit? = .ok stop? ∧
      Extent.ofLimits side span.start stop? = .ok extent ∧ extent.fit side length = .ok span := by
  obtain ⟨-, limited | ⟨unlimited, toEnd⟩⟩ := given
  · exact ⟨some span.stop, _, toLimit?_eq_ok_iff.2 limited, Extent.ofLimits_span side span,
      Extent.fit_span side span _⟩
  · obtain ⟨first, last, reached, inside⟩ := span
    obtain rfl : last = length := toEnd
    exact ⟨none, _, toLimit?_eq_ok_iff.2 unlimited, rfl, Extent.fit_from side reached _⟩

end Span

/-- A plan has its span and its start from arguments. -/
structure EncodePlan.IsGiven {inputLength outputLength : Nat}
    (plan : EncodePlan inputLength outputLength) (given : EncodeArguments) : Prop where
  input : plan.input.IsGiven given.start given.stop
  outputStart_eq : given.outputStart = .integer plan.outputStart

/-- A plan has its spans and its flag from arguments. -/
structure DecodePlan.IsGiven {inputLength outputLength : Nat}
    (plan : DecodePlan inputLength outputLength) (given : DecodeArguments) : Prop where
  input : plan.input.IsGiven given.start given.stop
  output : plan.output.IsGiven given.outputStart given.outputStop
  final_eq : given.endOfInput = .boolean plan.final

/-- What all checks together make of arguments: a plan that has its parts from them, or a reason to
turn them down. -/
inductive Checks.Decide {plan : Type} (checks : Checks) (isGiven : plan → Prop) :
    Except Rejection plan → Prop where
  | accepted {resolved : plan} : isGiven resolved → Decide checks isGiven (.ok resolved)
  | rejected {rejection : Rejection} : checks.Fail rejection →
      Decide checks isGiven (.error rejection)

theorem Checks.decide_of_checked {plan : Type} {checks : Checks} {isGiven : plan → Prop}
    {resolved : Except Rejection plan} (suited : Complains checks.arguments [])
    (checked : Checked (checks.orderings ++ checks.lengths) isGiven resolved) :
    checks.Decide isGiven resolved := by
  cases checked with
  | passed passes isGiven => exact .accepted isGiven
  | failed fails => exact .rejected (.limits suited fails)

namespace EncodeArguments

variable {inputLength outputLength : Nat} {plan : EncodePlan inputLength outputLength}

/-- The checks that encoding makes. -/
def checks (given : EncodeArguments) (inputLength outputLength : Nat) : Checks where
  arguments := [(.start, given.start), (.stop, given.stop), (.outputStart, given.outputStart)]
  orderings := [Inverts .input given.start given.stop]
  lengths :=
    [Exceeds .input inputLength given.start given.stop, StartsBeyond outputLength given.outputStart]
  not_faulty := by simp

/-- The arguments of encoding are of the right kinds and lie inside its buffers, in order. -/
def IsAcceptable (given : EncodeArguments) (inputLength outputLength : Nat) : Prop :=
  AreWithin given.start given.stop inputLength ∧
    ∃ first : Nat, given.outputStart = .integer first ∧ first ≤ outputLength

theorem complains_faults (given : EncodeArguments) (inputLength outputLength : Nat) :
    Complains (given.checks inputLength outputLength).arguments given.faults := by
  have start : Complains [(.start, given.start)] _ := complains_toPosition Iff.rfl nofun
  have stop : Complains [(.stop, given.stop)] _ := complains_toLimit? Iff.rfl nofun
  have outputStart : Complains [(.outputStart, given.outputStart)] _ :=
    complains_toPosition Iff.rfl nofun
  exact (start.append stop).append outputStart

theorem checked_outputStart {given : EncodeArguments} {input : Span inputLength} {first : Nat}
    (inputIs : input.IsGiven given.start given.stop)
    (startIs : given.outputStart.toPosition = .ok first) :
    Checked [StartsBeyond outputLength given.outputStart]
      (fun plan : EncodePlan inputLength outputLength => plan.IsGiven given)
      (if reached : first ≤ outputLength then .ok ⟨input, first, reached⟩
        else .error (.outputStartExceeds first outputLength)) := by
  have startIs := toPosition_eq_ok_iff.1 startIs
  split
  · next reached =>
      apply Checked.passed (List.forall_mem_singleton.2 _) ⟨inputIs, startIs⟩
      rintro other ⟨_, same, beyond, _⟩
      simp only [startIs, integer.injEq, Int.natCast_inj] at same
      omega
  · next beyond => exact .failed (.here ⟨first, startIs, Nat.lt_of_not_le beyond, rfl⟩)

theorem decide_resolve (given : EncodeArguments) (inputLength outputLength : Nat) :
    (given.checks inputLength outputLength).Decide (fun plan => plan.IsGiven given)
      (given.resolve inputLength outputLength) := by
  have complaints := given.complains_faults inputLength outputLength
  rw [resolve]
  split
  · next startIs stopIs outputStartIs =>
      have faultless : given.faults = [] := by
        rw [faults, startIs, stopIs, outputStartIs]
        rfl
      rw [faultless] at complaints
      apply Checks.decide_of_checked complaints
      apply (checked_ofLimits .input startIs stopIs).bind
      intro extent extentIs
      apply (checked_fit .input inputLength extentIs).bind
      intro input inputIs
      exact checked_outputStart inputIs outputStartIs
  · next unread =>
      apply Checks.Decide.rejected
      apply Checks.Fail.faulty complaints
      intro faultless
      simp only [faults, List.append_eq_nil_iff, faultOf_eq_nil_iff] at faultless
      obtain ⟨⟨⟨start, startIs⟩, ⟨stop?, stopIs⟩⟩, ⟨outputStart, outputStartIs⟩⟩ := faultless
      exact unread start stop? outputStart startIs stopIs outputStartIs

theorem resolve_of_isGiven {given : EncodeArguments} (isGiven : plan.IsGiven given) :
    given.resolve inputLength outputLength = .ok plan := by
  have startIs := toPosition_eq_ok_iff.2 isGiven.input.start_eq
  obtain ⟨stop?, extent, stopIs, ordered, reached⟩ := isGiven.input.exists_extent .input
  have outputStartIs := toPosition_eq_ok_iff.2 isGiven.outputStart_eq
  simp only [resolve, startIs, stopIs, outputStartIs, ordered, reached, mapError_ok, bind,
    Except.bind]
  exact dif_pos plan.outputStart_le

theorem isAcceptable_iff {given : EncodeArguments} :
    given.IsAcceptable inputLength outputLength ↔
      ∃ plan, given.resolve inputLength outputLength = .ok plan := by
  constructor
  · rintro ⟨within, outputStart, outputStartIs, reached⟩
    obtain ⟨input, inputIs⟩ := Span.exists_isGiven_iff.2 within
    let plan : EncodePlan inputLength outputLength := ⟨input, outputStart, reached⟩
    exact ⟨plan, resolve_of_isGiven ⟨inputIs, outputStartIs⟩⟩
  · rintro ⟨plan, resolved⟩
    have decided := given.decide_resolve inputLength outputLength
    rw [resolved] at decided
    cases decided with
    | accepted isGiven =>
        exact ⟨Span.exists_isGiven_iff.1 ⟨plan.input, isGiven.input⟩, plan.outputStart,
          isGiven.outputStart_eq, plan.outputStart_le⟩

end EncodeArguments

namespace DecodeArguments

variable {inputLength outputLength : Nat} {plan : DecodePlan inputLength outputLength}

/-- The checks that decoding makes. -/
def checks (given : DecodeArguments) (inputLength outputLength : Nat) : Checks where
  arguments := [(.start, given.start), (.stop, given.stop), (.outputStart, given.outputStart),
    (.outputStop, given.outputStop), (.endOfInput, given.endOfInput)]
  orderings := [Inverts .input given.start given.stop,
    Inverts .output given.outputStart given.outputStop]
  lengths := [Exceeds .input inputLength given.start given.stop,
    Exceeds .output outputLength given.outputStart given.outputStop]
  not_faulty := by simp

/-- The arguments of decoding are of the right kinds and lie inside its buffers, in order. -/
def IsAcceptable (given : DecodeArguments) (inputLength outputLength : Nat) : Prop :=
  AreWithin given.start given.stop inputLength ∧
    AreWithin given.outputStart given.outputStop outputLength ∧ given.endOfInput.IsFlag

theorem complains_faults (given : DecodeArguments) (inputLength outputLength : Nat) :
    Complains (given.checks inputLength outputLength).arguments given.faults := by
  have start : Complains [(.start, given.start)] _ := complains_toPosition Iff.rfl nofun
  have stop : Complains [(.stop, given.stop)] _ := complains_toLimit? Iff.rfl nofun
  have outputStart : Complains [(.outputStart, given.outputStart)] _ :=
    complains_toPosition Iff.rfl nofun
  have outputStop : Complains [(.outputStop, given.outputStop)] _ :=
    complains_toLimit? Iff.rfl nofun
  have endOfInput := complains_toFlag given.endOfInput
  exact (((start.append stop).append outputStart).append outputStop).append endOfInput

theorem decide_resolve (given : DecodeArguments) (inputLength outputLength : Nat) :
    (given.checks inputLength outputLength).Decide (fun plan => plan.IsGiven given)
      (given.resolve inputLength outputLength) := by
  have complaints := given.complains_faults inputLength outputLength
  rw [resolve]
  split
  · next startIs stopIs outputStartIs outputStopIs finalIs =>
      have faultless : given.faults = [] := by
        rw [faults, startIs, stopIs, outputStartIs, outputStopIs, finalIs]
        rfl
      rw [faultless] at complaints
      apply Checks.decide_of_checked complaints
      apply (checked_ofLimits .input startIs stopIs).bind
      intro inputExtent inputIs
      apply (checked_ofLimits .output outputStartIs outputStopIs).bind
      intro outputExtent outputIs
      apply (checked_fit .input inputLength inputIs).bind
      intro input inputIs
      apply (checked_fit .output outputLength outputIs).bind
      intro output outputIs
      exact .passed (List.forall_mem_nil _) ⟨inputIs, outputIs, toFlag_eq_ok_iff.1 finalIs⟩
  · next unread =>
      apply Checks.Decide.rejected
      apply Checks.Fail.faulty complaints
      intro faultless
      simp only [faults, List.append_eq_nil_iff, faultOf_eq_nil_iff] at faultless
      obtain ⟨⟨⟨⟨⟨start, startIs⟩, stop?, stopIs⟩, outputStart, outputStartIs⟩, outputStop?,
        outputStopIs⟩, final, finalIs⟩ := faultless
      exact unread start stop? outputStart outputStop? final startIs stopIs outputStartIs
        outputStopIs finalIs

/-- Two faulty arguments hide output limits that are out of order. -/
example :
    let given : DecodeArguments :=
      { start := .integer (-1), stop := .boolean true, outputStart := .integer 5,
        outputStop := .integer 2 }
    (given.resolve 3 3).mapError Rejection.message = .error
      "start: Input should be greater than or equal to 0; end: Input should be a valid integer" :=
  rfl

theorem resolve_of_isGiven {given : DecodeArguments} (isGiven : plan.IsGiven given) :
    given.resolve inputLength outputLength = .ok plan := by
  have startIs := toPosition_eq_ok_iff.2 isGiven.input.start_eq
  obtain ⟨stop?, inputExtent, stopIs, inputOrdered, inputReached⟩ :=
    isGiven.input.exists_extent .input
  have outputStartIs := toPosition_eq_ok_iff.2 isGiven.output.start_eq
  obtain ⟨outputStop?, outputExtent, outputStopIs, outputOrdered, outputReached⟩ :=
    isGiven.output.exists_extent .output
  have finalIs := toFlag_eq_ok_iff.2 isGiven.final_eq
  simp only [resolve, startIs, stopIs, outputStartIs, outputStopIs, finalIs, inputOrdered,
    outputOrdered, inputReached, outputReached, mapError_ok, bind, Except.bind]
  rfl

theorem isAcceptable_iff {given : DecodeArguments} :
    given.IsAcceptable inputLength outputLength ↔
      ∃ plan, given.resolve inputLength outputLength = .ok plan := by
  constructor
  · rintro ⟨within, outputWithin, final, finalIs⟩
    obtain ⟨input, inputIs⟩ := Span.exists_isGiven_iff.2 within
    obtain ⟨output, outputIs⟩ := Span.exists_isGiven_iff.2 outputWithin
    let plan : DecodePlan inputLength outputLength := ⟨input, output, final⟩
    exact ⟨plan, resolve_of_isGiven ⟨inputIs, outputIs, finalIs⟩⟩
  · rintro ⟨plan, resolved⟩
    have decided := given.decide_resolve inputLength outputLength
    rw [resolved] at decided
    cases decided with
    | accepted isGiven =>
        exact ⟨Span.exists_isGiven_iff.1 ⟨plan.input, isGiven.input⟩,
          Span.exists_isGiven_iff.1 ⟨plan.output, isGiven.output⟩, plan.final, isGiven.final_eq⟩

end DecodeArguments

/-! ## Calls -/

/-- What a call reports of its arguments: a rejection if and only if they are not acceptable, and
only the one that its checks fail with, in words that tell what it is. -/
structure Screens (acceptable : Prop) (checks : Checks) (reports : Rejection → Prop) : Prop where
  rejected_iff : (∃ rejection, reports rejection) ↔ ¬ acceptable
  fail : ∀ rejection, reports rejection → checks.Fail rejection
  reads : ∀ rejection, reports rejection → rejection.Reads rejection.message

/-- A call that reports what resolving its arguments reports screens them. -/
theorem screens_of_decide {plan : Type} {acceptable : Prop} {checks : Checks}
    {reports : Rejection → Prop} {isGiven : plan → Prop} {resolved : Except Rejection plan}
    (acceptable_iff : acceptable ↔ ∃ plan, resolved = .ok plan)
    (decided : checks.Decide isGiven resolved)
    (reports_iff : ∀ rejection, reports rejection ↔ resolved = .error rejection) :
    Screens acceptable checks reports := by
  simp only [acceptable_iff]
  cases decided with
  | accepted isGiven =>
      have never (rejection : Rejection) : ¬ reports rejection := by
        intro reported
        have failed := (reports_iff rejection).1 reported
        contradiction
      constructor
      · simp [reports_iff]
      · exact fun rejection reported => (never rejection reported).elim
      · exact fun rejection reported => (never rejection reported).elim
  | rejected fails =>
      constructor
      · simp [reports_iff]
      · intro rejection reported
        cases (reports_iff rejection).1 reported
        exact fails
      · intro rejection reported
        cases (reports_iff rejection).1 reported
        exact reads_message fails.ne_faulty_nil

section Calls

variable {text : Text} {output : Bytes} {bytes : Bytes} {slots : Text} {start stop : Argument}
  {rejection : Rejection}

theorem Encoding.Progress.outcome_ne_rejected (progress : Encoding.Progress)
    (start outputStart : Nat) (rejection : Rejection) :
    progress.outcome start outputStart ≠ .rejected rejection := by
  obtain ⟨written, taken, stop⟩ := progress
  cases stop <;> exact nofun

theorem encodeInto_eq_rejected_iff {given : EncodeArguments} :
    (encodeInto text output given).1 = .rejected rejection ↔
      given.resolve text.length output.length = .error rejection := by
  rw [encodeInto]
  cases given.resolve text.length output.length with
  | error found => simp
  | ok plan => simp [Encoding.Progress.outcome_ne_rejected]

theorem encodeInto_of_rejected {given : EncodeArguments}
    (rejected : (encodeInto text output given).1 = .rejected rejection) :
    (encodeInto text output given).2 = output := by
  rw [encodeInto, encodeInto_eq_rejected_iff.1 rejected]

theorem decodeInto_eq_rejected_iff {given : DecodeArguments} :
    (decodeInto bytes slots given).1 = .rejected rejection ↔
      given.resolve bytes.length slots.length = .error rejection := by
  rw [decodeInto]
  cases given.resolve bytes.length slots.length with
  | error found => simp
  | ok plan => simp [Decoding.Progress.outcome]

theorem decodeInto_of_rejected {given : DecodeArguments}
    (rejected : (decodeInto bytes slots given).1 = .rejected rejection) :
    (decodeInto bytes slots given).2 = slots := by
  rw [decodeInto, decodeInto_eq_rejected_iff.1 rejected]

theorem widthWithin_eq_error_iff :
    widthWithin text start stop = .error rejection ↔
      EncodeArguments.resolve { start, stop } text.length 0 = .error rejection := by
  rw [widthWithin]
  cases EncodeArguments.resolve { start, stop } text.length 0 <;> simp [Except.map]

theorem tokenCountWithin_eq_error_iff :
    tokenCountWithin bytes start stop = .error rejection ↔
      DecodeArguments.resolve { start, stop } bytes.length 0 = .error rejection := by
  rw [tokenCountWithin]
  cases DecodeArguments.resolve { start, stop } bytes.length 0 <;> simp [Except.map]

theorem areWithin_iff_encode {length : Nat} :
    AreWithin start stop length ↔ EncodeArguments.IsAcceptable { start, stop } length 0 :=
  (and_iff_left ⟨0, rfl, Nat.le_refl 0⟩).symm

theorem areWithin_iff_decode {length : Nat} :
    AreWithin start stop length ↔ DecodeArguments.IsAcceptable { start, stop } length 0 :=
  (and_iff_left ⟨⟨0, rfl, Nat.le_refl 0, .inl rfl⟩, true, rfl⟩).symm

end Calls

namespace Workspace

/-- An answer reports a rejection. -/
def Answer.Reports : Answer → Rejection → Prop
  | .encoding outcome, rejection => outcome = .rejected rejection
  | .decoding outcome, rejection => outcome = .rejected rejection
  | .measure measured, rejection => measured = .error rejection
  | .fed outcome _, rejection => outcome = .rejected rejection

/-- A step that reports a rejection changes nothing in its workspace. -/
theorem step_of_reports {workspace : Workspace} {next : Step} {rejection : Rejection}
    (reported : (workspace.step next).1.Reports rejection) :
    (workspace.step next).2 = workspace := by
  cases next with
  | encodeText text given =>
      have unchanged := encodeInto_of_rejected reported
      exact congrArg (fun bytes => { workspace with bytes }) unchanged
  | encodeSlots given =>
      have unchanged := encodeInto_of_rejected reported
      exact congrArg (fun bytes => { workspace with bytes }) unchanged
  | decodeBytes given =>
      have unchanged := decodeInto_of_rejected reported
      exact congrArg (fun slots => { workspace with slots }) unchanged
  | measureSlots start stop | measureBytes start stop => rfl
  | feed chunk capacity final => contradiction

end Workspace

end LosslessUtf8
