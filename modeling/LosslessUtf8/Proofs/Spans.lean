import LosslessUtf8.Transfer

/-!
# Parts of buffers

What arguments that are left out stand for: all of the input, and all of the output from its start.
Arguments that are given stand for any plan there is (`DecodePlan.resolve_arguments`). Beside that,
what writing over a buffer does to the part written and to the rest.
-/

namespace LosslessUtf8

section Overwriting

variable {α : Type} {buffer items front back : List α} {position : Nat}

theorem take_drop_overwrite (inside : position ≤ buffer.length) :
    ((overwrite buffer position items).drop position).take items.length = items := by
  have front : (buffer.take position).length = position := List.length_take_of_le inside
  rw [overwrite, List.append_assoc, List.drop_append_of_le_length (Nat.le_of_eq front.symm),
    List.drop_eq_nil_of_le (Nat.le_of_eq front), List.nil_append, List.take_left]

theorem overwrite_self (buffer : List α) (position count : Nat)
    (reached : position + count ≤ buffer.length) :
    overwrite buffer position ((buffer.drop position).take count) = buffer := by
  have size : ((buffer.drop position).take count).length = count := by
    rw [List.length_take, List.length_drop]
    omega
  rw [overwrite, size, List.append_assoc, ← List.drop_drop, List.take_append_drop,
    List.take_append_drop]

theorem overwrite_replicate (filler : α) (items : List α) :
    overwrite (List.replicate items.length filler) 0 items = items := by
  simp [overwrite]

theorem overwrite_set (item : α) (items : List α) (inside : position < buffer.length) :
    overwrite (buffer.set position item) (position + 1) items =
      overwrite buffer position (item :: items) := by
  have taken : (buffer.set position item).take (position + 1) = buffer.take position ++ [item] := by
    rw [List.take_add_one, List.take_set_of_le (Nat.le_refl position),
      List.getElem?_set_self inside]
    rfl
  have behind : position < position + 1 + items.length := by omega
  rw [overwrite, overwrite, taken, List.drop_set_of_lt behind, List.length_cons,
    Nat.add_right_comm position 1, Nat.add_assoc position, List.append_assoc, List.append_assoc,
    List.append_assoc]
  rfl

/-- Items written side by side are written at once. -/
theorem overwrite_overwrite (fits : position + front.length ≤ buffer.length) :
    overwrite (overwrite buffer position front) (position + front.length) back =
      overwrite buffer position (front ++ back) := by
  have size : (buffer.take position ++ front).length = position + front.length := by
    rw [List.length_append, List.length_take]
    omega
  have taken : (overwrite buffer position front).take (position + front.length) =
      buffer.take position ++ front := by
    rw [overwrite, ← size, List.take_left]
  have dropped : (overwrite buffer position front).drop (position + front.length + back.length) =
      buffer.drop (position + (front ++ back).length) := by
    rw [overwrite, ← List.drop_drop, ← size, List.drop_left, size, List.drop_drop,
      List.length_append, Nat.add_assoc]
  rw [overwrite, taken, dropped, List.append_assoc (buffer.take position)]
  rfl

/-- A buffer before and after items were written at a position: they stand there, and no other place
has changed. -/
structure WrittenAt (before : List α) (position : Nat) (items after : List α) : Prop where
  length_eq : after.length = before.length
  extract_eq : after.extract position (position + items.length) = items
  getElem?_eq : ∀ index, index < position ∨ position + items.length ≤ index →
    after[index]? = before[index]?

theorem writtenAt_overwrite (fits : position + items.length ≤ buffer.length) :
    WrittenAt buffer position items (overwrite buffer position items) where
  length_eq := length_overwrite fits
  extract_eq := by
    rw [List.extract, Nat.add_sub_cancel_left]
    exact take_drop_overwrite (Nat.le_trans (Nat.le_add_right _ _) fits)
  getElem?_eq := by
    have front : (buffer.take position).length = position := List.length_take_of_le (by omega)
    intro index apart
    rw [overwrite, List.append_assoc]
    cases apart with
    | inl before =>
        rw [List.getElem?_append_left (front.symm ▸ before), List.getElem?_take_of_lt before]
    | inr behind =>
        rw [List.getElem?_append_right (by omega), front, List.getElem?_append_right (by omega),
          List.getElem?_drop]
        congr 1
        omega

end Overwriting

/-- All of a buffer. -/
def Span.whole (length : Nat) : Span length :=
  ⟨0, length, Nat.zero_le length, Nat.le_refl length⟩

@[simp] theorem Span.size_whole (length : Nat) : (Span.whole length).size = length := rfl

@[simp] theorem Span.start_whole (length : Nat) : (Span.whole length).start = 0 := rfl

@[simp] theorem Span.slice_whole {α : Type} (buffer : List α) :
    (Span.whole buffer.length).slice buffer = buffer :=
  List.take_length

theorem Span.slice_from {α : Type} {buffer : List α} {position : Nat}
    (reached : position ≤ buffer.length) :
    Span.slice ⟨position, buffer.length, reached, Nat.le_refl _⟩ buffer = buffer.drop position := by
  rw [Span.slice, Span.size, ← List.length_drop]
  exact List.take_length

theorem Span.take_slice {α : Type} {buffer : List α} (span : Span buffer.length) {count : Nat}
    (inside : count ≤ span.size) :
    (span.slice buffer).take count = (buffer.drop span.start).take count := by
  rw [Span.slice, List.take_take, Nat.min_eq_left inside]

theorem mapError_ok {fault other α : Type} (rename : fault → other) (value : α) :
    (Except.ok value).mapError rename = .ok value := rfl

theorem mapError_error {fault other α : Type} (rename : fault → other) (value : fault) :
    (Except.error value : Except fault α).mapError rename = .error (rename value) := rfl

theorem Extent.fit_from (side : Side) {start length : Nat} (reached : start ≤ length)
    (ordered : ∀ stop ∈ (none : Option Nat), start ≤ stop) :
    Extent.fit side length ⟨start, none, ordered⟩ =
      .ok ⟨start, length, reached, Nat.le_refl length⟩ := by
  rw [Extent.fit]
  exact dif_pos reached

theorem Extent.fit_of_lt (side : Side) {start length : Nat} (beyond : length < start)
    (ordered : ∀ stop ∈ (none : Option Nat), start ≤ stop) :
    Extent.fit side length ⟨start, none, ordered⟩ = .error ⟨side, start, length, length⟩ := by
  rw [Extent.fit]
  exact dif_neg (Nat.not_le_of_lt beyond)

theorem Extent.fit_limit_of_lt (side : Side) {start stop length : Nat} (beyond : length < stop)
    (ordered : ∀ limit ∈ some stop, start ≤ limit) :
    Extent.fit side length ⟨start, some stop, ordered⟩ = .error ⟨side, start, stop, length⟩ :=
  dif_neg (Nat.not_le_of_lt beyond)

theorem Extent.fit_unlimited (side : Side) (length : Nat)
    (ordered : ∀ stop ∈ (none : Option Nat), 0 ≤ stop) :
    Extent.fit side length ⟨0, none, ordered⟩ = .ok (.whole length) :=
  Extent.fit_from side (Nat.zero_le length) ordered

theorem Extent.ofLimits_span {length : Nat} (side : Side) (span : Span length) :
    Extent.ofLimits side span.start (some span.stop) =
      .ok ⟨span.start, some span.stop, by simpa using span.start_le_stop⟩ :=
  dif_pos span.start_le_stop

theorem Extent.fit_span {length : Nat} (side : Side) (span : Span length)
    (ordered : ∀ stop ∈ some span.stop, span.start ≤ stop) :
    Extent.fit side length ⟨span.start, some span.stop, ordered⟩ = .ok span :=
  dif_pos span.stop_le_length

theorem EncodeArguments.resolve_outputStart {inputLength outputLength outputStart : Nat}
    (reached : outputStart ≤ outputLength) :
    EncodeArguments.resolve { outputStart := .integer outputStart } inputLength outputLength =
      .ok ⟨.whole inputLength, outputStart, reached⟩ := by
  have position : Argument.toPosition (.integer outputStart) = .ok outputStart := rfl
  simp only [EncodeArguments.resolve, position]
  simp only [Argument.toPosition, Argument.toLimit?, Extent.ofLimits, mapError_ok,
    bind, Except.bind, Extent.fit_unlimited]
  exact dif_pos reached

theorem EncodeArguments.resolve_default (inputLength outputLength : Nat) :
    EncodeArguments.resolve {} inputLength outputLength =
      .ok ⟨.whole inputLength, 0, Nat.zero_le outputLength⟩ :=
  EncodeArguments.resolve_outputStart (Nat.zero_le outputLength)

theorem EncodeArguments.resolve_from {position inputLength : Nat}
    (reached : position ≤ inputLength) (outputLength : Nat) :
    EncodeArguments.resolve { start := .integer position } inputLength outputLength =
      .ok ⟨⟨position, inputLength, reached, Nat.le_refl inputLength⟩, 0,
        Nat.zero_le outputLength⟩ := by
  have start : Argument.toPosition (.integer position) = .ok position := rfl
  simp only [EncodeArguments.resolve, start]
  simp only [Argument.toPosition, Argument.toLimit?, Extent.ofLimits, mapError_ok,
    bind, Except.bind, Extent.fit_from _ reached]
  exact dif_pos (Nat.zero_le outputLength)

theorem EncodeArguments.resolve_span {inputLength : Nat} (span : Span inputLength)
    (outputLength : Nat) :
    EncodeArguments.resolve { start := .integer span.start, stop := .integer span.stop }
        inputLength outputLength =
      .ok ⟨span, 0, Nat.zero_le outputLength⟩ := by
  have position (limit : Nat) : Argument.toPosition (.integer limit) = .ok limit := rfl
  have limit (stop : Nat) : Argument.toLimit? (.integer stop) = .ok (some stop) := rfl
  have origin : Argument.toPosition (.integer 0) = .ok 0 := rfl
  simp only [EncodeArguments.resolve, position, limit, origin, Extent.ofLimits_span,
    Extent.fit_span, mapError_ok, bind, Except.bind]
  exact dif_pos (Nat.zero_le outputLength)

/-- Limits that fit a text do so whatever buffer it is written to, from the start of the buffer. -/
theorem EncodeArguments.resolve_of_resolve_zero {start stop : Argument} {inputLength : Nat}
    {plan : EncodePlan inputLength 0}
    (accepted : EncodeArguments.resolve { start, stop } inputLength 0 = .ok plan)
    (outputLength : Nat) :
    EncodeArguments.resolve { start, stop } inputLength outputLength =
      .ok ⟨plan.input, 0, Nat.zero_le outputLength⟩ := by
  have origin : Argument.toPosition (.integer 0) = .ok 0 := rfl
  simp only [EncodeArguments.resolve, origin] at accepted ⊢
  split at accepted
  · next startsAt stopsAt origin' =>
      cases origin'
      cases ordered : Extent.ofLimits .input _ _ with
      | error inversion =>
          rw [ordered] at accepted
          contradiction
      | ok extent =>
          rw [ordered] at accepted
          cases fitting : extent.fit .input inputLength with
          | error excess =>
              simp only [mapError_ok, bind, Except.bind, fitting] at accepted
              contradiction
          | ok input =>
              simp only [mapError_ok, bind, Except.bind, fitting] at accepted ⊢
              cases accepted
              exact dif_pos (Nat.zero_le outputLength)
  · contradiction

theorem DecodeArguments.resolve_from {position inputLength : Nat}
    (reached : position ≤ inputLength) (final : Bool) (outputLength : Nat) :
    DecodeArguments.resolve { start := .integer position, endOfInput := .boolean final }
        inputLength outputLength =
      .ok ⟨⟨position, inputLength, reached, Nat.le_refl inputLength⟩, .whole outputLength,
        final⟩ := by
  have start : Argument.toPosition (.integer position) = .ok position := rfl
  simp only [DecodeArguments.resolve, start]
  simp only [Argument.toPosition, Argument.toLimit?, Argument.toFlag, Extent.ofLimits,
    mapError_ok, bind, Except.bind, Extent.fit_from _ reached, Extent.fit_unlimited]
  rfl

theorem DecodeArguments.resolve_of_lt {position inputLength : Nat}
    (beyond : inputLength < position) (final : Bool) (outputLength : Nat) :
    DecodeArguments.resolve { start := .integer position, endOfInput := .boolean final }
        inputLength outputLength =
      .error (.exceeds ⟨.input, position, inputLength, inputLength⟩) := by
  have start : Argument.toPosition (.integer position) = .ok position := rfl
  simp only [DecodeArguments.resolve, start]
  simp only [Argument.toPosition, Argument.toLimit?, Argument.toFlag, Extent.ofLimits,
    mapError_ok, bind, Except.bind, Extent.fit_of_lt _ beyond, mapError_error]

theorem DecodeArguments.resolve_endOfInput (final : Bool) (inputLength outputLength : Nat) :
    DecodeArguments.resolve { endOfInput := .boolean final } inputLength outputLength =
      .ok ⟨.whole inputLength, .whole outputLength, final⟩ :=
  DecodeArguments.resolve_from (Nat.zero_le inputLength) final outputLength

/-- The arguments that spell a plan out in full. -/
def DecodePlan.arguments {inputLength outputLength : Nat}
    (plan : DecodePlan inputLength outputLength) : DecodeArguments where
  start := .integer plan.input.start
  stop := .integer plan.input.stop
  outputStart := .integer plan.output.start
  outputStop := .integer plan.output.stop
  endOfInput := .boolean plan.final

theorem DecodePlan.resolve_arguments {inputLength outputLength : Nat}
    (plan : DecodePlan inputLength outputLength) :
    plan.arguments.resolve inputLength outputLength = .ok plan := by
  have position (limit : Nat) : Argument.toPosition (.integer limit) = .ok limit := rfl
  have limit (stop : Nat) : Argument.toLimit? (.integer stop) = .ok (some stop) := rfl
  simp only [DecodeArguments.resolve, DecodePlan.arguments, position, limit, Argument.toFlag,
    Extent.ofLimits_span, Extent.fit_span, mapError_ok, bind, Except.bind]
  rfl

/-! ## Decoding from a position -/

section DecodingFrom

variable {bytes : Bytes} {slots : Text} {position : Nat} {final : Bool}

theorem decodeInto_from (reached : position ≤ bytes.length) :
    decodeInto bytes slots { start := .integer position, endOfInput := .boolean final } =
      let window := bytes.drop position
      let progress := Decoding.fill final slots.length window
      (progress.outcome window, overwrite slots 0 progress.text) := by
  rw [decodeInto, DecodeArguments.resolve_from reached]
  simp only [Span.slice_from, Span.start_whole, Span.size_whole]

theorem decodeInto_of_lt (beyond : bytes.length < position) :
    decodeInto bytes slots { start := .integer position, endOfInput := .boolean final } =
      (.rejected (.exceeds ⟨.input, position, bytes.length, bytes.length⟩), slots) := by
  rw [decodeInto, DecodeArguments.resolve_of_lt beyond]

end DecodingFrom

end LosslessUtf8
