import LosslessUtf8.Text.Numeral

/-!
# Spans

A span is a stretch of a buffer, from a start up to but not including a stop. It is made in two
steps: an `Extent` has its limits in order, and a `Span` also lies inside the buffer. A missing
stop means the end of the buffer. Each step tells the limits that it turns down.
-/

namespace LosslessUtf8

/-- Which of the two buffers of a conversion is meant. -/
inductive Side where
  | input
  | output
  deriving DecidableEq, Repr

/-- The word for a side in messages. -/
def Side.name : Side → String
  | .input => "input"
  | .output => "output"

/-- Limits that are in order. -/
structure Extent where
  start : Nat
  stop? : Option Nat
  ordered : ∀ stop ∈ stop?, start ≤ stop

/-- A stretch of a buffer of the given length. -/
structure Span (length : Nat) where
  start : Nat
  stop : Nat
  start_le_stop : start ≤ stop
  stop_le_length : stop ≤ length

/-- Limits of which the second lies in front of the first. -/
structure Inversion where
  side : Side
  start : Nat
  stop : Nat
  deriving DecidableEq, Repr

/-- Limits that a buffer of the given length does not reach. -/
structure Excess where
  side : Side
  start : Nat
  stop : Nat
  length : Nat
  deriving DecidableEq, Repr

/-- The words in which an inversion is reported. -/
def Inversion.message (fault : Inversion) : String :=
  Numeral.telling [fault.start, fault.stop]
    (fault.side.name ++ " range is inverted: start=" ++ toString fault.start ++ ", end=" ++
      toString fault.stop)

/-- The words in which an excess is reported. -/
def Excess.message (fault : Excess) : String :=
  Numeral.telling [fault.start, fault.stop, fault.length]
    (fault.side.name ++ " range [" ++ toString fault.start ++ ", " ++ toString fault.stop ++
      ") exceeds buffer length " ++ toString fault.length)

namespace Extent

/-- Takes limits that are in order. A missing stop is in order with every start. -/
def ofLimits (side : Side) (start : Nat) : Option Nat → Except Inversion Extent
  | none => .ok ⟨start, none, by simp⟩
  | some stop =>
    if ordered : start ≤ stop then .ok ⟨start, some stop, by simpa using ordered⟩
    else .error ⟨side, start, stop⟩

/-- Takes an extent that lies inside a buffer of the given length. -/
def fit (side : Side) (length : Nat) (extent : Extent) : Except Excess (Span length) :=
  match stopping : extent.stop? with
  | none =>
    if reached : extent.start ≤ length then .ok ⟨extent.start, length, reached, Nat.le_refl _⟩
    else .error ⟨side, extent.start, length, length⟩
  | some stop =>
    if reached : stop ≤ length then
      .ok ⟨extent.start, stop, extent.ordered stop stopping, reached⟩
    else .error ⟨side, extent.start, stop, length⟩

end Extent

namespace Span

/-- The number of positions in a span. -/
def size {length : Nat} (span : Span length) : Nat :=
  span.stop - span.start

/-- The part of a buffer that a span covers. -/
def slice {α : Type} {length : Nat} (span : Span length) (buffer : List α) : List α :=
  (buffer.drop span.start).take span.size

theorem length_slice {α : Type} {buffer : List α} (span : Span buffer.length) :
    (span.slice buffer).length = span.size := by
  have := span.stop_le_length
  simp only [slice, size, List.length_take, List.length_drop]
  omega

end Span

end LosslessUtf8
