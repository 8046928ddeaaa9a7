import LosslessUtf8.Transfer

/-!
# Workspaces

A byte buffer and a row of slots that a run of conversions shares, each conversion seeing what the
earlier ones left there. Beside them a workspace holds input that arrives in chunks: what one chunk
leaves undecoded is put in front of the next.
-/

namespace LosslessUtf8

/-- Buffers of fixed size, and the input that is still to be decoded. -/
structure Workspace where
  bytes : Bytes
  slots : Text
  pending : Bytes
  deriving DecidableEq, Repr

namespace Workspace

/-- One conversion or measurement in a workspace. -/
inductive Step where
  /-- Encodes a text into the byte buffer. -/
  | encodeText (text : Text) (given : EncodeArguments)
  /-- Encodes the slots into the byte buffer. -/
  | encodeSlots (given : EncodeArguments)
  /-- Decodes the byte buffer into the slots. -/
  | decodeBytes (given : DecodeArguments)
  /-- Measures the byte form of the slots. -/
  | measureSlots (start stop : Argument)
  /-- Counts the scalars that the byte buffer decodes to. -/
  | measureBytes (start stop : Argument)
  /-- Decodes the pending input and a chunk into fresh slots. -/
  | feed (chunk : Bytes) (capacity : Nat) (final : Bool)
  deriving DecidableEq, Repr

/-- What a step answers. -/
inductive Answer where
  | encoding (outcome : Encoding.Outcome)
  | decoding (outcome : Decoding.Outcome)
  | measure (measured : Except Rejection Nat)
  | fed (outcome : Decoding.Outcome) (text : Text)
  deriving Repr

/-- Decodes the pending input and a chunk, and keeps what is left of them. -/
def feed (workspace : Workspace) (chunk : Bytes) (capacity : Nat) (final : Bool) :
    Decoding.Progress × Workspace :=
  let progress := Decoding.fill final capacity (workspace.pending ++ chunk)
  (progress, { workspace with pending := progress.rest })

/-- Takes one step. -/
def step (workspace : Workspace) : Step → Answer × Workspace
  | .encodeText text given =>
    let (outcome, bytes) := encodeInto text workspace.bytes given
    (.encoding outcome, { workspace with bytes })
  | .encodeSlots given =>
    let (outcome, bytes) := encodeInto workspace.slots workspace.bytes given
    (.encoding outcome, { workspace with bytes })
  | .decodeBytes given =>
    let (outcome, slots) := decodeInto workspace.bytes workspace.slots given
    (.decoding outcome, { workspace with slots })
  | .measureSlots start stop => (.measure (widthWithin workspace.slots start stop), workspace)
  | .measureBytes start stop => (.measure (tokenCountWithin workspace.bytes start stop), workspace)
  | .feed chunk capacity final =>
    let (progress, next) := workspace.feed chunk capacity final
    (.fed (progress.outcome (workspace.pending ++ chunk)) progress.text, next)

/-- Takes steps one after the other, and answers each with the workspace that it left. -/
def run (workspace : Workspace) : List Step → List (Answer × Workspace)
  | [] => []
  | next :: steps =>
    let reached := workspace.step next
    reached :: run reached.2 steps

end Workspace

end LosslessUtf8
