import LosslessUtf8.Text.Quoted
import LosslessUtf8.Transfer

/-!
# Conversion in two passes

A whole input is converted by measuring it first, and then converting it into a fresh buffer of
exactly that size. Whether the second pass did what the first had counted on is checked, and each
way in which it could have gone wrong is a cause of its own.
-/

namespace LosslessUtf8

namespace Encoding

/-- An outcome as it is shown in a message. -/
def Outcome.shown : Outcome → String
  | .encoded position => "Encoded(position=" ++ toString position ++ ")"
  | .unencodable failure =>
    "InvalidScalar(value=" ++ toString failure.scalar.value ++ ", index=" ++
      toString failure.index ++ ")"
  | .full position index =>
    "InsufficientCapacity(position=" ++ toString position ++ ", index=" ++ toString index ++ ")"
  | .rejected rejection =>
    "InvalidArguments(reason=" ++ Quoted.ofString rejection.message ++ ")"

/-- Why a text was not encoded. -/
inductive PassFailure where
  /-- The text could not be measured. -/
  | unmeasured (rejection : Rejection)
  /-- A scalar has no byte form. -/
  | unencodable (failure : Unencodable)
  /-- The second pass did not end at the measured size. -/
  | stopped (outcome : Outcome)
  deriving DecidableEq, Repr

/-- The words in which a failure is reported. -/
def PassFailure.message : PassFailure → String
  | .unmeasured rejection => "Cannot size input: " ++ rejection.message
  | .unencodable failure => failure.message
  | .stopped outcome => "Encoder stopped early: " ++ outcome.shown

end Encoding

namespace Decoding

/-- Why some bytes were not decoded. -/
inductive PassFailure where
  /-- The bytes could not be measured. -/
  | unmeasured (rejection : Rejection)
  /-- The second pass turned its input down. -/
  | rejected (rejection : Rejection)
  /-- The second pass used up or produced something else than was measured. -/
  | mismatched (consumed produced size count : Nat)
  deriving DecidableEq, Repr

/-- The words in which a failure is reported. -/
def PassFailure.message : PassFailure → String
  | .unmeasured rejection => "Cannot size input: " ++ rejection.message
  | .rejected rejection => "Cannot decode input: " ++ rejection.message
  | .mismatched consumed produced size count =>
    "Decoded " ++ toString produced ++ " scalars from " ++ toString consumed ++
      " bytes, expected " ++ toString count ++ " scalars from " ++ toString size ++ " bytes"

end Decoding

/-- Encodes a text into a buffer of the size that it was measured to need. -/
def encodeTwoPass (text : Text) : Except Encoding.PassFailure Bytes :=
  match widthWithin text (.integer 0) .null with
  | .error rejection => .error (.unmeasured rejection)
  | .ok width =>
    match encodeInto text (List.replicate width 0) {} with
    | (.unencodable failure, _) => .error (.unencodable failure)
    | (.encoded position, output) =>
      if position = width then .ok output else .error (.stopped (.encoded position))
    | (outcome, _) => .error (.stopped outcome)

/-- Decodes some bytes into as many slots as they were measured to need. -/
def decodeTwoPass (bytes : Bytes) : Except Decoding.PassFailure Text :=
  match tokenCountWithin bytes (.integer 0) .null with
  | .error rejection => .error (.unmeasured rejection)
  | .ok count =>
    match decodeInto bytes (List.replicate count ⟨0⟩) {} with
    | (.rejected rejection, _) => .error (.rejected rejection)
    | (.decoded consumed produced _, slots) =>
      if consumed = bytes.length ∧ produced = count then .ok slots
      else .error (.mismatched consumed produced bytes.length count)

end LosslessUtf8
