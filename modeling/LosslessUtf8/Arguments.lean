import LosslessUtf8.Span

/-!
# Range arguments

A conversion is told which part of its buffers to work on by arguments that come as they are given,
of any kind. They are checked in three rounds: each on its own, then the limits against each other,
then the limits against the buffers. The first round reports all its faults together, the other two
report their first.
-/

namespace LosslessUtf8

/-- An argument as it is given. -/
inductive Argument where
  | integer (value : Int)
  | boolean (value : Bool)
  /-- The argument stands for its absence. -/
  | null
  /-- A value of a kind that no argument takes. -/
  | other
  deriving DecidableEq, Repr

/-- The arguments there are, in the order in which they are checked. -/
inductive ArgumentName where
  | start
  | stop
  | outputStart
  | outputStop
  | endOfInput
  deriving DecidableEq, Repr

/-- The name of an argument in messages. -/
def ArgumentName.text : ArgumentName → String
  | .start => "start"
  | .stop => "end"
  | .outputStart => "output_start"
  | .outputStop => "output_end"
  | .endOfInput => "end_of_input"

/-- What is wrong with an argument on its own. -/
inductive ArgumentFault where
  | notInteger
  | negative
  | notBoolean
  deriving DecidableEq, Repr

/-- The words in which a fault is reported. -/
def ArgumentFault.message : ArgumentFault → String
  | .notInteger => "Input should be a valid integer"
  | .negative => "Input should be greater than or equal to 0"
  | .notBoolean => "Input should be a valid boolean"

/-- Why arguments are turned down. -/
inductive Rejection where
  /-- Some arguments are faulty on their own. -/
  | faulty (faults : List (ArgumentName × ArgumentFault))
  /-- Two limits are out of order. -/
  | inverted (inversion : Inversion)
  /-- The limits reach beyond a buffer. -/
  | exceeds (excess : Excess)
  /-- Output would start beyond the end of its buffer. -/
  | outputStartExceeds (start length : Nat)
  deriving DecidableEq, Repr

/-- A message about the request as a whole. -/
def requestMessage (message : String) : String :=
  "request: Value error, " ++ message

/-- The words in which a rejection is reported. -/
def Rejection.message : Rejection → String
  | .faulty faults =>
    "; ".intercalate (faults.map fun (name, fault) => name.text ++ ": " ++ fault.message)
  | .inverted inversion => requestMessage inversion.message
  | .exceeds excess => excess.message
  | .outputStartExceeds start length =>
    Numeral.telling [start, length]
      ("output start " ++ toString start ++ " exceeds buffer length " ++ toString length)

namespace Argument

/-- The position that an argument gives. -/
def toPosition : Argument → Except ArgumentFault Nat
  | .integer (.ofNat position) => .ok position
  | .integer (.negSucc _) => .error .negative
  | _ => .error .notInteger

/-- The limit that an argument gives, or `none` if it stands for no limit. -/
def toLimit? : Argument → Except ArgumentFault (Option Nat)
  | .null => .ok none
  | argument => argument.toPosition.map some

/-- The flag that an argument gives. -/
def toFlag : Argument → Except ArgumentFault Bool
  | .boolean flag => .ok flag
  | _ => .error .notBoolean

/-- The fault of an argument, under its name, if its reading failed. -/
def faultOf {α : Type} (name : ArgumentName) :
    Except ArgumentFault α → List (ArgumentName × ArgumentFault)
  | .ok _ => []
  | .error fault => [(name, fault)]

end Argument

open Argument

/-- The arguments of encoding, with the values they have when they are not given. -/
structure EncodeArguments where
  start : Argument := .integer 0
  stop : Argument := .null
  outputStart : Argument := .integer 0
  deriving DecidableEq, Repr

/-- The arguments of decoding, with the values they have when they are not given. -/
structure DecodeArguments where
  start : Argument := .integer 0
  stop : Argument := .null
  outputStart : Argument := .integer 0
  outputStop : Argument := .null
  endOfInput : Argument := .boolean true
  deriving DecidableEq, Repr

/-- What encoding works on: a span of a text, and a place in a buffer to write to. -/
structure EncodePlan (inputLength outputLength : Nat) where
  input : Span inputLength
  outputStart : Nat
  outputStart_le : outputStart ≤ outputLength

/-- What decoding works on: a span of some bytes, a span of slots to fill, and whether the input
ends with its span. -/
structure DecodePlan (inputLength outputLength : Nat) where
  input : Span inputLength
  output : Span outputLength
  final : Bool

namespace EncodeArguments

/-- The faults of the arguments on their own. -/
def faults (given : EncodeArguments) : List (ArgumentName × ArgumentFault) :=
  faultOf .start given.start.toPosition ++ faultOf .stop given.stop.toLimit? ++
    faultOf .outputStart given.outputStart.toPosition

/-- Checks the arguments against buffers of the given lengths. -/
def resolve (given : EncodeArguments) (inputLength outputLength : Nat) :
    Except Rejection (EncodePlan inputLength outputLength) :=
  match given.start.toPosition, given.stop.toLimit?, given.outputStart.toPosition with
  | .ok start, .ok stop?, .ok outputStart => do
    let extent ← (Extent.ofLimits .input start stop?).mapError .inverted
    let input ← (extent.fit .input inputLength).mapError .exceeds
    if reached : outputStart ≤ outputLength then return ⟨input, outputStart, reached⟩
    else throw (.outputStartExceeds outputStart outputLength)
  | _, _, _ => .error (.faulty given.faults)

end EncodeArguments

namespace DecodeArguments

/-- The faults of the arguments on their own. -/
def faults (given : DecodeArguments) : List (ArgumentName × ArgumentFault) :=
  faultOf .start given.start.toPosition ++ faultOf .stop given.stop.toLimit? ++
    faultOf .outputStart given.outputStart.toPosition ++
    faultOf .outputStop given.outputStop.toLimit? ++ faultOf .endOfInput given.endOfInput.toFlag

/-- Checks the arguments against buffers of the given lengths. -/
def resolve (given : DecodeArguments) (inputLength outputLength : Nat) :
    Except Rejection (DecodePlan inputLength outputLength) :=
  match given.start.toPosition, given.stop.toLimit?, given.outputStart.toPosition,
    given.outputStop.toLimit?, given.endOfInput.toFlag with
  | .ok start, .ok stop?, .ok outputStart, .ok outputStop?, .ok final => do
    let inputExtent ← (Extent.ofLimits .input start stop?).mapError .inverted
    let outputExtent ← (Extent.ofLimits .output outputStart outputStop?).mapError .inverted
    let input ← (inputExtent.fit .input inputLength).mapError .exceeds
    let output ← (outputExtent.fit .output outputLength).mapError .exceeds
    return ⟨input, output, final⟩
  | _, _, _, _, _ => .error (.faulty given.faults)

end DecodeArguments

end LosslessUtf8
