import LosslessUtf8.CommandLine.Flag
import LosslessUtf8.Text.Numeral

/-!
# Words of the command line

What each argument is by itself, before any of them is acted on: an option, perhaps with something
attached, or something else. Options may be abbreviated as long as that is not ambiguous. What looks
like an option and is none still counts as one, unless it is a negative number or has a space in it.
Behind two dashes alone there are no options.
-/

namespace LosslessUtf8.CommandLine

/-- What is attached to an option in the same argument. -/
inductive Attached where
  /-- A value behind a word and an equals sign. -/
  | value (text : List Char)
  /-- Characters behind a one-letter option, whether an equals sign sets them off or not. -/
  | letters (text : List Char)
  deriving DecidableEq, Repr

/-- What an argument is. -/
inductive Word where
  /-- An option; nothing may be attached to it. -/
  | flag (flag : Flag) (attached? : Option Attached)
  /-- Something that looks like an option and is none. -/
  | unknown
  /-- Two dashes, behind which there are no options. -/
  | separator
  /-- Anything else. -/
  | operand
  deriving DecidableEq, Repr

/-- An abbreviation that stands for several options. -/
structure Ambiguity where
  argument : String
  candidates : List String
  deriving DecidableEq, Repr

namespace Word

/-- The part in front of the first equals sign, and the part behind it if there is one. -/
def splitValue (argument : List Char) : List Char × Option (List Char) :=
  match argument.dropWhile (· != '=') with
  | _ :: value => (argument.takeWhile (· != '='), some value)
  | [] => (argument, none)

/-- A minus sign with digits, or with a point and digits behind it, perhaps at the end of a line. -/
def isNegativeNumber : List Char → Bool
  | '-' :: characters =>
    let body :=
      if characters.getLast? == some '\n' then characters.dropLast else characters
    isNumber body
  | _ => false
where
  isDigit (character : Char) : Bool := (Numeral.digit? character).isSome
  isNumber (body : List Char) : Bool :=
    match body.dropWhile isDigit with
    | [] => !body.isEmpty
    | '.' :: fraction => !fraction.isEmpty && fraction.all isDigit
    | _ => false

/-- The options that an argument may abbreviate, with what is attached to them. Behind one dash
there is a letter and what follows it; behind two there is the beginning of a word. -/
def candidates (argument : List Char) : List (String × Word) :=
  match argument with
  | '-' :: '-' :: _ =>
    let (beginning, value?) := splitValue argument
    (Flag.table.filter fun entry => beginning.isPrefixOf entry.1.toList).map fun entry =>
      (entry.1, .flag entry.2 (value?.map .value))
  | '-' :: letter :: rest =>
    (Flag.ofLetter? letter).toList.map fun found =>
      (String.ofList ['-', letter], .flag found (some (.letters rest)))
  | _ => []

/-- How what stands behind an equals sign is attached to the spelling in front of it. -/
def attachedTo (spelling value : List Char) : Attached :=
  match spelling with
  | ['-', _] => .letters value
  | _ => .value value

/-- What is not spelled like any option. -/
def withoutFlag (argument : List Char) : Word :=
  if isNegativeNumber argument || argument.contains ' ' then .operand else .unknown

/-- What an argument is that starts with a dash and has more behind it. An exact spelling goes
before any abbreviation. -/
def ofDashed (argument : String) : Except Ambiguity Word :=
  let characters := argument.toList
  let (beginning, value?) := splitValue characters
  match Flag.ofSpelling? argument, value?, Flag.ofSpelling? (String.ofList beginning) with
  | some exact, _, _ => .ok (.flag exact none)
  | none, some value, some exact => .ok (.flag exact (some (attachedTo beginning value)))
  | _, _, _ =>
    match candidates characters with
    | [] => .ok (withoutFlag characters)
    | [(_, word)] => .ok word
    | several => .error ⟨argument, several.map Prod.fst⟩

/-- What an argument is. -/
def ofArgument (argument : String) : Except Ambiguity Word :=
  match argument.toList with
  | ['-', '-'] => .ok .separator
  | '-' :: _ :: _ => ofDashed argument
  | _ => .ok .operand

/-- What the arguments are, up to the first ambiguity. -/
def ofArguments : List String → Except Ambiguity (List (String × Word))
  | [] => .ok []
  | argument :: arguments => do
    match ← ofArgument argument with
    | .separator =>
      return (argument, .separator) :: arguments.map fun operand => (operand, .operand)
    | word => return (argument, word) :: (← ofArguments arguments)

end Word

end LosslessUtf8.CommandLine
