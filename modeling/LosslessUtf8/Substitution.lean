import LosslessUtf8.Encoding

/-!
# Substitution

Encoding a text in which something is put in the place of scalars that have no byte form. What is
put there follows from a policy: a rule, which looks at the scalar alone and goes on behind it, or
a script of answers, each of which may go on anywhere in the text. A script ends, so the run does.
Rules are found by name. A name that leads to no rule counts only when a scalar without a byte form
is met.
-/

namespace LosslessUtf8

/-! ## Excerpts -/

namespace Excerpt

/-- Takes characters while they fit into a number of bytes, behind characters that were taken
before, in reverse. One that does not fit any more is shown as the replacement character. -/
def takeOnto (reversed : List Char) (room : Nat) : List Char → List Char
  | [] => reversed.reverse
  | character :: rest =>
    if character.utf8Size ≤ room then
      takeOnto (character :: reversed) (room - character.utf8Size) rest
    else if room = 0 then reversed.reverse
    else ('\uFFFD' :: reversed).reverse

/-- The beginning of a string, cut by its size in UTF-8. -/
def ofString (limit : Nat) (string : String) : String :=
  String.ofList (takeOnto [] limit string.toList)

end Excerpt

namespace Substitution

/-! ## Policies -/

/-- What is put in the place of a scalar. -/
inductive Replacement where
  /-- A text, which must itself be encodable. -/
  | text (text : Text)
  /-- Bytes, which are taken as they are. -/
  | bytes (bytes : Bytes)
  deriving DecidableEq, Repr

/-- A replacement, and where the text is taken up again. A negative position counts from the end. -/
structure Answer where
  replacement : Replacement
  resume : Int
  deriving DecidableEq, Repr

/-- Why a name leads to no rule. -/
inductive LookupFault where
  /-- No rule has the name. -/
  | unknown (name : String)
  /-- The name has a null character in it. -/
  | null
  /-- The name has surrogates in it, the first of them at an index, in a row. -/
  | surrogates (index : Nat) (row : Text)
  deriving DecidableEq, Repr

/-- Why a rule puts nothing in the place of a scalar. -/
inductive Refusal where
  /-- The rule does not take the scalar. -/
  | refused
  /-- There is no such rule. -/
  | missing (fault : LookupFault)
  deriving DecidableEq, Repr

/-- What is put in the place of each scalar, if anything is. -/
abbrev Rule := Scalar → Except Refusal Replacement

/-- What to do about scalars that have no byte form. -/
inductive Policy where
  /-- Follow the rule. -/
  | rule (rule : Rule)
  /-- Take the next of these answers, and give up when none is left. -/
  | script (answers : List Answer)

/-- Why a text was not encoded in the end. -/
inductive Failure where
  /-- A scalar has no byte form, and nothing could be put in its place. -/
  | unencodable (failure : Unencodable)
  /-- The rule to follow is missing. -/
  | missingRule (fault : LookupFault)
  /-- The text was to be taken up again where it has no place. -/
  | outOfBounds (position : Int)
  /-- It was to be taken up again so far from any place that the position cannot be written. -/
  | farOutOfBounds (position : Int)
  deriving DecidableEq, Repr

/-- The encoding's name in messages. -/
def encodingName : String := "utf-8b"

/-- The name in messages of the encoding that has no form for any surrogate. -/
def strictName : String := "utf-8"

/-- A surrogate as a backslash escape. -/
def backslashed (scalar : Scalar) : String :=
  "\\u" ++ Hexadecimal.padded 4 scalar.value.toNat

/-- The words in which a row of surrogates is turned down that starts at an index of a text. -/
def surrogatesMessage (encoding : String) (index : Nat) (row : Text) : String :=
  "'" ++ encoding ++ "' codec can't encode " ++ subject ++ ": surrogates not allowed"
where
  subject : String :=
    match row with
    | [scalar] => "character '" ++ backslashed scalar ++ "' in position " ++ toString index
    | _ =>
      "characters in position " ++ toString index ++ "-" ++ toString (index + row.length - 1)

/-- The words in which a fault is reported. Of a long name only the beginning is shown. -/
def LookupFault.message : LookupFault → String
  | .unknown name => "unknown error handler name '" ++ Excerpt.ofString 400 name ++ "'"
  | .null => "embedded null character"
  | .surrogates index row => surrogatesMessage strictName index row

/-- The words in which a failure is reported. -/
def Failure.message : Failure → String
  | .unencodable failure => surrogatesMessage encodingName failure.index [failure.scalar]
  | .missingRule fault => fault.message
  | .outOfBounds position =>
    "position " ++ toString position ++ " from error handler out of bounds"
  | .farOutOfBounds _ => Numeral.longMessage

/-- The bytes of a replacement. -/
def Replacement.encode : Replacement → Except Unencodable Bytes
  | .text inserted => LosslessUtf8.encode inserted
  | .bytes inserted => .ok inserted

/-! ## Rules -/

namespace Rule

/-- No scalar is taken. -/
def refuse : Rule := fun _ => .error .refused

/-- A string that hangs on the scalar takes its place. -/
def insert (string : Scalar → String) : Rule := fun scalar =>
  .ok (.text (.ofString (string scalar)))

/-- A surrogate as a numeric character reference. -/
def reference (scalar : Scalar) : String :=
  "&#" ++ toString scalar.value ++ ";"

/-- A rule that is not there, which is an error as soon as it is needed. -/
def missing (fault : LookupFault) : Rule := fun _ => .error (.missing fault)

/-- The rule of a name. Rules that differ only on scalars that never reach them are one here. -/
def ofName : String → Rule
  | "strict" | "surrogateescape" | "surrogatepass" => refuse
  | "replace" => insert fun _ => "?"
  | "ignore" => insert fun _ => ""
  | "backslashreplace" | "namereplace" => insert backslashed
  | "xmlcharrefreplace" => insert reference
  | name => missing (if '\x00' ∈ name.toList then .null else .unknown name)

/-- The rule of a name that is given as a text of code points. No rule is looked up under a name
with surrogates. -/
def ofText (name : Text) : Rule :=
  let front := name.takeWhile fun scalar => !decide scalar.IsSurrogate
  let row := (name.drop front.length).takeWhile fun scalar => decide scalar.IsSurrogate
  if row.isEmpty then ofName name.toString else missing (.surrogates front.length row)

/-- The bytes that a rule puts in the place of a scalar. -/
def substitute (rule : Rule) (failure : Unencodable) : Except Failure Bytes :=
  match rule failure.scalar with
  | .error .refused => .error (.unencodable failure)
  | .error (.missing fault) => .error (.missingRule fault)
  | .ok replacement => replacement.encode.mapError fun _ => .unencodable failure

end Rule

/-- Encodes a text by a rule, behind bytes that are already there, in reverse; `index` is where in
the whole text it starts. -/
def encodeByRule (rule : Rule) (reversed : Bytes) (index : Nat) : Text → Except Failure Bytes
  | [] => .ok reversed.reverse
  | scalar :: text =>
    match scalar.spell? with
    | some spelling => encodeByRule rule (spelling.reverseAux reversed) (index + 1) text
    | none =>
      match Rule.substitute rule ⟨scalar, index⟩ with
      | .ok bytes => encodeByRule rule (bytes.reverseAux reversed) (index + 1) text
      | .error failure => .error failure

/-! ## Scripts -/

/-- Why a text is not taken up again at a position at which it has no place. -/
def Failure.ofPosition (position : Int) : Failure :=
  if Numeral.IsLong position then .farOutOfBounds position else .outOfBounds position

/-- The place in a text of the given length at which to take it up again. -/
def placeOf (length : Nat) (resume : Int) : Except Failure Nat :=
  let position := if resume < 0 then resume + length else resume
  if 0 ≤ position ∧ position ≤ length then .ok position.toNat else .error (.ofPosition position)

/-- Encodes a text from a position on, behind bytes that are already there, in reverse. Each scalar
that has no byte form uses up an answer of the script. The second result is what is left of it. -/
def encodeByScript (text : Text) (reversed : Bytes) (position : Nat) :
    List Answer → Except Failure Bytes × List Answer
  | [] =>
    match Encoding.spellOnto reversed position (text.drop position) with
    | (reversed, none) => (.ok reversed.reverse, [])
    | (_, some failure) => (.error (.unencodable failure), [])
  | answer :: answers =>
    match Encoding.spellOnto reversed position (text.drop position) with
    | (reversed, none) => (.ok reversed.reverse, answer :: answers)
    | (reversed, some failure) =>
      match answer.replacement.encode with
      | .error _ => (.error (.unencodable failure), answers)
      | .ok bytes =>
        match placeOf text.length answer.resume with
        | .error failure => (.error failure, answers)
        | .ok next => encodeByScript text (bytes.reverseAux reversed) next answers

/-- Encodes a text under a policy, and answers what is left of the policy. -/
def encodeUnder (policy : Policy) (text : Text) : Except Failure Bytes × Policy :=
  match policy with
  | .rule rule => (encodeByRule rule [] 0 text, policy)
  | .script answers =>
    let (outcome, left) := encodeByScript text [] 0 answers
    (outcome, .script left)

end Substitution

end LosslessUtf8
