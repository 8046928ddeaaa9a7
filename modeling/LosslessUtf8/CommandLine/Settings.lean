import LosslessUtf8.Chunked.Limits
import LosslessUtf8.CommandLine.Word
import LosslessUtf8.Text.Quoted

/-!
# Settings

What the arguments ask for. They are acted on from left to right, after all of them were told apart;
asking for help or for the version ends that at once, as does an option that is used in a wrong way.
Arguments that belong to no option are an error, but only when everything else was in order.
-/

namespace LosslessUtf8.CommandLine

/-- What is wrong with the arguments. -/
inductive Misuse where
  | ambiguous (ambiguity : Ambiguity)
  /-- An option lacks its value. -/
  | valueMissing (flag : Flag)
  /-- An option has a value that it does not take. -/
  | valueIgnored (flag : Flag) (value : String)
  /-- The value of an option is no integer. -/
  | notInteger (flag : Flag) (value : String)
  /-- Some arguments belong to no option. -/
  | unrecognized (arguments : List String)
  deriving DecidableEq, Repr

/-- The words in which a misuse is reported. -/
def Misuse.message : Misuse → String
  | .ambiguous ambiguity =>
    "ambiguous option: " ++ ambiguity.argument ++ " could match " ++
      ", ".intercalate ambiguity.candidates
  | .valueMissing flag => "argument " ++ flag.title ++ ": expected one argument"
  | .valueIgnored flag value =>
    "argument " ++ flag.title ++ ": ignored explicit argument " ++ Quoted.ofString value
  | .notInteger flag value =>
    "argument " ++ flag.title ++ ": invalid int value: " ++ Quoted.ofString value
  | .unrecognized arguments => "unrecognized arguments: " ++ " ".intercalate arguments

/-- Why the program has nothing to do but to answer. -/
inductive Halt where
  | help
  | version
  | misuse (misuse : Misuse)
  deriving DecidableEq, Repr

/-- What the program is asked to do. An empty path stands for none. There is no chunk size if it was
asked for without a number. -/
structure Settings where
  path : String
  chunkSize? : Option Int
  verbose : Bool
  deriving DecidableEq, Repr

namespace Settings

/-- What is done if nothing is asked for. -/
def initial : Settings where
  path := ""
  chunkSize? := some Chunked.Limits.defaultChunkSize
  verbose := false

/-- Acts on an option without a value. -/
def mark (settings : Settings) : Flag → Except Halt Settings
  | .help => .error .help
  | .version => .error .version
  | .verbose => .ok { settings with verbose := true }
  | .analyze | .chunkSize => .ok settings

/-- The value that a text stands for. Two dashes alone stand for none. -/
def valueOf? (text : String) : Option String :=
  if text = "--" then none else some text

/-- Acts on an option with its value. One that was given nothing for a value takes back what earlier
ones have asked for. -/
def assign (settings : Settings) (value? : Option String) : Flag → Except Halt Settings
  | .analyze => .ok { settings with path := value?.getD "" }
  | .chunkSize =>
    match value? with
    | none => .ok { settings with chunkSize? := none }
    | some value =>
      match Numeral.ofString? value with
      | some chunkSize => .ok { settings with chunkSize? := some chunkSize }
      | none => .error (.misuse (.notInteger .chunkSize value))
  | .help | .version | .verbose => .ok settings

/-- The options that one argument stands for in which characters are attached to a one-letter option
without a value: that one, and one for each letter. None of them is acted on if some character is
no letter of an option; then it is a value, with all that follows, for an option that takes none. -/
def cluster (flag : Flag) : List Char → Except Misuse (List Flag)
  | [] => .error (.valueIgnored flag "")
  | letter :: rest =>
    match Flag.ofLetter? letter with
    | none => .error (.valueIgnored flag (String.ofList (letter :: rest)))
    | some next => if rest.isEmpty then .ok [flag, next] else (flag :: ·) <$> cluster next rest

/-- Acts on what the arguments are. `extras` are the arguments so far that belong to no option, in
reverse. -/
def read (settings : Settings) (extras : List String) :
    List (String × Word) → Except Halt Settings
  | [] =>
    if extras.isEmpty then .ok settings else .error (.misuse (.unrecognized extras.reverse))
  | (_, .flag flag (some (.value text))) :: words => do
    let value := String.ofList text
    if flag.takesValue then read (← settings.assign (valueOf? value) flag) extras words
    else throw (.misuse (.valueIgnored flag value))
  | (_, .flag flag (some (.letters text))) :: words => do
    if flag.takesValue then
      read (← settings.assign (valueOf? (String.ofList text)) flag) extras words
    else
      let flags ← (cluster flag text).mapError .misuse
      read (← flags.foldlM mark settings) extras words
  | (_, .flag flag none) :: words => do
    if flag.takesValue then
      match words with
      | (value, .operand) :: words =>
        read (← settings.assign (valueOf? value) flag) extras words
      | _ => throw (.misuse (.valueMissing flag))
    else read (← settings.mark flag) extras words
  | (argument, .unknown) :: words
  | (argument, .separator) :: words
  | (argument, .operand) :: words => read settings (argument :: extras) words

/-- What the arguments ask for. -/
def ofArguments (arguments : List String) : Except Halt Settings := do
  let words ← (Word.ofArguments arguments).mapError fun ambiguity =>
    .misuse (.ambiguous ambiguity)
  initial.read [] words

end Settings

end LosslessUtf8.CommandLine
