/-!
# Flags

The options of the command line, how they are spelled, and the text that explains them.
-/

namespace LosslessUtf8.CommandLine

/-- The name of the program. -/
def program : String := "utf8b"

/-- An option of the command line. -/
inductive Flag where
  | help
  | analyze
  | chunkSize
  | verbose
  | version
  deriving DecidableEq, Repr

namespace Flag

/-- The options in the order in which they are explained. -/
def all : List Flag := [.help, .analyze, .chunkSize, .verbose, .version]

/-- The spellings of an option, the short one first if there is one. -/
def spellings : Flag → List String
  | .help => ["-h", "--help"]
  | .analyze => ["--analyze"]
  | .chunkSize => ["--chunk-size"]
  | .verbose => ["-v", "--verbose"]
  | .version => ["--version"]

/-- An option with a value takes it from the argument itself or from the next one. -/
def takesValue : Flag → Bool
  | .analyze | .chunkSize => true
  | .help | .verbose | .version => false

/-- The way in which messages name an option. -/
def title (flag : Flag) : String :=
  "/".intercalate flag.spellings

/-- All spellings with their options. -/
def table : List (String × Flag) :=
  all.flatMap fun flag => flag.spellings.map (·, flag)

/-- The option of a spelling. -/
def ofSpelling? (spelling : String) : Option Flag :=
  table.lookup spelling

/-- The option that a dash and a letter spell. -/
def ofLetter? (letter : Char) : Option Flag :=
  ofSpelling? (String.ofList ['-', letter])

end Flag

/-- How the program is called, in one line. -/
def usage : String :=
  "usage: utf8b [-h] [--analyze FILE] [--chunk-size N] [-v] [--version]\n"

/-- What the program is for and what its options mean. -/
def help : String :=
  usage ++ "\n" ++
    "utf8b: Lossless UTF-8b Codec\n" ++
    "\n" ++
    "options:\n" ++
    "  -h, --help      show this help message and exit\n" ++
    "  --analyze FILE  Decode FILE, report escaped bytes and check the round-trip\n" ++
    "  --chunk-size N  Bytes read per chunk (default: 65536)\n" ++
    "  -v, --verbose   Enable debug logging\n" ++
    "  --version       show program's version number and exit\n" ++
    "\n" ++
    "Examples:\n" ++
    "  utf8b --analyze data.bin               Report scalars and escaped bytes\n" ++
    "  utf8b --analyze data.bin --chunk-size 1\n" ++
    "  utf8b --version                        Show version\n" ++
    "        \n"

/-- The version of the program, in one line. -/
def versionLine : String :=
  program ++ " 0.1.0\n"

end LosslessUtf8.CommandLine
