import ThreeAddress.Text.Numeral

/-!
# Command line options

The arguments are looked at from left to right (`Options.ofArguments`). The first one that makes no
sense, or that asks for help, decides; nothing after it matters.
-/

namespace ThreeAddress.CommandLine

/-- What the user asks for. -/
structure Options where
  /-- The script to replay. -/
  input : String := ""
  /-- The file for the listing; without one it goes to the standard output. -/
  output : Option String := none
  /-- The file with settings. -/
  settings : Option String := none
  /-- A limit that wins over the settings. -/
  limit : Option Nat := none
  verbose : Bool := false
deriving DecidableEq, Repr

/-- What a program leaves when it ends: its exit code and what it wrote to the output streams. The
events of the session are left out, although the logger prints those of them that are errors on the
error stream, with the time of each. -/
structure Report where
  exit : Nat
  stdout : String
  stderr : String
deriving DecidableEq, Repr

/-- Why the program ends without doing anything. -/
inductive Stop where
  | noArguments
  | help
  /-- An option that takes a file name is the last argument. -/
  | noFileName (option : String)
  /-- The option for the limit is the last argument. -/
  | noNumber
  | badLimit (text : String)
  | unknownOption (text : String)
  | severalInputs
  | noInput
deriving DecidableEq, Repr

/-- The help text. -/
def usage (program : String) : String :=
  "Usage: " ++ program ++ " [options] <script>\n"
    ++ "\n"
    ++ "Options:\n"
    ++ "  -o, --output <file>    Write quads to file (default: stdout)\n"
    ++ "  --config <file.toml>   Code generator configuration\n"
    ++ "  --max-quads <n>        Override the instruction buffer limit\n"
    ++ "  -v, --verbose          Verbose output\n"
    ++ "  -h, --help             Show this help message\n"
    ++ "\n"
    ++ "Examples:\n"
    ++ "  " ++ program ++ " loop.tac                      # Print quads to stdout\n"
    ++ "  " ++ program ++ " --max-quads 2000 -o out.q loop.tac\n"

/-- How the program ends when it stops early. -/
def Stop.report (program : String) : Stop → Report
  | noArguments => ⟨1, usage program, ""⟩
  | help => ⟨0, usage program, ""⟩
  | noFileName option => ⟨1, "", "Error: " ++ option ++ " requires a filename\n"⟩
  | noNumber => ⟨1, "", "Error: --max-quads requires a number\n"⟩
  | badLimit text => ⟨1, "", "Error: Invalid quad limit '" ++ text ++ "'\n"⟩
  | unknownOption text => ⟨1, usage program, "Error: Unknown option '" ++ text ++ "'\n"⟩
  | severalInputs => ⟨1, "", "Error: Multiple input files specified\n"⟩
  | noInput => ⟨1, usage program, "Error: No input file specified\n"⟩

/-- What an argument is by its text alone. -/
inductive Flag where
  | output
  | settings
  | limit
  | verbose
  | help
  | unknown
  /-- Not an option. -/
  | input
deriving DecidableEq, Repr

/-- The flag that an argument is. -/
def Flag.ofArgument (argument : String) : Flag :=
  if argument = "-o" ∨ argument = "--output" then output
  else if argument = "--config" then settings
  else if argument = "--max-quads" then limit
  else if argument = "-v" ∨ argument = "--verbose" then verbose
  else if argument = "-h" ∨ argument = "--help" then help
  else if argument.toList.head? = some '-' then unknown
  else input

namespace Options

/-- Takes arguments into the options given. An empty argument counts as no input. -/
def scan (o : Options) : List String → Except Stop Options
  | [] => if o.input = "" then .error .noInput else .ok o
  | argument :: rest =>
    match Flag.ofArgument argument, rest with
    | .output, [] => .error (.noFileName "-o")
    | .output, file :: rest => scan { o with output := some file } rest
    | .settings, [] => .error (.noFileName "--config")
    | .settings, file :: rest => scan { o with settings := some file } rest
    | .limit, [] => .error .noNumber
    | .limit, number :: rest =>
      match Text.index? number.toList with
      | none => .error (.badLimit number)
      | some n => scan { o with limit := some n } rest
    | .verbose, rest => scan { o with verbose := true } rest
    | .help, _ => .error .help
    | .unknown, _ => .error (.unknownOption argument)
    | .input, rest =>
      if o.input = "" then scan { o with input := argument } rest else .error .severalInputs

/-- The options that arguments stand for. -/
def ofArguments : List String → Except Stop Options
  | [] => .error .noArguments
  | arguments => scan {} arguments

end Options

end ThreeAddress.CommandLine
