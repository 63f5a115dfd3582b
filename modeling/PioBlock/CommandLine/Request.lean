import PioBlock.CommandLine.Path

/-! The arguments of a command line name one of three commands, its inputs and its options. They
are taken in order, and the first that does not fit settles what is told. Asking for help comes
first or behind a command; behind a command it is told like a fault, without a complaint. -/

namespace PioBlock.CommandLine

inductive Request where
  | help
  | check (inputs : List Path)
  | build (input : Path) (output : Option Path) (verbose : Bool)
  | place (inputs : List Path)
deriving DecidableEq, Repr

inductive UsageFault where
  | helpWanted
  | missingCommand
  | unknownCommand (name : String)
  | unknownOption (text : String)
  | missingOutput
  | secondInput
  | missingInput
deriving DecidableEq, Repr

def UsageFault.complaint? : UsageFault → Option String
  | .helpWanted => none
  | .missingCommand => some "missing command"
  | .unknownCommand name => some s!"unknown command: {name}"
  | .unknownOption text => some s!"unknown option: {text}"
  | .missingOutput => some "missing value for -o"
  | .secondInput => some "multiple input paths provided"
  | .missingInput => some "missing input path"

/-- What is told of the use of the command line; a blank line ends it. -/
def usageLines : List String :=
  ["Usage: pio-prog <command> [options]",
    "",
    "Commands:",
    "  check <input>...                       Parse programs and print a summary",
    "  build <input> [-o <output>] [--verbose] Write the little-endian instruction image",
    "  place <input>... [--verbose]           Load programs into PIO0 and print offsets",
    "",
    "Options:",
    "  -o, --output <file>  Output file path (default: input stem + .bin)",
    "  -v, --verbose        Log debug output to stderr",
    "  -h, --help           Show this help message",
    "",
    "Examples:",
    "  pio-prog check blink.pio ws2812.pio",
    "  pio-prog build blink.pio -o blink.bin",
    "  pio-prog place blink.pio ws2812.pio",
    ""]

/-- What a single argument means by its form. -/
inductive Argument where
  | help
  | verbose
  | output
  | option (text : String)
  | plain (text : String)
deriving DecidableEq, Repr

def Argument.ofText (text : String) : Argument :=
  if text = "--help" ∨ text = "-h" then .help
  else if text = "--verbose" ∨ text = "-v" then .verbose
  else if text = "--output" ∨ text = "-o" then .output
  else if text.toList.head? = some '-' then .option text
  else .plain text

def readInputs : List String → Except UsageFault (List Path)
  | [] => .ok []
  | text :: rest =>
    match Argument.ofText text with
    | .help => .error .helpWanted
    | .verbose => readInputs rest
    | .output | .option _ => .error (.unknownOption text)
    | .plain _ => (readInputs rest).map (text.toList :: ·)

def someInput (inputs : List Path) : Except UsageFault (List Path) :=
  if inputs = [] then .error .missingInput else .ok inputs

structure BuildArguments where
  input : Option Path
  output : Option Path
  verbose : Bool
deriving DecidableEq, Repr

namespace BuildArguments

/-- Reads arguments; the argument behind an output option is taken as it is. -/
def read (b : BuildArguments) : List String → Except UsageFault BuildArguments
  | [] => .ok b
  | text :: rest =>
    match Argument.ofText text with
    | .help => .error .helpWanted
    | .verbose => read { b with verbose := true } rest
    | .output =>
      match rest with
      | [] => .error .missingOutput
      | path :: rest => read { b with output := some path.toList } rest
    | .option _ => .error (.unknownOption text)
    | .plain _ =>
      if b.input.isSome then .error .secondInput
      else read { b with input := some text.toList } rest

def request (b : BuildArguments) : Except UsageFault Request :=
  match b.input with
  | some input => .ok (.build input b.output b.verbose)
  | none => .error .missingInput

end BuildArguments

def Request.ofArguments : List String → Except UsageFault Request
  | [] => .error .missingCommand
  | command :: rest =>
    if Argument.ofText command = .help then .ok .help
    else if command = "check" then return .check (← someInput (← readInputs rest))
    else if command = "build" then do (← BuildArguments.read ⟨none, none, false⟩ rest).request
    else if command = "place" then return .place (← someInput (← readInputs rest))
    else .error (.unknownCommand command)

end PioBlock.CommandLine
