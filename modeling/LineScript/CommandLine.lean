import LineScript.Command

/-!
# The command line

The arguments of the program are read as a `Request`, and `Request.respond` turns it into what the
program writes and the status it ends with. The first argument selects a command; any other first
argument belongs to the command that runs a file.
-/

namespace LineScript

/-- The arguments of the command that runs a file. -/
structure RunArguments where
  /-- Whether the listing is printed before the program runs. -/
  debug : Bool := false
  path : Option String := none
  deriving DecidableEq, Repr, Inhabited

namespace RunArguments

/-- Reads further arguments. The first that is no option is the path and later ones do not
count; the error is an unknown option. -/
def parseFrom (options : RunArguments) : List String → Except String RunArguments
  | [] => .ok options
  | argument :: rest =>
    if argument = "--debug" ∨ argument = "-d" then parseFrom { options with debug := true } rest
    else if argument.toList.head? = some '-' then .error argument
    else parseFrom { options with path := options.path <|> some argument } rest

def parse (arguments : List String) : Except String RunArguments :=
  parseFrom {} arguments

end RunArguments

namespace CommandLine

structure Response where
  status : Nat
  out : String
  err : String
  deriving DecidableEq, Repr, Inhabited

def helpText : List String :=
  ["HighBasic interpreter",
    "",
    "Usage: hb [--debug] <file.hb>",
    "       hb <command> [options]",
    "",
    "Commands:",
    "  run <file.hb>        Run a HighBasic program",
    "  parse <file.hb>      Print the parsed statements without running",
    "  help                 Show this help message",
    "  version              Show version information",
    "",
    "Run options:",
    "  --debug, -d          Print the parsed statements before running",
    "",
    "Environment:",
    "  RUST_LOG             Interpreter tracing, e.g. RUST_LOG=hb_eval=debug",
    "",
    "Examples:",
    "  hb hello.hb",
    "  hb run --debug hello.hb",
    "  hb parse hello.hb"]

/-- The text of lines, each ended by a newline. -/
def unlines (lines : List String) : String :=
  String.join (lines.map (· ++ "\n"))

/-- What the arguments of the program ask for. -/
inductive Request where
  | help (status : Nat)
  | version
  /-- Nothing that makes sense, for the reasons that these lines give. -/
  | misuse (lines : List String)
  | run (path : String) (debug : Bool)
  | list (path : String)
  deriving DecidableEq, Repr, Inhabited

namespace Request

/-- Reads the arguments of the command that runs a file, with the usage to show when they make
no sense. -/
def ofRunArguments (usage : String) (arguments : List String) : Request :=
  match RunArguments.parse arguments with
  | .error option => misuse ["error: unknown option '" ++ option ++ "'", usage]
  | .ok ⟨_, none⟩ => misuse ["error: missing file path", usage]
  | .ok ⟨debug, some path⟩ => run path debug

def ofArguments (arguments : List String) : Request :=
  match arguments with
  | [] => help 1
  | command :: rest =>
    if command = "run" then ofRunArguments "Usage: hb run [--debug] <file.hb>" rest
    else if command = "parse" then
      match rest with
      | [] => misuse ["Usage: hb parse <file.hb>"]
      | path :: _ => list path
    else if command ∈ ["help", "--help", "-h"] then help 0
    else if command ∈ ["version", "--version", "-V"] then version
    else ofRunArguments "Usage: hb [--debug] <file.hb>" arguments

def path? : Request → Option String
  | run path _ => some path
  | list path => some path
  | _ => none

variable {δ : Type} [Device δ]

/-- The response to the outcome of a command that printed to a console. -/
def conclude : Outcome CommandError (Sink δ) → Option Response
  | .done sink => some ⟨0, sink.shown, ""⟩
  | .failed error sink => some ⟨1, sink.shown, unlines ["error: " ++ error.message]⟩
  | .exhausted => none

/-- The response to a request, where commands print to a console; none if a run was
exhausted. -/
def respond (depth : Nat) (read : Reader) (console : Sink δ) : Request → Option Response
  | help status => some ⟨status, unlines helpText, ""⟩
  | version => some ⟨0, unlines ["HighBasic 0.1.0"], ""⟩
  | misuse lines => some ⟨1, "", unlines lines⟩
  | run path debug => conclude (runFile depth read path debug console)
  | list path => conclude (listFile read path console)

end Request

end CommandLine

end LineScript
