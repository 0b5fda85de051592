import ExprMachine.Command.Dialogue
import ExprMachine.Diagnostic.Catalogue
import ExprMachine.Expr.Document

/-!
# The command

`Command.outcome` says what the command `kiln` writes and which exit code it has
for given arguments. It explains an error code, prints a form of a program, runs
a program, or holds a dialogue when it is given none. What it needs from its
surroundings is given to it: options of the environment, the content of files,
and its input.

The command is described with standard streams that are no terminals and with its
log at the default level. So reports have no colour, the prompt of a dialogue has none
either, and no log stands between the reports.
-/

namespace ExprMachine

/-- What a command finds around it. `readFile` gives the content of a file, or
says why it cannot be read. -/
structure Surroundings where
  environment : Environment
  readFile : String → Except String String
  input : String

/-- What a command leaves behind: its exit code, and the texts on standard output
and standard error. -/
structure Outcome where
  exitCode : UInt8
  output : String
  errors : String
deriving DecidableEq, Repr

namespace Outcome

/-- The outcome of a command that did what it was asked to. -/
def success (output : String) : Outcome :=
  ⟨0, output, ""⟩

/-- The outcome of a command that could not do what it was asked to. -/
def failure (output errors : String) : Outcome :=
  ⟨1, output, errors⟩

/-- The outcome of a command that was not understood. -/
def misuse (errors : String) : Outcome :=
  ⟨2, "", errors⟩

end Outcome

namespace UsageError

def message : UsageError → String
  | unknownOption argument => "unknown option '" ++ argument ++ "'"
  | missingValue option => "option '" ++ option ++ "' needs a value"
  | unexpectedValue option => "option '" ++ option ++ "' takes no value"
  | invalidValue option value =>
      "invalid value '" ++ value ++ "' for '" ++ option ++ "'"
  | repeatedOption option => "option '" ++ option ++ "' is given twice"
  | unexpectedFile file => "unexpected argument '" ++ file ++ "'"
  | conflict first second =>
      "'" ++ first ++ "' cannot be used with '" ++ second ++ "'"

end UsageError

namespace Command

def usage : String :=
  Catalogue.paragraph
    ["Usage: kiln [OPTIONS] [FILE]",
      "",
      "  -e, --eval CODE       run CODE instead of a file",
      "      --emit FORM       print the program as ast or bytecode",
      "      --explain CODE    explain an error code",
      "      --stack-size N    number of stack slots",
      "      --format FORMAT   print errors as ansi or json",
      "      --no-color        print errors without colour",
      "  -v, --verbose         log more",
      "      --history PATH    history file of dialogues"]

def version : String := "kiln 0.1.0\n"

/-- An error code with its summary, one below the other. -/
def knownCode (entry : CatalogueEntry) : String :=
  "  " ++ entry.code ++
    String.ofList (List.replicate (7 - entry.code.length) ' ') ++ " " ++
    entry.summary ++ "\n"

/-- Explains an error code, or lists those that can be explained. -/
def explain (code : String) : Outcome :=
  match Catalogue.find? code with
  | some entry => .success entry.explanation
  | none =>
      .failure "" <|
        "error: unknown error code '" ++ code ++ "'. Known codes:\n" ++
          String.join (Catalogue.entries.map knownCode)

def emitted (form : Form) (program : Program) : Except InputError String :=
  match form with
  | .tree => .ok (program.toJson.indented ++ "\n")
  | .bytecode =>
      match program.compileFresh with
      | .ok bytecode => .ok bytecode.text
      | .error failure => .error (.compile failure.error)

def emit (form : Form) (format : ReportFormat) (source : String) : Outcome :=
  match readProgram source >>= emitted form with
  | .ok text => .success text
  | .error error => .failure "" (error.report source format)

/-- Runs a source text. Its value is shown unless it is null. -/
def run (stackSize : Nat) (format : ReportFormat) (source : String) : Outcome :=
  let evaluation := (Session.start stackSize).evaluate source
  match evaluation.result with
  | .ok none | .ok (some .null) => .success evaluation.printed
  | .ok (some value) => .success (value.append evaluation.printed ++ "\n")
  | .error error => .failure evaluation.printed (error.report source format)

/-- Prints a form of a source text if one is asked for, and runs it otherwise. -/
def onSource (arguments : Arguments) (source : String) : Outcome :=
  let format := arguments.format.getD .text
  match arguments.emit with
  | some form => emit form format source
  | none => run (arguments.stackSize.getD defaultStackSize) format source

/-- What a command has to do, once it has the source text if there is one. -/
inductive Task where
  | finish (outcome : Outcome)
  | source (arguments : Arguments) (source : String)
  | file (arguments : Arguments) (path : String)
  | dialogue (arguments : Arguments)

def task (texts : List String) (environment : Environment) : Task :=
  match Arguments.read texts environment with
  | .error .help => .finish (.success usage)
  | .error .version => .finish (.success version)
  | .error (.mistake mistake) =>
      .finish (.misuse ("error: " ++ mistake.message ++ "\n\n" ++ usage))
  | .ok arguments =>
      match arguments.explain, arguments.code, arguments.file, arguments.emit with
      | some code, _, _, _ => .finish (explain code)
      | none, some code, _, _ => .source arguments code
      | none, none, some path, _ => .file arguments path
      | none, none, none, some _ =>
          .finish (.failure "" "error: --emit needs a FILE or --eval CODE\n")
      | none, none, none, none => .dialogue arguments

/-- What comes of a file, given its content or why it cannot be read. -/
def onFile (arguments : Arguments) (path : String)
    (content : Except String String) : Outcome :=
  match content with
  | .ok source => onSource arguments source
  | .error reason =>
      .failure "" ("error: cannot read " ++ path ++ ": " ++ reason ++ "\n")

/-- What the command writes for given arguments and surroundings, and its exit
code. -/
def outcome (texts : List String) (surroundings : Surroundings) : Outcome :=
  match task texts surroundings.environment with
  | .finish outcome => outcome
  | .source arguments source => onSource arguments source
  | .file arguments path => onFile arguments path (surroundings.readFile path)
  | .dialogue arguments =>
      let transcript :=
        Dialogue.transcript (arguments.format.getD .text)
          (arguments.stackSize.getD defaultStackSize) surroundings.input
      ⟨0, transcript.output, transcript.errors⟩

end Command

end ExprMachine
