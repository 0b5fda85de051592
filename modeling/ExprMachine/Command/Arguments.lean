import ExprMachine.Machine

/-!
# Command line arguments

Arguments are options and at most one file. An option is given by its long name
or, for a few, by a letter; letters may share one argument. The value of an
option follows an equals sign, its letter, or in the next argument, which then
must not look like an option itself. After `--` every argument is a file.

`Arguments.read` takes the arguments one by one, so of two mistakes the first is
reported. Help and version are answered as soon as they are asked for. Between
two arguments, `Progress` knows the option that still awaits its value.
-/

namespace ExprMachine

/-- What can be printed in place of running a program. -/
inductive Form where
  | tree
  | bytecode
deriving DecidableEq, Repr

inductive ReportFormat where
  | text
  | json
deriving DecidableEq, Repr

inductive UsageError where
  | unknownOption (argument : String)
  | missingValue (option : String)
  | unexpectedValue (option : String)
  | invalidValue (option value : String)
  | repeatedOption (option : String)
  | unexpectedFile (file : String)
  | conflict (first second : String)
deriving DecidableEq, Repr

/-- What the arguments ask for. Three options have an effect that is not described
here. With `noColour`, or when `NO_COLOR` is set, reports are not coloured on a
terminal; elsewhere they never are. The verbosity, like `KILN_LOG` and `RUST_LOG`,
lets a command write a log to standard error. The history file is read and written
by the line editor of a dialogue. -/
structure Arguments where
  file : Option String
  code : Option String
  emit : Option Form
  explain : Option String
  stackSize : Option Nat
  format : Option ReportFormat
  noColour : Bool
  verbosity : Nat
  history : Option String
deriving DecidableEq, Repr

structure Environment where
  stackSize : Option String
  history : Option String
deriving DecidableEq, Repr

/-- What stands in the way of running a program. -/
inductive Detour where
  | help
  | version
  | mistake (error : UsageError)
deriving DecidableEq, Repr

/-- The options that have a value. -/
inductive ValueOption where
  | code
  | emit
  | explain
  | stackSize
  | format
  | history
deriving DecidableEq, Repr

/-- The options that have no value. -/
inductive Switch where
  | noColour
  | verbose
  | help
  | version
deriving DecidableEq, Repr

namespace ValueOption

def name : ValueOption → String
  | code => "eval"
  | emit => "emit"
  | explain => "explain"
  | stackSize => "stack-size"
  | format => "format"
  | history => "history"

def all : List ValueOption :=
  [code, emit, explain, stackSize, format, history]

end ValueOption

namespace Switch

def name : Switch → String
  | noColour => "no-color"
  | verbose => "verbose"
  | help => "help"
  | version => "version"

def all : List Switch :=
  [noColour, verbose, help, version]

end Switch

namespace Arguments

def empty : Arguments where
  file := none
  code := none
  emit := none
  explain := none
  stackSize := none
  format := none
  noColour := false
  verbosity := 0
  history := none

/-! ## Values -/

/-- The number written in decimal digits, perhaps after a plus sign, if it fits
into 64 bits and there is at least one digit. -/
def count? (text : String) : Option Nat :=
  let digits :=
    match text.toList with
    | '+' :: digits => digits
    | digits => digits
  if digits.isEmpty || !digits.all Char.isDigit then
    none
  else
    let value := Nat.ofDigitChars 10 digits 0
    if value < UInt64.size then some value else none

/-- A stack size is a count other than zero. -/
def stackSize? (text : String) : Option Nat :=
  (count? text).filter fun size => size ≠ 0

def form? : String → Option Form
  | "ast" => some .tree
  | "bytecode" => some .bytecode
  | _ => none

def format? : String → Option ReportFormat
  | "ansi" => some .text
  | "json" => some .json
  | _ => none

/-- Sets an option that must not be set yet to a value that must exist. -/
def setOnce {α : Type} (option : ValueOption) (text : String) (old value : Option α) :
    Except Detour (Option α) :=
  match old, value with
  | some _, _ => .error (.mistake (.repeatedOption option.name))
  | none, none => .error (.mistake (.invalidValue option.name text))
  | none, some value => .ok (some value)

/-- Sets an option to the value with the given text. -/
def set (arguments : Arguments) (option : ValueOption) (text : String) :
    Except Detour Arguments :=
  match option with
  | .code => do
      let code ← setOnce option text arguments.code (some text)
      .ok { arguments with code }
  | .emit => do
      let emit ← setOnce option text arguments.emit (form? text)
      .ok { arguments with emit }
  | .explain => do
      let explain ← setOnce option text arguments.explain (some text)
      .ok { arguments with explain }
  | .stackSize => do
      let stackSize ← setOnce option text arguments.stackSize (stackSize? text)
      .ok { arguments with stackSize }
  | .format => do
      let format ← setOnce option text arguments.format (format? text)
      .ok { arguments with format }
  | .history => do
      let history ←
        setOnce option text arguments.history
          (if text.isEmpty then none else some text)
      .ok { arguments with history }

/-- Turns a switch on. Only `verbose` may be repeated. -/
def turnOn (arguments : Arguments) : Switch → Except Detour Arguments
  | .noColour =>
      if arguments.noColour then
        .error (.mistake (.repeatedOption Switch.noColour.name))
      else
        .ok { arguments with noColour := true }
  | .verbose => .ok { arguments with verbosity := arguments.verbosity + 1 }
  | .help => .error .help
  | .version => .error .version

/-- Takes an argument that is no option. -/
def setFile (arguments : Arguments) (file : String) : Except Detour Arguments :=
  if arguments.file.isSome then
    .error (.mistake (.unexpectedFile file))
  else if file.isEmpty then
    .error (.mistake (.invalidValue "FILE" file))
  else
    .ok { arguments with file := some file }

/-! ## Reading -/

/-- Whether an argument looks like an option. A lone dash does not. -/
def looksLikeOption (argument : String) : Bool :=
  match argument.toList with
  | '-' :: _ :: _ => true
  | _ => false

/-- A character of the name of a long option. -/
def isNameCharacter (c : Char) : Bool :=
  c ≠ '='

end Arguments

/-- What is known between two arguments: what was asked for so far, the option
that awaits its value, and whether only files may follow. -/
structure Progress where
  arguments : Arguments
  awaiting : Option ValueOption
  onlyFiles : Bool
deriving DecidableEq, Repr

namespace Progress

def start : Progress :=
  ⟨.empty, none, false⟩

def settled (arguments : Arguments) : Progress :=
  ⟨arguments, none, false⟩

/-- Takes a long option, the text of which comes after two dashes. -/
def takeLong (arguments : Arguments) (text : List Char) : Except Detour Progress :=
  let name := String.ofList (text.takeWhile Arguments.isNameCharacter)
  let value :=
    match text.dropWhile Arguments.isNameCharacter with
    | _ :: value => some (String.ofList value)
    | [] => none
  match ValueOption.all.find? fun option => option.name = name, value with
  | some option, some value => (arguments.set option value).map settled
  | some option, none => .ok ⟨arguments, some option, false⟩
  | none, value =>
      match Switch.all.find? fun switch => switch.name = name, value with
      | some switch, none => (arguments.turnOn switch).map settled
      | some switch, some _ => .error (.mistake (.unexpectedValue switch.name))
      | none, _ => .error (.mistake (.unknownOption name))

/-- Takes the letters of an argument after its dash. What follows the letter of
an option with a value is the value, perhaps after an equals sign. -/
def takeLetters (arguments : Arguments) : List Char → Except Detour Progress
  | [] => .ok (settled arguments)
  | 'v' :: letters => do takeLetters (← arguments.turnOn .verbose) letters
  | 'h' :: letters => do takeLetters (← arguments.turnOn .help) letters
  | 'V' :: letters => do takeLetters (← arguments.turnOn .version) letters
  | 'e' :: [] => .ok ⟨arguments, some .code, false⟩
  | 'e' :: '=' :: value => (arguments.set .code (String.ofList value)).map settled
  | 'e' :: value => (arguments.set .code (String.ofList value)).map settled
  | letter :: _ => .error (.mistake (.unknownOption (String.singleton letter)))

/-- Takes an argument that is not the value of the option before it. -/
def takeFresh (arguments : Arguments) (text : String) : Except Detour Progress :=
  match text.toList with
  | ['-', '-'] => .ok ⟨arguments, none, true⟩
  | '-' :: '-' :: name => takeLong arguments name
  | '-' :: letter :: letters => takeLetters arguments (letter :: letters)
  | _ => (arguments.setFile text).map settled

def take (progress : Progress) (text : String) : Except Detour Progress :=
  if progress.onlyFiles then do
    let arguments ← progress.arguments.setFile text
    .ok { progress with arguments }
  else
    match progress.awaiting with
    | some option =>
        if Arguments.looksLikeOption text then
          .error (.mistake (.missingValue option.name))
        else
          (progress.arguments.set option text).map settled
    | none => takeFresh progress.arguments text

def finish (progress : Progress) : Except Detour Arguments :=
  match progress.awaiting with
  | some option => .error (.mistake (.missingValue option.name))
  | none => .ok progress.arguments

end Progress

namespace Arguments

/-- The arguments with an option of the environment, unless they set it. -/
def withDefault {α : Type} (arguments : Arguments) (option : ValueOption)
    (current : Option α) (text : Option String) : Except Detour Arguments :=
  match current, text with
  | none, some text => arguments.set option text
  | _, _ => .ok arguments

/-- What the arguments ask for, where some options may come from the
environment. Code and a file exclude each other. -/
def read (texts : List String) (environment : Environment) :
    Except Detour Arguments := do
  let progress ← texts.foldlM Progress.take .start
  let arguments ← progress.finish
  let arguments ←
    arguments.withDefault .stackSize arguments.stackSize environment.stackSize
  let arguments ←
    arguments.withDefault .history arguments.history environment.history
  if arguments.code.isSome && arguments.file.isSome then
    .error (.mistake (.conflict ValueOption.code.name "FILE"))
  else
    .ok arguments

end Arguments

end ExprMachine
