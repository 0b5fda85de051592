import ExprMachine.Session

/-!
# Diagnostics

A diagnostic is what a reader is told about an error. `InputError.diagnostics`
makes them: one for each error of an input, with the span it is about, notes and
a suggestion where there are any.
-/

namespace ExprMachine

/-- A span that a diagnostic points at, and what it says about it. -/
structure Label where
  span : Span
  message : String
deriving DecidableEq, Repr

structure Diagnostic where
  code : Option String
  message : String
  label : Option Label
  notes : List String
  suggestion : Option String
  source : Option String
deriving DecidableEq, Repr

namespace Diagnostic

def ofMessage (code message : String) : Diagnostic where
  code := some code
  message := message
  label := none
  notes := []
  suggestion := none
  source := none

/-- The report of a lexing error, which points at the text that is no token. -/
def ofLexError (error : LexError) : Diagnostic :=
  { ofMessage LexError.code ("unexpected input '" ++ error.snippet ++ "'") with
    label := some
      { span :=
          ⟨error.position, error.position + max error.snippet.utf8ByteSize 1⟩
        message := "here" }
    suggestion := some error.suggestion }

/-- The report of a parse error, which points at the token that does not fit. -/
def ofParseError (error : ParseError) : Diagnostic :=
  { ofMessage error.code error.message with
    label := some ⟨error.span, "here"⟩ }

def compileNotes : CompileError.Cause → List String
  | .unknownOperator _ => ["only + - * / == != < > have opcodes"]
  | .unsupported _ => ["this form parses but has no bytecode lowering yet"]
  | _ => []

/-- The report of a compile error, which points at the statement if its span is
known. -/
def ofCompileError (error : CompileError) : Diagnostic :=
  { ofMessage error.code error.message with
    label :=
      if error.span = .unknown then none
      else some ⟨error.span, "in this statement"⟩
    notes := compileNotes error.cause }

def runtimeNotes : RuntimeError → List String
  | .unknownOpcode .. | .stackUnderflow =>
      ["the bytecode is malformed; this is a compiler bug"]
  | _ => []

/-- What a reader can do about a runtime error. -/
def runtimeSuggestion? : RuntimeError → Option String
  | .stackOverflow _ =>
      some "raise the limit with --stack-size or KILN_STACK_SIZE"
  | _ => none

/-- The report of a runtime error, which has no place in the source. -/
def ofRuntimeError (error : RuntimeError) : Diagnostic :=
  { ofMessage error.code error.message with
    notes := runtimeNotes error
    suggestion := runtimeSuggestion? error }

end Diagnostic

namespace InputError

/-- The reports of an error, before they are given the source. A fault of the
bytecode has none. -/
def reports : InputError → List Diagnostic
  | lex error => [.ofLexError error]
  | parse errors => errors.map .ofParseError
  | compile error => [.ofCompileError error]
  | runtime error => [.ofRuntimeError error]
  | fault _ => []

def diagnostics (error : InputError) (source : String) : List Diagnostic :=
  error.reports.map fun report => { report with source := some source }

end InputError

end ExprMachine
