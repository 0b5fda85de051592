import ExprMachine.Diagnostic.Document
import ExprMachine.Diagnostic.Rendering
import ExprMachine.Command.Arguments
import ExprMachine.Text

/-!
# Dialogues

A dialogue evaluates the lines of its input one after another in one session. A
prompt is written before each line is read, so also before the end of the input.
-/

namespace ExprMachine

/-- The diagnostics of an error in an input, in the given format, as they are
written to a standard error that is no terminal: without colour. -/
def InputError.report (error : InputError) (source : String)
    (format : ReportFormat) : String :=
  String.join <| (error.diagnostics source).map fun diagnostic =>
    match format with
    | .text => diagnostic.render false
    | .json => diagnostic.line

namespace Dialogue

def prompt : String := "» "

/-- What is written after a line was read, and the session for the next one. -/
structure Reply where
  output : String
  errors : String
  session : Session

/-- The reply to a line. Nothing comes of a line of white space. -/
def reply (format : ReportFormat) (session : Session) (line : String) : Reply :=
  if Text.isBlank line then
    ⟨"", "", session⟩
  else
    let evaluation := session.evaluate line
    match evaluation.result with
    | .ok (some value) =>
        ⟨value.append evaluation.printed ++ "\n", "", evaluation.session⟩
    | .ok none => ⟨evaluation.printed, "", evaluation.session⟩
    | .error error =>
        ⟨evaluation.printed, error.report line format, evaluation.session⟩

/-- A line as it is evaluated, made from its characters in reverse order with
its line feed. One carriage return before the line feed belongs to it. -/
def chomped : List Char → String
  | '\n' :: '\r' :: characters => String.ofList characters.reverse
  | '\n' :: characters => String.ofList characters.reverse
  | characters => String.ofList characters.reverse

/-- Appends the lines of a text, the first of which begins with the characters
of `begun` in reverse order. -/
def appendLines (lines : Array String) (begun : List Char) :
    List Char → Array String
  | [] => if begun.isEmpty then lines else lines.push (chomped begun)
  | c :: text =>
      if c = '\n' then
        appendLines (lines.push (chomped ('\n' :: begun))) [] text
      else
        appendLines lines (c :: begun) text

def lines (input : String) : List String :=
  (appendLines #[] [] input.toList).toList

structure Transcript where
  output : String
  errors : String
  session : Session

/-- Goes on with a dialogue by one line. -/
def Transcript.extend (format : ReportFormat) (transcript : Transcript)
    (line : String) : Transcript :=
  let answered := reply format transcript.session line
  { output := transcript.output ++ prompt ++ answered.output
    errors := transcript.errors ++ answered.errors
    session := answered.session }

/-- A whole dialogue, up to the prompt at the end of its input. -/
def transcript (format : ReportFormat) (stackSize : Nat) (input : String) :
    Transcript :=
  let last :=
    (lines input).foldl (Transcript.extend format) ⟨"", "", .start stackSize⟩
  { last with output := last.output ++ prompt }

end Dialogue

end ExprMachine
