import ExprMachine.Command

/-!
# The program

The outermost layer: it fetches what a command needs, and writes what comes of
it. A dialogue is held line by line.
-/

namespace ExprMachine

/-- What a failed system call is reported as. -/
def failureText (error : IO.Error) : String :=
  match error with
  | .noFileOrDirectory _ _ _ => "No such file or directory (os error 2)"
  | .inappropriateType _ _ _ => "Is a directory (os error 21)"
  | .permissionDenied _ _ _ => "Permission denied (os error 13)"
  | other => toString other

/-- The content of a file, or why it cannot be read. -/
def readSource (path : String) : IO (Except String String) := do
  try
    let bytes ← IO.FS.readBinFile path
    match String.fromUTF8? bytes with
    | some text => return .ok text
    | none => return .error "stream did not contain valid UTF-8"
  catch error =>
    return .error (failureText error)

def writeOutcome (outcome : Outcome) : IO UInt32 := do
  IO.print outcome.output
  IO.eprint outcome.errors
  return outcome.exitCode.toUInt32

/-- Replies to the lines of the standard input until it ends. -/
partial def converse (format : ReportFormat) (session : Session) : IO Unit := do
  let output ← IO.getStdout
  output.putStr Dialogue.prompt
  output.flush
  let line ← (← IO.getStdin).getLine
  unless line.isEmpty do
    let reply :=
      Dialogue.reply format session (Dialogue.chomped line.toList.reverse)
    output.putStr reply.output
    output.flush
    IO.eprint reply.errors
    converse format reply.session

def perform (texts : List String) : IO UInt32 := do
  let stackSize ← IO.getEnv "KILN_STACK_SIZE"
  let history ← IO.getEnv "KILN_HISTORY"
  match Command.task texts ⟨stackSize, history⟩ with
  | .finish outcome => writeOutcome outcome
  | .source arguments source => writeOutcome (Command.onSource arguments source)
  | .file arguments path =>
      writeOutcome (Command.onFile arguments path (← readSource path))
  | .dialogue arguments => do
      converse (arguments.format.getD .text)
        (.start (arguments.stackSize.getD defaultStackSize))
      return 0

end ExprMachine

def main (texts : List String) : IO UInt32 :=
  ExprMachine.perform texts
