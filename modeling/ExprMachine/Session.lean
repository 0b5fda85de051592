import ExprMachine.Compilation
import ExprMachine.Expr.Parsing
import ExprMachine.Machine
import ExprMachine.Token.Lexing

/-!
# Sessions

A session evaluates inputs one after another. Names, constants and globals of
an input stay for the inputs after it, but only if the input was evaluated to
its end: an input that fails leaves the session as it was.
-/

namespace ExprMachine

/-- Why an input could not be evaluated. -/
inductive InputError where
  | lex (error : LexError)
  | parse (errors : List ParseError)
  | compile (error : CompileError)
  | runtime (error : RuntimeError)
  | fault (fault : Fault)
deriving DecidableEq, Repr

/-- Reads a program that has no errors. -/
def readProgram (source : String) : Except InputError Program :=
  match lex source with
  | .error error => .error (.lex error)
  | .ok tokens =>
      match parse tokens with
      | ⟨program, []⟩ => .ok program
      | ⟨_, errors⟩ => .error (.parse errors)

/-- What is carried from one input to the next. Cells from `fresh` on are not in
use. -/
structure Session where
  symbols : SymbolTable
  constants : Array Value
  globals : Array Value
  stackSize : Nat
  fresh : Cell

/-- What came of an input: what it printed, its value or its error, and the
session after it. The value is missing if the input does not end with an
expression. -/
structure Evaluation where
  printed : String
  result : Except InputError (Option Value)
  session : Session

namespace Session

def start (stackSize : Nat) : Session where
  symbols := .withBuiltins
  constants := #[]
  globals := #[]
  stackSize := stackSize
  fresh := 0

def draft (session : Session) : Draft :=
  .start session.symbols session.constants session.fresh

def reject (session : Session) (printed : String) (error : InputError) :
    Evaluation :=
  ⟨printed, .error error, session⟩

/-- Runs a compiled input. The value asked for is the one popped last. -/
def runDraft (session : Session) (draft : Draft) (wantsValue : Bool) : Evaluation :=
  match (Machine.start session.stackSize session.globals draft.fresh).run
      draft.bytecode with
  | .error ⟨.error error, machine⟩ => session.reject machine.printed (.runtime error)
  | .error ⟨.fault fault, machine⟩ => session.reject machine.printed (.fault fault)
  | .ok machine =>
      { printed := machine.printed
        result := .ok (if wantsValue then some machine.lastPopped else none)
        session :=
          { symbols := draft.symbols
            constants := draft.constants
            globals := machine.globals
            stackSize := session.stackSize
            fresh := machine.fresh } }

def evaluate (session : Session) (source : String) : Evaluation :=
  match readProgram source with
  | .error error => session.reject "" error
  | .ok program =>
      match program.compile session.draft with
      | .error failure => session.reject "" (.compile failure.error)
      | .ok draft =>
          session.runDraft draft (program.getLast?.any Stmt.isExpression)

end Session

end ExprMachine
