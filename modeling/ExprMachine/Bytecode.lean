import ExprMachine.Instruction.Listing
import ExprMachine.Value

/-!
# Bytecode

Bytecode is a stream of instructions with the constants that they refer to by
index.
-/

namespace ExprMachine

/-- A byte stream of instructions and the constants they refer to. -/
structure Bytecode where
  code : List UInt8
  constants : Array Value

namespace Bytecode

/-- Appends the lines of constants, the first of which has the given index. -/
def appendConstants : Nat → List Value → String → String
  | _, [], done => done
  | index, value :: values, done =>
      appendConstants (index + 1) values <|
        value.append (done ++ Line.padded index ++ " " ++ value.kind.name ++ " ")
          ++ "\n"

/-- The listing of the instructions and, if there are any, of the constants. -/
def text (bytecode : Bytecode) : String :=
  let instructions := listing bytecode.code
  if bytecode.constants.isEmpty then
    instructions
  else
    appendConstants 0 bytecode.constants.toList (instructions ++ "constants:\n")

end Bytecode

end ExprMachine
