import ExprMachine.Bytecode
import ExprMachine.Expr
import ExprMachine.SymbolTable

/-!
# Compilation

A draft holds what has been compiled so far. Compiling an expression appends the
instructions that leave its value on the stack; compiling a statement appends
those that also take the value off again. Constants and names are only ever
added, so that the draft of one program can be the start of the next one.

When a construct cannot be compiled, the draft reached so far is handed back
together with the cause.
-/

namespace ExprMachine

/-- The number of constants that an operand can refer to. -/
def maxConstants : Nat := 65536

/-- What an operand counts or numbers, as far as programs can run out of it. -/
inductive Limited where
  | arrayElements
  | callArguments
  | globals
deriving DecidableEq, Repr

namespace Limited

def name : Limited → String
  | arrayElements => "array elements"
  | callArguments => "call arguments"
  | globals => "globals"

/-- How many of them an operand can count or number. -/
def limit : Limited → Nat
  | arrayElements => 65535
  | callArguments => 255
  | globals => 65536

end Limited

/-- Why a construct cannot be compiled. -/
inductive CompileError.Cause where
  | undefinedVariable (name : String)
  | unsupported (shape : String)
  | unknownOperator (operator : BinaryOperator)
  | tooManyConstants
  | tooMany (what : Limited) (count : Nat)
deriving DecidableEq, Repr

/-- A construct that cannot be compiled, and the span of its statement. -/
structure CompileError where
  cause : CompileError.Cause
  span : Span
deriving DecidableEq, Repr

namespace CompileError

def code (error : CompileError) : String :=
  match error.cause with
  | .undefinedVariable _ => "K-C001"
  | .unsupported _ => "K-C002"
  | .unknownOperator _ => "K-C003"
  | .tooManyConstants => "K-C004"
  | .tooMany .. => "K-C005"

def message (error : CompileError) : String :=
  match error.cause with
  | .undefinedVariable name => "undefined variable: " ++ name
  | .unsupported shape => shape ++ " is not supported by the bytecode compiler"
  | .unknownOperator operator => "unknown operator: " ++ operator.sign
  | .tooManyConstants =>
      "too many constants: the pool holds at most " ++ toString maxConstants
  | .tooMany what count =>
      "too many " ++ what.name ++ ": " ++ toString count ++
        " exceeds the limit of " ++ toString what.limit

end CompileError

/-- What has been compiled so far. Cells from `fresh` on are not in use. -/
structure Draft where
  code : Array Instruction
  constants : Array Value
  symbols : SymbolTable
  fresh : Cell

/-- Why an expression cannot be compiled, and the draft reached before. -/
structure Rejection where
  cause : CompileError.Cause
  draft : Draft

/-- Why a program cannot be compiled, and the draft reached before. -/
structure CompileFailure where
  error : CompileError
  draft : Draft

namespace Draft

def start (symbols : SymbolTable) (constants : Array Value) (fresh : Cell) : Draft :=
  ⟨#[], constants, symbols, fresh⟩

def emit (draft : Draft) (opcode : Opcode) (operands : List Nat) : Draft :=
  { draft with code := draft.code.push ⟨opcode, operands⟩ }

def emitConstant (draft : Draft) (value : Value) : Except Rejection Draft :=
  if draft.constants.size < maxConstants then
    let index := draft.constants.size
    .ok <| { draft with constants := draft.constants.push value }.emit .constant [index]
  else
    .error ⟨.tooManyConstants, draft⟩

/-- Appends a string constant, built in a fresh cell. -/
def emitString (draft : Draft) (content : String) : Except Rejection Draft :=
  let cell := draft.fresh
  { draft with fresh := cell + 1 }.emitConstant (.string cell content)

def emitName (draft : Draft) (name : String) : Except Rejection Draft :=
  match draft.symbols.resolve? name with
  | some ⟨.global, slot⟩ => .ok (draft.emit .getGlobal [slot])
  | some ⟨.builtin, index⟩ => .ok (draft.emit .getBuiltin [index])
  | none => .error ⟨.undefinedVariable name, draft⟩

/-- Gives a name its slot, and appends the instruction that fills the slot. -/
def emitBinding (draft : Draft) (name : String) : Except Rejection Draft :=
  let (slot, symbols) := draft.symbols.define name
  let draft := { draft with symbols }
  if slot < Limited.globals.limit then
    .ok (draft.emit .setGlobal [slot])
  else
    .error ⟨.tooMany .globals (slot + 1), draft⟩

def bytecode (draft : Draft) : Bytecode :=
  ⟨Instruction.encodeAll draft.code.toList, draft.constants⟩

end Draft

def UnaryOperator.opcode : UnaryOperator → Opcode
  | not => .bang
  | negate => .minus

/-- The opcode that takes the operands of an operator in the order in which they
are written, if there is one. -/
def BinaryOperator.opcode? : BinaryOperator → Option Opcode
  | add => some .add
  | subtract => some .subtract
  | multiply => some .multiply
  | divide => some .divide
  | equals => some .equal
  | notEquals => some .notEqual
  | greaterThan => some .greaterThan
  | lessThan | modulo => none

mutual

/-- Appends the instructions that push the value of an expression. Less-than is
compiled as greater-than with its operands in the opposite order. -/
def Expr.compile : Expr → Draft → Except Rejection Draft
  | .integer value, draft => draft.emitConstant (.integer value)
  | .string content, draft => draft.emitString content
  | .boolean true, draft => .ok (draft.emit .pushTrue [])
  | .boolean false, draft => .ok (draft.emit .pushFalse [])
  | .identifier name, draft => draft.emitName name
  | .unary operator operand, draft => do
      let draft ← operand.compile draft
      .ok (draft.emit operator.opcode [])
  | .binary .lessThan left right, draft => do
      let draft ← right.compile draft
      let draft ← left.compile draft
      .ok (draft.emit .greaterThan [])
  | .binary operator left right, draft =>
      match operator.opcode? with
      | some opcode => do
          let draft ← left.compile draft
          let draft ← right.compile draft
          .ok (draft.emit opcode [])
      | none => .error ⟨.unknownOperator operator, draft⟩
  | .array items, draft =>
      if items.length ≤ Limited.arrayElements.limit then do
        let draft ← Expr.compileAll items draft
        .ok (draft.emit .array [items.length])
      else
        .error ⟨.tooMany .arrayElements items.length, draft⟩
  | .call callee arguments, draft =>
      if arguments.length ≤ Limited.callArguments.limit then do
        let draft ← callee.compile draft
        let draft ← Expr.compileAll arguments draft
        .ok (draft.emit .call [arguments.length])
      else
        .error ⟨.tooMany .callArguments arguments.length, draft⟩
  | .index collection position, draft =>
      .error ⟨.unsupported (Expr.index collection position).shape, draft⟩
  | .conditional condition consequence alternative, draft =>
      .error ⟨.unsupported (Expr.conditional condition consequence alternative).shape,
        draft⟩

def Expr.compileAll : List Expr → Draft → Except Rejection Draft
  | [], draft => .ok draft
  | item :: items, draft => do
      let draft ← item.compile draft
      Expr.compileAll items draft

end

/-- Appends the instructions of a statement, which leave the stack as it was. -/
def Stmt.compileBody (stmt : Stmt) (draft : Draft) : Except Rejection Draft := do
  let draft ← stmt.value.compile draft
  match stmt with
  | .binding name _ _ => draft.emitBinding name
  | .expression _ _ => .ok (draft.emit .pop [])

/-- Appends the instructions of a statement. Errors carry its span. -/
def Stmt.compile (stmt : Stmt) (draft : Draft) : Except CompileFailure Draft :=
  (stmt.compileBody draft).mapError fun rejection =>
    ⟨⟨rejection.cause, stmt.span⟩, rejection.draft⟩

def Program.compile (program : Program) (draft : Draft) :
    Except CompileFailure Draft :=
  program.foldlM (fun draft stmt => stmt.compile draft) draft

def Program.compileFresh (program : Program) : Except CompileFailure Bytecode :=
  (program.compile (.start .withBuiltins #[] 0)).map Draft.bytecode

end ExprMachine
