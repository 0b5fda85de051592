import ExprMachine.Span
import ExprMachine.Word

/-!
# Expressions, statements and programs

A program is a list of statements. A statement binds a name or is evaluated for
its value, and carries the span it was read from. Expressions carry no spans.
-/

namespace ExprMachine

/-- An operator with one operand, written before it. -/
inductive UnaryOperator where
  | not
  | negate
deriving DecidableEq, Repr

/-- An operator with two operands, written between them. -/
inductive BinaryOperator where
  | add
  | subtract
  | multiply
  | divide
  | modulo
  | equals
  | notEquals
  | lessThan
  | greaterThan
deriving DecidableEq, Repr

namespace BinaryOperator

def sign : BinaryOperator → String
  | add => "+"
  | subtract => "-"
  | multiply => "*"
  | divide => "/"
  | modulo => "%"
  | equals => "=="
  | notEquals => "!="
  | lessThan => "<"
  | greaterThan => ">"

end BinaryOperator

mutual

inductive Expr where
  | integer (value : Word)
  | boolean (value : Bool)
  | string (content : String)
  | identifier (name : String)
  | unary (operator : UnaryOperator) (operand : Expr)
  | binary (operator : BinaryOperator) (left right : Expr)
  | array (items : List Expr)
  | call (callee : Expr) (arguments : List Expr)
  | index (collection position : Expr)
  | conditional (condition : Expr) (consequence : List Stmt)
      (alternative : Option (List Stmt))

/-- A statement with the span it was read from. -/
inductive Stmt where
  | binding (name : String) (value : Expr) (span : Span)
  | expression (value : Expr) (span : Span)

end

instance : Inhabited Expr := ⟨.boolean false⟩

instance : Inhabited Stmt := ⟨.expression default .unknown⟩

/-- A program is run statement by statement. -/
abbrev Program := List Stmt

namespace Stmt

def span : Stmt → Span
  | binding _ _ span => span
  | expression _ span => span

def value : Stmt → Expr
  | binding _ value _ => value
  | expression value _ => value

/-- Whether a statement is evaluated for its value alone. -/
def isExpression : Stmt → Bool
  | binding .. => false
  | expression .. => true

end Stmt

namespace Expr

/-- What messages call an expression of this shape. -/
def shape : Expr → String
  | integer _ => "integer literal"
  | boolean _ => "boolean literal"
  | string _ => "string literal"
  | identifier _ => "identifier"
  | unary .. => "prefix expression"
  | binary .. => "infix expression"
  | array _ => "array literal"
  | call .. => "call expression"
  | index .. => "index expression"
  | conditional .. => "if expression"

end Expr

/-! ## Spans of nested statements

Conditionals hold statements of their own. A statement comes before those
inside it, and expressions are walked in the order in which they are written. -/

mutual

/-- Appends the spans of the statements inside an expression. -/
def Expr.appendSpans : Expr → Array Span → Array Span
  | .integer _, spans => spans
  | .boolean _, spans => spans
  | .string _, spans => spans
  | .identifier _, spans => spans
  | .unary _ operand, spans => operand.appendSpans spans
  | .binary _ left right, spans => right.appendSpans (left.appendSpans spans)
  | .array items, spans => Expr.appendSpansOfAll items spans
  | .call callee arguments, spans =>
      Expr.appendSpansOfAll arguments (callee.appendSpans spans)
  | .index collection position, spans =>
      position.appendSpans (collection.appendSpans spans)
  | .conditional condition consequence none, spans =>
      Stmt.appendSpansOfAll consequence (condition.appendSpans spans)
  | .conditional condition consequence (some alternative), spans =>
      Stmt.appendSpansOfAll alternative
        (Stmt.appendSpansOfAll consequence (condition.appendSpans spans))

def Expr.appendSpansOfAll : List Expr → Array Span → Array Span
  | [], spans => spans
  | item :: items, spans => Expr.appendSpansOfAll items (item.appendSpans spans)

/-- Appends the span of a statement and of the statements inside it. -/
def Stmt.appendSpans : Stmt → Array Span → Array Span
  | .binding _ value span, spans => value.appendSpans (spans.push span)
  | .expression value span, spans => value.appendSpans (spans.push span)

def Stmt.appendSpansOfAll : List Stmt → Array Span → Array Span
  | [], spans => spans
  | stmt :: stmts, spans => Stmt.appendSpansOfAll stmts (stmt.appendSpans spans)

end

/-- The spans of all statements of a program, nested ones included. -/
def Program.spans (program : Program) : List Span :=
  (Stmt.appendSpansOfAll program #[]).toList

end ExprMachine
