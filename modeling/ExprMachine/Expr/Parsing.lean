import ExprMachine.Expr
import ExprMachine.Token

/-!
# Parsing

Tokens are read through a cursor. Every reader of a construct takes at least
one token, which its result records: `Parsed` holds the value read, the cursor
after it, and the proof that fewer tokens are left. This is what ends the loops
over operators, lists and blocks; nested expressions are bounded by the number
of levels that `expression` has left.

A statement with an error is left out of the program, and reading goes on after
the next semicolon outside brackets.
-/

namespace ExprMachine

/-! ## Errors -/

/-- Why a construct could not be read. The token found is missing at the end of
the input. -/
inductive ParseError.Cause where
  | expectedExpression (found : Option Token)
  | expectedSymbol (wanted : Symbol) (found : Option Token)
  | expectedIdentifier (found : Option Token)
  | nestedTooDeeply
deriving DecidableEq, Repr

/-- A construct that could not be read. The position counts the tokens before
the one that does not fit. -/
structure ParseError where
  cause : ParseError.Cause
  position : Nat
  span : Span
deriving DecidableEq, Repr

/-- The number of levels that expressions may be nested. -/
def maxNesting : Nat := 10000

/-- The number of errors after which reading a program ends. -/
def maxParseErrors : Nat := 20

namespace ParseError

/-- What a message says about the token found. -/
def foundText : Option Token → String
  | some token => token.describe
  | none => "end of input"

def code (error : ParseError) : String :=
  match error.cause with
  | .expectedExpression (some _) => "K-P001"
  | .expectedExpression none => "K-P002"
  | .expectedSymbol _ (some _) => "K-P003"
  | .expectedSymbol _ none => "K-P004"
  | .expectedIdentifier _ => "K-P005"
  | .nestedTooDeeply => "K-P006"

def message (error : ParseError) : String :=
  match error.cause with
  | .expectedExpression found => "expected expression, got " ++ foundText found
  | .expectedSymbol wanted found =>
      "expected " ++ (Token.symbol wanted).describe ++ ", got " ++ foundText found
  | .expectedIdentifier found => "expected identifier, got " ++ foundText found
  | .nestedTooDeeply =>
      "expression nested more than " ++ toString maxNesting ++ " levels deep"

/-- The one-line text of an error, with the place. -/
def display (error : ParseError) : String :=
  "Parse error at token " ++ toString error.position ++ ": " ++ error.message

end ParseError

/-! ## Cursors -/

/-- A place between two tokens. `previous` is the span of the token before it,
and `position` the number of tokens before it. -/
structure Cursor where
  position : Nat
  previous : Span
  rest : List Lexeme

namespace Cursor

def start (tokens : List Lexeme) : Cursor :=
  ⟨0, .unknown, tokens⟩

def token? (cursor : Cursor) : Option Token :=
  cursor.rest.head?.map Lexeme.token

/-- The span of the next token, or the end of the last one. -/
def span (cursor : Cursor) : Span :=
  match cursor.rest with
  | [] => cursor.previous.afterwards
  | next :: _ => next.span

end Cursor

/-- A value read from the tokens at a cursor, and the cursor after them. -/
structure Parsed (α : Type) (start : Cursor) where
  value : α
  after : Cursor
  shorter : after.rest.length < start.rest.length

/-- An error met while reading, and the cursor where it was met. -/
structure ParseFailure where
  cause : ParseError.Cause
  cursor : Cursor

def ParseFailure.error (failure : ParseFailure) : ParseError :=
  ⟨failure.cause, failure.cursor.position, failure.cursor.span⟩

abbrev Reader (α : Type) : Type :=
  (cursor : Cursor) → Except ParseFailure (Parsed α cursor)

namespace Parsed

/-- The same tokens read for another value. -/
def map {α β : Type} {start : Cursor} (f : α → β) (parsed : Parsed α start) :
    Parsed β start :=
  ⟨f parsed.value, parsed.after, parsed.shorter⟩

/-- What was read after another construct, counted from where that began. -/
def since {α : Type} {start middle : Cursor} (parsed : Parsed α middle)
    (earlier : middle.rest.length < start.rest.length) : Parsed α start :=
  ⟨parsed.value, parsed.after, Nat.lt_trans parsed.shorter earlier⟩

end Parsed

def Cursor.next? (cursor : Cursor) : Option (Parsed Token cursor) :=
  match found : cursor.rest with
  | [] => none
  | next :: rest =>
      some ⟨next.token, ⟨cursor.position + 1, next.span, rest⟩, by simp [found]⟩

/-- The cursor after the next token, if that is the wanted one. -/
def Cursor.accept? (wanted : Token) (cursor : Cursor) :
    Option (Parsed Unit cursor) :=
  match cursor.next? with
  | some next => if next.value = wanted then some (next.map fun _ => ()) else none
  | none => none

namespace Reader

/-! ## Single tokens -/

def symbol (wanted : Symbol) : Reader Unit := fun cursor =>
  match cursor.accept? (.symbol wanted) with
  | some accepted => .ok accepted
  | none => .error ⟨.expectedSymbol wanted cursor.token?, cursor⟩

def identifier : Reader String := fun cursor =>
  match cursor.next? with
  | some next =>
      match next.value with
      | .identifier name => .ok (next.map fun _ => name)
      | other => .error ⟨.expectedIdentifier (some other), cursor⟩
  | none => .error ⟨.expectedIdentifier none, cursor⟩

/-- Reads the semicolon after a statement, which may be left out. -/
def optionalSemicolon {start : Cursor} (stmt : Parsed Stmt start) :
    Parsed Stmt start :=
  match stmt.after.accept? (.symbol .semicolon) with
  | some mark =>
      ⟨stmt.value, mark.after, Nat.lt_trans mark.shorter stmt.shorter⟩
  | none => stmt

end Reader

/-! ## Precedence -/

/-- How tightly an operator binds, from the loosest to the tightest. -/
inductive Precedence where
  | lowest
  | equality
  | comparison
  | sum
  | product
  | unary
  | call
  | index
deriving DecidableEq, Repr

namespace Precedence

def rank : Precedence → Nat
  | lowest => 0
  | equality => 1
  | comparison => 2
  | sum => 3
  | product => 4
  | unary => 5
  | call => 6
  | index => 7

end Precedence

namespace BinaryOperator

/-- The operator that a symbol stands for between two operands. -/
def ofSymbol? : Symbol → Option BinaryOperator
  | .plus => some add
  | .minus => some subtract
  | .star => some multiply
  | .slash => some divide
  | .percent => some modulo
  | .equal => some equals
  | .notEqual => some notEquals
  | .less => some lessThan
  | .greater => some greaterThan
  | _ => none

def precedence : BinaryOperator → Precedence
  | equals | notEquals => .equality
  | lessThan | greaterThan => .comparison
  | add | subtract => .sum
  | multiply | divide | modulo => .product

end BinaryOperator

/-- How an expression may go on after its first operand. -/
inductive Continuation where
  | arguments
  | position
  | operator (operator : BinaryOperator)
deriving DecidableEq, Repr

namespace Continuation

/-- How the given token continues an expression, if it does. -/
def ofToken? : Token → Option Continuation
  | .symbol .openParen => some arguments
  | .symbol .openBracket => some position
  | .symbol mark => (BinaryOperator.ofSymbol? mark).map operator
  | _ => none

/-- How tightly a continuation binds the operand before it. -/
def precedence : Continuation → Precedence
  | arguments => .call
  | position => .index
  | operator op => op.precedence

end Continuation

namespace Reader

/-! ## Expressions and statements

The readers below take the reader of nested expressions as a parameter. -/

section Nested

variable (nested : Precedence → Reader Expr)

/-- Reads further list items, each after a comma, and the closing symbol. -/
@[specialize]
def itemsTail (closing : Symbol) {start : Cursor}
    (before : Parsed (Array Expr) start) :
    Except ParseFailure (Parsed (List Expr) start) :=
  match before.after.accept? (.symbol .comma) with
  | some comma => do
      let item ← nested .lowest comma.after
      itemsTail closing
        ⟨before.value.push item.value, item.after,
          Nat.lt_trans item.shorter (Nat.lt_trans comma.shorter before.shorter)⟩
  | none => do
      let closed ← symbol closing before.after
      .ok ⟨before.value.toList, closed.after,
        Nat.lt_trans closed.shorter before.shorter⟩
termination_by before.after.rest.length
decreasing_by exact Nat.lt_trans item.shorter comma.shorter

/-- Reads the items of a list, the opening symbol of which has been read, and
the closing symbol. -/
@[specialize]
def items (closing : Symbol) : Reader (List Expr) := fun cursor =>
  match cursor.accept? (.symbol closing) with
  | some closed => .ok (closed.map fun _ => [])
  | none => do
      let first ← nested .lowest cursor
      itemsTail nested closing (first.map fun item => #[item])

/-- Reads what comes after `let` in a statement that begins at the given span. -/
@[specialize]
def binding (begun : Span) : Reader Stmt := fun cursor => do
  let name ← identifier cursor
  let assign ← symbol .assign name.after
  let value ← nested .lowest assign.after
  let span := begun.merge value.after.previous
  .ok <| optionalSemicolon <|
    ((value.map fun value => Stmt.binding name.value value span).since
      assign.shorter).since name.shorter

@[specialize]
def expressionStatement : Reader Stmt := fun cursor => do
  let value ← nested .lowest cursor
  let span := cursor.span.merge value.after.previous
  .ok <| optionalSemicolon <| value.map fun value => .expression value span

/-- Reads a statement and the semicolon after it, if there is one. -/
@[specialize]
def statement : Reader Stmt := fun cursor =>
  match cursor.accept? (.keyword .letWord) with
  | some word => return (← binding nested cursor.span word.after).since word.shorter
  | none => expressionStatement nested cursor

/-- Reads further statements of a block and its closing brace. -/
@[specialize]
def blockTail {start : Cursor} (before : Parsed (Array Stmt) start) :
    Except ParseFailure (Parsed (List Stmt) start) :=
  if before.after.rest.isEmpty ∨ before.after.token? = some (.symbol .closeBrace) then do
    let closed ← symbol .closeBrace before.after
    .ok ⟨before.value.toList, closed.after,
      Nat.lt_trans closed.shorter before.shorter⟩
  else do
    let stmt ← statement nested before.after
    blockTail
      ⟨before.value.push stmt.value, stmt.after,
        Nat.lt_trans stmt.shorter before.shorter⟩
termination_by before.after.rest.length
decreasing_by exact stmt.shorter

@[specialize]
def block : Reader (List Stmt) := fun cursor => do
  let opened ← symbol .openBrace cursor
  blockTail nested (opened.map fun _ => #[])

/-- Reads the other branch of a conditional, if there is one. -/
@[specialize]
def alternative {start : Cursor} (condition : Expr)
    (consequence : Parsed (List Stmt) start) :
    Except ParseFailure (Parsed Expr start) :=
  match consequence.after.accept? (.keyword .elseWord) with
  | some word => do
      let other ← block nested word.after
      .ok ⟨.conditional condition consequence.value (some other.value), other.after,
        Nat.lt_trans other.shorter
          (Nat.lt_trans word.shorter consequence.shorter)⟩
  | none =>
      .ok (consequence.map fun stmts => .conditional condition stmts none)

/-- Reads what comes after `if`. -/
@[specialize]
def conditional : Reader Expr := fun cursor => do
  let opened ← symbol .openParen cursor
  let condition ← nested .lowest opened.after
  let closed ← symbol .closeParen condition.after
  let consequence ← block nested closed.after
  alternative nested condition.value
    (((consequence.since closed.shorter).since condition.shorter).since
      opened.shorter)

/-- Reads the operand of a unary operator. -/
@[specialize]
def unaryOperand (operator : UnaryOperator) : Reader Expr := fun cursor => do
  let operand ← nested .unary cursor
  .ok (operand.map fun operand => .unary operator operand)

/-- Reads an expression in parentheses, the first of which has been read. -/
@[specialize]
def group : Reader Expr := fun cursor => do
  let inner ← nested .lowest cursor
  let closed ← symbol .closeParen inner.after
  .ok ((closed.map fun _ => inner.value).since inner.shorter)

/-- Reads the first operand of an expression, with its unary operators. -/
@[specialize]
def operand : Reader Expr := fun cursor =>
  match cursor.next? with
  | some next =>
      match next.value with
      | .integer value => .ok (next.map fun _ => .integer value)
      | .string content => .ok (next.map fun _ => .string content)
      | .keyword .trueWord => .ok (next.map fun _ => .boolean true)
      | .keyword .falseWord => .ok (next.map fun _ => .boolean false)
      | .identifier name => .ok (next.map fun _ => .identifier name)
      | .symbol .bang => return (← unaryOperand nested .not next.after).since next.shorter
      | .symbol .minus => return (← unaryOperand nested .negate next.after).since next.shorter
      | .symbol .openParen => return (← group nested next.after).since next.shorter
      | .symbol .openBracket =>
          return ((← items nested .closeBracket next.after).map Expr.array).since next.shorter
      | .keyword .ifWord => return (← conditional nested next.after).since next.shorter
      | other => .error ⟨.expectedExpression (some other), cursor⟩
  | none => .error ⟨.expectedExpression none, cursor⟩

/-- Reads the part of a continuation after its first token. -/
@[specialize]
def continuationBody (left : Expr) : Continuation → Reader Expr
  | .arguments, cursor => do
      let list ← items nested .closeParen cursor
      .ok (list.map fun arguments => .call left arguments)
  | .position, cursor => do
      let position ← nested .lowest cursor
      let closed ← symbol .closeBracket position.after
      .ok ((closed.map fun _ => .index left position.value).since position.shorter)
  | .operator operator, cursor => do
      let right ← nested operator.precedence cursor
      .ok (right.map fun right => .binary operator left right)

/-- Continues an expression for as long as the next operator binds more tightly
than the given precedence. -/
@[specialize]
def continuations (minimum : Precedence) {start : Cursor}
    (left : Parsed Expr start) : Except ParseFailure (Parsed Expr start) :=
  match left.after.next? with
  | some next =>
      match Continuation.ofToken? next.value with
      | some continuation =>
          if minimum.rank < continuation.precedence.rank then do
            let whole ← continuationBody nested left.value continuation next.after
            continuations minimum
              ⟨whole.value, whole.after,
                Nat.lt_trans whole.shorter (Nat.lt_trans next.shorter left.shorter)⟩
          else
            .ok left
      | none => .ok left
  | none => .ok left
termination_by left.after.rest.length
decreasing_by exact Nat.lt_trans whole.shorter next.shorter

end Nested

/-- Reads an expression whose operators bind more tightly than the given
precedence, nested no deeper than the given number of levels. -/
def expression : (levels : Nat) → Precedence → Reader Expr
  | 0, _, cursor => .error ⟨.nestedTooDeeply, cursor⟩
  | levels + 1, minimum, cursor => do
      let left ← operand (expression levels) cursor
      continuations (expression levels) minimum left

end Reader

/-! ## Programs -/

namespace Cursor

/-- Moves past the next semicolon that stands outside the brackets opened on
the way, or to the end of the input. A bracket that was opened before does not
count when it closes. -/
def afterStatement (cursor : Cursor) (depth : Nat) : Cursor :=
  match cursor.next? with
  | none => cursor
  | some next =>
      match next.value with
      | .symbol .openParen | .symbol .openBracket | .symbol .openBrace =>
          next.after.afterStatement (depth + 1)
      | .symbol .closeParen | .symbol .closeBracket | .symbol .closeBrace =>
          next.after.afterStatement (depth - 1)
      | .symbol .semicolon =>
          if depth = 0 then
            next.after
          else
            next.after.afterStatement depth
      | _ => next.after.afterStatement depth
termination_by cursor.rest.length
decreasing_by all_goals exact next.shorter

end Cursor

/-- The statements that could be read, and the errors of those that could not. -/
structure ParsedProgram where
  program : Program
  errors : List ParseError

/-- Reads the statements from a cursor to the end of the input, or until no
further error is allowed. -/
def statementsFrom (allowed : Nat) (statements : Array Stmt)
    (errors : Array ParseError) (cursor : Cursor) : ParsedProgram :=
  match allowed, cursor.rest with
  | 0, _ => ⟨statements.toList, errors.toList⟩
  | _, [] => ⟨statements.toList, errors.toList⟩
  | allowed + 1, _ :: _ =>
      match Reader.statement (Reader.expression maxNesting) cursor with
      | .ok stmt =>
          statementsFrom (allowed + 1) (statements.push stmt.value) errors
            stmt.after
      | .error failure =>
          statementsFrom allowed statements (errors.push failure.error)
            (failure.cursor.afterStatement 0)
termination_by (allowed, cursor.rest.length)
decreasing_by
  · exact Prod.Lex.right _ stmt.shorter
  · exact Prod.Lex.left _ _ (Nat.lt_succ_self allowed)

/-- Reads a program from its tokens. -/
def parse (tokens : List Lexeme) : ParsedProgram :=
  statementsFrom maxParseErrors #[] #[] (.start tokens)

end ExprMachine
