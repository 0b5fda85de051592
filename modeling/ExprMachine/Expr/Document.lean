import ExprMachine.Expr
import ExprMachine.Json.Printing
import ExprMachine.Json.Reading

/-!
# Programs as JSON documents

`Program.toJson` writes a program as a document and `Program.ofJson?` reads one
back. Each form of expression and statement is an object with one member, named
for the form; forms with several parts hold a record of them. Spans are left
out, so a program that is read has unknown spans.

Documents are read only if they open no more than `maxDocumentDepth` arrays and
objects inside one another; members that are not looked at do not count.
-/

namespace ExprMachine

/-- The number of arrays and objects that may be open at once. -/
def maxDocumentDepth : Nat := 127

namespace UnaryOperator

def documentName : UnaryOperator → String
  | not => "Not"
  | negate => "Negate"

def ofDocumentName? : String → Option UnaryOperator
  | "Not" => some not
  | "Negate" => some negate
  | _ => none

end UnaryOperator

namespace BinaryOperator

def documentName : BinaryOperator → String
  | add => "Add"
  | subtract => "Subtract"
  | multiply => "Multiply"
  | divide => "Divide"
  | modulo => "Modulo"
  | equals => "Equals"
  | notEquals => "NotEquals"
  | lessThan => "LessThan"
  | greaterThan => "GreaterThan"

def ofDocumentName? : String → Option BinaryOperator
  | "Add" => some add
  | "Subtract" => some subtract
  | "Multiply" => some multiply
  | "Divide" => some divide
  | "Modulo" => some modulo
  | "Equals" => some equals
  | "NotEquals" => some notEquals
  | "LessThan" => some lessThan
  | "GreaterThan" => some greaterThan
  | _ => none

end BinaryOperator

/-! ## Writing -/

mutual

def Expr.toJson : Expr → Json
  | .integer value => .tagged "Integer" (.ofInt value.toInt)
  | .boolean value => .tagged "Boolean" (.boolean value)
  | .string content => .tagged "Str" (.ofText content)
  | .identifier name => .tagged "Ident" (.ofText name)
  | .unary operator operand =>
      .tagged "Prefix" <| .record
        [("op", .ofText operator.documentName), ("right", operand.toJson)]
  | .binary operator left right =>
      .tagged "Infix" <| .record
        [("op", .ofText operator.documentName), ("left", left.toJson),
          ("right", right.toJson)]
  | .array items => .tagged "Array" (.array (Expr.appendJson items #[]).toList)
  | .call callee arguments =>
      .tagged "Call" <| .record
        [("function", callee.toJson),
          ("args", .array (Expr.appendJson arguments #[]).toList)]
  | .index collection position =>
      .tagged "Index" <| .record
        [("left", collection.toJson), ("index", position.toJson)]
  | .conditional condition consequence none =>
      .tagged "If" <| .record
        [("condition", condition.toJson),
          ("consequence", .array (Stmt.appendJson consequence #[]).toList),
          ("alternative", .null)]
  | .conditional condition consequence (some alternative) =>
      .tagged "If" <| .record
        [("condition", condition.toJson),
          ("consequence", .array (Stmt.appendJson consequence #[]).toList),
          ("alternative", .array (Stmt.appendJson alternative #[]).toList)]

def Expr.appendJson : List Expr → Array Json → Array Json
  | [], done => done
  | item :: items, done => Expr.appendJson items (done.push item.toJson)

def Stmt.toJson : Stmt → Json
  | .binding name value _ =>
      .tagged "Let" <| .record [("name", .ofText name), ("value", value.toJson)]
  | .expression value _ => .tagged "Expr" <| .record [("expr", value.toJson)]

def Stmt.appendJson : List Stmt → Array Json → Array Json
  | [], done => done
  | stmt :: stmts, done => Stmt.appendJson stmts (done.push stmt.toJson)

end

def Program.toJson (program : Program) : Json :=
  .record [("statements", .array (Stmt.appendJson program #[]).toList)]

/-! ## Reading -/

/-- The name of a form without parts, which is written as a string or as an
object whose one member is null. -/
def Json.bareTag? (depth : Nat) : Json → Option String
  | .string literal => unescape? literal
  | .object [(key, .null)] => if 0 < depth then unescape? key else none
  | _ => none

def Json.word? (document : Json) : Option Word :=
  document.integer? >>= Word.ofInt?

mutual

/-- The expression of a document that may open the given number of arrays and
objects. -/
def Expr.ofJson? : (depth : Nat) → Json → Option Expr
  | depth, .object [(key, body)] =>
      match Json.unescape? key, depth with
      | some "Integer", _ + 1 => body.word?.map .integer
      | some "Boolean", _ + 1 =>
          match body with
          | .boolean value => some (.boolean value)
          | _ => none
      | some "Str", _ + 1 => body.text?.map .string
      | some "Ident", _ + 1 => body.text?.map .identifier
      | some "Prefix", inner + 2 =>
          match body.fields? ["op", "right"] with
          | some [some operator, some operand] => do
              let name ← operator.bareTag? inner
              let operator ← UnaryOperator.ofDocumentName? name
              let operand ← Expr.ofJson? inner operand
              some (.unary operator operand)
          | _ => none
      | some "Infix", inner + 2 =>
          match body.fields? ["op", "left", "right"] with
          | some [some operator, some left, some right] => do
              let name ← operator.bareTag? inner
              let operator ← BinaryOperator.ofDocumentName? name
              let left ← Expr.ofJson? inner left
              let right ← Expr.ofJson? inner right
              some (.binary operator left right)
          | _ => none
      | some "Array", inner + 2 =>
          match body with
          | .array items => do
              let items ← items.mapM fun item => Expr.ofJson? inner item
              some (.array items)
          | _ => none
      | some "Call", inner + 3 =>
          match body.fields? ["function", "args"] with
          | some [some callee, some (.array arguments)] => do
              let callee ← Expr.ofJson? (inner + 1) callee
              let arguments ← arguments.mapM fun item => Expr.ofJson? inner item
              some (.call callee arguments)
          | _ => none
      | some "Index", inner + 2 =>
          match body.fields? ["left", "index"] with
          | some [some collection, some position] => do
              let collection ← Expr.ofJson? inner collection
              let position ← Expr.ofJson? inner position
              some (.index collection position)
          | _ => none
      | some "If", inner + 3 =>
          match body.fields? ["condition", "consequence", "alternative"] with
          | some [some condition, some (.array consequence), alternative] => do
              let condition ← Expr.ofJson? (inner + 1) condition
              let consequence ← consequence.mapM fun stmt => Stmt.ofJson? inner stmt
              match alternative with
              | none | some .null => some (.conditional condition consequence none)
              | some (.array alternative) => do
                  let alternative ←
                    alternative.mapM fun stmt => Stmt.ofJson? inner stmt
                  some (.conditional condition consequence (some alternative))
              | _ => none
          | _ => none
      | _, _ => none
  | _, _ => none

/-- The statement of a document that may open the given number of arrays and
objects. -/
def Stmt.ofJson? : (depth : Nat) → Json → Option Stmt
  | depth, .object [(key, body)] =>
      match Json.unescape? key, depth with
      | some "Let", inner + 2 =>
          match body.fields? ["name", "value"] with
          | some [some name, some value] => do
              let name ← name.text?
              let value ← Expr.ofJson? inner value
              some (.binding name value .unknown)
          | _ => none
      | some "Expr", inner + 2 =>
          match body.fields? ["expr"] with
          | some [some value] => do
              let value ← Expr.ofJson? inner value
              some (.expression value .unknown)
          | _ => none
      | _, _ => none
  | _, _ => none

end

def Program.ofJson? (document : Json) : Option Program :=
  match document.fields? ["statements"] with
  | some [some (.array stmts)] =>
      stmts.mapM fun stmt => Stmt.ofJson? (maxDocumentDepth - 2) stmt
  | _ => none

def Program.read? (text : String) : Option Program :=
  Json.read? text >>= Program.ofJson?

end ExprMachine
