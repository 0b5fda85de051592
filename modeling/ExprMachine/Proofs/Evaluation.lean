import ExprMachine.Machine
import ExprMachine.Proofs.Compilation.Code

/-!
# Evaluation

The meaning of a program without bytecode, stack or slots: an evaluation only
knows what each name stands for. Statements are evaluated in order, and operands
from left to right, except that `a < b` is evaluated as `b > a`. The integer
operations are those on the integers themselves: an exact result that is no word
is an error.

String literals are built once for a program, in cells of their own, and all
other values in the cells after them.
-/

namespace ExprMachine

/-- What names stand for. -/
abbrev Valuation := String → Option Value

def Valuation.bind (valuation : Valuation) (name : String) (value : Value) :
    Valuation :=
  fun other => if other = name then some value else valuation other

/-- Why an evaluation ends early. -/
inductive Impasse where
  | error (error : RuntimeError)
  | unbound (name : String)
  | unsupported (shape : String)
deriving DecidableEq, Repr

/-- Why an evaluation ended early, and what was printed before. -/
structure Halt where
  cause : Impasse
  printed : String

/-- What an evaluation changes: the text printed so far, the cell of the next
string literal, and the first cell that is not in use. -/
structure Scene where
  printed : String
  literal : Cell
  fresh : Cell

namespace Scene

def halt {α : Type} (scene : Scene) (cause : Impasse) : Except Halt α :=
  .error ⟨cause, scene.printed⟩

def conclude (scene : Scene) : Except RuntimeError Value → Except Halt (Value × Scene)
  | .ok value => .ok (value, scene)
  | .error error => scene.halt (.error error)

end Scene

/-! ## Operators -/

/-- The result of an operation on integers, with the quotient rounded towards
zero. -/
def Arithmetic.exact : Arithmetic → Int → Int → Int
  | add, left, right => left + right
  | subtract, left, right => left - right
  | multiply, left, right => left * right
  | divide, left, right => left.tdiv right

/-- An integer as a value, or an error when it is no word. -/
def Value.ofExact (exact : Int) (overflow : RuntimeError) :
    Except RuntimeError Value :=
  if Int64.minValue.toInt ≤ exact ∧ exact ≤ Int64.maxValue.toInt then
    .ok (.integer (Int64.ofInt exact))
  else
    .error overflow

/-- The result of an operation on values, which have to be integers. Nothing is
divided by zero. -/
def Arithmetic.evaluate (operation : Arithmetic) :
    Value → Value → Except RuntimeError Value
  | .integer left, .integer right =>
      if operation = divide ∧ right.toInt = 0 then
        .error .divisionByZero
      else
        Value.ofExact (operation.exact left.toInt right.toInt)
          (.arithmeticOverflow operation left right)
  | left, right => .error (.unsupportedOperands operation left.kind right.kind)

def Value.holds : Value → Bool
  | boolean value => value
  | null => false
  | _ => true

def UnaryOperator.evaluate : UnaryOperator → Value → Except RuntimeError Value
  | not, operand => .ok (.boolean (!operand.holds))
  | negate, .integer operand =>
      Value.ofExact (-operand.toInt) (.negationOverflow operand)
  | negate, operand => .error (.unsupportedNegation operand.kind)

/-- Whether a value is greater than another one. Only integers are ordered. -/
def Value.exceeds : Value → Value → Except RuntimeError Value
  | .integer left, .integer right => .ok (.boolean (right.toInt < left.toInt))
  | left, right => .error (.notOrdered left.kind right.kind)

def BinaryOperator.evaluate? : BinaryOperator → Value → Value →
    Option (Except RuntimeError Value)
  | add, left, right => some (Arithmetic.add.evaluate left right)
  | subtract, left, right => some (Arithmetic.subtract.evaluate left right)
  | multiply, left, right => some (Arithmetic.multiply.evaluate left right)
  | divide, left, right => some (Arithmetic.divide.evaluate left right)
  | equals, left, right => some (.ok (.boolean (left.identical right)))
  | notEquals, left, right => some (.ok (.boolean (!left.identical right)))
  | greaterThan, left, right => some (left.exceeds right)
  | lessThan, left, right => some (right.exceeds left)
  | modulo, _, _ => none

def Scene.combine (scene : Scene) (operator : BinaryOperator) (left right : Value) :
    Except Halt (Value × Scene) :=
  match operator.evaluate? left right with
  | some result => scene.conclude result
  | none => scene.halt (.unsupported operator.sign)

/-- Ends an evaluation with a call. Only builtins can be called. -/
def Scene.call (scene : Scene) (arguments : List Value) :
    Value → Except Halt (Value × Scene)
  | .builtin builtin =>
      let outcome := builtin.call arguments scene.fresh
      .ok (outcome.value,
        { scene with
          printed := scene.printed ++ outcome.printed
          fresh := outcome.fresh })
  | callee => scene.halt (.error (.notCallable callee.kind))

/-! ## Expressions -/

mutual

/-- The value of an expression, and the scene after it. -/
def Expr.evaluate (valuation : Valuation) :
    Expr → Scene → Except Halt (Value × Scene)
  | .integer value, scene => .ok (.integer value, scene)
  | .boolean value, scene => .ok (.boolean value, scene)
  | .string content, scene =>
      .ok (.string scene.literal content, { scene with literal := scene.literal + 1 })
  | .identifier name, scene =>
      match valuation name with
      | some value => .ok (value, scene)
      | none => scene.halt (.unbound name)
  | .unary operator operand, scene => do
      let (value, scene) ← operand.evaluate valuation scene
      scene.conclude (operator.evaluate value)
  | .binary .lessThan left right, scene => do
      let (rightValue, scene) ← right.evaluate valuation scene
      let (leftValue, scene) ← left.evaluate valuation scene
      scene.combine .lessThan leftValue rightValue
  | .binary operator left right, scene => do
      let (leftValue, scene) ← left.evaluate valuation scene
      let (rightValue, scene) ← right.evaluate valuation scene
      scene.combine operator leftValue rightValue
  | .array items, scene => do
      let (values, scene) ← Expr.evaluateAll valuation items scene
      .ok (.array scene.fresh values, { scene with fresh := scene.fresh + 1 })
  | .call callee arguments, scene => do
      let (function, scene) ← callee.evaluate valuation scene
      let (values, scene) ← Expr.evaluateAll valuation arguments scene
      scene.call values function
  | .index collection position, scene =>
      scene.halt (.unsupported (Expr.index collection position).shape)
  | .conditional condition consequence alternative, scene =>
      scene.halt
        (.unsupported (Expr.conditional condition consequence alternative).shape)

def Expr.evaluateAll (valuation : Valuation) :
    List Expr → Scene → Except Halt (List Value × Scene)
  | [], scene => .ok ([], scene)
  | item :: items, scene => do
      let (value, scene) ← item.evaluate valuation scene
      let (values, scene) ← Expr.evaluateAll valuation items scene
      .ok (value :: values, scene)

end

theorem Expr.length_of_evaluateAll {valuation : Valuation} {items : List Expr}
    {scene after : Scene} {values : List Value}
    (evaluated : Expr.evaluateAll valuation items scene = .ok (values, after)) :
    values.length = items.length := by
  induction items generalizing scene values with
  | nil =>
      cases evaluated
      rfl
  | cons item items inductionHypothesis =>
      rw [Expr.evaluateAll, except_bind_eq_ok_iff] at evaluated
      obtain ⟨⟨value, middle⟩, _, evaluated⟩ := evaluated
      obtain ⟨⟨rest, last⟩, restEvaluated, ended⟩ :=
        (except_bind_eq_ok_iff _ _ _).mp evaluated
      cases ended
      exact congrArg Nat.succ (inductionHypothesis restEvaluated)

/-! ## Programs -/

/-- What names stand for after a statement with the given value. -/
def Stmt.valuationAfter (valuation : Valuation) (value : Value) :
    Stmt → Valuation
  | .binding name _ _ => valuation.bind name value
  | .expression _ _ => valuation

/-- Where an evaluation of statements has got to: what names stand for, the
value of the last statement, and the scene. -/
structure Stage where
  valuation : Valuation
  last : Value
  scene : Scene

def Program.evaluateFrom : Program → Stage → Except Halt Stage
  | [], stage => .ok stage
  | stmt :: rest, stage => do
      let (value, scene) ← stmt.value.evaluate stage.valuation stage.scene
      evaluateFrom rest
        ⟨stmt.valuationAfter stage.valuation value, value, scene⟩

/-- What can be seen of a program when it has ended: the printed text, and either
why it ended early or what names stand for and the value of the last statement.
-/
structure Observation where
  printed : String
  ending : Except Impasse (Valuation × Value)

def Observation.ofEvaluation : Except Halt Stage → Observation
  | .ok stage =>
      ⟨stage.scene.printed, .ok (stage.valuation, stage.last)⟩
  | .error halt => ⟨halt.printed, .error halt.cause⟩

/-- Evaluates a program. Cells from the given one on are not in use: the string
literals are built there, and all other values after them. -/
def Program.evaluate (program : Program) (valuation : Valuation) (cell : Cell) :
    Observation :=
  Observation.ofEvaluation <| program.evaluateFrom
    ⟨valuation, .null, "", cell, cell + Literal.cellCount program.literals⟩

/-! ## The operations of the machine -/

/-- Whether an error comes from the values of a program, and neither from the
size of the stack nor from the bytecode. -/
def RuntimeError.OfValues : RuntimeError → Prop
  | stackOverflow _ => False
  | stackUnderflow => False
  | unknownOpcode .. => False
  | _ => True

/-- Whether the errors among the results of an operation come from values. -/
def RaisesOfValues (result : Except RuntimeError Value) : Prop :=
  ∀ error, result = .error error → error.OfValues

theorem Arithmetic.result?_eq (operation : Arithmetic) (left right : Word) :
    operation.result? left right =
      Word.ofInt? (operation.exact left.toInt right.toInt) := by
  cases operation <;> rfl

theorem Value.ofExact_eq (exact : Int) (overflow : RuntimeError) :
    Value.ofExact exact overflow =
      match Word.ofInt? exact with
      | some word => .ok (.integer word)
      | none => .error overflow := by
  unfold ofExact Word.ofInt?
  split <;> rfl

/-- The machine calculates with words as if they were integers. -/
theorem Arithmetic.apply_eq_evaluate (operation : Arithmetic) (left right : Value) :
    operation.apply left right = operation.evaluate left right := by
  cases left with
  | integer left =>
      cases right with
      | integer right =>
          have zero : right = 0 ↔ right.toInt = 0 := by
            rw [← Int64.toInt_inj]
            rfl
          cases found : Word.ofInt? (operation.exact left.toInt right.toInt) <;>
            simp only [apply, evaluate, onWords, zero, Value.ofExact_eq, result?_eq,
              found]
      | _ => rfl
  | _ => rfl

theorem Value.negated_eq (value : Value) :
    value.negated = .boolean (!value.holds) := by
  cases value <;> rfl

theorem Value.opposite_eq_evaluate (value : Value) :
    value.opposite = UnaryOperator.negate.evaluate value := by
  cases value with
  | integer word =>
      cases found : Word.ofInt? (-word.toInt) <;>
        simp only [opposite, UnaryOperator.evaluate, Value.ofExact_eq, Word.negate?,
          found]
  | _ => rfl

theorem Comparison.apply_eq_exceeds (left right : Value) :
    greaterThan.apply left right = left.exceeds right := by
  cases left with
  | integer left =>
      cases right with
      | integer right => simp only [apply, Value.exceeds, Int64.lt_iff_toInt_lt]
      | _ => rfl
  | _ => rfl

theorem raisesOfValues_ok (value : Value) : RaisesOfValues (.ok value) := by
  intro error impossible
  cases impossible

theorem raisesOfValues_error {error : RuntimeError} (ofValues : error.OfValues) :
    RaisesOfValues (.error error) := by
  intro other same
  cases same
  exact ofValues

theorem raisesOfValues_ofExact (exact : Int) {overflow : RuntimeError}
    (ofValues : overflow.OfValues) : RaisesOfValues (Value.ofExact exact overflow) := by
  unfold Value.ofExact
  split
  · exact raisesOfValues_ok _
  · exact raisesOfValues_error ofValues

theorem Arithmetic.raisesOfValues (operation : Arithmetic) (left right : Value) :
    RaisesOfValues (operation.evaluate left right) := by
  unfold evaluate
  split
  · split
    · exact raisesOfValues_error trivial
    · exact raisesOfValues_ofExact _ trivial
  · exact raisesOfValues_error trivial

theorem UnaryOperator.raisesOfValues (operator : UnaryOperator) (operand : Value) :
    RaisesOfValues (operator.evaluate operand) := by
  unfold evaluate
  split
  · exact raisesOfValues_ok _
  · exact raisesOfValues_ofExact _ trivial
  · exact raisesOfValues_error trivial

theorem Value.raisesOfValues_exceeds (left right : Value) :
    RaisesOfValues (left.exceeds right) := by
  unfold exceeds
  split
  · exact raisesOfValues_ok _
  · exact raisesOfValues_error trivial

theorem BinaryOperator.raisesOfValues {operator : BinaryOperator} {left right : Value}
    {result : Except RuntimeError Value}
    (evaluated : operator.evaluate? left right = some result) :
    RaisesOfValues result := by
  cases operator with
  | modulo => cases evaluated
  | equals | notEquals =>
      cases evaluated
      exact raisesOfValues_ok _
  | lessThan | greaterThan =>
      cases evaluated
      exact Value.raisesOfValues_exceeds _ _
  | add | subtract | multiply | divide =>
      cases evaluated
      exact Arithmetic.raisesOfValues _ _ _

end ExprMachine
