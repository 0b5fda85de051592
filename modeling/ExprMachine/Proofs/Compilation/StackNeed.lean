import ExprMachine.Expr

/-!
# The stack that a program needs

The value of an expression takes one slot of the stack. While the operands of an
expression are evaluated one after another, those that have been evaluated keep a
slot each. The need of an expression is the greatest number of slots that are in
use at one time.
-/

namespace ExprMachine

mutual

/-- The number of slots that the evaluation of an expression takes. Operands
that are already there take one slot each. -/
def Expr.stackNeed : Expr → Nat
  | .integer _ => 1
  | .boolean _ => 1
  | .string _ => 1
  | .identifier _ => 1
  | .unary _ operand => operand.stackNeed
  | .binary .lessThan left right => max right.stackNeed (1 + left.stackNeed)
  | .binary _ left right => max left.stackNeed (1 + right.stackNeed)
  | .array items => max 1 (Expr.stackNeedFrom 0 items)
  | .call callee arguments =>
      max callee.stackNeed (Expr.stackNeedFrom 1 arguments)
  | .index _ _ => 0
  | .conditional _ _ _ => 0

/-- The number of slots that expressions take when they are evaluated one after
another and the given number of values are there before the first one. -/
def Expr.stackNeedFrom (position : Nat) : List Expr → Nat
  | [] => 0
  | item :: items =>
      max (position + item.stackNeed) (Expr.stackNeedFrom (position + 1) items)

end

/-- The number of slots that a program takes: its statements give back all of
them. -/
def Program.stackNeed : Program → Nat
  | [] => 0
  | stmt :: rest => max stmt.value.stackNeed (stackNeed rest)

end ExprMachine
