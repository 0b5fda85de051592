import ExprMachine.Proofs.Grammar
import ExprMachine.Proofs.Lexing

/-!
# Moved trees and places

The same tokens further back in the source, or after other tokens, give the same trees
and errors, but for their spans and for the positions of errors.
-/

namespace ExprMachine

/-! ## Moved trees -/

mutual

/-- The expression with the spans of the statements inside it moved. -/
def Expr.shift (distance : Nat) : Expr → Expr
  | .integer value => .integer value
  | .boolean value => .boolean value
  | .string content => .string content
  | .identifier name => .identifier name
  | .unary operator operand => .unary operator (operand.shift distance)
  | .binary operator left right =>
      .binary operator (left.shift distance) (right.shift distance)
  | .array items => .array (Expr.shiftAll distance items)
  | .call callee arguments =>
      .call (callee.shift distance) (Expr.shiftAll distance arguments)
  | .index collection position =>
      .index (collection.shift distance) (position.shift distance)
  | .conditional condition consequence none =>
      .conditional (condition.shift distance) (Stmt.shiftAll distance consequence) none
  | .conditional condition consequence (some alternative) =>
      .conditional (condition.shift distance) (Stmt.shiftAll distance consequence)
        (some (Stmt.shiftAll distance alternative))

def Expr.shiftAll (distance : Nat) : List Expr → List Expr
  | [] => []
  | expr :: exprs => expr.shift distance :: Expr.shiftAll distance exprs

/-- The statement with its span and those of the statements inside it moved. -/
def Stmt.shift (distance : Nat) : Stmt → Stmt
  | .binding name value span =>
      .binding name (value.shift distance) (span.shift distance)
  | .expression value span => .expression (value.shift distance) (span.shift distance)

def Stmt.shiftAll (distance : Nat) : List Stmt → List Stmt
  | [] => []
  | stmt :: stmts => stmt.shift distance :: Stmt.shiftAll distance stmts

end

theorem Expr.shiftAll_eq_map (distance : Nat) (exprs : List Expr) :
    shiftAll distance exprs = exprs.map (shift distance) := by
  induction exprs with
  | nil => rfl
  | cons expr exprs inductionHypothesis =>
      rw [shiftAll, inductionHypothesis, List.map_cons]

theorem Stmt.shiftAll_eq_map (distance : Nat) (stmts : List Stmt) :
    shiftAll distance stmts = stmts.map (shift distance) := by
  induction stmts with
  | nil => rfl
  | cons stmt stmts inductionHypothesis =>
      rw [shiftAll, inductionHypothesis, List.map_cons]

theorem Span.shift_zero (span : Span) : span.shift 0 = span :=
  rfl

mutual

theorem Expr.shift_zero : ∀ expr : Expr, expr.shift 0 = expr
  | .integer _ | .boolean _ | .string _ | .identifier _ => by rw [Expr.shift]
  | .unary _ operand => by rw [Expr.shift, operand.shift_zero]
  | .binary _ left right => by rw [Expr.shift, left.shift_zero, right.shift_zero]
  | .array items => by rw [Expr.shift, Expr.shiftAll_zero items]
  | .call callee arguments => by
      rw [Expr.shift, callee.shift_zero, Expr.shiftAll_zero arguments]
  | .index collection position => by
      rw [Expr.shift, collection.shift_zero, position.shift_zero]
  | .conditional condition consequence none => by
      rw [Expr.shift, condition.shift_zero, Stmt.shiftAll_zero consequence]
  | .conditional condition consequence (some alternative) => by
      rw [Expr.shift, condition.shift_zero, Stmt.shiftAll_zero consequence,
        Stmt.shiftAll_zero alternative]

theorem Expr.shiftAll_zero : ∀ exprs : List Expr, Expr.shiftAll 0 exprs = exprs
  | [] => rfl
  | expr :: exprs => by rw [Expr.shiftAll, expr.shift_zero, Expr.shiftAll_zero exprs]

theorem Stmt.shift_zero : ∀ stmt : Stmt, stmt.shift 0 = stmt
  | .binding _ value span => by rw [Stmt.shift, value.shift_zero, span.shift_zero]
  | .expression value span => by rw [Stmt.shift, value.shift_zero, span.shift_zero]

theorem Stmt.shiftAll_zero : ∀ stmts : List Stmt, Stmt.shiftAll 0 stmts = stmts
  | [] => rfl
  | stmt :: stmts => by rw [Stmt.shiftAll, stmt.shift_zero, Stmt.shiftAll_zero stmts]

end

mutual

theorem Expr.withoutSpans_shift (distance : Nat) :
    ∀ expr : Expr, (expr.shift distance).withoutSpans = expr.withoutSpans
  | .integer _ | .boolean _ | .string _ | .identifier _ => by rw [Expr.shift]
  | .unary _ operand => by
      simp only [Expr.shift, Expr.withoutSpans, operand.withoutSpans_shift]
  | .binary _ left right => by
      simp only [Expr.shift, Expr.withoutSpans, left.withoutSpans_shift,
        right.withoutSpans_shift]
  | .array items => by
      simp only [Expr.shift, Expr.withoutSpans, Expr.allWithoutSpans_shiftAll]
  | .call callee arguments => by
      simp only [Expr.shift, Expr.withoutSpans, callee.withoutSpans_shift,
        Expr.allWithoutSpans_shiftAll]
  | .index collection position => by
      simp only [Expr.shift, Expr.withoutSpans, collection.withoutSpans_shift,
        position.withoutSpans_shift]
  | .conditional condition consequence none => by
      simp only [Expr.shift, Expr.withoutSpans, condition.withoutSpans_shift,
        Stmt.allWithoutSpans_shiftAll]
  | .conditional condition consequence (some alternative) => by
      simp only [Expr.shift, Expr.withoutSpans, condition.withoutSpans_shift,
        Stmt.allWithoutSpans_shiftAll]

theorem Expr.allWithoutSpans_shiftAll (distance : Nat) : ∀ exprs : List Expr,
    Expr.allWithoutSpans (Expr.shiftAll distance exprs) = Expr.allWithoutSpans exprs
  | [] => rfl
  | expr :: exprs => by
      simp only [Expr.shiftAll, Expr.allWithoutSpans, expr.withoutSpans_shift,
        Expr.allWithoutSpans_shiftAll distance exprs]

theorem Stmt.withoutSpans_shift (distance : Nat) :
    ∀ stmt : Stmt, (stmt.shift distance).withoutSpans = stmt.withoutSpans
  | .binding _ value _ | .expression value _ => by
      simp only [Stmt.shift, Stmt.withoutSpans, value.withoutSpans_shift]

theorem Stmt.allWithoutSpans_shiftAll (distance : Nat) : ∀ stmts : List Stmt,
    Stmt.allWithoutSpans (Stmt.shiftAll distance stmts) = Stmt.allWithoutSpans stmts
  | [] => rfl
  | stmt :: stmts => by
      simp only [Stmt.shiftAll, Stmt.allWithoutSpans, stmt.withoutSpans_shift,
        Stmt.allWithoutSpans_shiftAll distance stmts]

end

/-! ## Places -/

/-- How far back tokens were moved: past other tokens, and past bytes of the source. -/
structure Displacement where
  tokens : Nat
  bytes : Nat

theorem Span.merge_shift (distance : Nat) (first second : Span) :
    (first.shift distance).merge (second.shift distance) =
      (first.merge second).shift distance := by
  simp only [merge, shift, Nat.add_min_add_right, Nat.add_max_add_right]

def ParseError.shift (move : Displacement) (error : ParseError) : ParseError :=
  ⟨error.cause, error.position + move.tokens, error.span.shift move.bytes⟩

end ExprMachine
