import ExprMachine.Expr.Parsing
import ExprMachine.Proofs.Sequencing

/-!
# Statements without their semicolons

The semicolon after a statement is no part of it: neither the value nor the span of the
statement depends on it. So a statement is read as a clause, after which a semicolon is
passed over, if there is one.
-/

namespace ExprMachine

namespace Reader

theorem value_optionalSemicolon {cursor : Cursor} (stmt : Parsed Stmt cursor) :
    (optionalSemicolon stmt).value = stmt.value := by
  unfold optionalSemicolon
  split <;> rfl

theorem optionalSemicolon_since {start middle : Cursor} (stmt : Parsed Stmt middle)
    (earlier : middle.rest.length < start.rest.length) :
    (optionalSemicolon stmt).since earlier = optionalSemicolon (stmt.since earlier) := by
  cases found : stmt.after.accept? (.symbol .semicolon) with
  | some mark =>
      have foundSince : (stmt.since earlier).after.accept? (.symbol .semicolon) = some mark :=
        found
      simp only [optionalSemicolon, found, foundSince]
      rfl
  | none =>
      have missing : (stmt.since earlier).after.accept? (.symbol .semicolon) = none := found
      simp only [optionalSemicolon, found, missing]

section Nested

variable (nested : Precedence → Reader Expr)

/-- Reads the name that a statement binds and its value, after `let`. -/
def boundClause (begun : Span) : Reader Stmt := fun cursor => do
  let name ← identifier cursor
  let assign ← symbol .assign name.after
  let value ← nested .lowest assign.after
  let span := begun.merge value.after.previous
  .ok ((value.map fun value => .binding name.value value span).since
    (Nat.lt_trans assign.shorter name.shorter))

/-- Reads a statement, but not the semicolon after it. -/
def clause : Reader Stmt := fun cursor =>
  match cursor.accept? (.keyword .letWord) with
  | some word => do
      let bound ← boundClause nested cursor.span word.after
      .ok (bound.since word.shorter)
  | none => do
      let value ← nested .lowest cursor
      let span := cursor.span.merge value.after.previous
      .ok (value.map fun value => .expression value span)

theorem binding_eq (begun : Span) (cursor : Cursor) :
    binding nested begun cursor = (boundClause nested begun cursor).map optionalSemicolon := by
  rw [binding, boundClause]
  cases identifier cursor with
  | error failure => rfl
  | ok name =>
      change (symbol .assign name.after >>= _) = Except.map _ (symbol .assign name.after >>= _)
      cases symbol .assign name.after with
      | error failure => rfl
      | ok assign =>
          change (nested .lowest assign.after >>= _) =
            Except.map _ (nested .lowest assign.after >>= _)
          cases nested .lowest assign.after <;> rfl

/-- A statement is a clause and the semicolon after it, if there is one. -/
theorem statement_eq (cursor : Cursor) :
    statement nested cursor = (clause nested cursor).map optionalSemicolon := by
  rw [statement, clause]
  cases cursor.accept? (.keyword .letWord) with
  | some word =>
      dsimp only
      rw [binding_eq]
      cases boundClause nested cursor.span word.after with
      | error failure => rfl
      | ok bound => exact congrArg Except.ok (optionalSemicolon_since bound word.shorter)
  | none =>
      dsimp only
      rw [expressionStatement]
      cases nested .lowest cursor <;> rfl

end Nested

theorem exists_clause {nested : Precedence → Reader Expr} {cursor : Cursor}
    {stmt : Parsed Stmt cursor} (read : statement nested cursor = .ok stmt) :
    ∃ bare, clause nested cursor = .ok bare ∧ optionalSemicolon bare = stmt :=
  exists_of_except_map_eq_ok ((statement_eq nested cursor).symm.trans read)

end Reader

end ExprMachine
