import ExprMachine.Proofs.Compilation.Mirroring
import ExprMachine.Proofs.Compilation.Verdicts
import ExprMachine.Proofs.Parsing.Appending

/-!
# Compiling one program after another

What compiling does is independent of spans, which only errors carry. So a program is
compiled after another one as it is when the draft of the other one was finished and
its names and constants are carried over: the same code refers to the same slots and
constants, and the same errors are met.
-/

namespace ExprMachine

/-! ## Spans -/

mutual

/-- The statements inside an expression play no part in compiling it. -/
theorem Expr.actions_withoutSpans (expr : Expr) :
    expr.withoutSpans.actions = expr.actions := by
  cases expr with
  | integer | boolean | string | identifier => rfl
  | unary operator operand =>
      rw [withoutSpans, actions, actions, Expr.actions_withoutSpans operand]
  | binary operator left right =>
      rw [withoutSpans]
      cases operator <;>
        simp only [actions, Expr.actions_withoutSpans left, Expr.actions_withoutSpans right]
  | array items =>
      obtain ⟨same, length⟩ := Expr.actionsOfAll_withoutSpans items
      rw [withoutSpans, actions, actions, same, length]
  | call callee arguments =>
      obtain ⟨same, length⟩ := Expr.actionsOfAll_withoutSpans arguments
      rw [withoutSpans, actions, actions, same, length, Expr.actions_withoutSpans callee]
  | index collection position => rfl
  | conditional condition consequence alternative => cases alternative <;> rfl

theorem Expr.actionsOfAll_withoutSpans (items : List Expr) :
    Expr.actionsOfAll (Expr.allWithoutSpans items) = Expr.actionsOfAll items ∧
      (Expr.allWithoutSpans items).length = items.length := by
  cases items with
  | nil => exact ⟨rfl, rfl⟩
  | cons item items =>
      obtain ⟨same, length⟩ := Expr.actionsOfAll_withoutSpans items
      rw [allWithoutSpans, actionsOfAll, actionsOfAll, same,
        Expr.actions_withoutSpans item, List.length_cons, length]
      exact ⟨rfl, rfl⟩

end

theorem Stmt.actions_withoutSpans (stmt : Stmt) :
    stmt.withoutSpans.actions = stmt.actions := by
  cases stmt <;>
    simp only [withoutSpans, actions, value, finalAction, Expr.actions_withoutSpans]

theorem Stmt.isExpression_withoutSpans (stmt : Stmt) :
    stmt.withoutSpans.isExpression = stmt.isExpression := by
  cases stmt <;> rfl

theorem Program.actions_allWithoutSpans (program : Program) :
    Program.actions (Stmt.allWithoutSpans program) = program.actions := by
  induction program with
  | nil => rfl
  | cons stmt rest inductionHypothesis =>
      rw [Stmt.allWithoutSpans, actions, List.flatMap_cons, Stmt.actions_withoutSpans]
      exact congrArg (stmt.actions ++ ·) inductionHypothesis

/-- The same statements are compiled to the same draft. -/
theorem Program.compile_of_same {program other : Program}
    (same : Stmt.allWithoutSpans other = Stmt.allWithoutSpans program)
    {draft result : Draft} (compiled : program.compile draft = .ok result) :
    other.compile draft = .ok result := by
  have actions : other.actions = program.actions := by
    rw [← actions_allWithoutSpans, same, actions_allWithoutSpans]
  have performed := program.compile_mapError draft
  rw [compiled, ← actions, ← other.compile_mapError] at performed
  cases outcome : other.compile draft with
  | ok otherResult =>
      rw [outcome] at performed
      exact congrArg Except.ok (Except.ok.inj performed.symm)
  | error failure =>
      rw [outcome] at performed
      cases performed

/-! ## Moved statements -/

def CompileError.shift (distance : Nat) (error : CompileError) : CompileError :=
  { error with span := error.span.shift distance }

def CompileFailure.shift (distance : Nat) (failure : CompileFailure) : CompileFailure :=
  { failure with error := failure.error.shift distance }

theorem Reader.StmtShifted.compile {distance : Nat} {stmt other : Stmt}
    (shifted : StmtShifted distance stmt other) (draft : Draft) :
    other.compile draft = (stmt.compile draft).mapError (CompileFailure.shift distance) := by
  have actions : other.actions = stmt.actions := by
    rw [← Stmt.actions_withoutSpans, shifted.same, Stmt.actions_withoutSpans]
  rw [Stmt.compile, Stmt.compile, Stmt.compileBody_eq_performAll,
    Stmt.compileBody_eq_performAll, actions, shifted.span]
  cases Action.performAll stmt.actions draft <;> rfl

/-- Moved statements are compiled to the same draft, or with the same error elsewhere. -/
theorem Program.compile_shifted {distance : Nat} {program others : Program}
    (shifted : List.Forall₂ (Reader.StmtShifted distance) program others) (draft : Draft) :
    others.compile draft =
      (program.compile draft).mapError (CompileFailure.shift distance) := by
  induction shifted generalizing draft with
  | nil => rfl
  | @cons stmt other program others head tail inductionHypothesis =>
      rw [compile, compile, List.foldlM_cons, List.foldlM_cons, head.compile]
      cases stmt.compile draft with
      | ok middle => exact inductionHypothesis middle
      | error failure => rfl

/-! ## Carrying on -/

/-- A program that cannot be compiled with the names and constants of a draft cannot be
compiled after the draft, and for the same reason. -/
theorem Program.compile_error_after {program : Program} {draft : Draft} {fresh : Cell}
    {failure : CompileFailure}
    (failed : program.compile (.start draft.symbols draft.constants fresh) =
      .error failure) :
    ∃ other, program.compile draft = .error other ∧ other.error = failure.error := by
  have same : draft.footing = (Draft.start draft.symbols draft.constants fresh).footing :=
    rfl
  have verdicts := program.verdict_compile same
  rw [failed] at verdicts
  cases outcome : program.compile draft with
  | ok result =>
      rw [outcome] at verdicts
      cases verdicts
  | error other =>
      rw [outcome] at verdicts
      exact ⟨other, rfl, Except.error.inj verdicts⟩

/-- The draft, and after it a program that was compiled on its own. -/
def Draft.andThen (draft : Draft) (program : Program) (compiled : Draft) : Draft where
  code := draft.code ++ compiled.code
  constants :=
    draft.constants ++ (Literal.constants draft.fresh program.literals).toArray
  symbols := compiled.symbols
  fresh := draft.fresh + Literal.cellCount program.literals

/-- A program that is compiled with the names and constants of a draft is compiled to the
same code after the draft. Its constants are built in the cells that come next. -/
theorem Program.compile_after {program : Program} {draft result : Draft} {fresh : Cell}
    (compiled : program.compile (.start draft.symbols draft.constants fresh) =
      .ok result) :
    program.compile draft = .ok (draft.andThen program result) := by
  obtain ⟨supported, room, rfl⟩ := Program.of_compile_start compiled
  exact (program.compile_eq_ok_iff _ _).mpr ⟨⟨supported, room⟩, rfl⟩

end ExprMachine
