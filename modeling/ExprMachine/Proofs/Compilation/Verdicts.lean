import ExprMachine.Proofs.Compilation.Actions

/-!
# What decides whether a program is compiled

Whether a program can be compiled, and why not, depends on the symbol table and on
the number of constants in the pool. What the constants are, which code has been
emitted before and which cells are in use plays no part in it.
-/

namespace ExprMachine

/-- What the next step of a compilation depends on. -/
structure Footing where
  symbols : SymbolTable
  poolSize : Nat

def Draft.footing (draft : Draft) : Footing :=
  ⟨draft.symbols, draft.constants.size⟩

/-- The outcome of a compilation, apart from what no later step depends on. -/
def verdict {ε κ : Type} (cause : ε → κ) : Except ε Draft → Except κ Footing
  | .ok draft => .ok draft.footing
  | .error failure => .error (cause failure)

/-- Steps with the same verdicts, taken one after another, have the same verdict. -/
theorem verdict_bind {ε κ : Type} {cause otherCause : ε → κ}
    {first other : Except ε Draft} {second otherSecond : Draft → Except ε Draft}
    (same : verdict cause first = verdict otherCause other)
    (later : ∀ draft otherDraft, draft.footing = otherDraft.footing →
      verdict cause (second draft) = verdict otherCause (otherSecond otherDraft)) :
    verdict cause (first >>= second) = verdict otherCause (other >>= otherSecond) := by
  cases first with
  | ok draft =>
      cases other with
      | ok otherDraft =>
          injection same with sameFooting
          exact later draft otherDraft sameFooting
      | error failure => cases same
  | error failure =>
      cases other with
      | ok otherDraft => cases same
      | error otherFailure => exact same

variable {draft other : Draft}

theorem Draft.verdict_emitConstant (same : draft.footing = other.footing)
    (value otherValue : Value) :
    verdict Rejection.cause (draft.emitConstant value) =
      verdict Rejection.cause (other.emitConstant otherValue) := by
  injection same with sameSymbols sameSize
  rw [emitConstant, emitConstant, ← sameSize]
  split
  · simp only [verdict, footing, emit, Array.size_push, sameSymbols, sameSize]
  · rfl

theorem Mention.verdict_perform (same : draft.footing = other.footing)
    (mention : Mention) :
    verdict Rejection.cause (mention.perform draft) =
      verdict Rejection.cause (mention.perform other) := by
  cases mention with
  | literal content =>
      cases content with
      | integer value => exact Draft.verdict_emitConstant same _ _
      | string content =>
          refine Draft.verdict_emitConstant ?_ _ _
          exact same
  | use name =>
      have sameSymbols : draft.symbols = other.symbols := congrArg Footing.symbols same
      rw [perform, perform, Draft.emitName, Draft.emitName, ← sameSymbols]
      split
      · exact congrArg Except.ok same
      · exact congrArg Except.ok same
      · rfl
  | binding name =>
      injection same with sameSymbols sameSize
      rw [perform, perform, Draft.emitBinding, Draft.emitBinding, ← sameSymbols]
      simp only
      split
      · simp only [verdict, Draft.footing, Draft.emit, sameSize]
      · rfl

namespace Action

theorem verdict_perform (same : draft.footing = other.footing) (action : Action) :
    verdict Rejection.cause (action.perform draft) =
      verdict Rejection.cause (action.perform other) := by
  cases action with
  | mention place => exact place.verdict_perform same
  | append opcode operands => exact congrArg Except.ok same
  | refuse cause => rfl

theorem verdict_performAll (same : draft.footing = other.footing)
    (actions : List Action) :
    verdict Rejection.cause (performAll actions draft) =
      verdict Rejection.cause (performAll actions other) := by
  induction actions generalizing draft other with
  | nil => exact congrArg Except.ok same
  | cons action actions inductionHypothesis =>
      exact verdict_bind (action.verdict_perform same) fun _ _ => inductionHypothesis

end Action

theorem Stmt.verdict_compile (stmt : Stmt) (draft : Draft) :
    verdict CompileFailure.error (stmt.compile draft) =
      (verdict Rejection.cause (Action.performAll stmt.actions draft)).mapError
        fun cause => ⟨cause, stmt.span⟩ := by
  rw [compile, compileBody_eq_performAll]
  cases Action.performAll stmt.actions draft <;> rfl

/-- The outcome of the compilation of a program only depends on the footing. -/
theorem Program.verdict_compile (same : draft.footing = other.footing)
    (program : Program) :
    verdict CompileFailure.error (program.compile draft) =
      verdict CompileFailure.error (program.compile other) := by
  induction program generalizing draft other with
  | nil => exact congrArg Except.ok same
  | cons stmt rest inductionHypothesis =>
      refine verdict_bind ?_ fun _ _ => inductionHypothesis
      rw [Stmt.verdict_compile, Stmt.verdict_compile, Action.verdict_performAll same]

end ExprMachine
