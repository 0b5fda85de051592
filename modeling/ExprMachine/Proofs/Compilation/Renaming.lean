import ExprMachine.Proofs.Compilation.Actions
import ExprMachine.Proofs.Renaming
import Mathlib.Logic.Equiv.Basic

/-!
# Compiling renamed programs

Compiling looks at names only to find out whether they are the same. So a renamed
program is compiled with a renamed symbol table to the same instructions and the same
constants, and leaves the renamed symbol table behind. If the program cannot be
compiled, then neither can the renamed one, for the same reason and in the same place.
-/

namespace ExprMachine

variable {naming : Renaming}

/-! ## Drafts and failures -/

/-- The draft with a renamed symbol table. Its code and constants hold no names. -/
def Draft.rename (naming : Renaming) (draft : Draft) : Draft :=
  { draft with symbols := draft.symbols.rename naming }

def Rejection.rename (naming : Renaming) (rejection : Rejection) : Rejection :=
  ⟨rejection.cause.rename naming, rejection.draft.rename naming⟩

def CompileFailure.rename (naming : Renaming) (failure : CompileFailure) : CompileFailure :=
  ⟨failure.error.rename naming, failure.draft.rename naming⟩

/-- The outcome of a compilation under new names. -/
def renameOutcome {ε : Type} (renameError : ε → ε) (naming : Renaming) :
    Except ε Draft → Except ε Draft
  | .ok draft => .ok (draft.rename naming)
  | .error error => .error (renameError error)

/-- Steps that are renamed one by one are renamed when they are taken one after another. -/
theorem renameOutcome_bind {ε : Type} {renameError : ε → ε} {first : Except ε Draft}
    {second renamed : Draft → Except ε Draft}
    (later : ∀ draft, renamed (draft.rename naming) =
      renameOutcome renameError naming (second draft)) :
    renameOutcome renameError naming first >>= renamed =
      renameOutcome renameError naming (first >>= second) := by
  cases first with
  | ok draft => exact later draft
  | error error => rfl

/-! ## Actions -/

def Mention.rename (naming : Renaming) : Mention → Mention
  | literal content => literal content
  | use name => use (naming.apply name)
  | binding name => binding (naming.apply name)

def Action.rename (naming : Renaming) : Action → Action
  | .mention place => .mention (place.rename naming)
  | append opcode operands => append opcode operands
  | refuse cause => refuse (cause.rename naming)

namespace Draft

variable (draft : Draft)

theorem emitConstant_rename (value : Value) :
    (draft.rename naming).emitConstant value =
      renameOutcome (Rejection.rename naming) naming (draft.emitConstant value) := by
  have size : (draft.rename naming).constants.size = draft.constants.size := rfl
  rw [emitConstant, emitConstant, size]
  split <;> rfl

theorem emitName_rename (name : String) :
    (draft.rename naming).emitName (naming.apply name) =
      renameOutcome (Rejection.rename naming) naming (draft.emitName name) := by
  have resolved : (draft.symbols.rename naming).resolve? (naming.apply name) =
      draft.symbols.resolve? name := draft.symbols.resolve?_rename name
  unfold emitName
  rw [rename, resolved]
  split <;> rfl

theorem emitBinding_rename (name : String) :
    (draft.rename naming).emitBinding (naming.apply name) =
      renameOutcome (Rejection.rename naming) naming (draft.emitBinding name) := by
  have defined : (draft.symbols.rename naming).define (naming.apply name) =
      ((draft.symbols.define name).1, (draft.symbols.define name).2.rename naming) :=
    draft.symbols.define_rename name
  unfold emitBinding
  simp only [rename, defined]
  split <;> rfl

end Draft

theorem Action.perform_rename (action : Action) (draft : Draft) :
    (action.rename naming).perform (draft.rename naming) =
      renameOutcome (Rejection.rename naming) naming (action.perform draft) := by
  cases action with
  | mention place =>
      cases place with
      | literal content =>
          cases content with
          | integer value => exact draft.emitConstant_rename _
          | string content =>
              exact Draft.emitConstant_rename { draft with fresh := draft.fresh + 1 } _
      | use name => exact draft.emitName_rename name
      | binding name => exact draft.emitBinding_rename name
  | append opcode operands => rfl
  | refuse cause => rfl

theorem Action.performAll_rename (actions : List Action) (draft : Draft) :
    performAll (actions.map (rename naming)) (draft.rename naming) =
      renameOutcome (Rejection.rename naming) naming (performAll actions draft) := by
  induction actions generalizing draft with
  | nil => rfl
  | cons action actions inductionHypothesis =>
      rw [List.map_cons, performAll_cons, performAll_cons, perform_rename]
      exact renameOutcome_bind inductionHypothesis

/-! ## Programs -/

theorem Expr.length_renameAll (items : List Expr) :
    (Expr.renameAll naming items).length = items.length := by
  induction items with
  | nil => rfl
  | cons item items inductionHypothesis =>
      rw [renameAll, List.length_cons, List.length_cons, inductionHypothesis]

mutual

/-- A renamed expression is compiled by the renamed actions. -/
theorem Expr.actions_rename (expr : Expr) :
    (expr.rename naming).actions = expr.actions.map (Action.rename naming) := by
  cases expr with
  | integer | string | identifier => rfl
  | boolean value => cases value <;> rfl
  | unary operator operand =>
      rw [Expr.rename, actions, actions, List.map_append, Expr.actions_rename operand]
      rfl
  | binary operator left right =>
      have leftActions := Expr.actions_rename left
      have rightActions := Expr.actions_rename right
      rw [Expr.rename]
      cases operator <;>
        simp only [actions, BinaryOperator.opcode?, List.map_append, leftActions,
          rightActions] <;> rfl
  | array items =>
      rw [Expr.rename, actions, actions, Expr.length_renameAll,
        Expr.actionsOfAll_rename items]
      split
      · rw [List.map_append]
        rfl
      · rfl
  | call callee arguments =>
      rw [Expr.rename, actions, actions, Expr.length_renameAll,
        Expr.actionsOfAll_rename arguments, Expr.actions_rename callee]
      split
      · rw [List.map_append, List.map_append]
        rfl
      · rfl
  | index collection position => rfl
  | conditional condition consequence alternative => cases alternative <;> rfl

theorem Expr.actionsOfAll_rename (items : List Expr) :
    Expr.actionsOfAll (Expr.renameAll naming items) =
      (Expr.actionsOfAll items).map (Action.rename naming) := by
  cases items with
  | nil => rfl
  | cons item items =>
      rw [renameAll, actionsOfAll, actionsOfAll, List.map_append,
        Expr.actions_rename item, Expr.actionsOfAll_rename items]

end

theorem Stmt.actions_rename (stmt : Stmt) :
    (stmt.rename naming).actions = stmt.actions.map (Action.rename naming) := by
  cases stmt <;>
    simp only [rename, actions, value, finalAction, Expr.actions_rename, List.map_append] <;>
      rfl

theorem Stmt.compile_rename (stmt : Stmt) (draft : Draft) :
    (stmt.rename naming).compile (draft.rename naming) =
      renameOutcome (CompileFailure.rename naming) naming (stmt.compile draft) := by
  have span : (stmt.rename naming).span = stmt.span := by cases stmt <;> rfl
  rw [compile, compile, compileBody_eq_performAll, compileBody_eq_performAll,
    Stmt.actions_rename, Action.performAll_rename, span]
  cases Action.performAll stmt.actions draft <;> rfl

/-- A program can be renamed before it is compiled or afterwards. -/
theorem Program.compile_rename_draft (program : Program) (draft : Draft) :
    (program.rename naming).compile (draft.rename naming) =
      renameOutcome (CompileFailure.rename naming) naming (program.compile draft) := by
  induction program generalizing draft with
  | nil => rfl
  | cons stmt rest inductionHypothesis =>
      rw [rename, Stmt.renameAll, compile, compile, List.foldlM_cons, List.foldlM_cons,
        Stmt.compile_rename]
      exact renameOutcome_bind inductionHypothesis

/-- Names do not matter. Whatever names a program is given in place of its own, different
ones for different names and the same ones for the builtins, it is compiled to the same
code and constants, and the symbol table that it leaves has the new names in place of the
old ones. If it cannot be compiled, then the error, in the same statement, is the same with
the new name of the variable that it reports, and the code, constants and symbol table
reached before it are the same in this way. So it is with the builtins alone, and with any
symbol table that is carried over and given the new names too. -/
theorem Program.compile_renamed (keeps : naming.KeepsBuiltins) (program : Program)
    (constants : Array Value) (fresh : Cell) :
    (program.rename naming).compile (.start .withBuiltins constants fresh) =
        renameOutcome (CompileFailure.rename naming) naming
          (program.compile (.start .withBuiltins constants fresh)) ∧
      ∀ symbols : SymbolTable,
        (program.rename naming).compile (.start (symbols.rename naming) constants fresh) =
          renameOutcome (CompileFailure.rename naming) naming
            (program.compile (.start symbols constants fresh)) := by
  have carried (symbols : SymbolTable) :
      (program.rename naming).compile (.start (symbols.rename naming) constants fresh) =
        renameOutcome (CompileFailure.rename naming) naming
          (program.compile (.start symbols constants fresh)) :=
    program.compile_rename_draft (.start symbols constants fresh)
  have initial := carried .withBuiltins
  rw [SymbolTable.rename_withBuiltins keeps] at initial
  exact ⟨initial, carried⟩

/-- A builtin is bound anew, and then a variable is used that is not bound. -/
theorem Program.compile_renamed_unbound :
    let exchange : Renaming := ⟨Equiv.swap "x" "y", (Equiv.swap "x" "y").injective⟩
    let program (name : String) : Program :=
      [.binding "len" (.integer 1) ⟨0, 12⟩, .binding name (.identifier name) ⟨13, 23⟩]
    let start : Draft := .start .withBuiltins #[] 0
    exchange.KeepsBuiltins ∧ (program "x").rename exchange = program "y" ∧
      ((program "x").compile start).mapError CompileFailure.error =
        .error ⟨.undefinedVariable "x", ⟨13, 23⟩⟩ ∧
      (program "y").compile start =
        renameOutcome (CompileFailure.rename exchange) exchange ((program "x").compile start) := by
  intro exchange program start
  have keeps : exchange.KeepsBuiltins := by
    intro builtin
    cases builtin <;> rfl
  have renamed : (program "x").rename exchange = program "y" := rfl
  have outcome := (compile_renamed keeps (program "x") #[] 0).1
  rw [renamed] at outcome
  exact ⟨keeps, renamed, by cbv, outcome⟩

end ExprMachine
