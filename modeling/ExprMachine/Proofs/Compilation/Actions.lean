import ExprMachine.Proofs.Compilation.Code

/-!
# Compilation as a list of actions

What the compilation of an expression does is a list of actions, which does not
depend on the draft: a literal or a name is mentioned, an instruction that refers
to neither is appended, or the expression is refused. Compiling is performing
these actions one after another, up to the first one that fails. Statements about
all compilations, also those that fail midway, are inductions on this list.
-/

namespace ExprMachine

/-- A place of a program that needs a constant or the slot of a name. -/
inductive Mention where
  | literal (literal : Literal)
  | use (name : String)
  | binding (name : String)

/-- A step of compilation. -/
inductive Action where
  | mention (mention : Mention)
  | append (opcode : Opcode) (operands : List Nat)
  | refuse (cause : CompileError.Cause)

namespace Mention

def perform (draft : Draft) : Mention → Except Rejection Draft
  | literal (.integer value) => draft.emitConstant (.integer value)
  | literal (.string content) => draft.emitString content
  | use name => draft.emitName name
  | binding name => draft.emitBinding name

end Mention

namespace Action

def perform (draft : Draft) : Action → Except Rejection Draft
  | .mention place => place.perform draft
  | append opcode operands => .ok (draft.emit opcode operands)
  | refuse cause => .error ⟨cause, draft⟩

/-- Performs actions one after another. -/
def performAll (actions : List Action) (draft : Draft) : Except Rejection Draft :=
  actions.foldlM perform draft

theorem performAll_cons (action : Action) (actions : List Action) (draft : Draft) :
    performAll (action :: actions) draft =
      action.perform draft >>= fun draft => performAll actions draft := rfl

theorem performAll_append (front back : List Action) (draft : Draft) :
    performAll (front ++ back) draft =
      performAll front draft >>= fun draft => performAll back draft :=
  List.foldlM_append

theorem performAll_singleton (action : Action) (draft : Draft) :
    performAll [action] draft = action.perform draft := by
  rw [performAll_cons]
  cases action.perform draft <;> rfl

/-- The mentions among actions. -/
def mention? : Action → Option Mention
  | .mention place => some place
  | append _ _ => none
  | refuse _ => none

end Action

/-! ## The actions of programs -/

mutual

/-- The actions that compile an expression. -/
def Expr.actions : Expr → List Action
  | .integer value => [.mention (.literal (.integer value))]
  | .string content => [.mention (.literal (.string content))]
  | .boolean true => [.append .pushTrue []]
  | .boolean false => [.append .pushFalse []]
  | .identifier name => [.mention (.use name)]
  | .unary operator operand => operand.actions ++ [.append operator.opcode []]
  | .binary .lessThan left right =>
      right.actions ++ (left.actions ++ [.append .greaterThan []])
  | .binary operator left right =>
      match operator.opcode? with
      | some opcode => left.actions ++ (right.actions ++ [.append opcode []])
      | none => [.refuse (.unknownOperator operator)]
  | .array items =>
      if items.length ≤ Limited.arrayElements.limit then
        Expr.actionsOfAll items ++ [.append .array [items.length]]
      else
        [.refuse (.tooMany .arrayElements items.length)]
  | .call callee arguments =>
      if arguments.length ≤ Limited.callArguments.limit then
        callee.actions ++
          (Expr.actionsOfAll arguments ++ [.append .call [arguments.length]])
      else
        [.refuse (.tooMany .callArguments arguments.length)]
  | .index collection position =>
      [.refuse (.unsupported (Expr.index collection position).shape)]
  | .conditional condition consequence alternative =>
      [.refuse (.unsupported
        (Expr.conditional condition consequence alternative).shape)]

def Expr.actionsOfAll : List Expr → List Action
  | [] => []
  | item :: items => item.actions ++ Expr.actionsOfAll items

end

/-- The action that takes the value of a statement off the stack. -/
def Stmt.finalAction : Stmt → Action
  | binding name _ _ => .mention (.binding name)
  | expression _ _ => .append .pop []

/-- The actions that compile a statement. -/
def Stmt.actions (stmt : Stmt) : List Action :=
  stmt.value.actions ++ [stmt.finalAction]

/-- The actions that compile a program. -/
def Program.actions (program : Program) : List Action :=
  program.flatMap Stmt.actions

/-- The literals and names of a program, in the order in which they are compiled. -/
def Program.mentions (program : Program) : List Mention :=
  (actions program).filterMap Action.mention?

/-! ## Compiling is performing -/

open ExprMachine.Action

theorem Action.eq_performAll_of_singleton {outcome : Except Rejection Draft}
    {actions : List Action} {action : Action} {draft : Draft}
    (alone : actions = [action]) (same : outcome = action.perform draft) :
    outcome = performAll actions draft := by
  rw [alone, same, performAll_singleton]

theorem Action.performAll_operands (first second : List Action) (opcode : Opcode)
    (operands : List Nat) (draft : Draft) :
    performAll (first ++ (second ++ [.append opcode operands])) draft =
      performAll first draft >>= fun draft => performAll second draft >>= fun draft =>
        .ok (draft.emit opcode operands) := by
  rw [performAll_append]
  congr 1
  funext middle
  rw [performAll_append]
  rfl

theorem Action.performAll_thenAppend (actions : List Action) (opcode : Opcode)
    (operands : List Nat) (draft : Draft) :
    performAll (actions ++ [.append opcode operands]) draft =
      performAll actions draft >>= fun draft => .ok (draft.emit opcode operands) := by
  rw [performAll_append]
  rfl

mutual

/-- Compiling an expression is performing its actions. -/
theorem Expr.compile_eq_performAll (expr : Expr) (draft : Draft) :
    expr.compile draft = performAll expr.actions draft := by
  cases expr with
  | integer value => exact eq_performAll_of_singleton rfl rfl
  | string content => exact eq_performAll_of_singleton rfl rfl
  | boolean value =>
      cases value <;> exact eq_performAll_of_singleton rfl rfl
  | identifier name => exact eq_performAll_of_singleton rfl rfl
  | unary operator operand =>
      rw [Expr.compile, Expr.actions, performAll_thenAppend,
        Expr.compile_eq_performAll operand]
  | binary operator left right =>
      have leftSame : left.compile = performAll left.actions :=
        funext (Expr.compile_eq_performAll left)
      have rightSame : right.compile = performAll right.actions :=
        funext (Expr.compile_eq_performAll right)
      cases operator with
      | modulo => exact eq_performAll_of_singleton rfl rfl
      | lessThan =>
          rw [Expr.compile, Expr.actions, performAll_operands, leftSame, rightSame]
      | _ =>
          have performed := performAll_operands left.actions right.actions
          rw [← leftSame, ← rightSame] at performed
          exact (performed _ [] draft).symm
  | array items =>
      rw [Expr.compile, Expr.actions]
      split
      · rw [performAll_thenAppend, Expr.compileAll_eq_performAll items]
      · exact eq_performAll_of_singleton rfl rfl
  | call callee arguments =>
      have argumentsSame :
          Expr.compileAll arguments = performAll (Expr.actionsOfAll arguments) :=
        funext (Expr.compileAll_eq_performAll arguments)
      rw [Expr.compile, Expr.actions]
      split
      · rw [performAll_operands, Expr.compile_eq_performAll callee, argumentsSame]
      · exact eq_performAll_of_singleton rfl rfl
  | index collection position => exact eq_performAll_of_singleton rfl rfl
  | conditional condition consequence alternative =>
      exact eq_performAll_of_singleton rfl rfl

theorem Expr.compileAll_eq_performAll (items : List Expr) (draft : Draft) :
    Expr.compileAll items draft = performAll (Expr.actionsOfAll items) draft := by
  cases items with
  | nil => rfl
  | cons item items =>
      have itemsSame : Expr.compileAll items = performAll (Expr.actionsOfAll items) :=
        funext (Expr.compileAll_eq_performAll items)
      rw [Expr.compileAll, Expr.actionsOfAll, performAll_append,
        Expr.compile_eq_performAll item, itemsSame]

end

theorem Stmt.compileBody_eq_performAll (stmt : Stmt) (draft : Draft) :
    stmt.compileBody draft = performAll stmt.actions draft := by
  rw [compileBody, actions, performAll_append, Expr.compile_eq_performAll]
  congr 1
  funext middle
  rw [performAll_singleton]
  cases stmt <;> rfl

/-- Why the compilation of a program failed, without the statement that failed. -/
def CompileFailure.rejection (failure : CompileFailure) : Rejection :=
  ⟨failure.error.cause, failure.draft⟩

theorem Stmt.compile_mapError (stmt : Stmt) (draft : Draft) :
    (stmt.compile draft).mapError CompileFailure.rejection =
      performAll stmt.actions draft := by
  rw [← compileBody_eq_performAll, compile]
  cases stmt.compileBody draft <;> rfl

/-- Compiling a program is performing its actions, apart from the spans of errors. -/
theorem Program.compile_mapError (program : Program) (draft : Draft) :
    (program.compile draft).mapError CompileFailure.rejection =
      performAll program.actions draft := by
  induction program generalizing draft with
  | nil => rfl
  | cons stmt rest inductionHypothesis =>
      rw [compile, List.foldlM_cons, actions, List.flatMap_cons, performAll_append,
        ← Stmt.compile_mapError]
      cases stmt.compile draft with
      | error failure => rfl
      | ok middle => exact inductionHypothesis middle

end ExprMachine
