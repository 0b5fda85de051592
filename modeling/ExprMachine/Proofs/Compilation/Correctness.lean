import ExprMachine.Proofs.Compilation.Simulation

/-!
# Compiled programs run as they are evaluated

What can be seen of the run of a compiled program is what can be seen of its
evaluation, as long as the stack is as large as the program needs. This need is
exact: a program that runs to its end on some stack overflows every stack that is
smaller than its need.
-/

namespace ExprMachine

theorem Literal.pooled_of_append (constants : Array Value) (cell : Cell)
    (literals : List Literal) :
    Pooled (constants ++ (Literal.constants cell literals).toArray) constants.size
      cell literals := by
  intro position value found
  rw [Array.getElem?_append_right (Nat.le_add_right ..), Nat.add_sub_cancel_left,
    List.getElem?_toArray]
  exact found

/-- The run of a compiled program follows its evaluation, on stacks of any size. -/
theorem Program.run_follows {program : Program} {symbols : SymbolTable}
    {constants : Array Value} {fresh : Cell} {draft : Draft}
    (wellFormed : symbols.WellFormed)
    (compiled : program.compile (.start symbols constants fresh) = .ok draft)
    (stackSize : Nat) (globals : Array Value) (cell : Cell) :
    Follows stackSize program.stackNeed (Arrives draft.symbols stackSize)
      ((Machine.start stackSize globals cell).run draft.bytecode)
      (program.evaluateFrom
        ⟨symbols.valuation globals, .null, "", fresh, cell⟩) := by
  have valid := Program.valid_of_compile wellFormed.addressable compiled
  obtain ⟨supported, room, rfl⟩ := Program.of_compile_start compiled
  have arrives : Arrives symbols stackSize
      ⟨symbols.valuation globals, .null, "", fresh, cell⟩
      (Machine.start stackSize globals cell) := by
    refine ⟨?_, rfl, ?_⟩
    · simp [Machine.view, Scene.view, Machine.stack, Machine.start]
    · rw [Machine.lastPopped, Machine.start, Array.getElem?_replicate]
      split <;> rfl
  rw [Draft.bytecode, Machine.run_eq_executeAll valid]
  exact program.simulated wellFormed supported
    (Literal.pooled_of_append constants fresh program.literals) arrives

/-- What can be seen of a run when it has ended. Nothing is to be seen of a fault
of the bytecode. -/
def Machine.observe (symbols : SymbolTable) :
    Except Stopped Machine → Option Observation
  | .ok machine =>
      some ⟨machine.printed,
        .ok (symbols.valuation machine.globals, machine.lastPopped)⟩
  | .error ⟨.error error, machine⟩ => some ⟨machine.printed, .error (.error error)⟩
  | .error ⟨.fault _, _⟩ => none

/-- A run that follows an evaluation on a stack that is large enough shows what
the evaluation shows. -/
theorem Follows.observe_eq {symbols : SymbolTable} {capacity height : Nat}
    {outcome : Except Stopped Machine} {evaluation : Except Halt Stage}
    (follows : Follows capacity height (Arrives symbols capacity) outcome evaluation)
    (enough : height ≤ capacity) :
    Machine.observe symbols outcome = some (.ofEvaluation evaluation) := by
  cases evaluation with
  | ok stage =>
      rw [Follows, if_pos enough] at follows
      obtain ⟨next, rfl, arrives⟩ := follows
      have printed : next.printed = stage.scene.printed :=
        congrArg View.printed arrives.view
      rw [Machine.observe, Observation.ofEvaluation, printed, arrives.names,
        arrives.last]
  | error halt =>
      rcases follows with ⟨error, cause, _, stopped, rfl, same, printed⟩ | ⟨tooFew, _⟩
      · obtain ⟨stopCause, machine⟩ := stopped
        subst same
        rw [Machine.observe, Observation.ofEvaluation, cause, printed]
      · omega

/-- What can be seen of the run of a compiled program is what can be seen of its
evaluation, on every stack that is large enough for it. -/
theorem Program.run_eq_evaluate {program : Program} {symbols : SymbolTable}
    {constants : Array Value} {fresh : Cell} {draft : Draft}
    (wellFormed : symbols.WellFormed)
    (compiled : program.compile (.start symbols constants fresh) = .ok draft)
    (globals : Array Value) {stackSize : Nat}
    (enough : program.stackNeed ≤ stackSize) :
    Machine.observe draft.symbols
        ((Machine.start stackSize globals draft.fresh).run draft.bytecode) =
      some (program.evaluate (symbols.valuation globals) fresh) := by
  have follows :=
    Program.run_follows wellFormed compiled stackSize globals draft.fresh
  have cells : draft.fresh = fresh + Literal.cellCount program.literals := by
    obtain ⟨_, _, rfl⟩ := Program.of_compile_start compiled
    rfl
  rw [follows.observe_eq enough, Program.evaluate, cells]

/-- A program that prints whether one is less than two. -/
theorem Program.run_eq_evaluate_lessThan :
    let program : Program :=
      [.expression (.call (.identifier "print")
        [.binary .lessThan (.integer 1) (.integer 2)]) .unknown]
    let evaluation := program.evaluate (SymbolTable.withBuiltins.valuation #[]) 0
    ∃ draft, program.compile (.start .withBuiltins #[] 0) = .ok draft ∧
      program.stackNeed ≤ 3 ∧ evaluation.printed = "true\n" ∧
      Machine.observe draft.symbols
        ((Machine.start 3 #[] draft.fresh).run draft.bytecode) = some evaluation := by
  intro program evaluation
  have resolved : SymbolTable.withBuiltins.resolve? "print" = some ⟨.builtin, 6⟩ := by
    simp [SymbolTable.withBuiltins, Builtin.all, List.zipIdx, Builtin.name,
      SymbolTable.resolve?_defineBuiltin]
  have supported : program.Supported .withBuiltins := by
    simp [program, Program.Supported, Stmt.Supported, Stmt.FitsSlot, Stmt.value,
      Expr.Supported, Expr.AllSupported, Limited.limit, resolved]
  have room : Literal.HaveRoom 0 program.literals := Or.inr (by decide)
  have compiled := (program.compile_eq_ok_iff (.start .withBuiltins #[] 0) _).mpr
    ⟨⟨supported, room⟩, rfl⟩
  have enough : program.stackNeed ≤ 3 := by decide
  have printed : evaluation.printed = "true\n" := by
    simp [evaluation, program, Program.evaluate, Program.evaluateFrom, Stmt.value,
      Expr.evaluate, Expr.evaluateAll, SymbolTable.valuation, resolved,
      Builtin.ofIndex?, Builtin.all, Scene.combine, Scene.conclude, Scene.call,
      BinaryOperator.evaluate?, Value.exceeds, Builtin.call, Builtin.answer,
      Answer.build, Builtin.linesOf, Value.append, Observation.ofEvaluation, bind,
      Except.bind]
  exact ⟨_, compiled, enough, printed,
    Program.run_eq_evaluate SymbolTable.wellFormed_withBuiltins compiled #[] enough⟩

/-! ## The size of the stack -/

def Succeeds (outcome : Except Stopped Machine) : Prop :=
  ∃ machine, outcome = .ok machine

namespace Follows

variable {α : Type} {capacity height : Nat} {shows : α → Machine → Prop}
  {outcome : Except Stopped Machine} {evaluation : Except Halt α}

theorem not_overflows (follows : Follows capacity height shows outcome evaluation)
    (enough : height ≤ capacity) (size : Nat) : ¬ Overflows size outcome := by
  rintro ⟨printed, stopped, failed, cause, _⟩
  cases evaluation with
  | ok result =>
      rw [Follows, if_pos enough] at follows
      obtain ⟨next, reached, _⟩ := follows
      cases failed.symm.trans reached
  | error halt =>
      rcases follows with ⟨error, _, ofValues, other, stops, same, _⟩ | ⟨tooFew, _⟩
      · cases failed.symm.trans stops
        cases cause.symm.trans same
        exact ofValues
      · omega

theorem ok_of_succeeds (follows : Follows capacity height shows outcome evaluation)
    (succeeds : Succeeds outcome) : ∃ result, evaluation = .ok result := by
  obtain ⟨machine, reached⟩ := succeeds
  cases evaluation with
  | ok result => exact ⟨result, rfl⟩
  | error halt =>
      rcases follows with ⟨_, _, _, stopped, stops, _⟩ | ⟨_, _, stopped, stops, _⟩
      · cases reached.symm.trans stops
      · cases reached.symm.trans stops

end Follows

/-- The need of a compiled program is exact. A stack that is as large never
overflows. If the run goes through to the end of the code on some stack, it does
so on exactly the stacks that are as large as the need, and overflows all others.
-/
theorem Program.stackNeed_exact {program : Program} {symbols : SymbolTable}
    {constants : Array Value} {fresh : Cell} {draft : Draft}
    (wellFormed : symbols.WellFormed)
    (compiled : program.compile (.start symbols constants fresh) = .ok draft)
    (globals : Array Value) (cell : Cell) :
    let run := fun size => (Machine.start size globals cell).run draft.bytecode
    (∀ size, program.stackNeed ≤ size → ∀ capacity, ¬ Overflows capacity (run size)) ∧
      ∀ large, Succeeds (run large) →
        (∀ size, size < program.stackNeed → Overflows size (run size)) ∧
          ∀ size, Succeeds (run size) ↔ program.stackNeed ≤ size := by
  intro run
  have follows := fun size =>
    Program.run_follows wellFormed compiled size globals cell
  refine ⟨fun size enough => (follows size).not_overflows enough, ?_⟩
  intro large succeeds
  obtain ⟨stage, evaluated⟩ := (follows large).ok_of_succeeds succeeds
  -- The evaluation does not depend on the size, so every run follows this result.
  have reached : ∀ size, Follows size program.stackNeed (Arrives draft.symbols size)
      (run size) (.ok stage) := by
    intro size
    rw [← evaluated]
    exact follows size
  have overflows : ∀ size, size < program.stackNeed → Overflows size (run size) := by
    intro size tooFew
    have following := reached size
    rwa [Follows, if_neg (Nat.not_le_of_lt tooFew)] at following
  refine ⟨overflows, fun size => ⟨?_, ?_⟩⟩
  · rintro ⟨machine, ended⟩
    by_contra tooFew
    obtain ⟨_, stopped, failed, _⟩ := overflows size (Nat.lt_of_not_le tooFew)
    cases ended.symm.trans failed
  · intro enough
    have following := reached size
    rw [Follows, if_pos enough] at following
    obtain ⟨next, ended, _⟩ := following
    exact ⟨next, ended⟩

/-- A sum runs on two slots and overflows a single one. -/
theorem Program.stackNeed_exact_sum :
    let program : Program :=
      [.expression (.binary .add (.integer 1) (.integer 2)) .unknown]
    ∃ draft, program.compile (.start .withBuiltins #[] 0) = .ok draft ∧
      Succeeds ((Machine.start 2 #[] 0).run draft.bytecode) ∧
      Overflows 1 ((Machine.start 1 #[] 0).run draft.bytecode) := by
  intro program
  have supported : program.Supported .withBuiltins := by
    simp [program, Program.Supported, Stmt.Supported, Stmt.FitsSlot, Stmt.value,
      Expr.Supported]
  have room : Literal.HaveRoom 0 program.literals := Or.inr (by decide)
  have compiled := (program.compile_eq_ok_iff (.start .withBuiltins #[] 0) _).mpr
    ⟨⟨supported, room⟩, rfl⟩
  have wellFormed := SymbolTable.wellFormed_withBuiltins
  have follows := Program.run_follows wellFormed compiled 2 #[] 0
  have enough : program.stackNeed ≤ 2 := by decide
  have tooFew : 1 < program.stackNeed := by decide
  obtain ⟨stage, evaluated⟩ : ∃ stage, program.evaluateFrom
      ⟨SymbolTable.withBuiltins.valuation #[], .null, "", 0, 0⟩ = .ok stage :=
    ⟨_, rfl⟩
  rw [evaluated, Follows, if_pos enough] at follows
  obtain ⟨next, ended, _⟩ := follows
  have exact := Program.stackNeed_exact wellFormed compiled #[] 0
  obtain ⟨overflows, succeeds⟩ := exact.2 2 ⟨next, ended⟩
  exact ⟨_, compiled, (succeeds 2).mpr enough, overflows 1 tooFew⟩

end ExprMachine
