import ExprMachine.Proofs.Compilation.Mirroring
import ExprMachine.Proofs.Compilation.Simulation
import ExprMachine.Session

/-!
# What an input does to a session

An input is rejected, and then the session stays as it is, or it is read, compiled
and run to its end, and then the session goes on with the names, constants and
globals that were reached. In either case the session stays well-formed: the symbol
table is, and all values were built in cells that are in use.
-/

namespace ExprMachine

/-- The value of the last statement of the input is asked for. -/
def Program.endsWithExpression (program : Program) : Bool :=
  program.getLast?.any Stmt.isExpression

theorem Program.ne_nil_of_endsWithExpression {program : Program}
    (ends : program.endsWithExpression = true) : program ≠ [] := by
  rintro rfl
  cases ends

def Evaluation.succeeds (evaluation : Evaluation) : Bool :=
  evaluation.result.isOk

/-- The error of an input whose run stopped. -/
def InputError.ofCause : StopCause → InputError
  | .error error => runtime error
  | .fault cause => fault cause

namespace Session

variable {session : Session} {source : String}

/-- The evaluation of an input that was compiled and run to its end. -/
def commit (session : Session) (draft : Draft) (machine : Machine)
    (wantsValue : Bool) : Evaluation where
  printed := machine.printed
  result := .ok (if wantsValue then some machine.lastPopped else none)
  session :=
    { symbols := draft.symbols
      constants := draft.constants
      globals := machine.globals
      stackSize := session.stackSize
      fresh := machine.fresh }

/-- The machine that the compiled input is run on. -/
def machine (session : Session) (draft : Draft) : Machine :=
  .start session.stackSize session.globals draft.fresh

/-- The evaluation of a compiled input whose run had the given outcome. -/
def conclude (session : Session) (draft : Draft) (wantsValue : Bool) :
    Except Stopped Machine → Evaluation
  | .ok machine => session.commit draft machine wantsValue
  | .error stopped => session.reject stopped.machine.printed (.ofCause stopped.cause)

theorem runDraft_eq_conclude (session : Session) (draft : Draft) (wantsValue : Bool) :
    session.runDraft draft wantsValue =
      session.conclude draft wantsValue ((session.machine draft).run draft.bytecode) := by
  rw [runDraft, Session.machine]
  rcases (Machine.start _ _ _).run draft.bytecode with ⟨_ | _, _⟩ | machine <;> rfl

/-- The evaluation of an input that could be read. -/
theorem evaluate_of_read {program : Program} (read : readProgram source = .ok program) :
    session.evaluate source =
      match program.compile session.draft with
      | .error failure => session.reject "" (.compile failure.error)
      | .ok draft =>
          session.conclude draft program.endsWithExpression
            ((session.machine draft).run draft.bytecode) := by
  rw [Session.evaluate, read]
  cases compiled : program.compile session.draft with
  | error failure => simp only [compiled]
  | ok draft =>
      simp only [compiled]
      exact session.runDraft_eq_conclude draft _

/-- The input is read as the program, compiled to the draft, and run to its end. -/
structure Accepts (session : Session) (source : String) (program : Program)
    (draft : Draft) (machine : Machine) : Prop where
  read : readProgram source = .ok program
  compiled : program.compile session.draft = .ok draft
  ended : (session.machine draft).run draft.bytecode = .ok machine

theorem Accepts.evaluate {program : Program} {draft : Draft} {machine : Machine}
    (accepts : session.Accepts source program draft machine) :
    session.evaluate source =
      session.commit draft machine program.endsWithExpression := by
  rw [evaluate_of_read accepts.read, accepts.compiled]
  simp only [accepts.ended]
  rfl

/-- An input is rejected, or it is accepted and what it reached is committed. -/
theorem evaluate_cases (session : Session) (source : String) :
    (∃ printed error, session.evaluate source = session.reject printed error) ∨
      ∃ program draft machine, session.Accepts source program draft machine := by
  cases read : readProgram source with
  | error error => exact Or.inl ⟨_, _, by rw [evaluate, read]⟩
  | ok program =>
      rw [evaluate_of_read read]
      cases compiled : program.compile session.draft with
      | error failure => exact Or.inl ⟨_, _, rfl⟩
      | ok draft =>
          cases ended : (session.machine draft).run draft.bytecode with
          | ok machine => exact Or.inr ⟨program, draft, machine, read, compiled, ended⟩
          | error stopped => exact Or.inl ⟨_, _, by simp only [ended]; rfl⟩

theorem accepts_of_ok {value : Option Value}
    (succeeds : (session.evaluate source).result = .ok value) :
    ∃ program draft machine, session.Accepts source program draft machine := by
  rcases session.evaluate_cases source with ⟨printed, error, rejected⟩ | accepted
  · rw [rejected] at succeeds
    cases succeeds
  · exact accepted

theorem session_of_error {error : InputError}
    (fails : (session.evaluate source).result = .error error) :
    (session.evaluate source).session = session := by
  rcases session.evaluate_cases source with ⟨printed, cause, rejected⟩ | accepted
  · rw [rejected]
    rfl
  · obtain ⟨program, draft, machine, accepts⟩ := accepted
    rw [accepts.evaluate] at fails
    cases fails

/-! ## Well-formed sessions -/

/-- The symbol table is well-formed, and the values were built in cells that are in
use. -/
structure WellFormed (session : Session) : Prop where
  symbols : session.symbols.WellFormed
  constants : ∀ value ∈ session.constants, value.Within session.fresh
  globals : ∀ value ∈ session.globals, value.Within session.fresh

theorem wellFormed_start (stackSize : Nat) : (start stackSize).WellFormed where
  symbols := SymbolTable.wellFormed_withBuiltins
  constants := fun _ impossible => nomatch impossible
  globals := fun _ impossible => nomatch impossible

end Session

theorem Program.symbolsAfter_wellFormed {symbols : SymbolTable}
    (wellFormed : symbols.WellFormed) {program : Program}
    (supported : program.Supported symbols) :
    (program.symbolsAfter symbols).WellFormed := by
  induction program generalizing symbols with
  | nil => exact wellFormed
  | cons stmt rest inductionHypothesis =>
      obtain ⟨⟨_, fits⟩, restSupported⟩ := supported
      exact inductionHypothesis (Stmt.symbolsAfter_wellFormed wellFormed fits)
        restSupported

namespace Session

variable {session : Session} {source : String}

/-- The values of a draft were built in the cells that it uses. -/
theorem WellFormed.within_draft (wellFormed : session.WellFormed) {program : Program}
    {draft : Draft} (compiled : program.compile session.draft = .ok draft) :
    session.fresh ≤ draft.fresh ∧ ∀ value ∈ draft.constants, value.Within draft.fresh := by
  obtain ⟨_, _, rfl⟩ := Program.of_compile_start compiled
  have later : session.fresh ≤ session.fresh + Literal.cellCount program.literals :=
    Nat.le_add_right ..
  refine ⟨later, fun value member => ?_⟩
  rcases Array.mem_append.mp member with before | added
  · exact (wellFormed.constants value before).mono later
  · exact Literal.within_constants _ _ value (List.mem_toArray.mp added)

/-- The run of an accepted input and that of a copy do the same. -/
theorem WellFormed.run_mirrors (wellFormed : session.WellFormed) {program : Program}
    {draft : Draft} (compiled : program.compile session.draft = .ok draft)
    {relocation : Relocation} (inside : relocation.boundary ≤ draft.fresh)
    {copies : Array Value} {more : List Value}
    (copied : copies.toList = draft.constants.toList.map (Value.relocate relocation) ++ more)
    {earlier : String} {copy : Machine}
    (copyView : copy.view =
      ⟨[], session.stackSize, session.globals.map (Value.relocate relocation), earlier,
        relocation.apply draft.fresh⟩) :
    Machine.OutcomeMirrors (relocation.raise inside) earlier
        ((session.machine draft).run draft.bytecode)
        (copy.executeAll copies draft.code.toList) ∧
      (program ≠ [] → Machine.PopsMirrored (relocation.raise inside)
        ((session.machine draft).run draft.bytecode)
        (copy.executeAll copies draft.code.toList)) := by
  have addressable := wellFormed.symbols.addressable
  have valid := Program.valid_of_compile addressable compiled
  have raised : Value.relocate (relocation.raise inside) = Value.relocate relocation :=
    funext (Value.relocate_raise inside)
  obtain ⟨later, within⟩ := wellFormed.within_draft compiled
  have globals : ∀ value ∈ session.globals, value.Within draft.fresh :=
    fun value member => (wellFormed.globals value member).mono later
  have mirrors : Machine.Mirrors (relocation.raise inside) earlier
      (session.machine draft) copy := by
    refine Machine.mirrors_start globals (Nat.le_refl _) session.stackSize ?_
    rw [raised]
    exact copyView
  rw [← raised] at copied
  have pool := Copied.of_append within copied
  rw [Draft.bytecode, Machine.run_eq_executeAll valid]
  exact mirrors.executeAll_compiled addressable compiled pool

theorem view_machine (session : Session) (draft : Draft) :
    (session.machine draft).view =
      ⟨[], session.stackSize, session.globals, "", draft.fresh⟩ := by
  simp [machine, Machine.view, Machine.stack, Machine.start]

/-- What an accepted input leaves behind was built in the cells that it used. -/
theorem WellFormed.within_accepts (wellFormed : session.WellFormed) {program : Program}
    {draft : Draft} {machine : Machine}
    (accepts : session.Accepts source program draft machine) :
    draft.fresh ≤ machine.fresh ∧
      (∀ value ∈ machine.globals, value.Within machine.fresh) ∧
        (program ≠ [] → machine.lastPopped.Within machine.fresh) := by
  have addressable := wellFormed.symbols.addressable
  have valid := Program.valid_of_compile addressable accepts.compiled
  have kept : Value.relocate .refl = id := funext Value.relocate_refl
  have inside : Relocation.refl.boundary ≤ draft.fresh := Nat.zero_le _
  -- The machine is its own copy, with the constants as their own copies.
  have copied : draft.constants.toList =
      draft.constants.toList.map (Value.relocate .refl) ++ [] := by
    rw [kept, List.map_id, List.append_nil]
  have copyView : (session.machine draft).view =
      ⟨[], session.stackSize, session.globals.map (Value.relocate .refl), "",
        Relocation.refl.apply draft.fresh⟩ := by
    rw [kept, Array.map_id, view_machine]
    rfl
  have ended := accepts.ended
  obtain ⟨mirrors, popping⟩ :=
    wellFormed.run_mirrors accepts.compiled inside copied copyView
  rw [Draft.bytecode, Machine.run_eq_executeAll valid] at mirrors popping ended
  rw [ended] at mirrors popping
  cases mirrors with
  | ok mirrors =>
      refine ⟨mirrors.inside, mirrors.within.globals, fun nonempty => ?_⟩
      exact (popping nonempty machine machine rfl rfl).2

/-- What an evaluation preserves: the session stays well-formed, goes on with later
cells, and its answer was built in cells that are in use. -/
theorem WellFormed.evaluate (wellFormed : session.WellFormed) (source : String) :
    let evaluation := session.evaluate source
    evaluation.session.WellFormed ∧ session.fresh ≤ evaluation.session.fresh ∧
      ∀ value, evaluation.result = .ok (some value) →
        value.Within evaluation.session.fresh := by
  intro evaluation
  rcases session.evaluate_cases source with ⟨printed, error, rejected⟩ | accepted
  · have same : evaluation = session.reject printed error := rejected
    rw [same]
    exact ⟨wellFormed, Nat.le_refl _, fun _ impossible => nomatch impossible⟩
  · obtain ⟨program, draft, machine, accepts⟩ := accepted
    have same : evaluation = _ := accepts.evaluate
    obtain ⟨later, constants⟩ := wellFormed.within_draft accepts.compiled
    obtain ⟨laterStill, globals, last⟩ := wellFormed.within_accepts accepts
    obtain ⟨supported, _, shape⟩ := Program.of_compile_start accepts.compiled
    have symbols : draft.symbols.WellFormed := by
      rw [shape]
      exact Program.symbolsAfter_wellFormed wellFormed.symbols supported
    rw [same]
    refine ⟨⟨symbols, fun value member => ?_, globals⟩, Nat.le_trans later laterStill, ?_⟩
    · exact (constants value member).mono laterStill
    · intro value found
      by_cases wantsValue : program.endsWithExpression = true
      · simp only [commit, wantsValue, if_true] at found
        cases found
        exact last (Program.ne_nil_of_endsWithExpression wantsValue)
      · simp only [commit, wantsValue] at found
        cases found

/-! ## Inputs one after another -/

/-- The session after inputs that were evaluated one after another. -/
def after (session : Session) (inputs : List String) : Session :=
  inputs.foldl (fun session source => (session.evaluate source).session) session

/-- Every session that inputs lead to is well-formed. -/
theorem WellFormed.after (wellFormed : session.WellFormed) (inputs : List String) :
    (session.after inputs).WellFormed := by
  induction inputs generalizing session with
  | nil => exact wellFormed
  | cons source inputs inductionHypothesis =>
      exact inductionHypothesis (wellFormed.evaluate source).1

end Session

end ExprMachine
