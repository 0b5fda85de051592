import ExprMachine.Proofs.Compilation.Verdicts
import ExprMachine.Proofs.Session.Inputs

/-!
# Inputs that fail

An input that fails leaves the session as it was, but it may have used up cells that
are then never used for anything else. How many they are plays no part in what later
inputs do: the evaluation of an input in a relocated session is the relocated
evaluation. So the answers to the other inputs, and the session at the end, are what
they would be without the inputs that fail, apart from the names of cells.
-/

namespace ExprMachine

/-! ## Relocated sessions -/

def Session.relocate (relocation : Relocation) (session : Session) : Session where
  symbols := session.symbols
  constants := session.constants.map (Value.relocate relocation)
  globals := session.globals.map (Value.relocate relocation)
  stackSize := session.stackSize
  fresh := relocation.apply session.fresh

/-- The answer to an input under other names of cells. -/
def relocateAnswer (relocation : Relocation) :
    Except InputError (Option Value) → Except InputError (Option Value) :=
  Except.map (Option.map (Value.relocate relocation))

def Evaluation.relocate (relocation : Relocation) (evaluation : Evaluation) :
    Evaluation where
  printed := evaluation.printed
  result := relocateAnswer relocation evaluation.result
  session := evaluation.session.relocate relocation

namespace Session

variable {session : Session} {relocation : Relocation}

/-- What a copy of a machine leaves behind is a relocated copy of what the machine does,
if the draft is. -/
theorem commit_mirrors {other : Session} {draft copyDraft : Draft}
    {machine copyMachine : Machine} {earlier : String}
    {later : relocation.boundary ≤ draft.fresh} {wantsValue : Bool}
    (mirrors : Machine.Mirrors (relocation.raise later) earlier machine copyMachine)
    (popped : wantsValue = true →
      copyMachine.lastPopped = machine.lastPopped.relocate relocation)
    (stackSize : other.stackSize = session.stackSize)
    (symbols : copyDraft.symbols = draft.symbols)
    (constants : copyDraft.constants = draft.constants.map (Value.relocate relocation)) :
    other.commit copyDraft copyMachine wantsValue =
      { (session.commit draft machine wantsValue).relocate relocation with
        printed := earlier ++ machine.printed } := by
  have raised : Value.relocate (relocation.raise later) = Value.relocate relocation :=
    funext (Value.relocate_raise later)
  have globals := mirrors.globals
  have fresh : copyMachine.fresh = relocation.apply machine.fresh := mirrors.fresh
  rw [raised] at globals
  rw [commit, mirrors.printed, globals, fresh, stackSize, symbols, constants]
  cases wantsValue with
  | true =>
      rw [if_pos rfl, popped rfl]
      rfl
  | false => rfl

/-- What the copy of a run leads to in another session, after the text printed before. -/
def concludeCopy (session other : Session) (relocation : Relocation) (earlier : String)
    (draft : Draft) (wantsValue : Bool) : Except Stopped Machine → Evaluation
  | .ok machine =>
      { (session.commit draft machine wantsValue).relocate relocation with
        printed := earlier ++ machine.printed }
  | .error stopped =>
      other.reject (earlier ++ stopped.machine.printed) (.ofCause stopped.cause)

theorem conclude_mirrors (session : Session) {other : Session} {program : Program}
    {draft copyDraft : Draft} {outcome copyOutcome : Except Stopped Machine}
    {earlier : String} {later : relocation.boundary ≤ draft.fresh}
    (mirrors : Machine.OutcomeMirrors (relocation.raise later) earlier outcome copyOutcome)
    (popping : program ≠ [] →
      Machine.PopsMirrored (relocation.raise later) outcome copyOutcome)
    (stackSize : other.stackSize = session.stackSize)
    (symbols : copyDraft.symbols = draft.symbols)
    (constants : copyDraft.constants = draft.constants.map (Value.relocate relocation)) :
    other.conclude copyDraft program.endsWithExpression copyOutcome =
      session.concludeCopy other relocation earlier draft program.endsWithExpression
        outcome := by
  cases mirrors with
  | ok mirrors =>
      refine commit_mirrors mirrors (fun ends => ?_) stackSize symbols constants
      have nonempty := Program.ne_nil_of_endsWithExpression ends
      rw [(popping nonempty _ _ rfl rfl).1, Value.relocate_raise]
  | error sameCause samePrinted => rw [conclude, sameCause, samePrinted, concludeCopy]

theorem WellFormed.conclude_relocate (wellFormed : session.WellFormed)
    (inside : relocation.boundary ≤ session.fresh) {program : Program} {draft : Draft}
    (compiled : program.compile session.draft = .ok draft) :
    let copy := session.relocate relocation
    let copyDraft := draft.relocate relocation
    copy.conclude copyDraft program.endsWithExpression
        ((copy.machine copyDraft).run copyDraft.bytecode) =
      (session.conclude draft program.endsWithExpression
        ((session.machine draft).run draft.bytecode)).relocate relocation := by
  intro copy copyDraft
  have later := Nat.le_trans inside (wellFormed.within_draft compiled).1
  have copyCompiled := Program.compile_relocate inside compiled
  have copyValid : CodeValid copyDraft.constants.size draft.code.toList :=
    Program.valid_of_compile wellFormed.symbols.addressable copyCompiled
  have copied : copyDraft.constants.toList =
      draft.constants.toList.map (Value.relocate relocation) ++ [] := by
    rw [List.append_nil]
    exact Array.toList_map
  obtain ⟨mirrors, popping⟩ :=
    wellFormed.run_mirrors compiled later copied (copy.view_machine copyDraft)
  have copyRun : (copy.machine copyDraft).run copyDraft.bytecode =
      (copy.machine copyDraft).executeAll copyDraft.constants draft.code.toList :=
    Machine.run_eq_executeAll copyValid _
  rw [← copyRun] at mirrors popping
  refine Eq.trans (conclude_mirrors session mirrors popping rfl rfl rfl) ?_
  cases (session.machine draft).run draft.bytecode with
  | ok machine =>
      rw [concludeCopy, String.empty_append]
      rfl
  | error stopped =>
      rw [concludeCopy, String.empty_append]
      rfl

/-- An input does the same in a relocated session, apart from the names of cells. -/
theorem WellFormed.evaluate_relocate (wellFormed : session.WellFormed)
    (inside : relocation.boundary ≤ session.fresh) (source : String) :
    (session.relocate relocation).evaluate source =
      (session.evaluate source).relocate relocation := by
  cases read : readProgram source with
  | error error =>
      rw [Session.evaluate, Session.evaluate, read]
      rfl
  | ok program =>
      rw [evaluate_of_read read, evaluate_of_read read]
      cases compiled : program.compile session.draft with
      | ok draft =>
          have copyCompiled := Program.compile_relocate inside compiled
          change program.compile (session.relocate relocation).draft = _ at copyCompiled
          simp only [copyCompiled]
          exact wellFormed.conclude_relocate inside compiled
      | error failure =>
          have same : session.draft.footing = (session.relocate relocation).draft.footing := by
            simp [Draft.footing, Session.draft, Draft.start, relocate]
          have verdicts := program.verdict_compile same
          rw [compiled] at verdicts
          cases copyCompiled : program.compile (session.relocate relocation).draft with
          | ok draft =>
              rw [copyCompiled] at verdicts
              cases verdicts
          | error copyFailure =>
              rw [copyCompiled] at verdicts
              injection verdicts with sameError
              simp only [← sameError]
              rfl

/-- Sessions with the same values look the same under names that agree on the cells in
use. -/
theorem WellFormed.relocate_congr (wellFormed : session.WellFormed)
    {other : Relocation}
    (agree : ∀ cell, cell < session.fresh → relocation.apply cell = other.apply cell) :
    { session.relocate relocation with fresh := other.apply session.fresh } =
      session.relocate other := by
  have constants : session.constants.map (Value.relocate relocation) =
      session.constants.map (Value.relocate other) :=
    Array.map_congr_left fun value member =>
      Value.relocate_congr agree (wellFormed.constants value member)
  have globals : session.globals.map (Value.relocate relocation) =
      session.globals.map (Value.relocate other) :=
    Array.map_congr_left fun value member =>
      Value.relocate_congr agree (wellFormed.globals value member)
  simp only [relocate, constants, globals]

end Session

/-! ## Inputs one after another -/

/-- What is seen of an evaluation: the printed text, and the value or the error. -/
def Evaluation.answer (evaluation : Evaluation) :
    String × Except InputError (Option Value) :=
  (evaluation.printed, evaluation.result)

/-- The answer to an input is the same under names that agree on the cells in use. -/
theorem Evaluation.answer_relocate_congr {evaluation : Evaluation}
    {relocation other : Relocation} {fresh : Nat}
    (agree : ∀ cell, cell < fresh → relocation.apply cell = other.apply cell)
    (within : ∀ value, evaluation.result = .ok (some value) → value.Within fresh) :
    (evaluation.relocate relocation).answer = (evaluation.relocate other).answer := by
  obtain ⟨printed, result, session⟩ := evaluation
  rcases result with error | _ | value
  · rfl
  · rfl
  · have same := Value.relocate_congr agree (within value rfl)
    simp only [relocate, answer, relocateAnswer, Except.map, Option.map, same]

/-- An input, and the number of cells that are used up if it fails. -/
structure Attempt where
  source : String
  lost : Nat

namespace Session

/-- Evaluates an input. If it fails, cells are used up, and nothing else changes. -/
def attempt (session : Session) (input : Attempt) : Evaluation :=
  let evaluation := session.evaluate input.source
  if evaluation.succeeds then
    evaluation
  else
    { evaluation with
      session :=
        { evaluation.session with fresh := evaluation.session.fresh + input.lost } }

/-- When no cells are used up in vain, this is evaluation itself. -/
theorem attempt_without_loss (session : Session) (source : String) :
    session.attempt ⟨source, 0⟩ = session.evaluate source := by
  rw [attempt]
  split <;> rfl

/-- The evaluations of inputs one after another. -/
def attempts : Session → List Attempt → List Evaluation
  | _, [] => []
  | session, input :: inputs =>
      session.attempt input :: attempts (session.attempt input).session inputs

/-- The session after inputs that were evaluated one after another. -/
def afterAttempts (session : Session) (inputs : List Attempt) : Session :=
  inputs.foldl (fun session input => (session.attempt input).session) session

/-- The inputs that do not fail when all inputs are evaluated one after another. -/
def kept : Session → List Attempt → List String
  | _, [] => []
  | session, input :: inputs =>
      let later := kept (session.attempt input).session inputs
      if (session.attempt input).succeeds then input.source :: later else later

/-- The evaluations of inputs one after another, no cells being used up by those that
fail. -/
def evaluations : Session → List String → List Evaluation
  | _, [] => []
  | session, source :: inputs =>
      session.evaluate source :: evaluations (session.evaluate source).session inputs

variable {session : Session} {relocation : Relocation} {input : Attempt}

theorem attempt_of_succeeds (succeeds : (session.evaluate input.source).succeeds = true) :
    session.attempt input = session.evaluate input.source :=
  if_pos succeeds

theorem succeeds_attempt (session : Session) (input : Attempt) :
    (session.attempt input).succeeds = (session.evaluate input.source).succeeds := by
  rw [attempt]
  split <;> rfl

theorem kept_of_succeeds (succeeds : (session.evaluate input.source).succeeds = true)
    (inputs : List Attempt) :
    session.kept (input :: inputs) =
      input.source :: (session.evaluate input.source).session.kept inputs := by
  rw [kept, succeeds_attempt, if_pos succeeds, attempt_of_succeeds succeeds]

theorem kept_of_fails (fails : (session.evaluate input.source).succeeds ≠ true)
    (inputs : List Attempt) :
    session.kept (input :: inputs) = (session.attempt input).session.kept inputs := by
  rw [kept, succeeds_attempt, if_neg fails]

theorem filter_attempts_of_succeeds
    (succeeds : (session.evaluate input.source).succeeds = true)
    (inputs : List Attempt) :
    (session.attempts (input :: inputs)).filter Evaluation.succeeds =
      session.evaluate input.source ::
        ((session.evaluate input.source).session.attempts inputs).filter
          Evaluation.succeeds := by
  rw [attempts, attempt_of_succeeds succeeds, List.filter_cons_of_pos succeeds]

theorem filter_attempts_of_fails
    (fails : (session.evaluate input.source).succeeds ≠ true) (inputs : List Attempt) :
    (session.attempts (input :: inputs)).filter Evaluation.succeeds =
      ((session.attempt input).session.attempts inputs).filter Evaluation.succeeds := by
  have left : ¬ (session.attempt input).succeeds = true := by rwa [succeeds_attempt]
  rw [attempts, List.filter_cons_of_neg left]

/-- An input that fails changes nothing but the cells that are used up. -/
theorem session_attempt_of_fails
    (fails : (session.evaluate input.source).succeeds ≠ true) :
    (session.attempt input).session =
      { session with fresh := session.fresh + input.lost } := by
  cases result : (session.evaluate input.source).result with
  | ok value =>
      rw [Evaluation.succeeds, result] at fails
      exact absurd rfl fails
  | error error => rw [attempt, if_neg fails, session_of_error result]

theorem WellFormed.attempt_relocate_of_fails (wellFormed : session.WellFormed)
    (inside : relocation.boundary ≤ session.fresh)
    (fails : ((session.relocate relocation).evaluate input.source).succeeds ≠ true) :
    ((session.relocate relocation).attempt input).session =
      session.relocate (relocation.skip inside input.lost) := by
  have agree : ∀ cell, cell < session.fresh →
      relocation.apply cell = (relocation.skip inside input.lost).apply cell :=
    fun _ used => (relocation.apply_skip_of_lt inside input.lost used).symm
  rw [session_attempt_of_fails fails, ← wellFormed.relocate_congr agree,
    relocation.apply_skip_fresh]
  rfl

/-- A session and a relocated one go through the same inputs. The inputs that fail in
the relocated session are left out in the other one. -/
theorem WellFormed.attempts_relocate (wellFormed : session.WellFormed)
    (inside : relocation.boundary ≤ session.fresh) (inputs : List Attempt) :
    let full := session.relocate relocation
    ∃ final : Relocation,
      (∀ cell, cell < session.fresh → relocation.apply cell = final.apply cell) ∧
        ((full.attempts inputs).filter Evaluation.succeeds).map Evaluation.answer =
          (session.evaluations (full.kept inputs)).map
            (fun evaluation => (evaluation.relocate final).answer) ∧
        full.afterAttempts inputs =
          (session.after (full.kept inputs)).relocate final := by
  induction inputs generalizing session relocation with
  | nil => exact ⟨relocation, fun _ _ => rfl, rfl, rfl⟩
  | cons input inputs inductionHypothesis =>
      intro full
      have evaluated : full.evaluate input.source =
          (session.evaluate input.source).relocate relocation :=
        wellFormed.evaluate_relocate inside input.source
      by_cases succeeds : (full.evaluate input.source).succeeds = true
      · obtain ⟨nextWellFormed, later, within⟩ := wellFormed.evaluate input.source
        have nextInside := Nat.le_trans inside later
        obtain ⟨final, agree, answers, reached⟩ :=
          inductionHypothesis nextWellFormed nextInside
        have answered := Evaluation.answer_relocate_congr agree within
        rw [filter_attempts_of_succeeds succeeds, kept_of_succeeds succeeds,
          afterAttempts, List.foldl_cons, attempt_of_succeeds succeeds, evaluated]
        refine ⟨final, fun cell used => agree cell (Nat.lt_of_lt_of_le used later), ?_,
          reached⟩
        rw [List.map_cons, answered]
        exact congrArg (List.cons _) answers
      · have lost := wellFormed.attempt_relocate_of_fails inside succeeds
        have nextInside : (relocation.skip inside input.lost).boundary ≤ session.fresh :=
          Nat.le_refl _
        obtain ⟨final, agree, answers, reached⟩ :=
          inductionHypothesis wellFormed nextInside
        rw [filter_attempts_of_fails succeeds, kept_of_fails succeeds, afterAttempts,
          List.foldl_cons, lost]
        refine ⟨final, fun cell used => ?_, answers, reached⟩
        rw [← agree cell used, relocation.apply_skip_of_lt inside _ used]

/-- Inputs that fail cannot be observed. Some inputs are evaluated one after another,
and for each of them that fails, any number of cells is used up. The inputs that do not
fail are also evaluated without the others. Then none of them fails, each has the same
answer and prints the same text, and both sequences lead to the same symbol table,
constants and globals, all under an injective renaming of cells. -/
theorem failures_unobservable (stackSize : Nat) (inputs : List Attempt) :
    let start := Session.start stackSize
    let kept := start.kept inputs
    ∃ relocation : Relocation,
      ((start.attempts inputs).filter Evaluation.succeeds).map Evaluation.answer =
          (start.evaluations kept).map
            (fun evaluation => (evaluation.relocate relocation).answer) ∧
        start.afterAttempts inputs = (start.after kept).relocate relocation := by
  intro start kept
  have inside : Relocation.refl.boundary ≤ start.fresh := Nat.zero_le _
  have itself : start.relocate .refl = start := by
    simp only [start, Session.start, relocate, Array.map_empty]
    rfl
  have unobservable := (wellFormed_start stackSize).attempts_relocate inside inputs
  rw [itself] at unobservable
  obtain ⟨relocation, _, answers, reached⟩ := unobservable
  exact ⟨relocation, answers, reached⟩

end Session

end ExprMachine
