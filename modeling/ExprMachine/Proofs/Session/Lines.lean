import ExprMachine.Proofs.Compilation.Appending
import ExprMachine.Proofs.Machine.Globals
import ExprMachine.Proofs.Parsing.Literals
import ExprMachine.Proofs.Session.Failures
import Mathlib

/-!
# Two inputs as the lines of one

An input that succeeds and ends with a semicolon can be put before another one, on a
line of its own. The two lines are evaluated as the two inputs are one after another:
they are lexed, parsed, compiled and run in the same way. The literals of the second
line are built before the first line runs, and not after it, so that other cells are
used. Errors of the second line are those of the second input, further back.
-/

namespace ExprMachine

/-! ## Reading -/

def InputError.shift (move : Displacement) : InputError → InputError
  | lex error => lex (error.shift move.bytes)
  | parse errors => parse (errors.map (ParseError.shift move))
  | compile error => compile (error.shift move.bytes)
  | runtime error => runtime error
  | fault cause => fault cause

/-- The error was met before any code was run. -/
def InputError.beforeRun : InputError → Bool
  | lex _ => true
  | parse _ => true
  | compile _ => true
  | runtime _ => false
  | fault _ => false

/-- How far back the second line is when the first one has the given tokens. -/
def secondLine (first : String) (lexemes : List Lexeme) : Displacement :=
  ⟨lexemes.length, lineStart first⟩

theorem readProgram_of_lex {source : String} {lexemes : List Lexeme}
    (lexed : lex source = .ok lexemes) :
    readProgram source =
      match (parse lexemes).errors with
      | [] => .ok (parse lexemes).program
      | errors => .error (.parse errors) := by
  simp only [readProgram, lexed]
  generalize parse lexemes = parsed
  rcases parsed with ⟨program, _ | ⟨error, errors⟩⟩ <;> rfl

/-- The tokens of the source text are those of one statement. -/
theorem readProgram_of_statement {source : String} {lexemes : List Lexeme}
    (lexed : lex source = .ok lexemes) {stmt : Parsed Stmt (.start lexemes)}
    (read : Reader.statement (Reader.expression maxNesting) (.start lexemes) = .ok stmt)
    (ended : stmt.after.rest = []) : readProgram source = .ok [stmt.value] := by
  have parsed : parse lexemes = ⟨[stmt.value], []⟩ :=
    (statementsFrom_of_statement read (maxParseErrors - 1) #[] #[]).trans
      (statementsFrom_of_end (List.map_eq_nil_iff.mpr ended) _ _ _)
  exact (readProgram_eq_ok_iff _ _).mpr ⟨lexemes, lexed, parsed⟩

/-- Tokens that are read without an error are read as statements. -/
theorem program_ne_nil {lexemes : List Lexeme} (nonempty : lexemes ≠ [])
    (fine : (parse lexemes).errors = []) : (parse lexemes).program ≠ [] := by
  obtain ⟨sentences, derived, same⟩ := statementsFrom_sound (by decide) fine
  intro empty
  rw [← parse, empty] at same
  have none : sentences = [] := by
    cases sentences with
    | nil => rfl
    | cons sentence sentences => cases same
  subst none
  generalize tokens : (Cursor.start lexemes).tokens = found at derived
  cases derived
  exact nonempty (List.map_eq_nil_iff.mp tokens)

theorem parse_of_readProgram {source : String} {lexemes : List Lexeme} {program : Program}
    (lexed : lex source = .ok lexemes) (read : readProgram source = .ok program) :
    (parse lexemes).program = program ∧ (parse lexemes).errors = [] := by
  obtain ⟨others, lexedOthers, parsed⟩ := (readProgram_eq_ok_iff _ _).mp read
  cases lexed.symm.trans lexedOthers
  rw [parsed]
  exact ⟨rfl, rfl⟩

section Reading

variable {first second : String} {lexemes : List Lexeme} {program : Program}
  (lexed : lex first = .ok lexemes) (read : readProgram first = .ok program)
  (terminated : Terminated (lexemes.map Lexeme.token)) (nonempty : lex second ≠ .ok [])

include lexed read terminated

/-- The second line is read with the errors of the second input. -/
theorem readProgram_lines_error {error : InputError}
    (failed : readProgram second = .error error) :
    readProgram (first ++ "\n" ++ second) =
      .error (error.shift (secondLine first lexemes)) := by
  have lines := lex_lines lexed second
  cases lexedSecond : lex second with
  | error lexError =>
      rw [readProgram, lexedSecond] at failed
      cases failed
      rw [lexedSecond] at lines
      rw [readProgram, lines]
      rfl
  | ok more =>
      obtain ⟨_, fine⟩ := parse_of_readProgram lexed read
      obtain ⟨_, _, _, errors⟩ := parse_append fine terminated more (lineStart first)
      rw [readProgram_of_lex lexedSecond] at failed
      rw [lexedSecond] at lines
      rw [readProgram_of_lex lines]
      simp only [errors]
      cases found : (parse more).errors with
      | nil =>
          rw [found] at failed
          cases failed
      | cons parseError others =>
          rw [found] at failed
          cases failed
          rfl

include nonempty

/-- The second line is read as the statements of the second input, after those of the
first one. -/
theorem readProgram_lines {next : Program} (nextRead : readProgram second = .ok next) :
    next ≠ [] ∧ ∃ front back : Program,
      readProgram (first ++ "\n" ++ second) = .ok (front ++ back) ∧
        Stmt.allWithoutSpans front = Stmt.allWithoutSpans program ∧
          List.Forall₂ (Reader.StmtShifted (lineStart first)) next back := by
  obtain ⟨more, lexedSecond, parsedSecond⟩ := (readProgram_eq_ok_iff _ _).mp nextRead
  have lines := lex_lines lexed second
  have present : more ≠ [] := by
    rintro rfl
    exact nonempty lexedSecond
  obtain ⟨parsed, fine⟩ := parse_of_readProgram lexed read
  obtain ⟨front, same, ⟨back, shape, shifted⟩, errors⟩ :=
    parse_append fine terminated more (lineStart first)
  rw [lexedSecond] at lines
  rw [parsedSecond] at shifted errors
  refine ⟨?_, front, back, ?_, same.trans (by rw [parsed]), shifted⟩
  · have some := program_ne_nil present (by rw [parsedSecond])
    rwa [parsedSecond] at some
  · rw [readProgram_of_lex lines]
    simp only [errors, shape]
    rfl

end Reading

theorem map_isExpression_of_shifted {distance : Nat} {next back : Program}
    (shifted : List.Forall₂ (Reader.StmtShifted distance) next back) :
    back.map Stmt.isExpression = next.map Stmt.isExpression := by
  induction shifted with
  | nil => rfl
  | @cons stmt other _ _ head _ inductionHypothesis =>
      have same : other.isExpression = stmt.isExpression := by
        rw [← Stmt.isExpression_withoutSpans, head.same, Stmt.isExpression_withoutSpans]
      rw [List.map_cons, List.map_cons, same, inductionHypothesis]

/-- The statement at the end of both programs is the one at the end of the second. -/
theorem Program.endsWithExpression_append {distance : Nat} {front back next : Program}
    (nonempty : next ≠ []) (shifted : List.Forall₂ (Reader.StmtShifted distance) next back) :
    Program.endsWithExpression (front ++ back) = next.endsWithExpression := by
  have byKinds (program : Program) : program.endsWithExpression =
      (program.map Stmt.isExpression).getLast?.getD false := by
    rw [endsWithExpression, List.getLast?_map]
    cases program.getLast? <;> rfl
  have kinds := map_isExpression_of_shifted shifted
  have some : back.map Stmt.isExpression ≠ [] := by
    rw [kinds]
    exact fun none => nonempty (List.map_eq_nil_iff.mp none)
  rw [byKinds, byKinds, List.map_append, List.getLast?_append_of_ne_nil _ some, kinds]

theorem InputError.beforeRun_ofCause (cause : StopCause) :
    (ofCause cause).beforeRun = false := by
  cases cause <;> rfl

theorem Session.beforeRun_of_conclude {session : Session} {draft : Draft}
    {wantsValue : Bool} {outcome : Except Stopped Machine} {error : InputError}
    (failed : (session.conclude draft wantsValue outcome).result = .error error) :
    error.beforeRun = false := by
  cases outcome with
  | ok machine => cases failed
  | error stopped =>
      cases failed
      exact InputError.beforeRun_ofCause stopped.cause

/-- Errors of a run have no place. -/
theorem InputError.shift_ofCause (move : Displacement) (cause : StopCause) :
    (ofCause cause).shift move = ofCause cause := by
  cases cause <;> rfl

/-! ## Running -/

namespace Session

variable {session : Session} {first second : String} {program next : Program}
  {draft nextDraft : Draft} {machine : Machine}

/-- A run to the end of an input leaves the stack empty. -/
theorem view_of_accepts (wellFormed : session.WellFormed)
    (accepts : session.Accepts first program draft machine) :
    machine.view =
      ⟨[], session.stackSize, machine.globals, machine.printed, machine.fresh⟩ := by
  have valid := Program.valid_of_compile wellFormed.symbols.addressable accepts.compiled
  have ended := accepts.ended
  rw [Draft.bytecode, Machine.run_eq_executeAll valid] at ended
  have told := Program.depthAfterAll_of_compile accepts.compiled (session.machine draft).top
  have top : machine.top = 0 := Machine.top_of_executeAll valid told ended
  have capacity : machine.slots.size = session.stackSize :=
    (Machine.sizes_executeAll ended).2.trans Array.size_replicate
  rw [Machine.view, Machine.stack, top, capacity, List.take_zero]

/-- The run of an accepted input when more constants follow those of its draft, which are
built in the cells after it. -/
theorem exists_run_before (wellFormed : session.WellFormed)
    (accepts : session.Accepts first program draft machine) {constants : Array Value}
    {more : List Value} (pool : constants.toList = draft.constants.toList ++ more)
    (count : Nat) :
    ∃ copy : Machine,
      (Machine.start session.stackSize session.globals (draft.fresh + count)).executeAll
          constants draft.code.toList = .ok copy ∧
        copy.view =
          ⟨[], session.stackSize,
            machine.globals.map (Value.relocate (.gap draft.fresh count)),
            machine.printed, machine.fresh + count⟩ := by
  let relocation := Relocation.gap draft.fresh count
  have inside : relocation.boundary ≤ draft.fresh := Nat.le_refl _
  have kept : ∀ cell, cell < draft.fresh → relocation.apply cell = cell :=
    fun cell => Relocation.apply_gap_of_lt count
  obtain ⟨later, constantsWithin⟩ := wellFormed.within_draft accepts.compiled
  obtain ⟨laterStill, _, _⟩ := wellFormed.within_accepts accepts
  have copied : constants.toList =
      draft.constants.toList.map (Value.relocate relocation) ++ more := by
    rw [pool, ← Array.toList_map, Value.map_relocate_of_kept kept constantsWithin]
  have globals : session.globals.map (Value.relocate relocation) = session.globals :=
    Value.map_relocate_of_kept kept fun value member =>
      (wellFormed.globals value member).mono later
  have copyView :
      (Machine.start session.stackSize session.globals (draft.fresh + count)).view =
        ⟨[], session.stackSize, session.globals.map (Value.relocate relocation), "",
          relocation.apply draft.fresh⟩ := by
    rw [globals, Relocation.apply_gap_of_le count (Nat.le_refl _)]
    simp [Machine.view, Machine.stack, Machine.start]
  have mirrors := (wellFormed.run_mirrors accepts.compiled inside copied copyView).1
  rw [accepts.ended] at mirrors
  generalize Machine.executeAll constants draft.code.toList _ = outcome at mirrors ⊢
  cases mirrors with
  | @ok _ copy mirrors =>
      refine ⟨copy, rfl, ?_⟩
      have moved : (relocation.raise inside).apply machine.fresh = machine.fresh + count :=
        Relocation.apply_gap_of_le count laterStill
      have raised : Value.relocate (relocation.raise inside) = Value.relocate relocation :=
        funext (Value.relocate_raise inside)
      rw [mirrors.view, view_of_accepts wellFormed accepts, View.copied, moved, raised,
        String.empty_append]
      rfl

/-- The session that goes on after an accepted input. -/
def committed (session : Session) (draft : Draft) (machine : Machine) : Session :=
  (session.commit draft machine true).session

/-- The cells of the second input as cells of the second line: its literals come before
what the run of the first line built, and not after it. -/
def lineCells {draft : Draft} {machine : Machine} (later : draft.fresh ≤ machine.fresh)
    (next : Program) : Relocation :=
  .exchange later (Literal.cellCount next.literals)

/-- The program of both lines is compiled to their code one after another. -/
theorem compile_lines (accepts : session.Accepts first program draft machine)
    (compiled : next.compile (session.committed draft machine).draft = .ok nextDraft) :
    Program.compile (program ++ next) session.draft =
      .ok (draft.andThen next nextDraft) := by
  rw [Program.compile_append, accepts.compiled]
  exact Program.compile_after compiled

section SecondLine

variable (wellFormed : session.WellFormed)
  (accepts : session.Accepts first program draft machine)
  (later : draft.fresh ≤ machine.fresh)
  (compiled : next.compile (session.committed draft machine).draft = .ok nextDraft)

include wellFormed accepts compiled

/-- The constants of both lines are copies of those of the second input. -/
theorem constants_andThen :
    (draft.andThen next nextDraft).constants =
      nextDraft.constants.map (Value.relocate (lineCells later next)) := by
  obtain ⟨_, constantsWithin⟩ := wellFormed.within_draft accepts.compiled
  obtain ⟨_, _, rfl⟩ := Program.of_compile_start compiled
  have kept : draft.constants.map (Value.relocate (lineCells later next)) =
      draft.constants :=
    Value.map_relocate_of_kept
      (fun cell => Relocation.apply_exchange_of_lt_first later _) constantsWithin
  have literals :
      (Literal.constants machine.fresh next.literals).map
          (Value.relocate (lineCells later next)) =
        Literal.constants draft.fresh next.literals :=
    Literal.relocate_constants_of_apply next.literals
      fun distance => Relocation.apply_exchange_second_add later _
  change _ = (draft.constants ++ (Literal.constants machine.fresh next.literals).toArray).map _
  rw [Array.map_append, kept, List.map_toArray, literals]
  rfl

/-- After the first line, the second one runs as the second input. -/
theorem run_andThen (inside : (lineCells later next).boundary ≤ nextDraft.fresh) :
    let both := draft.andThen next nextDraft
    let relocation := (lineCells later next).raise inside
    let run := ((session.committed draft machine).machine nextDraft).run nextDraft.bytecode
    let bothRun := (session.machine both).run both.bytecode
    Machine.OutcomeMirrors relocation machine.printed run bothRun ∧
      (next ≠ [] → Machine.PopsMirrored relocation run bothRun) := by
  intro both relocation run bothRun
  obtain ⟨_, globalsWithin, _⟩ := wellFormed.within_accepts accepts
  have nextWellFormed : (session.committed draft machine).WellFormed := by
    have evaluated := (wellFormed.evaluate first).1
    rwa [accepts.evaluate] at evaluated
  have constants := constants_andThen wellFormed accepts later compiled
  have valid := Program.valid_of_compile wellFormed.symbols.addressable
    (compile_lines accepts compiled)
  have pool : both.constants.toList =
      draft.constants.toList ++ Literal.constants draft.fresh next.literals :=
    Array.toList_append
  obtain ⟨copy, reached, copyView⟩ := exists_run_before wellFormed accepts pool
    (Literal.cellCount next.literals)
  have copied : both.constants.toList =
      nextDraft.constants.toList.map (Value.relocate (lineCells later next)) ++ [] := by
    rw [constants, Array.toList_map, List.append_nil]
  have globals : machine.globals.map
        (Value.relocate (.gap draft.fresh (Literal.cellCount next.literals))) =
      machine.globals.map (Value.relocate (lineCells later next)) :=
    Array.map_congr_left fun value member =>
      (Value.relocate_congr (fun _ => Relocation.apply_exchange_of_lt_second later _)
        (globalsWithin value member)).symm
  have fresh : (lineCells later next).apply nextDraft.fresh =
      machine.fresh + Literal.cellCount next.literals := by
    obtain ⟨_, _, rfl⟩ := Program.of_compile_start compiled
    exact Relocation.apply_exchange_boundary later _
  rw [globals, ← fresh] at copyView
  have whole : bothRun = copy.executeAll both.constants nextDraft.code.toList := by
    have ran : bothRun = _ := Machine.run_eq_executeAll valid (session.machine both)
    have code : (draft.andThen next nextDraft).code.toList =
        draft.code.toList ++ nextDraft.code.toList := Array.toList_append
    rw [code, Machine.executeAll_append] at ran
    change (session.machine both).executeAll both.constants draft.code.toList = _ at reached
    rw [ran, reached]
    rfl
  rw [whole]
  exact nextWellFormed.run_mirrors compiled inside copied copyView

end SecondLine

/-! ## Both lines -/

/-- What an input of two lines does, in comparison with the two lines as inputs one after
another. Only the names of cells that were not in use before can differ. -/
structure LinesAgree (session : Session) (one two both : Evaluation)
    (move : Displacement) : Prop where
  succeeds : two.succeeds = true → ∃ relocation : Relocation,
    (∀ cell, cell < session.fresh → relocation.apply cell = cell) ∧
      both = { two.relocate relocation with printed := one.printed ++ two.printed }
  fails : ∀ error, two.result = .error error →
    both = session.reject (if error.beforeRun then "" else one.printed ++ two.printed)
      (error.shift move)

theorem LinesAgree.of_reject {other : Session} {one two both : Evaluation}
    {move : Displacement} {printed : String} {error : InputError}
    (rejected : two = other.reject printed error)
    (same : both = session.reject (if error.beforeRun then "" else one.printed ++ printed)
      (error.shift move)) : session.LinesAgree one two both move where
  succeeds := by
    intro succeeds
    rw [rejected] at succeeds
    cases succeeds
  fails := by
    intro cause found
    rw [rejected] at found ⊢
    cases found
    exact same

theorem beforeRun_of_readProgram {source : String} {error : InputError}
    (failed : readProgram source = .error error) : error.beforeRun = true := by
  unfold readProgram at failed
  split at failed
  · cases failed
    rfl
  · split at failed
    · cases failed
    · cases failed
      rfl

/-- Two lines that are both compiled agree with the two inputs, however the second run
ends. -/
theorem linesAgree_of_compiled {both : Program} {move : Displacement}
    (wellFormed : session.WellFormed) (accepts : session.Accepts first program draft machine)
    (read : readProgram second = .ok next)
    (compiled : next.compile (session.committed draft machine).draft = .ok nextDraft)
    (bothRead : readProgram (first ++ "\n" ++ second) = .ok both)
    (bothCompiled : both.compile session.draft = .ok (draft.andThen next nextDraft))
    (ends : both.endsWithExpression = next.endsWithExpression) :
    session.LinesAgree (session.evaluate first)
      ((session.committed draft machine).evaluate second)
      (session.evaluate (first ++ "\n" ++ second)) move := by
  have one : session.evaluate first = _ := accepts.evaluate
  have two : (session.committed draft machine).evaluate second = _ := evaluate_of_read read
  have whole : session.evaluate (first ++ "\n" ++ second) = _ := evaluate_of_read bothRead
  rw [compiled] at two
  obtain ⟨later, _, _⟩ := wellFormed.within_accepts accepts
  have kept : ∀ cell, cell < session.fresh → (lineCells later next).apply cell = cell := by
    intro cell used
    have before := (wellFormed.within_draft accepts.compiled).1
    exact Relocation.apply_exchange_of_lt_first later _ (Nat.lt_of_lt_of_le used before)
  have inside : (lineCells later next).boundary ≤ nextDraft.fresh := by
    obtain ⟨_, _, rfl⟩ := Program.of_compile_start compiled
    exact Nat.le_refl _
  obtain ⟨mirrors, popping⟩ := run_andThen wellFormed accepts later compiled inside
  have constants := constants_andThen wellFormed accepts later compiled
  have stackSize : session.stackSize = (session.committed draft machine).stackSize := rfl
  have symbols : (draft.andThen next nextDraft).symbols = nextDraft.symbols := rfl
  rw [bothCompiled, ends] at whole
  change _ = session.conclude (draft.andThen next nextDraft) _ _ at whole
  rw [conclude_mirrors _ mirrors popping stackSize symbols constants] at whole
  simp only at two
  cases ran : ((session.committed draft machine).machine nextDraft).run
      nextDraft.bytecode with
  | ok last =>
      rw [ran] at two whole
      refine ⟨fun _ => ⟨lineCells later next, kept, ?_⟩, ?_⟩
      · rw [whole, two, one]
        rfl
      · intro error failed
        rw [two] at failed
        cases failed
  | error stopped =>
      rw [ran] at two whole
      refine .of_reject two ?_
      rw [whole, one, concludeCopy, InputError.beforeRun_ofCause, InputError.shift_ofCause]
      rfl

theorem WellFormed.evaluate_lines (wellFormed : session.WellFormed)
    (accepts : session.Accepts first program draft machine) {lexemes : List Lexeme}
    (lexed : lex first = .ok lexemes)
    (terminated : Terminated (lexemes.map Lexeme.token)) (nonempty : lex second ≠ .ok []) :
    session.LinesAgree (session.evaluate first)
      ((session.evaluate first).session.evaluate second)
      (session.evaluate (first ++ "\n" ++ second)) (secondLine first lexemes) := by
  have carried : (session.evaluate first).session = session.committed draft machine := by
    rw [accepts.evaluate]
    rfl
  rw [carried]
  cases read : readProgram second with
  | error error =>
      have both := readProgram_lines_error lexed accepts.read terminated read
      refine .of_reject (by rw [Session.evaluate, read]) ?_
      rw [Session.evaluate, both, beforeRun_of_readProgram read]
      rfl
  | ok next =>
      obtain ⟨some, front, back, bothRead, same, shifted⟩ :=
        readProgram_lines lexed accepts.read terminated nonempty read
      have frontCompiled := Program.compile_of_same same accepts.compiled
      have bothCompile : Program.compile (front ++ back) session.draft =
          (next.compile draft).mapError (CompileFailure.shift (lineStart first)) := by
        rw [Program.compile_append, frontCompiled]
        exact Program.compile_shifted shifted draft
      cases compiled : next.compile (session.committed draft machine).draft with
      | error failure =>
          obtain ⟨other, failed, sameError⟩ := Program.compile_error_after compiled
          rw [failed] at bothCompile
          refine .of_reject (by rw [evaluate_of_read read, compiled]) ?_
          rw [evaluate_of_read bothRead, bothCompile, ← sameError]
          rfl
      | ok nextDraft =>
          rw [Program.compile_after compiled] at bothCompile
          exact linesAgree_of_compiled wellFormed accepts read compiled bothRead bothCompile
            (Program.endsWithExpression_append some shifted)

/-- An input that succeeds and whose tokens, if there are any, end with a semicolon is put
before another input that has tokens, on a line of its own. Then the two lines in one
input do what they do as inputs one after another:
* If the second one succeeds, the value is the same, both texts are printed in order, and
  the same symbol table, constants and globals are left, all under an injective renaming
  of cells that keeps the names of those that were in use before.
* If the second one fails, the error is the same, with its places moved by the tokens and
  the bytes before it. What was printed is printed if the code was run, and the session
  stays as it was. -/
theorem lines_as_inputs (stackSize : Nat) (inputs : List String) {first second : String}
    {value : Option Value} {lexemes : List Lexeme}
    (succeeds : (((start stackSize).after inputs).evaluate first).result = .ok value)
    (lexed : lex first = .ok lexemes) (terminated : Terminated (lexemes.map Lexeme.token))
    (nonempty : lex second ≠ .ok []) :
    let session := (start stackSize).after inputs
    let one := session.evaluate first
    let two := one.session.evaluate second
    let both := session.evaluate (first ++ "\n" ++ second)
    (two.succeeds = true → ∃ relocation : Relocation,
      (∀ cell, cell < session.fresh → relocation.apply cell = cell) ∧
        both = { two.relocate relocation with printed := one.printed ++ two.printed }) ∧
    ∀ error, two.result = .error error →
      both = session.reject (if error.beforeRun then "" else one.printed ++ two.printed)
        (error.shift ⟨lexemes.length, first.utf8ByteSize + 1⟩) := by
  intro session one two both
  obtain ⟨program, draft, machine, accepts⟩ := accepts_of_ok succeeds
  have wellFormed := (wellFormed_start stackSize).after inputs
  have agree := wellFormed.evaluate_lines accepts lexed terminated nonempty
  exact ⟨agree.succeeds, agree.fails⟩

/-- The second of two lines uses a name that the first one binds, or one that neither
binds. -/
theorem lines_as_inputs_binding :
    let one := (start 10).evaluate "let a = 1;"
    let two := one.session.evaluate "a"
    one.result = .ok none ∧
      (∃ relocation : Relocation, (start 10).evaluate ("let a = 1;" ++ "\n" ++ "a") =
        { two.relocate relocation with printed := one.printed ++ two.printed }) ∧
      (start 10).evaluate ("let a = 1;" ++ "\n" ++ "b") =
        (start 10).reject "" (.compile ⟨.undefinedVariable "b", ⟨11, 12⟩⟩) := by
  have lexed : lex "let a = 1;" =
      .ok [⟨.keyword .letWord, ⟨0, 3⟩⟩, ⟨.identifier "a", ⟨4, 5⟩⟩,
        ⟨.symbol .assign, ⟨6, 7⟩⟩, ⟨.integer 1, ⟨8, 9⟩⟩, ⟨.symbol .semicolon, ⟨9, 10⟩⟩] := by
    cbv
  have terminated : Terminated
      [.keyword .letWord, .identifier "a", .symbol .assign, .integer 1,
        .symbol .semicolon] := by
    rintro _ ⟨⟩
    rfl
  have lexedName (name : String) (letter : lex name = .ok [⟨.identifier name, ⟨0, 1⟩⟩]) :
      lex name ≠ .ok [] ∧
        readProgram name = .ok [.expression (.identifier name) ⟨0, 1⟩] := by
    have read : Reader.statement (Reader.expression maxNesting)
        (.start [⟨.identifier name, ⟨0, 1⟩⟩]) =
          .ok ⟨.expression (.identifier name) ⟨0, 1⟩, ⟨1, ⟨0, 1⟩, []⟩, Nat.zero_lt_one⟩ := by
      with_unfolding_all rfl
    refine ⟨?_, readProgram_of_statement letter read rfl⟩
    rw [letter]
    rintro ⟨⟩
  have read : Reader.statement (Reader.expression maxNesting)
      (.start [⟨.keyword .letWord, ⟨0, 3⟩⟩, ⟨.identifier "a", ⟨4, 5⟩⟩,
        ⟨.symbol .assign, ⟨6, 7⟩⟩, ⟨.integer 1, ⟨8, 9⟩⟩, ⟨.symbol .semicolon, ⟨9, 10⟩⟩]) =
      .ok ⟨.binding "a" (.integer 1) ⟨0, 9⟩, ⟨5, ⟨9, 10⟩, []⟩, by decide⟩ := by
    with_unfolding_all rfl
  have one : (start 10).evaluate "let a = 1;" = _ :=
    evaluate_of_read (readProgram_of_statement lexed read rfl)
  have result : ((start 10).evaluate "let a = 1;").result = .ok none := by
    rw [one]
    cbv
  refine ⟨result, ?_, ?_⟩
  · obtain ⟨nonempty, readName⟩ := lexedName "a" (by cbv)
    have two : ((start 10).evaluate "let a = 1;").session.evaluate "a" = _ :=
      evaluate_of_read readName
    have succeeds : (((start 10).evaluate "let a = 1;").session.evaluate "a").succeeds =
        true := by
      rw [two, one]
      cbv
    obtain ⟨relocation, _, same⟩ :=
      (lines_as_inputs 10 [] result lexed terminated nonempty).1 succeeds
    exact ⟨relocation, same⟩
  · obtain ⟨nonempty, readName⟩ := lexedName "b" (by cbv)
    have two : ((start 10).evaluate "let a = 1;").session.evaluate "b" = _ :=
      evaluate_of_read readName
    have fails : (((start 10).evaluate "let a = 1;").session.evaluate "b").result =
        .error (.compile ⟨.undefinedVariable "b", ⟨0, 1⟩⟩) := by
      rw [two, one]
      cbv
    exact (lines_as_inputs 10 [] result lexed terminated nonempty).2 _ fails

end Session

end ExprMachine
