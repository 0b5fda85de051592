import ExprMachine.Command
import ExprMachine.Proofs.Command.Asking
import ExprMachine.Proofs.Listing
import ExprMachine.Proofs.Session.Lines

/-!
# Printing a program and running it

The command prints a form of a source text in place of running it. The bytecode is that
of a program compiled on its own, and a run compiles the text in a fresh session; both
fail with the same errors, and what is printed is the code that is run. The tree is
printed of every text that can be read.
-/

namespace ExprMachine

/-! ## Errors -/

/-- The error was met before anything was compiled. -/
def InputError.beforeCompilation : InputError → Bool
  | lex _ => true
  | parse _ => true
  | compile _ => false
  | runtime _ => false
  | fault _ => false

/-- A source text with the error does not have the form. -/
def InputError.prevents (error : InputError) : Form → Bool
  | .tree => error.beforeCompilation
  | .bytecode => error.beforeRun

theorem InputError.prevents_of_readProgram {source : String} {error : InputError}
    (failed : readProgram source = .error error) (form : Form) :
    error.prevents form = true := by
  unfold readProgram at failed
  split at failed
  · cases failed
    cases form <;> rfl
  · split at failed
    · cases failed
    · cases failed
      cases form <;> rfl

/-- Nothing was printed before an error that was met before the run. -/
theorem InputError.beforeRun_of_prevents {error : InputError} {form : Form}
    (prevents : error.prevents form = true) : error.beforeRun = true := by
  cases form with
  | bytecode => exact prevents
  | tree =>
      cases error with
      | lex _ | parse _ => rfl
      | compile _ | runtime _ | fault _ => cases prevents

/-- Errors of a run are not errors that prevent a form. -/
theorem InputError.not_prevents_of_conclude {session : Session} {draft : Draft}
    {wantsValue : Bool} {outcome : Except Stopped Machine} {error : InputError}
    (failed : (session.conclude draft wantsValue outcome).result = .error error)
    (form : Form) : error.prevents form = false :=
  Bool.eq_false_iff.mpr fun prevents =>
    absurd (beforeRun_of_prevents prevents)
      (Bool.eq_false_iff.mp (Session.beforeRun_of_conclude failed))

namespace Command

/-! ## One source text -/

/-- The text is the form of the program in the source text. For bytecode it has a line for
each instruction that a fresh session runs, and then one for each constant. -/
inductive Shows (stackSize : Nat) (source : String) : Form → String → Prop
  | tree {program : Program} (read : readProgram source = .ok program) :
      Shows stackSize source .tree (program.toJson.indented ++ "\n")
  | bytecode {program : Program} {draft : Draft} (read : readProgram source = .ok program)
      (compiled : program.compile (Session.start stackSize).draft = .ok draft)
      (ran : (Session.start stackSize).evaluate source =
        (Session.start stackSize).conclude draft program.endsWithExpression
          (((Session.start stackSize).machine draft).run draft.bytecode)) :
      Shows stackSize source .bytecode
        (String.join ((Line.ofCode 0 draft.code.toList).map Line.text ++
          Bytecode.constantLines draft.constants.toList))

variable {stackSize : Nat} {source : String} {form : Form}

/-- A program is compiled on its own as it is in a fresh session. -/
theorem compileFresh_eq (program : Program) (stackSize : Nat) :
    program.compileFresh =
      (program.compile (Session.start stackSize).draft).map Draft.bytecode := rfl

/-- The text of compiled code shows its instructions as they are, since their operands fit
into their widths. -/
theorem text_of_compile {program : Program} {draft : Draft}
    (compiled : program.compile (Session.start stackSize).draft = .ok draft) :
    draft.bytecode.text =
      String.join ((Line.ofCode 0 draft.code.toList).map Line.text ++
        Bytecode.constantLines draft.constants.toList) := by
  have valid := Program.valid_of_compile
    (Session.wellFormed_start stackSize).symbols.addressable compiled
  have fits : ∀ instruction ∈ draft.code.toList, instruction.Fits :=
    fun instruction member => (valid instruction member).fits
  rw [Bytecode.text_eq, Draft.bytecode, Line.ofStream_encodeAll fits]

theorem emit_of_ok {program : Program} {text : String} (format : ReportFormat)
    (read : readProgram source = .ok program) (made : emitted form program = .ok text) :
    emit form format source = .success text := by
  have composed : readProgram source >>= emitted form = .ok text := by
    rw [read]
    exact made
  rw [emit, composed]

theorem emit_of_error {program : Program} {error : InputError} (format : ReportFormat)
    (read : readProgram source = .ok program)
    (failed : emitted form program = .error error) :
    emit form format source = .failure "" (error.report source format) := by
  have composed : readProgram source >>= emitted form = .error error := by
    rw [read]
    exact failed
  rw [emit, composed]

/-- The form is printed with the error of the evaluation, if that is one which prevents
it, and with the program that is evaluated otherwise. -/
theorem emit_cases (stackSize : Nat) (source : String) (form : Form)
    (format : ReportFormat) :
    (∃ error, (Session.start stackSize).evaluate source =
        (Session.start stackSize).reject "" error ∧ error.prevents form = true ∧
          emit form format source = .failure "" (error.report source format)) ∨
      ((∀ error, ((Session.start stackSize).evaluate source).result = .error error →
          error.prevents form = false) ∧
        ∃ text, Shows stackSize source form text ∧
          emit form format source = .success text) := by
  cases read : readProgram source with
  | error error =>
      refine Or.inl ⟨error, ?_, InputError.prevents_of_readProgram read form, ?_⟩
      · rw [Session.evaluate, read]
      · rw [emit, read]
        rfl
  | ok program =>
      have evaluated : (Session.start stackSize).evaluate source = _ :=
        Session.evaluate_of_read read
      cases form with
      | tree =>
          refine Or.inr ⟨fun error failed => ?_, _, .tree read, emit_of_ok format read rfl⟩
          rw [evaluated] at failed
          cases compiled : program.compile (Session.start stackSize).draft with
          | error failure =>
              rw [compiled] at failed
              cases failed
              rfl
          | ok draft =>
              rw [compiled] at failed
              exact InputError.not_prevents_of_conclude failed .tree
      | bytecode =>
          have fresh := compileFresh_eq program stackSize
          cases compiled : program.compile (Session.start stackSize).draft with
          | error failure =>
              rw [compiled] at evaluated fresh
              refine Or.inl ⟨_, evaluated, rfl, emit_of_error format read ?_⟩
              rw [emitted, fresh]
              rfl
          | ok draft =>
              rw [compiled] at evaluated fresh
              refine Or.inr ⟨fun error failed => ?_, _,
                .bytecode read compiled evaluated, emit_of_ok format read ?_⟩
              · rw [evaluated] at failed
                exact InputError.not_prevents_of_conclude failed .bytecode
              · rw [emitted, fresh, ← text_of_compile compiled]
                rfl

/-! ## Command lines -/

/-- A command line that is understood, and the source text that it is about: the code
that it contains, or the content of the file that it names. -/
inductive Gives (texts : List String) (surroundings : Surroundings) :
    Arguments → String → Prop
  | code {arguments : Arguments} {source : String}
      (understood : Arguments.read texts surroundings.environment = .ok arguments)
      (unexplained : arguments.explain = none) (given : arguments.code = some source) :
      Gives texts surroundings arguments source
  | file {arguments : Arguments} {source path : String}
      (understood : Arguments.read texts surroundings.environment = .ok arguments)
      (unexplained : arguments.explain = none) (absent : arguments.code = none)
      (named : arguments.file = some path)
      (content : surroundings.readFile path = .ok source) :
      Gives texts surroundings arguments source

theorem Gives.outcome {texts : List String} {surroundings : Surroundings}
    {arguments : Arguments} (gives : Gives texts surroundings arguments source) :
    outcome texts surroundings = onSource arguments source := by
  cases gives with
  | code understood unexplained given =>
      simp only [Command.outcome, task, understood, unexplained, given]
  | file understood unexplained absent named content =>
      simp only [Command.outcome, task, understood, unexplained, absent, named, content,
        onFile]

/-- A form can be asked for in front of a command line that asks for none. -/
theorem Gives.asking {texts : List String} {surroundings : Surroundings}
    {arguments : Arguments} (gives : Gives texts surroundings arguments source)
    (noForm : arguments.emit = none) (form : Form) :
    Gives ("--emit" :: form.name :: texts) surroundings (arguments.asking form) source := by
  cases gives with
  | code understood unexplained given =>
      exact .code (Arguments.read_asking form understood noForm) unexplained given
  | file understood unexplained absent named content =>
      exact .file (Arguments.read_asking form understood noForm) unexplained absent named
        content

/-- What a command line that asks for a form does, in comparison with one that runs the
same source text. -/
structure EmissionAgrees (stackSize : Nat) (format : ReportFormat) (source : String)
    (form : Form) (ran emission : Outcome) : Prop where
  fails_iff : emission.exitCode ≠ 0 ↔
    ∃ error, ((Session.start stackSize).evaluate source).result = .error error ∧
      error.prevents form = true
  fails : ∀ error, ((Session.start stackSize).evaluate source).result = .error error →
    error.prevents form = true →
      ran = ⟨1, "", error.report source format⟩ ∧ emission = ran
  succeeds : (∀ error, ((Session.start stackSize).evaluate source).result = .error error →
      error.prevents form = false) →
    ∃ text, Shows stackSize source form text ∧ emission = ⟨0, text, ""⟩

/-- The outcomes agree, whatever the source text is. -/
theorem emissionAgrees (stackSize : Nat) (format : ReportFormat) (source : String)
    (form : Form) :
    EmissionAgrees stackSize format source form (run stackSize format source)
      (emit form format source) := by
  rcases emit_cases stackSize source form format with
    ⟨error, rejected, prevents, emits⟩ | ⟨fine, text, shows, emits⟩
  · have result : ((Session.start stackSize).evaluate source).result = .error error :=
      congrArg Evaluation.result rejected
    have runs : run stackSize format source = .failure "" (error.report source format) := by
      rw [run, rejected]
      rfl
    have failing : (1 : UInt8) ≠ 0 := by decide
    rw [emits, runs]
    refine ⟨⟨fun _ => ⟨error, result, prevents⟩, fun _ => failing⟩, ?_, fun none => ?_⟩
    · intro other found _
      cases result.symm.trans found
      exact ⟨rfl, rfl⟩
    · cases (none error result).symm.trans prevents
  · rw [emits]
    refine ⟨⟨fun failed => absurd rfl failed, fun ⟨error, found, prevents⟩ => ?_⟩, ?_,
      fun _ => ⟨text, shows, rfl⟩⟩
    · cases (fine error found).symm.trans prevents
    · intro error found prevents
      cases (fine error found).symm.trans prevents

/-- A command line runs a source text. Then so does the line with a request for a form in
front of it, and every line that is about this text, asks for this form and reports in
the same format agrees with the run:
* It fails exactly if the run fails with an error that prevents the form: one of lexing,
  parsing or compiling for bytecode, one of lexing or parsing for the tree. Both then end
  with the same report and without any output.
* Otherwise it shows the form and nothing else, also if the run fails. For bytecode this
  is a line for each instruction that the run executes, and then one for each constant. -/
theorem emission_agrees_with_run {running : List String} {surroundings : Surroundings}
    {plain : Arguments} {source : String} (runs : Gives running surroundings plain source)
    (noForm : plain.emit = none) (form : Form) :
    Gives ("--emit" :: form.name :: running) surroundings (plain.asking form) source ∧
      ∀ (emitting : List String) (asking : Arguments),
        Gives emitting surroundings asking source → asking.emit = some form →
          asking.format.getD .text = plain.format.getD .text →
            EmissionAgrees (plain.stackSize.getD defaultStackSize)
              (plain.format.getD .text) source form (outcome running surroundings)
              (outcome emitting surroundings) := by
  refine ⟨runs.asking noForm form, fun emitting asking emits asked sameFormat => ?_⟩
  have agrees := emissionAgrees (plain.stackSize.getD defaultStackSize)
    (plain.format.getD .text) source form
  rw [runs.outcome, emits.outcome, onSource, onSource, noForm, asked, sameFormat]
  exact agrees

/-- The name has no value, which is found when the code is compiled. -/
theorem emission_agrees_with_run_unbound :
    let surroundings : Surroundings := ⟨⟨none, none⟩, fun _ => .error "absent", ""⟩
    let line := ["--format", "json", "-e", "b"]
    let ran := outcome line surroundings
    Gives line surroundings
        { Arguments.empty with code := some "b", format := some .json } "b" ∧
      ran.exitCode = 1 ∧
      outcome ("--emit" :: "bytecode" :: line) surroundings = ran ∧
      (outcome ("--emit" :: "ast" :: line) surroundings).exitCode = 0 := by
  intro surroundings line ran
  have gives : Gives line surroundings
      { Arguments.empty with code := some "b", format := some .json } "b" :=
    .code (by with_unfolding_all rfl) rfl rfl
  have lexed : lex "b" = .ok [⟨.identifier "b", ⟨0, 1⟩⟩] := by cbv
  have statement : Reader.statement (Reader.expression maxNesting)
      (.start [⟨.identifier "b", ⟨0, 1⟩⟩]) =
        .ok ⟨.expression (.identifier "b") ⟨0, 1⟩, ⟨1, ⟨0, 1⟩, []⟩, Nat.zero_lt_one⟩ := by
    with_unfolding_all rfl
  have fails : ((Session.start defaultStackSize).evaluate "b").result =
      .error (.compile ⟨.undefinedVariable "b", ⟨0, 1⟩⟩) := by
    rw [Session.evaluate_of_read (readProgram_of_statement lexed statement rfl)]
    cbv
  obtain ⟨asksCode, code⟩ := emission_agrees_with_run gives rfl .bytecode
  obtain ⟨asksTree, tree⟩ := emission_agrees_with_run gives rfl .tree
  obtain ⟨ranFails, same⟩ := (code _ _ asksCode rfl rfl).fails _ fails rfl
  have treeFine := not_congr (tree _ _ asksTree rfl rfl).fails_iff
  refine ⟨gives, congrArg Outcome.exitCode ranFails, same, not_not.mp (treeFine.mpr ?_)⟩
  rintro ⟨error, found, prevents⟩
  cases fails.symm.trans found
  cases prevents

end Command

end ExprMachine
