import ExprMachine.Proofs.Compilation.Appending
import ExprMachine.Proofs.Compilation.Correctness
import ExprMachine.Proofs.Display.Tokens
import ExprMachine.Proofs.Parsing.Literals
import ExprMachine.Proofs.Session.Inputs

/-!
# Displayed data read back

The display of data can be given to a session as an input. It is read as one expression,
compiled if the pool has room for its integers, and run if the stack is as large as the
expression needs. The value of the input is then the displayed one in new cells.
-/

namespace ExprMachine

/-! ## Reading -/

/-- Tokens that derive the tree of an expression are read as this expression. -/
theorem exists_readProgram_of_derives {source : String} {lexemes : List Lexeme}
    {phrase : Phrase} (lexed : lex source = .ok lexemes)
    (derived : Derives maxNesting .equality (lexemes.map Lexeme.token) phrase) :
    ∃ program, readProgram source = .ok program ∧
      Stmt.allWithoutSpans program = [.expression phrase.expr .unknown] := by
  have ended : ¬ Resumes [] := by
    rintro ⟨mark, impossible, _⟩
    cases impossible
  have sentences : Sentences (Derives maxNesting)
      (Sentence.opening none ++
        (lexemes.map Lexeme.token ++ (Sentence.ending false ++ [])))
      [.mk none phrase false] :=
    .cons derived .nil fun _ => ended
  have shape : (Cursor.start lexemes).tokens =
      Sentence.opening none ++
        (lexemes.map Lexeme.token ++ (Sentence.ending false ++ [])) :=
    (List.append_nil _).symm
  obtain ⟨noError, same⟩ := statementsFrom_complete sentences (maxParseErrors - 1) shape
  have parsed : parse lexemes = ⟨(parse lexemes).program, []⟩ :=
    congrArg (ParsedProgram.mk _) noError
  exact ⟨_, (readProgram_eq_ok_iff _ _).mpr ⟨lexemes, lexed, parsed⟩, same⟩

/-- A program of one expression ends with one. -/
theorem Program.endsWithExpression_of_same {program : Program} {expr : Expr}
    (same : Stmt.allWithoutSpans program = [.expression expr .unknown]) :
    program.endsWithExpression = true := by
  cases program with
  | nil => cases same
  | cons stmt rest =>
      cases rest with
      | nil =>
          have shape : stmt.withoutSpans = .expression expr .unknown :=
            (List.cons.inj same).1
          have isExpression := stmt.isExpression_withoutSpans
          rw [shape] at isExpression
          exact isExpression.symm
      | cons second rest => cases (List.cons.inj same).2

theorem Program.evaluateFrom_expression {expr : Expr} {stage : Stage} {value : Value}
    {later : Scene} (evaluated : expr.evaluate stage.valuation stage.scene =
      .ok (value, later)) :
    evaluateFrom [.expression expr .unknown] stage =
      .ok ⟨stage.valuation, value, later⟩ := by
  rw [evaluateFrom, Stmt.value, evaluated]
  rfl

/-- The evaluation has a value that is built as the given one and displayed in the same
way, and nothing was printed. -/
def Evaluation.ReadsBack (evaluation : Evaluation) (value : Value) : Prop :=
  ∃ copy, evaluation.result = .ok (some copy) ∧
    copy.withoutCells = value.withoutCells ∧ copy.text = value.text ∧
      evaluation.printed = ""

namespace Session

variable {session : Session} {source : String}

section Expression

variable {program : Program} {expr : Expr}
  (read : readProgram source = .ok program)
  (same : Stmt.allWithoutSpans program = [.expression expr .unknown])
  (supported : expr.Supported session.symbols)
  (room : Literal.HaveRoom session.constants.size expr.literals)

include read same supported room

/-- The only expression of an input is compiled on its own, and its value is asked for. -/
theorem exists_evaluate_of_expression :
    ∃ draft, Program.compile [.expression expr .unknown] session.draft = .ok draft ∧
      session.evaluate source =
        session.conclude draft true ((session.machine draft).run draft.bytecode) := by
  -- The program that was read has spans, which play no part in compiling it.
  let single : Program := [.expression expr .unknown]
  have spanless : Stmt.allWithoutSpans program = Stmt.allWithoutSpans single := by
    rw [same, Stmt.allWithoutSpans, Stmt.withoutSpans,
      expr.withoutSpans_of_supported supported]
    rfl
  have roomForAll : Literal.HaveRoom session.constants.size single.literals := by
    rw [Program.literals, Stmt.literals, Program.literals, List.append_nil]
    exact room
  have compiled := (single.compile_eq_ok_iff session.draft _).mpr
    ⟨⟨⟨⟨supported, trivial⟩, trivial⟩, roomForAll⟩, rfl⟩
  refine ⟨_, compiled, ?_⟩
  rw [evaluate_of_read read, Program.compile_of_same spanless compiled,
    Program.endsWithExpression_of_same same]

/-- An expression that rebuilds a value does so exactly when the stack is as large as it
needs. Smaller stacks overflow. -/
theorem WellFormed.readsBack_of_expression (wellFormed : session.WellFormed) {value : Value}
    (rebuilds : ∀ valuation, Value.Rebuilds valuation expr value) :
    (expr.stackNeed ≤ session.stackSize → (session.evaluate source).ReadsBack value) ∧
      (session.stackSize < expr.stackNeed → (session.evaluate source).result =
        .error (.runtime (.stackOverflow session.stackSize))) := by
  obtain ⟨draft, compiled, answer⟩ :=
    exists_evaluate_of_expression read same supported room
  obtain ⟨copy, later, evaluated, sameCopy, printed⟩ :=
    rebuilds (session.symbols.valuation session.globals) ⟨"", session.fresh, draft.fresh⟩
  have follows := Program.run_follows wellFormed.symbols compiled session.stackSize
    session.globals draft.fresh
  have need : Program.stackNeed [.expression expr .unknown] = expr.stackNeed :=
    Nat.max_zero _
  rw [Program.evaluateFrom_expression evaluated, need, Follows] at follows
  rw [answer, machine]
  constructor
  · intro enough
    rw [if_pos enough] at follows
    obtain ⟨next, ended, arrives⟩ := follows
    have nothing : next.printed = later.printed := congrArg View.printed arrives.view
    rw [ended]
    refine ⟨copy, ?_, sameCopy, Value.text_of_withoutCells_eq sameCopy,
      nothing.trans printed⟩
    exact congrArg (fun value => Except.ok (some value)) arrives.last
  · intro tooSmall
    rw [if_neg (Nat.not_le_of_lt tooSmall)] at follows
    obtain ⟨_, stopped, ended, cause, _⟩ := follows
    rw [ended]
    exact congrArg (fun cause => Except.error (InputError.ofCause cause)) cause

end Expression

/-! ## Sessions of any age -/

/-- No input changes the size of the stack. -/
theorem stackSize_evaluate (session : Session) (source : String) :
    (session.evaluate source).session.stackSize = session.stackSize := by
  rcases session.evaluate_cases source with
    ⟨printed, error, rejected⟩ | ⟨program, draft, machine, accepts⟩
  · rw [rejected]
    rfl
  · rw [accepts.evaluate]
    rfl

theorem stackSize_after (session : Session) (inputs : List String) :
    (session.after inputs).stackSize = session.stackSize := by
  induction inputs generalizing session with
  | nil => rfl
  | cons source inputs inductionHypothesis =>
      exact (inductionHypothesis _).trans (session.stackSize_evaluate source)

/-- Data read back. After any inputs, the display of data is an input that succeeds, as
long as it is not nested too deeply and the pool has room for its integers, on exactly the
stacks that its expression needs. Its value is the displayed one in new cells, with the
same display, and nothing is printed. Smaller stacks overflow. -/
theorem display_reads_back (stackSize : Nat) (inputs : List String) {value : Value}
    (data : value.IsData) (shallow : value.nesting ≤ maxNesting)
    (room : value.integerCount ≤
      maxConstants - ((start stackSize).after inputs).constants.size) :
    let evaluation := ((start stackSize).after inputs).evaluate value.text
    (value.expr.stackNeed ≤ stackSize → evaluation.ReadsBack value) ∧
      (stackSize < value.expr.stackNeed →
        evaluation.result = .error (.runtime (.stackOverflow stackSize))) := by
  have wellFormed := (wellFormed_start stackSize).after inputs
  have size := stackSize_after (start stackSize) inputs
  generalize (start stackSize).after inputs = session at *
  obtain rfl : session.stackSize = stackSize := size
  obtain ⟨lexemes, lexed, tokens⟩ := data.exists_lex
  have derived := data.derives shallow
  rw [← tokens] at derived
  obtain ⟨program, read, same⟩ := exists_readProgram_of_derives lexed derived
  have roomForLiterals : Literal.HaveRoom session.constants.size value.expr.literals := by
    rw [Literal.HaveRoom, ← List.length_eq_zero_iff, data.length_literals]
    omega
  exact wellFormed.readsBack_of_expression read same (data.supported _) roomForLiterals
    data.rebuilds

/-- An array with a negative integer and another array is read back on three slots, and
overflows two. -/
theorem display_reads_back_nested :
    let value : Value := .array 7 [.integer 1, .integer (-2), .array 8 [.boolean true]]
    value.text = "[1, -2, [true]]" ∧ ((start 3).evaluate value.text).ReadsBack value ∧
      ((start 2).evaluate value.text).result =
        .error (.runtime (.stackOverflow 2)) := by
  intro value
  have inner : Value.IsData (.array 8 [.boolean true]) :=
    .array 8 (by decide) (List.forall_mem_singleton.mpr (.boolean true))
  have data : value.IsData := by
    refine .array 7 (by decide) ?_
    simp only [List.forall_mem_cons]
    exact ⟨.integer (by decide), .integer (by decide), inner, List.forall_mem_nil _⟩
  have shallow : value.nesting ≤ maxNesting := by decide
  have written : value.text = "[1, -2, [true]]" := by decide
  exact ⟨written, (display_reads_back 3 [] data shallow (by decide)).1 (by decide),
    (display_reads_back 2 [] data shallow (by decide)).2 (by decide)⟩

end Session

end ExprMachine
