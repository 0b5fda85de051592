import ExprMachine.Proofs.Parsing.Completeness
import ExprMachine.Proofs.Parsing.Soundness
import ExprMachine.Proofs.Parsing.Unambiguity

/-!
# Programs are read as the grammar says

Reading a program meets no error exactly when its tokens derive from the grammar,
and the program that is read is then what the derivation denotes.
-/

namespace ExprMachine

open Reader

/-- An error that was met is never forgotten. -/
theorem errors_of_statementsFrom {allowed : Nat} {statements : Array Stmt}
    {errors : Array ParseError} {cursor : Cursor}
    (noError : (statementsFrom allowed statements errors cursor).errors = []) :
    errors.toList = [] := by
  fun_induction statementsFrom allowed statements errors cursor with
  | case1 => exact noError
  | case2 => exact noError
  | case3 _ _ _ _ _ _ _ _ _ inductionHypothesis => exact inductionHypothesis noError
  | case4 _ _ _ _ _ _ _ _ _ inductionHypothesis =>
      have impossible := inductionHypothesis noError
      exact absurd impossible (by simp)

/-- Statements that are read without an error derive from the grammar. -/
theorem statementsFrom_sound {allowed : Nat} (positive : 0 < allowed)
    {statements : Array Stmt} {errors : Array ParseError} {cursor : Cursor}
    (noError : (statementsFrom allowed statements errors cursor).errors = []) :
    ∃ sentences, Sentences (Derives maxNesting) cursor.tokens sentences ∧
      Stmt.allWithoutSpans statements.toList ++ Sentence.stmts sentences =
        Stmt.allWithoutSpans
          (statementsFrom allowed statements errors cursor).program := by
  fun_induction statementsFrom allowed statements errors cursor with
  | case1 => exact absurd positive (Nat.lt_irrefl 0)
  | case2 allowed statements errors cursor ended _ =>
      refine ⟨[], ?_, List.append_nil _⟩
      rw [Cursor.tokens, ended]
      exact .nil
  | case3 statements errors cursor allowed _ _ _ stmt read inductionHypothesis =>
      obtain ⟨name, value, phrase, terminated, derived, shape, same, ends⟩ :=
        statement_sound (expression_sound maxNesting) read
      obtain ⟨sentences, restDerived, restSame⟩ :=
        inductionHypothesis (Nat.succ_pos _) noError
      refine ⟨.mk name phrase terminated :: sentences, ?_, ?_⟩
      · rw [shape]
        exact .cons derived restDerived ends
      · refine Eq.trans ?_ restSame
        rw [Array.toList_push, Stmt.allWithoutSpans_append, List.append_assoc,
          Sentence.stmts, same]
        rfl
  | case4 _ _ _ _ _ _ _ failure _ _ =>
      have impossible := errors_of_statementsFrom noError
      exact absurd impossible (by simp)

theorem statementsFrom_of_end {cursor : Cursor} (ended : cursor.tokens = [])
    (allowed : Nat) (statements : Array Stmt) (errors : Array ParseError) :
    statementsFrom allowed statements errors cursor =
      ⟨statements.toList, errors.toList⟩ := by
  have rest : cursor.rest = [] := List.map_eq_nil_iff.mp ended
  unfold statementsFrom
  split
  · rfl
  · rfl
  · next goesOn => cases rest.symm.trans goesOn

theorem statementsFrom_of_statement {cursor : Cursor} {stmt : Parsed Stmt cursor}
    (read : statement (expression maxNesting) cursor = .ok stmt) (allowed : Nat)
    (statements : Array Stmt) (errors : Array ParseError) :
    statementsFrom (allowed + 1) statements errors cursor =
      statementsFrom (allowed + 1) (statements.push stmt.value) errors stmt.after := by
  have goesOn := stmt.shorter
  rw [statementsFrom.eq_def]
  split
  · next impossible => cases impossible
  · next ended _ =>
      rw [ended] at goesOn
      exact absurd goesOn (Nat.not_lt_zero _)
  · next same _ =>
      cases same
      rw [read]

theorem statementsFrom_of_failure {cursor : Cursor} {failure : ParseFailure}
    (goesOn : cursor.rest ≠ [])
    (failed : statement (expression maxNesting) cursor = .error failure) (allowed : Nat)
    (statements : Array Stmt) (errors : Array ParseError) :
    statementsFrom (allowed + 1) statements errors cursor =
      statementsFrom allowed statements (errors.push failure.error)
        (failure.cursor.afterStatement 0) := by
  rw [statementsFrom.eq_def]
  split
  · next impossible => cases impossible
  · next ended _ => exact absurd ended goesOn
  · next same _ =>
      cases same
      rw [failed]

/-- Statements that derive from the grammar are read without an error. -/
theorem statementsFrom_complete {tokens : List Token} {sentences : List Sentence}
    (derived : Sentences (Derives maxNesting) tokens sentences) (allowed : Nat)
    {statements : Array Stmt} {errors : Array ParseError} {cursor : Cursor}
    (shape : cursor.tokens = tokens) :
    (statementsFrom (allowed + 1) statements errors cursor).errors = errors.toList ∧
      Stmt.allWithoutSpans
          (statementsFrom (allowed + 1) statements errors cursor).program =
        Stmt.allWithoutSpans statements.toList ++ Sentence.stmts sentences := by
  induction derived generalizing statements cursor with
  | nil =>
      rw [statementsFrom_of_end shape]
      exact ⟨rfl, (List.append_nil _).symm⟩
  | @cons _ _ rest _ _ _ valueDerived restDerived noResumption inductionHypothesis =>
      have ends : EndsSentences ([] : List Token) := Or.inl rfl
      rw [← List.append_nil rest] at shape
      obtain ⟨stmt, read, same, after⟩ :=
        statement_complete (expression_complete maxNesting) valueDerived shape
          fun missing => restDerived.stops (noResumption missing) ends
      rw [List.append_nil] at after
      obtain ⟨noError, restSame⟩ := inductionHypothesis after
      rw [statementsFrom_of_statement read]
      refine ⟨noError, ?_⟩
      rw [restSame, Array.toList_push, Stmt.allWithoutSpans_append, List.append_assoc,
        Sentence.stmts, ← same]
      rfl

/-- The tokens are those of a program with the given statements. -/
def DerivesProgram (lexemes : List Lexeme) (sentences : List Sentence) : Prop :=
  Sentences (Derives maxNesting) (lexemes.map Lexeme.token) sentences

/-- Tokens are read without an error exactly when they derive from the grammar. They
do so in one way only, and the statements that are read are the ones that the
derivation denotes. -/
theorem parse_iff_derives (lexemes : List Lexeme) :
    ((parse lexemes).errors = [] ↔ ∃ sentences, DerivesProgram lexemes sentences) ∧
    ∀ sentences, DerivesProgram lexemes sentences →
      Stmt.allWithoutSpans (parse lexemes).program = Sentence.stmts sentences ∧
        ∀ others, DerivesProgram lexemes others → others = sentences := by
  refine ⟨⟨?_, ?_⟩, ?_⟩
  · intro noError
    obtain ⟨sentences, derived, _⟩ := statementsFrom_sound (by decide) noError
    exact ⟨sentences, derived⟩
  · rintro ⟨sentences, derived⟩
    exact (statementsFrom_complete derived _ rfl).1
  · intro sentences derived
    refine ⟨(statementsFrom_complete derived _ rfl).2, ?_⟩
    intro others othersDerived
    exact Sentences.unambiguous othersDerived derived

/-- Differences associate to the left. -/
theorem parse_iff_derives_difference :
    let lexemes : List Lexeme :=
      [⟨.identifier "a", .unknown⟩, ⟨.symbol .minus, .unknown⟩,
        ⟨.identifier "b", .unknown⟩, ⟨.symbol .minus, .unknown⟩,
        ⟨.identifier "c", .unknown⟩]
    (parse lexemes).errors = [] ∧
      Stmt.allWithoutSpans (parse lexemes).program =
        [.expression
          (.binary .subtract (.binary .subtract (.identifier "a") (.identifier "b"))
            (.identifier "c")) .unknown] := by
  intro lexemes
  have operand : ∀ (levels : Nat) (level : Level) (name : String),
      Derives (levels + 1) level [.identifier name] (.identifier name) := by
    intro levels level name
    have atom : Layer (Derives levels) .atom [.identifier name] (.identifier name) :=
      .operand (.identifier name)
    exact atom.loosen (by cases level <;> decide)
  have left : Derives maxNesting .sum
      ([.identifier "a"] ++ .symbol .minus :: [.identifier "b"])
      (.binary .subtract (.identifier "a") (.identifier "b")) :=
    Layer.binary .subtract (operand 9999 .sum "a") (operand 9998 .product "b")
  have whole : Derives maxNesting .sum
      (([.identifier "a"] ++ .symbol .minus :: [.identifier "b"]) ++
        .symbol .minus :: [.identifier "c"])
      (.binary .subtract (.binary .subtract (.identifier "a") (.identifier "b"))
        (.identifier "c")) :=
    Layer.binary .subtract left (operand 9998 .product "c")
  have derived : DerivesProgram lexemes
      [.mk none (.binary .subtract
        (.binary .subtract (.identifier "a") (.identifier "b"))
          (.identifier "c")) false] := by
    change Sentences _ (Sentence.opening none ++
      (lexemes.map Lexeme.token ++ (Sentence.ending false ++ []))) _
    refine .cons (Layer.loosen whole (by decide)) .nil ?_
    rintro _ ⟨mark, head, _⟩
    cases head
  obtain ⟨accepts, denotes⟩ := parse_iff_derives lexemes
  exact ⟨accepts.mpr ⟨_, derived⟩, (denotes _ derived).1⟩

end ExprMachine
