import ExprMachine.Proofs.Compilation.Code
import ExprMachine.Proofs.Parsing.Programs
import ExprMachine.Session

/-!
# The literals of a source text

The literals that a program puts into the pool of constants are the integer and
string tokens that the program was read from, if the program is one that can be
compiled. This is shown along the derivation of the tokens from the grammar.
-/

namespace ExprMachine

/-- The token is an integer or a string. -/
def Token.isLiteral : Token → Bool
  | .integer _ => true
  | .string _ => true
  | _ => false

/-- The number of integers and strings in a source text. -/
def literalCount (source : String) : Nat :=
  match lex source with
  | .ok lexemes => (lexemes.map Lexeme.token).countP Token.isLiteral
  | .error _ => 0

variable {symbols : SymbolTable}

/-! ## Supported expressions -/

mutual

/-- There are no statements inside a supported expression. -/
theorem Expr.withoutSpans_of_supported (expr : Expr)
    (supported : expr.Supported symbols) : expr.withoutSpans = expr := by
  cases expr with
  | integer value => rfl
  | boolean value => rfl
  | string content => rfl
  | identifier name => rfl
  | unary operator operand =>
      rw [withoutSpans, Expr.withoutSpans_of_supported operand supported]
  | binary operator left right =>
      rw [withoutSpans, Expr.withoutSpans_of_supported left supported.2.1,
        Expr.withoutSpans_of_supported right supported.2.2]
  | array items =>
      rw [withoutSpans, Expr.allWithoutSpans_of_supported items supported.2]
  | call callee arguments =>
      rw [withoutSpans, Expr.withoutSpans_of_supported callee supported.2.1,
        Expr.allWithoutSpans_of_supported arguments supported.2.2]
  | index collection position => exact supported.elim
  | conditional condition consequence alternative => exact supported.elim

theorem Expr.allWithoutSpans_of_supported (items : List Expr)
    (supported : Expr.AllSupported symbols items) :
    Expr.allWithoutSpans items = items := by
  cases items with
  | nil => rfl
  | cons item items =>
      rw [allWithoutSpans, Expr.withoutSpans_of_supported item supported.1,
        Expr.allWithoutSpans_of_supported items supported.2]

end

theorem Expr.length_literals_binary (operator : BinaryOperator) (left right : Expr) :
    (Expr.binary operator left right).literals.length =
      left.literals.length + right.literals.length := by
  cases operator <;> simp only [literals, List.length_append, Nat.add_comm]

/-! ## Derivations -/

/-- The tokens have as many literals as the expression that they stand for, if it is
supported. -/
def Counted (symbols : SymbolTable) (Nested : Level → List Token → Phrase → Prop) :
    Prop :=
  ∀ {level : Level} {tokens : List Token} {phrase : Phrase},
    Nested level tokens phrase → phrase.expr.Supported symbols →
      tokens.countP Token.isLiteral = phrase.expr.literals.length

section Layer

variable {Nested : Level → List Token → Phrase → Prop}

theorem MoreItems.counted (counted : Counted symbols Nested) {tokens : List Token}
    {phrases : List Phrase} (derived : MoreItems Nested tokens phrases)
    (supported : Expr.AllSupported symbols (Phrase.exprs phrases)) :
    tokens.countP Token.isLiteral =
      (Expr.literalsOfAll (Phrase.exprs phrases)).length := by
  induction derived with
  | nil => rfl
  | cons itemDerived _ inductionHypothesis =>
      have item := counted itemDerived supported.1
      have rest := inductionHypothesis supported.2
      rw [List.countP_cons_of_neg (by decide), List.countP_append, item, rest,
        Phrase.exprs, Expr.literalsOfAll, List.length_append]

theorem Items.counted (counted : Counted symbols Nested) {tokens : List Token}
    {phrases : List Phrase} (derived : Items Nested tokens phrases)
    (supported : Expr.AllSupported symbols (Phrase.exprs phrases)) :
    tokens.countP Token.isLiteral =
      (Expr.literalsOfAll (Phrase.exprs phrases)).length := by
  cases derived with
  | nil => rfl
  | cons itemDerived restDerived =>
      have item := counted itemDerived supported.1
      have rest := restDerived.counted counted supported.2
      rw [List.countP_append, item, rest, Phrase.exprs, Expr.literalsOfAll,
        List.length_append]

theorem countP_enclosed (opening closing : Symbol) (tokens : List Token) :
    (.symbol opening :: (tokens ++ [.symbol closing])).countP Token.isLiteral =
      tokens.countP Token.isLiteral := by
  rw [List.countP_cons_of_neg (by simp [Token.isLiteral]), List.countP_append,
    List.countP_singleton]
  simp [Token.isLiteral]

theorem Operand.counted (counted : Counted symbols Nested) {level : Level}
    {tokens : List Token} {phrase : Phrase}
    (derived : Operand Nested level tokens phrase)
    (supported : phrase.expr.Supported symbols) :
    tokens.countP Token.isLiteral = phrase.expr.literals.length := by
  cases derived with
  | integer value => rfl
  | boolean value => rfl
  | string content => rfl
  | identifier name => rfl
  | group innerDerived =>
      have inner := counted innerDerived supported
      rw [countP_enclosed]
      exact inner
  | array itemsDerived =>
      rw [countP_enclosed]
      exact itemsDerived.counted counted supported.2
  | @conditional _ _ _ _ _ alternative =>
      cases alternative <;> exact supported.elim
  | unary operator operandDerived =>
      have operand := counted operandDerived supported
      rw [List.countP_cons_of_neg (by simp [Token.isLiteral])]
      exact operand

theorem Layer.counted (counted : Counted symbols Nested) :
    Counted symbols (Layer Nested) := by
  intro level tokens phrase derived supported
  induction derived with
  | operand operandDerived => exact operandDerived.counted counted supported
  | tighter _ inductionHypothesis => exact inductionHypothesis supported
  | binary operator _ rightDerived inductionHypothesis =>
      have left := inductionHypothesis supported.2.1
      have right := counted rightDerived supported.2.2
      rw [List.countP_append, List.countP_cons_of_neg (by simp [Token.isLiteral]), left,
        right, Phrase.expr, Expr.length_literals_binary]
  | call _ itemsDerived inductionHypothesis =>
      have callee := inductionHypothesis supported.2.1
      have arguments := itemsDerived.counted counted supported.2.2
      rw [List.countP_append, countP_enclosed, callee, arguments, Phrase.expr,
        Expr.literals, List.length_append]
  | index _ _ _ => exact supported.elim

end Layer

theorem Derives.counted (levels : Nat) : Counted symbols (Derives levels) := by
  induction levels with
  | zero => exact fun impossible => impossible.elim
  | succ levels inductionHypothesis => exact Layer.counted inductionHypothesis

/-! ## Programs -/

theorem Sentence.countP_opening (name : Option String) :
    (opening name).countP Token.isLiteral = 0 := by
  cases name <;> rfl

theorem Sentence.countP_ending (terminated : Bool) :
    (ending terminated).countP Token.isLiteral = 0 := by
  cases terminated <;> rfl

theorem Stmt.value_ofName (value : Expr) (name : Option String) :
    (Stmt.ofName value name).value = value := by
  cases name <;> rfl

theorem Stmt.value_withoutSpans (stmt : Stmt) :
    stmt.withoutSpans.value = stmt.value.withoutSpans := by
  cases stmt <;> rfl

/-- The tokens of a supported program have as many literals as the program. -/
theorem Sentences.counted {levels : Nat} {tokens : List Token}
    {sentences : List Sentence} (derived : Sentences (Derives levels) tokens sentences)
    {program : Program} (supported : program.Supported symbols)
    (denoted : Stmt.allWithoutSpans program = Sentence.stmts sentences) :
    tokens.countP Token.isLiteral = program.literals.length := by
  induction derived generalizing program symbols with
  | nil =>
      cases program with
      | nil => rfl
      | cons stmt rest => cases denoted
  | @cons name value rest phrase terminated sentences valueDerived _ _
      inductionHypothesis =>
      cases program with
      | nil => cases denoted
      | cons stmt program =>
          obtain ⟨⟨valueSupported, _⟩, restSupported⟩ := supported
          injection denoted with sameStmt sameRest
          have sameValue : stmt.value = phrase.expr := by
            rw [← stmt.value.withoutSpans_of_supported valueSupported,
              ← stmt.value_withoutSpans, sameStmt, Sentence.stmt, Stmt.value_ofName]
          rw [sameValue] at valueSupported
          have first := Derives.counted levels valueDerived valueSupported
          have others := inductionHypothesis restSupported sameRest
          rw [List.countP_append, Sentence.countP_opening, List.countP_append, first,
            List.countP_append, Sentence.countP_ending, others, Program.literals,
            Stmt.literals, sameValue, List.length_append]
          omega

/-- A source text is read without an error when it is cut into tokens and these are
read without an error. -/
theorem readProgram_eq_ok_iff (source : String) (program : Program) :
    readProgram source = .ok program ↔
      ∃ lexemes, lex source = .ok lexemes ∧ parse lexemes = ⟨program, []⟩ := by
  rw [readProgram]
  cases lex source with
  | error error => simp
  | ok lexemes =>
      rcases parsed : parse lexemes with ⟨parsedProgram, _ | ⟨error, errors⟩⟩ <;>
        simp [parsed]

/-- The literals of a supported program are those of the source text. -/
theorem literalCount_of_read {source : String} {program : Program}
    (read : readProgram source = .ok program) (supported : program.Supported symbols) :
    literalCount source = program.literals.length := by
  obtain ⟨lexemes, lexed, parsed⟩ := (readProgram_eq_ok_iff source program).mp read
  have noError : (parse lexemes).errors = [] := by rw [parsed]
  obtain ⟨sentences, derived, denoted⟩ := statementsFrom_sound (by decide) noError
  have same : Stmt.allWithoutSpans program = Sentence.stmts sentences := by
    rw [← parse, parsed] at denoted
    exact denoted.symm
  have counted := derived.counted supported same
  rw [literalCount, lexed]
  exact counted

end ExprMachine
