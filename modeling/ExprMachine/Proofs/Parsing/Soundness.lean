import ExprMachine.Proofs.Parsing.Clauses
import ExprMachine.Proofs.Parsing.Ranks
import ExprMachine.Proofs.Parsing.Tokens
import ExprMachine.Proofs.Sequencing

/-!
# What is read derives from the grammar

Each reader takes tokens from the head of the input that derive from the grammar,
and its value is what the derivation denotes, up to spans. The readers of nested
expressions are assumed to do so, and to stop only where the next token binds no
more tightly than the minimum.
-/

namespace ExprMachine

namespace Reader

/-- What is read as a nested expression derives from the grammar, and the reader
only stops where the minimum lets it. -/
def Sound (nested : Precedence → Reader Expr)
    (Nested : Level → List Token → Phrase → Prop) : Prop :=
  ∀ {minimum : Precedence} {cursor : Cursor} {parsed : Parsed Expr cursor},
    nested minimum cursor = .ok parsed → ∃ front phrase,
      cursor.tokens = front ++ parsed.after.tokens ∧
        Nested minimum.level front phrase ∧ phrase.expr = parsed.value.withoutSpans ∧
          Bounded minimum.rank parsed.after.tokens

variable {nested : Precedence → Reader Expr}
  {Nested : Level → List Token → Phrase → Prop} {start cursor : Cursor}

/-! ## Lists -/

theorem itemsTail_sound (sound : Sound nested Nested) {closing : Symbol}
    {before : Parsed (Array Expr) start} {parsed : Parsed (List Expr) start}
    (read : itemsTail nested closing before = .ok parsed) : ∃ front phrases,
      before.after.tokens = front ++ .symbol closing :: parsed.after.tokens ∧
        MoreItems Nested front phrases ∧
          Expr.allWithoutSpans before.value.toList ++ Phrase.exprs phrases =
            Expr.allWithoutSpans parsed.value := by
  induction length : before.after.rest.length using Nat.strongRecOn
    generalizing before with
  | _ _ inductionHypothesis =>
      subst length
      rw [itemsTail] at read
      split at read
      · next comma found =>
          obtain ⟨item, itemRead, restRead⟩ := (except_bind_eq_ok_iff _ _ _).mp read
          obtain ⟨tokens, phrase, itemShape, itemDerived, itemSame, _⟩ :=
            sound itemRead
          obtain ⟨front, phrases, restShape, restDerived, restSame⟩ :=
            inductionHypothesis _ (Nat.lt_trans item.shorter comma.shorter) restRead rfl
          change item.after.tokens = _ at restShape
          refine ⟨.symbol .comma :: (tokens ++ front), phrase :: phrases, ?_,
            .cons itemDerived restDerived, ?_⟩
          · rw [Cursor.tokens_of_accept? found, itemShape, restShape,
              List.cons_append, List.append_assoc]
          · rw [← restSame, Array.toList_push, Expr.allWithoutSpans_append,
              List.append_assoc, Phrase.exprs, itemSame]
            rfl
      · next noComma =>
          obtain ⟨closed, closedRead, ended⟩ := (except_bind_eq_ok_iff _ _ _).mp read
          cases ended
          exact ⟨[], [], tokens_of_symbol closedRead, .nil, List.append_nil _⟩

theorem items_sound (sound : Sound nested Nested) {closing : Symbol}
    {parsed : Parsed (List Expr) cursor}
    (read : items nested closing cursor = .ok parsed) : ∃ front phrases,
      cursor.tokens = front ++ .symbol closing :: parsed.after.tokens ∧
        Items Nested front phrases ∧
          Phrase.exprs phrases = Expr.allWithoutSpans parsed.value := by
  rw [items] at read
  split at read
  · next closed found =>
      cases read
      exact ⟨[], [], Cursor.tokens_of_accept? found, .nil, rfl⟩
  · next notClosed =>
      obtain ⟨first, firstRead, restRead⟩ := (except_bind_eq_ok_iff _ _ _).mp read
      obtain ⟨tokens, phrase, firstShape, firstDerived, firstSame, _⟩ :=
        sound firstRead
      obtain ⟨front, phrases, restShape, restDerived, restSame⟩ :=
        itemsTail_sound sound restRead
      change first.after.tokens = _ at restShape
      refine ⟨tokens ++ front, phrase :: phrases, ?_, .cons firstDerived restDerived,
        ?_⟩
      · rw [firstShape, restShape, List.append_assoc]
      · rw [← restSame, Phrase.exprs, firstSame]
        rfl

/-! ## Statements -/

/-- What a reader of statements has read: the tokens of a statement and of the
semicolon after it, if there is one. -/
def ReadsSentence (Nested : Level → List Token → Phrase → Prop)
    (tokens rest : List Token) (stmt : Stmt) : Prop :=
  ∃ name value phrase terminated, Nested .equality value phrase ∧
    tokens = Sentence.opening name ++ (value ++ (Sentence.ending terminated ++ rest)) ∧
      (Sentence.mk name phrase terminated).stmt = stmt.withoutSpans ∧
        (terminated = false → ¬ Resumes rest)

theorem not_resumes_of_bounded {rest : List Token}
    (bounded : Bounded Precedence.lowest.rank rest) : ¬ Resumes rest := by
  rintro ⟨mark, head, which⟩
  rcases which with rfl | rfl | rfl
  · exact absurd (bounded _ (.operator .subtract) head rfl) (by decide)
  · exact absurd (bounded _ .arguments head rfl) (by decide)
  · exact absurd (bounded _ .position head rfl) (by decide)

/-- A statement whose value has been read is complete with the semicolon after it, if
there is one. -/
theorem optionalSemicolon_sound (name : Option String) {tokens front : List Token}
    {phrase : Phrase} {stmt : Parsed Stmt start}
    (derived : Nested .equality front phrase)
    (shape : tokens = Sentence.opening name ++ (front ++ stmt.after.tokens))
    (same : Stmt.ofName phrase.expr name = stmt.value.withoutSpans)
    (bounded : Bounded Precedence.lowest.rank stmt.after.tokens) :
    ReadsSentence Nested tokens (optionalSemicolon stmt).after.tokens
      (optionalSemicolon stmt).value := by
  unfold optionalSemicolon
  split
  · next mark found =>
      refine ⟨name, front, phrase, true, derived, ?_, same, nofun⟩
      rw [shape, Cursor.tokens_of_accept? found]
      rfl
  · exact ⟨name, front, phrase, false, derived, shape, same,
      fun _ => not_resumes_of_bounded bounded⟩

theorem clause_sound (sound : Sound nested Nested) {bare : Parsed Stmt cursor}
    (read : clause nested cursor = .ok bare) : ∃ name front phrase,
      Nested .equality front phrase ∧
        cursor.tokens = Sentence.opening name ++ (front ++ bare.after.tokens) ∧
          Stmt.ofName phrase.expr name = bare.value.withoutSpans ∧
            Bounded Precedence.lowest.rank bare.after.tokens := by
  rw [clause] at read
  split at read
  · next word found =>
      obtain ⟨bound, boundRead, ended⟩ := (except_bind_eq_ok_iff _ _ _).mp read
      cases ended
      obtain ⟨name, nameRead, read⟩ := (except_bind_eq_ok_iff _ _ _).mp boundRead
      obtain ⟨assign, assignRead, read⟩ := (except_bind_eq_ok_iff _ _ _).mp read
      obtain ⟨value, valueRead, ended⟩ := (except_bind_eq_ok_iff _ _ _).mp read
      cases ended
      obtain ⟨front, phrase, shape, derived, same, bounded⟩ := sound valueRead
      refine ⟨some name.value, front, phrase, derived, ?_, ?_, bounded⟩
      · rw [Cursor.tokens_of_accept? found, tokens_of_identifier nameRead,
          tokens_of_symbol assignRead, shape]
        rfl
      · exact congrArg (Stmt.binding name.value · .unknown) same
  · next noLet =>
      obtain ⟨value, valueRead, ended⟩ := (except_bind_eq_ok_iff _ _ _).mp read
      cases ended
      obtain ⟨front, phrase, shape, derived, same, bounded⟩ := sound valueRead
      exact ⟨none, front, phrase, derived, shape,
        congrArg (Stmt.expression · .unknown) same, bounded⟩

theorem statement_sound (sound : Sound nested Nested) {parsed : Parsed Stmt cursor}
    (read : statement nested cursor = .ok parsed) :
    ReadsSentence Nested cursor.tokens parsed.after.tokens parsed.value := by
  obtain ⟨bare, readBare, rfl⟩ := exists_clause read
  obtain ⟨name, front, phrase, derived, shape, same, bounded⟩ := clause_sound sound readBare
  exact optionalSemicolon_sound name derived shape same bounded

/-! ## Blocks and conditionals -/

theorem not_resumes_of_append {front back : List Token}
    (noResumption : ¬ Resumes (front ++ back)) : ¬ Resumes front := by
  rintro ⟨mark, head, which⟩
  obtain ⟨rest, rfl⟩ := List.head?_eq_some_iff.mp head
  exact noResumption ⟨mark, rfl, which⟩

theorem blockTail_sound (sound : Sound nested Nested)
    {before : Parsed (Array Stmt) start} {parsed : Parsed (List Stmt) start}
    (read : blockTail nested before = .ok parsed) : ∃ front sentences,
      before.after.tokens = front ++ .symbol .closeBrace :: parsed.after.tokens ∧
        Sentences Nested front sentences ∧
          Stmt.allWithoutSpans before.value.toList ++ Sentence.stmts sentences =
            Stmt.allWithoutSpans parsed.value := by
  induction length : before.after.rest.length using Nat.strongRecOn
    generalizing before with
  | _ _ inductionHypothesis =>
      subst length
      rw [blockTail] at read
      split at read
      · next ended =>
          obtain ⟨closed, closedRead, ended⟩ := (except_bind_eq_ok_iff _ _ _).mp read
          cases ended
          exact ⟨[], [], tokens_of_symbol closedRead, .nil, List.append_nil _⟩
      · next goesOn =>
          obtain ⟨stmt, stmtRead, restRead⟩ := (except_bind_eq_ok_iff _ _ _).mp read
          obtain ⟨name, value, phrase, terminated, derived, shape, same, ends⟩ :=
            statement_sound sound stmtRead
          obtain ⟨front, sentences, restShape, restDerived, restSame⟩ :=
            inductionHypothesis _ stmt.shorter restRead rfl
          change stmt.after.tokens = _ at restShape
          rw [restShape] at shape ends
          refine ⟨Sentence.opening name ++
            (value ++ (Sentence.ending terminated ++ front)),
            .mk name phrase terminated :: sentences, ?_,
            .cons derived restDerived
              fun missing => not_resumes_of_append (ends missing), ?_⟩
          · rw [shape]
            simp only [List.append_assoc]
          · rw [← restSame, Array.toList_push, Stmt.allWithoutSpans_append,
              List.append_assoc, Sentence.stmts, same]
            rfl

theorem block_sound (sound : Sound nested Nested) {parsed : Parsed (List Stmt) cursor}
    (read : block nested cursor = .ok parsed) : ∃ front sentences,
      cursor.tokens =
        .symbol .openBrace :: (front ++ .symbol .closeBrace :: parsed.after.tokens) ∧
        Sentences Nested front sentences ∧
          Sentence.stmts sentences = Stmt.allWithoutSpans parsed.value := by
  obtain ⟨opened, openedRead, rest⟩ := (except_bind_eq_ok_iff _ _ _).mp read
  obtain ⟨front, sentences, shape, derived, same⟩ := blockTail_sound sound rest
  refine ⟨front, sentences, ?_, derived, same⟩
  rw [tokens_of_symbol openedRead]
  exact congrArg _ shape

theorem conditional_sound (sound : Sound nested Nested) {parsed : Parsed Expr cursor}
    (read : conditional nested cursor = .ok parsed) : ∃ front phrase,
      cursor.tokens = front ++ parsed.after.tokens ∧
        Operand Nested .atom (.keyword .ifWord :: front) phrase ∧
          phrase.expr = parsed.value.withoutSpans := by
  obtain ⟨opened, openedRead, read⟩ := (except_bind_eq_ok_iff _ _ _).mp read
  obtain ⟨condition, conditionRead, read⟩ := (except_bind_eq_ok_iff _ _ _).mp read
  obtain ⟨closed, closedRead, read⟩ := (except_bind_eq_ok_iff _ _ _).mp read
  obtain ⟨consequence, consequenceRead, read⟩ := (except_bind_eq_ok_iff _ _ _).mp read
  obtain ⟨conditionTokens, phrase, conditionShape, conditionDerived, conditionSame,
    _⟩ := sound conditionRead
  obtain ⟨tokens, sentences, shape, derived, same⟩ := block_sound sound consequenceRead
  have whole : cursor.tokens = .symbol .openParen :: (conditionTokens ++
      .symbol .closeParen :: .symbol .openBrace ::
        (tokens ++ .symbol .closeBrace :: consequence.after.tokens)) := by
    rw [tokens_of_symbol openedRead, conditionShape, tokens_of_symbol closedRead, shape]
  rw [alternative] at read
  split at read
  · next word found =>
      obtain ⟨other, otherRead, ended⟩ := (except_bind_eq_ok_iff _ _ _).mp read
      cases ended
      obtain ⟨otherTokens, otherSentences, otherShape, otherDerived, otherSame⟩ :=
        block_sound sound otherRead
      refine ⟨_, _, ?_, .conditional conditionDerived derived (.some otherDerived), ?_⟩
      · have elseShape : consequence.after.tokens =
            .keyword .elseWord :: word.after.tokens := Cursor.tokens_of_accept? found
        rw [whole, elseShape, otherShape]
        simp only [List.cons_append, List.append_assoc]
        rfl
      · rw [Phrase.expr, conditionSame, same, otherSame]
        rfl
  · next noElse =>
      cases read
      refine ⟨_, _, ?_, .conditional conditionDerived derived .none, ?_⟩
      · rw [whole]
        simp only [List.cons_append, List.append_assoc]
        rfl
      · rw [Phrase.expr, conditionSame, same]
        rfl

/-! ## Expressions -/

/-- The tokens that have been read derive an expression of a level, and the rest
begins with no token that the level does not admit. -/
structure Reached (Nested : Level → List Token → Phrase → Prop) (level : Level)
    (front rest : List Token) (value : Expr) : Prop where
  derived : ∃ phrase, Layer Nested level front phrase ∧ phrase.expr = value.withoutSpans
  bounded : Bounded level.ceiling rest

theorem Reached.atom {front rest : List Token} {value : Expr} (phrase : Phrase)
    (derived : Operand Nested .atom front phrase)
    (same : phrase.expr = value.withoutSpans) : Reached Nested .atom front rest value :=
  ⟨⟨phrase, .operand derived, same⟩, Bounded.index rest⟩

theorem unaryOperand_sound (sound : Sound nested Nested) {operator : UnaryOperator}
    {parsed : Parsed Expr cursor}
    (read : unaryOperand nested operator cursor = .ok parsed) : ∃ front,
      cursor.tokens = front ++ parsed.after.tokens ∧
        Reached Nested .unary (.symbol operator.symbol :: front) parsed.after.tokens
          parsed.value := by
  obtain ⟨operand, operandRead, ended⟩ := (except_bind_eq_ok_iff _ _ _).mp read
  cases ended
  obtain ⟨front, phrase, shape, derived, same, bounded⟩ := sound operandRead
  exact ⟨front, shape, ⟨_, .operand (.unary operator derived), congrArg _ same⟩,
    bounded⟩

theorem group_sound (sound : Sound nested Nested) {parsed : Parsed Expr cursor}
    (read : group nested cursor = .ok parsed) : ∃ front,
      cursor.tokens = front ++ parsed.after.tokens ∧
        Reached Nested .atom (.symbol .openParen :: front) parsed.after.tokens
          parsed.value := by
  obtain ⟨inner, innerRead, read⟩ := (except_bind_eq_ok_iff _ _ _).mp read
  obtain ⟨closed, closedRead, ended⟩ := (except_bind_eq_ok_iff _ _ _).mp read
  cases ended
  obtain ⟨front, phrase, shape, derived, same, _⟩ := sound innerRead
  refine ⟨front ++ [.symbol .closeParen], ?_,
    .atom (.group phrase) (.group derived) same⟩
  rw [shape, tokens_of_symbol closedRead, List.append_assoc]
  rfl

/-- The first operand of an expression is an atom or a unary operator with its
operand. -/
theorem operand_sound (sound : Sound nested Nested) {parsed : Parsed Expr cursor}
    (read : operand nested cursor = .ok parsed) : ∃ level front,
      Level.unary.rank ≤ level.rank ∧ cursor.tokens = front ++ parsed.after.tokens ∧
        Reached Nested level front parsed.after.tokens parsed.value := by
  cases found : cursor.next? with
  | none => simp only [operand, found, reduceCtorEq] at read
  | some next =>
      have head := Cursor.tokens_of_next? found
      cases same : next.value with
      | integer value =>
          simp only [operand, found, same] at read
          cases read
          rw [same] at head
          exact ⟨.atom, [_], by decide, head, .atom _ (.integer value) rfl⟩
      | string content =>
          simp only [operand, found, same] at read
          cases read
          rw [same] at head
          exact ⟨.atom, [_], by decide, head, .atom _ (.string content) rfl⟩
      | identifier name =>
          simp only [operand, found, same] at read
          cases read
          rw [same] at head
          exact ⟨.atom, [_], by decide, head, .atom _ (.identifier name) rfl⟩
      | keyword word =>
          cases word with
          | trueWord =>
              simp only [operand, found, same] at read
              cases read
              rw [same] at head
              exact ⟨.atom, [_], by decide, head, .atom _ (.boolean true) rfl⟩
          | falseWord =>
              simp only [operand, found, same] at read
              cases read
              rw [same] at head
              exact ⟨.atom, [_], by decide, head, .atom _ (.boolean false) rfl⟩
          | ifWord =>
              simp only [operand, found, same] at read
              obtain ⟨inner, innerRead, ended⟩ := (except_bind_eq_ok_iff _ _ _).mp read
              cases ended
              obtain ⟨front, phrase, shape, derived, innerSame⟩ :=
                conditional_sound sound innerRead
              rw [same, shape] at head
              exact ⟨.atom, _, by decide, head, .atom phrase derived innerSame⟩
          | _ => simp only [operand, found, same, reduceCtorEq] at read
      | symbol mark =>
          cases mark with
          | bang =>
              simp only [operand, found, same] at read
              obtain ⟨inner, innerRead, ended⟩ := (except_bind_eq_ok_iff _ _ _).mp read
              cases ended
              obtain ⟨front, shape, reached⟩ := unaryOperand_sound sound innerRead
              rw [same, shape] at head
              exact ⟨.unary, _, Nat.le_refl _, head, reached⟩
          | minus =>
              simp only [operand, found, same] at read
              obtain ⟨inner, innerRead, ended⟩ := (except_bind_eq_ok_iff _ _ _).mp read
              cases ended
              obtain ⟨front, shape, reached⟩ := unaryOperand_sound sound innerRead
              rw [same, shape] at head
              exact ⟨.unary, _, Nat.le_refl _, head, reached⟩
          | openParen =>
              simp only [operand, found, same] at read
              obtain ⟨inner, innerRead, ended⟩ := (except_bind_eq_ok_iff _ _ _).mp read
              cases ended
              obtain ⟨front, shape, reached⟩ := group_sound sound innerRead
              rw [same, shape] at head
              exact ⟨.atom, _, by decide, head, reached⟩
          | openBracket =>
              simp only [operand, found, same] at read
              obtain ⟨list, listRead, ended⟩ := (except_bind_eq_ok_iff _ _ _).mp read
              cases ended
              obtain ⟨front, phrases, shape, derived, listSame⟩ :=
                items_sound sound listRead
              rw [same, shape] at head
              refine ⟨.atom, .symbol .openBracket :: (front ++ [.symbol .closeBracket]),
                by decide, ?_, .atom (.array phrases) (.array derived) ?_⟩
              · rw [head, List.cons_append, List.append_assoc]
                rfl
              · rw [Phrase.expr, listSame]
                rfl
          | _ => simp only [operand, found, same, reduceCtorEq] at read

/-- What comes after the first token of a continuation, and the expression before
it, are one expression. -/
theorem continuationBody_sound (sound : Sound nested Nested)
    {continuation : Continuation} {level : Level} {front rest : List Token}
    {left : Expr} (reached : Reached Nested level front rest left)
    (admitted : continuation.precedence.rank ≤ level.ceiling)
    {parsed : Parsed Expr cursor}
    (read : continuationBody nested left continuation cursor = .ok parsed) : ∃ body,
      cursor.tokens = body ++ parsed.after.tokens ∧
        Reached Nested continuation.level
          (front ++ .symbol continuation.symbol :: body) parsed.after.tokens
          parsed.value := by
  obtain ⟨⟨leftPhrase, leftDerived, leftSame⟩, _⟩ := reached
  have operandDerived := leftDerived.loosen (Continuation.rank_level_le admitted)
  cases continuation with
  | arguments =>
      obtain ⟨list, listRead, ended⟩ := (except_bind_eq_ok_iff _ _ _).mp read
      cases ended
      obtain ⟨tokens, phrases, shape, derived, listSame⟩ := items_sound sound listRead
      refine ⟨tokens ++ [Token.symbol .closeParen], ?_,
        ⟨.call leftPhrase phrases, .call operandDerived derived, ?_⟩, Bounded.index _⟩
      · rw [shape, List.append_assoc]
        rfl
      · rw [Phrase.expr, leftSame, listSame]
        rfl
  | position =>
      obtain ⟨position, positionRead, read⟩ := (except_bind_eq_ok_iff _ _ _).mp read
      obtain ⟨closed, closedRead, ended⟩ := (except_bind_eq_ok_iff _ _ _).mp read
      cases ended
      obtain ⟨tokens, phrase, shape, derived, same, _⟩ := sound positionRead
      refine ⟨tokens ++ [Token.symbol .closeBracket], ?_,
        ⟨.index leftPhrase phrase, .index operandDerived derived, ?_⟩, Bounded.index _⟩
      · rw [shape, tokens_of_symbol closedRead, List.append_assoc]
        rfl
      · rw [Phrase.expr, leftSame, same]
        rfl
  | operator op =>
      obtain ⟨right, rightRead, ended⟩ := (except_bind_eq_ok_iff _ _ _).mp read
      cases ended
      obtain ⟨tokens, phrase, shape, derived, same, bounded⟩ := sound rightRead
      rw [op.level_precedence] at derived
      refine ⟨tokens, shape,
        ⟨.binary op leftPhrase phrase, .binary op operandDerived derived, ?_⟩, ?_⟩
      · rw [Phrase.expr, leftSame, same]
        rfl
      · refine bounded.mono ?_
        rw [← op.rank_level]
        exact Level.rank_le_ceiling _

/-- The tokens `more` complete what has been read to an expression, which ends where
the minimum lets it. -/
def Completes (Nested : Level → List Token → Phrase → Prop) (minimum : Precedence)
    (front more rest : List Token) (value : Expr) : Prop :=
  (∃ phrase, Layer Nested minimum.level (front ++ more) phrase ∧
    phrase.expr = value.withoutSpans) ∧ Bounded minimum.rank rest

theorem Reached.completes {level : Level} {minimum : Precedence}
    {front rest : List Token} {value : Expr}
    (reached : Reached Nested level front rest value)
    (tight : minimum.level.rank ≤ level.rank) (bounded : Bounded minimum.rank rest) :
    Completes Nested minimum front [] rest value := by
  obtain ⟨phrase, derived, same⟩ := reached.derived
  refine ⟨⟨phrase, ?_, same⟩, bounded⟩
  rw [List.append_nil]
  exact derived.loosen tight

/-- Reading goes on for as long as the next token binds more tightly than the
minimum. -/
theorem continuations_sound (sound : Sound nested Nested) {minimum : Precedence}
    {left parsed : Parsed Expr start} {level : Level} {front : List Token}
    (reached : Reached Nested level front left.after.tokens left.value)
    (tight : minimum.level.rank ≤ level.rank)
    (read : continuations nested minimum left = .ok parsed) : ∃ more,
      left.after.tokens = more ++ parsed.after.tokens ∧
        Completes Nested minimum front more parsed.after.tokens parsed.value := by
  induction length : left.after.rest.length using Nat.strongRecOn
    generalizing left level front with
  | _ _ inductionHypothesis =>
      subst length
      rw [continuations] at read
      split at read
      · next next found =>
          have head := Cursor.tokens_of_next? found
          split at read
          · next continuation continues =>
              have token := Continuation.token_of_ofToken? continues
              rw [token] at head
              split at read
              · next tighter =>
                  have admitted : continuation.precedence.rank ≤ level.ceiling := by
                    refine reached.bounded (.symbol continuation.symbol) continuation
                      ?_ continuation.ofToken?_symbol
                    rw [head]
                    rfl
                  obtain ⟨whole, wholeRead, restRead⟩ :=
                    (except_bind_eq_ok_iff _ _ _).mp read
                  obtain ⟨body, bodyShape, wholeReached⟩ :=
                    continuationBody_sound sound reached admitted wholeRead
                  obtain ⟨more, shape, completes⟩ := inductionHypothesis _
                    (Nat.lt_trans whole.shorter next.shorter) wholeReached
                    (Precedence.rank_level_le tighter) restRead rfl
                  refine ⟨.symbol continuation.symbol :: (body ++ more), ?_, ?_⟩
                  · change whole.after.tokens = _ at shape
                    rw [head, bodyShape, shape, List.cons_append, List.append_assoc]
                  · rw [Completes, List.append_assoc] at completes
                    exact completes
              · next loose =>
                  cases read
                  refine ⟨[], rfl, reached.completes tight ?_⟩
                  rw [head]
                  exact Bounded.of_continuation (Nat.le_of_not_lt loose)
          · next noContinuation =>
              cases read
              refine ⟨[], rfl, reached.completes tight ?_⟩
              rw [head]
              exact Bounded.of_none noContinuation _
      · next missing =>
          cases read
          refine ⟨[], rfl, reached.completes tight ?_⟩
          rw [Cursor.tokens_of_next?_none missing]
          exact Bounded.nil _

/-- What is read with a number of levels derives with this number of levels. -/
theorem expression_sound (levels : Nat) :
    Sound (expression levels) (Derives levels) := by
  induction levels with
  | zero =>
      intro minimum cursor parsed read
      cases read
  | succ levels inductionHypothesis =>
      intro minimum cursor parsed read
      obtain ⟨left, leftRead, restRead⟩ := (except_bind_eq_ok_iff _ _ _).mp read
      obtain ⟨level, front, tight, shape, reached⟩ :=
        operand_sound inductionHypothesis leftRead
      have loosest : minimum.level.rank ≤ Level.unary.rank := by
        cases minimum <;> decide
      obtain ⟨more, restShape, ⟨phrase, derived, same⟩, bounded⟩ :=
        continuations_sound inductionHypothesis reached (Nat.le_trans loosest tight)
          restRead
      refine ⟨front ++ more, phrase, ?_, derived, same, bounded⟩
      rw [shape, restShape, List.append_assoc]

end Reader

end ExprMachine
