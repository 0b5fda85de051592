import ExprMachine.Proofs.Parsing.Clauses
import ExprMachine.Proofs.Parsing.Tokens

/-!
# Where readers get to

Readers only move past one token after another, whether they succeed or fail. So a
cursor always tells how many tokens are before it and which span the last one of them
has, and the place of an error is that of a token, or the end of the last one. The span
of a statement goes from one token to another.
-/

namespace ExprMachine

/-! ## Cursors -/

/-- The second cursor is reached from the first one by moving past tokens. -/
inductive Cursor.LeadsTo (start : Cursor) : Cursor → Prop
  | here : start.LeadsTo start
  | past {cursor : Cursor} {next : Parsed Token cursor} :
      start.LeadsTo cursor → cursor.next? = some next → start.LeadsTo next.after

/-- The tokens are divided at the cursor, which knows how many come before it and the
span of the last one of them. -/
structure Cursor.Divides (whole : List Lexeme) (cursor : Cursor) (front : List Lexeme) :
    Prop where
  whole : whole = front ++ cursor.rest
  position : cursor.position = front.length
  previous : ∀ last, front.getLast? = some last → cursor.previous = last.span

namespace Cursor

variable {start cursor : Cursor}

theorem LeadsTo.trans {middle : Cursor} (first : start.LeadsTo middle)
    (second : middle.LeadsTo cursor) : start.LeadsTo cursor := by
  induction second with
  | here => exact first
  | past _ found inductionHypothesis => exact inductionHypothesis.past found

theorem LeadsTo.accepted {wanted : Token} {accepted : Parsed Unit cursor}
    (reached : start.LeadsTo cursor) (found : cursor.accept? wanted = some accepted) :
    start.LeadsTo accepted.after := by
  unfold accept? at found
  split at found
  · next next nextFound =>
      split at found
      · cases found
        exact reached.past nextFound
      · cases found
  · cases found

theorem LeadsTo.position_add_length (reached : start.LeadsTo cursor) :
    cursor.position + cursor.rest.length = start.position + start.rest.length := by
  induction reached with
  | here => rfl
  | past _ found inductionHypothesis =>
      obtain ⟨lexeme, rest, _, after⟩ := exists_lexeme_of_next? found
      rw [rest, List.length_cons] at inductionHypothesis
      rw [← inductionHypothesis, after]
      exact Nat.add_right_comm ..

theorem LeadsTo.position_le (reached : start.LeadsTo cursor) :
    start.position ≤ cursor.position := by
  induction reached with
  | here => exact Nat.le_refl _
  | past _ found inductionHypothesis =>
      obtain ⟨lexeme, _, _, after⟩ := exists_lexeme_of_next? found
      rw [after]
      exact Nat.le_succ_of_le inductionHypothesis

theorem LeadsTo.length_le (reached : start.LeadsTo cursor) :
    cursor.rest.length ≤ start.rest.length := by
  have total := reached.position_add_length
  have least := reached.position_le
  omega

theorem LeadsTo.position_lt (reached : start.LeadsTo cursor)
    (shorter : cursor.rest.length < start.rest.length) : start.position < cursor.position := by
  have total := reached.position_add_length
  omega

theorem LeadsTo.divides {whole : List Lexeme} (reached : (Cursor.start whole).LeadsTo cursor) :
    ∃ front, cursor.Divides whole front := by
  induction reached with
  | here => exact ⟨[], rfl, rfl, nofun⟩
  | @past cursor next _ found inductionHypothesis =>
      obtain ⟨front, divides⟩ := inductionHypothesis
      obtain ⟨lexeme, rest, _, after⟩ := exists_lexeme_of_next? found
      rw [after]
      refine ⟨front ++ [lexeme], ?_, ?_, fun last isLast => ?_⟩
      · rw [divides.whole, rest, List.append_assoc]
        rfl
      · rw [List.length_append, ← divides.position]
        rfl
      · rw [List.getLast?_concat] at isLast
        cases isLast
        rfl

end Cursor

namespace Reader

/-! ## Outcomes -/

/-- The cursor of the outcome, where a reader succeeded or failed, was reached. -/
inductive Stays (start : Cursor) {α : Type} {cursor : Cursor} :
    Except ParseFailure (Parsed α cursor) → Prop
  | ok {parsed : Parsed α cursor} : start.LeadsTo parsed.after → Stays start (.ok parsed)
  | error {failure : ParseFailure} :
      start.LeadsTo failure.cursor → Stays start (.error failure)

/-- The reader gets only to cursors that are reached by moving past tokens. -/
def Moves {α : Type} (reader : Reader α) : Prop :=
  ∀ {start cursor : Cursor}, start.LeadsTo cursor → Stays start (reader cursor)

variable {start cursor : Cursor}

theorem Stays.bind {α β : Type} {middle : Cursor}
    {outcome : Except ParseFailure (Parsed α cursor)}
    {next : Parsed α cursor → Except ParseFailure (Parsed β middle)}
    (first : Stays start outcome)
    (second : ∀ parsed, start.LeadsTo parsed.after → Stays start (next parsed)) :
    Stays start (outcome >>= next) := by
  cases first with
  | ok reached => exact second _ reached
  | error reached => exact .error reached

theorem Stays.of_ok {α : Type} {outcome : Except ParseFailure (Parsed α cursor)}
    (stays : Stays start outcome) {parsed : Parsed α cursor} (read : outcome = .ok parsed) :
    start.LeadsTo parsed.after := by
  subst read
  cases stays with
  | ok reached => exact reached

theorem Stays.of_error {α : Type} {outcome : Except ParseFailure (Parsed α cursor)}
    (stays : Stays start outcome) {failure : ParseFailure} (read : outcome = .error failure) :
    start.LeadsTo failure.cursor := by
  subst read
  cases stays with
  | error reached => exact reached

/-! ## Single tokens -/

theorem symbol_moves (wanted : Symbol) : Moves (symbol wanted) := by
  intro start cursor reached
  unfold symbol
  split
  · next accepted found => exact .ok (reached.accepted found)
  · exact .error reached

theorem identifier_moves : Moves identifier := by
  intro start cursor reached
  unfold identifier
  split
  · next next found =>
      split
      · exact .ok (reached.past found)
      · exact .error reached
  · exact .error reached

theorem optionalSemicolon_moves {stmt : Parsed Stmt cursor}
    (reached : start.LeadsTo stmt.after) :
    start.LeadsTo (optionalSemicolon stmt).after := by
  unfold optionalSemicolon
  split
  · next mark found => exact reached.accepted found
  · exact reached

/-! ## Expressions and statements -/

section Nested

variable {nested : Precedence → Reader Expr}
  (nestedMoves : ∀ minimum, Moves (nested minimum))

include nestedMoves

theorem itemsTail_moves (closing : Symbol) {before : Parsed (Array Expr) cursor}
    (reached : start.LeadsTo before.after) :
    Stays start (itemsTail nested closing before) := by
  induction length : before.after.rest.length using Nat.strongRecOn generalizing before with
  | _ _ inductionHypothesis =>
      subst length
      rw [itemsTail]
      split
      · next comma found =>
          refine (nestedMoves .lowest (reached.accepted found)).bind fun item after => ?_
          exact inductionHypothesis _ (Nat.lt_trans item.shorter comma.shorter) after rfl
      · exact (symbol_moves closing reached).bind fun _ after => .ok after

theorem items_moves (closing : Symbol) : Moves (items nested closing) := by
  intro start cursor reached
  unfold items
  split
  · next closed found => exact .ok (reached.accepted found)
  · exact (nestedMoves .lowest reached).bind
      fun _ after => itemsTail_moves nestedMoves closing after

theorem binding_moves (begun : Span) : Moves (binding nested begun) := by
  intro start cursor reached
  refine (identifier_moves reached).bind fun _ afterName => ?_
  refine (symbol_moves .assign afterName).bind fun _ afterAssign => ?_
  refine (nestedMoves .lowest afterAssign).bind fun _ after => ?_
  exact .ok (optionalSemicolon_moves after)

theorem expressionStatement_moves : Moves (expressionStatement nested) := by
  intro start cursor reached
  refine (nestedMoves .lowest reached).bind fun _ after => ?_
  exact .ok (optionalSemicolon_moves after)

theorem statement_moves : Moves (statement nested) := by
  intro start cursor reached
  unfold statement
  split
  · next word found =>
      exact (binding_moves nestedMoves _ (reached.accepted found)).bind
        fun _ after => .ok after
  · exact expressionStatement_moves nestedMoves reached

theorem blockTail_moves {before : Parsed (Array Stmt) cursor}
    (reached : start.LeadsTo before.after) : Stays start (blockTail nested before) := by
  induction length : before.after.rest.length using Nat.strongRecOn generalizing before with
  | _ _ inductionHypothesis =>
      subst length
      rw [blockTail]
      split
      · exact (symbol_moves .closeBrace reached).bind fun _ after => .ok after
      · refine (statement_moves nestedMoves reached).bind fun stmt after => ?_
        exact inductionHypothesis _ stmt.shorter after rfl

theorem block_moves : Moves (block nested) := by
  intro start cursor reached
  refine (symbol_moves .openBrace reached).bind fun _ after => ?_
  exact blockTail_moves nestedMoves after

theorem alternative_moves (condition : Expr) {consequence : Parsed (List Stmt) cursor}
    (reached : start.LeadsTo consequence.after) :
    Stays start (alternative nested condition consequence) := by
  unfold alternative
  split
  · next word found =>
      exact (block_moves nestedMoves (reached.accepted found)).bind
        fun _ after => .ok after
  · exact .ok reached

theorem conditional_moves : Moves (conditional nested) := by
  intro start cursor reached
  refine (symbol_moves .openParen reached).bind fun _ afterOpened => ?_
  refine (nestedMoves .lowest afterOpened).bind fun condition afterCondition => ?_
  refine (symbol_moves .closeParen afterCondition).bind fun _ afterClosed => ?_
  refine (block_moves nestedMoves afterClosed).bind fun _ after => ?_
  exact alternative_moves nestedMoves condition.value after

theorem unaryOperand_moves (operator : UnaryOperator) :
    Moves (unaryOperand nested operator) :=
  fun reached => (nestedMoves .unary reached).bind fun _ after => .ok after

theorem group_moves : Moves (group nested) := by
  intro start cursor reached
  refine (nestedMoves .lowest reached).bind fun _ after => ?_
  exact (symbol_moves .closeParen after).bind fun _ after => .ok after

theorem operand_moves : Moves (operand nested) := by
  intro start cursor reached
  rw [operand]
  cases found : cursor.next? with
  | none => exact .error reached
  | some next =>
      have after : start.LeadsTo next.after := reached.past found
      obtain ⟨token, rest, shorter⟩ := next
      cases token with
      | integer value => exact .ok after
      | string content => exact .ok after
      | identifier name => exact .ok after
      | keyword word =>
          cases word with
          | trueWord => exact .ok after
          | falseWord => exact .ok after
          | ifWord => exact (conditional_moves nestedMoves after).bind fun _ after => .ok after
          | _ => exact .error reached
      | symbol mark =>
          cases mark with
          | bang =>
              exact (unaryOperand_moves nestedMoves .not after).bind fun _ after => .ok after
          | minus =>
              exact (unaryOperand_moves nestedMoves .negate after).bind fun _ after => .ok after
          | openParen => exact (group_moves nestedMoves after).bind fun _ after => .ok after
          | openBracket =>
              exact (items_moves nestedMoves .closeBracket after).bind fun _ after => .ok after
          | _ => exact .error reached

theorem continuationBody_moves (left : Expr) (continuation : Continuation) :
    Moves (continuationBody nested left continuation) := by
  intro start cursor reached
  cases continuation with
  | arguments =>
      exact (items_moves nestedMoves .closeParen reached).bind fun _ after => .ok after
  | position =>
      refine (nestedMoves .lowest reached).bind fun _ after => ?_
      exact (symbol_moves .closeBracket after).bind fun _ after => .ok after
  | operator op =>
      exact (nestedMoves op.precedence reached).bind fun _ after => .ok after

theorem continuations_moves (minimum : Precedence) {left : Parsed Expr cursor}
    (reached : start.LeadsTo left.after) :
    Stays start (continuations nested minimum left) := by
  induction length : left.after.rest.length using Nat.strongRecOn generalizing left with
  | _ _ inductionHypothesis =>
      subst length
      rw [continuations]
      split
      · next next found =>
          split
          · next continuation _ =>
              split
              · refine (continuationBody_moves nestedMoves left.value continuation
                  (reached.past found)).bind fun whole after => ?_
                exact inductionHypothesis _ (Nat.lt_trans whole.shorter next.shorter)
                  after rfl
              · exact .ok reached
          · exact .ok reached
      · exact .ok reached

end Nested

theorem expression_moves (levels : Nat) (minimum : Precedence) :
    Moves (expression levels minimum) := by
  induction levels generalizing minimum with
  | zero => exact fun reached => .error reached
  | succ levels inductionHypothesis =>
      intro start cursor reached
      refine (operand_moves inductionHypothesis reached).bind fun _ after => ?_
      exact continuations_moves inductionHypothesis minimum after

end Reader

/-! ## Errors -/

/-- The place of an error among the tokens: at one of them or, when the input ended, after
the last one. -/
inductive ParseError.Placed (lexemes : List Lexeme) (error : ParseError) : Prop
  | token {lexeme : Lexeme} :
      lexemes[error.position]? = some lexeme → error.span = lexeme.span →
        Placed lexemes error
  | ended {last : Lexeme} :
      error.position = lexemes.length → lexemes.getLast? = some last →
        error.span = last.span.afterwards → Placed lexemes error

theorem Cursor.LeadsTo.placed {lexemes : List Lexeme} (nonempty : lexemes ≠ [])
    {failure : ParseFailure} (reached : (Cursor.start lexemes).LeadsTo failure.cursor) :
    failure.error.Placed lexemes := by
  obtain ⟨cause, cursor⟩ := failure
  obtain ⟨front, divides⟩ := reached.divides
  obtain ⟨position, previous, rest⟩ := cursor
  cases rest with
  | nil =>
      have whole : lexemes = front := divides.whole.trans (List.append_nil _)
      have isLast := List.getLast?_eq_some_getLast nonempty
      refine .ended (divides.position.trans (congrArg _ whole.symm)) isLast ?_
      exact congrArg Span.afterwards (divides.previous _ (whole ▸ isLast))
  | cons lexeme rest =>
      refine .token ?_ rfl
      have place : position = front.length := divides.position
      change lexemes[position]? = some lexeme
      rw [divides.whole, place, List.getElem?_append_right (Nat.le_refl _), Nat.sub_self]
      rfl

/-! ## Statements -/

/-- The statement goes from one token to another. -/
def Stmt.Spans (lexemes : List Lexeme) (stmt : Stmt) : Prop :=
  ∃ first ∈ lexemes, ∃ last ∈ lexemes, stmt.span = first.span.merge last.span

section Nested

variable {nested : Precedence → Reader Expr}
  (nestedMoves : ∀ minimum, Reader.Moves (nested minimum))

include nestedMoves

theorem Reader.span_boundClause {begun : Span} {cursor : Cursor} {bare : Parsed Stmt cursor}
    (read : boundClause nested begun cursor = .ok bare) :
    cursor.LeadsTo bare.after ∧ bare.value.span = begun.merge bare.after.previous := by
  obtain ⟨name, readName, rest⟩ := (except_bind_eq_ok_iff _ _ _).mp read
  obtain ⟨assign, readAssign, rest⟩ := (except_bind_eq_ok_iff _ _ _).mp rest
  obtain ⟨value, readValue, rest⟩ := (except_bind_eq_ok_iff _ _ _).mp rest
  have afterName := (identifier_moves .here).of_ok readName
  have afterAssign := (symbol_moves .assign afterName).of_ok readAssign
  cases rest
  exact ⟨(nestedMoves .lowest afterAssign).of_ok readValue, rfl⟩

/-- The span of a statement begins where it is read, and ends with the last token before
its semicolon. -/
theorem Reader.span_clause {cursor : Cursor} {bare : Parsed Stmt cursor}
    (read : clause nested cursor = .ok bare) :
    cursor.LeadsTo bare.after ∧ bare.value.span = cursor.span.merge bare.after.previous := by
  unfold clause at read
  split at read
  · next word found =>
      obtain ⟨bound, readBound, same⟩ := (except_bind_eq_ok_iff _ _ _).mp read
      obtain ⟨reached, span⟩ := span_boundClause nestedMoves readBound
      cases same
      have afterWord : cursor.LeadsTo word.after := .accepted .here found
      exact ⟨afterWord.trans reached, span⟩
  · obtain ⟨value, readValue, rest⟩ := (except_bind_eq_ok_iff _ _ _).mp read
    cases rest
    exact ⟨(nestedMoves .lowest .here).of_ok readValue, rfl⟩

end Nested

theorem Cursor.LeadsTo.spans {lexemes : List Lexeme} {cursor last : Cursor} {stmt : Stmt}
    (reached : (Cursor.start lexemes).LeadsTo cursor)
    (reachedLast : (Cursor.start lexemes).LeadsTo last)
    (shorter : last.rest.length < cursor.rest.length)
    (span : stmt.span = cursor.span.merge last.previous) : stmt.Spans lexemes := by
  obtain ⟨front, divides⟩ := reached.divides
  obtain ⟨frontLast, dividesLast⟩ := reachedLast.divides
  obtain ⟨first, rest, shape⟩ := List.exists_cons_of_length_pos (Nat.zero_lt_of_lt shorter)
  have nonempty : frontLast ≠ [] := by
    rintro rfl
    have lengths := congrArg List.length (divides.whole.symm.trans dividesLast.whole)
    simp only [List.length_append, List.nil_append] at lengths
    omega
  have isLast := List.getLast?_eq_some_getLast nonempty
  have member : first ∈ lexemes := by
    rw [divides.whole, shape]
    exact List.mem_append_right _ List.mem_cons_self
  have memberLast : frontLast.getLast nonempty ∈ lexemes := by
    rw [dividesLast.whole]
    exact List.mem_append_left _ (List.getLast_mem nonempty)
  refine ⟨first, member, frontLast.getLast nonempty, memberLast, ?_⟩
  rw [span, dividesLast.previous _ isLast, Cursor.span, shape]

/-! ## Programs -/

/-- What is left out after an error is moved past, too. -/
theorem Cursor.LeadsTo.afterStatement {start cursor : Cursor} (reached : start.LeadsTo cursor)
    (depth : Nat) : start.LeadsTo (cursor.afterStatement depth) := by
  induction length : cursor.rest.length using Nat.strongRecOn generalizing cursor depth with
  | _ _ inductionHypothesis =>
      subst length
      rw [Cursor.afterStatement]
      split
      · exact reached
      · next next found =>
          have after := reached.past found
          have goesOn (depth : Nat) := inductionHypothesis _ next.shorter after depth rfl
          split
          any_goals exact goesOn _
          split
          · exact after
          · exact goesOn _

/-- The statements that are read, and the errors that are met, are found at tokens. -/
theorem statementsFrom_places {lexemes : List Lexeme} {allowed : Nat}
    {statements : Array Stmt} {errors : Array ParseError} {cursor : Cursor}
    (reached : (Cursor.start lexemes).LeadsTo cursor)
    (spans : ∀ stmt ∈ statements.toList, stmt.Spans lexemes)
    (placed : ∀ error ∈ errors.toList, error.Placed lexemes) :
    let parsed := statementsFrom allowed statements errors cursor
    (∀ stmt ∈ parsed.program, stmt.Spans lexemes) ∧
      ∀ error ∈ parsed.errors, error.Placed lexemes := by
  intro parsed
  subst parsed
  fun_induction statementsFrom allowed statements errors cursor with
  | case1 => exact ⟨spans, placed⟩
  | case2 => exact ⟨spans, placed⟩
  | case3 statements errors cursor allowed _ _ _ stmt read inductionHypothesis =>
      have after :=
        (Reader.statement_moves (Reader.expression_moves maxNesting) reached).of_ok read
      obtain ⟨bare, readBare, rfl⟩ := Reader.exists_clause read
      obtain ⟨reachedLast, span⟩ :=
        Reader.span_clause (Reader.expression_moves maxNesting) readBare
      have stmtSpans := reached.spans (reached.trans reachedLast) bare.shorter span
      rw [← Reader.value_optionalSemicolon] at stmtSpans
      refine inductionHypothesis after ?_ placed
      rw [Array.toList_push]
      exact List.forall_mem_append.mpr ⟨spans, List.forall_mem_singleton.mpr stmtSpans⟩
  | case4 statements errors cursor allowed first rest shape failure read inductionHypothesis =>
      have reachedFailure :=
        (Reader.statement_moves (Reader.expression_moves maxNesting) reached).of_error read
      have nonempty : lexemes ≠ [] := by
        rintro rfl
        obtain ⟨front, divides⟩ := reached.divides
        have none := (List.append_eq_nil_iff.mp divides.whole.symm).2
        cases shape.symm.trans none
      refine inductionHypothesis (reachedFailure.afterStatement 0) spans ?_
      rw [Array.toList_push]
      exact List.forall_mem_append.mpr
        ⟨placed, List.forall_mem_singleton.mpr (reachedFailure.placed nonempty)⟩

theorem parse_places (lexemes : List Lexeme) :
    (∀ stmt ∈ (parse lexemes).program, stmt.Spans lexemes) ∧
      ∀ error ∈ (parse lexemes).errors, error.Placed lexemes :=
  statementsFrom_places .here nofun nofun

end ExprMachine
