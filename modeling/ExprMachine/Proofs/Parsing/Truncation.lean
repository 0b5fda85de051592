import ExprMachine.Proofs.Parsing.Completeness
import ExprMachine.Proofs.Parsing.Places

/-!
# Reading without what follows

What was read does not depend on the tokens behind it: when they are missing, the same is
read, and there is nothing left where they were. It does not depend on the number of levels
either, if there are enough of them.
-/

namespace ExprMachine

/-- The second cursor stands at the same place, but the given lexemes are missing at the
end. -/
structure Cursor.Cut (dropped : List Lexeme) (cursor short : Cursor) : Prop where
  rest : cursor.rest = short.rest ++ dropped
  position : short.position = cursor.position
  previous : short.previous = cursor.previous

variable {dropped : List Lexeme}

namespace Cursor.Cut

variable {cursor short : Cursor} (cut : cursor.Cut dropped short)

include cut

theorem next? {next : Parsed Token cursor} (found : cursor.next? = some next)
    (enough : dropped.length ≤ next.after.rest.length) :
    ∃ again, short.next? = some again ∧ again.value = next.value ∧
      next.after.Cut dropped again.after := by
  obtain ⟨position, previous, rest⟩ := short
  obtain ⟨whole, rfl, rfl⟩ := cut
  obtain ⟨lexeme, shape, value, after⟩ := exists_lexeme_of_next? found
  rw [whole] at shape
  cases rest with
  | nil =>
      have length := congrArg List.length shape
      simp only [List.nil_append, List.length_cons] at length
      omega
  | cons first rest =>
      obtain ⟨rfl, same⟩ := List.cons.inj shape
      refine ⟨_, rfl, value.symm, same.symm, ?_, ?_⟩
      · rw [after]
      · rw [after]

theorem accept? {wanted : Token} {accepted : Parsed Unit cursor}
    (found : cursor.accept? wanted = some accepted)
    (enough : dropped.length ≤ accepted.after.rest.length) :
    ∃ again, short.accept? wanted = some again ∧ accepted.after.Cut dropped again.after := by
  unfold Cursor.accept? at found
  split at found
  · next next nextFound =>
      split at found
      · next fits =>
          cases found
          obtain ⟨again, foundAgain, value, cutAfter⟩ := cut.next? nextFound enough
          refine ⟨again.map fun _ => (), ?_, cutAfter⟩
          simp only [Cursor.accept?, foundAgain, value, fits, if_true]
      · cases found
  · cases found

theorem span (enough : dropped.length < cursor.rest.length) : short.span = cursor.span := by
  rw [cut.rest, List.length_append] at enough
  have positive : 0 < short.rest.length := by omega
  obtain ⟨first, rest, shape⟩ := List.exists_cons_of_length_pos positive
  rw [Cursor.span, Cursor.span, cut.rest, shape]
  rfl

/-- The next token is the same, if there is one. -/
theorem head? : short.tokens = [] ∨ short.tokens.head? = cursor.tokens.head? := by
  rw [tokens, tokens, cut.rest]
  cases short.rest with
  | nil => exact Or.inl rfl
  | cons first rest => exact Or.inr rfl

theorem accept?_eq_none {wanted : Token} (missing : cursor.accept? wanted = none) :
    short.accept? wanted = none := by
  rw [accept?_eq_none_iff] at missing ⊢
  rcases cut.head? with ended | same
  · rw [ended]
    exact nofun
  · rw [same]
    exact missing

theorem bounded {limit : Nat} (bounded : Bounded limit cursor.tokens) :
    Bounded limit short.tokens := by
  rcases cut.head? with ended | same
  · rw [ended]
    exact .nil limit
  · intro token continuation head
    exact bounded token continuation (same.symm.trans head)

end Cursor.Cut

namespace Reader

/-! ## Outcomes -/

/-- The outcome is what was read at another cursor, where it was followed by the given
lexemes. -/
def Repeats (dropped : List Lexeme) {α : Type} {cursor short : Cursor}
    (parsed : Parsed α cursor) (outcome : Except ParseFailure (Parsed α short)) : Prop :=
  ∃ again, outcome = .ok again ∧ again.value = parsed.value ∧
    parsed.after.Cut dropped again.after

/-- What the first reader reads in front of the given lexemes, the second one reads when
they are missing. -/
def Truncates (dropped : List Lexeme) {α : Type} (reader other : Reader α) : Prop :=
  ∀ {cursor short : Cursor} {parsed : Parsed α cursor}, cursor.Cut dropped short →
    reader cursor = .ok parsed → dropped.length ≤ parsed.after.rest.length →
      Repeats dropped parsed (other short)

theorem Repeats.bind {α β : Type} {cursor short start startShort : Cursor}
    {parsed : Parsed α cursor} {result : Parsed β start}
    {outcome : Except ParseFailure (Parsed α short)}
    {next : Parsed α short → Except ParseFailure (Parsed β startShort)}
    (first : Repeats dropped parsed outcome)
    (second : ∀ again, again.value = parsed.value → parsed.after.Cut dropped again.after →
      Repeats dropped result (next again)) :
    Repeats dropped result (outcome >>= next) := by
  obtain ⟨again, rfl, same, cut⟩ := first
  exact second again same cut

/-! ## Single tokens -/

theorem symbol_truncates (wanted : Symbol) :
    Truncates dropped (symbol wanted) (symbol wanted) := by
  intro cursor short parsed cut read enough
  unfold symbol at read ⊢
  split at read
  · next accepted found =>
      cases read
      obtain ⟨again, foundAgain, cutAfter⟩ := cut.accept? found enough
      rw [foundAgain]
      exact ⟨again, rfl, rfl, cutAfter⟩
  · cases read

theorem identifier_truncates : Truncates dropped identifier identifier := by
  intro cursor short parsed cut read enough
  unfold identifier at read
  split at read
  · next next found =>
      split at read
      · next name isName =>
          cases read
          obtain ⟨again, foundAgain, value, cutAfter⟩ := cut.next? found enough
          refine ⟨again.map fun _ => name, ?_, rfl, cutAfter⟩
          simp only [identifier, foundAgain, value, isName]
      · cases read
  · cases read

theorem optionalSemicolon_truncates {cursor short : Cursor} {stmt : Parsed Stmt cursor}
    {again : Parsed Stmt short} (same : again.value = stmt.value)
    (cut : stmt.after.Cut dropped again.after)
    (enough : dropped.length ≤ (optionalSemicolon stmt).after.rest.length) :
    Repeats dropped (optionalSemicolon stmt) (.ok (optionalSemicolon again)) := by
  unfold optionalSemicolon at enough ⊢
  cases found : stmt.after.accept? (.symbol .semicolon) with
  | some mark =>
      rw [found] at enough
      obtain ⟨markAgain, foundAgain, cutAfter⟩ := cut.accept? found enough
      rw [foundAgain]
      exact ⟨_, rfl, same, cutAfter⟩
  | none =>
      rw [cut.accept?_eq_none found]
      exact ⟨_, rfl, same, cut⟩

/-! ## Expressions and statements -/

/-- Where an expression goes on, the next token binds more tightly. -/
theorem exists_continuation_of_not_bounded {minimum : Precedence} {cursor : Cursor}
    (unbounded : ¬ Bounded minimum.rank cursor.tokens) : ∃ next continuation,
      cursor.next? = some next ∧ Continuation.ofToken? next.value = some continuation ∧
        minimum.rank < continuation.precedence.rank := by
  simp only [Bounded, Classical.not_forall, Nat.not_le] at unbounded
  obtain ⟨token, continuation, head, continues, tighter⟩ := unbounded
  obtain ⟨rest, shape⟩ := List.head?_eq_some_iff.mp head
  obtain ⟨next, found, rfl, _⟩ := Cursor.exists_next? shape
  exact ⟨next, continuation, found, continues, tighter⟩

section Nested

variable {nested other : Precedence → Reader Expr}
  (nestedTruncates : ∀ minimum, Truncates dropped (nested minimum) (other minimum))
  {start startShort : Cursor}

include nestedTruncates

theorem boundClause_truncates (begun : Span) :
    Truncates dropped (boundClause nested begun) (boundClause other begun) := by
  intro cursor short parsed cut read enough
  obtain ⟨name, readName, read⟩ := (except_bind_eq_ok_iff _ _ _).mp read
  obtain ⟨assign, readAssign, read⟩ := (except_bind_eq_ok_iff _ _ _).mp read
  obtain ⟨value, readValue, read⟩ := (except_bind_eq_ok_iff _ _ _).mp read
  cases read
  have enoughAssign := Nat.le_trans enough (Nat.le_of_lt value.shorter)
  have enoughName := Nat.le_trans enoughAssign (Nat.le_of_lt assign.shorter)
  refine (identifier_truncates cut readName enoughName).bind fun _ sameName cutName => ?_
  refine (symbol_truncates .assign cutName readAssign enoughAssign).bind
    fun _ _ cutAssign => ?_
  refine (nestedTruncates .lowest cutAssign readValue enough).bind
    fun _ sameValue cutValue => ?_
  refine ⟨_, rfl, ?_, cutValue⟩
  change Stmt.binding _ _ _ = Stmt.binding _ _ _
  rw [sameName, sameValue, cutValue.previous]

theorem clause_truncates : Truncates dropped (clause nested) (clause other) := by
  intro cursor short parsed cut read enough
  have begun := cut.span (Nat.lt_of_le_of_lt enough parsed.shorter)
  unfold clause at read ⊢
  cases found : cursor.accept? (.keyword .letWord) with
  | some word =>
      rw [found] at read
      obtain ⟨bound, readBound, same⟩ := (except_bind_eq_ok_iff _ _ _).mp read
      cases same
      have enoughWord := Nat.le_trans enough (Nat.le_of_lt bound.shorter)
      obtain ⟨wordAgain, foundAgain, cutWord⟩ := cut.accept? found enoughWord
      rw [foundAgain, begun]
      refine (boundClause_truncates nestedTruncates _ cutWord readBound enough).bind
        fun _ sameBound cutBound => ?_
      exact ⟨_, rfl, sameBound, cutBound⟩
  | none =>
      rw [found] at read
      obtain ⟨value, readValue, same⟩ := (except_bind_eq_ok_iff _ _ _).mp read
      cases same
      rw [cut.accept?_eq_none found, begun]
      refine (nestedTruncates .lowest cut readValue enough).bind
        fun _ sameValue cutValue => ?_
      refine ⟨_, rfl, ?_, cutValue⟩
      change Stmt.expression _ _ = Stmt.expression _ _
      rw [sameValue, cutValue.previous]

theorem statement_truncates : Truncates dropped (statement nested) (statement other) := by
  intro cursor short parsed cut read enough
  obtain ⟨bare, readBare, rfl⟩ := exists_clause read
  have reached : bare.after.LeadsTo (optionalSemicolon bare).after :=
    optionalSemicolon_moves .here
  obtain ⟨again, readAgain, same, cutBare⟩ :=
    clause_truncates nestedTruncates cut readBare
      (Nat.le_trans enough reached.length_le)
  rw [statement_eq, readAgain]
  exact optionalSemicolon_truncates same cutBare enough

theorem unaryOperand_truncates (operator : UnaryOperator) :
    Truncates dropped (unaryOperand nested operator) (unaryOperand other operator) := by
  intro cursor short parsed cut read enough
  obtain ⟨operand, readOperand, ended⟩ := (except_bind_eq_ok_iff _ _ _).mp read
  cases ended
  refine (nestedTruncates .unary cut readOperand enough).bind fun _ same cutOperand => ?_
  exact ⟨_, rfl, congrArg (Expr.unary operator) same, cutOperand⟩

theorem group_truncates : Truncates dropped (group nested) (group other) := by
  intro cursor short parsed cut read enough
  obtain ⟨inner, readInner, read⟩ := (except_bind_eq_ok_iff _ _ _).mp read
  obtain ⟨closed, readClosed, ended⟩ := (except_bind_eq_ok_iff _ _ _).mp read
  cases ended
  have enoughInner := Nat.le_trans enough (Nat.le_of_lt closed.shorter)
  refine (nestedTruncates .lowest cut readInner enoughInner).bind fun _ same cutInner => ?_
  refine (symbol_truncates .closeParen cutInner readClosed enough).bind
    fun _ _ cutClosed => ?_
  exact ⟨_, rfl, same, cutClosed⟩

variable (nestedMoves : ∀ minimum, Moves (nested minimum))

include nestedMoves

theorem itemsTail_truncates {closing : Symbol} {before : Parsed (Array Expr) start}
    {again : Parsed (Array Expr) startShort} {parsed : Parsed (List Expr) start}
    (same : again.value = before.value) (cut : before.after.Cut dropped again.after)
    (read : itemsTail nested closing before = .ok parsed)
    (enough : dropped.length ≤ parsed.after.rest.length) :
    Repeats dropped parsed (itemsTail other closing again) := by
  induction length : before.after.rest.length using Nat.strongRecOn
    generalizing before again with
  | _ _ inductionHypothesis =>
      subst length
      rw [itemsTail] at read ⊢
      cases found : before.after.accept? (.symbol .comma) with
      | some comma =>
          rw [found] at read
          obtain ⟨item, readItem, read⟩ := (except_bind_eq_ok_iff _ _ _).mp read
          have reached : item.after.LeadsTo parsed.after :=
            (itemsTail_moves nestedMoves closing .here).of_ok read
          have enoughItem := Nat.le_trans enough reached.length_le
          have enoughComma := Nat.le_trans enoughItem (Nat.le_of_lt item.shorter)
          obtain ⟨commaAgain, foundAgain, cutComma⟩ := cut.accept? found enoughComma
          rw [foundAgain]
          refine (nestedTruncates .lowest cutComma readItem enoughItem).bind
            fun itemAgain sameItem cutItem => ?_
          refine inductionHypothesis _ (Nat.lt_trans item.shorter comma.shorter) ?_ cutItem
            read rfl
          rw [same, sameItem]
      | none =>
          rw [found] at read
          obtain ⟨closed, readClosed, ended⟩ := (except_bind_eq_ok_iff _ _ _).mp read
          cases ended
          rw [cut.accept?_eq_none found]
          refine (symbol_truncates closing cut readClosed enough).bind
            fun closedAgain _ cutClosed => ?_
          exact ⟨_, rfl, congrArg Array.toList same, cutClosed⟩

theorem items_truncates (closing : Symbol) :
    Truncates dropped (items nested closing) (items other closing) := by
  intro cursor short parsed cut read enough
  unfold items at read ⊢
  cases found : cursor.accept? (.symbol closing) with
  | some closed =>
      rw [found] at read
      cases read
      obtain ⟨closedAgain, foundAgain, cutClosed⟩ := cut.accept? found enough
      rw [foundAgain]
      exact ⟨_, rfl, rfl, cutClosed⟩
  | none =>
      rw [found] at read
      obtain ⟨first, readFirst, read⟩ := (except_bind_eq_ok_iff _ _ _).mp read
      have reached : first.after.LeadsTo parsed.after :=
        (itemsTail_moves nestedMoves closing .here).of_ok read
      rw [cut.accept?_eq_none found]
      refine (nestedTruncates .lowest cut readFirst
        (Nat.le_trans enough reached.length_le)).bind fun firstAgain same cutFirst => ?_
      refine itemsTail_truncates nestedTruncates nestedMoves ?_ cutFirst read enough
      exact congrArg (#[·]) same

theorem blockTail_truncates {before : Parsed (Array Stmt) start}
    {again : Parsed (Array Stmt) startShort} {parsed : Parsed (List Stmt) start}
    (same : again.value = before.value) (cut : before.after.Cut dropped again.after)
    (read : blockTail nested before = .ok parsed)
    (enough : dropped.length ≤ parsed.after.rest.length) :
    Repeats dropped parsed (blockTail other again) := by
  induction length : before.after.rest.length using Nat.strongRecOn
    generalizing before again with
  | _ _ inductionHypothesis =>
      subst length
      rw [blockTail] at read ⊢
      split at read
      · next ends =>
          obtain ⟨closed, readClosed, ended⟩ := (except_bind_eq_ok_iff _ _ _).mp read
          cases ended
          have repeated := symbol_truncates .closeBrace cut readClosed enough
          obtain ⟨closedAgain, readAgain, _, cutClosed⟩ := repeated
          have atBrace := tokens_of_symbol readAgain
          rw [if_pos (Or.inr (by rw [Cursor.token?_eq_head?, atBrace]; rfl)), readAgain]
          exact ⟨_, rfl, congrArg Array.toList same, cutClosed⟩
      · next goesOn =>
          obtain ⟨stmt, readStmt, read⟩ := (except_bind_eq_ok_iff _ _ _).mp read
          have reached : stmt.after.LeadsTo parsed.after :=
            (blockTail_moves nestedMoves .here).of_ok read
          have enoughStmt := Nat.le_trans enough reached.length_le
          have repeated := statement_truncates nestedTruncates cut readStmt enoughStmt
          have goesOnAgain : ¬ (again.after.rest.isEmpty ∨
              again.after.token? = some (.symbol .closeBrace)) := by
            obtain ⟨stmtAgain, _, _, _⟩ := repeated
            have nonempty := List.ne_nil_of_length_pos (Nat.zero_lt_of_lt stmtAgain.shorter)
            rintro (ended | brace)
            · exact nonempty (List.isEmpty_iff.mp ended)
            · rw [Cursor.token?_eq_head?] at brace goesOn
              rcases cut.head? with ended | sameHead
              · exact nonempty (List.map_eq_nil_iff.mp ended)
              · exact goesOn (Or.inr (sameHead.symm.trans brace))
          rw [if_neg goesOnAgain]
          refine repeated.bind fun stmtAgain sameStmt cutStmt => ?_
          refine inductionHypothesis _ stmt.shorter ?_ cutStmt read rfl
          rw [same, sameStmt]

theorem block_truncates : Truncates dropped (block nested) (block other) := by
  intro cursor short parsed cut read enough
  obtain ⟨opened, readOpened, read⟩ := (except_bind_eq_ok_iff _ _ _).mp read
  have reached : opened.after.LeadsTo parsed.after :=
    (blockTail_moves nestedMoves .here).of_ok read
  refine (symbol_truncates .openBrace cut readOpened
    (Nat.le_trans enough reached.length_le)).bind fun _ _ cutOpened => ?_
  exact blockTail_truncates nestedTruncates nestedMoves rfl cutOpened read enough

theorem alternative_truncates {condition conditionAgain : Expr}
    (sameCondition : conditionAgain = condition) {consequence : Parsed (List Stmt) start}
    {again : Parsed (List Stmt) startShort} {parsed : Parsed Expr start}
    (same : again.value = consequence.value) (cut : consequence.after.Cut dropped again.after)
    (read : alternative nested condition consequence = .ok parsed)
    (enough : dropped.length ≤ parsed.after.rest.length) :
    Repeats dropped parsed (alternative other conditionAgain again) := by
  unfold alternative at read ⊢
  cases found : consequence.after.accept? (.keyword .elseWord) with
  | some word =>
      rw [found] at read
      obtain ⟨branch, readBranch, ended⟩ := (except_bind_eq_ok_iff _ _ _).mp read
      cases ended
      obtain ⟨wordAgain, foundAgain, cutWord⟩ :=
        cut.accept? found (Nat.le_trans enough (Nat.le_of_lt branch.shorter))
      rw [foundAgain]
      refine (block_truncates nestedTruncates nestedMoves cutWord readBranch enough).bind
        fun _ sameBranch cutBranch => ?_
      refine ⟨_, rfl, ?_, cutBranch⟩
      change Expr.conditional _ _ _ = Expr.conditional _ _ _
      rw [sameCondition, same, sameBranch]
  | none =>
      rw [found] at read
      cases read
      rw [cut.accept?_eq_none found]
      refine ⟨_, rfl, ?_, cut⟩
      change Expr.conditional _ _ _ = Expr.conditional _ _ _
      rw [sameCondition, same]

theorem conditional_truncates : Truncates dropped (conditional nested) (conditional other) := by
  intro cursor short parsed cut read enough
  obtain ⟨opened, readOpened, read⟩ := (except_bind_eq_ok_iff _ _ _).mp read
  obtain ⟨condition, readCondition, read⟩ := (except_bind_eq_ok_iff _ _ _).mp read
  obtain ⟨closed, readClosed, read⟩ := (except_bind_eq_ok_iff _ _ _).mp read
  obtain ⟨consequence, readConsequence, read⟩ := (except_bind_eq_ok_iff _ _ _).mp read
  have reached : consequence.after.LeadsTo parsed.after :=
    (alternative_moves nestedMoves _ .here).of_ok read
  have enoughConsequence := Nat.le_trans enough reached.length_le
  have enoughClosed := Nat.le_trans enoughConsequence (Nat.le_of_lt consequence.shorter)
  have enoughCondition := Nat.le_trans enoughClosed (Nat.le_of_lt closed.shorter)
  have enoughOpened := Nat.le_trans enoughCondition (Nat.le_of_lt condition.shorter)
  refine (symbol_truncates .openParen cut readOpened enoughOpened).bind
    fun _ _ cutOpened => ?_
  refine (nestedTruncates .lowest cutOpened readCondition enoughCondition).bind
    fun _ sameCondition cutCondition => ?_
  refine (symbol_truncates .closeParen cutCondition readClosed enoughClosed).bind
    fun _ _ cutClosed => ?_
  refine (block_truncates nestedTruncates nestedMoves cutClosed readConsequence
    enoughConsequence).bind fun _ sameConsequence cutConsequence => ?_
  refine alternative_truncates nestedTruncates nestedMoves sameCondition ?_ cutConsequence
    read enough
  exact sameConsequence

theorem operand_truncates : Truncates dropped (operand nested) (operand other) := by
  intro cursor short parsed cut read enough
  rw [operand] at read ⊢
  cases found : cursor.next? with
  | none =>
      rw [found] at read
      cases read
  | some next =>
      obtain ⟨lexeme, shape, _, _⟩ := Cursor.exists_lexeme_of_next? found
      have enoughNext : dropped.length ≤ next.after.rest.length := by
        have shorter := parsed.shorter
        rw [shape] at shorter
        exact Nat.le_trans enough (Nat.le_of_lt_succ shorter)
      obtain ⟨nextAgain, foundAgain, value, cutNext⟩ := cut.next? found enoughNext
      rw [found] at read
      rw [foundAgain]
      dsimp only at read ⊢
      rw [value]
      generalize next.value = token at read
      cases token with
      | integer value =>
          cases read
          exact ⟨_, rfl, rfl, cutNext⟩
      | string content =>
          cases read
          exact ⟨_, rfl, rfl, cutNext⟩
      | identifier name =>
          cases read
          exact ⟨_, rfl, rfl, cutNext⟩
      | keyword word =>
          cases word with
          | trueWord | falseWord =>
              cases read
              exact ⟨_, rfl, rfl, cutNext⟩
          | ifWord =>
              obtain ⟨whole, readWhole, ended⟩ := (except_bind_eq_ok_iff _ _ _).mp read
              cases ended
              refine (conditional_truncates nestedTruncates nestedMoves cutNext readWhole
                enough).bind fun _ same cutWhole => ?_
              exact ⟨_, rfl, same, cutWhole⟩
          | _ => cases read
      | symbol mark =>
          cases mark with
          | bang | minus =>
              obtain ⟨whole, readWhole, ended⟩ := (except_bind_eq_ok_iff _ _ _).mp read
              cases ended
              refine (unaryOperand_truncates nestedTruncates _ cutNext readWhole enough).bind
                fun _ same cutWhole => ?_
              exact ⟨_, rfl, same, cutWhole⟩
          | openParen =>
              obtain ⟨whole, readWhole, ended⟩ := (except_bind_eq_ok_iff _ _ _).mp read
              cases ended
              refine (group_truncates nestedTruncates cutNext readWhole enough).bind
                fun _ same cutWhole => ?_
              exact ⟨_, rfl, same, cutWhole⟩
          | openBracket =>
              obtain ⟨whole, readWhole, ended⟩ := (except_bind_eq_ok_iff _ _ _).mp read
              cases ended
              refine (items_truncates nestedTruncates nestedMoves .closeBracket cutNext
                readWhole enough).bind fun _ same cutWhole => ?_
              exact ⟨_, rfl, congrArg Expr.array same, cutWhole⟩
          | _ => cases read

theorem continuationBody_truncates {left leftAgain : Expr} (sameLeft : leftAgain = left)
    (continuation : Continuation) :
    Truncates dropped (continuationBody nested left continuation)
      (continuationBody other leftAgain continuation) := by
  intro cursor short parsed cut read enough
  subst sameLeft
  cases continuation with
  | arguments =>
      obtain ⟨list, readList, ended⟩ := (except_bind_eq_ok_iff _ _ _).mp read
      cases ended
      refine (items_truncates nestedTruncates nestedMoves .closeParen cut readList enough).bind
        fun _ same cutList => ?_
      exact ⟨_, rfl, congrArg (Expr.call leftAgain) same, cutList⟩
  | position =>
      obtain ⟨position, readPosition, read⟩ := (except_bind_eq_ok_iff _ _ _).mp read
      obtain ⟨closed, readClosed, ended⟩ := (except_bind_eq_ok_iff _ _ _).mp read
      cases ended
      have enoughPosition := Nat.le_trans enough (Nat.le_of_lt closed.shorter)
      refine (nestedTruncates .lowest cut readPosition enoughPosition).bind
        fun _ same cutPosition => ?_
      refine (symbol_truncates .closeBracket cutPosition readClosed enough).bind
        fun _ _ cutClosed => ?_
      exact ⟨_, rfl, congrArg (Expr.index leftAgain) same, cutClosed⟩
  | operator op =>
      obtain ⟨right, readRight, ended⟩ := (except_bind_eq_ok_iff _ _ _).mp read
      cases ended
      refine (nestedTruncates op.precedence cut readRight enough).bind
        fun _ same cutRight => ?_
      exact ⟨_, rfl, congrArg (Expr.binary op leftAgain) same, cutRight⟩

theorem continuations_truncates {minimum : Precedence} {left parsed : Parsed Expr start}
    {again : Parsed Expr startShort} (same : again.value = left.value)
    (cut : left.after.Cut dropped again.after)
    (read : continuations nested minimum left = .ok parsed)
    (enough : dropped.length ≤ parsed.after.rest.length) :
    Repeats dropped parsed (continuations other minimum again) := by
  induction length : left.after.rest.length using Nat.strongRecOn
    generalizing left again with
  | _ _ inductionHypothesis =>
      subst length
      by_cases bounded : Bounded minimum.rank left.after.tokens
      · rw [continuations_stop bounded] at read
        cases read
        rw [continuations_stop (cut.bounded bounded)]
        exact ⟨_, rfl, same, cut⟩
      · obtain ⟨next, continuation, found, continues, tighter⟩ :=
          exists_continuation_of_not_bounded bounded
        rw [continuations] at read ⊢
        simp only [found, continues, if_pos tighter] at read
        obtain ⟨whole, readWhole, read⟩ := (except_bind_eq_ok_iff _ _ _).mp read
        have reached : whole.after.LeadsTo parsed.after :=
          (continuations_moves nestedMoves minimum .here).of_ok read
        have enoughWhole := Nat.le_trans enough reached.length_le
        have enoughNext := Nat.le_trans enoughWhole (Nat.le_of_lt whole.shorter)
        obtain ⟨nextAgain, foundAgain, value, cutNext⟩ := cut.next? found enoughNext
        simp only [foundAgain, value, continues, if_pos tighter]
        refine (continuationBody_truncates nestedTruncates nestedMoves same continuation cutNext
          readWhole enoughWhole).bind fun _ sameWhole cutWhole => ?_
        exact inductionHypothesis _ (Nat.lt_trans whole.shorter next.shorter) sameWhole
          cutWhole read rfl

end Nested

/-- What was read as an expression is read again when the lexemes behind it are missing,
and more levels are allowed. -/
theorem expression_truncates {levels more : Nat} (fewer : levels ≤ more)
    (minimum : Precedence) :
    Truncates dropped (expression levels minimum) (expression more minimum) := by
  induction levels generalizing more minimum with
  | zero =>
      intro cursor short parsed _ read _
      cases read
  | succ levels inductionHypothesis =>
      obtain ⟨more, rfl⟩ : ∃ remaining, more = remaining + 1 := ⟨more - 1, by omega⟩
      have nestedTruncates : ∀ minimum,
          Truncates dropped (expression levels minimum) (expression more minimum) :=
        inductionHypothesis (Nat.le_of_succ_le_succ fewer)
      have nestedMoves := expression_moves levels
      intro cursor short parsed cut read enough
      obtain ⟨left, readLeft, read⟩ := (except_bind_eq_ok_iff _ _ _).mp read
      have reached : left.after.LeadsTo parsed.after :=
        (continuations_moves nestedMoves minimum .here).of_ok read
      refine (operand_truncates nestedTruncates nestedMoves cut readLeft
        (Nat.le_trans enough reached.length_le)).bind fun _ same cutLeft => ?_
      exact continuations_truncates nestedTruncates nestedMoves same cutLeft read enough

end Reader

end ExprMachine
