import ExprMachine.Proofs.Parsing.Continuations
import ExprMachine.Proofs.Parsing.Tokens

/-!
# What derives from the grammar is read

Tokens that derive from the grammar are read to the value that the derivation
denotes, whatever comes after them, as long as the next token does not go on with
what they derive. The readers of nested expressions are assumed to do so.

The loop over operators is followed from the left: reading the tokens of an
expression takes the loop to the point where the expression is its left operand.
-/

namespace ExprMachine

namespace Reader

/-- The reader reads what derives and goes no further. -/
def Complete (nested : Precedence → Reader Expr)
    (Nested : Level → List Token → Phrase → Prop) : Prop :=
  ∀ {minimum : Precedence} {level : Level} {front rest : List Token} {phrase : Phrase}
    {cursor : Cursor}, Nested level front phrase → minimum.rank < level.floor →
    cursor.tokens = front ++ rest → Stops minimum.rank rest →
      ∃ parsed, nested minimum cursor = .ok parsed ∧
        parsed.value.withoutSpans = phrase.expr ∧ parsed.after.tokens = rest

variable {nested : Precedence → Reader Expr} {levels : Nat} {start cursor : Cursor}
  {tokens rest : List Token}

theorem Complete.lowest (complete : Complete nested (Derives levels)) {phrase : Phrase}
    (derived : Derives levels .equality tokens phrase)
    (shape : cursor.tokens = tokens ++ rest)
    (stops : Stops Precedence.lowest.rank rest) :
    ∃ parsed, nested .lowest cursor = .ok parsed ∧
      parsed.value.withoutSpans = phrase.expr ∧ parsed.after.tokens = rest :=
  complete derived (by decide) shape stops

/-! ## Lists -/

theorem itemsTail_complete (complete : Complete nested (Derives levels))
    {closing : Symbol} (closes : Closing closing) {phrases : List Phrase}
    (derived : MoreItems (Derives levels) tokens phrases)
    {before : Parsed (Array Expr) start}
    (shape : before.after.tokens = tokens ++ .symbol closing :: rest) :
    ∃ parsed, itemsTail nested closing before = .ok parsed ∧
      Expr.allWithoutSpans parsed.value =
        Expr.allWithoutSpans before.value.toList ++ Phrase.exprs phrases ∧
      parsed.after.tokens = rest := by
  induction derived generalizing before with
  | nil =>
      have noComma : before.after.accept? (.symbol .comma) = none := by
        rw [Cursor.accept?_eq_none_iff, shape]
        intro same
        cases same
        exact closes.ne_comma rfl
      obtain ⟨closed, closedRead, after⟩ := exists_symbol shape
      refine ⟨⟨before.value.toList, closed.after,
        Nat.lt_trans closed.shorter before.shorter⟩, ?_, (List.append_nil _).symm,
        after⟩
      rw [itemsTail]
      simp only [noComma, closedRead, bind, Except.bind]
  | cons itemDerived restDerived inductionHypothesis =>
      rw [List.cons_append, List.append_assoc] at shape
      obtain ⟨comma, found, commaAfter⟩ := Cursor.exists_accept? shape
      obtain ⟨item, itemRead, itemSame, itemAfter⟩ := complete.lowest itemDerived
        commaAfter (restDerived.stops closes)
      have following : (Parsed.mk (before.value.push item.value) item.after
          (Nat.lt_trans item.shorter (Nat.lt_trans comma.shorter before.shorter)) :
            Parsed (Array Expr) start).after.tokens = _ := itemAfter
      obtain ⟨parsed, read, same, after⟩ := inductionHypothesis following
      refine ⟨parsed, ?_, ?_, after⟩
      · rw [itemsTail]
        simp only [found, itemRead, bind, Except.bind]
        exact read
      · rw [same, Array.toList_push, Expr.allWithoutSpans_append, List.append_assoc,
          Phrase.exprs, ← itemSame]
        rfl

theorem items_complete (complete : Complete nested (Derives levels))
    {closing : Symbol} (closes : Closing closing) {phrases : List Phrase}
    (derived : Items (Derives levels) tokens phrases)
    (shape : cursor.tokens = tokens ++ .symbol closing :: rest) :
    ∃ parsed, items nested closing cursor = .ok parsed ∧
      Expr.allWithoutSpans parsed.value = Phrase.exprs phrases ∧
      parsed.after.tokens = rest := by
  cases derived with
  | nil =>
      obtain ⟨closed, found, after⟩ := Cursor.exists_accept? shape
      refine ⟨closed.map fun _ => [], ?_, rfl, after⟩
      rw [items, found]
  | cons itemDerived restDerived =>
      rw [List.append_assoc] at shape
      have notClosed : cursor.accept? (.symbol closing) = none := by
        obtain ⟨first, more, rfl, starts⟩ := itemDerived.exists_head
        rw [Cursor.accept?_eq_none_iff, shape]
        intro same
        cases same
        exact closes.not_startsExpr starts
      obtain ⟨first, firstRead, firstSame, firstAfter⟩ := complete.lowest itemDerived
        shape (restDerived.stops closes)
      have following : (first.map fun item => #[item]).after.tokens = _ := firstAfter
      obtain ⟨parsed, read, same, after⟩ :=
        itemsTail_complete complete closes restDerived following
      refine ⟨parsed, ?_, ?_, after⟩
      · rw [items, notClosed]
        simp only [firstRead, bind, Except.bind]
        exact read
      · rw [same, Phrase.exprs, ← firstSame]
        rfl

/-! ## Statements -/

theorem optionalSemicolon_complete {terminated : Bool} {stmt : Parsed Stmt start}
    (shape : stmt.after.tokens = Sentence.ending terminated ++ rest)
    (missing : terminated = false → rest.head? ≠ some (.symbol .semicolon)) :
    (optionalSemicolon stmt).value = stmt.value ∧
      (optionalSemicolon stmt).after.tokens = rest := by
  cases terminated with
  | true =>
      obtain ⟨mark, found, after⟩ := Cursor.exists_accept? shape
      rw [optionalSemicolon, found]
      exact ⟨rfl, after⟩
  | false =>
      have noMark : stmt.after.accept? (.symbol .semicolon) = none := by
        rw [Cursor.accept?_eq_none_iff, shape]
        exact missing rfl
      rw [optionalSemicolon, noMark]
      exact ⟨rfl, shape⟩

theorem expressionStatement_complete (complete : Complete nested (Derives levels))
    {value : List Token} {phrase : Phrase} {terminated : Bool}
    (derived : Derives levels .equality value phrase)
    (shape : cursor.tokens = value ++ (Sentence.ending terminated ++ rest))
    (stops : terminated = false → Stops Precedence.lowest.rank rest ∧
      rest.head? ≠ some (.symbol .semicolon)) :
    ∃ parsed, expressionStatement nested cursor = .ok parsed ∧
      parsed.value.withoutSpans = .expression phrase.expr .unknown ∧
      parsed.after.tokens = rest := by
  have valueStops := stops_of_ending fun missing => (stops missing).1
  obtain ⟨read, valueRead, same, after⟩ := complete.lowest derived shape valueStops
  have following : (read.map fun expr => Stmt.expression expr
      (cursor.span.merge read.after.previous)).after.tokens = _ := after
  obtain ⟨valueSame, restShape⟩ :=
    optionalSemicolon_complete following fun missing => (stops missing).2
  refine ⟨_, ?_, ?_, restShape⟩
  · simp only [expressionStatement, valueRead, bind, Except.bind]
  · rw [valueSame]
    exact congrArg (Stmt.expression · .unknown) same

theorem binding_complete (complete : Complete nested (Derives levels)) (begun : Span)
    {name : String} {value : List Token} {phrase : Phrase} {terminated : Bool}
    (derived : Derives levels .equality value phrase)
    (shape : cursor.tokens = .identifier name :: .symbol .assign ::
      (value ++ (Sentence.ending terminated ++ rest)))
    (stops : terminated = false → Stops Precedence.lowest.rank rest ∧
      rest.head? ≠ some (.symbol .semicolon)) :
    ∃ parsed, binding nested begun cursor = .ok parsed ∧
      parsed.value.withoutSpans = .binding name phrase.expr .unknown ∧
      parsed.after.tokens = rest := by
  have valueStops := stops_of_ending fun missing => (stops missing).1
  obtain ⟨identifier, nameRead, rfl, nameAfter⟩ := exists_identifier shape
  obtain ⟨assign, assignRead, assignAfter⟩ := exists_symbol nameAfter
  obtain ⟨read, valueRead, same, after⟩ :=
    complete.lowest derived assignAfter valueStops
  have following : (((read.map fun expr => Stmt.binding identifier.value expr
      (begun.merge read.after.previous)).since assign.shorter).since
        identifier.shorter).after.tokens = _ := after
  obtain ⟨valueSame, restShape⟩ :=
    optionalSemicolon_complete following fun missing => (stops missing).2
  refine ⟨_, ?_, ?_, restShape⟩
  · simp only [binding, nameRead, assignRead, valueRead, bind, Except.bind]
  · rw [valueSame]
    exact congrArg (Stmt.binding identifier.value · .unknown) same

theorem statement_complete (complete : Complete nested (Derives levels))
    {name : Option String} {value : List Token} {phrase : Phrase} {terminated : Bool}
    (derived : Derives levels .equality value phrase)
    (shape : cursor.tokens =
      Sentence.opening name ++ (value ++ (Sentence.ending terminated ++ rest)))
    (stops : terminated = false → Stops Precedence.lowest.rank rest ∧
      rest.head? ≠ some (.symbol .semicolon)) :
    ∃ parsed, statement nested cursor = .ok parsed ∧
      parsed.value.withoutSpans = (Sentence.mk name phrase terminated).stmt ∧
      parsed.after.tokens = rest := by
  cases name with
  | none =>
      have noLet : cursor.accept? (.keyword .letWord) = none := by
        obtain ⟨first, more, rfl, starts⟩ := derived.exists_head
        rw [Cursor.accept?_eq_none_iff, shape]
        rintro ⟨⟩
        rcases starts with impossible | impossible | impossible <;> cases impossible
      rw [statement, noLet]
      exact expressionStatement_complete complete derived shape stops
  | some name =>
      obtain ⟨word, found, wordAfter⟩ := Cursor.exists_accept? shape
      obtain ⟨parsed, read, same, after⟩ :=
        binding_complete complete cursor.span derived wordAfter stops
      refine ⟨parsed.since word.shorter, ?_, same, after⟩
      rw [statement, found]
      simp only [read, bind, Except.bind, pure, Except.pure]

/-! ## Blocks and conditionals -/

theorem blockTail_complete (complete : Complete nested (Derives levels))
    {sentences : List Sentence}
    (derived : Sentences (Derives levels) tokens sentences)
    {before : Parsed (Array Stmt) start}
    (shape : before.after.tokens = tokens ++ .symbol .closeBrace :: rest) :
    ∃ parsed, blockTail nested before = .ok parsed ∧
      Stmt.allWithoutSpans parsed.value =
        Stmt.allWithoutSpans before.value.toList ++ Sentence.stmts sentences ∧
      parsed.after.tokens = rest := by
  induction derived generalizing before with
  | nil =>
      have ended : before.after.token? = some (.symbol .closeBrace) := by
        rw [Cursor.token?_eq_head?, shape]
        rfl
      obtain ⟨closed, closedRead, after⟩ := exists_symbol shape
      refine ⟨⟨before.value.toList, closed.after,
        Nat.lt_trans closed.shorter before.shorter⟩, ?_, (List.append_nil _).symm,
        after⟩
      rw [blockTail, if_pos (Or.inr ended)]
      simp only [closedRead, bind, Except.bind]
  | cons valueDerived restDerived noResumption inductionHypothesis =>
      have ends : EndsSentences (.symbol .closeBrace :: rest) := Or.inr rfl
      simp only [List.append_assoc] at shape
      obtain ⟨first, more, head, starts⟩ := valueDerived.exists_head_opening _ _
      have goesOn : ¬ (before.after.rest.isEmpty ∨
          before.after.token? = some (.symbol .closeBrace)) := by
        rw [Cursor.isEmpty_rest, Cursor.token?_eq_head?, shape, head]
        rintro (impossible | same)
        · cases impossible
        · exact starts.ne_closeBrace (Option.some.inj same)
      obtain ⟨stmt, stmtRead, stmtSame, stmtAfter⟩ :=
        statement_complete complete valueDerived shape
          fun missing => restDerived.stops (noResumption missing) ends
      have following : (Parsed.mk (before.value.push stmt.value) stmt.after
          (Nat.lt_trans stmt.shorter before.shorter) :
            Parsed (Array Stmt) start).after.tokens = _ := stmtAfter
      obtain ⟨parsed, read, same, after⟩ := inductionHypothesis following
      refine ⟨parsed, ?_, ?_, after⟩
      · rw [blockTail, if_neg goesOn]
        simp only [stmtRead, bind, Except.bind]
        exact read
      · rw [same, Array.toList_push, Stmt.allWithoutSpans_append, List.append_assoc,
          Sentence.stmts, ← stmtSame]
        rfl

theorem block_complete (complete : Complete nested (Derives levels))
    {sentences : List Sentence}
    (derived : Sentences (Derives levels) tokens sentences)
    (shape : cursor.tokens =
      .symbol .openBrace :: (tokens ++ .symbol .closeBrace :: rest)) :
    ∃ parsed, block nested cursor = .ok parsed ∧
      Stmt.allWithoutSpans parsed.value = Sentence.stmts sentences ∧
      parsed.after.tokens = rest := by
  obtain ⟨opened, openedRead, openedAfter⟩ := exists_symbol shape
  have following : (opened.map fun _ => (#[] : Array Stmt)).after.tokens = _ :=
    openedAfter
  obtain ⟨parsed, read, same, after⟩ := blockTail_complete complete derived following
  refine ⟨parsed, ?_, same, after⟩
  simp only [block, openedRead, bind, Except.bind]
  exact read

theorem alternative_complete (complete : Complete nested (Derives levels))
    {other : List Token} {sentences? : Option (List Sentence)}
    (derived : OtherBranch (Derives levels) other sentences?) {condition : Expr}
    {phrase : Phrase} (conditionSame : condition.withoutSpans = phrase.expr)
    (consequence : Parsed (List Stmt) start) {sentences : List Sentence}
    (same : Stmt.allWithoutSpans consequence.value = Sentence.stmts sentences)
    (shape : consequence.after.tokens = other ++ rest)
    (noElse : rest.head? ≠ some (.keyword .elseWord)) :
    ∃ parsed, alternative nested condition consequence = .ok parsed ∧
      parsed.value.withoutSpans =
        (Phrase.conditional phrase sentences sentences?).expr ∧
      parsed.after.tokens = rest := by
  cases derived with
  | none =>
      have noWord : consequence.after.accept? (.keyword .elseWord) = none := by
        rw [Cursor.accept?_eq_none_iff, shape]
        exact noElse
      refine ⟨consequence.map fun stmts => .conditional condition stmts none, ?_, ?_,
        shape⟩
      · rw [alternative, noWord]
      · rw [Phrase.expr, ← conditionSame, ← same]
        rfl
  | some branchDerived =>
      rw [List.cons_append, List.cons_append, List.append_assoc] at shape
      obtain ⟨word, found, wordAfter⟩ := Cursor.exists_accept? shape
      obtain ⟨branch, branchRead, branchSame, branchAfter⟩ :=
        block_complete complete branchDerived wordAfter
      refine ⟨⟨.conditional condition consequence.value (some branch.value),
        branch.after, Nat.lt_trans branch.shorter
          (Nat.lt_trans word.shorter consequence.shorter)⟩, ?_, ?_, branchAfter⟩
      · rw [alternative, found]
        simp only [branchRead, bind, Except.bind]
      · rw [Phrase.expr, ← conditionSame, ← same, ← branchSame]
        rfl

theorem conditional_complete (complete : Complete nested (Derives levels))
    {condition consequence other : List Token} {phrase : Phrase}
    {sentences : List Sentence} {sentences? : Option (List Sentence)}
    (conditionDerived : Derives levels .equality condition phrase)
    (derived : Sentences (Derives levels) consequence sentences)
    (otherDerived : OtherBranch (Derives levels) other sentences?)
    (shape : cursor.tokens = .symbol .openParen :: (condition ++
      .symbol .closeParen :: .symbol .openBrace ::
        (consequence ++ .symbol .closeBrace :: (other ++ rest))))
    (noElse : rest.head? ≠ some (.keyword .elseWord)) :
    ∃ parsed, conditional nested cursor = .ok parsed ∧
      parsed.value.withoutSpans =
        (Phrase.conditional phrase sentences sentences?).expr ∧
      parsed.after.tokens = rest := by
  obtain ⟨opened, openedRead, openedAfter⟩ := exists_symbol shape
  obtain ⟨read, conditionRead, conditionSame, conditionAfter⟩ :=
    complete.lowest conditionDerived openedAfter (.of_none rfl _)
  obtain ⟨closed, closedRead, closedAfter⟩ := exists_symbol conditionAfter
  obtain ⟨branch, branchRead, branchSame, branchAfter⟩ :=
    block_complete complete derived closedAfter
  obtain ⟨parsed, parsedRead, same, after⟩ := alternative_complete complete otherDerived
    conditionSame
    (((branch.since closed.shorter).since read.shorter).since opened.shorter)
    branchSame branchAfter noElse
  refine ⟨parsed, ?_, same, after⟩
  simp only [conditional, openedRead, conditionRead, closedRead, branchRead, bind,
    Except.bind]
  exact parsedRead

/-! ## Expressions -/

/-- The loop ends where the next token does not bind tightly enough. -/
theorem continuations_stop {minimum : Precedence} {left : Parsed Expr start}
    (bounded : Bounded minimum.rank left.after.tokens) :
    continuations nested minimum left = .ok left := by
  rw [continuations]
  split
  · next next found =>
      have head : left.after.tokens.head? = some next.value := by
        rw [Cursor.tokens_of_next? found]
        rfl
      split
      · next continuation continues =>
          rw [if_neg (Nat.not_lt_of_le (bounded _ _ head continues))]
      · rfl
  · rfl

theorem unaryOperand_complete (complete : Complete nested (Derives levels))
    (operator : UnaryOperator) {phrase : Phrase}
    (derived : Derives levels .unary tokens phrase)
    (shape : cursor.tokens = tokens ++ rest)
    (stops : Stops Precedence.unary.rank rest) :
    ∃ parsed, unaryOperand nested operator cursor = .ok parsed ∧
      parsed.value.withoutSpans = (Phrase.unary operator phrase).expr ∧
      parsed.after.tokens = rest := by
  obtain ⟨operand, read, same, after⟩ := complete derived (by decide) shape stops
  refine ⟨operand.map fun operand => .unary operator operand, ?_, ?_, after⟩
  · simp only [unaryOperand, read, bind, Except.bind]
  · exact congrArg (Expr.unary operator) same

theorem group_complete (complete : Complete nested (Derives levels)) {phrase : Phrase}
    (derived : Derives levels .equality tokens phrase)
    (shape : cursor.tokens = tokens ++ .symbol .closeParen :: rest) :
    ∃ parsed, group nested cursor = .ok parsed ∧
      parsed.value.withoutSpans = (Phrase.group phrase).expr ∧
      parsed.after.tokens = rest := by
  obtain ⟨inner, read, same, innerAfter⟩ :=
    complete.lowest derived shape (.of_none rfl _)
  obtain ⟨closed, closedRead, after⟩ := exists_symbol innerAfter
  refine ⟨(closed.map fun _ => inner.value).since inner.shorter, ?_, same, after⟩
  simp only [group, read, closedRead, bind, Except.bind]

theorem position_complete (complete : Complete nested (Derives levels))
    {phrase : Phrase} (derived : Derives levels .equality tokens phrase) {left : Expr}
    {leftPhrase : Phrase} (leftSame : left.withoutSpans = leftPhrase.expr)
    (shape : cursor.tokens = tokens ++ .symbol .closeBracket :: rest) :
    ∃ parsed, continuationBody nested left .position cursor = .ok parsed ∧
      parsed.value.withoutSpans = (Phrase.index leftPhrase phrase).expr ∧
      parsed.after.tokens = rest := by
  obtain ⟨position, read, same, positionAfter⟩ :=
    complete.lowest derived shape (.of_none rfl _)
  obtain ⟨closed, closedRead, after⟩ := exists_symbol positionAfter
  refine ⟨(closed.map fun _ => .index left position.value).since position.shorter, ?_,
    ?_, after⟩
  · simp only [continuationBody, read, closedRead, bind, Except.bind]
  · rw [Phrase.expr, ← leftSame, ← same]
    rfl

theorem arguments_complete (complete : Complete nested (Derives levels))
    {phrases : List Phrase} (derived : Items (Derives levels) tokens phrases)
    {left : Expr} {leftPhrase : Phrase} (leftSame : left.withoutSpans = leftPhrase.expr)
    (shape : cursor.tokens = tokens ++ .symbol .closeParen :: rest) :
    ∃ parsed, continuationBody nested left .arguments cursor = .ok parsed ∧
      parsed.value.withoutSpans = (Phrase.call leftPhrase phrases).expr ∧
      parsed.after.tokens = rest := by
  obtain ⟨list, read, same, after⟩ :=
    items_complete complete (Or.inl rfl) derived shape
  refine ⟨list.map fun arguments => .call left arguments, ?_, ?_, after⟩
  · simp only [continuationBody, read, bind, Except.bind]
  · rw [Phrase.expr, ← leftSame, ← same]
    rfl

theorem operator_complete (complete : Complete nested (Derives levels))
    (op : BinaryOperator) {phrase : Phrase}
    (derived : Derives levels op.level.next tokens phrase) {left : Expr}
    {leftPhrase : Phrase} (leftSame : left.withoutSpans = leftPhrase.expr)
    (shape : cursor.tokens = tokens ++ rest) (stops : Stops op.precedence.rank rest) :
    ∃ parsed, continuationBody nested left (.operator op) cursor = .ok parsed ∧
      parsed.value.withoutSpans = (Phrase.binary op leftPhrase phrase).expr ∧
      parsed.after.tokens = rest := by
  obtain ⟨right, read, same, after⟩ := complete derived op.rank_lt_floor shape stops
  refine ⟨right.map fun right => .binary op left right, ?_, ?_, after⟩
  · simp only [continuationBody, read, bind, Except.bind]
  · rw [Phrase.expr, ← leftSame, ← same]
    rfl

theorem continuationBody_complete (complete : Complete nested (Derives levels))
    {leftPhrase whole : Phrase} {continuation : Continuation}
    (derived :
      ContinuationBody (Derives levels) leftPhrase continuation tokens whole rest)
    {left : Expr} (leftSame : left.withoutSpans = leftPhrase.expr)
    (shape : cursor.tokens = tokens) :
    ∃ parsed, continuationBody nested left continuation cursor = .ok parsed ∧
      parsed.value.withoutSpans = whole.expr ∧ parsed.after.tokens = rest := by
  cases derived with
  | arguments itemsDerived =>
      exact arguments_complete complete itemsDerived leftSame shape
  | position phraseDerived =>
      exact position_complete complete phraseDerived leftSame shape
  | operator op rightDerived stops =>
      exact operator_complete complete op rightDerived leftSame shape stops

theorem continuations_complete (complete : Complete nested (Derives levels))
    {minimum : Precedence} {leftPhrase whole : Phrase}
    (derived : Continuations (Derives levels) minimum leftPhrase tokens whole rest)
    {left : Parsed Expr start} (leftSame : left.value.withoutSpans = leftPhrase.expr)
    (shape : left.after.tokens = tokens) :
    ∃ parsed, continuations nested minimum left = .ok parsed ∧
      parsed.value.withoutSpans = whole.expr ∧ parsed.after.tokens = rest := by
  induction derived generalizing left with
  | stop bounded =>
      rw [← shape] at bounded
      exact ⟨left, continuations_stop bounded, leftSame, shape⟩
  | @step _ _ _ continuation _ _ _ tighter bodyDerived _ inductionHypothesis =>
      obtain ⟨next, found, token, after⟩ := Cursor.exists_next? shape
      obtain ⟨body, bodyRead, bodySame, bodyAfter⟩ :=
        continuationBody_complete complete bodyDerived leftSame after
      have shorter := Nat.lt_trans body.shorter (Nat.lt_trans next.shorter left.shorter)
      have following : (Parsed.mk body.value body.after shorter :
          Parsed Expr start).after.tokens = _ := bodyAfter
      obtain ⟨parsed, read, same, parsedAfter⟩ := inductionHypothesis bodySame following
      refine ⟨parsed, ?_, same, parsedAfter⟩
      rw [continuations]
      simp only [found, token, continuation.ofToken?_symbol, if_pos tighter, bodyRead,
        bind, Except.bind]
      exact read

theorem operand_unary_complete (complete : Complete nested (Derives levels))
    (operator : UnaryOperator) {phrase : Phrase}
    (derived : Derives levels .unary tokens phrase)
    (shape : cursor.tokens = .symbol operator.symbol :: (tokens ++ rest))
    (stops : Stops Precedence.unary.rank rest) :
    ∃ parsed, operand nested cursor = .ok parsed ∧
      parsed.value.withoutSpans = (Phrase.unary operator phrase).expr ∧
      parsed.after.tokens = rest := by
  obtain ⟨next, found, token, nextAfter⟩ := Cursor.exists_next? shape
  obtain ⟨parsed, read, same, after⟩ :=
    unaryOperand_complete complete operator derived nextAfter stops
  refine ⟨parsed.since next.shorter, ?_, same, after⟩
  rw [operand]
  cases operator with
  | not =>
      simp only [found, token, UnaryOperator.symbol, read, bind, Except.bind, pure,
        Except.pure]
  | negate =>
      simp only [found, token, UnaryOperator.symbol, read, bind, Except.bind, pure,
        Except.pure]

theorem operand_boolean_complete {value : Bool}
    (shape : cursor.tokens = .keyword (.ofBool value) :: rest) :
    ∃ parsed, operand nested cursor = .ok parsed ∧
      parsed.value.withoutSpans = (Phrase.boolean value).expr ∧
      parsed.after.tokens = rest := by
  obtain ⟨next, found, token, after⟩ := Cursor.exists_next? shape
  refine ⟨next.map fun _ => .boolean value, ?_, rfl, after⟩
  rw [operand]
  cases value with
  | true => simp only [found, token, Keyword.ofBool]
  | false => simp only [found, token, Keyword.ofBool]

theorem operand_group_complete (complete : Complete nested (Derives levels))
    {phrase : Phrase} (derived : Derives levels .equality tokens phrase)
    (shape : cursor.tokens =
      .symbol .openParen :: (tokens ++ .symbol .closeParen :: rest)) :
    ∃ parsed, operand nested cursor = .ok parsed ∧
      parsed.value.withoutSpans = (Phrase.group phrase).expr ∧
      parsed.after.tokens = rest := by
  obtain ⟨next, found, token, nextAfter⟩ := Cursor.exists_next? shape
  obtain ⟨parsed, read, same, after⟩ := group_complete complete derived nextAfter
  refine ⟨parsed.since next.shorter, ?_, same, after⟩
  rw [operand]
  simp only [found, token, read, bind, Except.bind, pure, Except.pure]

theorem operand_array_complete (complete : Complete nested (Derives levels))
    {phrases : List Phrase} (derived : Items (Derives levels) tokens phrases)
    (shape : cursor.tokens =
      .symbol .openBracket :: (tokens ++ .symbol .closeBracket :: rest)) :
    ∃ parsed, operand nested cursor = .ok parsed ∧
      parsed.value.withoutSpans = (Phrase.array phrases).expr ∧
      parsed.after.tokens = rest := by
  obtain ⟨next, found, token, nextAfter⟩ := Cursor.exists_next? shape
  obtain ⟨list, read, same, after⟩ :=
    items_complete complete (Or.inr rfl) derived nextAfter
  refine ⟨(list.map Expr.array).since next.shorter, ?_, congrArg Expr.array same, after⟩
  rw [operand]
  simp only [found, token, read, bind, Except.bind, pure, Except.pure]

theorem operand_conditional_complete (complete : Complete nested (Derives levels))
    {condition consequence other : List Token} {phrase : Phrase}
    {sentences : List Sentence} {sentences? : Option (List Sentence)}
    (conditionDerived : Derives levels .equality condition phrase)
    (derived : Sentences (Derives levels) consequence sentences)
    (otherDerived : OtherBranch (Derives levels) other sentences?)
    (shape : cursor.tokens = .keyword .ifWord :: .symbol .openParen :: (condition ++
      .symbol .closeParen :: .symbol .openBrace ::
        (consequence ++ .symbol .closeBrace :: (other ++ rest))))
    (noElse : rest.head? ≠ some (.keyword .elseWord)) :
    ∃ parsed, operand nested cursor = .ok parsed ∧
      parsed.value.withoutSpans =
        (Phrase.conditional phrase sentences sentences?).expr ∧
      parsed.after.tokens = rest := by
  obtain ⟨next, found, token, nextAfter⟩ := Cursor.exists_next? shape
  obtain ⟨parsed, read, same, after⟩ := conditional_complete complete conditionDerived
    derived otherDerived nextAfter noElse
  refine ⟨parsed.since next.shorter, ?_, same, after⟩
  rw [operand]
  simp only [found, token, read, bind, Except.bind, pure, Except.pure]

end Reader

open Reader

theorem Operand.reads {nested : Precedence → Reader Expr} {levels : Nat}
    (complete : Complete nested (Derives levels)) {level : Level} {tokens : List Token}
    {phrase : Phrase} (derived : Operand (Derives levels) level tokens phrase)
    {cursor : Cursor} {rest : List Token} (shape : cursor.tokens = tokens ++ rest)
    (stops : Stops level.ceiling rest) :
    ∃ parsed, Reader.operand nested cursor = .ok parsed ∧
      parsed.value.withoutSpans = phrase.expr ∧ parsed.after.tokens = rest := by
  cases derived with
  | integer value =>
      obtain ⟨next, found, token, after⟩ := Cursor.exists_next? shape
      refine ⟨next.map fun _ => .integer value, ?_, rfl, after⟩
      rw [Reader.operand]
      simp only [found, token]
  | string content =>
      obtain ⟨next, found, token, after⟩ := Cursor.exists_next? shape
      refine ⟨next.map fun _ => .string content, ?_, rfl, after⟩
      rw [Reader.operand]
      simp only [found, token]
  | identifier name =>
      obtain ⟨next, found, token, after⟩ := Cursor.exists_next? shape
      refine ⟨next.map fun _ => .identifier name, ?_, rfl, after⟩
      rw [Reader.operand]
      simp only [found, token]
  | boolean value => exact operand_boolean_complete shape
  | group innerDerived =>
      rw [List.cons_append, List.append_assoc] at shape
      exact operand_group_complete complete innerDerived shape
  | array itemsDerived =>
      rw [List.cons_append, List.append_assoc] at shape
      exact operand_array_complete complete itemsDerived shape
  | conditional conditionDerived sentencesDerived otherDerived =>
      simp only [List.cons_append, List.append_assoc] at shape
      exact operand_conditional_complete complete conditionDerived sentencesDerived
        otherDerived shape stops.noElse
  | unary operator operandDerived =>
      exact operand_unary_complete complete operator operandDerived shape stops

/-- What derives with a number of levels is read with this number of levels. -/
theorem Reader.expression_complete (levels : Nat) :
    Complete (expression levels) (Derives levels) := by
  induction levels with
  | zero =>
      intro minimum level front rest phrase cursor derived
      exact derived.elim
  | succ levels inductionHypothesis =>
      intro minimum level front rest phrase cursor derived tight shape stops
      obtain ⟨first, operandTokens, following, operandPhrase, operandDerived, same,
        operandStops, continues⟩ := Layer.exists_operand_of_stops derived tight stops
      obtain ⟨left, leftRead, leftSame, leftAfter⟩ :=
        operandDerived.reads inductionHypothesis (shape.trans same) operandStops
      obtain ⟨parsed, read, result⟩ :=
        continuations_complete inductionHypothesis continues leftSame leftAfter
      refine ⟨parsed, ?_, result⟩
      rw [expression]
      simp only [leftRead, bind, Except.bind]
      exact read

end ExprMachine
