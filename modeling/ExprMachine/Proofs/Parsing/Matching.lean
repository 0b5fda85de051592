import ExprMachine.Proofs.Parsing.Moving
import ExprMachine.Proofs.Parsing.Ranks
import ExprMachine.Proofs.Parsing.Tokens

/-!
# Reading the same tokens among others

The same tokens are read in the same way wherever they stand: when other tokens come
before them, and when they were found further back in the source. What is read differs
in the spans of statements, and errors in their places.

Other tokens may also follow, if these ones end with a semicolon and close all brackets.
Inside brackets a reader does not get past them, since the closing bracket is still
ahead, and outside brackets no construct but a statement ends with a semicolon. A reader
that begins in the middle keeps to this as long as every part that it can begin with
closes the brackets that it opens.
-/

namespace ExprMachine

/-! ## Brackets -/

namespace Token

def opens : Token → Bool
  | symbol .openParen | symbol .openBracket | symbol .openBrace => true
  | _ => false

def closes : Token → Bool
  | symbol .closeParen | symbol .closeBracket | symbol .closeBrace => true
  | _ => false

def isSemicolon : Token → Bool
  | symbol .semicolon => true
  | _ => false

/-- The number of brackets that are open before a token and after it. -/
def Leads (token : Token) (before after : Nat) : Prop :=
  after + (if token.closes then 1 else 0) = before + (if token.opens then 1 else 0)

end Token

theorem Token.isSemicolon_of_closes {token : Token} (closes : token.closes = true) :
    token.isSemicolon = false := by
  unfold isSemicolon
  split
  · cases closes
  · rfl

/-- No continuation of an expression begins with a semicolon or a closing bracket. -/
theorem Continuation.leads (continuation : Continuation) (depth : Nat) :
    ∃ after, (Token.symbol continuation.symbol).Leads depth after ∧
      (Token.symbol continuation.symbol).isSemicolon = false := by
  cases continuation with
  | arguments | position => exact ⟨depth + 1, rfl, rfl⟩
  | operator op => cases op <;> exact ⟨depth, rfl, rfl⟩

/-- The last of the tokens, if there is one, is a semicolon. -/
def Terminated (tokens : List Token) : Prop :=
  ∀ last, tokens.getLast? = some last → last = .symbol .semicolon

theorem Terminated.of_append {front back : List Token}
    (terminated : Terminated (front ++ back)) : Terminated back := by
  intro last found
  refine terminated last ?_
  rw [List.getLast?_append, found]
  rfl

theorem Terminated.ne_nil {token : Token} {rest : List Token}
    (terminated : Terminated (token :: rest)) (plain : token.isSemicolon = false) :
    rest ≠ [] := by
  rintro rfl
  rw [terminated token rfl] at plain
  cases plain

/-- The tokens close the given number of brackets besides those that they open, and a
semicolon comes last. -/
structure Guarded (depth : Nat) (tokens : List Token) : Prop where
  terminated : Terminated tokens
  closed : depth + tokens.countP Token.opens ≤ tokens.countP Token.closes

namespace Guarded

variable {depth : Nat} {tokens : List Token}

theorem loosen (guarded : Guarded depth tokens) : Guarded 0 tokens where
  terminated := guarded.terminated
  closed := by
    have closed := guarded.closed
    omega

theorem tail {token : Token} {before after : Nat}
    (guarded : Guarded before (token :: tokens)) (leads : token.Leads before after) :
    Guarded after tokens where
  terminated := (show Terminated ([token] ++ tokens) from guarded.terminated).of_append
  closed := by
    have closed := guarded.closed
    unfold Token.Leads at leads
    simp only [List.countP_cons] at closed
    omega

/-- While a bracket is open there is another token. -/
theorem ne_nil (guarded : Guarded (depth + 1) tokens) : tokens ≠ [] := by
  rintro rfl
  have closed := guarded.closed
  simp at closed

end Guarded

/-! ## Cursors -/

/-- The cursor was reached in the given tokens. -/
structure Cursor.Inside (whole : List Lexeme) (cursor : Cursor) : Prop where
  suffix : cursor.rest <:+ whole
  place : cursor.position + cursor.rest.length = whole.length

/-- Tokens that also stand elsewhere: how far they were moved, and the tokens that come
after them there. -/
structure Copy where
  whole : List Lexeme
  move : Displacement
  more : List Lexeme

/-- The first cursor was reached in the tokens, and the second one stands at the same
place in their copy. -/
structure Cursor.Copied (copy : Copy) (cursor later : Cursor) : Prop
    extends cursor.Inside copy.whole where
  rest : later.rest = cursor.rest.map (Lexeme.shift copy.move.bytes) ++ copy.more
  position : later.position = cursor.position + copy.move.tokens
  previous : cursor.position ≠ 0 → later.previous = cursor.previous.shift copy.move.bytes

/-- The cursors stand at the same place. If tokens come after the copy, what is left of
it closes the given number of brackets. -/
structure Cursor.Aligned (copy : Copy) (depth : Nat) (cursor later : Cursor) : Prop
    extends cursor.Copied copy later where
  guarded : copy.more = [] ∨ Guarded depth cursor.tokens

/-- The same token comes next at both places, or none. -/
structure Cursor.Matches (copy : Copy) (depth : Nat) (cursor later : Cursor) : Prop
    extends cursor.Aligned copy depth later where
  goesOn : copy.more = [] ∨ cursor.rest ≠ []

/-- The cursors stand after a token that was read at the given depth. -/
structure Cursor.Step (copy : Copy) (depth : Nat) (token : Token)
    (cursor later : Cursor) : Prop extends cursor.Copied copy later where
  guarded {after : Nat} :
    token.Leads depth after → copy.more = [] ∨ Guarded after cursor.tokens
  goesOn : token.isSemicolon = false → copy.more = [] ∨ cursor.rest ≠ []

variable {copy : Copy} {depth : Nat}

theorem Cursor.Copied.rest_ne_nil {cursor later : Cursor}
    (copied : cursor.Copied copy later) (nonempty : cursor.rest ≠ []) :
    later.rest ≠ [] := by
  rw [copied.rest]
  exact List.append_ne_nil_of_left_ne_nil (by simpa using nonempty) _

namespace Cursor.Step

variable {token : Token} {cursor later : Cursor} {after : Nat}
  (step : cursor.Step copy depth token later)

include step

theorem aligned (leads : token.Leads depth after) : cursor.Aligned copy after later :=
  { step.toCopied with guarded := step.guarded leads }

theorem matched (leads : token.Leads depth after) (plain : token.isSemicolon = false) :
    cursor.Matches copy after later :=
  { step.aligned leads with goesOn := step.goesOn plain }

end Cursor.Step

namespace Cursor.Aligned

variable {cursor later : Cursor}

theorem matched (aligned : cursor.Aligned copy depth later) (goesOn : cursor.rest ≠ []) :
    cursor.Matches copy depth later :=
  { aligned with goesOn := Or.inr goesOn }

/-- Inside brackets there is another token. -/
theorem matched_of_succ (aligned : cursor.Aligned copy (depth + 1) later) :
    cursor.Matches copy (depth + 1) later :=
  { aligned with
    goesOn := aligned.guarded.imp_right fun guarded ended =>
      guarded.ne_nil (congrArg (List.map Lexeme.token) ended) }

theorem loosen (aligned : cursor.Aligned copy depth later) :
    cursor.Aligned copy 0 later :=
  { aligned with guarded := aligned.guarded.imp_right Guarded.loosen }

/-- After a token the place plain from the start. -/
theorem previous_of_lt (aligned : cursor.Aligned copy depth later)
    {after laterAfter : Cursor} {afterDepth : Nat}
    (reached : after.Aligned copy afterDepth laterAfter)
    (shorter : after.rest.length < cursor.rest.length) :
    laterAfter.previous = after.previous.shift copy.move.bytes := by
  have inside := aligned.suffix.length_le
  have place := reached.place
  exact reached.previous (by omega)

end Cursor.Aligned

namespace Cursor.Matches

variable {cursor later : Cursor} (matched : cursor.Matches copy depth later)

include matched

theorem loosen : cursor.Matches copy 0 later :=
  { matched.toAligned.loosen with goesOn := matched.goesOn }

theorem token? : later.token? = cursor.token? := by
  rw [Cursor.token?, matched.rest, Cursor.token?]
  cases shape : cursor.rest with
  | cons next rest => rfl
  | nil =>
      rw [matched.goesOn.resolve_right fun goesOn => goesOn shape]
      rfl

theorem isEmpty_rest : later.rest.isEmpty = cursor.rest.isEmpty := by
  rw [matched.rest]
  cases shape : cursor.rest with
  | cons next rest => rfl
  | nil =>
      rw [matched.goesOn.resolve_right fun goesOn => goesOn shape]
      rfl

theorem span (nonempty : cursor.rest ≠ []) :
    later.span = cursor.span.shift copy.move.bytes := by
  rw [Cursor.span, matched.rest, Cursor.span]
  cases shape : cursor.rest with
  | nil => exact absurd shape nonempty
  | cons next rest => rfl

theorem next? : (cursor.next? = none ∧ later.next? = none) ∨
    ∃ next other, cursor.next? = some next ∧ later.next? = some other ∧
      other.value = next.value ∧ next.after.Step copy depth next.value other.after := by
  obtain ⟨position, previous, rest⟩ := cursor
  obtain ⟨laterPosition, laterPrevious, laterRest⟩ := later
  obtain ⟨⟨⟨⟨suffix, place⟩, rfl, rfl, _⟩, guarded⟩, goesOn⟩ := matched
  cases rest with
  | nil =>
      have last : copy.more = [] := goesOn.resolve_right (absurd rfl)
      refine Or.inl ⟨rfl, ?_⟩
      rw [last]
      rfl
  | cons next rest =>
      refine Or.inr ⟨_, _, rfl, rfl, rfl, ⟨⟨?_, ?_⟩, rfl, ?_, fun _ => rfl⟩,
        fun leads => ?_, fun plain => ?_⟩
      · exact (List.suffix_cons next rest).trans suffix
      · rw [← place]
        exact Nat.add_right_comm ..
      · exact Nat.add_right_comm ..
      · exact guarded.imp_right fun guarded => guarded.tail leads
      · refine guarded.imp_right fun guarded ended => ?_
        exact guarded.terminated.ne_nil plain (List.map_eq_nil_iff.mpr ended)

theorem accept? (wanted : Token) :
    (cursor.accept? wanted = none ∧ later.accept? wanted = none) ∨
      ∃ accepted other, cursor.accept? wanted = some accepted ∧
        later.accept? wanted = some other ∧
          accepted.after.Step copy depth wanted other.after := by
  rcases matched.next? with ⟨missing, laterMissing⟩ | found
  · simp only [Cursor.accept?, missing, laterMissing, true_and, true_or]
  · obtain ⟨next, other, found, laterFound, same, step⟩ := found
    by_cases fits : next.value = wanted
    · rw [fits] at step
      refine Or.inr ⟨next.map fun _ => (), other.map fun _ => (), ?_, ?_, step⟩
      · simp only [Cursor.accept?, found, fits, if_true]
      · simp only [Cursor.accept?, laterFound, same, fits, if_true]
    · left
      simp only [Cursor.accept?, found, laterFound, same, fits, if_false, and_self]

end Cursor.Matches

namespace Reader

/-! ## Outcomes -/

/-- The outcomes of reading the same tokens at two places. -/
inductive OutcomeMatches (copy : Copy) {α : Type} (change : α → α)
    (reached : Cursor → Cursor → Prop) {cursor later : Cursor} :
    Except ParseFailure (Parsed α cursor) → Except ParseFailure (Parsed α later) → Prop
  | ok {parsed : Parsed α cursor} {other : Parsed α later} :
      other.value = change parsed.value → reached parsed.after other.after →
        OutcomeMatches copy change reached (.ok parsed) (.ok other)
  | error {failure other : ParseFailure} :
      other.cause = failure.cause → failure.cursor.Matches copy 0 other.cursor →
        OutcomeMatches copy change reached (.error failure) (.error other)

/-- The reader reads the tokens and their copy alike, from one depth to another. -/
def ReadsAlike (copy : Copy) {α : Type} (change : α → α) (before after : Nat)
    (reader : Reader α) : Prop :=
  ∀ {cursor later}, cursor.Matches copy before later →
    OutcomeMatches copy change (Cursor.Matches copy after) (reader cursor) (reader later)

theorem OutcomeMatches.bind {α β : Type} {change : α → α} {changeAfter : β → β}
    {reached reachedAfter : Cursor → Cursor → Prop}
    {cursor later start laterStart : Cursor}
    {outcome : Except ParseFailure (Parsed α cursor)}
    {other : Except ParseFailure (Parsed α later)}
    {next : Parsed α cursor → Except ParseFailure (Parsed β start)}
    {otherNext : Parsed α later → Except ParseFailure (Parsed β laterStart)}
    (first : OutcomeMatches copy change reached outcome other)
    (second : ∀ parsed other, other.value = change parsed.value →
      reached parsed.after other.after →
        OutcomeMatches copy changeAfter reachedAfter (next parsed) (otherNext other)) :
    OutcomeMatches copy changeAfter reachedAfter (outcome >>= next)
      (other >>= otherNext) := by
  cases first with
  | ok same after => exact second _ _ same after
  | error same place => exact .error same place

/-! ## Single tokens -/

theorem symbol_alike (wanted : Symbol) (before after : Nat)
    (leads : (Token.symbol wanted).Leads before after)
    (plain : (Token.symbol wanted).isSemicolon = false) :
    ReadsAlike copy id before after (symbol wanted) := by
  intro cursor later matched
  rcases matched.accept? (.symbol wanted) with ⟨missing, laterMissing⟩ | found
  · simp only [symbol, missing, laterMissing, matched.token?]
    exact .error rfl matched.loosen
  · obtain ⟨accepted, other, found, laterFound, step⟩ := found
    simp only [symbol, found, laterFound]
    exact .ok rfl (step.matched leads plain)

theorem identifier_alike : ReadsAlike copy id depth depth identifier := by
  intro cursor later matched
  rcases matched.next? with ⟨missing, laterMissing⟩ | found
  · simp only [identifier, missing, laterMissing]
    exact .error rfl matched.loosen
  · obtain ⟨next, other, found, laterFound, same, step⟩ := found
    simp only [identifier, found, laterFound, same]
    cases shape : next.value with
    | identifier name =>
        rw [shape] at step
        exact .ok rfl (step.matched rfl rfl)
    | _ => exact .error rfl matched.loosen

theorem optionalSemicolon_alike {change : Stmt → Stmt} {start laterStart : Cursor}
    {stmt : Parsed Stmt start} {other : Parsed Stmt laterStart}
    (same : other.value = change stmt.value)
    (matched : stmt.after.Matches copy depth other.after) :
    OutcomeMatches copy change (Cursor.Aligned copy depth)
      (.ok (optionalSemicolon stmt)) (.ok (optionalSemicolon other)) := by
  rcases matched.accept? (.symbol .semicolon) with ⟨missing, laterMissing⟩ | found
  · simp only [optionalSemicolon, missing, laterMissing]
    exact .ok same matched.toAligned
  · obtain ⟨mark, laterMark, found, laterFound, step⟩ := found
    simp only [optionalSemicolon, found, laterFound]
    exact .ok same (step.aligned rfl)

/-! ## Expressions and statements -/

section Nested

variable {nested : Precedence → Reader Expr}
  (nestedAlike : ∀ minimum depth,
    ReadsAlike copy (Expr.shift copy.move.bytes) depth depth (nested minimum))
  {start laterStart : Cursor}

include nestedAlike

theorem itemsTail_alike (closing : Symbol)
    (closes : (Token.symbol closing).Leads (depth + 1) depth)
    (plain : (Token.symbol closing).isSemicolon = false)
    {before : Parsed (Array Expr) start} {other : Parsed (Array Expr) laterStart}
    (same : other.value.toList = Expr.shiftAll copy.move.bytes before.value.toList)
    (matched : before.after.Matches copy (depth + 1) other.after) :
    OutcomeMatches copy (Expr.shiftAll copy.move.bytes) (Cursor.Matches copy depth)
      (itemsTail nested closing before) (itemsTail nested closing other) := by
  induction length : before.after.rest.length using Nat.strongRecOn
    generalizing before other with
  | _ _ inductionHypothesis =>
      subst length
      rw [itemsTail, itemsTail.eq_def nested closing other]
      rcases matched.accept? (.symbol .comma) with ⟨missing, laterMissing⟩ | found
      · simp only [missing, laterMissing]
        exact (symbol_alike closing _ _ closes plain matched).bind
          fun _ _ _ after => .ok same after
      · obtain ⟨comma, laterComma, found, laterFound, step⟩ := found
        simp only [found, laterFound]
        refine (nestedAlike .lowest _ (step.matched rfl rfl)).bind
          fun item other sameItem after => ?_
        refine inductionHypothesis _ (Nat.lt_trans item.shorter comma.shorter) ?_ after
          rfl
        rw [Array.toList_push, Array.toList_push, same, sameItem, Expr.shiftAll_eq_map,
          Expr.shiftAll_eq_map, List.map_append]
        rfl

theorem items_alike (closing : Symbol)
    (closes : (Token.symbol closing).Leads (depth + 1) depth)
    (plain : (Token.symbol closing).isSemicolon = false) :
    ReadsAlike copy (Expr.shiftAll copy.move.bytes) (depth + 1) depth
      (items nested closing) := by
  intro cursor later matched
  rcases matched.accept? (.symbol closing) with ⟨missing, laterMissing⟩ | found
  · simp only [items, missing, laterMissing]
    refine (nestedAlike .lowest _ matched).bind fun first other sameFirst after => ?_
    refine itemsTail_alike nestedAlike closing closes plain ?_ after
    exact congrArg (· :: []) sameFirst
  · obtain ⟨closed, laterClosed, found, laterFound, step⟩ := found
    simp only [items, found, laterFound]
    exact .ok rfl (step.matched closes plain)

theorem binding_alike (begun : Span) {cursor later : Cursor}
    (matched : cursor.Matches copy depth later) :
    OutcomeMatches copy (Stmt.shift copy.move.bytes) (Cursor.Aligned copy depth)
      (binding nested begun cursor)
      (binding nested (begun.shift copy.move.bytes) later) := by
  refine (identifier_alike matched).bind fun name _ sameName afterName => ?_
  refine (symbol_alike .assign _ _ rfl rfl afterName).bind
    fun assign _ _ afterAssign => ?_
  refine (nestedAlike .lowest _ afterAssign).bind fun value other sameValue after => ?_
  refine optionalSemicolon_alike ?_ after
  change Stmt.binding _ _ _ = Stmt.binding _ _ _
  rw [sameName, sameValue,
    afterAssign.previous_of_lt after.toAligned value.shorter, Span.merge_shift]
  rfl

theorem expressionStatement_alike {cursor later : Cursor}
    (matched : cursor.Matches copy depth later) :
    OutcomeMatches copy (Stmt.shift copy.move.bytes) (Cursor.Aligned copy depth)
      (expressionStatement nested cursor) (expressionStatement nested later) := by
  refine (nestedAlike .lowest _ matched).bind fun value other sameValue after => ?_
  refine optionalSemicolon_alike ?_ after
  have nonempty : cursor.rest ≠ [] :=
    List.ne_nil_of_length_pos (Nat.zero_lt_of_lt value.shorter)
  change Stmt.expression _ _ = Stmt.expression _ _
  rw [sameValue, matched.previous_of_lt after.toAligned value.shorter,
    matched.span nonempty, Span.merge_shift]

theorem statement_alike {cursor later : Cursor}
    (matched : cursor.Matches copy depth later) :
    OutcomeMatches copy (Stmt.shift copy.move.bytes) (Cursor.Aligned copy depth)
      (statement nested cursor) (statement nested later) := by
  rcases matched.accept? (.keyword .letWord) with ⟨missing, laterMissing⟩ | found
  · simp only [statement, missing, laterMissing]
    exact expressionStatement_alike nestedAlike matched
  · obtain ⟨word, laterWord, found, laterFound, step⟩ := found
    have nonempty : cursor.rest ≠ [] :=
      List.ne_nil_of_length_pos (Nat.zero_lt_of_lt word.shorter)
    simp only [statement, found, laterFound, matched.span nonempty]
    exact (binding_alike nestedAlike cursor.span (step.matched rfl rfl)).bind
      fun _ _ same after => .ok same after

theorem blockTail_alike {before : Parsed (Array Stmt) start}
    {other : Parsed (Array Stmt) laterStart}
    (same : other.value.toList = Stmt.shiftAll copy.move.bytes before.value.toList)
    (matched : before.after.Matches copy (depth + 1) other.after) :
    OutcomeMatches copy (Stmt.shiftAll copy.move.bytes) (Cursor.Matches copy depth)
      (blockTail nested before) (blockTail nested other) := by
  induction length : before.after.rest.length using Nat.strongRecOn
    generalizing before other with
  | _ _ inductionHypothesis =>
      subst length
      rw [blockTail, blockTail.eq_def nested other, matched.isEmpty_rest, matched.token?]
      split
      · exact (symbol_alike .closeBrace _ depth rfl rfl matched).bind
          fun _ _ _ after => .ok same after
      · refine (statement_alike nestedAlike matched).bind
          fun stmt other sameStmt after => ?_
        refine inductionHypothesis _ stmt.shorter ?_ after.matched_of_succ rfl
        rw [Array.toList_push, Array.toList_push, same, sameStmt, Stmt.shiftAll_eq_map,
          Stmt.shiftAll_eq_map, List.map_append]
        rfl

theorem block_alike :
    ReadsAlike copy (Stmt.shiftAll copy.move.bytes) depth depth (block nested) := by
  intro cursor later matched
  refine (symbol_alike .openBrace _ (depth + 1) rfl rfl matched).bind
    fun opened _ _ after => ?_
  exact blockTail_alike nestedAlike rfl after

theorem alternative_alike {condition otherCondition : Expr}
    (sameCondition : otherCondition = condition.shift copy.move.bytes)
    {consequence : Parsed (List Stmt) start} {other : Parsed (List Stmt) laterStart}
    (same : other.value = Stmt.shiftAll copy.move.bytes consequence.value)
    (matched : consequence.after.Matches copy depth other.after) :
    OutcomeMatches copy (Expr.shift copy.move.bytes) (Cursor.Matches copy depth)
      (alternative nested condition consequence)
      (alternative nested otherCondition other) := by
  rcases matched.accept? (.keyword .elseWord) with ⟨missing, laterMissing⟩ | found
  · simp only [alternative, missing, laterMissing]
    refine .ok ?_ matched
    change Expr.conditional _ _ _ = Expr.conditional _ _ _
    rw [sameCondition, same]
  · obtain ⟨word, laterWord, found, laterFound, step⟩ := found
    simp only [alternative, found, laterFound]
    refine (block_alike nestedAlike (step.matched rfl rfl)).bind
      fun _ _ sameOther after => ?_
    refine .ok ?_ after
    change Expr.conditional _ _ _ = Expr.conditional _ _ _
    rw [sameCondition, same, sameOther]

theorem conditional_alike :
    ReadsAlike copy (Expr.shift copy.move.bytes) depth depth (conditional nested) := by
  intro cursor later matched
  refine (symbol_alike .openParen _ (depth + 1) rfl rfl matched).bind
    fun opened _ _ afterOpened => ?_
  refine (nestedAlike .lowest _ afterOpened).bind
    fun condition _ sameCondition afterCondition => ?_
  refine (symbol_alike .closeParen _ depth rfl rfl afterCondition).bind
    fun closed _ _ afterClosed => ?_
  refine (block_alike nestedAlike afterClosed).bind
    fun consequence _ sameConsequence after => ?_
  exact alternative_alike nestedAlike sameCondition sameConsequence after

theorem unaryOperand_alike (operator : UnaryOperator) :
    ReadsAlike copy (Expr.shift copy.move.bytes) depth depth
      (unaryOperand nested operator) := by
  intro cursor later matched
  refine (nestedAlike .unary _ matched).bind fun _ _ same after => ?_
  exact .ok (congrArg (Expr.unary operator) same) after

theorem group_alike :
    ReadsAlike copy (Expr.shift copy.move.bytes) (depth + 1) depth (group nested) := by
  intro cursor later matched
  refine (nestedAlike .lowest _ matched).bind fun _ _ same afterInner => ?_
  exact (symbol_alike .closeParen _ depth rfl rfl afterInner).bind
    fun _ _ _ after => .ok same after

theorem operand_alike :
    ReadsAlike copy (Expr.shift copy.move.bytes) depth depth (operand nested) := by
  intro cursor later matched
  rcases matched.next? with ⟨missing, laterMissing⟩ | found
  · simp only [operand, missing, laterMissing]
    exact .error rfl matched.loosen
  · obtain ⟨next, other, found, laterFound, same, step⟩ := found
    rw [operand, operand, found, laterFound]
    dsimp only
    rw [same]
    generalize next.value = token at step
    have goesOn {after : Nat} (leads : token.Leads depth after) := step.matched leads
    cases token with
    | integer value => exact .ok rfl (goesOn rfl rfl)
    | string content => exact .ok rfl (goesOn rfl rfl)
    | identifier name => exact .ok rfl (goesOn rfl rfl)
    | keyword word =>
        cases word with
        | trueWord => exact .ok rfl (goesOn rfl rfl)
        | falseWord => exact .ok rfl (goesOn rfl rfl)
        | ifWord =>
            exact (conditional_alike nestedAlike (goesOn rfl rfl)).bind
              fun _ _ same after => .ok same after
        | _ => exact .error rfl matched.loosen
    | symbol mark =>
        cases mark with
        | bang =>
            exact (unaryOperand_alike nestedAlike .not (goesOn rfl rfl)).bind
              fun _ _ same after => .ok same after
        | minus =>
            exact (unaryOperand_alike nestedAlike .negate (goesOn rfl rfl)).bind
              fun _ _ same after => .ok same after
        | openParen =>
            exact (group_alike nestedAlike (goesOn rfl rfl)).bind
              fun _ _ same after => .ok same after
        | openBracket =>
            exact (items_alike nestedAlike .closeBracket rfl rfl
              (goesOn rfl rfl)).bind
              fun _ _ same after => .ok (congrArg Expr.array same) after
        | _ => exact .error rfl matched.loosen

theorem continuationBody_alike {left other : Expr}
    (sameLeft : other = left.shift copy.move.bytes) (continuation : Continuation)
    {before : Nat} (leads : (Token.symbol continuation.symbol).Leads depth before)
    {cursor later : Cursor} (matched : cursor.Matches copy before later) :
    OutcomeMatches copy (Expr.shift copy.move.bytes) (Cursor.Matches copy depth)
      (continuationBody nested left continuation cursor)
      (continuationBody nested other continuation later) := by
  cases continuation with
  | arguments =>
      obtain rfl : before = depth + 1 := leads
      refine (items_alike nestedAlike .closeParen rfl rfl matched).bind
        fun _ _ same after => ?_
      refine .ok ?_ after
      change Expr.call _ _ = Expr.call _ _
      rw [sameLeft, same]
  | position =>
      obtain rfl : before = depth + 1 := leads
      refine (nestedAlike .lowest _ matched).bind fun _ _ same afterPosition => ?_
      refine (symbol_alike .closeBracket _ depth rfl rfl afterPosition).bind
        fun _ _ _ after => ?_
      refine .ok ?_ after
      change Expr.index _ _ = Expr.index _ _
      rw [sameLeft, same]
  | operator op =>
      obtain rfl : before = depth := by cases op <;> exact leads
      refine (nestedAlike op.precedence _ matched).bind fun _ _ same after => ?_
      refine .ok ?_ after
      change Expr.binary op _ _ = Expr.binary op _ _
      rw [sameLeft, same]

theorem continuations_alike (minimum : Precedence) {left : Parsed Expr start}
    {other : Parsed Expr laterStart}
    (same : other.value = left.value.shift copy.move.bytes)
    (matched : left.after.Matches copy depth other.after) :
    OutcomeMatches copy (Expr.shift copy.move.bytes) (Cursor.Matches copy depth)
      (continuations nested minimum left) (continuations nested minimum other) := by
  induction length : left.after.rest.length using Nat.strongRecOn
    generalizing left other with
  | _ _ inductionHypothesis =>
      subst length
      rw [continuations, continuations.eq_def nested minimum other]
      rcases matched.next? with ⟨missing, laterMissing⟩ | found
      · simp only [missing, laterMissing]
        exact .ok same matched
      · obtain ⟨next, otherNext, found, laterFound, sameToken, step⟩ := found
        simp only [found, laterFound, sameToken]
        split
        · next continuation continues =>
            split
            · have token := Continuation.token_of_ofToken? continues
              rw [token] at step
              obtain ⟨before, leads, plain⟩ := continuation.leads depth
              refine (continuationBody_alike nestedAlike same continuation leads
                (step.matched leads plain)).bind fun body _ sameBody after => ?_
              exact inductionHypothesis _ (Nat.lt_trans body.shorter next.shorter)
                sameBody after rfl
            · exact .ok same matched
        · exact .ok same matched

end Nested

theorem expression_alike (levels : Nat) (minimum : Precedence) (depth : Nat) :
    ReadsAlike copy (Expr.shift copy.move.bytes) depth depth
      (expression levels minimum) := by
  induction levels generalizing minimum depth with
  | zero => exact fun matched => .error rfl matched.loosen
  | succ levels inductionHypothesis =>
      intro cursor later matched
      refine (operand_alike inductionHypothesis matched).bind
        fun left _ sameLeft after => ?_
      exact continuations_alike inductionHypothesis minimum sameLeft after

end Reader

/-- The tokens and their copy begin at the same place. -/
theorem Cursor.Aligned.start {later : Cursor}
    (rest : later.rest = copy.whole.map (Lexeme.shift copy.move.bytes) ++ copy.more)
    (position : later.position = copy.move.tokens)
    (guarded : copy.more = [] ∨ Guarded 0 (copy.whole.map Lexeme.token)) :
    (Cursor.start copy.whole).Aligned copy 0 later where
  suffix := List.suffix_refl _
  place := Nat.zero_add _
  rest := rest
  position := position.trans (Nat.zero_add _).symm
  previous := fun impossible => absurd rfl impossible
  guarded := guarded

/-- Tokens with nothing before and after them are their own copy. -/
theorem Cursor.Inside.alone {whole : List Lexeme} {cursor : Cursor}
    (inside : cursor.Inside whole) : cursor.Matches ⟨whole, ⟨0, 0⟩, []⟩ 0 cursor where
  toInside := inside
  rest := by
    rw [List.append_nil]
    exact (List.map_id cursor.rest).symm
  position := rfl
  previous := fun _ => rfl
  guarded := Or.inl rfl
  goesOn := Or.inl rfl

/-! ## After errors -/

/-- The brackets are closed after every place from which reading can go on. -/
def Copy.Steady (copy : Copy) : Prop :=
  copy.more = [] ∨ ∀ rest, rest <:+ copy.whole → Guarded 0 (rest.map Lexeme.token)

/-- A closing bracket that was opened before an error changes no depth. -/
theorem Cursor.Step.matched_of_closes (steady : copy.Steady) {token : Token}
    {cursor later : Cursor} (step : cursor.Step copy 0 token later)
    (closes : token.closes = true) : cursor.Matches copy 0 later where
  toCopied := step.toCopied
  guarded := steady.imp_right fun guarded => guarded _ step.suffix
  goesOn := step.goesOn (Token.isSemicolon_of_closes closes)

/-- What is left out after an error does not get past the tokens. -/
theorem Cursor.Matches.afterStatement (steady : copy.Steady) {cursor later : Cursor}
    (matched : cursor.Matches copy depth later) :
    (cursor.afterStatement depth).Aligned copy 0 (later.afterStatement depth) := by
  induction length : cursor.rest.length using Nat.strongRecOn
    generalizing cursor later depth with
  | _ _ inductionHypothesis =>
      subst length
      rw [Cursor.afterStatement, Cursor.afterStatement.eq_def later]
      rcases matched.next? with ⟨missing, laterMissing⟩ | found
      · simp only [missing, laterMissing]
        exact matched.toAligned.loosen
      · obtain ⟨next, other, found, laterFound, same, step⟩ := found
        have goesOn {depth : Nat} (matched : next.after.Matches copy depth other.after) :=
          inductionHypothesis _ next.shorter matched rfl
        simp only [found, laterFound, same]
        generalize next.value = token at step
        cases token with
        | symbol mark =>
            cases mark with
            | openParen | openBracket | openBrace => exact goesOn (step.matched rfl rfl)
            | closeParen | closeBracket | closeBrace =>
                cases depth with
                | zero => exact goesOn (step.matched_of_closes steady rfl)
                | succ depth => exact goesOn (step.matched rfl rfl)
            | semicolon =>
                cases depth with
                | zero => exact step.aligned rfl
                | succ depth => exact goesOn (step.aligned rfl).matched_of_succ
            | _ => exact goesOn (step.matched rfl rfl)
        | _ => exact goesOn (step.matched rfl rfl)

/-- An error in the copy is the same, but for its places. -/
theorem ParseFailure.error_alike (nonempty : copy.whole ≠ [])
    {failure other : ParseFailure} (cause : other.cause = failure.cause)
    (matched : failure.cursor.Matches copy depth other.cursor) :
    other.error = failure.error.shift copy.move := by
  have span : other.cursor.span = failure.cursor.span.shift copy.move.bytes := by
    by_cases ended : failure.cursor.rest = []
    · have last : copy.more = [] :=
        matched.goesOn.resolve_right fun goesOn => goesOn ended
      have place := matched.place
      have positive := List.length_pos_iff.mpr nonempty
      rw [ended, List.length_nil] at place
      rw [Cursor.span, matched.rest, ended, last, Cursor.span, ended]
      simp only [List.map_nil, List.append_nil]
      rw [matched.previous (by omega)]
      rfl
    · exact matched.span ended
  rw [error, cause, matched.position, span]
  rfl

/-! ## Statements -/

/-- A statement is the same in the copy, but for its places. -/
theorem Cursor.Matches.statement {cursor later : Cursor}
    (matched : cursor.Matches copy depth later) {levels : Nat} {stmt : Parsed Stmt cursor}
    (read : Reader.statement (Reader.expression levels) cursor = .ok stmt) :
    ∃ other, Reader.statement (Reader.expression levels) later = .ok other ∧
      other.value = stmt.value.shift copy.move.bytes ∧
      stmt.after.Aligned copy depth other.after := by
  have outcome := Reader.statement_alike (Reader.expression_alike levels) matched
  rw [read] at outcome
  generalize Reader.statement _ later = laterOutcome at outcome ⊢
  cases outcome with
  | ok same after => exact ⟨_, rfl, same, after⟩

/-- An error at the beginning of a statement is the same in the copy, but for its places,
and what is left out after it is the same. -/
theorem Cursor.Matches.failure (steady : copy.Steady) {cursor later : Cursor}
    (matched : cursor.Matches copy depth later) (nonempty : cursor.rest ≠ [])
    {levels : Nat} {failure : ParseFailure}
    (read : Reader.statement (Reader.expression levels) cursor = .error failure) :
    ∃ other, Reader.statement (Reader.expression levels) later = .error other ∧
      other.error = failure.error.shift copy.move ∧
      (failure.cursor.afterStatement 0).Aligned copy 0
        (other.cursor.afterStatement 0) := by
  have whole : copy.whole ≠ [] := by
    rintro missing
    exact nonempty (List.suffix_nil.mp (missing ▸ matched.suffix))
  have outcome := Reader.statement_alike (Reader.expression_alike levels) matched
  rw [read] at outcome
  generalize Reader.statement _ later = laterOutcome at outcome ⊢
  cases outcome with
  | error cause place =>
      exact ⟨_, rfl, ParseFailure.error_alike whole cause place,
        place.afterStatement steady⟩

end ExprMachine
