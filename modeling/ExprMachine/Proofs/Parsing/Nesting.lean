import ExprMachine.Proofs.Parsing.Places

/-!
# Statements inside of statements

The blocks of a conditional hold statements of their own. Each of them was read as a
statement, somewhere between the first and the last token of the expression that it is in,
with fewer levels left.
-/

namespace ExprMachine

/-! ## Nested statements -/

mutual

/-- The statements inside an expression, each before those inside of it. -/
def Expr.statements : Expr → List Stmt
  | .integer _ => []
  | .boolean _ => []
  | .string _ => []
  | .identifier _ => []
  | .unary _ operand => operand.statements
  | .binary _ left right => left.statements ++ right.statements
  | .array items => Expr.statementsOfAll items
  | .call callee arguments => callee.statements ++ Expr.statementsOfAll arguments
  | .index collection position => collection.statements ++ position.statements
  | .conditional condition consequence none =>
      condition.statements ++ Stmt.statementsOfAll consequence
  | .conditional condition consequence (some alternative) =>
      condition.statements ++
        (Stmt.statementsOfAll consequence ++ Stmt.statementsOfAll alternative)

def Expr.statementsOfAll : List Expr → List Stmt
  | [] => []
  | item :: items => item.statements ++ Expr.statementsOfAll items

/-- The statement and the statements inside of it. -/
def Stmt.statements : Stmt → List Stmt
  | .binding name value span => .binding name value span :: value.statements
  | .expression value span => .expression value span :: value.statements

def Stmt.statementsOfAll : List Stmt → List Stmt
  | [] => []
  | stmt :: stmts => stmt.statements ++ Stmt.statementsOfAll stmts

end

/-- All statements of a program, nested ones included. -/
def Program.statements (program : Program) : List Stmt :=
  Stmt.statementsOfAll program

theorem Stmt.statements_eq (stmt : Stmt) : stmt.statements = stmt :: stmt.value.statements := by
  cases stmt <;> rw [statements] <;> rfl

theorem Stmt.statementsOfAll_eq_flatMap (stmts : List Stmt) :
    statementsOfAll stmts = stmts.flatMap statements := by
  induction stmts with
  | nil => rfl
  | cons stmt stmts inductionHypothesis =>
      rw [statementsOfAll, inductionHypothesis, List.flatMap_cons]

mutual

theorem Expr.toList_appendSpans (spans : Array Span) : ∀ expr : Expr,
    (expr.appendSpans spans).toList = spans.toList ++ expr.statements.map Stmt.span
  | .integer _ | .boolean _ | .string _ | .identifier _ => by
      simp [Expr.appendSpans, Expr.statements]
  | .unary _ operand => by
      rw [Expr.appendSpans, operand.toList_appendSpans, Expr.statements]
  | .binary _ left right => by
      rw [Expr.appendSpans, right.toList_appendSpans, left.toList_appendSpans,
        Expr.statements, List.map_append, List.append_assoc]
  | .array items => by
      rw [Expr.appendSpans, Expr.toList_appendSpansOfAll, Expr.statements]
  | .call callee arguments => by
      rw [Expr.appendSpans, Expr.toList_appendSpansOfAll, callee.toList_appendSpans,
        Expr.statements, List.map_append, List.append_assoc]
  | .index collection position => by
      rw [Expr.appendSpans, position.toList_appendSpans, collection.toList_appendSpans,
        Expr.statements, List.map_append, List.append_assoc]
  | .conditional condition consequence none => by
      rw [Expr.appendSpans, Stmt.toList_appendSpansOfAll, condition.toList_appendSpans,
        Expr.statements, List.map_append, List.append_assoc]
  | .conditional condition consequence (some alternative) => by
      rw [Expr.appendSpans, Stmt.toList_appendSpansOfAll, Stmt.toList_appendSpansOfAll,
        condition.toList_appendSpans, Expr.statements, List.map_append, List.map_append,
        List.append_assoc, List.append_assoc]

theorem Expr.toList_appendSpansOfAll (spans : Array Span) : ∀ exprs : List Expr,
    (Expr.appendSpansOfAll exprs spans).toList =
      spans.toList ++ (Expr.statementsOfAll exprs).map Stmt.span
  | [] => by simp [Expr.appendSpansOfAll, Expr.statementsOfAll]
  | expr :: exprs => by
      rw [Expr.appendSpansOfAll, Expr.toList_appendSpansOfAll, expr.toList_appendSpans,
        Expr.statementsOfAll, List.map_append, List.append_assoc]

theorem Stmt.toList_appendSpans (spans : Array Span) : ∀ stmt : Stmt,
    (stmt.appendSpans spans).toList = spans.toList ++ stmt.statements.map Stmt.span
  | .binding _ value _ | .expression value _ => by
      rw [Stmt.appendSpans, value.toList_appendSpans, Array.toList_push, Stmt.statements,
        List.append_assoc]
      rfl

theorem Stmt.toList_appendSpansOfAll (spans : Array Span) : ∀ stmts : List Stmt,
    (Stmt.appendSpansOfAll stmts spans).toList =
      spans.toList ++ (Stmt.statementsOfAll stmts).map Stmt.span
  | [] => by simp [Stmt.appendSpansOfAll, Stmt.statementsOfAll]
  | stmt :: stmts => by
      rw [Stmt.appendSpansOfAll, Stmt.toList_appendSpansOfAll, stmt.toList_appendSpans,
        Stmt.statementsOfAll, List.map_append, List.append_assoc]

end

/-- The spans of a program are those of its statements, nested ones included. -/
theorem Program.spans_eq (program : Program) :
    program.spans = program.statements.map Stmt.span := by
  rw [spans, Stmt.toList_appendSpansOfAll]
  rfl

/-! ## Where nested statements are read -/

/-- The second cursor is reached by moving past one token or more. -/
structure Cursor.Before (first last : Cursor) : Prop where
  reached : first.LeadsTo last
  shorter : last.rest.length < first.rest.length

theorem Cursor.LeadsTo.trans_before {first middle last : Cursor}
    (reached : first.LeadsTo middle) (before : middle.Before last) : first.Before last :=
  ⟨reached.trans before.reached, Nat.lt_of_lt_of_le before.shorter reached.length_le⟩

theorem Cursor.Before.trans_leadsTo {first middle last : Cursor}
    (before : first.Before middle) (reached : middle.LeadsTo last) : first.Before last :=
  ⟨before.reached.trans reached, Nat.lt_of_le_of_lt reached.length_le before.shorter⟩

/-- The statement was read between two cursors, with other tokens before and after it, and
with no more than the given number of levels. -/
inductive Stmt.ReadInside (levels : Nat) (first last : Cursor) : Stmt → Prop
  | read {fewer : Nat} {cursor : Cursor} {parsed : Parsed Stmt cursor} :
      fewer ≤ levels →
        Reader.statement (Reader.expression fewer) cursor = .ok parsed →
          first.Before cursor → parsed.after.Before last →
            ReadInside levels first last parsed.value

/-- All of the statements were read between two cursors. -/
def Stmt.AllInside (levels : Nat) (first last : Cursor) (stmts : List Stmt) : Prop :=
  ∀ stmt ∈ stmts, stmt.ReadInside levels first last

namespace Stmt.AllInside

variable {levels : Nat} {first last : Cursor} {stmts others : List Stmt}

theorem nil : AllInside levels first last [] :=
  List.forall_mem_nil _

theorem append (inside : AllInside levels first last stmts)
    (othersInside : AllInside levels first last others) :
    AllInside levels first last (stmts ++ others) :=
  List.forall_mem_append.mpr ⟨inside, othersInside⟩

theorem widen {before after : Cursor} (inside : AllInside levels first last stmts)
    (reached : before.LeadsTo first) (reachedAfter : last.LeadsTo after) :
    AllInside levels before after stmts := by
  intro stmt member
  obtain ⟨fewer, read, behind, ahead⟩ := inside stmt member
  exact .read fewer read (reached.trans_before behind) (ahead.trans_leadsTo reachedAfter)

theorem mono {more : Nat} (inside : AllInside levels first last stmts) (least : levels ≤ more) :
    AllInside more first last stmts := by
  intro stmt member
  obtain ⟨fewer, read, behind, ahead⟩ := inside stmt member
  exact .read (Nat.le_trans fewer least) read behind ahead

end Stmt.AllInside

namespace Reader

open Stmt (AllInside)

section Nested

variable {levels : Nat}
  (nestedInside : ∀ {minimum : Precedence} {cursor : Cursor} {parsed : Parsed Expr cursor},
    expression levels minimum cursor = .ok parsed →
      AllInside levels cursor parsed.after parsed.value.statements)
  {start cursor : Cursor}

include nestedInside

theorem itemsTail_inside {closing : Symbol} {before : Parsed (Array Expr) start}
    {parsed : Parsed (List Expr) start}
    (read : itemsTail (expression levels) closing before = .ok parsed) :
    ∃ more, parsed.value = before.value.toList ++ more ∧
      AllInside levels before.after parsed.after (Expr.statementsOfAll more) := by
  induction length : before.after.rest.length using Nat.strongRecOn generalizing before with
  | _ _ inductionHypothesis =>
      subst length
      rw [itemsTail] at read
      split at read
      · next comma found =>
          obtain ⟨item, readItem, read⟩ := (except_bind_eq_ok_iff _ _ _).mp read
          have afterComma : before.after.LeadsTo comma.after := .accepted .here found
          have afterItem : comma.after.LeadsTo item.after :=
            (expression_moves levels .lowest .here).of_ok readItem
          have ahead : item.after.LeadsTo parsed.after :=
            (itemsTail_moves (expression_moves levels) closing .here).of_ok read
          obtain ⟨more, value, inside⟩ := inductionHypothesis _
            (Nat.lt_trans item.shorter comma.shorter) read rfl
          refine ⟨item.value :: more, ?_, ?_⟩
          · rw [value, Array.toList_push, List.append_assoc]
            rfl
          · exact ((nestedInside readItem).widen afterComma ahead).append
              (inside.widen (afterComma.trans afterItem) .here)
      · obtain ⟨closed, readClosed, ended⟩ := (except_bind_eq_ok_iff _ _ _).mp read
        cases ended
        exact ⟨[], (List.append_nil _).symm, .nil⟩

theorem items_inside {closing : Symbol} {parsed : Parsed (List Expr) cursor}
    (read : items (expression levels) closing cursor = .ok parsed) :
    AllInside levels cursor parsed.after (Expr.statementsOfAll parsed.value) := by
  unfold items at read
  split at read
  · cases read
    exact .nil
  · obtain ⟨first, readFirst, read⟩ := (except_bind_eq_ok_iff _ _ _).mp read
    have afterFirst : cursor.LeadsTo first.after :=
      (expression_moves levels .lowest .here).of_ok readFirst
    have ahead : first.after.LeadsTo parsed.after :=
      (itemsTail_moves (expression_moves levels) closing .here).of_ok read
    obtain ⟨more, value, inside⟩ := itemsTail_inside nestedInside read
    have whole : parsed.value = first.value :: more := value
    rw [whole, Expr.statementsOfAll]
    exact ((nestedInside readFirst).widen .here ahead).append (inside.widen afterFirst .here)

theorem boundClause_inside {begun : Span} {bare : Parsed Stmt cursor}
    (read : boundClause (expression levels) begun cursor = .ok bare) :
    AllInside levels cursor bare.after bare.value.value.statements := by
  obtain ⟨name, readName, read⟩ := (except_bind_eq_ok_iff _ _ _).mp read
  obtain ⟨assign, readAssign, read⟩ := (except_bind_eq_ok_iff _ _ _).mp read
  obtain ⟨value, readValue, ended⟩ := (except_bind_eq_ok_iff _ _ _).mp read
  cases ended
  have afterName := (identifier_moves .here).of_ok readName
  have afterAssign := (symbol_moves .assign afterName).of_ok readAssign
  exact (nestedInside readValue).widen afterAssign .here

theorem clause_inside {bare : Parsed Stmt cursor}
    (read : clause (expression levels) cursor = .ok bare) :
    AllInside levels cursor bare.after bare.value.value.statements := by
  unfold clause at read
  split at read
  · next word found =>
      obtain ⟨bound, readBound, ended⟩ := (except_bind_eq_ok_iff _ _ _).mp read
      cases ended
      exact (boundClause_inside nestedInside readBound).widen (.accepted .here found) .here
  · obtain ⟨value, readValue, ended⟩ := (except_bind_eq_ok_iff _ _ _).mp read
    cases ended
    exact nestedInside readValue

theorem statement_inside {stmt : Parsed Stmt cursor}
    (read : statement (expression levels) cursor = .ok stmt) :
    AllInside levels cursor stmt.after stmt.value.value.statements := by
  obtain ⟨bare, readBare, rfl⟩ := exists_clause read
  rw [value_optionalSemicolon]
  exact (clause_inside nestedInside readBare).widen .here (optionalSemicolon_moves .here)

theorem blockTail_inside {before : Parsed (Array Stmt) start}
    {parsed : Parsed (List Stmt) start} {first : Cursor} (behind : first.Before before.after)
    (read : blockTail (expression levels) before = .ok parsed) :
    before.after.Before parsed.after ∧ ∃ more, parsed.value = before.value.toList ++ more ∧
      AllInside levels first parsed.after (Stmt.statementsOfAll more) := by
  induction length : before.after.rest.length using Nat.strongRecOn generalizing before with
  | _ _ inductionHypothesis =>
      subst length
      rw [blockTail] at read
      split at read
      · obtain ⟨closed, readClosed, ended⟩ := (except_bind_eq_ok_iff _ _ _).mp read
        cases ended
        have moved := (symbol_moves .closeBrace .here).of_ok readClosed
        exact ⟨⟨moved, closed.shorter⟩, [], (List.append_nil _).symm, .nil⟩
      · obtain ⟨stmt, readStmt, read⟩ := (except_bind_eq_ok_iff _ _ _).mp read
        have moved : before.after.LeadsTo stmt.after :=
          (statement_moves (expression_moves levels) .here).of_ok readStmt
        obtain ⟨ahead, more, value, inside⟩ := inductionHypothesis _ stmt.shorter
          (behind.trans_leadsTo moved) read rfl
        refine ⟨moved.trans_before ahead, stmt.value :: more, ?_, ?_⟩
        · rw [value, Array.toList_push, List.append_assoc]
          rfl
        · rw [Stmt.statementsOfAll, Stmt.statements_eq]
          refine .append (List.forall_mem_cons.mpr ⟨?_, ?_⟩) inside
          · exact .read (Nat.le_refl _) readStmt behind ahead
          · exact (statement_inside nestedInside readStmt).widen behind.reached ahead.reached

theorem block_inside {parsed : Parsed (List Stmt) cursor}
    (read : block (expression levels) cursor = .ok parsed) :
    AllInside levels cursor parsed.after (Stmt.statementsOfAll parsed.value) := by
  obtain ⟨opened, readOpened, read⟩ := (except_bind_eq_ok_iff _ _ _).mp read
  have moved := (symbol_moves .openBrace .here).of_ok readOpened
  obtain ⟨_, more, value, inside⟩ :=
    blockTail_inside nestedInside ⟨moved, opened.shorter⟩ read
  have whole : parsed.value = more := value
  rw [whole]
  exact inside

theorem alternative_inside {condition : Expr} {consequence : Parsed (List Stmt) start}
    {parsed : Parsed Expr start} {first : Cursor} (behind : first.LeadsTo consequence.after)
    (inside : AllInside levels first consequence.after
      (condition.statements ++ Stmt.statementsOfAll consequence.value))
    (read : alternative (expression levels) condition consequence = .ok parsed) :
    AllInside levels first parsed.after parsed.value.statements := by
  have moved : consequence.after.LeadsTo parsed.after :=
    (alternative_moves (expression_moves levels) condition .here).of_ok read
  unfold alternative at read
  split at read
  · next word found =>
      obtain ⟨other, readOther, ended⟩ := (except_bind_eq_ok_iff _ _ _).mp read
      cases ended
      change AllInside _ _ _ (Expr.conditional _ _ (some _)).statements
      rw [Expr.statements, ← List.append_assoc]
      have afterWord := behind.accepted found
      exact (inside.widen .here moved).append
        ((block_inside nestedInside readOther).widen afterWord .here)
  · cases read
    change AllInside _ _ _ (Expr.conditional _ _ none).statements
    rw [Expr.statements]
    exact inside

theorem conditional_inside {parsed : Parsed Expr cursor}
    (read : conditional (expression levels) cursor = .ok parsed) :
    AllInside levels cursor parsed.after parsed.value.statements := by
  obtain ⟨opened, readOpened, read⟩ := (except_bind_eq_ok_iff _ _ _).mp read
  obtain ⟨condition, readCondition, read⟩ := (except_bind_eq_ok_iff _ _ _).mp read
  obtain ⟨closed, readClosed, read⟩ := (except_bind_eq_ok_iff _ _ _).mp read
  obtain ⟨consequence, readConsequence, read⟩ := (except_bind_eq_ok_iff _ _ _).mp read
  have afterOpened := (symbol_moves .openParen .here).of_ok readOpened
  have afterCondition := (expression_moves levels .lowest .here).of_ok readCondition
  have afterClosed := (symbol_moves .closeParen .here).of_ok readClosed
  have afterConsequence := (block_moves (expression_moves levels) .here).of_ok readConsequence
  have behind := (afterOpened.trans afterCondition).trans afterClosed
  refine alternative_inside nestedInside (behind.trans afterConsequence) (.append ?_ ?_) read
  · exact (nestedInside readCondition).widen afterOpened (afterClosed.trans afterConsequence)
  · exact (block_inside nestedInside readConsequence).widen behind .here

theorem unaryOperand_inside {operator : UnaryOperator} {parsed : Parsed Expr cursor}
    (read : unaryOperand (expression levels) operator cursor = .ok parsed) :
    AllInside levels cursor parsed.after parsed.value.statements := by
  obtain ⟨operand, readOperand, ended⟩ := (except_bind_eq_ok_iff _ _ _).mp read
  cases ended
  have inside := nestedInside readOperand
  change AllInside _ _ _ (Expr.unary _ _).statements
  rw [Expr.statements]
  exact inside

theorem group_inside {parsed : Parsed Expr cursor}
    (read : group (expression levels) cursor = .ok parsed) :
    AllInside levels cursor parsed.after parsed.value.statements := by
  obtain ⟨inner, readInner, read⟩ := (except_bind_eq_ok_iff _ _ _).mp read
  obtain ⟨closed, readClosed, ended⟩ := (except_bind_eq_ok_iff _ _ _).mp read
  cases ended
  have moved := (symbol_moves .closeParen .here).of_ok readClosed
  exact (nestedInside readInner).widen .here moved

theorem operand_inside {parsed : Parsed Expr cursor}
    (read : operand (expression levels) cursor = .ok parsed) :
    AllInside levels cursor parsed.after parsed.value.statements := by
  rw [operand] at read
  cases found : cursor.next? with
  | none =>
      rw [found] at read
      cases read
  | some next =>
      rw [found] at read
      have moved : cursor.LeadsTo next.after := .past .here found
      obtain ⟨token, after, shorter⟩ := next
      cases token with
      | integer | string | identifier =>
          cases read
          exact .nil
      | keyword word =>
          cases word with
          | trueWord | falseWord =>
              cases read
              exact .nil
          | ifWord =>
              obtain ⟨whole, readWhole, ended⟩ := (except_bind_eq_ok_iff _ _ _).mp read
              cases ended
              exact (conditional_inside nestedInside readWhole).widen moved .here
          | _ => cases read
      | symbol mark =>
          cases mark with
          | bang | minus =>
              obtain ⟨whole, readWhole, ended⟩ := (except_bind_eq_ok_iff _ _ _).mp read
              cases ended
              exact (unaryOperand_inside nestedInside readWhole).widen moved .here
          | openParen =>
              obtain ⟨whole, readWhole, ended⟩ := (except_bind_eq_ok_iff _ _ _).mp read
              cases ended
              exact (group_inside nestedInside readWhole).widen moved .here
          | openBracket =>
              obtain ⟨whole, readWhole, ended⟩ := (except_bind_eq_ok_iff _ _ _).mp read
              cases ended
              change AllInside _ _ _ (Expr.array _).statements
              rw [Expr.statements]
              exact (items_inside nestedInside readWhole).widen moved .here
          | _ => cases read

theorem continuationBody_inside {left : Expr} {continuation : Continuation} {first : Cursor}
    (behind : first.LeadsTo cursor) (inside : AllInside levels first cursor left.statements)
    {parsed : Parsed Expr cursor}
    (read : continuationBody (expression levels) left continuation cursor = .ok parsed) :
    AllInside levels first parsed.after parsed.value.statements := by
  have moved : cursor.LeadsTo parsed.after :=
    (continuationBody_moves (expression_moves levels) left continuation .here).of_ok read
  have leftInside := inside.widen .here moved
  cases continuation with
  | arguments =>
      obtain ⟨list, readList, ended⟩ := (except_bind_eq_ok_iff _ _ _).mp read
      cases ended
      change AllInside _ _ _ (Expr.call _ _).statements
      rw [Expr.statements]
      exact leftInside.append ((items_inside nestedInside readList).widen behind .here)
  | position =>
      obtain ⟨position, readPosition, read⟩ := (except_bind_eq_ok_iff _ _ _).mp read
      obtain ⟨closed, readClosed, ended⟩ := (except_bind_eq_ok_iff _ _ _).mp read
      cases ended
      change AllInside _ _ _ (Expr.index _ _).statements
      rw [Expr.statements]
      have ahead := (symbol_moves .closeBracket .here).of_ok readClosed
      exact leftInside.append ((nestedInside readPosition).widen behind ahead)
  | operator op =>
      obtain ⟨right, readRight, ended⟩ := (except_bind_eq_ok_iff _ _ _).mp read
      cases ended
      change AllInside _ _ _ (Expr.binary _ _ _).statements
      rw [Expr.statements]
      exact leftInside.append ((nestedInside readRight).widen behind .here)

theorem continuations_inside {minimum : Precedence} {left parsed : Parsed Expr start}
    {first : Cursor} (behind : first.LeadsTo left.after)
    (inside : AllInside levels first left.after left.value.statements)
    (read : continuations (expression levels) minimum left = .ok parsed) :
    AllInside levels first parsed.after parsed.value.statements := by
  induction length : left.after.rest.length using Nat.strongRecOn generalizing left with
  | _ _ inductionHypothesis =>
      subst length
      rw [continuations] at read
      split at read
      · next next found =>
          split at read
          · next continuation _ =>
              split at read
              · obtain ⟨whole, readWhole, read⟩ := (except_bind_eq_ok_iff _ _ _).mp read
                have afterNext : left.after.LeadsTo next.after := .past .here found
                have afterWhole : next.after.LeadsTo whole.after :=
                  (continuationBody_moves (expression_moves levels) _ continuation
                    .here).of_ok readWhole
                have wholeInside := continuationBody_inside nestedInside
                  (behind.trans afterNext) (inside.widen .here afterNext) readWhole
                exact inductionHypothesis _ (Nat.lt_trans whole.shorter next.shorter)
                  ((behind.trans afterNext).trans afterWhole) wholeInside read rfl
              · cases read
                exact inside
          · cases read
            exact inside
      · cases read
        exact inside

end Nested

/-- The statements inside an expression were read between its first token and its last
one. -/
theorem expression_inside (levels : Nat) {minimum : Precedence} {cursor : Cursor}
    {parsed : Parsed Expr cursor} (read : expression levels minimum cursor = .ok parsed) :
    AllInside levels cursor parsed.after parsed.value.statements := by
  induction levels generalizing minimum cursor with
  | zero => cases read
  | succ levels inductionHypothesis =>
      obtain ⟨left, readLeft, read⟩ := (except_bind_eq_ok_iff _ _ _).mp read
      have moved := (operand_moves (expression_moves levels) .here).of_ok readLeft
      have inside := operand_inside inductionHypothesis readLeft
      exact (continuations_inside inductionHypothesis moved inside read).mono
        (Nat.le_succ levels)

end Reader

end ExprMachine
