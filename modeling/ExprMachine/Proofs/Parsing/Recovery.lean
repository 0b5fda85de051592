import ExprMachine.Proofs.Parsing.Matching
import ExprMachine.Proofs.Parsing.Programs
import Mathlib.Data.List.Infix

/-!
# Errors stay where they are

After an error, reading goes on behind the next semicolon outside the brackets that were
opened since. When the tokens of a program end with a semicolon and their brackets
balance, what comes after them is read as it is on its own, whatever errors there are
before it, as long as reading does not end because of them.
-/

namespace ExprMachine

open Reader

/-! ## Balanced tokens -/

/-- Brackets of any kind are closed after they were opened, and all of them are. -/
structure Balanced (tokens : List Token) : Prop where
  opened : ∀ front, front <+: tokens →
    front.countP Token.closes ≤ front.countP Token.opens
  closed : tokens.countP Token.closes = tokens.countP Token.opens

/-- What is left of balanced tokens closes the brackets that it opens. -/
theorem Balanced.guarded {whole rest : List Token} (balanced : Balanced whole)
    (terminated : Terminated whole) (suffix : rest <:+ whole) : Guarded 0 rest := by
  obtain ⟨front, rfl⟩ := suffix
  refine ⟨terminated.of_append, ?_⟩
  have opened := balanced.opened front (List.prefix_append ..)
  have closed := balanced.closed
  rw [List.countP_append, List.countP_append] at closed
  omega

/-! ## Runs -/

theorem size_le_length_errors (allowed : Nat) (statements : Array Stmt)
    (errors : Array ParseError) (cursor : Cursor) :
    errors.size ≤ (statementsFrom allowed statements errors cursor).errors.length := by
  fun_induction statementsFrom allowed statements errors cursor with
  | case1 => exact Nat.le_of_eq Array.length_toList.symm
  | case2 => exact Nat.le_of_eq Array.length_toList.symm
  | case3 statements errors cursor allowed _ _ _ stmt read inductionHypothesis =>
      exact inductionHypothesis
  | case4 statements errors cursor allowed _ _ _ failure read inductionHypothesis =>
      rw [Array.size_push] at inductionHypothesis
      exact Nat.le_of_succ_le inductionHypothesis

/-- The copy of tokens is read as these tokens are, and reading goes on with what comes
after them. Statements and errors that were read before come first, and as many errors
are allowed as the tokens have, and some more. -/
theorem statementsFrom_copy {copy : Copy} (steady : copy.Steady) {front : List Stmt}
    {frontErrors : List ParseError} {allowed room spare : Nat}
    {statements others : Array Stmt} {errors otherErrors : Array ParseError}
    {cursor later : Cursor}
    (aligned : cursor.Aligned copy 0 later)
    (same : others.toList = front ++ statements.toList.map (Stmt.shift copy.move.bytes))
    (sameErrors : otherErrors.toList =
      frontErrors ++ errors.toList.map (ParseError.shift copy.move))
    (ends : (statementsFrom allowed statements errors cursor).errors.length <
      errors.size + allowed)
    (enough : (statementsFrom allowed statements errors cursor).errors.length + spare +
      1 = errors.size + room) :
    ∃ stmts errs after, after.rest = copy.more ∧
      after.position = copy.whole.length + copy.move.tokens ∧
      stmts.toList = front ++
        (statementsFrom allowed statements errors cursor).program.map
          (Stmt.shift copy.move.bytes) ∧
      errs.toList = frontErrors ++
        (statementsFrom allowed statements errors cursor).errors.map
          (ParseError.shift copy.move) ∧
      statementsFrom room others otherErrors later =
        statementsFrom (spare + 1) stmts errs after := by
  fun_induction statementsFrom allowed statements errors cursor
    generalizing others otherErrors later room with
  | case1 statements errors cursor => exact absurd ends (by simp)
  | case2 allowed statements errors cursor ended _ =>
      refine ⟨others, otherErrors, later, ?_, ?_, same, sameErrors, ?_⟩
      · rw [aligned.rest, ended]
        rfl
      · rw [aligned.position, ← aligned.place, ended]
        rfl
      · have exact : room = spare + 1 := by
          have size := errors.length_toList
          dsimp only at enough
          omega
        rw [exact]
  | case3 statements errors cursor allowed first rest shape stmt read
      inductionHypothesis =>
      have nonempty : cursor.rest ≠ [] := by
        rw [shape]
        exact List.cons_ne_nil _ _
      obtain ⟨remaining, rfl⟩ : ∃ remaining, room = remaining + 1 := by
        have grown := size_le_length_errors (allowed + 1) (statements.push stmt.value)
          errors stmt.after
        exact ⟨room - 1, by omega⟩
      obtain ⟨other, laterRead, sameStmt, after⟩ :=
        (aligned.matched nonempty).statement read
      rw [statementsFrom_of_statement laterRead]
      refine inductionHypothesis after ?_ sameErrors ends enough
      rw [Array.toList_push, Array.toList_push, same, sameStmt, List.map_append,
        List.append_assoc]
      rfl
  | case4 statements errors cursor allowed first rest shape failure read
      inductionHypothesis =>
      have nonempty : cursor.rest ≠ [] := by
        rw [shape]
        exact List.cons_ne_nil _ _
      have grown := size_le_length_errors allowed statements (errors.push failure.error)
        (failure.cursor.afterStatement 0)
      rw [Array.size_push] at grown
      obtain ⟨remaining, rfl⟩ : ∃ remaining, room = remaining + 1 := ⟨room - 1, by omega⟩
      obtain ⟨other, laterRead, sameError, after⟩ :=
        (aligned.matched nonempty).failure steady nonempty read
      rw [statementsFrom_of_failure (aligned.rest_ne_nil nonempty) laterRead]
      refine inductionHypothesis after same ?_ (Nat.lt_of_lt_of_eq ends ?_)
        (enough.trans ?_)
      · rw [Array.toList_push, Array.toList_push, sameErrors, sameError, List.map_append,
          List.append_assoc]
        rfl
      · rw [Array.size_push]
        exact (Nat.succ_add_eq_add_succ ..).symm
      · rw [Array.size_push]
        exact (Nat.succ_add_eq_add_succ ..).symm

/-- A program that stands among other tokens is read as it is on its own, after what was
read before. -/
theorem statementsFrom_program {copy : Copy} (steady : copy.Steady) {later : Cursor}
    (aligned : (Cursor.start copy.whole).Aligned copy 0 later) {spare : Nat}
    (few : (parse copy.whole).errors.length + spare < maxParseErrors)
    (others : Array Stmt) (otherErrors : Array ParseError) :
    ∃ stmts errs after, after.rest = copy.more ∧
      after.position = copy.whole.length + copy.move.tokens ∧
      stmts.toList = others.toList ++
        (parse copy.whole).program.map (Stmt.shift copy.move.bytes) ∧
      errs.toList = otherErrors.toList ++
        (parse copy.whole).errors.map (ParseError.shift copy.move) ∧
      statementsFrom ((parse copy.whole).errors.length + spare + 1) others otherErrors
        later = statementsFrom (spare + 1) stmts errs after := by
  have ends : (parse copy.whole).errors.length < (#[] : Array ParseError).size +
      maxParseErrors := by
    rw [Array.size_empty]
    omega
  exact statementsFrom_copy steady aligned (List.append_nil _).symm
    (List.append_nil _).symm ends (Nat.zero_add _).symm

/-! ## Programs -/

/-- Errors stay where they are: tokens that end with a semicolon, and whose brackets
balance, can be followed by any other tokens. Both are read as they are on their own,
however malformed the first ones are, unless there are too many errors. Only the
positions of errors among the other tokens are counted from the first token of all. -/
theorem parse_local {first second : List Lexeme}
    (terminated : Terminated (first.map Lexeme.token))
    (balanced : Balanced (first.map Lexeme.token))
    (few : (parse first).errors.length + (parse second).errors.length < maxParseErrors) :
    parse (first ++ second) =
      ⟨(parse first).program ++ (parse second).program,
        (parse first).errors ++ (parse second).errors.map fun error =>
          { error with position := error.position + first.length }⟩ := by
  let front : Copy := ⟨first, ⟨0, 0⟩, second⟩
  let back : Copy := ⟨second, ⟨first.length, 0⟩, []⟩
  have frontSteady : front.Steady := Or.inr fun rest suffix =>
    balanced.guarded terminated (List.IsSuffix.map _ suffix)
  have atFront : (Cursor.start first).Aligned front 0 (.start (first ++ second)) :=
    { suffix := List.suffix_refl _
      place := Nat.zero_add _
      rest := congrArg (· ++ second) (List.map_id first).symm
      position := rfl
      previous := fun impossible => absurd rfl impossible
      guarded := Or.inr (balanced.guarded terminated (List.suffix_refl _)) }
  obtain ⟨spare, total⟩ : ∃ spare, (parse first).errors.length +
      ((parse second).errors.length + spare) + 1 = maxParseErrors :=
    ⟨maxParseErrors - 1 - (parse first).errors.length - (parse second).errors.length,
      by omega⟩
  have fewFirst : (parse first).errors.length +
      ((parse second).errors.length + spare) < maxParseErrors := by omega
  obtain ⟨stmts, errs, middle, rest, position, sameStmts, sameErrs, readFirst⟩ :=
    statementsFrom_program frontSteady atFront fewFirst #[] #[]
  have atBack : (Cursor.start second).Aligned back 0 middle :=
    { suffix := List.suffix_refl _
      place := Nat.zero_add _
      rest := by
        rw [rest]
        exact ((List.append_nil _).trans (List.map_id second)).symm
      position := position.trans (Nat.zero_add _).symm
      previous := fun impossible => absurd rfl impossible
      guarded := Or.inl rfl }
  have fewSecond : (parse second).errors.length + spare < maxParseErrors := by omega
  obtain ⟨allStmts, allErrs, last, ended, _, sameAll, sameAllErrs, readSecond⟩ :=
    statementsFrom_program (Or.inl rfl) atBack fewSecond stmts errs
  have program : allStmts.toList = (parse first).program ++ (parse second).program := by
    have unmoved (stmts : List Stmt) : stmts.map (Stmt.shift 0) = stmts := by
      rw [← Stmt.shiftAll_eq_map, Stmt.shiftAll_zero]
    rw [sameAll, sameStmts, unmoved, unmoved]
    rfl
  have errors : allErrs.toList = (parse first).errors ++ (parse second).errors.map
      (ParseError.shift ⟨first.length, 0⟩) := by
    have unmoved : (parse first).errors.map (ParseError.shift ⟨0, 0⟩) =
        (parse first).errors :=
      List.map_id _
    rw [sameAllErrs, sameErrs, unmoved]
    rfl
  calc parse (first ++ second)
    _ = statementsFrom ((parse first).errors.length +
          ((parse second).errors.length + spare) + 1) #[] #[]
          (.start (first ++ second)) := by
      rw [total]
      rfl
    _ = statementsFrom (spare + 1) allStmts allErrs last := readFirst.trans readSecond
    _ = ⟨allStmts.toList, allErrs.toList⟩ :=
      statementsFrom_of_end (congrArg (List.map Lexeme.token) ended) _ _ _
    _ = _ := by
      rw [program, errors]
      rfl

/-- The two semicolons of `(;);` end one error each, the second of which is met in the
middle of the brackets. -/
theorem parse_local_malformed :
    let first : List Lexeme :=
      [⟨.symbol .openParen, ⟨0, 1⟩⟩, ⟨.symbol .semicolon, ⟨1, 2⟩⟩,
        ⟨.symbol .closeParen, ⟨2, 3⟩⟩, ⟨.symbol .semicolon, ⟨3, 4⟩⟩]
    let second : List Lexeme := [⟨.identifier "a", ⟨4, 5⟩⟩, ⟨.symbol .closeParen, ⟨5, 6⟩⟩]
    Terminated (first.map Lexeme.token) ∧ Balanced (first.map Lexeme.token) ∧
      (parse first).errors.length + (parse second).errors.length < maxParseErrors ∧
      parse (first ++ second) = ⟨[.expression (.identifier "a") ⟨4, 5⟩],
        [⟨.expectedExpression (some (.symbol .semicolon)), 1, ⟨1, 2⟩⟩,
          ⟨.expectedExpression (some (.symbol .closeParen)), 2, ⟨2, 3⟩⟩,
          ⟨.expectedExpression (some (.symbol .closeParen)), 5, ⟨5, 6⟩⟩]⟩ := by
  intro first second
  have terminated : Terminated (first.map Lexeme.token) := by
    intro last found
    cases found
    rfl
  have balanced : Balanced (first.map Lexeme.token) := by
    refine ⟨fun front initial => ?_, by decide⟩
    have every : ∀ front ∈ (first.map Lexeme.token).inits,
        front.countP Token.closes ≤ front.countP Token.opens := by
      decide
    exact every front ((List.mem_inits ..).mpr initial)
  have readFirst : parse first = ⟨[],
      [⟨.expectedExpression (some (.symbol .semicolon)), 1, ⟨1, 2⟩⟩,
        ⟨.expectedExpression (some (.symbol .closeParen)), 2, ⟨2, 3⟩⟩]⟩ := by
    have atSemicolon : statement (expression maxNesting) (.start first) =
        .error ⟨.expectedExpression (some (.symbol .semicolon)),
          ⟨1, ⟨0, 1⟩, first.drop 1⟩⟩ := by
      with_unfolding_all rfl
    have resumed : Cursor.afterStatement ⟨1, ⟨0, 1⟩, first.drop 1⟩ 0 =
        ⟨2, ⟨1, 2⟩, first.drop 2⟩ := by
      with_unfolding_all rfl
    have atParen : statement (expression maxNesting) ⟨2, ⟨1, 2⟩, first.drop 2⟩ =
        .error ⟨.expectedExpression (some (.symbol .closeParen)),
          ⟨2, ⟨1, 2⟩, first.drop 2⟩⟩ := by
      with_unfolding_all rfl
    have ended : Cursor.afterStatement ⟨2, ⟨1, 2⟩, first.drop 2⟩ 0 =
        ⟨4, ⟨3, 4⟩, []⟩ := by
      with_unfolding_all rfl
    change statementsFrom (18 + 1 + 1) #[] #[] (.start first) = _
    rw [statementsFrom_of_failure (List.cons_ne_nil _ _) atSemicolon, resumed,
      statementsFrom_of_failure (List.cons_ne_nil _ _) atParen, ended,
      statementsFrom_of_end rfl]
    rfl
  have readSecond : parse second = ⟨[.expression (.identifier "a") ⟨4, 5⟩],
      [⟨.expectedExpression (some (.symbol .closeParen)), 1, ⟨5, 6⟩⟩]⟩ := by
    have name : statement (expression maxNesting) (.start second) =
        .ok ⟨.expression (.identifier "a") ⟨4, 5⟩, ⟨1, ⟨4, 5⟩, second.drop 1⟩,
          Nat.lt_succ_self 1⟩ := by
      with_unfolding_all rfl
    have atParen : statement (expression maxNesting) ⟨1, ⟨4, 5⟩, second.drop 1⟩ =
        .error ⟨.expectedExpression (some (.symbol .closeParen)),
          ⟨1, ⟨4, 5⟩, second.drop 1⟩⟩ := by
      with_unfolding_all rfl
    have ended : Cursor.afterStatement ⟨1, ⟨4, 5⟩, second.drop 1⟩ 0 =
        ⟨2, ⟨5, 6⟩, []⟩ := by
      with_unfolding_all rfl
    change statementsFrom (19 + 1) #[] #[] (.start second) = _
    rw [statementsFrom_of_statement name,
      statementsFrom_of_failure (List.cons_ne_nil _ _) atParen, ended,
      statementsFrom_of_end rfl]
    rfl
  have few : (parse first).errors.length + (parse second).errors.length <
      maxParseErrors := by
    rw [readFirst, readSecond]
    decide
  refine ⟨terminated, balanced, few, ?_⟩
  rw [parse_local terminated balanced few, readFirst, readSecond]
  rfl

end ExprMachine
