import ExprMachine.Proofs.Parsing.Matching
import ExprMachine.Proofs.Parsing.Programs
import Mathlib.Data.List.Forall2

/-!
# Reading one program after another

When the statements of a program end with a semicolon, the tokens of another program can
follow. They are read as they are on their own: the semicolon keeps the two programs
apart, since no expression ends with one.
-/

namespace ExprMachine

open Reader

/-! ## Last tokens -/

/-- No expression ends with a semicolon. -/
def EndsExpr (tokens : List Token) : Prop :=
  ∃ front last, tokens = front ++ [last] ∧ last ≠ .symbol .semicolon

theorem EndsExpr.append {back : List Token} (ends : EndsExpr back) (front : List Token) :
    EndsExpr (front ++ back) := by
  obtain ⟨more, last, rfl, differs⟩ := ends
  exact ⟨front ++ more, last, (List.append_assoc ..).symm, differs⟩

theorem endsExpr_concat (front : List Token) {mark : Symbol} (differs : mark ≠ .semicolon) :
    EndsExpr (front ++ [.symbol mark]) :=
  ⟨front, _, rfl, fun same => differs (Token.symbol.inj same)⟩

section Layer

variable {Nested : Level → List Token → Phrase → Prop}
  (nestedEnds : ∀ {level tokens phrase}, Nested level tokens phrase → EndsExpr tokens)

include nestedEnds

theorem Operand.endsExpr {level : Level} {tokens : List Token} {phrase : Phrase}
    (derived : Operand Nested level tokens phrase) : EndsExpr tokens := by
  cases derived with
  | integer | boolean | string | identifier => exact ⟨[], _, rfl, nofun⟩
  | group _ => exact endsExpr_concat (_ :: _) (by decide)
  | array _ => exact endsExpr_concat (_ :: _) (by decide)
  | @conditional condition consequence other _ _ _ _ _ otherDerived =>
      have block : EndsExpr (.symbol .closeBrace :: other) := by
        cases otherDerived with
        | none => exact endsExpr_concat [] (by decide)
        | some _ => exact endsExpr_concat (_ :: _ :: _ :: _) (by decide)
      exact ((block.append (_ :: _ :: consequence)).append condition).append [_, _]
  | unary operator derived => exact (nestedEnds derived).append [_]

theorem Layer.endsExpr {level : Level} {tokens : List Token} {phrase : Phrase}
    (derived : Layer Nested level tokens phrase) : EndsExpr tokens := by
  induction derived with
  | operand operandDerived => exact operandDerived.endsExpr nestedEnds
  | tighter _ inductionHypothesis => exact inductionHypothesis
  | binary operator _ rightDerived _ =>
      exact ((nestedEnds rightDerived).append [_]).append _
  | call _ _ _ => exact (endsExpr_concat (_ :: _) (by decide)).append _
  | index _ _ _ => exact (endsExpr_concat (_ :: _) (by decide)).append _

end Layer

theorem Derives.endsExpr {levels : Nat} {level : Level} {tokens : List Token}
    {phrase : Phrase} (derived : Derives levels level tokens phrase) :
    EndsExpr tokens := by
  induction levels generalizing level tokens phrase with
  | zero => exact derived.elim
  | succ levels inductionHypothesis =>
      exact Layer.endsExpr (fun nested => inductionHypothesis nested) derived

/-! ## The first program -/

theorem EndsExpr.not_terminated {tokens : List Token} (ends : EndsExpr tokens) :
    ¬ Terminated tokens := by
  obtain ⟨front, last, rfl, differs⟩ := ends
  exact fun terminated => differs (terminated last List.getLast?_concat)

/-- After a statement the cursor is still inside the same tokens. -/
theorem Cursor.Inside.statement {whole : List Lexeme} {cursor : Cursor}
    (inside : cursor.Inside whole) {levels : Nat} {stmt : Parsed Stmt cursor}
    (read : Reader.statement (Reader.expression levels) cursor = .ok stmt) :
    stmt.after.Inside whole := by
  obtain ⟨_, _, _, after⟩ := inside.alone.statement read
  exact after.toInside

/-- Statements that end with a semicolon are read whatever comes after them. -/
theorem statementsFrom_append {whole : List Lexeme} {tokens rest : List Token}
    {sentences : List Sentence}
    (derived : Sentences (Derives maxNesting) tokens sentences)
    (terminated : Terminated tokens) (allowed : Nat) (statements : Array Stmt)
    (errors : Array ParseError) {cursor : Cursor} (inside : cursor.Inside whole)
    (shape : cursor.tokens = tokens ++ rest) :
    ∃ program after, Stmt.allWithoutSpans program = Sentence.stmts sentences ∧
      after.Inside whole ∧ after.tokens = rest ∧
        statementsFrom (allowed + 1) statements errors cursor =
          statementsFrom (allowed + 1) (statements ++ program.toArray) errors after := by
  induction derived generalizing statements cursor with
  | nil => exact ⟨[], cursor, rfl, inside, shape, by simp⟩
  | @cons name value more phrase ending sentences valueDerived restDerived noResumption
      inductionHypothesis =>
      have endingTerminated : Terminated (value ++ (Sentence.ending ending ++ more)) :=
        terminated.of_append
      have stops : ending = false → Stops Precedence.lowest.rank (more ++ rest) ∧
          (more ++ rest).head? ≠ some (.symbol .semicolon) := by
        rintro rfl
        refine restDerived.stops_of_ne_nil ?_ (noResumption rfl) rest
        rintro rfl
        rw [Sentence.ending, List.append_nil, List.append_nil] at endingTerminated
        exact valueDerived.endsExpr.not_terminated endingTerminated
      simp only [List.append_assoc] at shape
      obtain ⟨stmt, read, same, after⟩ :=
        statement_complete (expression_complete maxNesting) valueDerived shape stops
      obtain ⟨program, last, sameRest, lastInside, lastTokens, restRead⟩ :=
        inductionHypothesis endingTerminated.of_append.of_append
          (statements.push stmt.value) (inside.statement read) after
      refine ⟨stmt.value :: program, last, ?_, lastInside, lastTokens, ?_⟩
      · rw [Stmt.allWithoutSpans, same, sameRest]
        rfl
      · rw [statementsFrom_of_statement read, restRead]
        simp

/-! ## The second program -/

/-- What was read is the same statement, with its span moved. -/
structure Reader.StmtShifted (distance : Nat) (stmt other : Stmt) : Prop where
  same : other.withoutSpans = stmt.withoutSpans
  span : other.span = stmt.span.shift distance

theorem Reader.StmtShifted.of_shift (distance : Nat) (stmt : Stmt) :
    StmtShifted distance stmt (stmt.shift distance) where
  same := stmt.withoutSpans_shift distance
  span := by cases stmt <;> rfl

variable {copy : Copy}

/-- After some statements come the same statements, with their spans moved. -/
def StmtsShifted (distance : Nat) (front stmts others : List Stmt) : Prop :=
  ∃ back, others = front ++ back ∧
    List.Forall₂ (Reader.StmtShifted distance) stmts back

theorem StmtsShifted.of_map (distance : Nat) (front stmts : List Stmt) :
    StmtsShifted distance front stmts (front ++ stmts.map (Stmt.shift distance)) := by
  refine ⟨_, rfl, List.forall₂_map_right_iff.mpr ?_⟩
  exact List.forall₂_same.mpr fun stmt _ => .of_shift distance stmt

/-- Moved tokens are read as the same statements with the same errors, but for places.
Statements that were read before come first. -/
theorem statementsFrom_shifted (alone : copy.more = []) {front : List Stmt}
    {allowed : Nat} {statements others : Array Stmt}
    {errors otherErrors : Array ParseError} {cursor later : Cursor}
    (aligned : cursor.Aligned copy 0 later)
    (same : others.toList = front ++ statements.toList.map (Stmt.shift copy.move.bytes))
    (sameErrors : otherErrors.toList = errors.toList.map (ParseError.shift copy.move)) :
    (statementsFrom allowed others otherErrors later).program =
        front ++ (statementsFrom allowed statements errors cursor).program.map
          (Stmt.shift copy.move.bytes) ∧
      (statementsFrom allowed others otherErrors later).errors =
        (statementsFrom allowed statements errors cursor).errors.map
          (ParseError.shift copy.move) := by
  fun_induction statementsFrom allowed statements errors cursor
    generalizing others otherErrors later with
  | case1 =>
      rw [statementsFrom.eq_def]
      exact ⟨same, sameErrors⟩
  | case2 allowed statements errors cursor ended _ =>
      have laterEnded : later.tokens = [] := by
        rw [Cursor.tokens, aligned.rest, ended, alone]
        rfl
      rw [statementsFrom_of_end laterEnded]
      exact ⟨same, sameErrors⟩
  | case3 statements errors cursor allowed _ _ _ stmt read inductionHypothesis =>
      obtain ⟨other, laterRead, sameStmt, after⟩ :=
        Cursor.Matches.statement { aligned with goesOn := Or.inl alone } read
      rw [statementsFrom_of_statement laterRead]
      refine inductionHypothesis after ?_ sameErrors
      rw [Array.toList_push, Array.toList_push, same, sameStmt, List.map_append,
        List.append_assoc]
      rfl
  | case4 statements errors cursor allowed first rest shape failure read
      inductionHypothesis =>
      have nonempty : cursor.rest ≠ [] := by
        rw [shape]
        exact List.cons_ne_nil _ _
      obtain ⟨other, laterRead, sameError, after⟩ :=
        (aligned.matched nonempty).failure (Or.inl alone) nonempty read
      rw [statementsFrom_of_failure (aligned.rest_ne_nil nonempty) laterRead]
      refine inductionHypothesis after same ?_
      rw [Array.toList_push, Array.toList_push, List.map_append, sameErrors, sameError]
      rfl

/-! ## Both programs -/

/-- A program without errors that ends with a semicolon can be followed by the tokens of
another one, which is read as it is on its own, but for places. -/
theorem parse_append {first : List Lexeme} (fine : (parse first).errors = [])
    (terminated : Terminated (first.map Lexeme.token)) (second : List Lexeme)
    (distance : Nat) :
    ∃ front, Stmt.allWithoutSpans front = Stmt.allWithoutSpans (parse first).program ∧
      StmtsShifted distance front (parse second).program
        (parse (first ++ second.map (Lexeme.shift distance))).program ∧
      (parse (first ++ second.map (Lexeme.shift distance))).errors =
        (parse second).errors.map (ParseError.shift ⟨first.length, distance⟩) := by
  obtain ⟨sentences, derived, same⟩ := statementsFrom_sound (by decide) fine
  let moved := second.map (Lexeme.shift distance)
  let start := Cursor.start (first ++ moved)
  have inside : start.Inside (first ++ moved) := ⟨List.suffix_refl _, Nat.zero_add _⟩
  have shape : start.tokens = (Cursor.start first).tokens ++ moved.map Lexeme.token :=
    List.map_append
  obtain ⟨front, after, sameFront, afterInside, afterTokens, read⟩ :=
    statementsFrom_append derived terminated (maxParseErrors - 1) #[] #[] inside shape
  have length : after.rest.length = moved.length := by
    have lengths := congrArg List.length afterTokens
    rwa [Cursor.tokens, List.length_map, List.length_map] at lengths
  have rest : after.rest = moved :=
    (List.suffix_of_suffix_length_le afterInside.suffix (List.suffix_append first moved)
      (Nat.le_of_eq length)).eq_of_length length
  have place := afterInside.place
  rw [length, List.length_append] at place
  let copy : Copy := ⟨second, ⟨first.length, distance⟩, []⟩
  have aligned : (Cursor.start second).Aligned copy 0 after :=
    { suffix := List.suffix_refl _
      place := Nat.zero_add _
      rest := rest.trans (List.append_nil _).symm
      position := by
        rw [Nat.add_right_cancel place]
        exact (Nat.zero_add _).symm
      previous := fun impossible => absurd rfl impossible
      guarded := Or.inl rfl }
  refine ⟨front, ?_, ?_⟩
  · rw [sameFront]
    exact same
  · have whole : parse (first ++ moved) = _ := read
    have begun : (#[] ++ front.toArray).toList =
        front ++ (#[] : Array Stmt).toList.map (Stmt.shift distance) := by
      simp
    have noErrors : (#[] : Array ParseError).toList =
        (#[] : Array ParseError).toList.map (ParseError.shift copy.move) := rfl
    obtain ⟨program, errors⟩ := statementsFrom_shifted rfl aligned begun noErrors
    rw [whole]
    refine ⟨?_, errors⟩
    rw [program]
    exact .of_map distance front _

end ExprMachine
