import ExprMachine.Proofs.Parsing.Programs
import ExprMachine.Proofs.Parsing.Regions

/-!
# Progress and errors

Whatever the tokens are, every statement and every error is accounted for. The errors come
in the order of the tokens, the statements do not overlap, and no error lies inside of a
statement that was read.
-/

namespace ExprMachine

/-! ## Statements and errors -/

section Spans

variable {text : List Char} {lexemes : List Lexeme} (covers : Token.Covers text lexemes)
  {stmt : Stmt} {first last : Nat} (fromTo : stmt.FromTo lexemes first last)

include covers fromTo

theorem Stmt.FromTo.stop_le {other : Stmt} {otherFirst otherLast : Nat}
    (otherFromTo : other.FromTo lexemes otherFirst otherLast) (before : last < otherFirst) :
    stmt.span.stop ≤ other.span.start := by
  obtain ⟨lexeme, found, stop⟩ := fromTo.ends
  obtain ⟨later, foundLater, start⟩ := otherFromTo.begins
  rw [stop, start]
  exact covers.stop_le found foundLater before

theorem ParseError.Placed.before {error : ParseError} (placed : error.Placed lexemes)
    (before : error.position < first) : error.span.stop ≤ stmt.span.start := by
  obtain ⟨lexeme, found, start⟩ := fromTo.begins
  rw [start]
  cases placed with
  | token there span =>
      rw [span]
      exact covers.stop_le there found before
  | ended position _ _ =>
      have inside := (List.getElem?_eq_some_iff.mp found).1
      omega

theorem ParseError.Placed.behind {error : ParseError} (placed : error.Placed lexemes)
    (behind : last < error.position) : stmt.span.stop ≤ error.span.start := by
  obtain ⟨lexeme, found, stop⟩ := fromTo.ends
  rw [stop]
  cases placed with
  | token there span =>
      rw [span]
      exact covers.stop_le found there behind
  | ended _ isLast span =>
      have inside := (List.getElem?_eq_some_iff.mp found).1
      rw [List.getLast?_eq_getElem?] at isLast
      rw [span]
      exact (covers.ordered_of_le found isLast (Nat.le_pred_of_lt inside)).2

end Spans

theorem ParseError.Placed.position_le {lexemes : List Lexeme} {error : ParseError}
    (placed : error.Placed lexemes) : error.position ≤ lexemes.length := by
  cases placed with
  | token found _ => exact Nat.le_of_lt (List.getElem?_eq_some_iff.mp found).1
  | ended position _ _ => exact Nat.le_of_eq position

namespace ParsedProgram.DividedInto

variable {lexemes : List Lexeme} {parsed : ParsedProgram} {regions : List Region}
  (divided : parsed.DividedInto lexemes regions)

include divided

theorem exists_of_error {error : ParseError} (met : error ∈ parsed.errors) :
    ∃ region ∈ regions, region.error? = some error := by
  rw [divided.errors] at met
  exact List.mem_filterMap.mp met

theorem exists_of_stmt {stmt : Stmt} (accepted : stmt ∈ parsed.program) :
    ∃ region ∈ regions, region.stmt? = some stmt := by
  rw [divided.program] at accepted
  exact List.mem_filterMap.mp accepted

/-- An error is met before the regions that come later. -/
theorem position_lt {region other : Region} (member : region ∈ regions)
    (otherMember : other ∈ regions) (order : region.stop ≤ other.start) {error : ParseError}
    (failed : region.error? = some error) : error.position < other.start := by
  obtain ⟨_, _, later⟩ := (divided.read region member).error failed
  obtain ⟨positive, within⟩ := (divided.read other otherMember).bounds
  omega

theorem placed {error : ParseError} (met : error ∈ parsed.errors) : error.Placed lexemes := by
  obtain ⟨region, member, failed⟩ := divided.exists_of_error met
  exact ((divided.read region member).error failed).1

theorem increasing : parsed.errors.Pairwise fun first second =>
    first.position < second.position := by
  obtain ⟨last, _, tile, _⟩ := divided.tile
  rw [divided.errors, List.pairwise_filterMap]
  refine tile.pairwise.imp_of_mem fun member otherMember order error failed other otherFailed => ?_
  have before := divided.position_lt member otherMember order failed
  obtain ⟨_, after, _⟩ := (divided.read _ otherMember).error otherFailed
  exact Nat.lt_of_lt_of_le before after

/-- Only the last error can be that the input ended. -/
theorem position_lt_length {error : ParseError} (met : error ∈ parsed.errors.dropLast) :
    error.position < lexemes.length := by
  have nonempty : parsed.errors ≠ [] := by
    rintro none
    rw [none] at met
    cases met
  have whole := List.dropLast_append_getLast nonempty
  have increasing := divided.increasing
  rw [← whole, List.pairwise_append] at increasing
  have before := increasing.2.2 error met _ List.mem_cons_self
  have placed := divided.placed (List.getLast_mem nonempty)
  exact Nat.lt_of_lt_of_le before placed.position_le

variable {text : List Char} (covers : Token.Covers text lexemes)

include covers

theorem ordered : parsed.program.Pairwise fun first second =>
    first.span.stop ≤ second.span.start := by
  obtain ⟨_, _, tile, _⟩ := divided.tile
  rw [divided.program, List.pairwise_filterMap]
  refine tile.pairwise.imp_of_mem fun member otherMember order stmt accepted other
    otherAccepted => ?_
  obtain ⟨last, fromTo, _, stop⟩ := (divided.read _ member).fills covers accepted
  obtain ⟨otherLast, otherFromTo, _⟩ := (divided.read _ otherMember).fills covers otherAccepted
  exact fromTo.stop_le covers otherFromTo (by omega)

theorem apart {error : ParseError} (met : error ∈ parsed.errors) {stmt : Stmt}
    (accepted : stmt ∈ parsed.program) :
    error.span.stop ≤ stmt.span.start ∨ stmt.span.stop ≤ error.span.start := by
  obtain ⟨_, _, tile, _⟩ := divided.tile
  obtain ⟨region, member, failed⟩ := divided.exists_of_error met
  obtain ⟨other, otherMember, accepted⟩ := divided.exists_of_stmt accepted
  have different : region ≠ other := by
    rintro rfl
    cases (divided.read region member) with
    | stmt _ => cases failed
    | failure _ _ => cases accepted
  obtain ⟨last, fromTo, _, stop⟩ := (divided.read other otherMember).fills covers accepted
  have placed := divided.placed met
  rcases tile.apart member otherMember different with order | order
  · exact Or.inl
      (placed.before covers fromTo (divided.position_lt member otherMember order failed))
  · obtain ⟨_, after, _⟩ := (divided.read region member).error failed
    exact Or.inr (placed.behind covers fromTo (by omega))

end ParsedProgram.DividedInto

/-! ## The whole program -/

/-- The statements and errors of a program account for its tokens:
* There are no more errors than allowed. Their positions increase, and each has the span of
  the token at its position. Only the last error can be met at the end of the input, where
  it has the empty span behind the last token.
* The spans of the statements are disjoint and in order, and no error lies in one of them.
* The tokens are divided into regions, each of which is that of a statement with its
  semicolon, or goes from the beginning of a statement that was left out up to where
  recovery stopped. If more errors were allowed, every token is in exactly one region. -/
structure ParsedProgram.Accounts (lexemes : List Lexeme) (parsed : ParsedProgram) : Prop where
  few : parsed.errors.length ≤ maxParseErrors
  increasing : parsed.errors.Pairwise fun first second => first.position < second.position
  placed : ∀ error ∈ parsed.errors, error.position ≤ lexemes.length ∧ error.Placed lexemes
  inside : ∀ error ∈ parsed.errors.dropLast, error.position < lexemes.length
  ordered : parsed.program.Pairwise fun first second =>
    first.span.stop ≤ second.span.start
  apart : ∀ error ∈ parsed.errors, ∀ stmt ∈ parsed.program,
    error.span.stop ≤ stmt.span.start ∨ stmt.span.stop ≤ error.span.start
  regions : ∃ regions, parsed.DividedInto lexemes regions ∧
    (∀ region ∈ regions, ∀ stmt, region.stmt? = some stmt →
      stmt.Fills lexemes region.start region.stop) ∧
    (parsed.errors.length < maxParseErrors → ∀ index < lexemes.length,
      ∃! region, region ∈ regions ∧ region.Holds index)

/-- Parsing ends with an account of every token, whatever the source text is. -/
theorem parse_accounts {source : String} {lexemes : List Lexeme}
    (lexed : lex source = .ok lexemes) : (parse lexemes).Accounts lexemes := by
  have covers := covers_of_lex lexed
  obtain ⟨regions, divided⟩ := parse_dividedInto lexemes
  obtain ⟨last, _, tile, all⟩ := divided.tile
  exact {
    few := divided.few
    increasing := divided.increasing
    placed := fun error met => ⟨(divided.placed met).position_le, divided.placed met⟩
    inside := fun error met => divided.position_lt_length met
    ordered := divided.ordered covers
    apart := fun error met stmt accepted => divided.apart covers met accepted
    regions := by
      refine ⟨regions, divided, fun region member stmt accepted => ?_, fun fewer index inside => ?_⟩
      · exact (divided.read region member).fills covers accepted
      · exact tile.existsUnique (Nat.zero_le _) (Nat.lt_of_lt_of_eq inside (all fewer).symm) }

/-- The first error of `1;) 2;(` leaves out the second statement, and the second error is
that the input ended. -/
theorem parse_accounts_malformed :
    let source := "1;) 2;("
    let lexemes : List Lexeme :=
      [⟨.integer 1, ⟨0, 1⟩⟩, ⟨.symbol .semicolon, ⟨1, 2⟩⟩, ⟨.symbol .closeParen, ⟨2, 3⟩⟩,
        ⟨.integer 2, ⟨4, 5⟩⟩, ⟨.symbol .semicolon, ⟨5, 6⟩⟩, ⟨.symbol .openParen, ⟨6, 7⟩⟩]
    lex source = .ok lexemes ∧ (parse lexemes).Accounts lexemes ∧
      parse lexemes = ⟨[.expression (.integer 1) ⟨0, 1⟩],
        [⟨.expectedExpression (some (.symbol .closeParen)), 2, ⟨2, 3⟩⟩,
          ⟨.expectedExpression none, 6, ⟨7, 7⟩⟩]⟩ := by
  intro source lexemes
  have lexed : lex source = .ok lexemes := by cbv
  refine ⟨lexed, parse_accounts lexed, ?_⟩
  have number : Reader.statement (Reader.expression maxNesting) (.start lexemes) =
      .ok ⟨.expression (.integer 1) ⟨0, 1⟩, ⟨2, ⟨1, 2⟩, lexemes.drop 2⟩, by decide⟩ := by
    with_unfolding_all rfl
  have atParen : Reader.statement (Reader.expression maxNesting)
      ⟨2, ⟨1, 2⟩, lexemes.drop 2⟩ =
        .error ⟨.expectedExpression (some (.symbol .closeParen)),
          ⟨2, ⟨1, 2⟩, lexemes.drop 2⟩⟩ := by
    with_unfolding_all rfl
  have resumed : Cursor.afterStatement ⟨2, ⟨1, 2⟩, lexemes.drop 2⟩ 0 =
      ⟨5, ⟨5, 6⟩, lexemes.drop 5⟩ := by
    with_unfolding_all rfl
  have atEnd : Reader.statement (Reader.expression maxNesting)
      ⟨5, ⟨5, 6⟩, lexemes.drop 5⟩ =
        .error ⟨.expectedExpression none, ⟨6, ⟨6, 7⟩, []⟩⟩ := by
    with_unfolding_all rfl
  have ended : Cursor.afterStatement ⟨6, ⟨6, 7⟩, []⟩ 0 = ⟨6, ⟨6, 7⟩, []⟩ := by
    with_unfolding_all rfl
  change statementsFrom (18 + 1 + 1) #[] #[] (.start lexemes) = _
  rw [statementsFrom_of_statement number,
    statementsFrom_of_failure (List.cons_ne_nil _ _) atParen, resumed,
    statementsFrom_of_failure (List.cons_ne_nil _ _) atEnd, ended,
    statementsFrom_of_end rfl]
  rfl

end ExprMachine
