import ExprMachine.Proofs.Parsing.Nesting
import ExprMachine.Proofs.Parsing.Programs
import ExprMachine.Proofs.Parsing.Regions
import ExprMachine.Proofs.Parsing.Truncation
import ExprMachine.Proofs.Slicing

/-!
# Statements on their own

The span of a statement covers just this statement, at the top of a program or in a block:
the slice of the source text at this span is read as this statement alone. Lexing from the
beginning of a token does not depend on the text before it, and parsing does not depend on
the tokens behind the statement or on how deep it stood.
-/

namespace ExprMachine

/-- The statement was read at the first position, and reading went on at the second one. -/
inductive Stmt.ReadAt (lexemes : List Lexeme) (levels : Nat) : Stmt → Nat → Nat → Prop
  | read {first : Nat} {parsed : Parsed Stmt (.ofPosition lexemes first)} :
      Reader.statement (Reader.expression levels) (.ofPosition lexemes first) = .ok parsed →
        ReadAt lexemes levels parsed.value first parsed.after.position

/-- The slice of the source text at the span of the statement is lexed without an error,
and the tokens are read as one statement: this one, moved back to the beginning. -/
def Stmt.StandsAlone (source : String) (stmt : Stmt) : Prop :=
  ∃ front piece back slice alone, stmt.span.CutsOut source.toList front piece back ∧
    lex (String.ofList piece) = .ok slice ∧ parse slice = ⟨[alone], []⟩ ∧
      alone.shift stmt.span.start = stmt

/-! ## Tokens of a statement -/

theorem exists_between {lexemes : List Lexeme} {first last : Nat} (ordered : first ≤ last)
    {begins ends : Lexeme} (foundFirst : lexemes[first]? = some begins)
    (foundLast : lexemes[last]? = some ends) :
    ∃ own, lexemes.drop first = own ++ lexemes.drop (last + 1) ∧
      own.head? = some begins ∧ own.getLast? = some ends := by
  have inside := (List.getElem?_eq_some_iff.mp foundLast).1
  refine ⟨(lexemes.drop first).take (last + 1 - first), ?_, ?_, ?_⟩
  · have behind : (lexemes.drop first).drop (last + 1 - first) = lexemes.drop (last + 1) := by
      rw [List.drop_drop, Nat.add_sub_cancel' (Nat.le_succ_of_le ordered)]
    rw [← behind, List.take_append_drop]
  · rw [List.head?_take, if_neg (by omega), List.head?_drop, foundFirst]
  · rw [List.getLast?_eq_getElem?, List.length_take, List.length_drop,
      Nat.min_eq_left (by omega), List.getElem?_take_of_lt (by omega), List.getElem?_drop]
    rw [← foundLast]
    congr 1
    omega

theorem Stmt.FromTo.encloses {text : List Char} {lexemes : List Lexeme}
    (covers : Token.Covers text lexemes) {stmt other : Stmt} {first last otherFirst
    otherLast : Nat} (fromTo : stmt.FromTo lexemes first last)
    (otherFromTo : other.FromTo lexemes otherFirst otherLast) (later : first < otherFirst)
    (earlier : otherLast < last) :
    stmt.span.start < other.span.start ∧ other.span.stop < stmt.span.stop := by
  obtain ⟨begins, foundFirst, start⟩ := fromTo.begins
  obtain ⟨ends, foundLast, stop⟩ := fromTo.ends
  obtain ⟨otherBegins, foundOther, otherStart⟩ := otherFromTo.begins
  obtain ⟨otherEnds, foundOtherLast, otherStop⟩ := otherFromTo.ends
  rw [start, stop, otherStart, otherStop]
  exact ⟨Nat.lt_of_lt_of_le (covers.positive foundFirst)
      (covers.stop_le foundFirst foundOther later),
    Nat.lt_of_le_of_lt (covers.stop_le foundOtherLast foundLast earlier)
      (covers.positive foundLast)⟩

theorem Cursor.inside_of_parsed {lexemes : List Lexeme} {first : Nat} {α : Type}
    (parsed : Parsed α (.ofPosition lexemes first)) : first < lexemes.length := by
  have shorter := Nat.zero_lt_of_lt parsed.shorter
  rw [length_ofPosition] at shorter
  exact Nat.lt_of_sub_pos shorter

namespace Reader

variable {lexemes : List Lexeme} {levels first : Nat}

/-- What was read without its semicolon is read again when nothing follows. -/
theorem exists_statement {last : Nat} {bare : Parsed Stmt (.ofPosition lexemes first)}
    (read : clause (expression levels) (.ofPosition lexemes first) = .ok bare)
    (place : bare.after = .ofPosition lexemes (last + 1)) (fewer : levels ≤ maxNesting)
    {own : List Lexeme} (whole : lexemes.drop first = own ++ lexemes.drop (last + 1)) :
    ∃ (short : Cursor) (stmt : Parsed Stmt short), short.rest = own ∧
      statement (expression maxNesting) short = .ok stmt ∧ stmt.value = bare.value ∧
        stmt.after.rest = [] := by
  let short : Cursor := ⟨first, (Cursor.ofPosition lexemes first).previous, own⟩
  have cut : (Cursor.ofPosition lexemes first).Cut (lexemes.drop (last + 1)) short :=
    ⟨whole, rfl, rfl⟩
  have enough : (lexemes.drop (last + 1)).length ≤ bare.after.rest.length := by
    rw [place]
    exact Nat.le_refl _
  obtain ⟨again, readAgain, same, cutAfter⟩ :=
    clause_truncates (fun minimum => expression_truncates fewer minimum) cut read enough
  have rest := cutAfter.rest
  rw [place] at rest
  have nothing : again.after.rest = [] := List.self_eq_append_left.mp rest
  have reached : again.after.LeadsTo (optionalSemicolon again).after :=
    optionalSemicolon_moves .here
  have left := reached.length_le
  rw [nothing] at left
  refine ⟨short, optionalSemicolon again, rfl, ?_, ?_,
    List.eq_nil_of_length_eq_zero (Nat.eq_zero_of_le_zero left)⟩
  · rw [statement_eq, readAgain]
    rfl
  · rw [value_optionalSemicolon, same]

/-- Tokens that are read as one statement are so at the beginning of the text, too. -/
theorem parse_alone {slice : List Lexeme} {distance : Nat} {short : Cursor}
    {stmt : Parsed Stmt short} (moved : short.rest = slice.map (Lexeme.shift distance))
    (read : statement (expression maxNesting) short = .ok stmt)
    (ended : stmt.after.rest = []) :
    ∃ alone, parse slice = ⟨[alone], []⟩ ∧ alone.shift distance = stmt.value := by
  let copy : Copy := ⟨slice, ⟨short.position, distance⟩, []⟩
  have aligned : (Cursor.start slice).Aligned copy 0 short :=
    .start (moved.trans (List.append_nil _).symm) rfl (Or.inl rfl)
  have outcome := statement_alike (expression_alike maxNesting)
    { aligned with goesOn := Or.inl rfl }
  rw [read] at outcome
  generalize readAlone : statement _ (Cursor.start slice) = aloneOutcome at outcome
  cases outcome with
  | @ok alone _ same after =>
      have endedAlone : alone.after.tokens = [] := by
        have rest := after.rest
        rw [ended] at rest
        simpa [Cursor.tokens, copy] using rest.symm
      refine ⟨alone.value, ?_, same.symm⟩
      change statementsFrom (19 + 1) #[] #[] (.start slice) = _
      rw [statementsFrom_of_statement readAlone, statementsFrom_of_end endedAlone]
      rfl

end Reader

/-! ## Statements of a program -/

namespace Stmt.ReadAt

variable {source : String} {lexemes : List Lexeme} {levels start stop : Nat} {stmt : Stmt}
  (readAt : stmt.ReadAt lexemes levels start stop)

include readAt

theorem fills {text : List Char} (covers : Token.Covers text lexemes) :
    stmt.Fills lexemes start stop := by
  cases readAt with
  | read read => exact Reader.fills_statement covers read

theorem standsAlone (lexed : lex source = .ok lexemes) (fewer : levels ≤ maxNesting) :
    stmt.StandsAlone source := by
  cases readAt with
  | read read =>
      obtain ⟨bare, readBare, rfl⟩ := Reader.exists_clause read
      obtain ⟨last, place, ordered, ⟨begins, foundFirst, spanStart⟩,
          ends, foundLast, spanStop⟩ :=
        Reader.fromTo_clause (Reader.expression_moves levels) (covers_of_lex lexed) readBare
      obtain ⟨own, whole, isFirst, isLast⟩ := exists_between ordered foundFirst foundLast
      rw [← List.take_append_drop start lexemes, whole] at lexed
      obtain ⟨front, piece, back, slice, cuts, lexedSlice, moved⟩ :=
        exists_slice lexed isFirst isLast
      rw [← spanStart, ← spanStop] at cuts
      rw [← spanStart] at moved
      obtain ⟨short, stmt, rfl, readAgain, value, ended⟩ :=
        Reader.exists_statement readBare place fewer whole
      obtain ⟨alone, parsed, same⟩ := Reader.parse_alone moved readAgain ended
      rw [Reader.value_optionalSemicolon, ← value]
      rw [← value] at cuts same
      exact ⟨front, piece, back, slice, alone, cuts, lexedSlice, parsed, same⟩

/-- A nested statement was read between the first and the last token of the statement that
it is in. -/
theorem nested {text : List Char} (covers : Token.Covers text lexemes) {inner : Stmt}
    (member : inner ∈ stmt.value.statements) :
    (∃ fewer ≤ levels, ∃ start stop, inner.ReadAt lexemes fewer start stop) ∧
      stmt.span.start < inner.span.start ∧ inner.span.stop < stmt.span.stop := by
  cases readAt with
  | read read =>
      obtain ⟨bare, readBare, rfl⟩ := Reader.exists_clause read
      rw [Reader.value_optionalSemicolon] at member ⊢
      obtain ⟨last, place, fromTo⟩ :=
        Reader.fromTo_clause (Reader.expression_moves levels) covers readBare
      have inside := Reader.clause_inside (Reader.expression_inside levels) readBare inner member
      cases inside with
      | @read fewer cursor parsed least readInner behind ahead =>
          have reached := (Cursor.leadsTo_ofPosition
            (Nat.le_of_lt (Cursor.inside_of_parsed bare))).trans behind.reached
          obtain ⟨position, rfl⟩ : ∃ position, cursor = .ofPosition lexemes position :=
            ⟨_, reached.eq_ofPosition⟩
          obtain ⟨innerLast, innerFromTo, _, innerStop⟩ :=
            Reader.fills_statement covers readInner
          have later := behind.reached.position_lt behind.shorter
          have earlier := ahead.reached.position_lt ahead.shorter
          rw [place, Cursor.position_ofPosition] at earlier
          refine ⟨⟨fewer, least, _, _, .read readInner⟩, ?_⟩
          exact fromTo.encloses covers innerFromTo later (by omega)

end Stmt.ReadAt

/-- Every statement of a program was read from its tokens. -/
theorem exists_readAt (lexemes : List Lexeme) :
    ∀ stmt ∈ (parse lexemes).program, ∃ start stop,
      stmt.ReadAt lexemes maxNesting start stop := by
  obtain ⟨regions, divided⟩ := parse_dividedInto lexemes
  intro stmt member
  rw [divided.program] at member
  obtain ⟨region, isRegion, accepted⟩ := List.mem_filterMap.mp member
  cases divided.read region isRegion with
  | failure _ _ => cases accepted
  | stmt read =>
      cases accepted
      exact ⟨_, _, .read read⟩

/-- The spans of a program are those of its statements, at the top or in a block. Each of
these statements has the span of its own tokens, from the first one to the last one before
its semicolon. The slice of the source text at this span is read as this statement alone.
The spans of the statements inside of it lie strictly inside of its span. -/
theorem parse_slices {source : String} {lexemes : List Lexeme}
    (lexed : lex source = .ok lexemes) :
    Program.spans (parse lexemes).program =
        (Program.statements (parse lexemes).program).map Stmt.span ∧
      ∀ stmt ∈ Program.statements (parse lexemes).program,
        (∃ levels ≤ maxNesting, ∃ start stop, stmt.ReadAt lexemes levels start stop ∧
          stmt.Fills lexemes start stop) ∧
        stmt.StandsAlone source ∧
        ∀ inner ∈ stmt.value.statements,
          stmt.span.start < inner.span.start ∧ inner.span.stop < stmt.span.stop := by
  have covers := covers_of_lex lexed
  have each : ∀ stmt ∈ Program.statements (parse lexemes).program,
      ∃ levels ≤ maxNesting, ∃ start stop, stmt.ReadAt lexemes levels start stop := by
    intro stmt member
    rw [Program.statements, Stmt.statementsOfAll_eq_flatMap] at member
    obtain ⟨top, isTop, inside⟩ := List.mem_flatMap.mp member
    obtain ⟨start, stop, readAt⟩ := exists_readAt lexemes top isTop
    rw [Stmt.statements_eq] at inside
    rcases List.mem_cons.mp inside with rfl | nested
    · exact ⟨maxNesting, Nat.le_refl _, start, stop, readAt⟩
    · exact (readAt.nested covers nested).1
  refine ⟨Program.spans_eq _, fun stmt member => ?_⟩
  obtain ⟨levels, fewer, start, stop, readAt⟩ := each stmt member
  exact ⟨⟨levels, fewer, start, stop, readAt, readAt.fills covers⟩,
    readAt.standsAlone lexed fewer, fun inner nested => (readAt.nested covers nested).2⟩

/-- In `a; if (b) { c; }` the statement in the block is cut out without its semicolon. -/
theorem parse_slices_nested :
    let source := "a; if (b) { c; }"
    let lexemes : List Lexeme :=
      [⟨.identifier "a", ⟨0, 1⟩⟩, ⟨.symbol .semicolon, ⟨1, 2⟩⟩, ⟨.keyword .ifWord, ⟨3, 5⟩⟩,
        ⟨.symbol .openParen, ⟨6, 7⟩⟩, ⟨.identifier "b", ⟨7, 8⟩⟩,
        ⟨.symbol .closeParen, ⟨8, 9⟩⟩, ⟨.symbol .openBrace, ⟨10, 11⟩⟩,
        ⟨.identifier "c", ⟨12, 13⟩⟩, ⟨.symbol .semicolon, ⟨13, 14⟩⟩,
        ⟨.symbol .closeBrace, ⟨15, 16⟩⟩]
    let nested := Stmt.expression (.identifier "c") ⟨12, 13⟩
    let outer := Stmt.expression (.conditional (.identifier "b") [nested] none) ⟨3, 16⟩
    lex source = .ok lexemes ∧
      Program.statements (parse lexemes).program =
        [.expression (.identifier "a") ⟨0, 1⟩, outer, nested] ∧
      Program.spans (parse lexemes).program = [⟨0, 1⟩, ⟨3, 16⟩, ⟨12, 13⟩] ∧
      nested.StandsAlone source ∧ outer.StandsAlone source ∧
      outer.span.start < nested.span.start ∧ nested.span.stop < outer.span.stop := by
  intro source lexemes nested outer
  have lexed : lex source = .ok lexemes := by cbv
  have first : Reader.statement (Reader.expression maxNesting) (.start lexemes) =
      .ok ⟨.expression (.identifier "a") ⟨0, 1⟩, ⟨2, ⟨1, 2⟩, lexemes.drop 2⟩, by decide⟩ := by
    with_unfolding_all rfl
  have second : Reader.statement (Reader.expression maxNesting)
      ⟨2, ⟨1, 2⟩, lexemes.drop 2⟩ = .ok ⟨outer, ⟨10, ⟨15, 16⟩, []⟩, by decide⟩ := by
    with_unfolding_all rfl
  have statements : Program.statements (parse lexemes).program =
      [.expression (.identifier "a") ⟨0, 1⟩, outer, nested] := by
    change Program.statements (statementsFrom (18 + 1 + 1) #[] #[] (.start lexemes)).program = _
    rw [statementsFrom_of_statement first, statementsFrom_of_statement second,
      statementsFrom_of_end rfl]
    rfl
  have isOuter : outer ∈ Program.statements (parse lexemes).program := by
    rw [statements]
    exact .tail _ (.head _)
  have isNested : nested ∈ Program.statements (parse lexemes).program := by
    rw [statements]
    exact .tail _ (.tail _ (.head _))
  obtain ⟨spans, slices⟩ := parse_slices lexed
  rw [statements] at spans
  obtain ⟨_, nestedAlone, _⟩ := slices nested isNested
  obtain ⟨_, outerAlone, encloses⟩ := slices outer isOuter
  exact ⟨lexed, statements, spans, nestedAlone, outerAlone, encloses nested (.head _)⟩

end ExprMachine
