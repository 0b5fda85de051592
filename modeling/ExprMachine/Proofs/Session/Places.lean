import ExprMachine.Diagnostic
import ExprMachine.Proofs.Compilation.Compilable
import ExprMachine.Proofs.Location
import ExprMachine.Proofs.MaximalMunch
import ExprMachine.Proofs.Parsing.Places
import ExprMachine.Proofs.Session.Lines

/-!
# Reported places are real

An error that was met before the run is reported at a place in the source text: at the
text that is no token, at a token that does not fit or after the last one, or at the
statement that cannot be compiled. Spans begin where a token begins, or end where one
ends, so they are located exactly.
-/

namespace ExprMachine

/-! ## Where tokens begin and end -/

namespace Token

/-- A token neither begins nor ends with a blank. -/
theorem Forms.not_blank {piece : List Char} {token : Token}
    (forms : Forms piece (.token token)) :
    (∀ c ∈ piece.head?, isBlank c = false) ∧ ∀ c ∈ piece.getLast?, isBlank c = false := by
  have ofEach (each : ∀ c ∈ piece, isBlank c = false) :
      (∀ c ∈ piece.head?, isBlank c = false) ∧ ∀ c ∈ piece.getLast?, isBlank c = false :=
    ⟨fun c first => each c (List.mem_of_head? first),
      fun c last => each c (List.mem_of_getLast? last)⟩
  generalize reading : Reading.token token = read at forms
  cases forms with
  | blanks | comment | tooLarge => cases reading
  | symbol mark =>
      have each : mark.spelling.toList.all (fun c => !isBlank c) = true := by
        cases mark <;> rfl
      exact ofEach fun c member => by simpa using List.all_eq_true.mp each c member
  | keyword word =>
      obtain ⟨first, text, spelling, start, each⟩ := keyword_isName word
      rw [spelling] at ofEach ⊢
      refine ofEach (List.forall_mem_cons.mpr ⟨isBlank_eq_false_of_isNameStart start, ?_⟩)
      exact fun c member => isBlank_eq_false_of_isNamePart (each c member)
  | identifier start each _ =>
      refine ofEach (List.forall_mem_cons.mpr ⟨isBlank_eq_false_of_isNameStart start, ?_⟩)
      exact fun c member => isBlank_eq_false_of_isNamePart (each c member)
  | @string content _ =>
      rw [← List.cons_append, List.getLast?_concat]
      exact ⟨fun c first => by cases first; rfl, fun c last => by cases last; rfl⟩
  | integer _ each _ =>
      exact ofEach fun c member => isBlank_eq_false_of_isDigit (each c member)

/-- A token, or text that is no token, begins at the offset. -/
def Begins (text : List Char) (offset : Nat) : Prop :=
  ∃ front first rest, text = front ++ first :: rest ∧ isBlank first = false ∧
    offset = Text.byteCount front

/-- A token ends at the offset. -/
def Ends (text : List Char) (offset : Nat) : Prop :=
  ∃ front last rest, text = (front ++ [last]) ++ rest ∧ isBlank last = false ∧
    offset = Text.byteCount (front ++ [last])

/-- The span goes from the beginning of a token to the end of one. -/
structure Framed (text : List Char) (span : Span) : Prop where
  begins : Begins text span.start
  ends : Ends text span.stop
  positive : span.start < span.stop

theorem Framed.merge {text : List Char} {first second : Span}
    (framed : Framed text first) (other : Framed text second) :
    Framed text (first.merge second) where
  begins := by
    rcases Nat.le_total first.start second.start with le | le
    · rw [Span.merge, Nat.min_eq_left le]
      exact framed.begins
    · rw [Span.merge, Nat.min_eq_right le]
      exact other.begins
  ends := by
    rcases Nat.le_total first.stop second.stop with le | le
    · rw [Span.merge, Nat.max_eq_right le]
      exact other.ends
    · rw [Span.merge, Nat.max_eq_left le]
      exact framed.ends
  positive :=
    Nat.lt_of_le_of_lt (Nat.min_le_left ..)
      (Nat.lt_of_lt_of_le framed.positive (Nat.le_max_left ..))

theorem Covers.framed {text : List Char} {lexemes : List Lexeme}
    (covers : Covers text lexemes) : ∀ lexeme ∈ lexemes, Framed text lexeme.span := by
  intro lexeme member
  obtain ⟨positive, front, piece, back, rfl, span, longest⟩ := covers.longest lexeme member
  obtain ⟨notFirst, notLast⟩ := longest.forms.not_blank
  have nonempty := longest.forms.ne_nil
  refine ⟨?_, ?_, positive⟩
  · rw [span]
    obtain ⟨first, rest, rfl⟩ := List.exists_cons_of_ne_nil nonempty
    exact ⟨front, first, rest ++ back, rfl, notFirst first rfl, rfl⟩
  · rw [span]
    have whole := List.dropLast_append_getLast nonempty
    refine ⟨front ++ piece.dropLast, piece.getLast nonempty, back, ?_, ?_, ?_⟩
    · rw [List.append_assoc front, whole, List.append_assoc]
    · exact notLast _ (List.getLast?_eq_some_getLast nonempty)
    · rw [List.append_assoc front, whole]

end Token

/-- What an error of lexing shows begins where it says. -/
theorem stuck_of_lex {source : String} {error : LexError}
    (failed : lex source = .error error) : ∃ front rest, source.toList = front ++ rest ∧
      error.position = Text.byteCount front ∧
        Token.Stuck rest error.snippet.toList error.cause := by
  have finds := Token.lexFrom_finds 0 #[] source.toList
  rw [lex] at failed
  cases outcome : Token.lexFrom 0 #[] source.toList with
  | ok found =>
      rw [outcome] at failed
      cases failed
  | error other =>
      rw [outcome] at failed finds
      cases failed
      obtain ⟨_, front, rest, _, shape, position, stuck⟩ := finds
      exact ⟨front, rest, shape, position.trans (Nat.zero_add _), stuck⟩

theorem Token.Stuck.not_blank {text snippet : List Char} {cause : LexError.Cause}
    (stuck : Stuck text snippet cause) :
    ∃ first rest, text = first :: rest ∧ isBlank first = false := by
  have ofBlocked {first : Char} {rest : List Char} (blocked : Blocked (first :: rest)) :
      isBlank first = false := by
    refine Bool.eq_false_iff.mpr fun blank => ?_
    refine blocked [first] .layout (List.prefix_append [first] rest) ?_
    exact .blanks (List.cons_ne_nil _ _) (List.forall_mem_singleton.mpr blank)
  cases stuck with
  | integerTooLarge longest =>
      generalize reading : Reading.stuck _ = read at longest
      obtain ⟨rest, rfl⟩ := longest.initial
      cases longest.forms with
      | tooLarge nonempty each _ =>
          obtain ⟨first, more, rfl⟩ := List.exists_cons_of_ne_nil nonempty
          have digit := each first List.mem_cons_self
          exact ⟨first, more ++ rest, rfl, isBlank_eq_false_of_isDigit digit⟩
      | _ => cases reading
  | unclosedString blocked _ => exact ⟨_, _, rfl, ofBlocked blocked⟩
  | booleanOperator blocked _ => exact ⟨_, _, rfl, ofBlocked blocked⟩
  | unexpectedCharacter blocked _ _ _ => exact ⟨_, _, rfl, ofBlocked blocked⟩

/-! ## Cuts -/

theorem Location.OnLine.of_not_blank {front rest : List Char} {first : Char}
    (notBlank : Token.isBlank first = false) : Location.OnLine front (first :: rest) := by
  refine Or.inr ⟨first, rest, rfl, ?_, ?_⟩
  · rintro rfl
    cases notBlank
  · rintro rfl
    cases notBlank

/-- A span from one place between characters to a later one covers a piece. -/
theorem Span.exists_cutsOut {text front rest : List Char} {span : Span}
    (whole : text = front ++ rest) (start : span.start = Text.byteCount front)
    (ends : ∃ before after, text = before ++ after ∧ span.stop = Text.byteCount before)
    (ordered : span.start ≤ span.stop) :
    ∃ piece back, rest = piece ++ back ∧ span.CutsOut text front piece back := by
  obtain ⟨before, after, wholeAgain, stop⟩ := ends
  have initial : front <+: text := ⟨rest, whole.symm⟩
  rcases List.prefix_or_prefix_of_prefix initial ⟨after, wholeAgain.symm⟩ with part | part
  · obtain ⟨piece, rfl⟩ := part
    have same : rest = piece ++ after := by
      rw [whole, List.append_assoc] at wholeAgain
      exact List.append_cancel_left wholeAgain
    exact ⟨piece, after, same, by rw [whole, same], start, stop⟩
  · obtain ⟨piece, rfl⟩ := part
    rw [start, stop, Text.byteCount_append] at ordered
    have empty : piece = [] := by
      have length := Text.length_le_byteCount piece
      exact List.eq_nil_of_length_eq_zero (by omega)
    subst empty
    rw [List.append_nil] at *
    exact ⟨[], rest, rfl, whole, start, by rw [List.append_nil]; exact stop⟩

/-- The span of the text is real: it begins and ends between characters, and is located
where it begins. -/
def Span.Real (source : String) (span : Span) (piece : List Char) : Prop :=
  ∃ front back, span.CutsOut source.toList front piece back ∧
    (locate source span).Exact front piece back

theorem Token.Framed.real {source : String} {span : Span}
    (framed : Token.Framed source.toList span) : ∃ piece, span.Real source piece := by
  obtain ⟨front, first, rest, whole, notBlank, start⟩ := framed.begins
  obtain ⟨before, last, after, wholeAgain, _, stop⟩ := framed.ends
  obtain ⟨piece, back, same, cuts⟩ := Span.exists_cutsOut whole start
    ⟨before ++ [last], after, wholeAgain, stop⟩ (Nat.le_of_lt framed.positive)
  refine ⟨piece, front, back, cuts, cuts.locate ?_⟩
  rw [← same]
  exact .of_not_blank notBlank

/-- The empty span at the end of a token is real. -/
theorem Token.Framed.real_afterwards {source : String} {span : Span}
    (framed : Token.Framed source.toList span) : span.afterwards.Real source [] := by
  obtain ⟨front, last, rest, whole, notBlank, stop⟩ := framed.ends
  have cuts : span.afterwards.CutsOut source.toList (front ++ [last]) [] rest :=
    ⟨whole, stop, by rw [List.append_nil]; exact stop⟩
  refine ⟨front ++ [last], rest, cuts, cuts.locate (Or.inl ?_)⟩
  rw [List.getLast?_concat]
  rintro ⟨⟩
  cases notBlank

/-! ## Errors -/

/-- What is said about a span of the source text, and the piece that it covers, by the
error of an input. -/
def InputError.Marks (session : Session) (source : String) (span : Span)
    (piece : List Char) : InputError → Prop
  | lex error => String.ofList piece = error.snippet
  | parse errors => ∃ lexemes error, ExprMachine.lex source = .ok lexemes ∧
      error ∈ errors ∧ error.span = span ∧ error.Placed lexemes
  | compile error => ∃ before stmt after draft rejected,
      readProgram source = .ok (before ++ stmt :: after) ∧ stmt.span = span ∧
        Program.compile before session.draft = .ok draft ∧
          stmt.compile draft = .error ⟨error, rejected⟩
  | runtime _ => False
  | fault _ => False

theorem real_of_lex {source : String} {error : LexError}
    (failed : lex source = .error error) :
    Span.Real source
      ⟨error.position, error.position + max error.snippet.utf8ByteSize 1⟩
      error.snippet.toList := by
  obtain ⟨front, rest, whole, position, stuck⟩ := stuck_of_lex failed
  obtain ⟨nonempty, back, same⟩ := stuck.snippet_ne_nil_and_prefix
  have positive := Token.byteCount_pos nonempty
  rw [Text.byteCount_toList] at positive
  have cuts : Span.CutsOut source.toList
      ⟨error.position, error.position + max error.snippet.utf8ByteSize 1⟩
        front error.snippet.toList back := by
    refine ⟨by rw [whole, same], position, ?_⟩
    rw [Text.byteCount_append, Text.byteCount_toList, position,
      Nat.max_eq_left (Nat.succ_le_of_lt positive)]
  refine ⟨front, back, cuts, cuts.locate ?_⟩
  obtain ⟨first, more, shape, notBlank⟩ := stuck.not_blank
  rw [same, shape]
  exact .of_not_blank notBlank

theorem real_of_parse {source : String} {lexemes : List Lexeme}
    (lexed : lex source = .ok lexemes) {error : ParseError}
    (placed : error.Placed lexemes) : ∃ piece, error.span.Real source piece := by
  have framed := (covers_of_lex lexed).framed
  cases placed with
  | token found span =>
      rw [span]
      exact (framed _ (List.mem_of_getElem? found)).real
  | ended _ isLast span =>
      rw [span]
      exact ⟨[], (framed _ (List.mem_of_getLast? isLast)).real_afterwards⟩

theorem framed_of_readProgram {source : String} {program : Program}
    (read : readProgram source = .ok program) :
    ∀ stmt ∈ program, Token.Framed source.toList stmt.span := by
  obtain ⟨lexemes, lexed, parsed⟩ := (readProgram_eq_ok_iff _ _).mp read
  have framed := (covers_of_lex lexed).framed
  intro stmt member
  have spans := (parse_places lexemes).1 stmt
  rw [parsed] at spans
  obtain ⟨first, isFirst, last, isLast, span⟩ := spans member
  rw [span]
  exact (framed first isFirst).merge (framed last isLast)

/-! ## Reports -/

/-- The report points at a real span, which the error tells more about. -/
def Diagnostic.Points (session : Session) (source : String) (error : InputError)
    (report : Diagnostic) : Prop :=
  ∃ label piece, report.label = some label ∧ label.span.Real source piece ∧
    error.Marks session source label.span piece

theorem points_of_readProgram (session : Session) {source : String} {error : InputError}
    (failed : readProgram source = .error error) :
    error.reports ≠ [] ∧ ∀ report ∈ error.reports, report.Points session source error := by
  unfold readProgram at failed
  split at failed
  · next lexError lexed =>
      cases failed
      refine ⟨List.cons_ne_nil _ _, List.forall_mem_singleton.mpr ?_⟩
      exact ⟨_, _, rfl, real_of_lex lexed, String.ofList_toList⟩
  · next lexemes lexed =>
      split at failed
      · cases failed
      · next errors nonempty parsed =>
          cases failed
          have places := (parse_places lexemes).2
          rw [parsed] at places
          refine ⟨fun none => nonempty (List.map_eq_nil_iff.mp none), ?_⟩
          refine List.forall_mem_map.mpr fun parseError member => ?_
          have placed := places parseError member
          obtain ⟨piece, real⟩ := real_of_parse lexed placed
          exact ⟨_, piece, rfl, real, lexemes, parseError, lexed, member, rfl, placed⟩

theorem points_of_compile (session : Session) {source : String} {program : Program}
    (read : readProgram source = .ok program) {failure : CompileFailure}
    (failed : program.compile session.draft = .error failure) :
    (Diagnostic.ofCompileError failure.error).Points session source
      (.compile failure.error) := by
  obtain ⟨k, stmt, before, found, compiled, stuck⟩ := Program.exists_of_compile_error failed
  have span := (Stmt.grows_of_compile_error stuck).2
  have framed := framed_of_readProgram read stmt (List.mem_of_getElem? found)
  have known : failure.error.span ≠ .unknown := by
    rw [span]
    intro same
    have positive := framed.positive
    rw [same] at positive
    exact Nat.lt_irrefl 0 positive
  obtain ⟨piece, real⟩ := framed.real
  obtain ⟨inside, isStmt⟩ := List.getElem?_eq_some_iff.mp found
  have whole : program = program.take k ++ stmt :: program.drop (k + 1) := by
    rw [← isStmt, ← List.drop_eq_getElem_cons inside, List.take_append_drop]
  rw [← span] at real
  refine ⟨_, piece, if_neg known, real, program.take k, stmt, program.drop (k + 1), before,
    failure.draft, ?_, span.symm, compiled, stuck⟩
  rw [read, ← whole]

/-- An input that fails before it is run is reported, and every report points at a span of
the source text:
* The span begins and ends between characters of the text, and its location is that of
  its first character. The width is that of the span up to the end of its first line.
* For an error of lexing the span covers what the error shows. For one of parsing it is
  the span of a token or, when the input ended, the empty one at the end of the last
  token. For one of compiling it is the span of a statement, and the statements before
  this one are compiled in the same session. -/
theorem Session.reports_point (session : Session) {source : String} {error : InputError}
    (failed : (session.evaluate source).result = .error error)
    (early : error.beforeRun = true) :
    error.diagnostics source ≠ [] ∧ ∀ report ∈ error.diagnostics source,
      ∃ label front piece back, report.label = some label ∧
        label.span.start ≤ label.span.stop ∧ label.span.stop ≤ source.utf8ByteSize ∧
        label.span.CutsOut source.toList front piece back ∧
        (locate source label.span).Exact front piece back ∧
        error.Marks session source label.span piece := by
  have points : error.reports ≠ [] ∧
      ∀ report ∈ error.reports, report.Points session source error := by
    cases read : readProgram source with
    | error cause =>
        rw [evaluate, read] at failed
        cases failed
        exact points_of_readProgram session read
    | ok program =>
        rw [evaluate_of_read read] at failed
        cases compiled : program.compile session.draft with
        | error failure =>
            rw [compiled] at failed
            cases failed
            exact ⟨List.cons_ne_nil _ _,
              List.forall_mem_singleton.mpr (points_of_compile session read compiled)⟩
        | ok draft =>
            rw [compiled] at failed
            cases (beforeRun_of_conclude failed).symm.trans early
  obtain ⟨some, each⟩ := points
  refine ⟨fun none => some (List.map_eq_nil_iff.mp none), ?_⟩
  refine List.forall_mem_map.mpr fun report member => ?_
  obtain ⟨label, piece, isLabel, ⟨front, back, cuts, exact⟩, marks⟩ := each report member
  obtain ⟨ordered, within⟩ := cuts.bounds
  rw [Text.byteCount_toList] at within
  exact ⟨label, front, piece, back, isLabel, ordered, within, cuts, exact, marks⟩

/-- A string that is not closed, on the second line, with a carriage return at its end. -/
theorem Session.reports_point_unclosed :
    let source := "1;\n\"é\r"
    let error : LexError := ⟨.unclosedString, 3, "\"é\r"⟩
    ((start 10).evaluate source).result = .error (.lex error) ∧
      ∃ label front piece back, (Diagnostic.ofLexError error).label = some label ∧
        label.span = ⟨3, 7⟩ ∧ label.span.CutsOut source.toList front piece back ∧
        (locate source label.span).Exact front piece back ∧
        String.ofList piece = error.snippet ∧
        locate source label.span = ⟨2, 1, "\"é", 2⟩ := by
  intro source error
  have lexed : lex source = .error error := by cbv
  have failed : ((start 10).evaluate source).result = .error (.lex error) := by
    rw [evaluate, readProgram, lexed]
    rfl
  obtain ⟨label, front, piece, back, isLabel, _, _, cuts, exact, covers⟩ :=
    (reports_point (start 10) failed rfl).2 _ List.mem_cons_self
  have span : label.span = ⟨3, 7⟩ := by
    cases isLabel
    cbv
  refine ⟨failed, label, front, piece, back, isLabel, span, cuts, exact, covers, ?_⟩
  rw [span]
  cbv

end ExprMachine
