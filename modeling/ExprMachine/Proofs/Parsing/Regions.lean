import ExprMachine.Proofs.MaximalMunch
import ExprMachine.Proofs.Parsing.Matching
import ExprMachine.Proofs.Parsing.Places
import ExprMachine.Proofs.Parsing.Soundness

/-!
# Regions of the tokens

Reading a program divides its tokens into regions. Each region belongs to one statement:
to one that was read, with the semicolon after it, or to one that was left out because of
an error, up to where reading goes on. The regions follow one another without a gap, so
that statements and errors come in the order of the tokens and none of them overlap.
-/

namespace ExprMachine

/-! ## Cursors by their positions -/

/-- The cursor that stands before the token at the given position. -/
def Cursor.ofPosition (lexemes : List Lexeme) (position : Nat) : Cursor where
  position := position
  previous := ((lexemes.take position).getLast?.map Lexeme.span).getD .unknown
  rest := lexemes.drop position

namespace Cursor

@[simp]
theorem position_ofPosition (lexemes : List Lexeme) (position : Nat) :
    (ofPosition lexemes position).position = position :=
  rfl

@[simp]
theorem length_ofPosition (lexemes : List Lexeme) (position : Nat) :
    (ofPosition lexemes position).rest.length = lexemes.length - position :=
  List.length_drop

theorem tokens_ofPosition (lexemes : List Lexeme) (position : Nat) :
    (ofPosition lexemes position).tokens = (lexemes.map Lexeme.token).drop position :=
  List.map_drop

variable {start cursor : Cursor} {lexemes : List Lexeme}

theorem span_ofPosition {position : Nat} {lexeme : Lexeme}
    (found : lexemes[position]? = some lexeme) :
    (ofPosition lexemes position).span = lexeme.span := by
  obtain ⟨inside, rfl⟩ := List.getElem?_eq_some_iff.mp found
  rw [span, ofPosition, List.drop_eq_getElem_cons inside]

theorem previous_ofPosition {position : Nat} {lexeme : Lexeme}
    (found : lexemes[position]? = some lexeme) :
    (ofPosition lexemes (position + 1)).previous = lexeme.span := by
  rw [ofPosition, List.take_add_one, found]
  simp

/-- A cursor is known by its position. -/
theorem LeadsTo.eq_ofPosition (reached : (Cursor.start lexemes).LeadsTo cursor) :
    cursor = ofPosition lexemes cursor.position := by
  induction reached with
  | here => rfl
  | @past cursor _ _ found inductionHypothesis =>
      obtain ⟨lexeme, rest, _, after⟩ := exists_lexeme_of_next? found
      have shape := congrArg Cursor.rest inductionHypothesis
      rw [rest] at shape
      have here : lexemes[cursor.position]? = some lexeme := by
        rw [← List.head?_drop]
        exact congrArg List.head? shape.symm
      have behind : _ = lexemes.drop (cursor.position + 1) :=
        (congrArg List.tail shape).trans List.tail_drop
      rw [after, ofPosition, List.take_add_one, here, ← behind]
      simp

theorem position_of_accept? {wanted : Token} {accepted : Parsed Unit cursor}
    (found : cursor.accept? wanted = some accepted) :
    accepted.after.position = cursor.position + 1 := by
  have total := (LeadsTo.here.accepted found).position_add_length
  have length := congrArg List.length (tokens_of_accept? found)
  simp only [tokens, List.length_map, List.length_cons] at length
  omega

theorem leadsTo_ofPosition {position : Nat} (within : position ≤ lexemes.length) :
    (Cursor.start lexemes).LeadsTo (ofPosition lexemes position) := by
  induction position with
  | zero => exact .here
  | succ position inductionHypothesis =>
      have reached := inductionHypothesis (Nat.le_of_succ_le within)
      have shape : (ofPosition lexemes position).tokens = _ :=
        congrArg (List.map _) (List.drop_eq_getElem_cons (Nat.lt_of_succ_le within))
      obtain ⟨next, found, _⟩ := exists_next? shape
      obtain ⟨_, _, _, after⟩ := exists_lexeme_of_next? found
      have further := reached.past found
      have position := congrArg Cursor.position after
      rwa [further.eq_ofPosition, position] at further

end Cursor

/-! ## Open brackets -/

/-- The number of brackets that are open after a token. A bracket that was not opened
does not count when it closes. -/
def Token.depthAfter (depth : Nat) (token : Token) : Nat :=
  if token.opens then depth + 1 else if token.closes then depth - 1 else depth

/-- The number of brackets that are open after the tokens, if the given number was open
before them. -/
def bracketDepthAfter (depth : Nat) (tokens : List Token) : Nat :=
  tokens.foldl Token.depthAfter depth

/-- The token at the index is a semicolon outside brackets. -/
structure EndsStatement (depth : Nat) (tokens : List Token) (index : Nat) : Prop where
  semicolon : tokens[index]? = some (.symbol .semicolon)
  outside : bracketDepthAfter depth (tokens.take index) = 0

/-- The number of tokens up to the first semicolon outside brackets, this one included, or
of all tokens if there is none. -/
inductive Resumption (depth : Nat) (tokens : List Token) : Nat → Prop
  | semicolon {index : Nat} : EndsStatement depth tokens index →
      (∀ earlier < index, ¬ EndsStatement depth tokens earlier) →
        Resumption depth tokens (index + 1)
  | ended : (∀ index, ¬ EndsStatement depth tokens index) →
      Resumption depth tokens tokens.length

theorem endsStatement_cons_iff {depth index : Nat} {token : Token} {tokens : List Token} :
    EndsStatement depth (token :: tokens) (index + 1) ↔
      EndsStatement (token.depthAfter depth) tokens index :=
  ⟨fun ⟨semicolon, outside⟩ => ⟨semicolon, outside⟩,
    fun ⟨semicolon, outside⟩ => ⟨semicolon, outside⟩⟩

theorem Resumption.le_length {depth count : Nat} {tokens : List Token}
    (resumption : Resumption depth tokens count) : count ≤ tokens.length := by
  cases resumption with
  | semicolon ends _ => exact (List.getElem?_eq_some_iff.mp ends.semicolon).1
  | ended _ => exact Nat.le_refl _

/-- A token that does not end the statement is passed over. -/
theorem Resumption.cons {depth count : Nat} {token : Token} {tokens : List Token}
    (goesOn : ¬ EndsStatement depth (token :: tokens) 0)
    (resumption : Resumption (token.depthAfter depth) tokens count) :
    Resumption depth (token :: tokens) (count + 1) := by
  cases resumption with
  | @semicolon index ends first =>
      refine .semicolon (endsStatement_cons_iff.mpr ends) fun earlier before => ?_
      cases earlier with
      | zero => exact goesOn
      | succ earlier =>
          exact fun found => first earlier (Nat.lt_of_succ_lt_succ before)
            (endsStatement_cons_iff.mp found)
  | ended none =>
      refine .ended fun index => ?_
      cases index with
      | zero => exact goesOn
      | succ index => exact fun found => none index (endsStatement_cons_iff.mp found)

theorem not_endsStatement_nil {depth index : Nat} : ¬ EndsStatement depth [] index := by
  rintro ⟨semicolon, _⟩
  cases semicolon

theorem not_endsStatement_zero {depth : Nat} {token : Token} {tokens : List Token}
    (goesOn : token.isSemicolon = false ∨ depth ≠ 0) :
    ¬ EndsStatement depth (token :: tokens) 0 := by
  rintro ⟨semicolon, outside⟩
  cases semicolon
  rcases goesOn with plain | inside
  · cases plain
  · exact inside outside

/-- After an error, reading goes on behind the next semicolon outside the brackets that
were opened since. -/
theorem Cursor.resumption_afterStatement (cursor : Cursor) (depth : Nat) :
    ∃ count, Resumption depth cursor.tokens count ∧
      (cursor.afterStatement depth).position = cursor.position + count := by
  induction length : cursor.rest.length using Nat.strongRecOn generalizing cursor depth with
  | _ _ inductionHypothesis =>
      subst length
      rw [Cursor.afterStatement]
      cases found : cursor.next? with
      | none =>
          rw [tokens_of_next?_none found]
          exact ⟨0, .ended fun _ => not_endsStatement_nil, rfl⟩
      | some next =>
          rw [tokens_of_next? found]
          have position : next.after.position = cursor.position + 1 := by
            obtain ⟨lexeme, _, _, after⟩ := exists_lexeme_of_next? found
            rw [after]
          have goesOn {token : Token} (plain : token.isSemicolon = false ∨ depth ≠ 0) :
              ∃ count, Resumption depth (token :: next.after.tokens) count ∧
                (next.after.afterStatement (token.depthAfter depth)).position =
                  cursor.position + count := by
            obtain ⟨count, resumption, after⟩ :=
              inductionHypothesis _ next.shorter next.after (token.depthAfter depth) rfl
            refine ⟨count + 1, resumption.cons (not_endsStatement_zero plain), ?_⟩
            rw [after, position, Nat.add_assoc, Nat.add_comm 1]
          dsimp only
          generalize next.value = token
          cases token with
          | symbol mark =>
              cases mark with
              | semicolon =>
                  by_cases outside : depth = 0
                  · refine ⟨1, .semicolon ⟨rfl, outside⟩ fun earlier before => ?_, ?_⟩
                    · exact absurd before (Nat.not_lt_zero earlier)
                    · simp only [if_pos outside, position]
                  · simp only [if_neg outside]
                    exact goesOn (Or.inr outside)
              | _ => exact goesOn (Or.inl rfl)
          | _ => exact goesOn (Or.inl rfl)

/-! ## Regions -/

/-- The tokens from one position up to, but not including, another one, and what was read
there: a statement, or the error because of which it was left out. -/
structure Region where
  start : Nat
  stop : Nat
  outcome : Except ParseError Stmt

namespace Region

def Holds (region : Region) (index : Nat) : Prop :=
  region.start ≤ index ∧ index < region.stop

def stmt? (region : Region) : Option Stmt :=
  region.outcome.toOption

def error? (region : Region) : Option ParseError :=
  match region.outcome with
  | .ok _ => none
  | .error error => some error

/-- The regions follow one another without a gap, from one position to another. -/
inductive Tile : Nat → List Region → Nat → Prop
  | nil (position : Nat) : Tile position [] position
  | cons {region : Region} {regions : List Region} {last : Nat} :
      region.start < region.stop → Tile region.stop regions last →
        Tile region.start (region :: regions) last

/-- What is read at the start of the region, and where reading goes on: behind the
statement and its semicolon or, after an error, where the rest has been left out. -/
inductive Read (lexemes : List Lexeme) : Region → Prop
  | stmt {start : Nat} {stmt : Parsed Stmt (.ofPosition lexemes start)} :
      Reader.statement (Reader.expression maxNesting) (.ofPosition lexemes start) =
          .ok stmt →
        Read lexemes ⟨start, stmt.after.position, .ok stmt.value⟩
  | failure {start : Nat} {failure : ParseFailure} :
      start < lexemes.length →
      Reader.statement (Reader.expression maxNesting) (.ofPosition lexemes start) =
          .error failure →
        Read lexemes
          ⟨start, (failure.cursor.afterStatement 0).position, .error failure.error⟩

end Region

/-- Every token belongs to one region, unless reading ended because of too many errors.
The regions hold the statements and the errors in their order. -/
structure ParsedProgram.DividedInto (parsed : ParsedProgram) (lexemes : List Lexeme)
    (regions : List Region) : Prop where
  program : parsed.program = regions.filterMap Region.stmt?
  errors : parsed.errors = regions.filterMap Region.error?
  read : ∀ region ∈ regions, region.Read lexemes
  few : parsed.errors.length ≤ maxParseErrors
  tile : ∃ last ≤ lexemes.length, Region.Tile 0 regions last ∧
    (parsed.errors.length < maxParseErrors → last = lexemes.length)

namespace Region

variable {first last : Nat} {regions : List Region}

theorem Tile.le (tile : Tile first regions last) : first ≤ last := by
  induction tile with
  | nil => exact Nat.le_refl _
  | cons positive _ inductionHypothesis =>
      exact Nat.le_trans (Nat.le_of_lt positive) inductionHypothesis

theorem Tile.bounds (tile : Tile first regions last) : ∀ region ∈ regions,
    first ≤ region.start ∧ region.start < region.stop ∧ region.stop ≤ last := by
  induction tile with
  | nil => exact List.forall_mem_nil _
  | cons positive rest inductionHypothesis =>
      refine List.forall_mem_cons.mpr ⟨⟨Nat.le_refl _, positive, rest.le⟩, ?_⟩
      intro other member
      obtain ⟨after, order⟩ := inductionHypothesis other member
      exact ⟨Nat.le_trans (Nat.le_of_lt positive) after, order⟩

theorem Tile.pairwise (tile : Tile first regions last) :
    regions.Pairwise fun region other => region.stop ≤ other.start := by
  induction tile with
  | nil => exact .nil
  | cons _ rest inductionHypothesis =>
      exact .cons (fun other member => (rest.bounds other member).1) inductionHypothesis

/-- One of the regions ends before the other one begins. -/
def Apart (region other : Region) : Prop :=
  region.stop ≤ other.start ∨ other.stop ≤ region.start

instance : Std.Symm Apart :=
  ⟨fun _ _ => Or.symm⟩

theorem Tile.apart (tile : Tile first regions last) {region other : Region}
    (member : region ∈ regions) (otherMember : other ∈ regions) (different : region ≠ other) :
    region.Apart other := by
  have apart : regions.Pairwise Apart := tile.pairwise.imp Or.inl
  exact apart.forall member otherMember different

/-- Every position belongs to one region. -/
theorem Tile.existsUnique (tile : Tile first regions last) {index : Nat}
    (after : first ≤ index) (before : index < last) :
    ∃! region, region ∈ regions ∧ region.Holds index := by
  have exists' : ∃ region ∈ regions, region.Holds index := by
    induction tile with
    | nil => exact absurd before (Nat.not_lt_of_le after)
    | @cons region _ _ _ _ inductionHypothesis =>
        by_cases inside : index < region.stop
        · exact ⟨region, List.mem_cons_self, after, inside⟩
        · obtain ⟨other, member, holds⟩ := inductionHypothesis (Nat.le_of_not_lt inside) before
          exact ⟨other, List.mem_cons_of_mem _ member, holds⟩
  obtain ⟨region, member, holds⟩ := exists'
  refine ⟨region, ⟨member, holds⟩, fun other found => ?_⟩
  obtain ⟨otherMember, otherHolds⟩ := found
  by_contra different
  rcases tile.apart otherMember member different with order | order
  · exact absurd (Nat.lt_of_lt_of_le otherHolds.2 order) (Nat.not_lt_of_le holds.1)
  · exact absurd (Nat.lt_of_lt_of_le holds.2 order) (Nat.not_lt_of_le otherHolds.1)

end Region

/-! ## Statements between tokens -/

namespace Token.Covers

variable {text : List Char} {lexemes : List Lexeme} (covers : Covers text lexemes)
  {index other : Nat} {lexeme later : Lexeme}

include covers

theorem stop_le (found : lexemes[index]? = some lexeme)
    (foundLater : lexemes[other]? = some later) (before : index < other) :
    lexeme.span.stop ≤ later.span.start := by
  obtain ⟨inside, rfl⟩ := List.getElem?_eq_some_iff.mp found
  obtain ⟨insideLater, rfl⟩ := List.getElem?_eq_some_iff.mp foundLater
  exact List.pairwise_iff_getElem.mp covers.ordered _ _ inside insideLater before

theorem positive (found : lexemes[index]? = some lexeme) :
    lexeme.span.start < lexeme.span.stop :=
  (covers.longest lexeme (List.mem_of_getElem? found)).1

theorem ordered_of_le (found : lexemes[index]? = some lexeme)
    (foundLater : lexemes[other]? = some later) (before : index ≤ other) :
    lexeme.span.start ≤ later.span.start ∧ lexeme.span.stop ≤ later.span.stop := by
  rcases Nat.lt_or_eq_of_le before with before | rfl
  · have order := covers.stop_le found foundLater before
    have positive := covers.positive found
    have positiveLater := covers.positive foundLater
    omega
  · cases found.symm.trans foundLater
    exact ⟨Nat.le_refl _, Nat.le_refl _⟩

end Token.Covers

/-- The span of the statement begins with the first of two tokens and ends with the last one. -/
structure Stmt.FromTo (lexemes : List Lexeme) (stmt : Stmt) (first last : Nat) : Prop where
  ordered : first ≤ last
  begins : ∃ lexeme, lexemes[first]? = some lexeme ∧ stmt.span.start = lexeme.span.start
  ends : ∃ lexeme, lexemes[last]? = some lexeme ∧ stmt.span.stop = lexeme.span.stop

/-- The tokens up to the second position are those of the statement, which do not end with
a semicolon, and the semicolon after it, if there is one. -/
def Stmt.Fills (lexemes : List Lexeme) (stmt : Stmt) (start stop : Nat) : Prop :=
  let tokens := lexemes.map Lexeme.token
  ∃ last, stmt.FromTo lexemes start last ∧ tokens[last]? ≠ some (.symbol .semicolon) ∧
    (stop = last + 1 ∨ stop = last + 2 ∧ tokens[last + 1]? = some (.symbol .semicolon))

theorem Reader.fromTo_clause {nested : Precedence → Reader Expr}
    (nestedMoves : ∀ minimum, Moves (nested minimum)) {text : List Char}
    {lexemes : List Lexeme} (covers : Token.Covers text lexemes) {start : Nat}
    {bare : Parsed Stmt (.ofPosition lexemes start)}
    (read : clause nested (.ofPosition lexemes start) = .ok bare) :
    ∃ last, bare.after = .ofPosition lexemes (last + 1) ∧
      bare.value.FromTo lexemes start last := by
  obtain ⟨reached, span⟩ := span_clause nestedMoves read
  have shorter := bare.shorter
  have later := reached.position_lt shorter
  have total := reached.position_add_length
  rw [Cursor.length_ofPosition] at shorter total
  rw [Cursor.position_ofPosition] at later total
  have place := ((Cursor.leadsTo_ofPosition (by omega)).trans reached).eq_ofPosition
  obtain ⟨last, position⟩ : ∃ last, bare.after.position = last + 1 :=
    Nat.exists_eq_succ_of_ne_zero (Nat.ne_zero_of_lt later)
  rw [position] at place later total
  have ordered := Nat.le_of_lt_succ later
  have found : lexemes[start]? = some _ := List.getElem?_eq_getElem (by omega)
  have foundLast : lexemes[last]? = some _ := List.getElem?_eq_getElem (by omega)
  obtain ⟨begins, ends⟩ := covers.ordered_of_le found foundLast ordered
  rw [place, Cursor.span_ofPosition found, Cursor.previous_ofPosition foundLast] at span
  rw [Span.merge, Nat.min_eq_left begins, Nat.max_eq_right ends] at span
  exact ⟨last, place, ordered, ⟨_, found, by rw [span]⟩, ⟨_, foundLast, by rw [span]⟩⟩

/-- A statement does not end with the semicolon after it. -/
theorem Reader.plain_clause {lexemes : List Lexeme} {levels start last : Nat}
    (ordered : start ≤ last) {bare : Parsed Stmt (.ofPosition lexemes start)}
    (read : clause (expression levels) (.ofPosition lexemes start) = .ok bare)
    (place : bare.after = .ofPosition lexemes (last + 1)) :
    (lexemes.map Lexeme.token)[last]? ≠ some (.symbol .semicolon) := by
  obtain ⟨name, front, phrase, derived, shape, _⟩ := clause_sound (expression_sound levels) read
  obtain ⟨value, final, rfl, plain⟩ := derived.endsPlain
  rw [place, Cursor.tokens_ofPosition, Cursor.tokens_ofPosition] at shape
  intro semicolon
  generalize lexemes.map Lexeme.token = tokens at shape semicolon
  have inside := (List.getElem?_eq_some_iff.mp semicolon).1
  have length := congrArg List.length shape
  simp only [List.length_drop, List.length_append, List.length_singleton] at length
  have index : last - start = (Sentence.opening name ++ value).length := by
    rw [List.length_append]
    omega
  have found : (tokens.drop start)[last - start]? = some final := by
    rw [shape, index, List.append_assoc, ← List.append_assoc,
      List.getElem?_append_right (Nat.le_refl _), Nat.sub_self]
    rfl
  rw [List.getElem?_drop, Nat.add_sub_cancel' ordered, semicolon] at found
  exact plain (Option.some.inj found).symm

theorem Reader.fills_statement {levels : Nat} {text : List Char} {lexemes : List Lexeme}
    (covers : Token.Covers text lexemes) {start : Nat}
    {stmt : Parsed Stmt (.ofPosition lexemes start)}
    (read : statement (expression levels) (.ofPosition lexemes start) = .ok stmt) :
    stmt.value.Fills lexemes start stmt.after.position := by
  obtain ⟨bare, readBare, rfl⟩ := exists_clause read
  obtain ⟨last, place, fromTo⟩ := fromTo_clause (expression_moves levels) covers readBare
  rw [value_optionalSemicolon]
  refine ⟨last, fromTo, plain_clause fromTo.ordered readBare place, ?_⟩
  unfold optionalSemicolon
  split
  · next mark found =>
      have tokens := Cursor.tokens_of_accept? found
      refine Or.inr ⟨?_, ?_⟩
      · exact (Cursor.position_of_accept? found).trans (congrArg (Cursor.position · + 1) place)
      · rw [← List.head?_drop, ← List.map_drop]
        exact congrArg List.head? ((congrArg Cursor.tokens place).symm.trans tokens)
  · exact Or.inl (congrArg Cursor.position place)

/-! ## What is read in a region -/

theorem Resumption.pos {depth count : Nat} {tokens : List Token} (nonempty : tokens ≠ [])
    (resumption : Resumption depth tokens count) : 0 < count := by
  cases resumption with
  | semicolon _ _ => exact Nat.succ_pos _
  | ended _ => exact List.length_pos_iff.mpr nonempty

/-- After an error reading goes on behind the token that does not fit, unless the input
ended. -/
theorem Reader.resumes_later {lexemes : List Lexeme} {start : Nat}
    (inside : start < lexemes.length) {failure : ParseFailure}
    (read : statement (expression maxNesting) (.ofPosition lexemes start) = .error failure) :
    let position := failure.cursor.position
    let stop := (failure.cursor.afterStatement 0).position
    failure.error.Placed lexemes ∧ start ≤ position ∧ stop ≤ lexemes.length ∧
      (position < stop ∨ position = lexemes.length ∧ stop = lexemes.length) := by
  intro position stop
  have reached : (Cursor.ofPosition lexemes start).LeadsTo failure.cursor :=
    (statement_moves (expression_moves maxNesting) .here).of_error read
  have total := reached.position_add_length
  rw [Cursor.length_ofPosition, Cursor.position_ofPosition] at total
  obtain ⟨count, resumption, resumed⟩ := failure.cursor.resumption_afterStatement 0
  have most := resumption.le_length
  rw [Cursor.tokens, List.length_map] at most
  have nonempty : lexemes ≠ [] := List.ne_nil_of_length_pos (Nat.zero_lt_of_lt inside)
  refine ⟨((Cursor.leadsTo_ofPosition (Nat.le_of_lt inside)).trans reached).placed nonempty,
    reached.position_le, by omega, ?_⟩
  by_cases ended : failure.cursor.rest = []
  · rw [ended, List.length_nil] at total most
    exact Or.inr ⟨by omega, by omega⟩
  · have positive := resumption.pos fun none => ended (List.map_eq_nil_iff.mp none)
    exact Or.inl (by omega)

namespace Region.Read

variable {lexemes : List Lexeme} {region : Region} (read : region.Read lexemes)

include read

theorem bounds : region.start < region.stop ∧ region.stop ≤ lexemes.length := by
  cases read with
  | @stmt start stmt read =>
      have reached : (Cursor.ofPosition lexemes start).LeadsTo stmt.after :=
        (Reader.statement_moves (Reader.expression_moves maxNesting) .here).of_ok read
      have total := reached.position_add_length
      have shorter := stmt.shorter
      rw [Cursor.length_ofPosition] at total shorter
      rw [Cursor.position_ofPosition] at total
      refine ⟨reached.position_lt stmt.shorter, ?_⟩
      dsimp only
      omega
  | failure inside read =>
      obtain ⟨_, after, within, later⟩ := Reader.resumes_later inside read
      refine ⟨?_, within⟩
      dsimp only
      omega

theorem error {error : ParseError} (failed : region.error? = some error) :
    error.Placed lexemes ∧ region.start ≤ error.position ∧
      (error.position < region.stop ∨
        error.position = lexemes.length ∧ region.stop = lexemes.length) := by
  cases read with
  | stmt _ => cases failed
  | failure inside read =>
      cases failed
      obtain ⟨placed, after, _, later⟩ := Reader.resumes_later inside read
      exact ⟨placed, after, later⟩

theorem fills {text : List Char} (covers : Token.Covers text lexemes) {stmt : Stmt}
    (accepted : region.stmt? = some stmt) :
    stmt.Fills lexemes region.start region.stop := by
  cases read with
  | failure _ _ => cases accepted
  | stmt read =>
      cases accepted
      exact Reader.fills_statement covers read

end Region.Read

/-! ## Programs -/

theorem statementsFrom_regions (allowed : Nat) (statements : Array Stmt)
    (errors : Array ParseError) {lexemes : List Lexeme} {cursor : Cursor}
    (reached : (Cursor.start lexemes).LeadsTo cursor) :
    let parsed := statementsFrom allowed statements errors cursor
    ∃ regions last, Region.Tile cursor.position regions last ∧ last ≤ lexemes.length ∧
      (∀ region ∈ regions, region.Read lexemes) ∧
      parsed.program = statements.toList ++ regions.filterMap Region.stmt? ∧
      parsed.errors = errors.toList ++ regions.filterMap Region.error? ∧
      (regions.filterMap Region.error?).length ≤ allowed ∧
      ((regions.filterMap Region.error?).length < allowed → last = lexemes.length) := by
  intro parsed
  subst parsed
  have within := reached.position_add_length
  fun_induction statementsFrom allowed statements errors cursor with
  | case1 statements errors cursor =>
      refine ⟨[], cursor.position, .nil _, ?_, List.forall_mem_nil _, ?_⟩
      · change _ = 0 + lexemes.length at within
        omega
      · simp
  | case2 allowed statements errors cursor ended _ =>
      have atEnd : cursor.position = lexemes.length := by
        rw [ended] at within
        exact within.trans (Nat.zero_add _)
      exact ⟨[], _, .nil _, Nat.le_of_eq atEnd, List.forall_mem_nil _, by simp, by simp,
        Nat.zero_le _, fun _ => atEnd⟩
  | case3 statements errors cursor allowed _ _ _ stmt read inductionHypothesis =>
      obtain ⟨position, rfl⟩ : ∃ position, cursor = .ofPosition lexemes position :=
        ⟨_, reached.eq_ofPosition⟩
      have after :=
        (Reader.statement_moves (Reader.expression_moves maxNesting) reached).of_ok read
      obtain ⟨regions, last, tile, least, reads, program, errors, few, all⟩ :=
        inductionHypothesis after after.position_add_length
      have here := Region.Read.stmt read
      refine ⟨_ :: regions, last, .cons here.bounds.1 tile, least,
        List.forall_mem_cons.mpr ⟨here, reads⟩, program.trans ?_, errors, few, all⟩
      rw [Array.toList_push, List.append_assoc]
      rfl
  | case4 statements errors cursor allowed first rest shape failure read inductionHypothesis =>
      obtain ⟨position, rfl⟩ : ∃ position, cursor = .ofPosition lexemes position :=
        ⟨_, reached.eq_ofPosition⟩
      have reachedFailure :=
        (Reader.statement_moves (Reader.expression_moves maxNesting) reached).of_error read
      have after := reachedFailure.afterStatement 0
      obtain ⟨regions, last, tile, least, reads, program, errors, few, all⟩ :=
        inductionHypothesis after after.position_add_length
      have inside : position < lexemes.length := by
        have length := congrArg List.length shape
        rw [Cursor.length_ofPosition] at length
        exact Nat.lt_of_sub_eq_succ length
      have here := Region.Read.failure inside read
      refine ⟨_ :: regions, last, .cons here.bounds.1 tile, least,
        List.forall_mem_cons.mpr ⟨here, reads⟩, program, errors.trans ?_,
        Nat.succ_le_succ few, fun fewer => all (Nat.lt_of_succ_lt_succ fewer)⟩
      rw [Array.toList_push, List.append_assoc]
      rfl

/-- Reading a program divides its tokens into regions. -/
theorem parse_dividedInto (lexemes : List Lexeme) :
    ∃ regions, (parse lexemes).DividedInto lexemes regions := by
  have reached : (Cursor.start lexemes).LeadsTo (.start lexemes) := .here
  obtain ⟨regions, last, tile, least, reads, program, errors, few, all⟩ :=
    statementsFrom_regions maxParseErrors #[] #[] reached
  have same : (parse lexemes).errors = regions.filterMap Region.error? := errors
  exact ⟨regions, program, errors, reads, same ▸ few, last, least, tile, same ▸ all⟩

end ExprMachine
