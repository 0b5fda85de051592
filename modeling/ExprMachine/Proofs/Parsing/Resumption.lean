import ExprMachine.Proofs.Parsing.Progress
import ExprMachine.Proofs.Parsing.Recovery

/-!
# Where reading goes on after an error

After an error, brackets are counted from the token that does not fit, not from the
beginning of the statement. So reading goes on at the end of the statement, except where
the error was met inside brackets and a semicolon inside these brackets comes first. Then
it goes on in the middle of the statement.
-/

namespace ExprMachine

/-! ## Counting brackets -/

/-- The number of brackets that the tokens open and do not close. -/
def openBrackets (tokens : List Token) : Nat :=
  bracketDepthAfter 0 tokens

theorem bracketDepthAfter_append (depth : Nat) (front back : List Token) :
    bracketDepthAfter depth (front ++ back) =
      bracketDepthAfter (bracketDepthAfter depth front) back :=
  List.foldl_append

theorem Token.depthAfter_mono {depth other : Nat} (least : depth ≤ other) (token : Token) :
    token.depthAfter depth ≤ token.depthAfter other := by
  unfold depthAfter
  split
  · exact Nat.succ_le_succ least
  · split
    · exact Nat.sub_le_sub_right least 1
    · exact least

theorem bracketDepthAfter_mono {depth other : Nat} (least : depth ≤ other) (tokens : List Token) :
    bracketDepthAfter depth tokens ≤ bracketDepthAfter other tokens := by
  induction tokens generalizing depth other with
  | nil => exact least
  | cons token tokens inductionHypothesis =>
      exact inductionHypothesis (token.depthAfter_mono least)

theorem Token.closes_of_opens {token : Token} (opens : token.opens = true) :
    token.closes = false := by
  unfold closes
  split
  any_goals cases opens
  rfl

theorem Token.leads_depthAfter {token : Token} {depth : Nat}
    (opened : token.closes = true → 0 < depth) : token.Leads depth (token.depthAfter depth) := by
  unfold Leads depthAfter
  cases opens : token.opens with
  | true => simp [closes_of_opens opens]
  | false =>
      cases closes : token.closes with
      | true => simpa using Nat.sub_add_cancel (opened closes)
      | false => simp

/-- If no bracket is closed that was not opened, all brackets count. -/
theorem bracketDepthAfter_add {depth : Nat} {tokens : List Token}
    (opened : ∀ front, front <+: tokens →
      front.countP Token.closes ≤ depth + front.countP Token.opens) :
    bracketDepthAfter depth tokens + tokens.countP Token.closes =
      depth + tokens.countP Token.opens := by
  induction tokens generalizing depth with
  | nil => rfl
  | cons token tokens inductionHypothesis =>
      have leads : token.Leads depth (token.depthAfter depth) := by
        refine Token.leads_depthAfter fun closes => ?_
        have first := opened [token] (List.prefix_append [token] tokens)
        have notOpens : token.opens ≠ true := fun opens => by
          rw [Token.closes_of_opens opens] at closes
          cases closes
        rw [List.countP_cons_of_pos closes, List.countP_cons_of_neg notOpens] at first
        exact first
      unfold Token.Leads at leads
      have openedLater : ∀ front, front <+: tokens →
          front.countP Token.closes ≤ token.depthAfter depth + front.countP Token.opens := by
        intro front initial
        have more := opened (token :: front) ((List.prefix_cons_inj token).mpr initial)
        simp only [List.countP_cons] at more
        omega
      have rest := inductionHypothesis openedLater
      simp only [List.countP_cons, bracketDepthAfter, List.foldl_cons] at rest ⊢
      omega

theorem Balanced.openBrackets {tokens : List Token} (balanced : Balanced tokens) :
    openBrackets tokens = 0 := by
  have opened : ∀ front, front <+: tokens →
      front.countP Token.closes ≤ 0 + front.countP Token.opens := by
    intro front initial
    rw [Nat.zero_add]
    exact balanced.opened front initial
  have total := bracketDepthAfter_add opened
  have closed := balanced.closed
  unfold ExprMachine.openBrackets
  omega

/-! ## Ends of statements -/

theorem endsStatement_append_iff {depth index : Nat} {front back : List Token} :
    EndsStatement depth (front ++ back) (front.length + index) ↔
      EndsStatement (bracketDepthAfter depth front) back index := by
  have semicolon : (front ++ back)[front.length + index]? = back[index]? := by
    rw [List.getElem?_append_right (Nat.le_add_right ..), Nat.add_sub_cancel_left]
  have outside : (front ++ back).take (front.length + index) = front ++ back.take index :=
    List.take_length_add_append ..
  constructor
  · rintro ⟨found, count⟩
    rw [semicolon] at found
    rw [outside, bracketDepthAfter_append] at count
    exact ⟨found, count⟩
  · rintro ⟨found, count⟩
    rw [← semicolon] at found
    rw [← bracketDepthAfter_append, ← outside] at count
    exact ⟨found, count⟩

theorem EndsStatement.of_append {depth index : Nat} {front back : List Token}
    (ends : EndsStatement depth (front ++ back) index) (inside : index < front.length) :
    EndsStatement depth front index where
  semicolon := by
    rw [← ends.semicolon, List.getElem?_append_left inside]
  outside := by
    rw [← ends.outside, List.take_append_of_le_length (Nat.le_of_lt inside)]

theorem EndsStatement.of_le {depth other index : Nat} {tokens : List Token}
    (ends : EndsStatement other tokens index) (least : depth ≤ other) :
    EndsStatement depth tokens index where
  semicolon := ends.semicolon
  outside := Nat.eq_zero_of_le_zero (ends.outside ▸ bracketDepthAfter_mono least _)

theorem Resumption.eq_of_first {depth count index : Nat} {tokens : List Token}
    (resumption : Resumption depth tokens count) (ends : EndsStatement depth tokens index)
    (first : ∀ earlier < index, ¬ EndsStatement depth tokens earlier) : count = index + 1 := by
  cases resumption with
  | ended none => exact absurd ends (none index)
  | @semicolon other otherEnds otherFirst =>
      rcases Nat.lt_trichotomy other index with before | rfl | behind
      · exact absurd otherEnds (first other before)
      · rfl
      · exact absurd ends (otherFirst index behind)

/-- Reading goes on behind a semicolon that stands inside of brackets. -/
def Interrupted (depth : Nat) (tokens : List Token) (count : Nat) : Prop :=
  ∃ index, count = index + 1 ∧ tokens[index]? = some (.symbol .semicolon) ∧
    0 < bracketDepthAfter depth (tokens.take index)

/-- Brackets that were open before do not matter, unless there is a semicolon inside of
them. -/
theorem Resumption.counted_or_interrupted {count : Nat} {tokens : List Token}
    (resumption : Resumption 0 tokens count) (depth : Nat) :
    Resumption depth tokens count ∨ Interrupted depth tokens count ∧ 0 < depth := by
  cases resumption with
  | ended none =>
      exact Or.inl (.ended fun index ends => none index (ends.of_le (Nat.zero_le _)))
  | @semicolon index ends first =>
      rcases Nat.eq_zero_or_pos (bracketDepthAfter depth (tokens.take index)) with
        outside | inside
      · exact Or.inl (.semicolon ⟨ends.semicolon, outside⟩ fun earlier before found =>
          first earlier before (found.of_le (Nat.zero_le _)))
      · refine Or.inr ⟨⟨index, rfl, ends.semicolon, inside⟩, Nat.pos_of_ne_zero ?_⟩
        rintro rfl
        exact Nat.ne_of_gt inside ends.outside

/-! ## Balanced statements -/

theorem Balanced.endsStatement {inner : List Token} (balanced : Balanced inner)
    (rest : List Token) :
    EndsStatement 0 (inner ++ .symbol .semicolon :: rest) inner.length := by
  have ends := @endsStatement_append_iff 0 0 inner (.symbol .semicolon :: rest)
  rw [Nat.add_zero] at ends
  exact ends.mpr ⟨rfl, balanced.openBrackets⟩

/-- Tokens that close their brackets are followed by a semicolon. -/
theorem Balanced.guarded_semicolon {inner : List Token} (balanced : Balanced inner) :
    Guarded 0 (inner ++ [.symbol .semicolon]) where
  terminated := by
    intro last isLast
    rw [List.getLast?_concat] at isLast
    cases isLast
    rfl
  closed := by
    have closed := balanced.closed
    rw [List.countP_append, List.countP_append, closed, Nat.zero_add]
    exact Nat.le_refl _

/-- An error among tokens that close their brackets, the last of which is a semicolon, is
met at one of these tokens. -/
theorem Reader.rest_ne_nil_of_guarded {own : List Lexeme} (nonempty : own ≠ [])
    (guarded : Guarded 0 (own.map Lexeme.token)) {levels : Nat} {failure : ParseFailure}
    (read : statement (expression levels) (.start own) = .error failure) :
    failure.cursor.rest ≠ [] := by
  -- Any other tokens may follow: the reader does not get to them.
  let copy : Copy := ⟨own, ⟨0, 0⟩, own⟩
  have aligned : (Cursor.start own).Aligned copy 0 (.start (own ++ own)) :=
    .start (congrArg (· ++ own) (List.map_id own).symm) rfl (Or.inr guarded)
  have outcome := statement_alike (expression_alike levels) (aligned.matched nonempty)
  rw [read] at outcome
  generalize statement _ _ = otherOutcome at outcome
  cases outcome with
  | error _ place => exact place.goesOn.resolve_left nonempty

/-- A statement that closes its brackets before a semicolon is not read past it. -/
theorem Balanced.position_le {lexemes : List Lexeme} {start : Nat} {inner rest : List Token}
    (balanced : Balanced inner)
    (shape : (lexemes.map Lexeme.token).drop start = inner ++ .symbol .semicolon :: rest)
    {levels : Nat} {failure : ParseFailure}
    (read : Reader.statement (Reader.expression levels) (.ofPosition lexemes start) =
      .error failure) : failure.cursor.position ≤ start + inner.length := by
  rw [← List.map_drop, List.append_cons] at shape
  obtain ⟨own, more, whole, ownTokens, _⟩ := List.map_eq_append_iff.mp shape
  have nonempty : own ≠ [] := by
    rintro rfl
    exact List.append_ne_nil_of_right_ne_nil _ (List.cons_ne_nil _ _) ownTokens.symm
  have guarded : Guarded 0 (own.map Lexeme.token) := ownTokens ▸ balanced.guarded_semicolon
  let copy : Copy := ⟨own, ⟨start, 0⟩, more⟩
  have aligned : (Cursor.start own).Aligned copy 0 (.ofPosition lexemes start) :=
    .start (whole.trans (congrArg (· ++ more) (List.map_id own).symm)) rfl (Or.inr guarded)
  have outcome := Reader.statement_alike (Reader.expression_alike levels)
    (aligned.matched nonempty)
  rw [read] at outcome
  generalize readOwn : Reader.statement _ (Cursor.start own) = ownOutcome at outcome
  cases outcome with
  | error _ place =>
      have left := Reader.rest_ne_nil_of_guarded nonempty guarded readOwn
      have inside := place.place
      have length := congrArg List.length ownTokens
      have positive := List.length_pos_iff.mpr left
      rw [List.length_map, List.length_append, List.length_singleton] at length
      rw [place.position]
      change _ = own.length at inside
      change _ + start ≤ _
      omega

/-! ## Regions of errors -/

section Regions

variable {lexemes : List Lexeme} {region : Region} (read : region.Read lexemes)
  {error : ParseError} (failed : region.error? = some error)

include read failed

theorem Region.Read.resumption : ∃ count, region.stop = error.position + count ∧
    Resumption 0 ((lexemes.map Lexeme.token).drop error.position) count := by
  cases read with
  | stmt _ => cases failed
  | @failure start failure inside read =>
      cases failed
      have reached := (Cursor.leadsTo_ofPosition (Nat.le_of_lt inside)).trans
        ((Reader.statement_moves (Reader.expression_moves maxNesting) .here).of_error read)
      obtain ⟨count, resumption, resumed⟩ := failure.cursor.resumption_afterStatement 0
      have ahead := congrArg Cursor.tokens reached.eq_ofPosition
      rw [Cursor.tokens, Cursor.tokens, Cursor.ofPosition, List.map_drop] at ahead
      exact ⟨count, resumed, ahead ▸ resumption⟩

/-- If brackets are counted from the beginning of the statement, reading goes on behind the
first semicolon outside of them. -/
theorem Region.Read.stop_of_balanced {inner rest : List Token} (balanced : Balanced inner)
    (single : ∀ index < inner.length, ¬ EndsStatement 0 inner index)
    (shape : (lexemes.map Lexeme.token).drop region.start =
      inner ++ .symbol .semicolon :: rest) {count : Nat}
    (stop : region.stop = error.position + count)
    (counted : Resumption
      (openBrackets (((lexemes.map Lexeme.token).take error.position).drop region.start))
      ((lexemes.map Lexeme.token).drop error.position) count) :
    error.position < region.stop ∧ region.stop = region.start + inner.length + 1 := by
  obtain ⟨_, after, _⟩ := read.error failed
  have before : error.position ≤ region.start + inner.length := by
    cases read with
    | stmt _ => cases failed
    | failure _ read =>
        cases failed
        exact balanced.position_le shape read
  have length := congrArg List.length shape
  generalize lexemes.map Lexeme.token = tokens at shape counted length
  simp only [List.length_drop, List.length_append, List.length_cons] at length
  have within : error.position ≤ tokens.length := by omega
  have whole : tokens.drop region.start =
      (tokens.take error.position).drop region.start ++ tokens.drop error.position := by
    rw [← List.drop_append_of_le_length, List.take_append_drop]
    rw [List.length_take]
    omega
  have frontLength : ((tokens.take error.position).drop region.start).length =
      error.position - region.start := by
    rw [List.length_drop, List.length_take, Nat.min_eq_left within]
  generalize (tokens.take error.position).drop region.start = front at *
  obtain ⟨index, place⟩ := Nat.exists_eq_add_of_le before
  have total : inner.length = front.length + index := by omega
  have ends := balanced.endsStatement rest
  rw [← shape, whole, total, endsStatement_append_iff] at ends
  have first : ∀ earlier < index, ¬ EndsStatement (openBrackets front)
      (tokens.drop error.position) earlier := by
    intro earlier earlierBefore found
    have foundWhole := endsStatement_append_iff.mpr found
    rw [← whole, shape] at foundWhole
    exact single _ (by omega) (foundWhole.of_append (by omega))
  have count := counted.eq_of_first ends first
  omega

end Regions

theorem ParsedProgram.DividedInto.existsUnique_error {parsed : ParsedProgram}
    {lexemes : List Lexeme} {regions : List Region}
    (divided : parsed.DividedInto lexemes regions) {region : Region} (member : region ∈ regions)
    {error : ParseError} (failed : region.error? = some error)
    (before : error.position < region.stop) :
    ∃! other, other ∈ parsed.errors ∧ region.Holds other.position := by
  obtain ⟨_, _, tile, _⟩ := divided.tile
  obtain ⟨_, after, _⟩ := (divided.read region member).error failed
  refine ⟨error, ⟨?_, after, before⟩, fun other found => ?_⟩
  · rw [divided.errors]
    exact List.mem_filterMap.mpr ⟨region, member, failed⟩
  · obtain ⟨met, otherAfter, otherBefore⟩ := found
    obtain ⟨otherRegion, otherMember, otherFailed⟩ := divided.exists_of_error met
    by_cases same : otherRegion = region
    · rw [same, failed] at otherFailed
      cases otherFailed
      rfl
    · obtain ⟨_, behind, _⟩ := (divided.read otherRegion otherMember).error otherFailed
      rcases tile.apart otherMember member same with order | order
      · have earlier := divided.position_lt otherMember member order otherFailed
        omega
      · omega

/-- After an error reading goes on behind the first semicolon from the error on that stands
outside of the brackets opened since, or at the end of the input. No other region begins
before. Unless this semicolon stands inside of brackets that the statement opened before
the error, it is the first one outside of all brackets of the statement. Then a statement
that closes its brackets before its semicolon has this one error. -/
theorem parse_resumes (lexemes : List Lexeme) :
    let tokens := lexemes.map Lexeme.token
    ∃ regions, (parse lexemes).DividedInto lexemes regions ∧
      ∀ region ∈ regions, ∀ error, region.error? = some error →
        let ahead := tokens.drop error.position
        let depth := openBrackets ((tokens.take error.position).drop region.start)
        region.start ≤ error.position ∧
        (∀ other ∈ regions, other ≠ region → other.Apart region) ∧
        ∃ count, region.stop = error.position + count ∧ Resumption 0 ahead count ∧
          (Interrupted depth ahead count ∧ 0 < depth ∨
            Resumption depth ahead count ∧
              ∀ inner rest, Balanced inner →
                (∀ index < inner.length, ¬ EndsStatement 0 inner index) →
                tokens.drop region.start = inner ++ .symbol .semicolon :: rest →
                  region.stop = region.start + inner.length + 1 ∧
                    ∃! other, other ∈ (parse lexemes).errors ∧
                      region.Holds other.position) := by
  intro tokens
  obtain ⟨regions, divided⟩ := parse_dividedInto lexemes
  obtain ⟨_, _, tile, _⟩ := divided.tile
  refine ⟨regions, divided, fun region member error failed => ?_⟩
  intro ahead depth
  have read := divided.read region member
  obtain ⟨_, after, _⟩ := read.error failed
  obtain ⟨count, stop, resumption⟩ := read.resumption failed
  refine ⟨after, fun other otherMember different => tile.apart otherMember member different,
    count, stop, resumption, ?_⟩
  rcases resumption.counted_or_interrupted depth with counted | interrupted
  · refine Or.inr ⟨counted, fun inner rest balanced single shape => ?_⟩
    obtain ⟨before, stopAgain⟩ :=
      read.stop_of_balanced failed balanced single shape stop counted
    exact ⟨stopAgain, divided.existsUnique_error member failed before⟩
  · exact Or.inl interrupted

/-- In `if (true) { 1 +; 2 }; 3` the error is met inside of the block, before a semicolon.
The rest of the block is read as if the statement had ended there. -/
theorem parse_resumes_in_block :
    let lexemes : List Lexeme :=
      [⟨.keyword .ifWord, ⟨0, 2⟩⟩, ⟨.symbol .openParen, ⟨3, 4⟩⟩,
        ⟨.keyword .trueWord, ⟨4, 8⟩⟩, ⟨.symbol .closeParen, ⟨8, 9⟩⟩,
        ⟨.symbol .openBrace, ⟨10, 11⟩⟩, ⟨.integer 1, ⟨12, 13⟩⟩, ⟨.symbol .plus, ⟨14, 15⟩⟩,
        ⟨.symbol .semicolon, ⟨15, 16⟩⟩, ⟨.integer 2, ⟨17, 18⟩⟩,
        ⟨.symbol .closeBrace, ⟨19, 20⟩⟩, ⟨.symbol .semicolon, ⟨20, 21⟩⟩,
        ⟨.integer 3, ⟨22, 23⟩⟩]
    let tokens := lexemes.map Lexeme.token
    Balanced (tokens.take 10) ∧ (∀ index < 10, ¬ EndsStatement 0 (tokens.take 10) index) ∧
      Interrupted (openBrackets (tokens.take 7)) (tokens.drop 7) 1 ∧
      parse lexemes =
        ⟨[.expression (.integer 2) ⟨17, 18⟩, .expression (.integer 3) ⟨22, 23⟩],
          [⟨.expectedExpression (some (.symbol .semicolon)), 7, ⟨15, 16⟩⟩,
            ⟨.expectedExpression (some (.symbol .closeBrace)), 9, ⟨19, 20⟩⟩]⟩ := by
  intro lexemes tokens
  have balanced : Balanced (tokens.take 10) := by
    refine ⟨fun front initial => ?_, by decide⟩
    have every : ∀ front ∈ (tokens.take 10).inits,
        front.countP Token.closes ≤ front.countP Token.opens := by
      decide
    exact every front ((List.mem_inits ..).mpr initial)
  have single : ∀ index < 10, ¬ EndsStatement 0 (tokens.take 10) index := by
    rintro index before ⟨semicolon, outside⟩
    have every : ∀ index < 10, (tokens.take 10)[index]? = some (.symbol .semicolon) →
        bracketDepthAfter 0 ((tokens.take 10).take index) ≠ 0 := by
      decide
    exact every index before semicolon outside
  have interrupted : Interrupted (openBrackets (tokens.take 7)) (tokens.drop 7) 1 :=
    ⟨0, rfl, rfl, by decide⟩
  have atSemicolon : Reader.statement (Reader.expression maxNesting) (.start lexemes) =
      .error ⟨.expectedExpression (some (.symbol .semicolon)),
        ⟨7, ⟨14, 15⟩, lexemes.drop 7⟩⟩ := by
    with_unfolding_all rfl
  have resumed : Cursor.afterStatement ⟨7, ⟨14, 15⟩, lexemes.drop 7⟩ 0 =
      ⟨8, ⟨15, 16⟩, lexemes.drop 8⟩ := by
    with_unfolding_all rfl
  have two : Reader.statement (Reader.expression maxNesting) ⟨8, ⟨15, 16⟩, lexemes.drop 8⟩ =
      .ok ⟨.expression (.integer 2) ⟨17, 18⟩, ⟨9, ⟨17, 18⟩, lexemes.drop 9⟩, by decide⟩ := by
    with_unfolding_all rfl
  have atBrace : Reader.statement (Reader.expression maxNesting)
      ⟨9, ⟨17, 18⟩, lexemes.drop 9⟩ =
        .error ⟨.expectedExpression (some (.symbol .closeBrace)),
          ⟨9, ⟨17, 18⟩, lexemes.drop 9⟩⟩ := by
    with_unfolding_all rfl
  have resumedAgain : Cursor.afterStatement ⟨9, ⟨17, 18⟩, lexemes.drop 9⟩ 0 =
      ⟨11, ⟨20, 21⟩, lexemes.drop 11⟩ := by
    with_unfolding_all rfl
  have three : Reader.statement (Reader.expression maxNesting)
      ⟨11, ⟨20, 21⟩, lexemes.drop 11⟩ =
        .ok ⟨.expression (.integer 3) ⟨22, 23⟩, ⟨12, ⟨22, 23⟩, []⟩, by decide⟩ := by
    with_unfolding_all rfl
  refine ⟨balanced, single, interrupted, ?_⟩
  change statementsFrom (18 + 1 + 1) #[] #[] (.start lexemes) = _
  rw [statementsFrom_of_failure (List.cons_ne_nil _ _) atSemicolon, resumed,
    statementsFrom_of_statement two,
    statementsFrom_of_failure (List.cons_ne_nil _ _) atBrace, resumedAgain,
    statementsFrom_of_statement three, statementsFrom_of_end rfl]
  rfl

end ExprMachine
