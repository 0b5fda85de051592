import ExprMachine.Proofs.Parsing.Continuations

/-!
# The grammar is unambiguous

Two derivations that begin at the same token and stop there where they may stop
have the same tree and take the same tokens. Expressions are compared from left to
right: the operands that they begin with agree, and so does each continuation. The
nested expressions are assumed to be unambiguous.
-/

namespace ExprMachine

/-- What derives from the same tokens and stops is the same. -/
def Unambiguous (Nested : Level → List Token → Phrase → Prop) : Prop :=
  ∀ {minimum : Precedence} {level other : Level} {front rest otherFront otherRest :
    List Token} {phrase otherPhrase : Phrase}, Nested level front phrase →
    Nested other otherFront otherPhrase → minimum.rank < level.floor →
    minimum.rank < other.floor → Stops minimum.rank rest →
    Stops minimum.rank otherRest → front ++ rest = otherFront ++ otherRest →
      phrase = otherPhrase ∧ rest = otherRest

section Nested

variable {levels : Nat} {tokens rest otherTokens otherRest : List Token}

theorem Unambiguous.lowest (unambiguous : Unambiguous (Derives levels))
    {phrase otherPhrase : Phrase} (derived : Derives levels .equality tokens phrase)
    (other : Derives levels .equality otherTokens otherPhrase)
    (stops : Stops Precedence.lowest.rank rest)
    (otherStops : Stops Precedence.lowest.rank otherRest)
    (same : tokens ++ rest = otherTokens ++ otherRest) :
    phrase = otherPhrase ∧ rest = otherRest :=
  unambiguous derived other (by decide) (by decide) stops otherStops same

/-- A nested expression ends before the symbol that closes it. -/
theorem Unambiguous.closed (unambiguous : Unambiguous (Derives levels)) {mark : Symbol}
    (closes : Closing mark) {phrase otherPhrase : Phrase}
    (derived : Derives levels .equality tokens phrase)
    (other : Derives levels .equality otherTokens otherPhrase)
    (same : tokens ++ .symbol mark :: rest = otherTokens ++ .symbol mark :: otherRest) :
    phrase = otherPhrase ∧ rest = otherRest := by
  obtain ⟨phraseSame, restSame⟩ :=
    unambiguous.lowest derived other (closes.stops _) (closes.stops _) same
  exact ⟨phraseSame, (List.cons.inj restSame).2⟩

/-! ## Lists -/

theorem MoreItems.unique (unambiguous : Unambiguous (Derives levels)) {mark : Symbol}
    (closes : Closing mark) {phrases otherPhrases : List Phrase}
    (derived : MoreItems (Derives levels) tokens phrases)
    (other : MoreItems (Derives levels) otherTokens otherPhrases)
    (same : tokens ++ .symbol mark :: rest = otherTokens ++ .symbol mark :: otherRest) :
    phrases = otherPhrases ∧ rest = otherRest := by
  induction derived generalizing otherTokens otherPhrases with
  | nil =>
      cases other with
      | nil => exact ⟨rfl, (List.cons.inj same).2⟩
      | cons _ _ =>
          cases same
          exact absurd rfl closes.ne_comma
  | cons itemDerived restDerived inductionHypothesis =>
      cases other with
      | nil =>
          cases same
          exact absurd rfl closes.ne_comma
      | cons otherItem otherDerived =>
          simp only [List.cons_append, List.append_assoc, List.cons.injEq, true_and]
            at same
          obtain ⟨rfl, restSame⟩ := unambiguous.lowest itemDerived otherItem
            (restDerived.stops closes) (otherDerived.stops closes) same
          obtain ⟨rfl, restSame⟩ := inductionHypothesis otherDerived restSame
          exact ⟨rfl, restSame⟩

theorem Items.unique (unambiguous : Unambiguous (Derives levels)) {mark : Symbol}
    (closes : Closing mark) {phrases otherPhrases : List Phrase}
    (derived : Items (Derives levels) tokens phrases)
    (other : Items (Derives levels) otherTokens otherPhrases)
    (same : tokens ++ .symbol mark :: rest = otherTokens ++ .symbol mark :: otherRest) :
    phrases = otherPhrases ∧ rest = otherRest := by
  cases derived with
  | nil =>
      cases other with
      | nil => exact ⟨rfl, (List.cons.inj same).2⟩
      | cons itemDerived _ =>
          obtain ⟨first, more, rfl, starts⟩ := itemDerived.exists_head
          cases same
          exact absurd starts closes.not_startsExpr
  | cons itemDerived restDerived =>
      cases other with
      | nil =>
          obtain ⟨first, more, rfl, starts⟩ := itemDerived.exists_head
          cases same
          exact absurd starts closes.not_startsExpr
      | cons otherItem otherDerived =>
          rw [List.append_assoc, List.append_assoc] at same
          obtain ⟨rfl, restSame⟩ := unambiguous.lowest itemDerived otherItem
            (restDerived.stops closes) (otherDerived.stops closes) same
          obtain ⟨rfl, restSame⟩ :=
            restDerived.unique unambiguous closes otherDerived restSame
          exact ⟨rfl, restSame⟩

/-! ## Statements -/

theorem Sentence.opening_inj {name otherName : Option String} {value otherValue :
    List Token} {phrase otherPhrase : Phrase}
    (derived : Derives levels .equality value phrase)
    (other : Derives levels .equality otherValue otherPhrase)
    (same : opening name ++ (value ++ rest) =
      opening otherName ++ (otherValue ++ otherRest)) :
    name = otherName ∧ value ++ rest = otherValue ++ otherRest := by
  obtain ⟨first, more, rfl, starts⟩ := derived.exists_head
  obtain ⟨otherFirst, otherMore, rfl, otherStarts⟩ := other.exists_head
  have noLet : ¬ (Token.keyword .letWord).StartsExpr := by
    rintro (impossible | impossible | impossible) <;> cases impossible
  cases name with
  | none =>
      cases otherName with
      | none => exact ⟨rfl, same⟩
      | some _ =>
          rw [(List.cons.inj same).1] at starts
          exact absurd starts noLet
  | some name =>
      cases otherName with
      | none =>
          rw [← (List.cons.inj same).1] at otherStarts
          exact absurd otherStarts noLet
      | some otherName =>
          obtain ⟨nameSame, following⟩ := List.cons.inj (List.cons.inj same).2
          cases nameSame
          exact ⟨rfl, (List.cons.inj following).2⟩

theorem Sentence.ending_inj {terminated otherTerminated : Bool}
    (missing : terminated = false → rest.head? ≠ some (.symbol .semicolon))
    (otherMissing : otherTerminated = false →
      otherRest.head? ≠ some (.symbol .semicolon))
    (same : ending terminated ++ rest = ending otherTerminated ++ otherRest) :
    terminated = otherTerminated ∧ rest = otherRest := by
  cases terminated with
  | true =>
      cases otherTerminated with
      | true => exact ⟨rfl, (List.cons.inj same).2⟩
      | false =>
          cases same
          exact absurd rfl (otherMissing rfl)
  | false =>
      cases otherTerminated with
      | true =>
          cases same
          exact absurd rfl (missing rfl)
      | false => exact ⟨rfl, same⟩

theorem Sentences.unique (unambiguous : Unambiguous (Derives levels))
    {sentences otherSentences : List Sentence}
    (derived : Sentences (Derives levels) tokens sentences)
    (other : Sentences (Derives levels) otherTokens otherSentences)
    (ends : EndsSentences rest) (otherEnds : EndsSentences otherRest)
    (same : tokens ++ rest = otherTokens ++ otherRest) :
    sentences = otherSentences ∧ rest = otherRest := by
  induction derived generalizing otherTokens otherSentences with
  | nil =>
      cases other with
      | nil => exact ⟨rfl, same⟩
      | cons valueDerived _ _ =>
          simp only [List.append_assoc] at same
          exact absurd same (valueDerived.opening_ne_ends ends)
  | cons valueDerived restDerived noResumption inductionHypothesis =>
      cases other with
      | nil =>
          simp only [List.append_assoc] at same
          exact absurd same.symm (valueDerived.opening_ne_ends otherEnds)
      | cons otherValue otherDerived otherNoResumption =>
          simp only [List.append_assoc] at same
          obtain ⟨rfl, valueSame⟩ :=
            Sentence.opening_inj valueDerived otherValue same
          have stops := fun missing => restDerived.stops (noResumption missing) ends
          have otherStops := fun missing =>
            otherDerived.stops (otherNoResumption missing) otherEnds
          obtain ⟨rfl, endingSame⟩ := unambiguous.lowest valueDerived otherValue
            (stops_of_ending fun missing => (stops missing).1)
            (stops_of_ending fun missing => (otherStops missing).1) valueSame
          obtain ⟨rfl, restSame⟩ := Sentence.ending_inj
            (fun missing => (stops missing).2) (fun missing => (otherStops missing).2)
            endingSame
          obtain ⟨rfl, restSame⟩ := inductionHypothesis otherDerived restSame
          exact ⟨rfl, restSame⟩

theorem Sentences.closed (unambiguous : Unambiguous (Derives levels))
    {sentences otherSentences : List Sentence}
    (derived : Sentences (Derives levels) tokens sentences)
    (other : Sentences (Derives levels) otherTokens otherSentences)
    (same : tokens ++ .symbol .closeBrace :: rest =
      otherTokens ++ .symbol .closeBrace :: otherRest) :
    sentences = otherSentences ∧ rest = otherRest := by
  obtain ⟨sentencesSame, restSame⟩ :=
    derived.unique unambiguous other (Or.inr rfl) (Or.inr rfl) same
  exact ⟨sentencesSame, (List.cons.inj restSame).2⟩

theorem OtherBranch.unique (unambiguous : Unambiguous (Derives levels))
    {alternative otherAlternative : Option (List Sentence)}
    (derived : OtherBranch (Derives levels) tokens alternative)
    (other : OtherBranch (Derives levels) otherTokens otherAlternative)
    (noElse : rest.head? ≠ Option.some (.keyword .elseWord))
    (otherNoElse : otherRest.head? ≠ Option.some (.keyword .elseWord))
    (same : tokens ++ rest = otherTokens ++ otherRest) :
    alternative = otherAlternative ∧ rest = otherRest := by
  cases derived with
  | none =>
      cases other with
      | none => exact ⟨rfl, same⟩
      | some _ =>
          cases same
          exact absurd rfl noElse
  | some branchDerived =>
      cases other with
      | none =>
          cases same
          exact absurd rfl otherNoElse
      | some otherBranch =>
          simp only [List.cons_append, List.append_assoc, List.cons.injEq, true_and]
            at same
          obtain ⟨rfl, restSame⟩ := branchDerived.closed unambiguous otherBranch same
          exact ⟨rfl, restSame⟩

/-! ## Expressions -/

theorem Operand.unique (unambiguous : Unambiguous (Derives levels))
    {level otherLevel : Level} {phrase otherPhrase : Phrase}
    (derived : Operand (Derives levels) level tokens phrase)
    (other : Operand (Derives levels) otherLevel otherTokens otherPhrase)
    (stops : Stops level.ceiling rest) (otherStops : Stops otherLevel.ceiling otherRest)
    (same : tokens ++ rest = otherTokens ++ otherRest) :
    phrase = otherPhrase ∧ rest = otherRest := by
  cases derived with
  | integer value =>
      cases other with
      | integer other =>
          cases same
          exact ⟨rfl, rfl⟩
      | _ => cases same
  | boolean value =>
      cases other with
      | boolean other =>
          obtain ⟨wordSame, restSame⟩ := List.cons.inj same
          rw [Keyword.ofBool_inj (Token.keyword.inj wordSame)]
          exact ⟨rfl, restSame⟩
      | conditional _ _ _ => cases value <;> cases same
      | _ => cases same
  | string content =>
      cases other with
      | string other =>
          cases same
          exact ⟨rfl, rfl⟩
      | _ => cases same
  | identifier name =>
      cases other with
      | identifier other =>
          cases same
          exact ⟨rfl, rfl⟩
      | _ => cases same
  | group innerDerived =>
      cases other with
      | group otherDerived =>
          simp only [List.cons_append, List.append_assoc, List.cons.injEq, true_and]
            at same
          obtain ⟨rfl, restSame⟩ :=
            unambiguous.closed (Or.inl rfl) innerDerived otherDerived same
          exact ⟨rfl, restSame⟩
      | unary operator _ => cases operator <;> cases same
      | _ => cases same
  | array itemsDerived =>
      cases other with
      | array otherDerived =>
          simp only [List.cons_append, List.append_assoc, List.cons.injEq, true_and]
            at same
          obtain ⟨rfl, restSame⟩ :=
            itemsDerived.unique unambiguous (Or.inr rfl) otherDerived same
          exact ⟨rfl, restSame⟩
      | unary operator _ => cases operator <;> cases same
      | _ => cases same
  | conditional conditionDerived sentencesDerived alternativeDerived =>
      cases other with
      | conditional otherCondition otherSentences otherAlternative =>
          simp only [List.cons_append, List.append_assoc, List.cons.injEq, true_and]
            at same
          obtain ⟨rfl, conditionSame⟩ :=
            unambiguous.closed (Or.inl rfl) conditionDerived otherCondition same
          obtain ⟨rfl, sentencesSame⟩ := sentencesDerived.closed unambiguous
            otherSentences (List.cons.inj conditionSame).2
          obtain ⟨rfl, restSame⟩ := alternativeDerived.unique unambiguous
            otherAlternative stops.noElse otherStops.noElse sentencesSame
          exact ⟨rfl, restSame⟩
      | boolean value => cases value <;> cases same
      | _ => cases same
  | unary operator operandDerived =>
      cases other with
      | unary otherOperator otherDerived =>
          obtain ⟨symbolSame, operandSame⟩ := List.cons.inj same
          obtain rfl := UnaryOperator.symbol_inj (Token.symbol.inj symbolSame)
          have unaryStops : Stops Precedence.unary.rank rest := stops
          obtain ⟨rfl, restSame⟩ := unambiguous operandDerived otherDerived (by decide)
            (by decide) unaryStops otherStops operandSame
          exact ⟨rfl, restSame⟩
      | group _ => cases operator <;> cases same
      | array _ => cases operator <;> cases same
      | _ => cases same

theorem ContinuationBody.unique (unambiguous : Unambiguous (Derives levels))
    {left whole otherWhole : Phrase} {continuation : Continuation}
    (derived : ContinuationBody (Derives levels) left continuation tokens whole rest)
    (other : ContinuationBody (Derives levels) left continuation otherTokens otherWhole
      otherRest)
    (same : tokens = otherTokens) : whole = otherWhole ∧ rest = otherRest := by
  cases derived with
  | arguments itemsDerived =>
      cases other with
      | arguments otherDerived =>
          obtain ⟨rfl, restSame⟩ :=
            itemsDerived.unique unambiguous (Or.inl rfl) otherDerived same
          exact ⟨rfl, restSame⟩
  | position phraseDerived =>
      cases other with
      | position otherDerived =>
          obtain ⟨rfl, restSame⟩ :=
            unambiguous.closed (Or.inr rfl) phraseDerived otherDerived same
          exact ⟨rfl, restSame⟩
  | operator op rightDerived stops =>
      cases other with
      | operator _ otherDerived otherStops =>
          obtain ⟨rfl, restSame⟩ := unambiguous rightDerived otherDerived
            op.rank_lt_floor op.rank_lt_floor stops otherStops same
          exact ⟨rfl, restSame⟩

theorem Continuations.unique (unambiguous : Unambiguous (Derives levels))
    {minimum : Precedence} {left whole otherWhole : Phrase}
    (derived : Continuations (Derives levels) minimum left tokens whole rest)
    (other :
      Continuations (Derives levels) minimum left otherTokens otherWhole otherRest)
    (same : tokens = otherTokens) : whole = otherWhole ∧ rest = otherRest := by
  induction derived generalizing otherTokens with
  | stop bounded =>
      cases other with
      | stop _ => exact ⟨rfl, same⟩
      | step tighter _ _ =>
          rw [same] at bounded
          exact absurd tighter bounded.not_lt
  | step tighter bodyDerived _ inductionHypothesis =>
      cases other with
      | stop bounded =>
          rw [← same] at bounded
          exact absurd tighter bounded.not_lt
      | step _ otherBody otherDerived =>
          obtain ⟨symbolSame, bodySame⟩ := List.cons.inj same
          obtain rfl := Continuation.symbol_inj (Token.symbol.inj symbolSame)
          obtain ⟨rfl, rfl⟩ := bodyDerived.unique unambiguous otherBody bodySame
          exact inductionHypothesis otherDerived rfl

end Nested

/-- Expressions are derived in one way only. -/
theorem Derives.unambiguous (levels : Nat) : Unambiguous (Derives levels) := by
  induction levels with
  | zero =>
      intro minimum level other front rest otherFront otherRest phrase otherPhrase
        derived
      exact derived.elim
  | succ levels inductionHypothesis =>
      intro minimum level other front rest otherFront otherRest phrase otherPhrase
        derived otherDerived tight otherTight stops otherStops same
      obtain ⟨first, _, following, operand, operandDerived, shape, operandStops,
        continues⟩ := Layer.exists_operand_of_stops derived tight stops
      obtain ⟨otherFirst, _, otherFollowing, otherOperand, otherOperandDerived,
        otherShape, otherOperandStops, otherContinues⟩ :=
          Layer.exists_operand_of_stops otherDerived otherTight otherStops
      obtain ⟨rfl, followingSame⟩ := operandDerived.unique inductionHypothesis
        otherOperandDerived operandStops otherOperandStops
          (shape.symm.trans (same.trans otherShape))
      exact continues.unique inductionHypothesis otherContinues followingSame

/-- Programs are derived in one way only. -/
theorem Sentences.unambiguous {levels : Nat} {tokens : List Token}
    {sentences otherSentences : List Sentence}
    (derived : Sentences (Derives levels) tokens sentences)
    (other : Sentences (Derives levels) tokens otherSentences) :
    sentences = otherSentences :=
  (derived.unique (Derives.unambiguous levels) other (Or.inl rfl) (Or.inl rfl) rfl).1

end ExprMachine
