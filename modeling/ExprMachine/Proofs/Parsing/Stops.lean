import ExprMachine.Proofs.Parsing.Ranks

/-!
# Where expressions stop

The token after an expression must not go on with it. It may neither continue the
expression, which depends on how tightly the expression binds, nor give another
branch to a conditional at its end. Closing symbols never go on with an expression,
and neither does a statement that does not resume the one before it.
-/

namespace ExprMachine

/-- The tokens end an expression of what binds more tightly than the given rank. -/
structure Stops (limit : Nat) (rest : List Token) : Prop where
  bounded : Bounded limit rest
  noElse : rest.head? ≠ some (.keyword .elseWord)

namespace Stops

variable {limit larger : Nat} {rest : List Token}

theorem mono (stops : Stops limit rest) (le : limit ≤ larger) : Stops larger rest :=
  ⟨stops.bounded.mono le, stops.noElse⟩

theorem of_none {mark : Symbol} (none : Continuation.ofToken? (.symbol mark) = none)
    (limit : Nat) : Stops limit (.symbol mark :: rest) where
  bounded := Bounded.of_none none limit
  noElse := by
    intro impossible
    cases impossible

theorem of_continuation {continuation : Continuation}
    (le : continuation.precedence.rank ≤ limit) :
    Stops limit (.symbol continuation.symbol :: rest) where
  bounded := Bounded.of_continuation le
  noElse := by
    intro impossible
    cases impossible

end Stops

/-- What binds more loosely than all tokens of a level may follow the level. -/
theorem Level.rank_le_ceiling_of_lt_floor {minimum : Precedence} {level : Level}
    (lt : minimum.rank < level.floor) : minimum.rank ≤ level.ceiling := by
  cases minimum <;> cases level <;> first | decide | exact absurd lt (by decide)

theorem BinaryOperator.rank_lt_floor (operator : BinaryOperator) :
    operator.precedence.rank < operator.level.next.floor := by
  cases operator <;> decide

theorem BinaryOperator.floor_level (operator : BinaryOperator) :
    operator.level.floor = operator.precedence.rank := by
  cases operator <;> rfl

theorem BinaryOperator.ceiling_level (operator : BinaryOperator) :
    operator.level.ceiling = operator.precedence.rank := by
  cases operator <;> rfl

/-! ## The ends of statements -/

section Ends

variable {levels : Nat} {tokens rest : List Token}

/-- The tokens end statements: they are at the end of the input or of a block. -/
def EndsSentences (rest : List Token) : Prop :=
  rest = [] ∨ rest.head? = some (.symbol .closeBrace)

theorem EndsSentences.stops (ends : EndsSentences rest) (limit : Nat) :
    Stops limit rest ∧ rest.head? ≠ some (.symbol .semicolon) := by
  rcases ends with rfl | head
  · exact ⟨⟨Bounded.nil _, nofun⟩, nofun⟩
  · obtain ⟨more, rfl⟩ := List.head?_eq_some_iff.mp head
    exact ⟨.of_none rfl _, by rintro ⟨⟩⟩

/-- A statement can begin with the token. -/
def StartsSentence (token : Token) : Prop :=
  token = .keyword .letWord ∨ token.StartsExpr

theorem StartsSentence.ne_closeBrace {first : Token} (starts : StartsSentence first) :
    first ≠ .symbol .closeBrace := by
  rintro rfl
  rcases starts with impossible | impossible | impossible | impossible | impossible <;>
    cases impossible

/-- A statement begins with `let` or with an expression. -/
theorem Derives.exists_head_opening {value : List Token} {phrase : Phrase}
    (derived : Derives levels .equality value phrase) (name : Option String)
    (rest : List Token) :
    ∃ first more, Sentence.opening name ++ (value ++ rest) = first :: more ∧
      StartsSentence first := by
  cases name with
  | some name => exact ⟨_, _, rfl, Or.inl rfl⟩
  | none =>
      obtain ⟨first, more, rfl, starts⟩ := derived.exists_head
      exact ⟨first, _, rfl, Or.inr starts⟩

/-- Where statements end, no statement begins. -/
theorem Derives.opening_ne_ends {value : List Token} {phrase : Phrase}
    (derived : Derives levels .equality value phrase) {name : Option String}
    {more : List Token} (ends : EndsSentences rest) :
    rest ≠ Sentence.opening name ++ (value ++ more) := by
  obtain ⟨first, following, shape, starts⟩ := derived.exists_head_opening name more
  rw [shape]
  rcases ends with rfl | head
  · nofun
  · rintro rfl
    exact starts.ne_closeBrace (Option.some.inj head)

theorem Sentences.exists_head {sentences : List Sentence}
    (derived : Sentences (Derives levels) tokens sentences) :
    tokens = [] ∨ ∃ first more, tokens = first :: more ∧ StartsSentence first := by
  cases derived with
  | nil => exact Or.inl rfl
  | cons valueDerived _ _ => exact Or.inr (valueDerived.exists_head_opening _ _)

/-- A token that begins an expression only goes on with the one before it when it
resumes it. -/
theorem stops_of_startsExpr {first : Token} (starts : first.StartsExpr)
    (noResumption : ¬ Resumes (first :: rest)) :
    Stops Precedence.lowest.rank (first :: rest) ∧ first ≠ .symbol .semicolon := by
  cases first with
  | symbol mark =>
      rcases starts with rfl | rfl | rfl | rfl
      · exact ⟨.of_none rfl _, nofun⟩
      · exact absurd ⟨_, rfl, Or.inl rfl⟩ noResumption
      · exact absurd ⟨_, rfl, Or.inr (Or.inl rfl)⟩ noResumption
      · exact absurd ⟨_, rfl, Or.inr (Or.inr rfl)⟩ noResumption
  | keyword word =>
      refine ⟨⟨Bounded.of_none rfl _, ?_⟩, nofun⟩
      rintro ⟨⟩
      rcases starts with impossible | impossible | impossible <;> cases impossible
  | _ => exact ⟨⟨Bounded.of_none rfl _, nofun⟩, nofun⟩

/-- An expression at the end of a statement stops before the next statement. -/
theorem Sentences.stops_of_ne_nil {sentences : List Sentence}
    (derived : Sentences (Derives levels) tokens sentences) (nonempty : tokens ≠ [])
    (noResumption : ¬ Resumes tokens) (rest : List Token) :
    Stops Precedence.lowest.rank (tokens ++ rest) ∧
      (tokens ++ rest).head? ≠ some (.symbol .semicolon) := by
  rcases derived.exists_head with rfl | ⟨first, more, rfl, rfl | starts⟩
  · exact absurd rfl nonempty
  · exact ⟨⟨Bounded.of_none rfl _, nofun⟩, nofun⟩
  · have noResumption : ¬ Resumes (first :: (more ++ rest)) := by
      rintro ⟨mark, head, which⟩
      exact noResumption ⟨mark, head, which⟩
    obtain ⟨stops, noSemicolon⟩ := stops_of_startsExpr starts noResumption
    refine ⟨stops, ?_⟩
    rintro ⟨⟩
    exact noSemicolon rfl

theorem Sentences.stops {sentences : List Sentence}
    (derived : Sentences (Derives levels) tokens sentences)
    (noResumption : ¬ Resumes tokens) (ends : EndsSentences rest) :
    Stops Precedence.lowest.rank (tokens ++ rest) ∧
      (tokens ++ rest).head? ≠ some (.symbol .semicolon) := by
  by_cases empty : tokens = []
  · subst empty
    exact ends.stops _
  · exact derived.stops_of_ne_nil empty noResumption rest

theorem stops_of_ending {terminated : Bool}
    (stops : terminated = false → Stops Precedence.lowest.rank rest) :
    Stops Precedence.lowest.rank (Sentence.ending terminated ++ rest) := by
  cases terminated with
  | true => exact .of_none rfl _
  | false => exact stops rfl

end Ends

/-! ## The ends of lists -/

section Lists

variable {tokens rest : List Token}

def Closing (mark : Symbol) : Prop :=
  mark = .closeParen ∨ mark = .closeBracket

theorem Closing.stops {mark : Symbol} (closing : Closing mark) (limit : Nat) :
    Stops limit (.symbol mark :: rest) := by
  rcases closing with rfl | rfl
  · exact .of_none rfl limit
  · exact .of_none rfl limit

theorem Closing.not_startsExpr {mark : Symbol} (closing : Closing mark) :
    ¬ (Token.symbol mark).StartsExpr := by
  rcases closing with rfl | rfl
  · rintro (impossible | impossible | impossible | impossible) <;> cases impossible
  · rintro (impossible | impossible | impossible | impossible) <;> cases impossible

theorem Closing.ne_comma {mark : Symbol} (closing : Closing mark) : mark ≠ .comma := by
  rintro rfl
  rcases closing with impossible | impossible <;> cases impossible

theorem MoreItems.stops {Nested : Level → List Token → Phrase → Prop}
    {phrases : List Phrase} (derived : MoreItems Nested tokens phrases)
    {closing : Symbol} (closes : Closing closing) :
    Stops Precedence.lowest.rank (tokens ++ .symbol closing :: rest) := by
  cases derived with
  | nil => exact closes.stops _
  | cons _ _ => exact .of_none rfl _

end Lists

end ExprMachine
