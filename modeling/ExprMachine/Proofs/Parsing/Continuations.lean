import ExprMachine.Proofs.Parsing.Stops

/-!
# Expressions from left to right

The grammar takes an expression apart from the right: the last operator comes off
first. The parser goes from the left and makes the operand before it larger and
larger. `Continuations` are the steps that it takes, and every derivation takes
them.
-/

namespace ExprMachine

section Steps

variable (Nested : Level → List Token → Phrase → Prop)

/-- What follows the first token of a continuation makes the expression before it a
larger one, and leaves the rest. -/
inductive ContinuationBody (left : Phrase) :
    Continuation → List Token → Phrase → List Token → Prop
  | arguments {items rest : List Token} {phrases : List Phrase} :
      Items Nested items phrases →
        ContinuationBody left .arguments (items ++ .symbol .closeParen :: rest)
          (.call left phrases) rest
  | position {position rest : List Token} {phrase : Phrase} :
      Nested .equality position phrase →
        ContinuationBody left .position (position ++ .symbol .closeBracket :: rest)
          (.index left phrase) rest
  | operator (op : BinaryOperator) {right rest : List Token} {phrase : Phrase} :
      Nested op.level.next right phrase → Stops op.precedence.rank rest →
        ContinuationBody left (.operator op) (right ++ rest) (.binary op left phrase)
          rest

/-- The continuations that bind more tightly than a minimum make the expression
before the tokens a larger one, and leave the rest. -/
inductive Continuations (minimum : Precedence) :
    Phrase → List Token → Phrase → List Token → Prop
  | stop {left : Phrase} {rest : List Token} :
      Bounded minimum.rank rest → Continuations minimum left rest left rest
  | step {left middle whole : Phrase} {continuation : Continuation}
      {tokens following rest : List Token} :
      minimum.rank < continuation.precedence.rank →
        ContinuationBody Nested left continuation tokens middle following →
          Continuations minimum middle following whole rest →
            Continuations minimum left (.symbol continuation.symbol :: tokens) whole
              rest

end Steps

variable {Nested : Level → List Token → Phrase → Prop} {minimum : Precedence}

/-- An expression begins with an operand, and from this operand the continuations
lead to the expression. -/
theorem Layer.exists_operand {level : Level} {tokens : List Token} {phrase : Phrase}
    (derived : Layer Nested level tokens phrase) (tight : minimum.rank < level.floor)
    {rest last : List Token} (stops : Stops level.ceiling rest) {whole : Phrase}
    (continues : Continuations Nested minimum phrase rest whole last) :
    ∃ (first : Level) (front following : List Token) (operand : Phrase),
      Operand Nested first front operand ∧ tokens ++ rest = front ++ following ∧
        Stops first.ceiling following ∧
          Continuations Nested minimum operand following whole last := by
  induction derived generalizing rest with
  | operand operandDerived =>
      exact ⟨_, _, rest, _, operandDerived, rfl, stops, continues⟩
  | @tighter level _ _ _ inductionHypothesis =>
      exact inductionHypothesis (Nat.lt_of_lt_of_le tight level.floor_le_next)
        (stops.mono level.ceiling_le_next) continues
  | binary operator leftDerived rightDerived inductionHypothesis =>
      have admitted : (Continuation.operator operator).precedence.rank ≤
          operator.level.ceiling := Nat.le_of_eq operator.ceiling_level.symm
      have before := tight
      rw [operator.floor_level] at before
      rw [operator.ceiling_level] at stops
      obtain ⟨first, front, following, operand, operandDerived, shape, result⟩ :=
        inductionHypothesis tight (.of_continuation admitted)
          (.step before (.operator operator rightDerived stops) continues)
      refine ⟨first, front, following, operand, operandDerived, ?_, result⟩
      rw [List.append_assoc]
      exact shape
  | call calleeDerived itemsDerived inductionHypothesis =>
      have admitted :
          Continuation.arguments.precedence.rank ≤ Level.suffixed.ceiling := by decide
      obtain ⟨first, front, following, operand, operandDerived, shape, result⟩ :=
        inductionHypothesis tight (.of_continuation admitted)
          (.step tight (.arguments itemsDerived) continues)
      refine ⟨first, front, following, operand, operandDerived, ?_, result⟩
      simp only [List.append_assoc, List.cons_append, List.nil_append]
      exact shape
  | index collectionDerived positionDerived inductionHypothesis =>
      have admitted :
          Continuation.position.precedence.rank ≤ Level.suffixed.ceiling := by decide
      obtain ⟨first, front, following, operand, operandDerived, shape, result⟩ :=
        inductionHypothesis tight (.of_continuation admitted)
          (.step (Nat.lt_succ_of_lt tight) (.position positionDerived) continues)
      refine ⟨first, front, following, operand, operandDerived, ?_, result⟩
      simp only [List.append_assoc, List.cons_append, List.nil_append]
      exact shape

/-- Where an expression stops, its continuations end with itself. -/
theorem Layer.exists_operand_of_stops {level : Level} {tokens rest : List Token}
    {phrase : Phrase} (derived : Layer Nested level tokens phrase)
    (tight : minimum.rank < level.floor) (stops : Stops minimum.rank rest) :
    ∃ (first : Level) (front following : List Token) (operand : Phrase),
      Operand Nested first front operand ∧ tokens ++ rest = front ++ following ∧
        Stops first.ceiling following ∧
          Continuations Nested minimum operand following phrase rest :=
  derived.exists_operand tight (stops.mono (Level.rank_le_ceiling_of_lt_floor tight))
    (.stop stops.bounded)

end ExprMachine
