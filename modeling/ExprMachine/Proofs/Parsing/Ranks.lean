import ExprMachine.Proofs.Grammar

/-!
# Ranks of levels

The parser knows no levels. It reads an operand and goes on for as long as the
next token binds more tightly than a minimum. What it reads with a minimum has at
least the level `Precedence.level`; what has been read at a level can only be
followed by a token that binds no more tightly than the `ceiling` of the level.
-/

namespace ExprMachine

namespace Level

def rank : Level → Nat
  | equality => 1
  | comparison => 2
  | sum => 3
  | product => 4
  | unary => 5
  | suffixed => 6
  | atom => 7

/-- How tightly a token can bind that follows an expression of a level. Only
calls, index operations and atoms can be called and indexed. -/
def ceiling : Level → Nat
  | suffixed | atom => Precedence.index.rank
  | level => level.rank

/-- How loosely the tokens of an expression of a level bind. The first token of a
unary operator never binds to the left. -/
def floor : Level → Nat
  | unary | suffixed | atom => Precedence.call.rank
  | level => level.rank

theorem rank_next {level : Level} (noAtom : level ≠ .atom) :
    level.next.rank = level.rank + 1 := by
  cases level with
  | atom => exact absurd rfl noAtom
  | _ => rfl

theorem rank_le_ceiling (level : Level) : level.rank ≤ level.ceiling := by
  cases level <;> decide

theorem ceiling_le_next (level : Level) : level.ceiling ≤ level.next.ceiling := by
  cases level <;> decide

theorem floor_le_next (level : Level) : level.floor ≤ level.next.floor := by
  cases level <;> decide

end Level

/-- The loosest level of what is read with a minimum. -/
def Precedence.level : Precedence → Level
  | lowest => .equality
  | equality => .comparison
  | comparison => .sum
  | sum => .product
  | product | unary | call | index => .unary

theorem BinaryOperator.rank_level (operator : BinaryOperator) :
    operator.level.rank = operator.precedence.rank := by
  cases operator <;> rfl

theorem BinaryOperator.level_precedence (operator : BinaryOperator) :
    operator.precedence.level = operator.level.next := by
  cases operator <;> rfl

/-! ## Continuations -/

def Continuation.symbol : Continuation → Symbol
  | .arguments => .openParen
  | .position => .openBracket
  | .operator op => op.symbol

theorem Continuation.ofToken?_symbol (continuation : Continuation) :
    ofToken? (.symbol continuation.symbol) = some continuation := by
  cases continuation with
  | arguments | position => rfl
  | operator op => cases op <;> rfl

theorem Continuation.symbol_inj {continuation other : Continuation}
    (same : continuation.symbol = other.symbol) : continuation = other := by
  have found := continuation.ofToken?_symbol
  rw [same, other.ofToken?_symbol] at found
  exact (Option.some.inj found).symm

theorem Continuation.token_of_ofToken? {token : Token} {continuation : Continuation}
    (found : ofToken? token = some continuation) :
    token = .symbol continuation.symbol := by
  cases token with
  | symbol mark => cases mark <;> cases found <;> rfl
  | _ => cases found

/-- The next token, if it continues an expression, binds no more tightly than the
given rank. -/
def Bounded (limit : Nat) (rest : List Token) : Prop :=
  ∀ token continuation, rest.head? = some token →
    Continuation.ofToken? token = some continuation →
      continuation.precedence.rank ≤ limit

namespace Bounded

variable {limit larger : Nat} {rest : List Token}

theorem mono (bounded : Bounded limit rest) (le : limit ≤ larger) :
    Bounded larger rest := by
  intro token continuation head found
  exact Nat.le_trans (bounded token continuation head found) le

theorem index (rest : List Token) : Bounded Precedence.index.rank rest := by
  intro token continuation _ _
  cases continuation with
  | arguments | position => decide
  | operator op => cases op <;> decide

theorem nil (limit : Nat) : Bounded limit [] := by
  intro token continuation head _
  cases head

theorem of_none {token : Token} (none : Continuation.ofToken? token = none)
    (limit : Nat) : Bounded limit (token :: rest) := by
  intro other continuation head found
  cases head
  rw [none] at found
  cases found

theorem of_continuation {continuation : Continuation}
    (le : continuation.precedence.rank ≤ limit) :
    Bounded limit (.symbol continuation.symbol :: rest) := by
  intro token other head found
  cases head
  rw [continuation.ofToken?_symbol] at found
  cases found
  exact le

theorem not_lt {continuation : Continuation}
    (bounded : Bounded limit (.symbol continuation.symbol :: rest)) :
    ¬ limit < continuation.precedence.rank := by
  have le := bounded _ continuation rfl continuation.ofToken?_symbol
  exact Nat.not_lt_of_le le

end Bounded

/-! ## Levels of what has been read -/

namespace Layer

variable {Nested : Level → List Token → Phrase → Prop} {level loose : Level}
  {tokens : List Token} {phrase : Phrase}

/-- An expression of a level belongs to all looser levels. -/
theorem loosen (derived : Layer Nested level tokens phrase)
    (le : loose.rank ≤ level.rank) : Layer Nested loose tokens phrase := by
  induction difference : level.rank - loose.rank generalizing loose with
  | zero =>
      have same : loose = level := by
        cases loose <;> cases level <;> simp_all [Level.rank]
      rw [same]
      exact derived
  | succ difference inductionHypothesis =>
      have noAtom : loose ≠ .atom := by
        rintro rfl
        cases level <;> simp_all [Level.rank]
      have step := Level.rank_next noAtom
      exact .tighter (inductionHypothesis (by omega) (by omega))

end Layer

/-- The level of an expression that ends with a continuation. -/
def Continuation.level : Continuation → Level
  | .arguments | .position => .suffixed
  | .operator op => op.level

/-- A token that may follow an expression of a level takes it as an operand. -/
theorem Continuation.rank_level_le {continuation : Continuation} {level : Level}
    (le : continuation.precedence.rank ≤ level.ceiling) :
    continuation.level.rank ≤ level.rank := by
  cases continuation with
  | operator op =>
      cases op <;> cases level <;> first | decide | exact absurd le (by decide)
  | _ => cases level <;> first | decide | exact absurd le (by decide)

/-- What binds more tightly than a minimum has the level that is read with it. -/
theorem Precedence.rank_level_le {minimum : Precedence} {continuation : Continuation}
    (tighter : minimum.rank < continuation.precedence.rank) :
    minimum.level.rank ≤ continuation.level.rank := by
  cases continuation with
  | operator op =>
      cases op <;> cases minimum <;> first | decide | exact absurd tighter (by decide)
  | _ => cases minimum <;> decide

end ExprMachine
