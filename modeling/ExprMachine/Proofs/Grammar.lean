import ExprMachine.Expr.Parsing

/-!
# The grammar of programs

A program is a list of statements. An expression belongs to a level: equalities,
comparisons, sums and products, which all associate to the left, then unary
operators, then calls and index operations, and atoms. Each level takes the
operands of its operators from itself on the left and from the next level on the
right.

Expressions that stand inside others are nested one level deeper than these, only
left operands are not. `Layer` is the grammar with the nested expressions left
open, and `Derives` puts a number of layers on each other.

Derivations are recorded as trees: a `Phrase` or a `Sentence` keeps what an
expression or a statement leaves out, which is the parentheses around expressions
and the semicolons after statements.
-/

namespace ExprMachine

/-! ## Trees -/

mutual

/-- The tree of an expression. -/
inductive Phrase where
  | integer (value : Word)
  | boolean (value : Bool)
  | string (content : String)
  | identifier (name : String)
  | group (inner : Phrase)
  | unary (operator : UnaryOperator) (operand : Phrase)
  | binary (operator : BinaryOperator) (left right : Phrase)
  | array (items : List Phrase)
  | call (callee : Phrase) (arguments : List Phrase)
  | index (collection position : Phrase)
  | conditional (condition : Phrase) (consequence : List Sentence)
      (alternative : Option (List Sentence))

/-- The tree of a statement: the name that it binds, if it binds one, its value,
and whether a semicolon ends it. -/
inductive Sentence where
  | mk (name : Option String) (value : Phrase) (terminated : Bool)

end

/-- The statement with the given value that binds a name, if there is one. -/
def Stmt.ofName (value : Expr) : Option String → Stmt
  | some name => .binding name value .unknown
  | none => .expression value .unknown

mutual

/-- The expression that a tree denotes. Statements inside it carry no spans. -/
def Phrase.expr : Phrase → Expr
  | .integer value => .integer value
  | .boolean value => .boolean value
  | .string content => .string content
  | .identifier name => .identifier name
  | .group inner => inner.expr
  | .unary operator operand => .unary operator operand.expr
  | .binary operator left right => .binary operator left.expr right.expr
  | .array items => .array (Phrase.exprs items)
  | .call callee arguments => .call callee.expr (Phrase.exprs arguments)
  | .index collection position => .index collection.expr position.expr
  | .conditional condition consequence none =>
      .conditional condition.expr (Sentence.stmts consequence) none
  | .conditional condition consequence (some alternative) =>
      .conditional condition.expr (Sentence.stmts consequence)
        (some (Sentence.stmts alternative))

def Phrase.exprs : List Phrase → List Expr
  | [] => []
  | phrase :: phrases => phrase.expr :: Phrase.exprs phrases

def Sentence.stmt : Sentence → Stmt
  | .mk name value _ => Stmt.ofName value.expr name

def Sentence.stmts : List Sentence → List Stmt
  | [] => []
  | sentence :: sentences => sentence.stmt :: Sentence.stmts sentences

end

mutual

/-- The expression without the spans of the statements inside it. -/
def Expr.withoutSpans : Expr → Expr
  | .integer value => .integer value
  | .boolean value => .boolean value
  | .string content => .string content
  | .identifier name => .identifier name
  | .unary operator operand => .unary operator operand.withoutSpans
  | .binary operator left right =>
      .binary operator left.withoutSpans right.withoutSpans
  | .array items => .array (Expr.allWithoutSpans items)
  | .call callee arguments =>
      .call callee.withoutSpans (Expr.allWithoutSpans arguments)
  | .index collection position =>
      .index collection.withoutSpans position.withoutSpans
  | .conditional condition consequence none =>
      .conditional condition.withoutSpans (Stmt.allWithoutSpans consequence) none
  | .conditional condition consequence (some alternative) =>
      .conditional condition.withoutSpans (Stmt.allWithoutSpans consequence)
        (some (Stmt.allWithoutSpans alternative))

def Expr.allWithoutSpans : List Expr → List Expr
  | [] => []
  | expr :: exprs => expr.withoutSpans :: Expr.allWithoutSpans exprs

/-- The statement without its span and those of the statements inside it. -/
def Stmt.withoutSpans : Stmt → Stmt
  | .binding name value _ => .binding name value.withoutSpans .unknown
  | .expression value _ => .expression value.withoutSpans .unknown

def Stmt.allWithoutSpans : List Stmt → List Stmt
  | [] => []
  | stmt :: stmts => stmt.withoutSpans :: Stmt.allWithoutSpans stmts

end

theorem Expr.allWithoutSpans_append (front back : List Expr) :
    allWithoutSpans (front ++ back) =
      allWithoutSpans front ++ allWithoutSpans back := by
  induction front with
  | nil => rfl
  | cons expr front inductionHypothesis =>
      rw [List.cons_append, allWithoutSpans, inductionHypothesis]
      rfl

theorem Stmt.allWithoutSpans_append (front back : List Stmt) :
    allWithoutSpans (front ++ back) =
      allWithoutSpans front ++ allWithoutSpans back := by
  induction front with
  | nil => rfl
  | cons stmt front inductionHypothesis =>
      rw [List.cons_append, allWithoutSpans, inductionHypothesis]
      rfl

/-! ## Levels -/

/-- The levels of expressions, from the loosest to the tightest. -/
inductive Level where
  | equality
  | comparison
  | sum
  | product
  | unary
  | suffixed
  | atom
deriving DecidableEq, Repr

def Level.next : Level → Level
  | equality => comparison
  | comparison => sum
  | sum => product
  | product => unary
  | unary => suffixed
  | suffixed => atom
  | atom => atom

def UnaryOperator.symbol : UnaryOperator → Symbol
  | not => .bang
  | negate => .minus

theorem UnaryOperator.symbol_inj {operator other : UnaryOperator}
    (same : operator.symbol = other.symbol) : operator = other := by
  cases operator <;> cases other <;> first | rfl | cases same

def BinaryOperator.symbol : BinaryOperator → Symbol
  | add => .plus
  | subtract => .minus
  | multiply => .star
  | divide => .slash
  | modulo => .percent
  | equals => .equal
  | notEquals => .notEqual
  | lessThan => .less
  | greaterThan => .greater

def BinaryOperator.level : BinaryOperator → Level
  | equals | notEquals => .equality
  | lessThan | greaterThan => .comparison
  | add | subtract => .sum
  | multiply | divide | modulo => .product

/-! ## Derivations -/

/-- The tokens before the value of a statement that binds a name, if there is
one. -/
def Sentence.opening : Option String → List Token
  | some name => [.keyword .letWord, .identifier name, .symbol .assign]
  | none => []

/-- The tokens after the value of a statement. -/
def Sentence.ending : (terminated : Bool) → List Token
  | true => [.symbol .semicolon]
  | false => []

/-- The next statement begins with a token that would go on with an expression
before it. -/
def Resumes (tokens : List Token) : Prop :=
  ∃ mark, tokens.head? = some (.symbol mark) ∧
    (mark = .minus ∨ mark = .openParen ∨ mark = .openBracket)

def Keyword.ofBool : Bool → Keyword
  | true => .trueWord
  | false => .falseWord

theorem Keyword.ofBool_inj {value other : Bool} (same : ofBool value = ofBool other) :
    value = other := by
  cases value <;> cases other <;> first | rfl | cases same

section Layer

variable (Nested : Level → List Token → Phrase → Prop)

/-- Further items of a list, each after a comma. -/
inductive MoreItems : List Token → List Phrase → Prop
  | nil : MoreItems [] []
  | cons {item rest : List Token} {phrase : Phrase} {phrases : List Phrase} :
      Nested .equality item phrase → MoreItems rest phrases →
        MoreItems (.symbol .comma :: (item ++ rest)) (phrase :: phrases)

inductive Items : List Token → List Phrase → Prop
  | nil : Items [] []
  | cons {item rest : List Token} {phrase : Phrase} {phrases : List Phrase} :
      Nested .equality item phrase → MoreItems Nested rest phrases →
        Items (item ++ rest) (phrase :: phrases)

/-- Statements one after another. A semicolon may only be left out when the next
statement does not resume the expression before it. -/
inductive Sentences : List Token → List Sentence → Prop
  | nil : Sentences [] []
  | cons {name : Option String} {value rest : List Token} {phrase : Phrase}
      {terminated : Bool} {sentences : List Sentence} :
      Nested .equality value phrase → Sentences rest sentences →
        (terminated = false → ¬ Resumes rest) →
          Sentences
            (Sentence.opening name ++ (value ++ (Sentence.ending terminated ++ rest)))
            (.mk name phrase terminated :: sentences)

inductive OtherBranch : List Token → Option (List Sentence) → Prop
  | none : OtherBranch [] none
  | some {tokens : List Token} {sentences : List Sentence} :
      Sentences Nested tokens sentences →
        OtherBranch
          (.keyword .elseWord :: .symbol .openBrace ::
            (tokens ++ [.symbol .closeBrace])) (some sentences)

/-- Operands of a level: atoms, and unary operators with their operands. -/
inductive Operand : Level → List Token → Phrase → Prop
  | integer (value : Word) : Operand .atom [.integer value] (.integer value)
  | boolean (value : Bool) :
      Operand .atom [.keyword (.ofBool value)] (.boolean value)
  | string (content : String) : Operand .atom [.string content] (.string content)
  | identifier (name : String) :
      Operand .atom [.identifier name] (.identifier name)
  | group {inner : List Token} {phrase : Phrase} :
      Nested .equality inner phrase →
        Operand .atom (.symbol .openParen :: (inner ++ [.symbol .closeParen]))
          (.group phrase)
  | array {items : List Token} {phrases : List Phrase} :
      Items Nested items phrases →
        Operand .atom (.symbol .openBracket :: (items ++ [.symbol .closeBracket]))
          (.array phrases)
  | conditional {condition consequence other : List Token} {phrase : Phrase}
      {sentences : List Sentence} {alternative : Option (List Sentence)} :
      Nested .equality condition phrase → Sentences Nested consequence sentences →
        OtherBranch Nested other alternative →
          Operand .atom
            (.keyword .ifWord :: .symbol .openParen ::
              (condition ++ .symbol .closeParen :: .symbol .openBrace ::
                (consequence ++ .symbol .closeBrace :: other)))
            (.conditional phrase sentences alternative)
  | unary (operator : UnaryOperator) {tokens : List Token} {operand : Phrase} :
      Nested .unary tokens operand →
        Operand .unary (.symbol operator.symbol :: tokens) (.unary operator operand)

/-- Expressions of a level, with the nested expressions left open. -/
inductive Layer : Level → List Token → Phrase → Prop
  | operand {level : Level} {tokens : List Token} {phrase : Phrase} :
      Operand Nested level tokens phrase → Layer level tokens phrase
  | tighter {level : Level} {tokens : List Token} {phrase : Phrase} :
      Layer level.next tokens phrase → Layer level tokens phrase
  | binary (operator : BinaryOperator) {left right : List Token}
      {leftPhrase rightPhrase : Phrase} :
      Layer operator.level left leftPhrase →
        Nested operator.level.next right rightPhrase →
          Layer operator.level (left ++ .symbol operator.symbol :: right)
            (.binary operator leftPhrase rightPhrase)
  | call {callee items : List Token} {phrase : Phrase} {arguments : List Phrase} :
      Layer .suffixed callee phrase → Items Nested items arguments →
        Layer .suffixed
          (callee ++ .symbol .openParen :: (items ++ [.symbol .closeParen]))
          (.call phrase arguments)
  | index {collection position : List Token} {phrase positionPhrase : Phrase} :
      Layer .suffixed collection phrase →
        Nested .equality position positionPhrase →
          Layer .suffixed
            (collection ++ .symbol .openBracket ::
              (position ++ [.symbol .closeBracket]))
            (.index phrase positionPhrase)

end Layer

/-- Expressions of a level that are nested no deeper than the given number of
levels, the expression itself counted as one. -/
def Derives : (levels : Nat) → Level → List Token → Phrase → Prop
  | 0 => fun _ _ _ => False
  | levels + 1 => Layer (Derives levels)

/-! ## First tokens -/

/-- An expression can begin with the token. -/
def Token.StartsExpr : Token → Prop
  | .integer _ => True
  | .string _ => True
  | .identifier _ => True
  | .keyword word => word = .trueWord ∨ word = .falseWord ∨ word = .ifWord
  | .symbol mark =>
      mark = .bang ∨ mark = .minus ∨ mark = .openParen ∨ mark = .openBracket

theorem Operand.exists_head {Nested : Level → List Token → Phrase → Prop}
    {level : Level} {tokens : List Token} {phrase : Phrase}
    (derived : Operand Nested level tokens phrase) :
    ∃ first rest, tokens = first :: rest ∧ first.StartsExpr := by
  cases derived with
  | integer | string | identifier => exact ⟨_, _, rfl, trivial⟩
  | boolean value =>
      refine ⟨_, _, rfl, ?_⟩
      cases value with
      | true => exact Or.inl rfl
      | false => exact Or.inr (Or.inl rfl)
  | group _ => exact ⟨_, _, rfl, Or.inr (Or.inr (Or.inl rfl))⟩
  | array _ => exact ⟨_, _, rfl, Or.inr (Or.inr (Or.inr rfl))⟩
  | conditional _ _ _ => exact ⟨_, _, rfl, Or.inr (Or.inr rfl)⟩
  | unary operator _ =>
      refine ⟨_, _, rfl, ?_⟩
      cases operator with
      | not => exact Or.inl rfl
      | negate => exact Or.inr (Or.inl rfl)

theorem Layer.exists_head {Nested : Level → List Token → Phrase → Prop}
    {level : Level} {tokens : List Token} {phrase : Phrase}
    (derived : Layer Nested level tokens phrase) :
    ∃ first rest, tokens = first :: rest ∧ first.StartsExpr := by
  induction derived with
  | operand operandDerived => exact operandDerived.exists_head
  | tighter _ inductionHypothesis => exact inductionHypothesis
  | binary operator _ _ inductionHypothesis =>
      obtain ⟨first, rest, rfl, starts⟩ := inductionHypothesis
      exact ⟨first, _, rfl, starts⟩
  | call _ _ inductionHypothesis =>
      obtain ⟨first, rest, rfl, starts⟩ := inductionHypothesis
      exact ⟨first, _, rfl, starts⟩
  | index _ _ inductionHypothesis =>
      obtain ⟨first, rest, rfl, starts⟩ := inductionHypothesis
      exact ⟨first, _, rfl, starts⟩

theorem Derives.exists_head {levels : Nat} {level : Level} {tokens : List Token}
    {phrase : Phrase} (derived : Derives levels level tokens phrase) :
    ∃ first rest, tokens = first :: rest ∧ first.StartsExpr := by
  cases levels with
  | zero => exact derived.elim
  | succ levels => exact Layer.exists_head derived

/-! ## Last tokens -/

/-- There is a last token, which is no semicolon. -/
def EndsPlain (tokens : List Token) : Prop :=
  ∃ front last, tokens = front ++ [last] ∧ last ≠ .symbol .semicolon

theorem EndsPlain.append {tokens : List Token} (plain : EndsPlain tokens)
    (before : List Token) : EndsPlain (before ++ tokens) := by
  obtain ⟨front, last, rfl, different⟩ := plain
  exact ⟨before ++ front, last, (List.append_assoc ..).symm, different⟩

theorem EndsPlain.symbol (before : List Token) {mark : Symbol} (plain : mark ≠ .semicolon) :
    EndsPlain (before ++ [.symbol mark]) :=
  ⟨before, .symbol mark, rfl, fun same => plain (Token.symbol.inj same)⟩

section Layer

variable {Nested : Level → List Token → Phrase → Prop}
  (nestedPlain : ∀ {level : Level} {tokens : List Token} {phrase : Phrase},
    Nested level tokens phrase → EndsPlain tokens)
  {level : Level} {tokens : List Token} {phrase : Phrase}

include nestedPlain

theorem Operand.endsPlain (derived : Operand Nested level tokens phrase) :
    EndsPlain tokens := by
  cases derived with
  | integer | boolean | string | identifier => exact ⟨[], _, rfl, nofun⟩
  | group _ => exact .symbol (_ :: _) nofun
  | array _ => exact .symbol (_ :: _) nofun
  | @conditional condition consequence other _ _ _ _ _ otherDerived =>
      have ending : EndsPlain (.symbol .closeBrace :: other) := by
        cases otherDerived with
        | none => exact .symbol [] nofun
        | some _ => exact .symbol (_ :: _ :: _ :: _) nofun
      have closed := (ending.append consequence).append [.symbol .closeParen, .symbol .openBrace]
      exact (closed.append condition).append [.keyword .ifWord, .symbol .openParen]
  | unary operator operandDerived =>
      exact (nestedPlain operandDerived).append [_]

theorem Layer.endsPlain (derived : Layer Nested level tokens phrase) : EndsPlain tokens := by
  induction derived with
  | operand operandDerived => exact operandDerived.endsPlain nestedPlain
  | tighter _ inductionHypothesis => exact inductionHypothesis
  | binary operator _ rightDerived _ =>
      exact ((nestedPlain rightDerived).append [_]).append _
  | @call callee items _ _ _ _ _ =>
      have closed : EndsPlain (.symbol .openParen :: items ++ [.symbol .closeParen]) :=
        .symbol _ nofun
      exact closed.append callee
  | @index collection position _ _ _ _ _ =>
      have closed : EndsPlain (.symbol .openBracket :: position ++ [.symbol .closeBracket]) :=
        .symbol _ nofun
      exact closed.append collection

end Layer

theorem Derives.endsPlain {levels : Nat} {level : Level} {tokens : List Token}
    {phrase : Phrase} (derived : Derives levels level tokens phrase) : EndsPlain tokens := by
  induction levels generalizing level tokens phrase with
  | zero => exact derived.elim
  | succ levels inductionHypothesis => exact Layer.endsPlain inductionHypothesis derived

end ExprMachine
