import ExprMachine.Proofs.Display.Data
import ExprMachine.Proofs.Json.Literals
import ExprMachine.Proofs.Lexing
import ExprMachine.Proofs.MaximalMunch
import ExprMachine.Proofs.Parsing.Ranks

/-!
# Tokens of displayed data

A display is lexed piece by piece. An item of an array ends where a comma or a closing
bracket follows, with which neither digits nor a keyword can go on. The tokens derive the
tree of the display, with as many levels as it is nested.
-/

namespace ExprMachine

namespace Token

/-! ## Lexing on -/

/-- The text is lexed as the tokens, wherever it begins and whatever was found before. -/
def Reads (text : List Char) (tokens : List Token) : Prop :=
  ∀ offset found, ∃ lexemes, lexFrom offset found text = .ok lexemes ∧
    lexemes.toList.map Lexeme.token = found.toList.map Lexeme.token ++ tokens

/-- What can follow an item of an array. -/
def EndsItem (rest : List Char) : Prop :=
  ∀ c ∈ rest.head?, c = ',' ∨ c = ']'

section Reads

variable {rest : List Char} {tokens : List Token}

theorem Reads.nil : Reads [] [] := by
  intro offset found
  refine ⟨found, ?_, (List.append_nil _).symm⟩
  rw [lexFrom]

theorem Reads.of_cut {first : Char} {text piece : List Char} {token : Token}
    (cutOff : cut first text = ⟨.token token, piece, rest⟩) (reads : Reads rest tokens) :
    Reads (first :: text) (token :: tokens) := by
  intro offset found
  obtain ⟨lexemes, lexed, same⟩ := reads (offset + Text.byteCount piece)
    (found.push ⟨token, ⟨offset, offset + Text.byteCount piece⟩⟩)
  refine ⟨lexemes, ?_, ?_⟩
  · rw [lexFrom, cutOff]
    exact lexed
  · rw [same, Array.toList_push, List.map_append, List.append_assoc]
    rfl

theorem Reads.space (reads : Reads rest tokens) : Reads (' ' :: rest) tokens := by
  intro offset found
  rw [lexFrom_cons_of_isBlank rfl]
  exact reads _ found

/-- A run of characters to which neither commas nor brackets belong ends with an item. -/
theorem EndsItem.stops (ends : EndsItem rest) {p : Char → Bool} (comma : p ',' = false)
    (bracket : p ']' = false) : ∀ c ∈ rest.head?, p c = false := by
  intro c first
  rcases ends c first with rfl | rfl
  · exact comma
  · exact bracket

/-- Decimal digits are lexed as the word that they stand for. -/
theorem Reads.digits {value : Word} (natural : 0 ≤ value.toInt) (ends : EndsItem rest)
    (reads : Reads rest tokens) :
    Reads (Nat.toDigits 10 value.toInt.natAbs ++ rest) (.integer value :: tokens) := by
  have each : ∀ c ∈ Nat.toDigits 10 value.toInt.natAbs, c.isDigit = true :=
    fun _ => Json.isDigit_of_toDigits
  have number : value.toInt = decimal (Nat.toDigits 10 value.toInt.natAbs) := by
    rw [← ofDigitChars_eq_decimal, Nat.ofDigitChars_ten_toDigits,
      Int.natAbs_of_nonneg natural]
  obtain ⟨first, digits, shape, digit⟩ := Json.exists_toDigits_eq_cons value.toInt.natAbs
  rw [shape] at each number ⊢
  obtain ⟨-, others⟩ := List.forall_mem_cons.mp each
  obtain ⟨taken, dropped⟩ := Json.run_append others (ends.stops rfl rfl)
  have cutOff : cut first (digits ++ rest) =
      ⟨.token (.integer value), first :: digits, rest⟩ := by
    rw [cut_of_isDigit _ digit, taken, dropped, readInteger_eq number]
  exact reads.of_cut cutOff

theorem Reads.boolean (value : Bool) (ends : EndsItem rest) (reads : Reads rest tokens) :
    Reads ((Keyword.ofBool value).spelling.toList ++ rest)
      (.keyword (.ofBool value) :: tokens) := by
  have known : readName (Keyword.ofBool value).spelling.toList =
      .token (.keyword (.ofBool value)) := by
    cases value <;> rfl
  obtain ⟨first, text, shape, begins, each⟩ := keyword_isName (.ofBool value)
  rw [shape] at known ⊢
  obtain ⟨taken, dropped⟩ := Json.run_append each (ends.stops rfl rfl)
  have cutOff : cut first (text ++ rest) =
      ⟨.token (.keyword (.ofBool value)), first :: text, rest⟩ := by
    rw [cut_of_isNameStart _ begins, taken, dropped, known]
  exact reads.of_cut cutOff

end Reads

end Token

namespace Value

open Token

/-! ## Tokens -/

mutual

/-- The tokens that data are displayed as. Other values count as empty here. -/
def tokens : Value → List Token
  | integer value =>
      if value.toInt < 0 then [.symbol .minus, .integer (-value)] else [.integer value]
  | boolean value => [.keyword (.ofBool value)]
  | array _ items =>
      .symbol .openBracket :: (tokensOfAll items ++ [.symbol .closeBracket])
  | _ => []

def tokensOfAll : List Value → List Token
  | [] => []
  | first :: items => first.tokens ++ tokensOfMore items

/-- The tokens of further items, each after a comma. -/
def tokensOfMore : List Value → List Token
  | [] => []
  | item :: items => .symbol .comma :: (item.tokens ++ tokensOfMore items)

end

/-- The text of the value is lexed as its tokens, if what follows it can follow an
item. -/
def LexesAsTokens (value : Value) : Prop :=
  ∀ {rest : List Char} {more : List Token}, EndsItem rest → Reads rest more →
    Reads (value.text.toList ++ rest) (value.tokens ++ more)

theorem toList_text_array_nil (cell : Cell) : (array cell []).text.toList = ['[', ']'] := by
  rw [text, append, String.empty_append]
  rfl

theorem toList_text_array_cons (cell : Cell) (first : Value) (items : List Value) :
    (array cell (first :: items)).text.toList =
      '[' :: (first.text.toList ++ ((appendItems items "").toList ++ [']'])) := by
  rw [text, append, append_eq, appendItems_eq, String.empty_append]
  simp

theorem toList_appendItems_cons (item : Value) (items : List Value) :
    (appendItems (item :: items) "").toList =
      ',' :: ' ' :: (item.text.toList ++ (appendItems items "").toList) := by
  rw [appendItems, append_eq, appendItems_eq, String.empty_append]
  simp

theorem lexesAsTokens_integer {value : Word} (large : Int64.minValue < value) :
    (integer value).LexesAsTokens := by
  intro rest more ends reads
  have written : (integer value).text = toString value.toInt := by
    rw [text, append, String.empty_append, Word.text]
  rw [written, Json.toList_toString, tokens]
  split
  · next negative =>
      have opposite := Word.toInt_neg large
      have natural : 0 ≤ (-value).toInt := by omega
      have digits := Reads.digits natural ends reads
      rw [opposite, Int.natAbs_neg] at digits
      exact digits.of_cut rfl
  · next natural => exact reads.digits (Int.not_lt.mp natural) ends

theorem endsItem_appendItems (items : List Value) (rest : List Char) :
    EndsItem ((appendItems items "").toList ++ ']' :: rest) := by
  cases items with
  | nil =>
      rintro c ⟨⟩
      exact Or.inr rfl
  | cons item items =>
      rw [toList_appendItems_cons]
      rintro c ⟨⟩
      exact Or.inl rfl

/-- Further items of an array are lexed up to its end. -/
theorem reads_appendItems {items : List Value} (each : ∀ item ∈ items, item.LexesAsTokens)
    {rest : List Char} {more : List Token} (reads : Reads rest more) :
    Reads ((appendItems items "").toList ++ ']' :: rest)
      (tokensOfMore items ++ .symbol .closeBracket :: more) := by
  induction items with
  | nil => exact reads.of_cut rfl
  | cons item items inductionHypothesis =>
      obtain ⟨first, others⟩ := List.forall_mem_cons.mp each
      have after := first (endsItem_appendItems items rest) (inductionHypothesis others)
      have whole : Reads (',' :: ' ' :: _) (.symbol .comma :: _) := after.space.of_cut rfl
      rw [toList_appendItems_cons, tokensOfMore]
      simpa only [List.cons_append, List.append_assoc] using whole

theorem lexesAsTokens_array (cell : Cell) {items : List Value}
    (each : ∀ item ∈ items, item.LexesAsTokens) : (array cell items).LexesAsTokens := by
  intro rest more _ reads
  cases items with
  | nil =>
      have closed : Reads (']' :: rest) (.symbol .closeBracket :: more) := reads.of_cut rfl
      rw [toList_text_array_nil]
      exact closed.of_cut rfl
  | cons first items =>
      obtain ⟨firstLexes, others⟩ := List.forall_mem_cons.mp each
      have after :=
        firstLexes (endsItem_appendItems items rest) (reads_appendItems others reads)
      have whole : Reads ('[' :: _) (.symbol .openBracket :: _) := after.of_cut rfl
      rw [toList_text_array_cons, tokens, tokensOfAll]
      simpa only [List.cons_append, List.append_assoc, List.nil_append] using whole

theorem IsData.lexesAsTokens {value : Value} (data : value.IsData) :
    value.LexesAsTokens := by
  induction data with
  | integer large => exact lexesAsTokens_integer large
  | boolean value =>
      intro rest more ends reads
      have written : (Value.boolean value).text = (Keyword.ofBool value).spelling := by
        cases value <;> rfl
      rw [written]
      exact reads.boolean value ends
  | array cell _ _ inductionHypothesis =>
      exact lexesAsTokens_array cell inductionHypothesis

/-- The display of data is lexed as their tokens. -/
theorem IsData.exists_lex {value : Value} (data : value.IsData) :
    ∃ lexemes, lex value.text = .ok lexemes ∧
      lexemes.map Lexeme.token = value.tokens := by
  have ends : EndsItem [] := fun _ impossible => nomatch impossible
  obtain ⟨lexemes, lexed, same⟩ := data.lexesAsTokens ends Reads.nil 0 #[]
  rw [List.append_nil] at lexed same
  refine ⟨lexemes.toList, ?_, same⟩
  rw [lex, lexed]
  rfl

/-! ## Derivations -/

theorem exists_of_nesting_le {value : Value} {levels : Nat}
    (shallow : value.nesting ≤ levels) : ∃ fewer, levels = fewer + 1 := by
  have positive : 0 < value.nesting := by
    cases value with
    | integer value =>
        rw [nesting]
        split <;> decide
    | array cell items => exact Nat.le_add_right ..
    | _ => exact Nat.one_pos
  exact Nat.exists_eq_succ_of_ne_zero (by omega)

theorem moreItems {Nested : Level → List Token → Phrase → Prop} {items : List Value}
    (each : ∀ item ∈ items, Nested .equality item.tokens item.phrase) :
    MoreItems Nested (tokensOfMore items) (phrases items) := by
  induction items with
  | nil => exact .nil
  | cons item items inductionHypothesis =>
      obtain ⟨first, others⟩ := List.forall_mem_cons.mp each
      exact .cons first (inductionHypothesis others)

theorem listItems {Nested : Level → List Token → Phrase → Prop} {items : List Value}
    (each : ∀ item ∈ items, Nested .equality item.tokens item.phrase) :
    Items Nested (tokensOfAll items) (phrases items) := by
  cases items with
  | nil => exact .nil
  | cons first items =>
      obtain ⟨firstDerived, others⟩ := List.forall_mem_cons.mp each
      exact .cons firstDerived (moreItems others)

theorem derives_integer (value : Word) (levels : Nat) (level : Level) :
    Derives (levels + 1) level [.integer value] (.integer value) := by
  have atom : Layer (Derives levels) .atom [.integer value] (.integer value) :=
    .operand (.integer value)
  exact atom.loosen (by cases level <;> decide)

/-- The tokens derive the tree of the display, with no more levels than it is nested. -/
theorem IsData.derives {value : Value} (data : value.IsData) {levels : Nat}
    (shallow : value.nesting ≤ levels) :
    Derives levels .equality value.tokens value.phrase := by
  induction data generalizing levels with
  | @integer value _ =>
      obtain ⟨levels, rfl⟩ := exists_of_nesting_le shallow
      by_cases negative : value.toInt < 0
      · rw [nesting, if_pos negative] at shallow
        -- The magnitude is an operand, which takes a level of its own.
        obtain ⟨levels, rfl⟩ := Nat.exists_eq_succ_of_ne_zero (n := levels) (by omega)
        have operand : Layer (Derives (levels + 1)) .unary
            (.symbol UnaryOperator.negate.symbol :: [.integer (-value)])
            (.unary .negate (.integer (-value))) :=
          .operand (.unary .negate (derives_integer (-value) levels .unary))
        rw [tokens, phrase, if_pos negative, if_pos negative]
        exact operand.loosen (by decide)
      · rw [tokens, phrase, if_neg negative, if_neg negative]
        exact derives_integer value levels .equality
  | boolean value =>
      obtain ⟨levels, rfl⟩ := exists_of_nesting_le shallow
      have atom : Layer (Derives levels) .atom [.keyword (.ofBool value)] (.boolean value) :=
        .operand (.boolean value)
      exact atom.loosen (by decide)
  | @array cell items _ _ inductionHypothesis =>
      obtain ⟨levels, rfl⟩ := exists_of_nesting_le shallow
      rw [nesting, Nat.add_comm] at shallow
      have inside := Nat.le_of_succ_le_succ shallow
      -- The items stand one level deeper, which leaves one level less for them.
      have each : ∀ item ∈ items, Derives levels .equality item.tokens item.phrase :=
        fun item member =>
          inductionHypothesis item member (Nat.le_trans (nesting_le_deepest member) inside)
      have atom : Layer (Derives levels) .atom (Value.array cell items).tokens
          (Value.array cell items).phrase :=
        .operand (.array (listItems each))
      exact atom.loosen (by decide)

end Value

end ExprMachine
