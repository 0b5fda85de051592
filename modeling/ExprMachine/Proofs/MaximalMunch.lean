import ExprMachine.Token.Lexing
import ExprMachine.Proofs.Sequencing
import Mathlib

/-!
# The longest lexeme each time

Which texts are lexemes is said here without a lexer: a run of blanks, a comment, a
symbol, a keyword, an identifier, a string or a run of digits. A source text is cut from
left to right, each time taking the longest lexeme that it begins with. Lexing succeeds
exactly when the whole text can be cut in this way, and otherwise ends where it cannot.
-/

namespace ExprMachine

theorem Keyword.spelling_of_ofSpelling? {name : String} {word : Keyword}
    (found : ofSpelling? name = some word) : word.spelling = name := by
  simpa using List.find?_some found

theorem Keyword.mem_all (word : Keyword) : word ∈ all := by
  cases word <;> decide

namespace Token

/-! ## Lexemes -/

/-- The number that decimal digits stand for, where each counts for its place. -/
def decimal : List Char → Nat
  | [] => 0
  | digit :: digits => (digit.toNat - '0'.toNat) * 10 ^ digits.length + decimal digits

/-- The texts that can be cut off in one piece, and what they are. Digits whose value is
no word are a piece too, though not a lexeme. -/
inductive Forms : List Char → Reading → Prop
  | blanks {text : List Char} :
      text ≠ [] → (∀ c ∈ text, isBlank c = true) → Forms text .layout
  | comment {text : List Char} :
      (∀ c ∈ text, c ≠ '\n') → Forms ('/' :: '/' :: text) .layout
  | symbol (mark : Symbol) : Forms mark.spelling.toList (.token (.symbol mark))
  | keyword (word : Keyword) : Forms word.spelling.toList (.token (.keyword word))
  | identifier {first : Char} {text : List Char} :
      isNameStart first = true → (∀ c ∈ text, isNamePart c = true) →
        (∀ word : Keyword, word.spelling ≠ String.ofList (first :: text)) →
          Forms (first :: text) (.token (.identifier (String.ofList (first :: text))))
  | string {content : List Char} :
      (∀ c ∈ content, c ≠ '"') →
        Forms ('"' :: (content ++ ['"'])) (.token (.string (String.ofList content)))
  | integer {digits : List Char} {value : Word} :
      digits ≠ [] → (∀ c ∈ digits, c.isDigit = true) → value.toInt = decimal digits →
        Forms digits (.token (.integer value))
  | tooLarge {digits : List Char} :
      digits ≠ [] → (∀ c ∈ digits, c.isDigit = true) →
        Int64.maxValue.toInt < decimal digits → Forms digits (.stuck .integerTooLarge)

/-- The longest piece that a text begins with. -/
structure Longest (text piece : List Char) (reading : Reading) : Prop where
  forms : Forms piece reading
  initial : piece <+: text
  longest : ∀ other otherReading, other <+: text → Forms other otherReading →
    other.length ≤ piece.length

/-! ## Numbers and names -/

theorem ofDigitChars_eq_decimal (digits : List Char) :
    Nat.ofDigitChars 10 digits 0 = decimal digits := by
  induction digits with
  | nil => rfl
  | cons digit digits inductionHypothesis =>
      rw [Nat.ofDigitChars_cons, Nat.ofDigitChars_eq_ofDigitChars_zero,
        inductionHypothesis, decimal, Nat.mul_zero, Nat.zero_add, Nat.mul_comm]

theorem forms_readInteger {digits : List Char} (nonempty : digits ≠ [])
    (each : ∀ c ∈ digits, c.isDigit = true) : Forms digits (readInteger digits) := by
  rw [readInteger, ofDigitChars_eq_decimal]
  cases found : Word.ofInt? (decimal digits) with
  | some value => exact .integer nonempty each (Word.toInt_of_ofInt? found)
  | none =>
      refine .tooLarge nonempty each ?_
      unfold Word.ofInt? at found
      split at found
      · cases found
      · next outside =>
          have low : Int64.minValue.toInt ≤ decimal digits :=
            Int.le_trans (by decide) (Int.natCast_nonneg _)
          exact Int.not_le.mp fun high => outside ⟨low, high⟩

theorem forms_readName {first : Char} {text : List Char}
    (start : isNameStart first = true) (each : ∀ c ∈ text, isNamePart c = true) :
    Forms (first :: text) (readName (first :: text)) := by
  unfold readName
  split
  · next word found =>
      have spelling := Keyword.spelling_of_ofSpelling? found
      have form := Forms.keyword word
      rwa [spelling, String.toList_ofList] at form
  · next missing =>
      refine .identifier start each fun word same => ?_
      exact List.find?_eq_none.mp missing word word.mem_all (decide_eq_true same)

/-! ## Runs of characters -/

theorem length_le_takeWhile {p : Char → Bool} {front text : List Char}
    (each : ∀ c ∈ front, p c = true) (initial : front <+: text) :
    front.length ≤ (text.takeWhile p).length := by
  obtain ⟨rest, rfl⟩ := initial
  rw [List.takeWhile_append_of_pos each, List.length_append]
  exact Nat.le_add_right ..

theorem forall_mem_cons_takeWhile {p : Char → Bool} {first : Char}
    (start : p first = true) (text : List Char) :
    ∀ c ∈ first :: text.takeWhile p, p c = true :=
  List.forall_mem_cons.mpr ⟨start, fun _ => List.mem_takeWhile_imp⟩

/-! ## One cut -/

section Classes

variable {first : Char} (text : List Char)

theorem isBlank_eq_false_of_isDigit (digit : first.isDigit = true) :
    isBlank first = false := by
  rw [Bool.eq_false_iff]
  intro blank
  simp only [isBlank, Bool.or_eq_true, decide_eq_true_eq] at blank
  rcases blank with ((rfl | rfl) | rfl) | rfl <;> revert digit <;> decide

theorem isBlank_eq_false_of_isNameStart (start : isNameStart first = true) :
    isBlank first = false := by
  rw [Bool.eq_false_iff]
  intro blank
  simp only [isBlank, Bool.or_eq_true, decide_eq_true_eq] at blank
  rcases blank with ((rfl | rfl) | rfl) | rfl <;> revert start <;> decide

theorem isBlank_eq_false_of_isNamePart (part : isNamePart first = true) :
    isBlank first = false := by
  rw [Bool.eq_false_iff]
  intro blank
  simp only [isBlank, Bool.or_eq_true, decide_eq_true_eq] at blank
  rcases blank with ((rfl | rfl) | rfl) | rfl <;> revert part <;> decide

theorem isDigit_eq_false_of_isNameStart (start : isNameStart first = true) :
    first.isDigit = false := by
  simp only [isNameStart, Char.isAlpha, Char.isUpper, Char.isLower, Bool.or_eq_true,
    Bool.and_eq_true, decide_eq_true_eq, UInt32.le_iff_toNat_le, ge_iff_le] at start
  rw [Bool.eq_false_iff]
  intro digit
  simp only [Char.isDigit, Bool.and_eq_true, decide_eq_true_eq, UInt32.le_iff_toNat_le,
    ge_iff_le] at digit
  rcases start with letter | rfl
  · simp at letter digit
    omega
  · revert digit
    decide

theorem cut_of_isBlank (blank : isBlank first = true) :
    cut first text =
      ⟨.layout, first :: text.takeWhile isBlank, text.dropWhile isBlank⟩ := by
  rw [cut, if_pos blank]

theorem cut_of_isDigit (digit : first.isDigit = true) :
    cut first text = ⟨readInteger (first :: text.takeWhile Char.isDigit),
      first :: text.takeWhile Char.isDigit, text.dropWhile Char.isDigit⟩ := by
  rw [cut, isBlank_eq_false_of_isDigit digit, if_neg Bool.false_ne_true, if_pos digit]

theorem cut_of_isNameStart (start : isNameStart first = true) :
    cut first text = ⟨readName (first :: text.takeWhile isNamePart),
      first :: text.takeWhile isNamePart, text.dropWhile isNamePart⟩ := by
  rw [cut, isBlank_eq_false_of_isNameStart start, if_neg Bool.false_ne_true,
    isDigit_eq_false_of_isNameStart start, if_neg Bool.false_ne_true, if_pos start]

theorem spelling_of_symbolOfChar? {mark : Symbol}
    (found : symbolOfChar? first = some mark) :
    mark.spelling.toList = [first] := by
  unfold symbolOfChar? at found
  split at found <;> cases found <;> rfl

theorem cut_of_symbolOfChar? {mark : Symbol} (found : symbolOfChar? first = some mark) :
    cut first text = cutSymbol first text := by
  unfold symbolOfChar? at found
  split at found <;> cases found <;> rfl

theorem forms_cutSymbol {mark : Symbol} (found : symbolOfChar? first = some mark) :
    Forms (cutSymbol first text).piece (cutSymbol first text).reading := by
  unfold cutSymbol
  split
  · next rest =>
      refine .comment fun c inside => ?_
      simpa [Text.isInLine] using List.mem_takeWhile_imp inside
  · exact .symbol .equal
  · exact .symbol .notEqual
  · rw [found]
    have form := Forms.symbol mark
    rwa [spelling_of_symbolOfChar? found] at form

/-- A quote begins a string that goes on to the next one. -/
theorem cutString_of_closed {content rest : List Char} (inside : ∀ c ∈ content, c ≠ '"') :
    cutString (content ++ '"' :: rest) = ⟨.token (.string (String.ofList content)),
      '"' :: (content ++ ['"']), rest⟩ := by
  have each : ∀ c ∈ content, isInString c = true := fun c member =>
    decide_eq_true (inside c member)
  rw [cutString, List.dropWhile_append_of_pos each, List.takeWhile_append_of_pos each]
  simp [isInString]

end Classes

theorem forms_cut_of_isBlank {first : Char} (blank : isBlank first = true)
    (text : List Char) : Forms (cut first text).piece (cut first text).reading := by
  rw [cut_of_isBlank text blank]
  exact .blanks (List.cons_ne_nil _ _) (forall_mem_cons_takeWhile blank text)

theorem forms_cut_of_isDigit {first : Char} (digit : first.isDigit = true)
    (text : List Char) : Forms (cut first text).piece (cut first text).reading := by
  rw [cut_of_isDigit text digit]
  exact forms_readInteger (List.cons_ne_nil _ _) (forall_mem_cons_takeWhile digit text)

theorem forms_cut_of_isNameStart {first : Char} (start : isNameStart first = true)
    (text : List Char) : Forms (cut first text).piece (cut first text).reading := by
  rw [cut_of_isNameStart text start]
  exact forms_readName start fun _ => List.mem_takeWhile_imp

theorem forms_cut_of_symbolOfChar? {first : Char} {mark : Symbol}
    (found : symbolOfChar? first = some mark) (text : List Char) :
    Forms (cut first text).piece (cut first text).reading := by
  rw [cut_of_symbolOfChar? text found]
  exact forms_cutSymbol text found

/-- Keywords are names. -/
theorem keyword_isName (word : Keyword) : ∃ first text,
    word.spelling.toList = first :: text ∧ isNameStart first = true ∧
      ∀ c ∈ text, isNamePart c = true := by
  cases word <;> exact ⟨_, _, rfl, rfl, List.all_eq_true.mp rfl⟩

/-- Most symbols are one character. -/
theorem spelling_cases (mark : Symbol) :
    (∃ first, mark.spelling.toList = [first] ∧ symbolOfChar? first = some mark) ∨
      mark = .equal ∨ mark = .notEqual := by
  cases mark with
  | equal => exact Or.inr (Or.inl rfl)
  | notEqual => exact Or.inr (Or.inr rfl)
  | _ => exact Or.inl ⟨_, rfl, rfl⟩

/-- The piece that is cut off is one that can be, and no shorter than the given one. -/
def Reaches (piece : List Char) (cut : Cut) : Prop :=
  Forms cut.piece cut.reading ∧ piece.length ≤ cut.piece.length

section Longest

variable {first : Char} {piece text : List Char}

theorem reaches_of_blanks (nonempty : piece ≠ []) (each : ∀ c ∈ piece, isBlank c = true)
    (initial : piece <+: first :: text) : Reaches piece (cut first text) := by
  obtain rfl | ⟨more, rfl, moreInitial⟩ := List.prefix_cons_iff.mp initial
  · exact absurd rfl nonempty
  · obtain ⟨blank, moreEach⟩ := List.forall_mem_cons.mp each
    refine ⟨forms_cut_of_isBlank blank text, ?_⟩
    rw [cut_of_isBlank text blank]
    exact Nat.succ_le_succ (length_le_takeWhile moreEach moreInitial)

theorem reaches_of_digits (nonempty : piece ≠ []) (each : ∀ c ∈ piece, c.isDigit = true)
    (initial : piece <+: first :: text) : Reaches piece (cut first text) := by
  obtain rfl | ⟨more, rfl, moreInitial⟩ := List.prefix_cons_iff.mp initial
  · exact absurd rfl nonempty
  · obtain ⟨digit, moreEach⟩ := List.forall_mem_cons.mp each
    refine ⟨forms_cut_of_isDigit digit text, ?_⟩
    rw [cut_of_isDigit text digit]
    exact Nat.succ_le_succ (length_le_takeWhile moreEach moreInitial)

theorem reaches_of_name {start : Char} {more : List Char}
    (begins : isNameStart start = true) (each : ∀ c ∈ more, isNamePart c = true)
    (initial : start :: more <+: first :: text) :
    Reaches (start :: more) (cut first text) := by
  obtain ⟨rfl, moreInitial⟩ := List.cons_prefix_cons.mp initial
  refine ⟨forms_cut_of_isNameStart begins text, ?_⟩
  rw [cut_of_isNameStart text begins]
  exact Nat.succ_le_succ (length_le_takeWhile each moreInitial)

theorem reaches_of_comment {more : List Char} (inside : ∀ c ∈ more, c ≠ '\n')
    (initial : '/' :: '/' :: more <+: first :: text) :
    Reaches ('/' :: '/' :: more) (cut first text) := by
  obtain ⟨rfl, secondInitial⟩ := List.cons_prefix_cons.mp initial
  have each : ∀ c ∈ '/' :: more, Text.isInLine c = true :=
    List.forall_mem_cons.mpr ⟨rfl, fun c member => decide_eq_true (inside c member)⟩
  refine ⟨forms_cut_of_symbolOfChar? rfl text, ?_⟩
  obtain ⟨rest, rfl⟩ := secondInitial
  exact Nat.succ_le_succ (length_le_takeWhile each (List.prefix_append _ rest))

theorem reaches_of_string {content : List Char} (inside : ∀ c ∈ content, c ≠ '"')
    (initial : '"' :: (content ++ ['"']) <+: first :: text) :
    Reaches ('"' :: (content ++ ['"'])) (cut first text) := by
  obtain ⟨rfl, rest, rfl⟩ := List.cons_prefix_cons.mp initial
  have whole : cut '"' (content ++ ['"'] ++ rest) =
      ⟨.token (.string (String.ofList content)), '"' :: (content ++ ['"']), rest⟩ := by
    rw [List.append_assoc]
    exact cutString_of_closed inside
  rw [whole]
  exact ⟨.string inside, Nat.le_refl _⟩

theorem reaches_of_symbol {mark : Symbol}
    (initial : mark.spelling.toList <+: first :: text) :
    Reaches mark.spelling.toList (cut first text) := by
  obtain ⟨only, spelling, found⟩ | rfl | rfl := spelling_cases mark
  · rw [spelling] at initial ⊢
    obtain ⟨rfl, _⟩ := List.cons_prefix_cons.mp initial
    refine ⟨forms_cut_of_symbolOfChar? found text, ?_⟩
    exact List.length_pos_iff.mpr (cut_piece_ne_nil only text)
  · obtain ⟨rest, shape⟩ := initial
    cases shape
    exact ⟨.symbol .equal, Nat.le_refl _⟩
  · obtain ⟨rest, shape⟩ := initial
    cases shape
    exact ⟨.symbol .notEqual, Nat.le_refl _⟩

/-- A piece that a text begins with is cut off, or a longer one. -/
theorem Forms.reaches {reading : Reading} (forms : Forms piece reading)
    (initial : piece <+: first :: text) : Reaches piece (cut first text) := by
  cases forms with
  | blanks nonempty each => exact reaches_of_blanks nonempty each initial
  | comment inside => exact reaches_of_comment inside initial
  | symbol mark => exact reaches_of_symbol initial
  | keyword word =>
      obtain ⟨start, more, spelling, begins, each⟩ := keyword_isName word
      rw [spelling] at initial ⊢
      exact reaches_of_name begins each initial
  | identifier begins each _ => exact reaches_of_name begins each initial
  | string inside => exact reaches_of_string inside initial
  | integer nonempty each _ => exact reaches_of_digits nonempty each initial
  | tooLarge nonempty each _ => exact reaches_of_digits nonempty each initial

end Longest

/-! ## What a piece is -/

theorem readInteger_eq {digits : List Char} {value : Word}
    (same : value.toInt = decimal digits) :
    readInteger digits = .token (.integer value) := by
  have found : Word.ofInt? (decimal digits) = some value := by
    rw [← same, Word.ofInt?, if_pos ⟨value.minValue_le_toInt, value.toInt_le⟩,
      Int64.ofInt_toInt]
  rw [readInteger, ofDigitChars_eq_decimal, found]

theorem readInteger_eq_stuck {digits : List Char}
    (large : Int64.maxValue.toInt < decimal digits) :
    readInteger digits = .stuck .integerTooLarge := by
  have missing : Word.ofInt? (decimal digits) = none := by
    rw [Word.ofInt?, if_neg fun bounds => Int.not_le.mpr large bounds.2]
  rw [readInteger, ofDigitChars_eq_decimal, missing]

theorem readName_eq {name : List Char}
    (differs : ∀ word : Keyword, word.spelling ≠ String.ofList name) :
    readName name = .token (.identifier (String.ofList name)) := by
  have missing : Keyword.ofSpelling? (String.ofList name) = none := by
    rw [Keyword.ofSpelling?, List.find?_eq_none]
    exact fun word _ => by simpa using differs word
  rw [readName, missing]

/-- A piece that stands alone is cut off as what it is. -/
theorem Forms.reading_cut {first : Char} {text : List Char} {reading : Reading}
    (forms : Forms (first :: text) reading) : (cut first text).reading = reading := by
  generalize shape : first :: text = piece at forms
  cases forms with
  | blanks _ each =>
      subst shape
      rw [cut_of_isBlank text (each first List.mem_cons_self)]
  | comment _ =>
      cases shape
      rfl
  | symbol mark => cases mark <;> cases shape <;> rfl
  | keyword word => cases word <;> cases shape <;> rfl
  | identifier begins each differs =>
      cases shape
      rw [cut_of_isNameStart text begins, List.takeWhile_eq_self_iff.mpr each]
      exact readName_eq differs
  | string inside =>
      cases shape
      exact congrArg Cut.reading (cutString_of_closed inside)
  | integer _ each same =>
      subst shape
      obtain ⟨digit, moreEach⟩ := List.forall_mem_cons.mp each
      rw [cut_of_isDigit text digit, List.takeWhile_eq_self_iff.mpr moreEach]
      exact readInteger_eq same
  | tooLarge _ each large =>
      subst shape
      obtain ⟨digit, moreEach⟩ := List.forall_mem_cons.mp each
      rw [cut_of_isDigit text digit, List.takeWhile_eq_self_iff.mpr moreEach]
      exact readInteger_eq_stuck large

theorem Forms.ne_nil {piece : List Char} {reading : Reading}
    (forms : Forms piece reading) : piece ≠ [] := by
  cases forms with
  | blanks nonempty _ => exact nonempty
  | symbol mark => cases mark <;> exact List.cons_ne_nil _ _
  | keyword word => cases word <;> exact List.cons_ne_nil _ _
  | integer nonempty _ _ => exact nonempty
  | tooLarge nonempty _ _ => exact nonempty
  | _ => exact List.cons_ne_nil _ _

/-- A piece is one thing only. -/
theorem Forms.unique {piece : List Char} {reading other : Reading}
    (forms : Forms piece reading) (otherForms : Forms piece other) : other = reading := by
  obtain ⟨first, text, rfl⟩ := List.exists_cons_of_ne_nil forms.ne_nil
  exact otherForms.reading_cut.symm.trans forms.reading_cut

/-- A text begins with one longest piece only. -/
theorem Longest.unique {text piece other : List Char} {reading otherReading : Reading}
    (longest : Longest text piece reading)
    (otherLongest : Longest text other otherReading) :
    other = piece ∧ otherReading = reading := by
  have length : other.length = piece.length :=
    Nat.le_antisymm (longest.longest _ _ otherLongest.initial otherLongest.forms)
      (otherLongest.longest _ _ longest.initial longest.forms)
  have same : other = piece :=
    (List.prefix_of_prefix_length_le otherLongest.initial longest.initial
      (Nat.le_of_eq length)).eq_of_length length
  subst same
  exact ⟨rfl, longest.forms.unique otherLongest.forms⟩

/-! ## Where lexing ends -/

/-- No piece can be cut off. -/
def Blocked (text : List Char) : Prop :=
  ∀ piece reading, piece <+: text → ¬ Forms piece reading

/-- A text from which no lexeme can be cut off, the part of it that an error shows, and
why. A string that is not closed takes up the rest of the text. -/
inductive Stuck : List Char → List Char → LexError.Cause → Prop
  | integerTooLarge {text digits : List Char} :
      Longest text digits (.stuck .integerTooLarge) → Stuck text digits .integerTooLarge
  | unclosedString {text : List Char} :
      Blocked ('"' :: text) → (∀ c ∈ text, c ≠ '"') →
        Stuck ('"' :: text) ('"' :: text) .unclosedString
  | booleanOperator {first : Char} {text : List Char} :
      Blocked (first :: text) → first = '&' ∨ first = '|' →
        Stuck (first :: text) [first] .booleanOperator
  | unexpectedCharacter {first : Char} {text : List Char} :
      Blocked (first :: text) → first ≠ '"' → first ≠ '&' → first ≠ '|' →
        Stuck (first :: text) [first] .unexpectedCharacter

/-- The text at which lexing ends, unless some piece could be cut off from it. -/
def Stops (text : List Char) (cut : Cut) : Prop :=
  ∃ cause, cut.reading = .stuck cause ∧ cause ≠ .integerTooLarge ∧
    (Blocked text → Stuck text cut.piece cause)

theorem cutString_cases (text : List Char) :
    Forms (cutString text).piece (cutString text).reading ∨
      Stops ('"' :: text) (cutString text) := by
  have whole := List.takeWhile_append_dropWhile (p := isInString) (l := text)
  have inside : ∀ c ∈ text.takeWhile isInString, c ≠ '"' := by
    intro c member
    have within : isInString c = true := List.mem_takeWhile_imp member
    exact of_decide_eq_true within
  cases after : text.dropWhile isInString with
  | nil =>
      rw [after, List.append_nil] at whole
      rw [whole] at inside
      rw [cutString, after]
      exact Or.inr ⟨_, rfl, nofun, fun blocked => .unclosedString blocked inside⟩
  | cons quote rest =>
      have ends := List.head?_dropWhile_not isInString text
      rw [after] at ends
      have same : quote = '"' := by simpa [isInString] using ends
      rw [after, same] at whole
      rw [← whole, cutString_of_closed inside]
      exact Or.inl (.string inside)

theorem cutSymbol_of_none {first : Char} (missing : symbolOfChar? first = none)
    (text : List Char) : cutSymbol first text =
      if first = '&' ∨ first = '|' then ⟨.stuck .booleanOperator, [first], text⟩
      else ⟨.stuck .unexpectedCharacter, [first], text⟩ := by
  unfold cutSymbol
  split
  · cases missing
  · cases missing
  · cases missing
  · rw [missing]

theorem cut_cases (first : Char) (text : List Char) :
    Forms (cut first text).piece (cut first text).reading ∨
      Stops (first :: text) (cut first text) := by
  cases blank : isBlank first with
  | true => exact Or.inl (forms_cut_of_isBlank blank text)
  | false => ?_
  cases digit : first.isDigit with
  | true => exact Or.inl (forms_cut_of_isDigit digit text)
  | false => ?_
  cases start : isNameStart first with
  | true => exact Or.inl (forms_cut_of_isNameStart start text)
  | false => ?_
  by_cases quote : first = '"'
  · rw [quote]
    exact cutString_cases text
  cases found : symbolOfChar? first with
  | some mark => exact Or.inl (forms_cut_of_symbolOfChar? found text)
  | none =>
      right
      have only : cut first text = cutSymbol first text := by
        rw [cut, blank, digit, start, if_neg quote]
        rfl
      rw [only, cutSymbol_of_none found]
      split
      · next operator =>
          exact ⟨_, rfl, nofun, fun blocked => .booleanOperator blocked operator⟩
      · next neither =>
          obtain ⟨noAnd, noOr⟩ := not_or.mp neither
          exact ⟨_, rfl, nofun,
            fun blocked => .unexpectedCharacter blocked quote noAnd noOr⟩

/-- A longest piece is cut off. -/
theorem longest_cut {first : Char} {text : List Char}
    (forms : Forms (cut first text).piece (cut first text).reading) :
    Longest (first :: text) (cut first text).piece (cut first text).reading where
  forms := forms
  initial := ⟨_, cut_whole first text⟩
  longest _ _ initial otherForms := (otherForms.reaches initial).2

theorem Forms.eq_integerTooLarge {piece : List Char} {cause : LexError.Cause}
    (forms : Forms piece (.stuck cause)) : cause = .integerTooLarge := by
  cases forms
  rfl

/-- Where nothing is cut off, nothing can be. -/
theorem stuck_cut {first : Char} {text : List Char} {cause : LexError.Cause}
    (reading : (cut first text).reading = .stuck cause) :
    Stuck (first :: text) (cut first text).piece cause := by
  obtain forms | ⟨other, otherReading, noInteger, stops⟩ := cut_cases first text
  · have longest := longest_cut forms
    rw [reading] at longest
    obtain rfl := longest.forms.eq_integerTooLarge
    exact .integerTooLarge longest
  · obtain rfl : other = cause := Reading.stuck.inj (otherReading.symm.trans reading)
    refine stops fun piece pieceReading initial forms => noInteger ?_
    have reached := (forms.reaches initial).1
    rw [reading] at reached
    exact reached.eq_integerTooLarge

/-- What is cut off is the longest piece. -/
theorem longest_of_reading {first : Char} {text : List Char} {reading : Reading}
    (same : (cut first text).reading = reading) (fine : ∀ cause, reading ≠ .stuck cause) :
    Longest (first :: text) (cut first text).piece reading := by
  obtain forms | ⟨cause, stuck, _⟩ := cut_cases first text
  · rw [← same]
    exact longest_cut forms
  · exact absurd (same.symm.trans stuck) (fine cause)

/-! ## The whole text -/

/-- A piece of a text and what it is. -/
structure Piece where
  text : List Char
  reading : Reading

/-- The text is cut from left to right, each time taking the longest piece, which is a
lexeme. The rest of the text is left. -/
inductive Cuts : List Char → List Piece → List Char → Prop
  | nil (text : List Char) : Cuts text [] text
  | cons {piece rest last : List Char} {reading : Reading} {pieces : List Piece} :
      Longest (piece ++ rest) piece reading → (∀ cause, reading ≠ .stuck cause) →
        Cuts rest pieces last → Cuts (piece ++ rest) (⟨piece, reading⟩ :: pieces) last

/-- The tokens among pieces, the first of which begins at the given byte offset. -/
def Piece.lexemes (offset : Nat) : List Piece → List Lexeme
  | [] => []
  | ⟨text, reading⟩ :: pieces =>
      let stop := offset + Text.byteCount text
      match reading with
      | .token token => ⟨token, ⟨offset, stop⟩⟩ :: lexemes stop pieces
      | _ => lexemes stop pieces

/-- The text consists of blanks and comments. -/
def IsLayout (text : List Char) : Prop :=
  ∃ pieces : List (List Char), text = pieces.flatten ∧
    ∀ piece ∈ pieces, Forms piece .layout

/-- The lexemes stand in the text in this order. Each covers at least one byte, between
two characters of the text, is what its part of the text is, and could not be longer.
There are only blanks and comments before, between and after them. -/
structure Covers (text : List Char) (lexemes : List Lexeme) : Prop where
  ordered : lexemes.Pairwise fun first second => first.span.stop ≤ second.span.start
  longest : ∀ lexeme ∈ lexemes, lexeme.span.start < lexeme.span.stop ∧
    ∃ front piece back, text = front ++ (piece ++ back) ∧
      lexeme.span = ⟨Text.byteCount front, Text.byteCount (front ++ piece)⟩ ∧
      Longest (piece ++ back) piece (.token lexeme.token)
  gaps : ∀ gap ∈ (0 :: lexemes.map (·.span.stop)).zip
      (lexemes.map (·.span.start) ++ [Text.byteCount text]),
    ∃ front layout back, text = front ++ (layout ++ back) ∧
      gap = (Text.byteCount front, Text.byteCount (front ++ layout)) ∧ IsLayout layout

theorem byteCount_pos {text : List Char} (nonempty : text ≠ []) :
    0 < Text.byteCount text :=
  Nat.lt_of_lt_of_le (List.length_pos_iff.mpr nonempty) (Text.length_le_byteCount text)

theorem Piece.lexemes_ordered (offset : Nat) (pieces : List Piece) :
    (lexemes offset pieces).Pairwise
        (fun first second => first.span.stop ≤ second.span.start) ∧
      ∀ lexeme ∈ lexemes offset pieces, offset ≤ lexeme.span.start := by
  induction pieces generalizing offset with
  | nil => exact ⟨.nil, List.forall_mem_nil _⟩
  | cons piece pieces inductionHypothesis =>
      obtain ⟨text, reading⟩ := piece
      obtain ⟨ordered, later⟩ := inductionHypothesis (offset + Text.byteCount text)
      have further : ∀ lexeme ∈ lexemes (offset + Text.byteCount text) pieces,
          offset ≤ lexeme.span.start :=
        fun lexeme member => Nat.le_of_add_right_le (later lexeme member)
      cases reading with
      | token token =>
          exact ⟨.cons later ordered, List.forall_mem_cons.mpr ⟨Nat.le_refl _, further⟩⟩
      | layout => exact ⟨ordered, further⟩
      | stuck cause => exact ⟨ordered, further⟩

/-- Each token is the longest lexeme at its place. -/
theorem Cuts.longest {text last : List Char} {pieces : List Piece}
    (cuts : Cuts text pieces last) (before : List Char) :
    ∀ lexeme ∈ Piece.lexemes (Text.byteCount before) pieces,
      lexeme.span.start < lexeme.span.stop ∧
      ∃ front piece back, before ++ text = front ++ (piece ++ back) ∧
        lexeme.span = ⟨Text.byteCount front, Text.byteCount (front ++ piece)⟩ ∧
        Longest (piece ++ back) piece (.token lexeme.token) := by
  induction cuts generalizing before with
  | nil => exact List.forall_mem_nil _
  | @cons piece rest last reading pieces longest fine cuts inductionHypothesis =>
      have others := inductionHypothesis (before ++ piece)
      rw [Text.byteCount_append, List.append_assoc] at others
      cases reading with
      | layout => exact others
      | token token =>
          have positive := byteCount_pos longest.forms.ne_nil
          refine List.forall_mem_cons.mpr ⟨⟨Nat.lt_add_of_pos_right positive, ?_⟩, others⟩
          exact ⟨before, piece, rest, rfl, by rw [Text.byteCount_append], longest⟩
      | stuck cause => exact absurd rfl (fine cause)

theorem IsLayout.concat {gap piece : List Char} (layout : IsLayout gap)
    (forms : Forms piece .layout) : IsLayout (gap ++ piece) := by
  obtain ⟨pieces, rfl, each⟩ := layout
  refine ⟨pieces ++ [piece], by simp, fun other member => ?_⟩
  rcases List.mem_append.mp member with earlier | last
  · exact each other earlier
  · rw [List.mem_singleton.mp last]
    exact forms

/-- What is between tokens is layout. Some of it was cut off before. -/
theorem Cuts.gaps {text : List Char} {pieces : List Piece} (cuts : Cuts text pieces [])
    (before : List Char) {layout : List Char} (isLayout : IsLayout layout) :
    let lexemes := Piece.lexemes (Text.byteCount (before ++ layout)) pieces
    ∀ gap ∈ (Text.byteCount before :: lexemes.map (·.span.stop)).zip
        (lexemes.map (·.span.start) ++ [Text.byteCount (before ++ (layout ++ text))]),
      ∃ front between back, before ++ (layout ++ text) = front ++ (between ++ back) ∧
        gap = (Text.byteCount front, Text.byteCount (front ++ between)) ∧
          IsLayout between := by
  generalize ended : [] = last at cuts
  induction cuts generalizing before layout with
  | nil =>
      subst ended
      intro lexemes gap member
      refine ⟨before, layout, [], rfl, ?_, isLayout⟩
      rw [List.append_nil] at member
      exact List.mem_singleton.mp member
  | @cons piece rest last reading pieces longest fine cuts inductionHypothesis =>
      cases reading with
      | layout =>
          have others := inductionHypothesis before (isLayout.concat longest.forms) ended
          rw [← List.append_assoc before, Text.byteCount_append _ piece,
            List.append_assoc layout] at others
          exact others
      | token token =>
          have nothing : IsLayout [] := ⟨[], rfl, List.forall_mem_nil _⟩
          have others := inductionHypothesis (before ++ layout ++ piece) nothing ended
          rw [List.append_nil, Text.byteCount_append _ piece, List.nil_append,
            List.append_assoc, List.append_assoc] at others
          refine List.forall_mem_cons.mpr ⟨?_, others⟩
          exact ⟨before, layout, piece ++ rest, rfl, rfl, isLayout⟩
      | stuck cause => exact absurd rfl (fine cause)

theorem Cuts.covers {text : List Char} {pieces : List Piece}
    (cuts : Cuts text pieces []) : Covers text (Piece.lexemes 0 pieces) where
  ordered := (Piece.lexemes_ordered 0 pieces).1
  longest := cuts.longest []
  gaps := cuts.gaps [] ⟨[], rfl, List.forall_mem_nil _⟩

theorem Stuck.ne_nil {text snippet : List Char} {cause : LexError.Cause}
    (stuck : Stuck text snippet cause) : text ≠ [] := by
  cases stuck with
  | integerTooLarge longest =>
      rintro rfl
      exact longest.forms.ne_nil (List.prefix_nil.mp longest.initial)
  | _ => exact List.cons_ne_nil _ _

/-- What an error shows is the beginning of the text at which lexing ends. -/
theorem Stuck.snippet_ne_nil_and_prefix {text snippet : List Char}
    {cause : LexError.Cause} (stuck : Stuck text snippet cause) :
    snippet ≠ [] ∧ snippet <+: text := by
  cases stuck with
  | integerTooLarge longest => exact ⟨longest.forms.ne_nil, longest.initial⟩
  | unclosedString _ _ => exact ⟨List.cons_ne_nil _ _, List.prefix_refl _⟩
  | booleanOperator _ _ => exact ⟨List.cons_ne_nil _ _, List.prefix_append [_] _⟩
  | unexpectedCharacter _ _ _ _ =>
      exact ⟨List.cons_ne_nil _ _, List.prefix_append [_] _⟩

/-- Why lexing ended can be told from what an error shows. -/
def causeOf (snippet : List Char) : LexError.Cause :=
  if snippet.head?.any Char.isDigit then .integerTooLarge
  else if snippet.head? = some '"' then .unclosedString
  else if snippet = ['&'] ∨ snippet = ['|'] then .booleanOperator
  else .unexpectedCharacter

theorem Stuck.cause_eq {text snippet : List Char} {cause : LexError.Cause}
    (stuck : Stuck text snippet cause) : cause = causeOf snippet := by
  cases stuck with
  | integerTooLarge longest =>
      cases longest.forms with
      | tooLarge nonempty each _ =>
          obtain ⟨first, more, rfl⟩ := List.exists_cons_of_ne_nil nonempty
          have digit := each first List.mem_cons_self
          rw [causeOf, List.head?_cons, Option.any_some, if_pos digit]
  | unclosedString _ _ => rfl
  | booleanOperator _ operator => rcases operator with rfl | rfl <;> rfl
  | @unexpectedCharacter first text blocked noQuote noAnd noOr =>
      have noDigit : ¬ first.isDigit = true := fun digit =>
        blocked [first] _ (List.prefix_append [first] text) <|
          forms_readInteger (List.cons_ne_nil _ _) (List.forall_mem_singleton.mpr digit)
      simp [causeOf, noDigit, noQuote, noAnd, noOr]

theorem Stuck.not_lexeme {text snippet piece : List Char} {cause : LexError.Cause}
    {reading : Reading} (stuck : Stuck text snippet cause)
    (longest : Longest text piece reading) : ∃ cause, reading = .stuck cause := by
  cases stuck with
  | integerTooLarge tooLarge => exact ⟨_, (tooLarge.unique longest).2⟩
  | unclosedString blocked _ =>
      exact absurd longest.forms (blocked _ _ longest.initial)
  | booleanOperator blocked _ =>
      exact absurd longest.forms (blocked _ _ longest.initial)
  | unexpectedCharacter blocked _ _ _ =>
      exact absurd longest.forms (blocked _ _ longest.initial)

/-- A text that cannot be cut somewhere cannot be cut as a whole. -/
theorem Cuts.not_of_stuck {text rest snippet : List Char} {pieces : List Piece}
    {cause : LexError.Cause} (cuts : Cuts text pieces rest)
    (stuck : Stuck rest snippet cause) (others : List Piece) : ¬ Cuts text others [] := by
  induction cuts generalizing others with
  | nil text =>
      intro whole
      cases whole with
      | nil => exact stuck.ne_nil rfl
      | cons longest fine _ =>
          obtain ⟨cause, same⟩ := stuck.not_lexeme longest
          exact fine cause same
  | @cons piece rest last reading pieces longest fine _ inductionHypothesis =>
      intro whole
      generalize shape : piece ++ rest = text at whole
      cases whole with
      | nil =>
          exact longest.forms.ne_nil (List.append_eq_nil_iff.mp shape).1
      | cons otherLongest _ otherCuts =>
          rw [← shape] at otherLongest
          obtain ⟨rfl, _⟩ := longest.unique otherLongest
          obtain rfl := List.append_cancel_left shape
          exact inductionHypothesis stuck _ otherCuts

/-- What lexing a text that begins at an offset finds, after what was found before: the
tokens of a cut of the whole text, or a place where the cut gets stuck. -/
def Finds (offset : Nat) (found : Array Lexeme) (text : List Char) :
    Except LexError (Array Lexeme) → Prop
  | .ok lexemes => ∃ pieces, Cuts text pieces [] ∧
      lexemes.toList = found.toList ++ Piece.lexemes offset pieces
  | .error error => ∃ pieces front rest, Cuts text pieces rest ∧ text = front ++ rest ∧
      error.position = offset + Text.byteCount front ∧
        Stuck rest error.snippet.toList error.cause

/-- One more piece before what is lexed. -/
theorem Finds.cons {piece rest : List Char} {reading : Reading}
    (longest : Longest (piece ++ rest) piece reading)
    (fine : ∀ cause, reading ≠ .stuck cause) {offset : Nat} {found more : Array Lexeme}
    (adds : ∀ pieces,
      more.toList ++ Piece.lexemes (offset + Text.byteCount piece) pieces =
        found.toList ++ Piece.lexemes offset (⟨piece, reading⟩ :: pieces))
    {outcome : Except LexError (Array Lexeme)}
    (finds : Finds (offset + Text.byteCount piece) more rest outcome) :
    Finds offset found (piece ++ rest) outcome := by
  cases outcome with
  | ok lexemes =>
      obtain ⟨pieces, cuts, same⟩ := finds
      exact ⟨_, .cons longest fine cuts, same.trans (adds pieces)⟩
  | error error =>
      obtain ⟨pieces, front, last, cuts, rfl, position, stuck⟩ := finds
      refine ⟨_, piece ++ front, last, .cons longest fine cuts, ?_, ?_, stuck⟩
      · rw [List.append_assoc]
      · rw [position, Text.byteCount_append, Nat.add_assoc]

/-- Lexing cuts the text from left to right. -/
theorem lexFrom_finds (offset : Nat) (found : Array Lexeme) (text : List Char) :
    Finds offset found text (lexFrom offset found text) := by
  fun_induction lexFrom offset found text with
  | case1 => exact ⟨[], .nil [], (List.append_nil _).symm⟩
  | case2 offset found first text next stop layout inductionHypothesis =>
      have longest := longest_of_reading layout nofun
      rw [← cut_whole first text] at longest ⊢
      exact inductionHypothesis.cons longest nofun fun _ => rfl
  | case3 offset found first text next stop token reading inductionHypothesis =>
      have longest := longest_of_reading reading nofun
      rw [← cut_whole first text] at longest ⊢
      refine inductionHypothesis.cons longest nofun fun _ => ?_
      rw [Array.toList_push, List.append_assoc]
      rfl
  | case4 offset found first text next cause stuck =>
      refine ⟨[], [], first :: text, .nil _, rfl, rfl, ?_⟩
      rw [String.toList_ofList]
      exact stuck_cut stuck

end Token

theorem covers_of_lex {source : String} {lexemes : List Lexeme}
    (lexed : lex source = .ok lexemes) : Token.Covers source.toList lexemes := by
  have finds := Token.lexFrom_finds 0 #[] source.toList
  obtain ⟨found, whole, rfl⟩ := exists_of_except_map_eq_ok lexed
  rw [whole] at finds
  obtain ⟨pieces, cuts, same⟩ := finds
  rw [same.trans (List.nil_append _)]
  exact cuts.covers

/-- Lexing succeeds exactly when the text can be cut from left to right, each time taking
the longest lexeme. The tokens are then those of this cut, and they cover the text but
for layout. Otherwise the error tells the byte at which the cut gets stuck, shows the
beginning of what is left of the text there, and says why by what it shows. -/
theorem lex_longest (source : String) :
    match lex source with
    | .ok lexemes => ∃ pieces, Token.Cuts source.toList pieces [] ∧
        lexemes = Token.Piece.lexemes 0 pieces ∧ Token.Covers source.toList lexemes
    | .error error => (∀ pieces, ¬ Token.Cuts source.toList pieces []) ∧
        ∃ pieces front rest, Token.Cuts source.toList pieces rest ∧
          source.toList = front ++ rest ∧ error.position = Text.byteCount front ∧
          error.snippet.toList ≠ [] ∧ error.snippet.toList <+: rest ∧
          Token.Stuck rest error.snippet.toList error.cause ∧
          error.cause = Token.causeOf error.snippet.toList := by
  have finds := Token.lexFrom_finds 0 #[] source.toList
  rw [lex]
  cases outcome : Token.lexFrom 0 #[] source.toList with
  | ok lexemes =>
      rw [outcome] at finds
      obtain ⟨pieces, cuts, same⟩ := finds
      have covers := cuts.covers
      rw [← same.trans (List.nil_append _)] at covers
      exact ⟨pieces, cuts, same, covers⟩
  | error error =>
      rw [outcome] at finds
      obtain ⟨pieces, front, rest, cuts, shape, position, stuck⟩ := finds
      obtain ⟨nonempty, initial⟩ := stuck.snippet_ne_nil_and_prefix
      refine ⟨cuts.not_of_stuck stuck, pieces, front, rest, cuts, shape, ?_, nonempty,
        initial, stuck, stuck.cause_eq⟩
      rw [position, Nat.zero_add]

end ExprMachine
