import ExprMachine.Proofs.Json.Literals
import ExprMachine.Proofs.Lexing
import ExprMachine.Proofs.MaximalMunch

/-!
# Tokens that are written out

Tokens are written one after another, with layout between them that begins with a blank.
No token goes on with a blank, so each of them is read back as it was written, and where
it was written. What is in comments does not matter, and neither do strings that look
like comments.
-/

namespace ExprMachine

namespace Token

/-! ## Layout -/

/-- Blanks, and comments with the line feeds that end them. -/
inductive Layout : List Char → Prop
  | nil : Layout []
  | blank {first : Char} {text : List Char} :
      isBlank first = true → Layout text → Layout (first :: text)
  | comment {remark text : List Char} :
      (∀ c ∈ remark, c ≠ '\n') → Layout text →
        Layout ('/' :: '/' :: (remark ++ '\n' :: text))

/-- Layout at the end of a text, where no line feed has to end the last comment. -/
inductive LastLayout : List Char → Prop
  | ended {text : List Char} : Layout text → LastLayout text
  | remark {text remark : List Char} :
      Layout text → (∀ c ∈ remark, c ≠ '\n') → LastLayout (text ++ '/' :: '/' :: remark)

/-- The text does not go on with the token before it: it begins with a blank, if there is
any text at all. -/
def Apart (text : List Char) : Prop :=
  ∀ c ∈ text.head?, isBlank c = true

theorem Apart.append {front back : List Char} (apart : Apart front)
    (nonempty : front ≠ []) : Apart (front ++ back) := by
  obtain ⟨first, text, rfl⟩ := List.exists_cons_of_ne_nil nonempty
  exact apart

section Runs

variable {rest : List Char} (apart : Apart rest)

include apart

theorem Apart.not_isDigit : ∀ c ∈ rest.head?, c.isDigit = false := by
  intro c first
  by_contra digit
  have blank := apart c first
  rw [isBlank_eq_false_of_isDigit (Bool.of_not_eq_false digit)] at blank
  cases blank

theorem Apart.not_isNamePart : ∀ c ∈ rest.head?, isNamePart c = false := by
  intro c first
  by_contra part
  have blank := apart c first
  rw [isBlank_eq_false_of_isNamePart (Bool.of_not_eq_false part)] at blank
  cases blank

/-- A blank makes no longer symbol of a character, and no comment. -/
theorem Apart.cutSymbol {first : Char} {mark : Symbol}
    (found : symbolOfChar? first = some mark) :
    cutSymbol first rest = ⟨.token (.symbol mark), [first], rest⟩ := by
  unfold Token.cutSymbol
  split
  · cases apart '/' rfl
  · cases apart '=' rfl
  · cases apart '=' rfl
  · rw [found]

end Runs

/-! ## Spellings -/

/-- The texts that a token can be written as. An integer may have zeros in front. -/
inductive Spells : Token → List Char → Prop
  | keyword (word : Keyword) : Spells (.keyword word) word.spelling.toList
  | symbol (mark : Symbol) : Spells (.symbol mark) mark.spelling.toList
  | integer (zeros : Nat) {value : Word} :
      0 ≤ value.toInt →
        Spells (.integer value)
          (List.replicate zeros '0' ++ Nat.toDigits 10 value.toInt.toNat)
  | string {content : String} :
      (∀ c ∈ content.toList, c ≠ '"') →
        Spells (.string content) ('"' :: (content.toList ++ ['"']))
  | identifier {name : String} {first : Char} {text : List Char} :
      name.toList = first :: text → isNameStart first = true →
        (∀ c ∈ text, isNamePart c = true) →
          (∀ word : Keyword, word.spelling ≠ name) →
            Spells (.identifier name) name.toList

theorem decimal_zeros (zeros : Nat) (digits : List Char) :
    decimal (List.replicate zeros '0' ++ digits) = decimal digits := by
  induction zeros with
  | zero => rfl
  | succ zeros inductionHypothesis =>
      rw [List.replicate_succ, List.cons_append, decimal, inductionHypothesis]
      simp

/-- What a token is written as is a lexeme of this token. -/
theorem Spells.forms {token : Token} {text : List Char} (spells : Spells token text) :
    Forms text (.token token) := by
  cases spells with
  | keyword word => exact .keyword word
  | symbol mark => exact .symbol mark
  | @integer zeros value natural =>
      refine .integer ?_ ?_ ?_
      · exact List.append_ne_nil_of_right_ne_nil _ Nat.toDigits_ne_nil
      · refine List.forall_mem_append.mpr ⟨fun c member => ?_, fun _ => Json.isDigit_of_toDigits⟩
        rw [List.eq_of_mem_replicate member]
        rfl
      · rw [decimal_zeros, ← ofDigitChars_eq_decimal, Nat.ofDigitChars_ten_toDigits,
          Int.toNat_of_nonneg natural]
  | @string content inside =>
      have forms := Forms.string inside
      rwa [String.ofList_toList] at forms
  | @identifier name first text shape start each differs =>
      have whole : String.ofList (first :: text) = name := by
        rw [← shape, String.ofList_toList]
      rw [shape]
      have forms := Forms.identifier start each (by rwa [whole])
      rwa [whole] at forms

/-- A token is cut off from a text that keeps apart from it. -/
theorem Forms.cut_apart {first : Char} {text rest : List Char} {token : Token}
    (forms : Forms (first :: text) (.token token)) (apart : Apart rest) :
    cut first (text ++ rest) = ⟨.token token, first :: text, rest⟩ := by
  have alone := forms.reading_cut
  generalize shape : first :: text = piece at forms
  generalize reading : Reading.token token = read at forms
  cases forms with
  | blanks | comment | tooLarge => cases reading
  | symbol mark =>
      cases reading
      obtain ⟨only, spelling, found⟩ | rfl | rfl := spelling_cases mark
      · rw [spelling] at shape ⊢
        cases shape
        rw [List.nil_append, cut_of_symbolOfChar? _ found]
        exact apart.cutSymbol found
      · cases shape
        rfl
      · cases shape
        rfl
  | keyword word =>
      cases reading
      obtain ⟨start, more, spelling, begins, each⟩ := keyword_isName word
      rw [spelling] at shape ⊢
      cases shape
      obtain ⟨taken, dropped⟩ := Json.run_append each apart.not_isNamePart
      rw [cut_of_isNameStart text begins, List.takeWhile_eq_self_iff.mpr each] at alone
      rw [cut_of_isNameStart _ begins, taken, dropped, ← alone]
  | identifier begins each differs =>
      cases shape
      cases reading
      obtain ⟨taken, dropped⟩ := Json.run_append each apart.not_isNamePart
      rw [cut_of_isNameStart _ begins, taken, dropped, readName_eq differs]
  | string inside =>
      cases shape
      cases reading
      rw [List.append_assoc]
      exact cutString_of_closed inside
  | integer nonempty each same =>
      subst shape
      cases reading
      obtain ⟨digit, others⟩ := List.forall_mem_cons.mp each
      obtain ⟨taken, dropped⟩ := Json.run_append others apart.not_isDigit
      rw [cut_of_isDigit _ digit, taken, dropped, readInteger_eq same]

/-! ## Lexing what was written -/

theorem lexFrom_spelled {token : Token} {text rest : List Char}
    (spells : Spells token text) (apart : Apart rest) (offset : Nat)
    (found : Array Lexeme) :
    lexFrom offset found (text ++ rest) =
      lexFrom (offset + Text.byteCount text)
        (found.push ⟨token, ⟨offset, offset + Text.byteCount text⟩⟩) rest := by
  have forms := spells.forms
  obtain ⟨first, more, rfl⟩ := List.exists_cons_of_ne_nil forms.ne_nil
  rw [List.cons_append, lexFrom, forms.cut_apart apart]

theorem cut_comment {remark rest : List Char} (inside : ∀ c ∈ remark, c ≠ '\n')
    (ends : ∀ c ∈ rest.head?, c = '\n') :
    cut '/' ('/' :: (remark ++ rest)) = ⟨.layout, '/' :: '/' :: remark, rest⟩ := by
  have each : ∀ c ∈ '/' :: remark, Text.isInLine c = true :=
    List.forall_mem_cons.mpr ⟨rfl, fun c member => decide_eq_true (inside c member)⟩
  have stops : ∀ c ∈ rest.head?, Text.isInLine c = false := by
    intro c first
    rw [ends c first]
    rfl
  obtain ⟨taken, dropped⟩ := Json.run_append each stops
  rw [List.cons_append] at taken dropped
  rw [cut_of_symbolOfChar? _ rfl, cutSymbol, taken, dropped]

/-- Layout is passed over. -/
theorem lexFrom_layout {text : List Char} (layout : Layout text) (offset : Nat)
    (found : Array Lexeme) (rest : List Char) :
    lexFrom offset found (text ++ rest) =
      lexFrom (offset + Text.byteCount text) found rest := by
  induction layout generalizing offset with
  | nil => rfl
  | @blank first text blank _ inductionHypothesis =>
      rw [List.cons_append, lexFrom_cons_of_isBlank blank, inductionHypothesis,
        Text.byteCount_cons, Nat.add_assoc]
  | @comment remark text inside _ inductionHypothesis =>
      have cutOff : cut '/' ('/' :: (remark ++ '\n' :: (text ++ rest))) =
          ⟨.layout, '/' :: '/' :: remark, '\n' :: (text ++ rest)⟩ :=
        cut_comment inside fun c first => (Option.some.inj first).symm
      simp only [List.cons_append, List.append_assoc]
      rw [lexFrom, cutOff]
      have lineFeed : isBlank '\n' = true := rfl
      simp only [lexFrom_cons_of_isBlank lineFeed, inductionHypothesis,
        Text.byteCount_cons, Text.byteCount_append, Nat.add_assoc]

theorem lexFrom_lastLayout {text : List Char} (layout : LastLayout text) (offset : Nat)
    (found : Array Lexeme) : lexFrom offset found text = .ok found := by
  cases layout with
  | ended layout =>
      have passed := lexFrom_layout layout offset found []
      rw [List.append_nil] at passed
      rw [passed, lexFrom]
  | @remark front remark layout inside =>
      have cutOff : cut '/' ('/' :: (remark ++ [])) = ⟨.layout, '/' :: '/' :: remark, []⟩ :=
        cut_comment inside fun c member => absurd member (Option.not_mem_none c)
      rw [List.append_nil] at cutOff
      rw [lexFrom_layout layout, lexFrom, cutOff]
      exact lexFrom.eq_1 ..

end Token

/-! ## Texts of tokens -/

/-- A token as it is written: the layout before it, and its spelling. -/
structure Written where
  layout : List Char
  token : Token
  spelling : List Char

namespace Written

def text (written : Written) : List Char :=
  written.layout ++ written.spelling

/-- The tokens with the places where they are written, the first one after its layout
from an offset on. -/
def lexemes (offset : Nat) : List Written → List Lexeme
  | [] => []
  | written :: others =>
      let start := offset + Text.byteCount written.layout
      let stop := start + Text.byteCount written.spelling
      ⟨written.token, ⟨start, stop⟩⟩ :: lexemes stop others

/-- Each token is spelled as it can be, and has layout before it. -/
structure Proper (written : Written) : Prop where
  spells : Token.Spells written.token written.spelling
  layout : Token.Layout written.layout

/-- The layout keeps the token apart from the one before it. -/
structure Separate (written : Written) : Prop where
  nonempty : written.layout ≠ []
  apart : Token.Apart written.layout

theorem token_lexemes (offset : Nat) (written : List Written) :
    (lexemes offset written).map Lexeme.token = written.map Written.token := by
  induction written generalizing offset with
  | nil => rfl
  | cons first others inductionHypothesis =>
      exact congrArg (first.token :: ·) (inductionHypothesis _)

/-- What follows a token keeps apart from it: the layout of the next token, or the layout
at the end. -/
theorem apart_rest {others : List Written} {ending : List Char}
    (separate : ∀ written ∈ others, Separate written) (apart : Token.Apart ending) :
    Token.Apart (others.flatMap text ++ ending) := by
  cases others with
  | nil => exact apart
  | cons next others =>
      obtain ⟨nonempty, apartNext⟩ := separate next List.mem_cons_self
      rw [List.flatMap_cons, text, List.append_assoc, List.append_assoc]
      exact apartNext.append nonempty

theorem lexFrom_written {written : List Written} {ending : List Char}
    (proper : ∀ each ∈ written, Proper each)
    (separate : ∀ each ∈ written.tail, Separate each)
    (layout : Token.LastLayout ending) (apart : written ≠ [] → Token.Apart ending)
    (offset : Nat) (found : Array Lexeme) :
    Token.lexFrom offset found (written.flatMap text ++ ending) =
      .ok (found ++ (lexemes offset written).toArray) := by
  induction written generalizing offset found with
  | nil =>
      rw [List.flatMap_nil, List.nil_append, Token.lexFrom_lastLayout layout]
      exact congrArg Except.ok (Array.append_empty).symm
  | cons first others inductionHypothesis =>
      obtain ⟨own, proper⟩ := List.forall_mem_cons.mp proper
      have ends : Token.Apart ending := apart (List.cons_ne_nil _ _)
      have rest : Token.Apart (others.flatMap text ++ ending) := apart_rest separate ends
      rw [List.flatMap_cons, text, List.append_assoc, List.append_assoc,
        Token.lexFrom_layout own.layout, Token.lexFrom_spelled own.spells rest,
        inductionHypothesis proper (fun each member => separate each (List.mem_of_mem_tail member))
          fun _ => ends]
      refine congrArg Except.ok ?_
      rw [lexemes]
      simp

end Written

/-- Lexing gives back what was written: the tokens, with the places at which they were
written, whatever the layout is. Only between two tokens, and after the last one, it has to
begin with a blank. -/
theorem lex_written {written : List Written} {ending : List Char}
    (proper : ∀ each ∈ written, each.Proper)
    (separate : ∀ each ∈ written.tail, each.Separate)
    (layout : Token.LastLayout ending) (apart : written ≠ [] → Token.Apart ending) :
    lex (String.ofList (written.flatMap Written.text ++ ending)) =
        .ok (Written.lexemes 0 written) ∧
      (Written.lexemes 0 written).map Lexeme.token = written.map Written.token := by
  refine ⟨?_, Written.token_lexemes 0 written⟩
  rw [lex, String.toList_ofList, Written.lexFrom_written proper separate layout apart]
  exact congrArg Except.ok (by simp)

/-- A comment may hold a quote and a string two slashes, and two equality signs with a
comment between them stay two. -/
theorem lex_written_remarks :
    let written : List Written :=
      [⟨"//\"+\n".toList, .integer 7, "007".toList⟩,
        ⟨" ".toList, .symbol .assign, "=".toList⟩,
        ⟨"\n//=\n".toList, .symbol .assign, "=".toList⟩,
        ⟨"\t".toList, .string "//\n", "\"//\n\"".toList⟩]
    let ending := " // \"".toList
    (∀ each ∈ written, each.Proper) ∧ (∀ each ∈ written.tail, each.Separate) ∧
      Token.LastLayout ending ∧ Token.Apart ending ∧
      lex "//\"+\n007 =\n//=\n=\t\"//\n\" // \"" =
        .ok [⟨.integer 7, ⟨5, 8⟩⟩, ⟨.symbol .assign, ⟨9, 10⟩⟩,
          ⟨.symbol .assign, ⟨15, 16⟩⟩, ⟨.string "//\n", ⟨17, 22⟩⟩] := by
  intro written ending
  have digits : Token.Spells (.integer 7) "007".toList := .integer 2 (by decide)
  have quoted : Token.Spells (.string "//\n") "\"//\n\"".toList := .string (by simp)
  have inFirst : ∀ c ∈ ['"', '+'], c ≠ '\n' := by simp
  have inSecond : ∀ c ∈ ['='], c ≠ '\n' := by simp
  have inLast : ∀ c ∈ [' ', '"'], c ≠ '\n' := by simp
  have remark : Token.Layout "//\"+\n".toList := .comment inFirst .nil
  have lineRemark : Token.Layout "\n//=\n".toList := .blank rfl (.comment inSecond .nil)
  have proper : ∀ each ∈ written, each.Proper := by
    refine List.forall_mem_cons.mpr ⟨⟨digits, remark⟩, ?_⟩
    refine List.forall_mem_cons.mpr ⟨⟨.symbol .assign, .blank rfl .nil⟩, ?_⟩
    refine List.forall_mem_cons.mpr ⟨⟨.symbol .assign, lineRemark⟩, ?_⟩
    exact List.forall_mem_singleton.mpr ⟨quoted, .blank rfl .nil⟩
  have separate : ∀ each ∈ written.tail, each.Separate := by
    have begins (first : Char) (text : List Char) (token : Token) (spelling : List Char)
        (blank : Token.isBlank first = true) :
        Written.Separate ⟨first :: text, token, spelling⟩ :=
      ⟨List.cons_ne_nil _ _, fun c head => by cases head; exact blank⟩
    refine List.forall_mem_cons.mpr ⟨begins _ _ _ _ rfl, ?_⟩
    refine List.forall_mem_cons.mpr ⟨begins _ _ _ _ rfl, ?_⟩
    exact List.forall_mem_singleton.mpr (begins _ _ _ _ rfl)
  have layout : Token.LastLayout ending :=
    .remark (.blank rfl .nil : Token.Layout [' ']) inLast
  have apart : Token.Apart ending := fun c head => by cases head; rfl
  refine ⟨proper, separate, layout, apart, ?_⟩
  exact (lex_written proper separate layout fun _ => apart).1

end ExprMachine
