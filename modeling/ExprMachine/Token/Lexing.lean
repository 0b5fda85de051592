import ExprMachine.Text
import ExprMachine.Token

/-!
# Lexing

A source text is cut into pieces from left to right, each time taking the
longest piece that begins at the current character. `cut` takes one piece,
`cut_whole` says that it loses nothing, and `lex` repeats it to the end of the
text, leaving out layout. The first character where no piece begins stops it.
-/

namespace ExprMachine

inductive LexError.Cause where
  | integerTooLarge
  | unclosedString
  | booleanOperator
  | unexpectedCharacter
deriving DecidableEq, Repr

/-- Text that is no token, at the given byte offset. -/
structure LexError where
  cause : LexError.Cause
  position : Nat
  snippet : String
deriving DecidableEq, Repr

namespace LexError

def code : String := "K-L001"

def suggestion (error : LexError) : String :=
  match error.cause with
  | .integerTooLarge =>
      "Integer literal '" ++ error.snippet ++
        "' does not fit in a signed 64-bit integer"
  | .unclosedString =>
      "String literal is missing its closing '\"'"
  | .booleanOperator =>
      "Boolean operators are not supported; use `!` and `==` instead"
  | .unexpectedCharacter =>
      "Unexpected character(s): '" ++ error.snippet ++ "'"

def message (error : LexError) : String :=
  "Lex error at position " ++ toString error.position ++ ": '" ++
    error.snippet ++ "'. " ++ error.suggestion

end LexError

namespace Token

/-! ## Characters -/

/-- Spaces, tabs and line ends separate tokens. -/
def isBlank (c : Char) : Bool :=
  c = ' ' || c = '\t' || c = '\r' || c = '\n'

/-- Identifiers begin with an ASCII letter or an underscore. -/
def isNameStart (c : Char) : Bool :=
  c.isAlpha || c = '_'

/-- Identifiers go on with ASCII letters, ASCII digits and underscores. -/
def isNamePart (c : Char) : Bool :=
  c.isAlphanum || c = '_'

/-- A string goes on to the next quote, over line ends too. -/
def isInString (c : Char) : Bool :=
  c ≠ '"'

def symbolOfChar? : Char → Option Symbol
  | '+' => some .plus
  | '-' => some .minus
  | '*' => some .star
  | '/' => some .slash
  | '%' => some .percent
  | '!' => some .bang
  | '<' => some .less
  | '>' => some .greater
  | '=' => some .assign
  | ',' => some .comma
  | ';' => some .semicolon
  | '(' => some .openParen
  | ')' => some .closeParen
  | '[' => some .openBracket
  | ']' => some .closeBracket
  | '\x7b' => some .openBrace
  | '\x7d' => some .closeBrace
  | _ => none

/-! ## One piece -/

/-- What a piece of source text is. -/
inductive Reading where
  | layout
  | token (token : Token)
  | stuck (cause : LexError.Cause)
deriving DecidableEq, Repr

/-- The first piece of a text and the text after it. -/
structure Cut where
  reading : Reading
  piece : List Char
  rest : List Char
deriving DecidableEq, Repr

/-- The word that a run of decimal digits stands for. -/
def readInteger (digits : List Char) : Reading :=
  match Word.ofInt? (Nat.ofDigitChars 10 digits 0) with
  | some value => .token (.integer value)
  | none => .stuck .integerTooLarge

/-- A reserved word if the whole name is one, and an identifier otherwise. -/
def readName (name : List Char) : Reading :=
  match Keyword.ofSpelling? (String.ofList name) with
  | some word => .token (.keyword word)
  | none => .token (.identifier (String.ofList name))

/-- A string that begins with a quote, the text after which is given. A string
that is never closed takes up the rest of the text. -/
def cutString (text : List Char) : Cut :=
  match text.dropWhile isInString with
  | [] => ⟨.stuck .unclosedString, '"' :: text, []⟩
  | quote :: rest =>
      let content := text.takeWhile isInString
      ⟨.token (.string (String.ofList content)), '"' :: (content ++ [quote]), rest⟩

/-- A symbol, a comment, or a character that begins no token. -/
def cutSymbol (first : Char) (text : List Char) : Cut :=
  match first, text with
  | '/', '/' :: _ =>
      ⟨.layout, '/' :: text.takeWhile Text.isInLine, text.dropWhile Text.isInLine⟩
  | '=', '=' :: rest => ⟨.token (.symbol .equal), ['=', '='], rest⟩
  | '!', '=' :: rest => ⟨.token (.symbol .notEqual), ['!', '='], rest⟩
  | _, _ =>
      match symbolOfChar? first with
      | some mark => ⟨.token (.symbol mark), [first], text⟩
      | none =>
          if first = '&' ∨ first = '|' then
            ⟨.stuck .booleanOperator, [first], text⟩
          else
            ⟨.stuck .unexpectedCharacter, [first], text⟩

/-- The longest piece at the head of a text. -/
def cut (first : Char) (text : List Char) : Cut :=
  if isBlank first then
    ⟨.layout, first :: text.takeWhile isBlank, text.dropWhile isBlank⟩
  else if first.isDigit then
    let digits := first :: text.takeWhile Char.isDigit
    ⟨readInteger digits, digits, text.dropWhile Char.isDigit⟩
  else if isNameStart first then
    let name := first :: text.takeWhile isNamePart
    ⟨readName name, name, text.dropWhile isNamePart⟩
  else if first = '"' then
    cutString text
  else
    cutSymbol first text

private theorem cutString_whole (text : List Char) :
    (cutString text).piece ++ (cutString text).rest = '"' :: text := by
  unfold cutString
  split
  · simp
  · next quote rest found =>
      have whole := List.takeWhile_append_dropWhile (p := isInString) (l := text)
      rw [found] at whole
      simpa using whole

private theorem cutSymbol_whole (first : Char) (text : List Char) :
    (cutSymbol first text).piece ++ (cutSymbol first text).rest =
      first :: text := by
  unfold cutSymbol
  split
  · simp
  · simp
  · simp
  · split
    · simp
    · split <;> simp

/-- Cutting a text loses nothing of it. -/
theorem cut_whole (first : Char) (text : List Char) :
    (cut first text).piece ++ (cut first text).rest = first :: text := by
  unfold cut
  split
  · simp
  · split
    · simp
    · split
      · simp
      · split
        · next quoteEq =>
            rw [quoteEq]
            exact cutString_whole text
        · exact cutSymbol_whole first text

/-- A piece has at least one character. -/
theorem cut_piece_ne_nil (first : Char) (text : List Char) :
    (cut first text).piece ≠ [] := by
  unfold cut cutString cutSymbol
  repeat' split
  all_goals simp

/-- The text after a piece is shorter than the text before it. -/
theorem cut_rest_length_le (first : Char) (text : List Char) :
    (cut first text).rest.length ≤ text.length := by
  have lengths := congrArg List.length (cut_whole first text)
  have positive := List.length_pos_iff.mpr (cut_piece_ne_nil first text)
  simp only [List.length_append, List.length_cons] at lengths
  omega

/-! ## The whole text -/

/-- Appends the tokens of a text that begins at the given byte offset. -/
def lexFrom (offset : Nat) (found : Array Lexeme) :
    List Char → Except LexError (Array Lexeme)
  | [] => .ok found
  | first :: text =>
      let next := cut first text
      let stop := offset + Text.byteCount next.piece
      match next.reading with
      | .layout => lexFrom stop found next.rest
      | .token token => lexFrom stop (found.push ⟨token, ⟨offset, stop⟩⟩) next.rest
      | .stuck cause => .error ⟨cause, offset, String.ofList next.piece⟩
termination_by text => text.length
decreasing_by
  all_goals
    have shorter := cut_rest_length_le first text
    simp only [List.length_cons]
    omega

end Token

/-- The tokens of a source text in order, without the layout between them. -/
def lex (source : String) : Except LexError (List Lexeme) :=
  (Token.lexFrom 0 #[] source.toList).map Array.toList

end ExprMachine
