import ExprMachine.Span
import ExprMachine.Word

/-!
# Tokens

A source text is a sequence of tokens with layout between them. Keywords and
symbols have one spelling each, kept in `Keyword.spelling` and
`Symbol.spelling`; integers, strings and identifiers carry what they stand for.
-/

namespace ExprMachine

inductive Keyword where
  | letWord
  | trueWord
  | falseWord
  | ifWord
  | elseWord
deriving DecidableEq, Repr

namespace Keyword

def spelling : Keyword → String
  | letWord => "let"
  | trueWord => "true"
  | falseWord => "false"
  | ifWord => "if"
  | elseWord => "else"

def all : List Keyword :=
  [letWord, trueWord, falseWord, ifWord, elseWord]

def ofSpelling? (name : String) : Option Keyword :=
  all.find? fun keyword => keyword.spelling = name

end Keyword

/-- An operator or a punctuation mark. -/
inductive Symbol where
  | plus
  | minus
  | star
  | slash
  | percent
  | bang
  | equal
  | notEqual
  | less
  | greater
  | assign
  | comma
  | semicolon
  | openParen
  | closeParen
  | openBracket
  | closeBracket
  | openBrace
  | closeBrace
deriving DecidableEq, Repr

namespace Symbol

def spelling : Symbol → String
  | plus => "+"
  | minus => "-"
  | star => "*"
  | slash => "/"
  | percent => "%"
  | bang => "!"
  | equal => "=="
  | notEqual => "!="
  | less => "<"
  | greater => ">"
  | assign => "="
  | comma => ","
  | semicolon => ";"
  | openParen => "("
  | closeParen => ")"
  | openBracket => "["
  | closeBracket => "]"
  | openBrace => "\x7b"
  | closeBrace => "\x7d"

end Symbol

/-- What a lexeme stands for. -/
inductive Token where
  | keyword (word : Keyword)
  | symbol (mark : Symbol)
  | integer (value : Word)
  | string (content : String)
  | identifier (name : String)
deriving DecidableEq, Repr

namespace Token

def describe : Token → String
  | keyword word => "`" ++ word.spelling ++ "`"
  | symbol mark => "`" ++ mark.spelling ++ "`"
  | integer value => "integer " ++ value.text
  | string content => "string \"" ++ content ++ "\""
  | identifier name => "identifier `" ++ name ++ "`"

end Token

/-- A token together with the place it was read from. -/
structure Lexeme where
  token : Token
  span : Span
deriving DecidableEq, Repr

end ExprMachine
