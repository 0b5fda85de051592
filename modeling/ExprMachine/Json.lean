/-!
# JSON documents

A document keeps its literals as they are written: a string as the characters
between its quotes, escapes included, and a number as its digits and marks. So
every document that is well formed can be read, and what a literal stands for
is asked of the literal: `text?` and `integer?` answer for strings and for
numbers, and `ofText` and `ofInt` write them.
-/

namespace ExprMachine

/-- A JSON value. Strings, keys and numbers are kept as they are written. -/
inductive Json where
  | null
  | boolean (value : Bool)
  | number (literal : String)
  | string (literal : String)
  | array (items : List Json)
  | object (members : List (String × Json))

namespace Json

instance : Inhabited Json := ⟨.null⟩

/-! ## Escapes -/

def hexDigit (value : Nat) : Char :=
  Nat.digitChar value

def hexValue? (c : Char) : Option Nat :=
  if '0' ≤ c ∧ c ≤ '9' then
    some (c.toNat - '0'.toNat)
  else if 'a' ≤ c ∧ c ≤ 'f' then
    some (c.toNat - 'a'.toNat + 10)
  else if 'A' ≤ c ∧ c ≤ 'F' then
    some (c.toNat - 'A'.toNat + 10)
  else
    none

/-- How a character is written in a string. Quotes, backslashes and control
characters are escaped, and everything else stands for itself. -/
def escapeCharacter (c : Char) : List Char :=
  match c with
  | '"' => ['\\', '"']
  | '\\' => ['\\', '\\']
  | '\x08' => ['\\', 'b']
  | '\x0c' => ['\\', 'f']
  | '\n' => ['\\', 'n']
  | '\r' => ['\\', 'r']
  | '\t' => ['\\', 't']
  | _ =>
      if c.toNat < 0x20 then
        ['\\', 'u', '0', '0', hexDigit (c.toNat / 16), hexDigit (c.toNat % 16)]
      else
        [c]

def escape (text : String) : String :=
  String.ofList (text.toList.flatMap escapeCharacter)

/-- The character that a backslash and the given character stand for. -/
def simpleEscape? : Char → Option Char
  | '"' => some '"'
  | '\\' => some '\\'
  | '/' => some '/'
  | 'b' => some '\x08'
  | 'f' => some '\x0c'
  | 'n' => some '\n'
  | 'r' => some '\r'
  | 't' => some '\t'
  | _ => none

/-- The code unit that four hexadecimal digits stand for. -/
def codeUnit? (first second third fourth : Char) : Option Nat := do
  let first ← hexValue? first
  let second ← hexValue? second
  let third ← hexValue? third
  let fourth ← hexValue? fourth
  some (((first * 16 + second) * 16 + third) * 16 + fourth)

/-- Whether a code unit is the first half of a surrogate pair. -/
def isHighSurrogate (unit : Nat) : Bool :=
  0xd800 ≤ unit && unit < 0xdc00

/-- Whether a code unit is the second half of a surrogate pair. -/
def isLowSurrogate (unit : Nat) : Bool :=
  0xdc00 ≤ unit && unit < 0xe000

/-- Appends the characters that a literal stands for. Half of a surrogate pair
stands for nothing. -/
def unescapeFrom (done : String) : List Char → Option String
  | [] => some done
  | '\\' :: 'u' :: a :: b :: c :: d :: rest =>
      match codeUnit? a b c d with
      | none => none
      | some unit =>
          if isHighSurrogate unit then
            match rest with
            | '\\' :: 'u' :: e :: f :: g :: h :: following =>
                match codeUnit? e f g h with
                | none => none
                | some low =>
                    if isLowSurrogate low then
                      let code := 0x10000 + (unit - 0xd800) * 0x400 + (low - 0xdc00)
                      unescapeFrom (done.push (Char.ofNat code)) following
                    else
                      none
            | _ => none
          else if isLowSurrogate unit then
            none
          else
            unescapeFrom (done.push (Char.ofNat unit)) rest
  | '\\' :: mark :: rest =>
      match simpleEscape? mark with
      | some c => unescapeFrom (done.push c) rest
      | none => none
  | c :: rest => unescapeFrom (done.push c) rest

def unescape? (literal : String) : Option String :=
  unescapeFrom "" literal.toList

/-! ## Literals -/

def ofText (text : String) : Json :=
  .string (escape text)

def text? : Json → Option String
  | .string literal => unescape? literal
  | _ => none

def ofInt (value : Int) : Json :=
  .number (toString value)

def ofNat (value : Nat) : Json :=
  .number (toString value)

/-- The integer that a number stands for, if it is written without a fraction
and without an exponent. Negative zero is no integer. -/
def integer? : Json → Option Int
  | .number literal =>
      match literal.toList with
      | '-' :: digits =>
          if digits.all Char.isDigit ∧ digits ≠ ['0'] then
            some (-(Nat.ofDigitChars 10 digits 0 : Nat))
          else
            none
      | digits =>
          if digits.all Char.isDigit then
            some (Nat.ofDigitChars 10 digits 0 : Nat)
          else
            none
  | _ => none

/-! ## Members -/

def tagged (tag : String) (value : Json) : Json :=
  .object [(escape tag, value)]

def record (members : List (String × Json)) : Json :=
  .object (members.map fun member => (escape member.1, member.2))

/-- The values of the named fields of a record. A record is written as an
object, which names each field at most once and may have other members, or as
an array of all the fields in order. -/
def fields? (names : List String) : Json → Option (List (Option Json))
  | .object members => do
      let members ← members.mapM fun member =>
        (unescape? member.1).map fun key => (key, member.2)
      names.mapM fun name =>
        match members.filter fun member => member.1 = name with
        | [] => some none
        | [member] => some (some member.2)
        | _ => none
  | .array items =>
      if items.length = names.length then
        some (items.map some)
      else
        none
  | _ => none

end Json

end ExprMachine
