import ExprMachine.Json

/-!
# Reading JSON

`read?` reads one document that takes up a whole text, apart from white space
around it. It decides by the grammar of JSON alone: literals are kept as they
are written, and any depth of nesting is read.
-/

namespace ExprMachine.Json

def isBlank (c : Char) : Bool :=
  c = ' ' || c = '\n' || c = '\t' || c = '\r'

def skipBlank (text : List Char) : List Char :=
  text.dropWhile isBlank

/-- Reads a literal up to its closing quote. -/
def readLiteral (done : String) : List Char → Option (String × List Char)
  | [] => none
  | '"' :: rest => some (done, rest)
  | '\\' :: 'u' :: a :: b :: c :: d :: rest =>
      if (codeUnit? a b c d).isSome then
        readLiteral (done ++ String.ofList ['\\', 'u', a, b, c, d]) rest
      else
        none
  | '\\' :: mark :: rest =>
      if (simpleEscape? mark).isSome then
        readLiteral ((done.push '\\').push mark) rest
      else
        none
  | c :: rest =>
      if c.toNat < 0x20 ∨ c = '\\' then
        none
      else
        readLiteral (done.push c) rest

def readDigits (text : List Char) : Option (List Char × List Char) :=
  match text.takeWhile Char.isDigit with
  | [] => none
  | digits => some (digits, text.dropWhile Char.isDigit)

/-- Reads the whole part of a number, which has no needless zeros in front. -/
def readWhole : List Char → Option (List Char × List Char)
  | '0' :: rest =>
      match rest with
      | c :: _ => if c.isDigit then none else some (['0'], rest)
      | [] => some (['0'], [])
  | text => readDigits text

def readFraction : List Char → Option (List Char × List Char)
  | '.' :: rest => (readDigits rest).map fun read => ('.' :: read.1, read.2)
  | text => some ([], text)

def readExponent : List Char → Option (List Char × List Char)
  | mark :: rest =>
      if mark = 'e' ∨ mark = 'E' then
        match rest with
        | sign :: digits =>
            if sign = '+' ∨ sign = '-' then
              (readDigits digits).map fun read => (mark :: sign :: read.1, read.2)
            else
              (readDigits rest).map fun read => (mark :: read.1, read.2)
        | [] => none
      else
        some ([], mark :: rest)
  | [] => some ([], [])

def readMagnitude (text : List Char) : Option (List Char × List Char) := do
  let (whole, rest) ← readWhole text
  let (fraction, rest) ← readFraction rest
  let (exponent, rest) ← readExponent rest
  some (whole ++ fraction ++ exponent, rest)

def readNumber (text : List Char) : Option (Json × List Char) :=
  match text with
  | '-' :: rest =>
      (readMagnitude rest).map fun read =>
        (.number (String.ofList ('-' :: read.1)), read.2)
  | _ =>
      (readMagnitude text).map fun read =>
        (.number (String.ofList read.1), read.2)

/-- Reads the key of a member and the colon after it. -/
def readKey (text : List Char) : Option (String × List Char) :=
  match skipBlank text with
  | '"' :: rest => do
      let (key, rest) ← readLiteral "" rest
      match skipBlank rest with
      | ':' :: rest => some (key, rest)
      | _ => none
  | _ => none

mutual

/-- Reads a document. The fuel bounds the number of parts. -/
def readValue : Nat → List Char → Option (Json × List Char)
  | 0, _ => none
  | fuel + 1, text =>
      match skipBlank text with
      | 'n' :: 'u' :: 'l' :: 'l' :: rest => some (.null, rest)
      | 't' :: 'r' :: 'u' :: 'e' :: rest => some (.boolean true, rest)
      | 'f' :: 'a' :: 'l' :: 's' :: 'e' :: rest => some (.boolean false, rest)
      | '"' :: rest =>
          (readLiteral "" rest).map fun read => (.string read.1, read.2)
      | '[' :: rest =>
          match skipBlank rest with
          | ']' :: rest => some (.array [], rest)
          | rest => readItems fuel #[] rest
      | '\x7b' :: rest =>
          match skipBlank rest with
          | '\x7d' :: rest => some (.object [], rest)
          | rest => readMembers fuel #[] rest
      | text => readNumber text

def readItems : Nat → Array Json → List Char → Option (Json × List Char)
  | 0, _, _ => none
  | fuel + 1, done, text =>
      match readValue fuel text with
      | none => none
      | some (item, rest) =>
          match skipBlank rest with
          | ',' :: rest => readItems fuel (done.push item) rest
          | ']' :: rest => some (.array (done.push item).toList, rest)
          | _ => none

def readMembers :
    Nat → Array (String × Json) → List Char → Option (Json × List Char)
  | 0, _, _ => none
  | fuel + 1, done, text =>
      match readKey text with
      | none => none
      | some (key, rest) =>
          match readValue fuel rest with
          | none => none
          | some (value, rest) =>
              match skipBlank rest with
              | ',' :: rest => readMembers fuel (done.push (key, value)) rest
              | '\x7d' :: rest =>
                  some (.object (done.push (key, value)).toList, rest)
              | _ => none

end

/-- The document that takes up a whole text. -/
def read? (text : String) : Option Json :=
  match readValue (text.toList.length + 1) text.toList with
  | some (document, rest) =>
      if (skipBlank rest).isEmpty then some document else none
  | none => none

end ExprMachine.Json
