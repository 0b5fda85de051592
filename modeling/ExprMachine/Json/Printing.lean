import ExprMachine.Json

/-!
# Printing JSON

A document is printed in one of two layouts: compact, without any white space,
or indented, with each item and each member on a line of its own. Both layouts
come from one printer, which appends to the text printed so far.
-/

namespace ExprMachine.Json

/-- What is written between the parts of a document. `lineBreak` stands before
each item, each member and each closing bracket of a container that is not
empty, and is told the depth of nesting. -/
structure Layout where
  lineBreak : Nat → String
  colon : String

namespace Layout

def compact : Layout :=
  ⟨fun _ => "", ":"⟩

/-- One part a line, with two more spaces for each level. -/
def indented : Layout :=
  ⟨fun depth => "\n" ++ String.ofList (List.replicate (2 * depth) ' '), ": "⟩

end Layout

mutual

/-- Appends a document that stands at the given depth of nesting. -/
def append (layout : Layout) (depth : Nat) : Json → String → String
  | .null, done => done ++ "null"
  | .boolean true, done => done ++ "true"
  | .boolean false, done => done ++ "false"
  | .number literal, done => done ++ literal
  | .string literal, done => done ++ "\"" ++ literal ++ "\""
  | .array [], done => done ++ "[]"
  | .array (first :: items), done =>
      appendItems layout (depth + 1) items
        (first.append layout (depth + 1)
          (done ++ "[" ++ layout.lineBreak (depth + 1)))
        ++ layout.lineBreak depth ++ "]"
  | .object [], done => done ++ "\x7b\x7d"
  | .object ((key, first) :: members), done =>
      appendMembers layout (depth + 1) members
        (first.append layout (depth + 1)
          (done ++ "\x7b" ++ layout.lineBreak (depth + 1) ++ "\"" ++ key ++ "\"" ++
            layout.colon))
        ++ layout.lineBreak depth ++ "\x7d"

def appendItems (layout : Layout) (depth : Nat) : List Json → String → String
  | [], done => done
  | item :: items, done =>
      appendItems layout depth items
        (item.append layout depth (done ++ "," ++ layout.lineBreak depth))

def appendMembers (layout : Layout) (depth : Nat) :
    List (String × Json) → String → String
  | [], done => done
  | (key, value) :: members, done =>
      appendMembers layout depth members
        (value.append layout depth
          (done ++ "," ++ layout.lineBreak depth ++ "\"" ++ key ++ "\"" ++
            layout.colon))

end

def compact (document : Json) : String :=
  document.append .compact 0 ""

def indented (document : Json) : String :=
  document.append .indented 0 ""

end ExprMachine.Json
