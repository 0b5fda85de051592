import ExprMachine.Diagnostic
import ExprMachine.Location

/-!
# Diagnostics for people

A diagnostic is rendered as a header, the line of source it points at with
carets under the span, its notes, its suggestion, and a pointer to the longer
explanation of its code. Colour adds escape sequences around pieces of text and
changes nothing else.
-/

namespace ExprMachine

/-- The styles of the pieces of a rendered diagnostic. -/
inductive Style where
  | bold
  | boldRed
  | cyan
  | dim
deriving DecidableEq, Repr

namespace Style

/-- The escape sequence that begins a style. -/
def opening : Style → String
  | bold => "\x1b[1m"
  | boldRed => "\x1b[1;31m"
  | cyan => "\x1b[36m"
  | dim => "\x1b[2m"

/-- The escape sequence that ends every style. -/
def closing : String := "\x1b[0m"

/-- A piece of text in a style, if there is colour. -/
def paint (style : Style) (colour : Bool) (text : String) : String :=
  if colour then style.opening ++ text ++ closing else text

end Style

namespace Diagnostic

def repeated (c : Char) (count : Nat) : String :=
  String.ofList (List.replicate count c)

def header (diagnostic : Diagnostic) (colour : Bool) : String :=
  let word :=
    match diagnostic.code with
    | some code => "error[" ++ code ++ "]"
    | none => "error"
  Style.boldRed.paint colour word ++ ": " ++
    Style.bold.paint colour diagnostic.message ++ "\n"

/-- The line of source that a label points at, with carets under the span. -/
def snippet (label : Label) (location : Location) (colour : Bool) : String :=
  let number := toString location.line
  let pad := repeated ' ' number.length
  let bar := Style.cyan.paint colour "|"
  let carets := Style.boldRed.paint colour (repeated '^' location.width)
  let remark :=
    if label.message.isEmpty then ""
    else " " ++ Style.boldRed.paint colour label.message
  "  " ++ Style.cyan.paint colour "-->" ++ " " ++ number ++ ":" ++
      toString location.column ++ "\n" ++
    pad ++ " " ++ bar ++ "\n" ++
    Style.cyan.paint colour number ++ " " ++ bar ++ " " ++ location.text ++ "\n" ++
    pad ++ " " ++ bar ++ " " ++ repeated ' ' (location.column - 1) ++ carets ++
      remark ++ "\n" ++
    pad ++ " " ++ bar ++ "\n"

def addition (colour : Bool) (text : String) : String :=
  "  " ++ Style.dim.paint colour "=" ++ " " ++ text ++ "\n"

def render (diagnostic : Diagnostic) (colour : Bool) : String :=
  let place :=
    match diagnostic.label, diagnostic.source with
    | some label, some source => snippet label (locate source label.span) colour
    | _, _ => ""
  let notes := diagnostic.notes.map fun note => addition colour ("note: " ++ note)
  let suggestion :=
    match diagnostic.suggestion with
    | some suggestion => addition colour ("suggestion: " ++ suggestion)
    | none => ""
  let pointer :=
    match diagnostic.code with
    | some code => addition colour ("run `kiln --explain " ++ code ++ "` for details")
    | none => ""
  diagnostic.header colour ++ place ++ String.join notes ++ suggestion ++ pointer

end Diagnostic

end ExprMachine
