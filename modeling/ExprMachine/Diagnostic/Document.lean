import ExprMachine.Diagnostic
import ExprMachine.Json.Printing
import ExprMachine.Location

/-!
# Diagnostics for programs

A diagnostic is written as a JSON document on one line. The keys of each object
are in alphabetical order, and parts that a diagnostic does not have are left
out.
-/

namespace ExprMachine

namespace Label

/-- The document of a label, with its line and column if there is a source. -/
def toJson (label : Label) (source : Option String) : Json :=
  match source with
  | some source =>
      let location := locate source label.span
      .record
        [("col", .ofNat location.column), ("end", .ofNat label.span.stop),
          ("line", .ofNat location.line), ("message", .ofText label.message),
          ("start", .ofNat label.span.start)]
  | none =>
      .record
        [("end", .ofNat label.span.stop), ("message", .ofText label.message),
          ("start", .ofNat label.span.start)]

end Label

namespace Diagnostic

/-- The member with the given key, if there is a value for it. -/
def optionalMember (key : String) (value : Option Json) : List (String × Json) :=
  match value with
  | some value => [(key, value)]
  | none => []

def toJson (diagnostic : Diagnostic) : Json :=
  .record <|
    optionalMember "code" (diagnostic.code.map .ofText) ++
    optionalMember "label"
      (diagnostic.label.map fun label => label.toJson diagnostic.source) ++
    [("message", .ofText diagnostic.message),
      ("notes", .array (diagnostic.notes.map .ofText)),
      ("severity", .ofText "error")] ++
    optionalMember "suggestion" (diagnostic.suggestion.map .ofText)

def line (diagnostic : Diagnostic) : String :=
  diagnostic.toJson.compact ++ "\n"

end Diagnostic

end ExprMachine
