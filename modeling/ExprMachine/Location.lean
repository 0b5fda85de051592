import ExprMachine.Span
import ExprMachine.Text

/-!
# Locations

A location tells a reader where a span begins: the line, the column, the text
of that line and how many of its characters the span covers. Spans count bytes;
lines, columns and widths count characters, so that marks stay under the right
text whatever the characters are. Any span can be located: an offset past the
end counts as the end, and one inside a character as the start of it.
-/

namespace ExprMachine

/-- Where a span begins. `line` and `column` count from one, `text` is the line
without its line end, and `width` is the number of characters of that line that
the span covers, but at least one. -/
structure Location where
  line : Nat
  column : Nat
  text : String
  width : Nat
deriving DecidableEq, Repr

namespace Location

/-- Moves characters from the text to the reversed list of those already seen,
as long as they fit into the given number of bytes. -/
def advance (bytes : Nat) (seen : List Char) : List Char → List Char × List Char
  | [] => (seen, [])
  | first :: text =>
      if first.utf8Size ≤ bytes then
        advance (bytes - first.utf8Size) (first :: seen) text
      else
        (seen, first :: text)

/-- Takes the carriage returns at the end of a line away. -/
def withoutReturns (line : List Char) : List Char :=
  (line.reverse.dropWhile (· = '\r')).reverse

/-- The line with the given number, counted from one, or nothing if the text
has no such line. -/
def lineCharacters : Nat → List Char → List Char
  | 0, _ => []
  | 1, text => withoutReturns (text.takeWhile Text.isInLine)
  | number + 2, text =>
      match text.dropWhile Text.isInLine with
      | [] => []
      | _ :: following => lineCharacters (number + 1) following

/-- The text of a line, counted from one, without its line end. -/
def lineText (source : String) (number : Nat) : String :=
  String.ofList (lineCharacters number source.toList)

end Location

/-- Where a span of a source text begins, and how much of that line it covers. -/
def locate (source : String) (span : Span) : Location :=
  let (seen, ahead) := Location.advance span.start [] source.toList
  let before := seen.takeWhile Text.isInLine
  let text :=
    Location.withoutReturns
      (before.reverse ++ ahead.takeWhile Text.isInLine)
  let start := Text.byteCount seen
  let textEnd := start - Text.byteCount before + Text.byteCount text
  let (covered, _) :=
    Location.advance (min span.stop textEnd - start) [] ahead
  { line := seen.count '\n' + 1
    column := before.length + 1
    text := String.ofList text
    width := max 1 covered.length }

end ExprMachine
