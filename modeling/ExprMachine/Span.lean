/-!
# Spans

A span is a half-open range of byte offsets into a source text. Tokens and
statements carry the span they were read from; the smallest span around two
others is their `merge`.
-/

namespace ExprMachine

/-- The bytes from offset `start` up to, but not including, offset `stop`. -/
structure Span where
  start : Nat
  stop : Nat
deriving DecidableEq, Repr, Inhabited

namespace Span

/-- The span of something that was not read from a source text. -/
def unknown : Span := ⟨0, 0⟩

/-- The smallest span that contains both spans. -/
def merge (first second : Span) : Span :=
  ⟨min first.start second.start, max first.stop second.stop⟩

/-- The empty span at the end of a span. -/
def afterwards (span : Span) : Span :=
  ⟨span.stop, span.stop⟩

end Span

end ExprMachine
