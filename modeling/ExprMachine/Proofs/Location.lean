import ExprMachine.Location
import Mathlib

/-!
# Locations of cuts

A span that begins and ends between characters of a text is located exactly: the line
and the column are those of its first character, and the width counts its characters up
to the end of that line. Only the carriage returns at the end of a line could stand in
the way, so a span must not begin among them.
-/

namespace ExprMachine

/-- The span begins and ends between characters: the piece that it covers, and what comes
before and after the piece. -/
structure Span.CutsOut (text : List Char) (span : Span) (front piece back : List Char) :
    Prop where
  whole : text = front ++ (piece ++ back)
  start : span.start = Text.byteCount front
  stop : span.stop = Text.byteCount (front ++ piece)

theorem Span.CutsOut.bounds {text front piece back : List Char} {span : Span}
    (cuts : span.CutsOut text front piece back) :
    span.start ≤ span.stop ∧ span.stop ≤ Text.byteCount text := by
  rw [cuts.start, cuts.stop, cuts.whole, ← List.append_assoc]
  exact ⟨by simp, by simp⟩

theorem Text.byteCount_reverse (text : List Char) :
    byteCount text.reverse = byteCount text := by
  induction text with
  | nil => rfl
  | cons c text inductionHypothesis =>
      rw [List.reverse_cons, byteCount_append, inductionHypothesis]
      simp [Nat.add_comm]

namespace Location

/-! ## Lines -/

/-- The part of a line before a place. -/
def lineBefore (front : List Char) : List Char :=
  (front.reverse.takeWhile Text.isInLine).reverse

/-- The part of a line after a place, without the line end. -/
def lineAfter (ahead : List Char) : List Char :=
  withoutReturns (ahead.takeWhile Text.isInLine)

/-- The place is not among carriage returns that end a line. -/
def OnLine (front ahead : List Char) : Prop :=
  front.getLast? ≠ some '\r' ∨ ∃ c rest, ahead = c :: rest ∧ c ≠ '\r' ∧ c ≠ '\n'

theorem byteCount_lineBefore_le (front : List Char) :
    Text.byteCount (lineBefore front) ≤ Text.byteCount front := by
  have whole := List.takeWhile_append_dropWhile (p := Text.isInLine) (l := front.reverse)
  have bytes := congrArg Text.byteCount whole
  rw [Text.byteCount_append, Text.byteCount_reverse] at bytes
  rw [lineBefore, Text.byteCount_reverse]
  omega

theorem withoutReturns_isPrefix (line : List Char) : withoutReturns line <+: line := by
  have suffix := List.reverse_prefix.mpr (List.dropWhile_suffix (l := line.reverse) (· = '\r'))
  rwa [List.reverse_reverse] at suffix

theorem lineAfter_isPrefix (ahead : List Char) : lineAfter ahead <+: ahead :=
  (withoutReturns_isPrefix _).trans (List.takeWhile_prefix _)

theorem dropWhile_reverse_lineBefore {front : List Char}
    (noReturn : front.getLast? ≠ some '\r') :
    (lineBefore front).reverse.dropWhile (· = '\r') = (lineBefore front).reverse := by
  have first := List.head?_takeWhile (p := Text.isInLine) (l := front.reverse)
  rw [lineBefore, List.reverse_reverse]
  rw [List.head?_reverse] at first
  cases shape : front.reverse.takeWhile Text.isInLine with
  | nil => rfl
  | cons c line =>
      rw [shape, List.head?_cons] at first
      have last : front.getLast? = some c := (Option.filter_eq_some_iff.mp first.symm).1
      refine List.dropWhile_cons_of_neg fun isReturn => noReturn ?_
      rw [last, of_decide_eq_true isReturn]

/-- What is taken away from a line comes after a place on it. -/
theorem withoutReturns_line {front ahead : List Char} (onLine : OnLine front ahead) :
    withoutReturns (lineBefore front ++ ahead.takeWhile Text.isInLine) =
      lineBefore front ++ lineAfter ahead := by
  rw [withoutReturns, List.reverse_append, List.dropWhile_append, lineAfter, withoutReturns]
  by_cases empty : (ahead.takeWhile Text.isInLine).reverse.dropWhile (· = '\r') = []
  · have returns := List.dropWhile_eq_nil_iff.mp empty
    have noReturn : front.getLast? ≠ some '\r' := by
      rcases onLine with last | ⟨c, rest, rfl, other, inLine⟩
      · exact last
      · have first : c ∈ ((c :: rest).takeWhile Text.isInLine).reverse := by
          simp [Text.isInLine, inLine]
        exact absurd (of_decide_eq_true (returns c first)) other
    have kept : (lineBefore front).reverse.dropWhile (· = '\r') =
        (lineBefore front).reverse :=
      dropWhile_reverse_lineBefore noReturn
    rw [empty, if_pos List.isEmpty_nil, kept, List.reverse_reverse, List.reverse_nil,
      List.append_nil]
  · rw [if_neg (by simpa using empty), List.reverse_append, List.reverse_reverse]

/-! ## Places -/

theorem advance_append (front back seen : List Char) :
    advance (Text.byteCount front) seen (front ++ back) = (front.reverse ++ seen, back) := by
  induction front generalizing seen with
  | nil =>
      cases back with
      | nil => rfl
      | cons c back =>
          have positive := c.utf8Size_pos
          rw [List.nil_append, advance, Text.byteCount_nil, if_neg (by omega)]
          rfl
  | cons c front inductionHypothesis =>
      rw [List.cons_append, advance, Text.byteCount_cons, if_pos (Nat.le_add_right ..),
        Nat.add_sub_cancel_left, inductionHypothesis, List.reverse_cons, List.append_assoc]
      rfl

/-- Of two texts that the same text begins with, the shorter one is moved past. -/
theorem length_advance_min {first second text : List Char} (initial : first <+: text)
    (otherInitial : second <+: text) :
    (advance (min (Text.byteCount first) (Text.byteCount second)) [] text).1.length =
      min first.length second.length := by
  have moved {shorter longer : List Char} (part : shorter <+: longer)
      (whole : longer <+: text) :
      (advance (min (Text.byteCount shorter) (Text.byteCount longer)) [] text).1.length =
        min shorter.length longer.length := by
    obtain ⟨rest, rfl⟩ := part
    obtain ⟨more, rfl⟩ := whole
    rw [Text.byteCount_append, Nat.min_eq_left (Nat.le_add_right ..), List.append_assoc,
      advance_append, List.append_nil, List.length_reverse, List.length_append,
      Nat.min_eq_left (Nat.le_add_right ..)]
  rcases List.prefix_or_prefix_of_prefix initial otherInitial with part | part
  · exact moved part otherInitial
  · rw [Nat.min_comm, Nat.min_comm first.length]
    exact moved part initial

/-- The location tells where the piece begins, and covers the piece up to the end of its
first line. -/
structure Exact (location : Location) (front piece back : List Char) : Prop where
  line : location.line = front.count '\n' + 1
  column : location.column = (lineBefore front).length + 1
  text : location.text =
    String.ofList (lineBefore front ++ lineAfter (piece ++ back))
  width : location.width = max 1 (min piece.length (lineAfter (piece ++ back)).length)

end Location

/-- The start of a span is not moved, and its end only to the end of its first line. -/
theorem Span.CutsOut.locate {source : String} {span : Span} {front piece back : List Char}
    (cuts : span.CutsOut source.toList front piece back)
    (onLine : Location.OnLine front (piece ++ back)) :
    (locate source span).Exact front piece back := by
  have place : Location.advance span.start [] source.toList =
      (front.reverse, piece ++ back) := by
    rw [cuts.start, cuts.whole, Location.advance_append, List.append_nil]
  have before : front.reverse.takeWhile Text.isInLine =
      (Location.lineBefore front).reverse := (List.reverse_reverse _).symm
  have text := Location.withoutReturns_line onLine
  have onto := Location.byteCount_lineBefore_le front
  have covered : min span.stop (Text.byteCount front -
        Text.byteCount (Location.lineBefore front) +
        Text.byteCount (Location.lineBefore front ++ Location.lineAfter (piece ++ back))) -
          Text.byteCount front =
      min (Text.byteCount piece) (Text.byteCount (Location.lineAfter (piece ++ back))) := by
    rw [cuts.stop, Text.byteCount_append, Text.byteCount_append]
    omega
  have width := Location.length_advance_min (List.prefix_append piece back)
    (Location.lineAfter_isPrefix (piece ++ back))
  constructor
  all_goals simp only [ExprMachine.locate, place, before, List.reverse_reverse, text,
    Text.byteCount_reverse, covered]
  · rw [List.count_reverse]
  · rw [List.length_reverse]
  · rw [width]

end ExprMachine
