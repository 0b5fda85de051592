import ExprMachine.Proofs.Location.Lines

/-!
# Locating with an index of lines

The lines of a text can be found in an index of the byte offsets at which they begin. Each
step may fail here: a text can only be cut between characters, an index only be read where
it has an entry, and only entries that are in order be searched. No step ever fails, and the
location that is found is the one that is told in one pass over the text.
-/

namespace ExprMachine

namespace Text

/-! ## Cutting at offsets -/

/-- Cuts a text at a byte offset, which must be between characters. -/
def divide? (offset : Nat) : List Char → Option (List Char × List Char)
  | [] => if offset = 0 then some ([], []) else none
  | first :: text =>
      if offset = 0 then
        some ([], first :: text)
      else if first.utf8Size ≤ offset then
        (divide? (offset - first.utf8Size) text).map fun parts =>
          (first :: parts.1, parts.2)
      else
        none

/-- The text from one byte offset to another one, which must not be before it. -/
def slice? (text : List Char) (start stop : Nat) : Option (List Char) :=
  if start ≤ stop then do
    let (_, rest) ← divide? start text
    let (piece, _) ← divide? (stop - start) rest
    some piece
  else
    none

def isBoundary (text : List Char) (offset : Nat) : Bool :=
  (divide? offset text).isSome

/-- The last offset between characters that is not after the given one. -/
def moveBack (text : List Char) : Nat → Nat
  | 0 => 0
  | offset + 1 =>
      if isBoundary text (offset + 1) then offset + 1 else moveBack text offset

def charFloor (text : List Char) (offset : Nat) : Nat :=
  moveBack text (min offset (byteCount text))

/-- Takes all of a character at the end of a text away. -/
def trimEnd (c : Char) (text : List Char) : List Char :=
  (text.reverse.dropWhile (· = c)).reverse

variable {text front back : List Char} {offset : Nat}

theorem divide?_append (front back : List Char) :
    divide? (byteCount front) (front ++ back) = some (front, back) := by
  induction front with
  | nil => cases back <;> rfl
  | cons first front inductionHypothesis =>
      have positive := first.utf8Size_pos
      rw [List.cons_append, divide?, byteCount_cons, if_neg (by omega),
        if_pos (Nat.le_add_right ..), Nat.add_sub_cancel_left, inductionHypothesis]
      rfl

theorem byteCount_of_divide? (found : divide? offset text = some (front, back)) :
    text = front ++ back ∧ byteCount front = offset := by
  induction text generalizing offset front with
  | nil =>
      rw [divide?] at found
      split at found
      · cases found
        exact ⟨rfl, Eq.symm ‹_›⟩
      · cases found
  | cons first text inductionHypothesis =>
      rw [divide?] at found
      split at found
      · cases found
        exact ⟨rfl, Eq.symm ‹_›⟩
      · split at found
        · obtain ⟨⟨more, rest⟩, foundMore, same⟩ := Option.map_eq_some_iff.mp found
          obtain ⟨rfl, rfl⟩ := Prod.mk.inj same
          obtain ⟨rfl, bytes⟩ := inductionHypothesis foundMore
          refine ⟨rfl, ?_⟩
          dsimp only at bytes ⊢
          rw [byteCount_cons]
          omega
        · cases found

theorem isBoundary_iff :
    isBoundary text offset = true ↔ ∃ front, front <+: text ∧ byteCount front = offset := by
  rw [isBoundary, Option.isSome_iff_exists]
  constructor
  · rintro ⟨⟨front, back⟩, found⟩
    obtain ⟨rfl, bytes⟩ := byteCount_of_divide? found
    exact ⟨front, List.prefix_append front back, bytes⟩
  · rintro ⟨front, ⟨back, rfl⟩, rfl⟩
    exact ⟨_, divide?_append front back⟩

theorem slice?_append (front piece back : List Char) :
    slice? (front ++ (piece ++ back)) (byteCount front) (byteCount (front ++ piece)) =
      some piece := by
  rw [byteCount_append, slice?, if_pos (Nat.le_add_right ..), divide?_append,
    Nat.add_sub_cancel_left]
  simp only [Option.bind_eq_bind, Option.bind_some, divide?_append]

theorem moveBack_eq (upTo : UpTo text offset front) : moveBack text offset = byteCount front := by
  induction offset with
  | zero => exact (Nat.le_zero.mp upTo.fits).symm
  | succ offset inductionHypothesis =>
      rw [moveBack]
      split
      · next boundary =>
          obtain ⟨other, initial, bytes⟩ := isBoundary_iff.mp boundary
          have part := upTo.longest other initial bytes.le
          exact Nat.le_antisymm (bytes ▸ byteCount_le_of_isPrefix part) upTo.fits
      · next inside =>
          have different : byteCount front ≠ offset + 1 := fun same =>
            inside (isBoundary_iff.mpr ⟨front, upTo.initial, same⟩)
          have fits := upTo.fits
          refine inductionHypothesis ⟨upTo.initial, by omega, fun other initial otherFits => ?_⟩
          exact upTo.longest other initial (Nat.le_succ_of_le otherFits)

theorem charFloor_eq (upTo : UpTo text offset front) :
    charFloor text offset = byteCount front := by
  refine moveBack_eq ⟨upTo.initial, ?_, fun other initial fits => ?_⟩
  · exact Nat.le_min.mpr ⟨upTo.fits, byteCount_le_of_isPrefix upTo.initial⟩
  · exact upTo.longest other initial (fits.trans (Nat.min_le_left ..))

theorem trimEnd_append {c : Char} {rest run : List Char} (each : ∀ other ∈ run, other = c)
    (stops : c ∉ rest.getLast?) : trimEnd c (rest ++ run) = rest := by
  have all : ∀ other ∈ run.reverse, decide (other = c) = true := fun other member =>
    decide_eq_true (each other (List.mem_reverse.mp member))
  rw [trimEnd, List.reverse_append, List.dropWhile_append_of_pos all]
  cases shape : rest.reverse with
  | nil => rw [List.reverse_eq_nil_iff.mp shape]; rfl
  | cons last front =>
      have isLast : rest.getLast? = some last := by
        rw [← List.head?_reverse, shape, List.head?_cons]
      rw [List.dropWhile_cons_of_neg, ← shape, List.reverse_reverse]
      intro same
      rw [isLast, of_decide_eq_true same] at stops
      exact stops rfl

end Text

/-! ## The index -/

namespace LineIndex

/-- The byte offsets after the line feeds of a text that begins at the given offset. -/
def startsFrom (offset : Nat) : List Char → List Nat
  | [] => []
  | first :: text =>
      let next := offset + first.utf8Size
      if first = '\n' then next :: startsFrom next text else startsFrom next text

/-- The byte offsets at which the lines of a text begin. -/
def starts (text : List Char) : List Nat :=
  0 :: startsFrom 0 text

/-- How many entries satisfy a predicate. All others must come after them. -/
def partitionPoint? (p : Nat → Bool) (entries : List Nat) : Option Nat :=
  if (entries.dropWhile p).all (! p ·) then some (entries.takeWhile p).length else none

/-- The entry for a line, counted from one. -/
def startOf? (entries : List Nat) (number : Nat) : Option Nat :=
  if number = 0 then none else entries[number - 1]?

/-- The text of a line without its line end, or no text if there is no such line. -/
def line? (text : List Char) (number : Nat) : Option (List Char) :=
  match startOf? (starts text) number with
  | none => some []
  | some start =>
      let stop := (startOf? (starts text) (number + 1)).getD (Text.byteCount text)
      (Text.slice? text start stop).map fun line =>
        Text.trimEnd '\r' (Text.trimEnd '\n' line)

/-- The location of a span, which is looked up in the index. -/
def locate? (text : List Char) (span : Span) : Option Location := do
  let start := Text.charFloor text span.start
  let number ← partitionPoint? (· ≤ start) (starts text)
  let lineStart ← startOf? (starts text) number
  let line ← line? text number
  let stop := max (Text.charFloor text (min span.stop (lineStart + Text.byteCount line))) start
  let before ← Text.slice? text lineStart start
  let covered ← Text.slice? text start stop
  some
    { line := number
      column := before.length + 1
      text := String.ofList line
      width := max covered.length 1 }

theorem startsFrom_append (offset : Nat) (front back : List Char) :
    startsFrom offset (front ++ back) =
      startsFrom offset front ++ startsFrom (offset + Text.byteCount front) back := by
  induction front generalizing offset with
  | nil => rfl
  | cons first front inductionHypothesis =>
      rw [List.cons_append, startsFrom, startsFrom, inductionHypothesis, Text.byteCount_cons,
        Nat.add_assoc]
      split <;> rfl

theorem startsFrom_bounds (offset : Nat) (text : List Char) :
    ∀ start ∈ startsFrom offset text, offset < start ∧ start ≤ offset + Text.byteCount text := by
  induction text generalizing offset with
  | nil => exact List.forall_mem_nil _
  | cons first text inductionHypothesis =>
      have positive := first.utf8Size_pos
      have later : ∀ start ∈ startsFrom (offset + first.utf8Size) text,
          offset < start ∧ start ≤ offset + Text.byteCount (first :: text) := by
        intro start member
        have bounds := inductionHypothesis (offset + first.utf8Size) start member
        rw [Text.byteCount_cons]
        omega
      rw [startsFrom]
      split
      · refine List.forall_mem_cons.mpr ⟨?_, later⟩
        rw [Text.byteCount_cons]
        omega
      · exact later

theorem length_startsFrom (offset : Nat) (text : List Char) :
    (startsFrom offset text).length = text.count '\n' := by
  induction text generalizing offset with
  | nil => rfl
  | cons first text inductionHypothesis =>
      rw [startsFrom, List.count_cons]
      split
      · next newline =>
          rw [List.length_cons, inductionHypothesis, newline, beq_self_eq_true, if_pos rfl]
      · next other =>
          rw [inductionHypothesis, if_neg (by simpa using other), Nat.add_zero]

theorem partitionPoint?_append {p : Nat → Bool} {low high : List Nat}
    (each : ∀ entry ∈ low, p entry = true) (none : ∀ entry ∈ high, p entry = false) :
    partitionPoint? p (low ++ high) = some low.length := by
  have stops : high.dropWhile p = high ∧ high.takeWhile p = [] := by
    cases high with
    | nil => exact ⟨rfl, rfl⟩
    | cons first high =>
        have no := none first List.mem_cons_self
        simp [no]
  rw [partitionPoint?, List.dropWhile_append_of_pos each, List.takeWhile_append_of_pos each,
    stops.1, stops.2, List.append_nil, if_pos]
  exact List.all_eq_true.mpr fun entry member => by rw [none entry member]; rfl

/-- The lines up to a place are those that begin not after it. -/
theorem partitionPoint?_starts (front back : List Char) :
    partitionPoint? (· ≤ Text.byteCount front) (starts (front ++ back)) =
      some (1 + front.count '\n') := by
  rw [starts, startsFrom_append, ← List.cons_append, partitionPoint?_append]
  · rw [List.length_cons, length_startsFrom, Nat.add_comm]
  · refine List.forall_mem_cons.mpr ⟨decide_eq_true (Nat.zero_le _), fun entry member => ?_⟩
    have bounds := startsFrom_bounds 0 front entry member
    exact decide_eq_true (by omega)
  · intro entry member
    have bounds := startsFrom_bounds _ back entry member
    exact decide_eq_false (by omega)

/-- A line begins after the line feed of the line above. -/
theorem startOf?_starts {above : List Char} (ends : ∀ c ∈ above.getLast?, c = '\n')
    (rest : List Char) :
    startOf? (starts (above ++ rest)) (1 + above.count '\n') = some (Text.byteCount above) := by
  rw [startOf?, if_neg (by omega), Nat.add_sub_cancel_left, starts]
  rcases List.eq_nil_or_concat above with rfl | ⟨front, last, rfl⟩
  · rfl
  · rw [List.concat_eq_append] at ends ⊢
    obtain rfl := ends last (by rw [List.getLast?_concat]; rfl)
    rw [List.count_append, List.count_singleton_self, List.getElem?_cons_succ, List.append_assoc,
      startsFrom_append, List.getElem?_append_right (length_startsFrom ..).le,
      length_startsFrom, Nat.sub_self, Nat.zero_add, Text.byteCount_append]
    rfl

theorem startOf?_starts_of_last {text : List Char} {number : Nat}
    (last : text.count '\n' < number) : startOf? (starts text) (number + 1) = none := by
  rw [startOf?, if_neg (Nat.succ_ne_zero _), Nat.add_sub_cancel, starts]
  refine List.getElem?_eq_none ?_
  rw [List.length_cons, length_startsFrom]
  exact last

end LineIndex

/-! ## Places in the index -/

namespace Place

open LineIndex

variable {text : List Char} {span : Span} {place : Place}

theorem Of.count_front (isOf : place.Of text span) :
    place.front.count '\n' = place.above.count '\n' := by
  rw [front, List.count_append, List.count_eq_zero_of_not_mem isOf.newline_notMem_before,
    Nat.add_zero]

/-- The line goes on to the beginning of the next one, if there is one. -/
theorem Of.exists_lineEnd (isOf : place.Of text span) :
    ∃ lineEnd rest, place.below = lineEnd ++ rest ∧ (∀ c ∈ lineEnd, c = '\n') ∧
      (startOf? (starts text) (1 + place.above.count '\n' + 1)).getD (Text.byteCount text) =
        Text.byteCount (place.above ++ (place.line ++ place.returns ++ lineEnd)) := by
  have onLine := List.count_eq_zero_of_not_mem isOf.inLine
  have whole := isOf.whole
  have below := isOf.below
  rw [← List.append_assoc place.line] at whole
  cases shape : place.below with
  | nil =>
      refine ⟨[], [], rfl, List.forall_mem_nil _, ?_⟩
      have last : text.count '\n' < 1 + place.above.count '\n' := by
        rw [whole, shape, List.append_nil, List.count_append, onLine]
        omega
      rw [startOf?_starts_of_last last, whole, shape]
      rfl
  | cons c rest =>
      obtain rfl := below c (by rw [shape]; rfl)
      refine ⟨['\n'], rest, rfl, List.forall_mem_singleton.mpr rfl, ?_⟩
      have ends : ∀ c ∈ (place.above ++ (place.line ++ place.returns ++ ['\n'])).getLast?,
          c = '\n' := by
        rw [← List.append_assoc, List.getLast?_concat]
        exact fun c same => (Option.some.inj same).symm
      have entry := startOf?_starts ends rest
      rw [List.count_append, List.count_append, onLine, List.count_singleton_self,
        Nat.zero_add, ← Nat.add_assoc, List.append_assoc, List.append_assoc] at entry
      rw [whole, shape]
      exact congrArg (Option.getD · _) entry

theorem Of.line? (isOf : place.Of text span) :
    LineIndex.line? text (1 + place.front.count '\n') = some place.line := by
  obtain ⟨lineEnd, rest, shape, each, stop⟩ := isOf.exists_lineEnd
  have whole : text =
      place.above ++ (place.line ++ place.returns ++ lineEnd ++ rest) := by
    rw [isOf.whole, shape]
    simp only [List.append_assoc]
  have start : startOf? (starts text) (1 + place.above.count '\n') =
      some (Text.byteCount place.above) := by
    rw [whole]
    exact startOf?_starts isOf.above _
  have slice := Text.slice?_append place.above (place.line ++ place.returns ++ lineEnd) rest
  rw [← whole] at slice
  have inner : '\n' ∉ (place.line ++ place.returns).getLast? := fun last =>
    isOf.inLine (List.mem_of_getLast? last)
  simp only [LineIndex.line?, isOf.count_front, start, stop, slice, Option.map_some,
    Text.trimEnd_append each inner, Text.trimEnd_append isOf.returns isOf.trimmed]

theorem Of.byteCount_covered (isOf : place.Of text span) :
    place.front ++ place.covered <+: text ∧
      max (Text.byteCount place.upTo) (Text.byteCount place.front) =
        Text.byteCount (place.front ++ place.covered) := by
  rcases List.prefix_or_prefix_of_prefix isOf.start.initial isOf.stop.initial with
    ⟨more, same⟩ | part
  · have covered : place.covered = more := by rw [Place.covered, ← same, List.drop_left]
    rw [covered, same]
    refine ⟨isOf.stop.initial, Nat.max_eq_left ?_⟩
    exact Text.byteCount_le_of_isPrefix ⟨more, same⟩
  · have covered : place.covered = [] := List.drop_of_length_le part.length_le
    rw [covered, List.append_nil]
    exact ⟨isOf.start.initial, Nat.max_eq_right (Text.byteCount_le_of_isPrefix part)⟩

/-- Looking a span up in the index never fails, and finds its place. -/
theorem Of.locate? (isOf : place.Of text span) :
    LineIndex.locate? text span = some place.location := by
  obtain ⟨⟨rest, whole⟩, stop⟩ := isOf.byteCount_covered
  have number : partitionPoint? (· ≤ Text.byteCount place.front) (starts text) =
      some (1 + place.front.count '\n') := by
    rw [← whole, List.append_assoc]
    exact partitionPoint?_starts place.front _
  have start : startOf? (starts text) (1 + place.front.count '\n') =
      some (Text.byteCount place.above) := by
    rw [isOf.count_front, isOf.whole]
    exact startOf?_starts isOf.above _
  have before : Text.slice? text (Text.byteCount place.above) (Text.byteCount place.front) =
      some place.before := by
    rw [← whole, front, List.append_assoc, List.append_assoc]
    exact Text.slice?_append place.above place.before _
  have covered : Text.slice? text (Text.byteCount place.front)
      (Text.byteCount (place.front ++ place.covered)) = some place.covered := by
    have slice := Text.slice?_append place.front place.covered rest
    rwa [← List.append_assoc, whole] at slice
  simp only [LineIndex.locate?, Text.charFloor_eq isOf.start, number, start, isOf.line?,
    ← Text.byteCount_append, Text.charFloor_eq isOf.stop, stop, before, covered,
    Option.bind_eq_bind, Option.bind_some]
  rw [Nat.add_comm place.before.length, Nat.max_comm place.covered.length]
  rfl

end Place

theorem byteCount_front_of_isBoundary {text : List Char} {span : Span} {place : Place}
    (isOf : place.Of text span) (boundary : Text.isBoundary text span.start = true) :
    Text.byteCount place.front = span.start := by
  obtain ⟨front, ⟨back, rfl⟩, bytes⟩ := Text.isBoundary_iff.mp boundary
  have start := isOf.start
  rw [← bytes] at start ⊢
  rw [start.unique (Text.upTo_byteCount front back)]

/-- Every span has a location, which is that of the place where it begins:
* It is found with the index of lines, and no step of that fails.
* The marks under the line stay within its text, unless they stand for nothing there.
* Offsets between characters are located in lexicographic order, so that the line and the
  column of such an offset tell the offset. -/
theorem locate_exact (source : String) :
    (∀ span, ∃ place : Place, place.Of source.toList span ∧
      LineIndex.locate? source.toList span = some (locate source span) ∧
      locate source span = place.location ∧
      (locate source span).column - 1 + (locate source span).width ≤
        max (locate source span).text.length (locate source span).column) ∧
    ∀ first second : Span, Text.isBoundary source.toList first.start = true →
      Text.isBoundary source.toList second.start = true →
        let location := locate source first
        let other := locate source second
        (first.start < second.start → location.line < other.line ∨
          location.line = other.line ∧ location.column < other.column) ∧
        (location.line = other.line → location.column = other.column →
          first.start = second.start) := by
  refine ⟨fun span => ?_, fun first second boundary otherBoundary => ?_⟩
  · obtain ⟨place, isOf, located⟩ := exists_place source span
    rw [located]
    exact ⟨place, isOf, isOf.locate?, rfl, isOf.width_le⟩
  · obtain ⟨place, isOf, located⟩ := exists_place source first
    obtain ⟨other, otherIsOf, otherLocated⟩ := exists_place source second
    have start := byteCount_front_of_isBoundary isOf boundary
    have otherStart := byteCount_front_of_isBoundary otherIsOf otherBoundary
    rw [located, otherLocated, ← start, ← otherStart]
    refine ⟨isOf.location_lt otherIsOf, fun line column => ?_⟩
    -- Neither of two places with one line and column comes before the other.
    rcases Nat.lt_trichotomy (Text.byteCount place.front) (Text.byteCount other.front) with
      earlier | same | later
    · have apart := isOf.location_lt otherIsOf earlier
      omega
    · exact same
    · have apart := otherIsOf.location_lt isOf later
      omega

/-- On both sides of a line end with a carriage return. -/
theorem locate_exact_lineEnd :
    let source := "é\r\nb"
    Text.isBoundary source.toList 3 = true ∧ Text.isBoundary source.toList 4 = true ∧
      locate source ⟨3, 9⟩ = ⟨1, 3, "é", 1⟩ ∧ locate source ⟨4, 9⟩ = ⟨2, 1, "b", 1⟩ ∧
        ((locate source ⟨3, 9⟩).line < (locate source ⟨4, 9⟩).line ∨
          (locate source ⟨3, 9⟩).line = (locate source ⟨4, 9⟩).line ∧
            (locate source ⟨3, 9⟩).column < (locate source ⟨4, 9⟩).column) := by
  intro source
  have boundary : Text.isBoundary source.toList 3 = true := by decide
  have otherBoundary : Text.isBoundary source.toList 4 = true := by decide
  refine ⟨boundary, otherBoundary, by decide, by decide, ?_⟩
  exact ((locate_exact source).2 ⟨3, 9⟩ ⟨4, 9⟩ boundary otherBoundary).1 (by decide)

end ExprMachine
