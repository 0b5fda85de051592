import ExprMachine.Proofs.Location

/-!
# Locations of any span

A span may begin and end anywhere: past the end of the text, inside a character, or with
its end first. Its location is told here by cutting the text around the line on which the
span begins. Offsets between characters are located in the order in which they stand.
-/

namespace ExprMachine

namespace Text

variable {text front back other upTo : List Char} {offset : Nat}

/-! ## Offsets -/

theorem byteCount_le_of_isPrefix (initial : front <+: text) :
    byteCount front ≤ byteCount text := by
  obtain ⟨rest, rfl⟩ := initial
  rw [byteCount_append]
  exact Nat.le_add_right ..

theorem eq_of_isPrefix_of_byteCount_le (initial : front <+: text)
    (all : byteCount text ≤ byteCount front) : front = text := by
  obtain ⟨rest, rfl⟩ := initial
  have nothing := length_le_byteCount rest
  rw [byteCount_append] at all
  rw [List.eq_nil_of_length_eq_zero (l := rest) (by omega), List.append_nil]

/-- The text goes up to the last place between characters that is not after the offset. An
offset past the end is moved back to the end, and one inside a character to its start. -/
structure UpTo (text : List Char) (offset : Nat) (front : List Char) : Prop where
  initial : front <+: text
  fits : byteCount front ≤ offset
  longest : ∀ other, other <+: text → byteCount other ≤ offset → other <+: front

theorem UpTo.unique (upTo : UpTo text offset front) (otherUpTo : UpTo text offset other) :
    front = other :=
  (otherUpTo.longest front upTo.initial upTo.fits).eq_of_length_le
    (upTo.longest other otherUpTo.initial otherUpTo.fits).length_le

/-- An offset between characters is not moved. -/
theorem upTo_byteCount (front back : List Char) :
    UpTo (front ++ back) (byteCount front) front where
  initial := List.prefix_append front back
  fits := Nat.le_refl _
  longest := by
    intro other initial fits
    rcases List.prefix_or_prefix_of_prefix initial (List.prefix_append front back) with
      part | part
    · exact part
    · rw [eq_of_isPrefix_of_byteCount_le part fits]

/-- Moving past characters as long as they fit leads up to the offset. -/
theorem exists_advance (offset : Nat) (seen text : List Char) :
    ∃ front back, text = front ++ back ∧
      Location.advance offset seen text = (front.reverse ++ seen, back) ∧
        UpTo text offset front := by
  fun_induction Location.advance offset seen text with
  | case1 offset seen =>
      refine ⟨[], [], rfl, rfl, ⟨List.prefix_refl _, Nat.zero_le _, ?_⟩⟩
      exact fun other initial _ => initial
  | case2 offset seen first text fits inductionHypothesis =>
      obtain ⟨front, back, rfl, moved, upTo⟩ := inductionHypothesis
      have front_fits := upTo.fits
      refine ⟨first :: front, back, rfl, ?_, ?_, ?_, ?_⟩
      · rw [moved, List.reverse_cons, List.append_assoc]
        rfl
      · exact List.prefix_append (first :: front) back
      · rw [byteCount_cons]
        omega
      · intro other initial otherFits
        obtain rfl | ⟨more, rfl, moreInitial⟩ := List.prefix_cons_iff.mp initial
        · exact List.nil_prefix
        · rw [byteCount_cons] at otherFits
          exact List.cons_prefix_cons.mpr ⟨rfl, upTo.longest more moreInitial (by omega)⟩
  | case3 offset seen first text tooLarge =>
      refine ⟨[], first :: text, rfl, rfl, List.nil_prefix, Nat.zero_le _, ?_⟩
      intro other initial otherFits
      obtain rfl | ⟨more, rfl, _⟩ := List.prefix_cons_iff.mp initial
      · exact List.prefix_refl _
      · rw [byteCount_cons] at otherFits
        omega

/-- From a place on, the text up to an offset is what can be moved past there. -/
theorem UpTo.drop (upTo : UpTo (front ++ back) offset other) {covered : List Char}
    (further : UpTo back (offset - byteCount front) covered) :
    covered = other.drop front.length := by
  by_cases inside : byteCount front ≤ offset
  · obtain ⟨more, rfl⟩ := upTo.longest front (List.prefix_append front back) inside
    have fits := upTo.fits
    rw [byteCount_append] at fits
    rw [List.drop_left]
    refine further.unique ⟨?_, by omega, fun next initial nextFits => ?_⟩
    · exact (List.prefix_append_right_inj front).mp upTo.initial
    · refine (List.prefix_append_right_inj front).mp (upTo.longest _ ?_ ?_)
      · exact (List.prefix_append_right_inj front).mpr initial
      · rw [byteCount_append]
        omega
  · have nothing := (length_le_byteCount covered).trans further.fits
    have earlier : other <+: front := by
      rcases List.prefix_or_prefix_of_prefix upTo.initial (List.prefix_append front back) with
        part | part
      · exact part
      · exact absurd ((byteCount_le_of_isPrefix part).trans upTo.fits) inside
    rw [List.drop_of_length_le earlier.length_le]
    exact List.eq_nil_of_length_eq_zero (by omega)

end Text

/-! ## Places -/

/-- A text cut where a span begins: the lines above, the part of the line before that place,
the whole line, the carriage returns at its end, and what comes below. Of the end of the
span it tells the text up to it. -/
structure Place where
  above : List Char
  before : List Char
  line : List Char
  returns : List Char
  below : List Char
  upTo : List Char

namespace Place

/-- The text before the place. -/
def front (place : Place) : List Char :=
  place.above ++ place.before

/-- The characters from the place to the end of the span. -/
def covered (place : Place) : List Char :=
  place.upTo.drop place.front.length

def location (place : Place) : Location where
  line := 1 + place.front.count '\n'
  column := 1 + place.before.length
  text := String.ofList place.line
  width := max 1 place.covered.length

/-- The text is cut where the span begins. The line goes from one line feed to the next one,
and is followed by all of the carriage returns before that. The end of the span is moved
back to the end of the line. -/
structure Of (text : List Char) (span : Span) (place : Place) : Prop where
  whole : text = place.above ++ (place.line ++ (place.returns ++ place.below))
  above : ∀ c ∈ place.above.getLast?, c = '\n'
  inLine : '\n' ∉ place.line ++ place.returns
  below : ∀ c ∈ place.below.head?, c = '\n'
  returns : ∀ c ∈ place.returns, c = '\r'
  trimmed : '\r' ∉ place.line.getLast?
  start : Text.UpTo text span.start place.front
  onLine : place.before <+: place.line ++ place.returns
  stop : Text.UpTo text (min span.stop (Text.byteCount (place.above ++ place.line)))
    place.upTo

variable {text : List Char} {span : Span} {place : Place}

/-- What the span covers stands on its line. -/
theorem Of.covered_isPrefix (isOf : place.Of text span) (some : place.covered ≠ []) :
    place.before ++ place.covered <+: place.line := by
  have longer : place.front.length < place.upTo.length := by
    rw [covered] at some
    exact Nat.lt_of_not_le fun short => some (List.drop_of_length_le short)
  have lineInitial : place.above ++ place.line <+: text := by
    rw [isOf.whole, ← List.append_assoc]
    exact List.prefix_append _ _
  have fits := isOf.stop.fits
  have upToLine : place.upTo <+: place.above ++ place.line := by
    rcases List.prefix_or_prefix_of_prefix isOf.stop.initial lineInitial with part | part
    · exact part
    · rw [Text.eq_of_isPrefix_of_byteCount_le part (fits.trans (Nat.min_le_right ..))]
  have frontUpTo : place.front <+: place.upTo :=
    List.prefix_of_prefix_length_le isOf.start.initial isOf.stop.initial longer.le
  have shape : place.above ++ (place.before ++ place.covered) = place.upTo := by
    obtain ⟨more, same⟩ := frontUpTo
    rw [covered, ← same, List.drop_left, ← List.append_assoc]
    rfl
  rw [← shape] at upToLine
  exact (List.prefix_append_right_inj _).mp upToLine

/-- The marks do not go past the end of the line, unless they stand for nothing there. -/
theorem Of.width_le (isOf : place.Of text span) :
    place.location.column - 1 + place.location.width ≤
      max place.location.text.length place.location.column := by
  change 1 + place.before.length - 1 + max 1 place.covered.length ≤
    max (String.ofList place.line).length (1 + place.before.length)
  rw [String.length_ofList]
  by_cases nothing : place.covered = []
  · rw [nothing]
    simp only [List.length_nil]
    omega
  · have lengths := (isOf.covered_isPrefix nothing).length_le
    have positive := List.length_pos_iff.mpr nothing
    rw [List.length_append] at lengths
    omega

/-! ## Order -/

theorem Of.newline_notMem_before (isOf : place.Of text span) : '\n' ∉ place.before :=
  fun member => isOf.inLine (isOf.onLine.subset member)

/-- A text has one last line. -/
theorem before_unique {above before otherAbove otherBefore : List Char}
    (same : above ++ before = otherAbove ++ otherBefore)
    (ends : ∀ c ∈ above.getLast?, c = '\n') (inLine : '\n' ∉ before)
    (otherEnds : ∀ c ∈ otherAbove.getLast?, c = '\n') (otherInLine : '\n' ∉ otherBefore) :
    before = otherBefore := by
  have onlyEmpty {rest middle line : List Char}
      (ends : ∀ c ∈ (rest ++ middle).getLast?, c = '\n') (inLine : '\n' ∉ middle ++ line) :
      middle = [] := by
    by_contra nonempty
    have last := List.getLast?_eq_some_getLast nonempty
    have newline := ends (middle.getLast nonempty) (by
      rw [List.getLast?_append_of_ne_nil _ nonempty, last]
      rfl)
    refine inLine (List.mem_append_left _ ?_)
    rw [← newline]
    exact List.getLast_mem nonempty
  obtain ⟨middle, rfl, rfl⟩ | ⟨middle, rfl, rfl⟩ := List.append_eq_append_iff.mp same
  · rw [onlyEmpty otherEnds inLine, List.nil_append]
  · rw [onlyEmpty ends otherInLine, List.nil_append]

/-- A later place is on a later line, or in a later column of the same line. -/
theorem Of.location_lt {other : Place} {otherSpan : Span} (isOf : place.Of text span)
    (otherIsOf : other.Of text otherSpan)
    (later : Text.byteCount place.front < Text.byteCount other.front) :
    place.location.line < other.location.line ∨
      place.location.line = other.location.line ∧
        place.location.column < other.location.column := by
  obtain ⟨more, shape⟩ : place.front <+: other.front := by
    rcases List.prefix_or_prefix_of_prefix isOf.start.initial otherIsOf.start.initial with
      part | part
    · exact part
    · exact absurd (Text.byteCount_le_of_isPrefix part) (Nat.not_le_of_lt later)
  have nonempty : more ≠ [] := by
    rintro rfl
    rw [← shape, List.append_nil] at later
    exact Nat.lt_irrefl _ later
  change 1 + place.front.count '\n' < 1 + other.front.count '\n' ∨
    1 + place.front.count '\n' = 1 + other.front.count '\n' ∧
      1 + place.before.length < 1 + other.before.length
  rw [← shape, List.count_append]
  by_cases newline : '\n' ∈ more
  · have positive := List.count_pos_iff.mpr newline
    omega
  · have longer : place.before ++ more = other.before := by
      refine before_unique ?_ isOf.above ?_ otherIsOf.above otherIsOf.newline_notMem_before
      · rw [← List.append_assoc]
        exact shape
      · simp [isOf.newline_notMem_before, newline]
    have positive := List.length_pos_iff.mpr nonempty
    rw [List.count_eq_zero_of_not_mem newline, ← longer, List.length_append]
    omega

end Place

namespace Location

/-- The characters at the end of a text that a run takes away, and what is left. -/
theorem trailing_run (p : Char → Bool) (text : List Char) :
    text = (text.reverse.dropWhile p).reverse ++ (text.reverse.takeWhile p).reverse ∧
      (∀ c ∈ (text.reverse.takeWhile p).reverse, p c = true) ∧
        ∀ c ∈ (text.reverse.dropWhile p).reverse.getLast?, p c = false := by
  refine ⟨?_, fun c member => List.mem_takeWhile_imp (List.mem_reverse.mp member), ?_⟩
  · rw [← List.reverse_append, List.takeWhile_append_dropWhile, List.reverse_reverse]
  · intro c last
    have first := List.head?_dropWhile_not p text.reverse
    rw [← List.getLast?_reverse, Option.mem_def.mp last] at first
    simpa using first

end Location

namespace Place

/-- The text is cut around the line between two parts of it. -/
def cut (front back upTo : List Char) : Place :=
  let line := Location.lineBefore front ++ back.takeWhile Text.isInLine
  { above := (front.reverse.dropWhile Text.isInLine).reverse
    before := Location.lineBefore front
    line := Location.withoutReturns line
    returns := (line.reverse.takeWhile (· = '\r')).reverse
    below := back.dropWhile Text.isInLine
    upTo := upTo }

variable (front back upTo : List Char)

theorem front_cut : (cut front back upTo).front = front :=
  (Location.trailing_run Text.isInLine front).1.symm

theorem line_cut : (cut front back upTo).line ++ (cut front back upTo).returns =
    Location.lineBefore front ++ back.takeWhile Text.isInLine :=
  (Location.trailing_run (· = '\r') _).1.symm

variable {front back upTo} {text : List Char} {span : Span}

theorem of_cut (start : Text.UpTo (front ++ back) span.start front)
    (stop : Text.UpTo (front ++ back)
      (min span.stop (Text.byteCount ((cut front back upTo).above ++ (cut front back upTo).line)))
      upTo) :
    (cut front back upTo).Of (front ++ back) span := by
  have line := line_cut front back upTo
  obtain ⟨_, beforeInLine, aboveEnds⟩ := Location.trailing_run Text.isInLine front
  obtain ⟨_, areReturns, trimmed⟩ := Location.trailing_run (· = '\r')
    (Location.lineBefore front ++ back.takeWhile Text.isInLine)
  constructor
  case whole =>
    rw [← List.append_assoc (cut front back upTo).line, line, List.append_assoc,
      ← List.append_assoc (cut front back upTo).above]
    change _ = (cut front back upTo).front ++ (_ ++ back.dropWhile Text.isInLine)
    rw [front_cut, List.takeWhile_append_dropWhile]
  case above =>
    intro c last
    simpa [Text.isInLine] using aboveEnds c last
  case inLine =>
    rw [line]
    intro member
    rcases List.mem_append.mp member with earlier | later
    · cases beforeInLine _ earlier
    · cases List.mem_takeWhile_imp later
  case below =>
    intro c first
    have ends := List.head?_dropWhile_not Text.isInLine back
    change (back.dropWhile Text.isInLine).head? = some c at first
    rw [first] at ends
    simpa [Text.isInLine] using ends
  case returns =>
    intro c member
    simpa using areReturns c member
  case trimmed =>
    intro last
    simpa using trimmed _ last
  case start =>
    rw [front_cut]
    exact start
  case onLine =>
    rw [line]
    exact List.prefix_append _ _
  case stop => exact stop

end Place

/-- The location of a span is that of the place at which it begins. -/
theorem exists_place (source : String) (span : Span) :
    ∃ place : Place, place.Of source.toList span ∧ locate source span = place.location := by
  obtain ⟨front, back, whole, moved, start⟩ :=
    Text.exists_advance span.start [] source.toList
  let line := Location.withoutReturns
    (Location.lineBefore front ++ back.takeWhile Text.isInLine)
  let above := (front.reverse.dropWhile Text.isInLine).reverse
  let stop := min span.stop (Text.byteCount (above ++ line))
  obtain ⟨upTo, _, _, _, isUpTo⟩ := Text.exists_advance stop [] source.toList
  obtain ⟨covered, rest, _, movedFurther, further⟩ :=
    Text.exists_advance (stop - Text.byteCount front) [] back
  rw [whole] at start isUpTo
  refine ⟨Place.cut front back upTo, ?_, ?_⟩
  · rw [whole]
    exact Place.of_cut start isUpTo
  · have placeCovered : (Place.cut front back upTo).covered = covered := by
      rw [Place.covered, Place.front_cut]
      exact (isUpTo.drop further).symm
    have bytes : Text.byteCount front = Text.byteCount above +
        Text.byteCount (Location.lineBefore front) := by
      rw [← Text.byteCount_append]
      exact congrArg Text.byteCount (Place.front_cut front back upTo).symm
    have lineStart : Text.byteCount front - Text.byteCount (Location.lineBefore front) +
        Text.byteCount line = Text.byteCount (above ++ line) := by
      rw [bytes, Nat.add_sub_cancel, Text.byteCount_append]
    have before : front.reverse.takeWhile Text.isInLine =
        (Location.lineBefore front).reverse := (List.reverse_reverse _).symm
    have width := congrArg (List.length ∘ Prod.fst) movedFurther
    simp only [Function.comp, List.append_nil, List.length_reverse] at width
    simp only [locate, moved, List.append_nil, before, List.reverse_reverse,
      Text.byteCount_reverse, Place.location, placeCovered, Place.front_cut]
    rw [lineStart, width, List.length_reverse, List.count_reverse, Nat.add_comm 1, Nat.add_comm 1]
    rfl

end ExprMachine
