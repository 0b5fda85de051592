import ExprMachine.Diagnostic.Rendering
import ExprMachine.Proofs.Json.Literals
import ExprMachine.Proofs.Location.Lines

/-!
# Carets under the source

A diagnostic for people shows the line that its label points at, with carets below. Without
colour each character takes one column, and the carets stand in the columns of the characters
that the label covers on this line. Where it covers none, one caret stands where it begins.
-/

namespace ExprMachine

/-- The rows that show a place in the source. What is said about it goes on after the marks. -/
structure Rows where
  arrow : List Char
  above : List Char
  shown : List Char
  marks : List Char
  remark : List Char
  below : List Char

namespace Rows

/-- The rows one below the other. -/
def text (rows : Rows) : List Char :=
  rows.arrow ++ '\n' :: (rows.above ++ '\n' :: (rows.shown ++ '\n' ::
    (rows.marks ++ (rows.remark ++ '\n' :: (rows.below ++ ['\n'])))))

/-- A text goes on with the rows after its header. No row goes over the end of its line. -/
structure Follow (rows : Rows) (header text : List Char) : Prop where
  whole : header ++ rows.text <+: text
  rows : ∀ row ∈ [rows.arrow, rows.above, rows.shown, rows.marks, rows.below], '\n' ∉ row

/-- The number of columns that the number of a line takes. -/
def gutter (place : Place) : Nat :=
  (toString place.location.line).length

/-- The first column of marks under a place: they stand behind the bar and a blank. -/
def start (place : Place) : Nat :=
  gutter place + 3 + place.before.length

/-- The rows show the line of a place, with marks under what is covered from there on. -/
structure Point (rows : Rows) (place : Place) : Prop where
  arrow : String.ofList rows.arrow =
    "  --> " ++ toString place.location.line ++ ":" ++ toString place.location.column
  bar : ∀ row ∈ [rows.above, rows.shown, rows.marks, rows.below],
    row[gutter place + 1]? = some '|' ∧ '|' ∉ row.take (gutter place + 1)
  number : rows.shown.take (gutter place) = (toString place.location.line).toList
  text : rows.shown.drop (gutter place + 3) = place.line
  lead : rows.marks.take (start place) = List.replicate (gutter place + 1) ' ' ++
    '|' :: List.replicate (place.before.length + 1) ' '
  marks : ∀ column, rows.marks[column]? = some '^' ↔
    start place ≤ column ∧ column < start place + max 1 place.covered.length
  under : place.covered ≠ [] →
    (rows.shown.drop (start place)).take place.covered.length = place.covered

/-! ## Rows of a location -/

/-- The rows that are shown for a location. -/
def ofLocation (location : Location) (message : String) : Rows :=
  let number := (toString location.line).toList
  let pad := List.replicate number.length ' '
  { arrow := [' ', ' ', '-', '-', '>', ' '] ++ number ++
      ':' :: (toString location.column).toList
    above := pad ++ [' ', '|']
    shown := number ++ [' ', '|', ' '] ++ location.text.toList
    marks := pad ++ [' ', '|', ' '] ++ List.replicate (location.column - 1) ' ' ++
      List.replicate location.width '^'
    remark := if message.isEmpty then [] else ' ' :: message.toList
    below := pad ++ [' ', '|'] }

end Rows

theorem Rows.toList_remark (location : Location) (message : String) :
    (if message.isEmpty then "" else " " ++ Style.boldRed.paint false message).toList =
      (ofLocation location message).remark := by
  change _ = if message.isEmpty then [] else ' ' :: message.toList
  split
  · rfl
  · rw [String.toList_append]
    rfl

theorem Diagnostic.toList_snippet (label : Label) (location : Location) :
    (snippet label location false).toList =
      (Rows.ofLocation location label.message).text := by
  have remark := Rows.toList_remark location label.message
  unfold snippet
  simp only [Style.paint, Bool.false_eq_true, if_false, String.toList_append] at remark ⊢
  simp only [remark, repeated, String.toList_ofList, Rows.text, Rows.ofLocation,
    String.length_toList]
  generalize (toString location.line).toList = number
  generalize (toString location.column).toList = column
  simp

/-! ## What the rows show -/

namespace Rows

variable {place : Place} {text : List Char} {span : Span} {message : String}

/-- A character that is not met before is found where it is repeated. -/
theorem getElem?_append_replicate_iff {lead : List Char} {c : Char} (absent : c ∉ lead)
    (count index : Nat) : (lead ++ List.replicate count c)[index]? = some c ↔
      lead.length ≤ index ∧ index < lead.length + count := by
  by_cases before : index < lead.length
  · rw [List.getElem?_append_left before]
    constructor
    · exact fun found => absurd (List.mem_of_getElem? found) absent
    · omega
  · rw [List.getElem?_append_right (Nat.le_of_not_lt before), List.getElem?_replicate]
    simp
    omega

theorem bar_append {front back : List Char} {column : Nat} (length : front.length = column)
    (absent : '|' ∉ front) :
    (front ++ '|' :: back)[column]? = some '|' ∧ '|' ∉ (front ++ '|' :: back).take column := by
  subst length
  rw [List.take_left, List.getElem?_append_right (Nat.le_refl _), Nat.sub_self]
  exact ⟨rfl, absent⟩

theorem notMem_toDigits {c : Char} (noDigit : c.isDigit = false) (value : Nat) :
    c ∉ Nat.toDigits 10 value := by
  intro member
  cases noDigit.symm.trans (Json.isDigit_of_toDigits member)

theorem above_ofLocation (place : Place) (message : String) :
    (ofLocation place.location message).above =
      List.replicate (gutter place + 1) ' ' ++ ['|'] := by
  rw [List.replicate_succ', List.append_assoc, gutter, ← String.length_toList]
  rfl

theorem shown_ofLocation (place : Place) (message : String) :
    (ofLocation place.location message).shown =
      (toString place.location.line).toList ++ [' ', '|', ' '] ++ place.line :=
  congrArg (_ ++ ·) String.toList_ofList

theorem drop_shown (place : Place) (message : String) :
    (ofLocation place.location message).shown.drop (gutter place + 3) = place.line := by
  rw [shown_ofLocation]
  refine List.drop_left' ?_
  rw [List.length_append, String.length_toList]
  rfl

/-- What stands before the marks. -/
theorem marks_ofLocation (place : Place) (message : String) :
    (ofLocation place.location message).marks =
      (List.replicate (gutter place + 1) ' ' ++ '|' ::
        List.replicate (place.before.length + 1) ' ') ++
          List.replicate (max 1 place.covered.length) '^' := by
  have column : place.location.column - 1 = place.before.length := Nat.add_sub_cancel_left ..
  rw [List.replicate_succ', List.replicate_succ]
  simp only [ofLocation, column, String.length_toList, gutter, List.append_assoc]
  rfl

theorem bar_ofLocation (place : Place) (message : String) :
    let rows := ofLocation place.location message
    ∀ row ∈ [rows.above, rows.shown, rows.marks, rows.below],
      row[gutter place + 1]? = some '|' ∧ '|' ∉ row.take (gutter place + 1) := by
  intro rows
  have blanks : '|' ∉ List.replicate (gutter place + 1) ' ' := by simp
  have edge : rows.above[gutter place + 1]? = some '|' ∧
      '|' ∉ rows.above.take (gutter place + 1) := by
    rw [above_ofLocation]
    exact bar_append List.length_replicate blanks
  have shown : rows.shown[gutter place + 1]? = some '|' ∧
      '|' ∉ rows.shown.take (gutter place + 1) := by
    have shape : rows.shown = ((toString place.location.line).toList ++ [' ']) ++
        '|' :: ' ' :: place.line := by
      rw [shown_ofLocation]
      simp
    rw [shape]
    refine bar_append ?_ ?_
    · rw [List.length_append, String.length_toList]
      rfl
    · simp [notMem_toDigits]
  have marks : rows.marks[gutter place + 1]? = some '|' ∧
      '|' ∉ rows.marks.take (gutter place + 1) := by
    rw [marks_ofLocation, List.append_assoc]
    exact bar_append List.length_replicate blanks
  simp only [List.forall_mem_cons]
  exact ⟨edge, shown, marks, edge, List.forall_mem_nil _⟩

theorem point_ofLocation (isOf : place.Of text span) :
    (ofLocation place.location message).Point place where
  arrow := by
    apply String.toList_injective
    simp [ofLocation]
  bar := bar_ofLocation place message
  number := by
    rw [shown_ofLocation, List.append_assoc]
    exact List.take_left' String.length_toList
  text := drop_shown place message
  lead := by
    rw [marks_ofLocation]
    refine List.take_left' ?_
    simp [start]
    omega
  marks := by
    intro column
    rw [marks_ofLocation, getElem?_append_replicate_iff (by simp)]
    simp [start]
    omega
  under := by
    intro some
    obtain ⟨rest, shape⟩ := isOf.covered_isPrefix some
    rw [start, ← List.drop_drop, drop_shown, ← shape, List.append_assoc, List.drop_left,
      List.take_left]

theorem newline_notMem_ofLocation (isOf : place.Of text span) :
    let rows := ofLocation place.location message
    ∀ row ∈ [rows.arrow, rows.above, rows.shown, rows.marks, rows.below], '\n' ∉ row := by
  intro rows
  have onLine : '\n' ∉ place.line := fun inside => isOf.inLine (List.mem_append_left _ inside)
  have arrow : '\n' ∉ rows.arrow := by simp [rows, ofLocation, notMem_toDigits]
  have edge : '\n' ∉ rows.above := by simp [rows, above_ofLocation]
  have shown : '\n' ∉ rows.shown := by simp [rows, shown_ofLocation, notMem_toDigits, onLine]
  have marks : '\n' ∉ rows.marks := by simp [rows, marks_ofLocation]
  simp only [List.forall_mem_cons]
  exact ⟨arrow, edge, shown, marks, edge, List.forall_mem_nil _⟩

end Rows

namespace Diagnostic

theorem snippet_isPrefix_render {diagnostic : Diagnostic} {label : Label} {source : String}
    (isLabel : diagnostic.label = some label) (isSource : diagnostic.source = some source) :
    (diagnostic.header false).toList ++
      (snippet label (locate source label.span) false).toList <+:
        (diagnostic.render false).toList := by
  unfold render
  simp only [isLabel, isSource, String.toList_append, List.append_assoc]
  exact ⟨_, List.append_assoc ..⟩

/-- A diagnostic with a label and a source shows the line on which the label begins, below
its header:
* The row with the arrow names the line and the column of that place.
* All rows below it have a bar in one column, with blanks or the number of the line before
  it, and the line is shown behind the bar and a blank.
* Below the characters of this line that the label covers there are carets, and no others
  before the remark. If it covers none, there is one caret where the label begins. Before
  the carets there are only the bar and blanks. -/
theorem render_carets {diagnostic : Diagnostic} {label : Label} {source : String}
    (isLabel : diagnostic.label = some label) (isSource : diagnostic.source = some source) :
    ∃ (place : Place) (rows : Rows), place.Of source.toList label.span ∧
      locate source label.span = place.location ∧
      rows.Follow (diagnostic.header false).toList (diagnostic.render false).toList ∧
        rows.Point place ∧
          rows.remark = if label.message.isEmpty then [] else ' ' :: label.message.toList := by
  obtain ⟨place, isOf, located⟩ := exists_place source label.span
  have shown := snippet_isPrefix_render isLabel isSource
  rw [located, toList_snippet] at shown
  exact ⟨place, Rows.ofLocation place.location label.message, isOf, located,
    ⟨shown, Rows.newline_notMem_ofLocation isOf⟩, Rows.point_ofLocation isOf, rfl⟩

/-- The label begins after a character of two bytes and goes on past the end of its line. -/
theorem render_carets_accented :
    let source := "1;\né + 2\r\n3"
    let label : Label := ⟨⟨6, 12⟩, "here"⟩
    let diagnostic : Diagnostic := ⟨none, "m", some label, [], none, some source⟩
    diagnostic.label = some label ∧ diagnostic.source = some source ∧
      diagnostic.render false =
        "error: m\n  --> 2:3\n  |\n2 | é + 2\n  |   ^^^ here\n  |\n" ∧
      ∃ (place : Place) (rows : Rows), place.Of source.toList label.span ∧
        locate source label.span = place.location ∧
        rows.Follow (diagnostic.header false).toList (diagnostic.render false).toList ∧
          rows.Point place ∧ rows.remark = " here".toList := by
  refine ⟨rfl, rfl, by decide +kernel, ?_⟩
  exact render_carets rfl rfl

end Diagnostic

end ExprMachine
