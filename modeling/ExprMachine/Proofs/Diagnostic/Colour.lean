import ExprMachine.Proofs.Diagnostic.Carets

/-!
# Colour

A rendered diagnostic is made of pieces, which are the same with and without colour. With
colour a piece that has a style stands between the escape sequence that opens the style
and the one that resets it. When no text of the diagnostic has escape characters, there are
no others: deleting all escape sequences takes the colour away, and nothing else.
-/

namespace ExprMachine

/-! ## Escape sequences -/

namespace Style

/-- The character that begins every escape sequence. -/
def escape : Char := '\x1b'

/-- Deletes every escape sequence: an escape character with an opening bracket, and all
that comes after them up to the next `m`. Without this `m` they are no sequence. -/
def withoutSequences : List Char → List Char
  | [] => []
  | '\x1b' :: '[' :: text =>
      if 'm' ∈ text then withoutSequences (text.dropWhile (· ≠ 'm')).tail
      else '\x1b' :: '[' :: text
  | c :: text => c :: withoutSequences text
termination_by text => text.length
decreasing_by
  · have shorter := (List.dropWhile_sublist (l := text) (· ≠ 'm')).length_le
    rw [List.length_tail, List.length_cons, List.length_cons]
    omega
  · exact Nat.lt_succ_self _

/-- The text is an escape sequence, and nothing more. -/
def IsSequence (text : List Char) : Prop :=
  ∃ parameters, text = escape :: '[' :: (parameters ++ ['m']) ∧
    'm' ∉ parameters ∧ escape ∉ parameters

variable {text front : List Char}

theorem withoutSequences_append (noEscape : escape ∉ front) (back : List Char) :
    withoutSequences (front ++ back) = front ++ withoutSequences back := by
  induction front with
  | nil => rfl
  | cons c front inductionHypothesis =>
      obtain ⟨other, later⟩ : escape ≠ c ∧ escape ∉ front := by simpa using noEscape
      rw [List.cons_append, withoutSequences.eq_def]
      split
      · next shape => cases shape
      · next shape => exact absurd (List.cons.inj shape).1.symm other
      · next shape =>
          obtain ⟨rfl, rfl⟩ := List.cons.inj shape
          rw [inductionHypothesis later]
          rfl

theorem withoutSequences_of_notMem (noEscape : escape ∉ text) :
    withoutSequences text = text := by
  have kept := withoutSequences_append noEscape []
  rwa [List.append_nil, withoutSequences, List.append_nil] at kept

theorem IsSequence.withoutSequences_append (isSequence : IsSequence text)
    (back : List Char) : withoutSequences (text ++ back) = withoutSequences back := by
  obtain ⟨parameters, rfl, noEnd, _⟩ := isSequence
  have shape : escape :: '[' :: (parameters ++ ['m']) ++ back =
      '\x1b' :: '[' :: (parameters ++ 'm' :: back) := by
    simp [escape]
  have skipped : (parameters ++ 'm' :: back).dropWhile (· ≠ 'm') = 'm' :: back := by
    rw [List.dropWhile_append_of_pos fun c member => ?_]
    · rfl
    · exact decide_eq_true fun same : c = 'm' => noEnd (same ▸ member)
  rw [shape, withoutSequences, if_pos (by simp), skipped, List.tail_cons]

/-- An escape character is not in a text that has none, so it comes later. -/
theorem exists_later_of_notMem {rest before after : List Char} (noEscape : escape ∉ front)
    (split : front ++ rest = before ++ escape :: after) :
    ∃ more, before = front ++ more ∧ rest = more ++ escape :: after := by
  rcases List.append_eq_append_iff.mp split with ⟨more, same, later⟩ | ⟨more, same, later⟩
  · exact ⟨more, same, later⟩
  · cases more with
    | nil => exact ⟨[], by simpa using same.symm, later.symm⟩
    | cons c more =>
        obtain ⟨rfl, _⟩ := List.cons.inj later
        exact absurd (same ▸ List.mem_append_right _ List.mem_cons_self) noEscape

/-- An escape sequence has an escape character where it begins, and no other. -/
theorem IsSequence.begins_or_later {rest before after : List Char}
    (isSequence : IsSequence front) (split : front ++ rest = before ++ escape :: after) :
    (before = [] ∧ escape :: after = front ++ rest) ∨
      ∃ more, before = front ++ more ∧ rest = more ++ escape :: after := by
  obtain ⟨parameters, rfl, _, noEscape⟩ := isSequence
  cases before with
  | nil => exact Or.inl ⟨rfl, split.symm⟩
  | cons c before =>
      obtain ⟨rfl, tail⟩ := List.cons.inj split
      have others : escape ∉ '[' :: (parameters ++ ['m']) := by
        simpa [escape] using noEscape
      obtain ⟨more, rfl, later⟩ := exists_later_of_notMem others tail
      exact Or.inr ⟨more, rfl, later⟩

theorem isSequence_opening (style : Style) : IsSequence style.opening.toList := by
  cases style with
  | bold => exact ⟨['1'], rfl, by decide, by decide⟩
  | boldRed => exact ⟨['1', ';', '3', '1'], rfl, by decide, by decide⟩
  | cyan => exact ⟨['3', '6'], rfl, by decide, by decide⟩
  | dim => exact ⟨['2'], rfl, by decide, by decide⟩

theorem isSequence_closing : IsSequence closing.toList :=
  ⟨['0'], rfl, by decide, by decide⟩

end Style

open Style

/-! ## Pieces -/

/-- A piece of a rendered text, and the style that it has with colour. -/
structure Piece where
  style : Option Style
  text : String

namespace Piece

def plain (text : String) : Piece := ⟨none, text⟩

def styled (style : Style) (text : String) : Piece := ⟨some style, text⟩

/-- The piece as it is written. -/
def draw (colour : Bool) (piece : Piece) : String :=
  match piece.style with
  | some style => style.paint colour piece.text
  | none => piece.text

/-- Pieces written one after the other. -/
def drawAll (colour : Bool) : List Piece → String
  | [] => ""
  | piece :: pieces => piece.draw colour ++ drawAll colour pieces

/-- No piece has an escape character in its text. -/
def AllPlain (pieces : List Piece) : Prop :=
  ∀ piece ∈ pieces, escape ∉ piece.text.toList

/-- Where an escape character stands in coloured pieces: it opens the style of a piece, and
then the text of the piece follows and the style is reset, or it resets the style behind the
text of the piece that it was opened for. -/
inductive Marks (pieces : List Piece) : List Char → List Char → Prop
  | opens {front : List Piece} {style : Style} {text : String} {back : List Piece} :
      pieces = front ++ styled style text :: back →
        Marks pieces (drawAll true front).toList
          (style.opening.toList ++ (text.toList ++
            (closing.toList ++ (drawAll true back).toList)))
  | resets {front : List Piece} {style : Style} {text : String} {back : List Piece} :
      pieces = front ++ styled style text :: back →
        Marks pieces
          ((drawAll true front).toList ++ (style.opening.toList ++ text.toList))
          (closing.toList ++ (drawAll true back).toList)

theorem drawAll_append (colour : Bool) (front back : List Piece) :
    drawAll colour (front ++ back) = drawAll colour front ++ drawAll colour back := by
  induction front with
  | nil => exact String.empty_append.symm
  | cons piece front inductionHypothesis =>
      rw [List.cons_append, drawAll, drawAll, inductionHypothesis, String.append_assoc]

theorem toList_drawAll_cons (colour : Bool) (piece : Piece) (pieces : List Piece) :
    (drawAll colour (piece :: pieces)).toList =
      (piece.draw colour).toList ++ (drawAll colour pieces).toList := by
  rw [drawAll, String.toList_append]

theorem draw_false (piece : Piece) : piece.draw false = piece.text := by
  obtain ⟨_ | style, text⟩ := piece <;> rfl

theorem toList_draw_styled (style : Style) (text : String) :
    ((styled style text).draw true).toList =
      style.opening.toList ++ (text.toList ++ closing.toList) := by
  change (style.opening ++ text ++ closing).toList = _
  rw [String.toList_append, String.toList_append, List.append_assoc]

theorem withoutSequences_draw {piece : Piece} (plain : escape ∉ piece.text.toList)
    (back : List Char) :
    withoutSequences ((piece.draw true).toList ++ back) =
      (piece.draw false).toList ++ withoutSequences back := by
  rw [draw_false]
  obtain ⟨_ | style, text⟩ := piece
  · exact withoutSequences_append plain back
  · change withoutSequences (((styled style text).draw true).toList ++ back) = _
    rw [toList_draw_styled, List.append_assoc, List.append_assoc,
      style.isSequence_opening.withoutSequences_append, withoutSequences_append plain,
      isSequence_closing.withoutSequences_append]

/-- Deleting the escape sequences of coloured pieces takes their colour away. -/
theorem withoutSequences_drawAll {pieces : List Piece} (plain : AllPlain pieces) :
    withoutSequences (drawAll true pieces).toList = (drawAll false pieces).toList := by
  induction pieces with
  | nil => exact withoutSequences_of_notMem nofun
  | cons piece pieces inductionHypothesis =>
      obtain ⟨first, rest⟩ := List.forall_mem_cons.mp plain
      rw [toList_drawAll_cons, toList_drawAll_cons, withoutSequences_draw first,
        inductionHypothesis rest]

theorem notMem_drawAll {pieces : List Piece} (plain : AllPlain pieces) :
    escape ∉ (drawAll false pieces).toList := by
  induction pieces with
  | nil => exact nofun
  | cons piece pieces inductionHypothesis =>
      obtain ⟨first, rest⟩ := List.forall_mem_cons.mp plain
      rw [toList_drawAll_cons, draw_false]
      exact List.not_mem_append first (inductionHypothesis rest)

theorem Marks.cons {pieces : List Piece} {before after : List Char}
    (marks : Marks pieces before after) (piece : Piece) :
    Marks (piece :: pieces) ((piece.draw true).toList ++ before) after := by
  cases marks with
  | opens shape =>
      rw [← toList_drawAll_cons]
      exact .opens (by rw [shape, List.cons_append])
  | resets shape =>
      rw [← List.append_assoc, ← toList_drawAll_cons]
      exact .resets (by rw [shape, List.cons_append])

/-- Coloured pieces have no escape characters but those of their own sequences. -/
theorem marks_drawAll {pieces : List Piece} (plain : AllPlain pieces)
    {before after : List Char}
    (split : (drawAll true pieces).toList = before ++ escape :: after) :
    Marks pieces before (escape :: after) := by
  induction pieces generalizing before with
  | nil => simp [drawAll] at split
  | cons piece pieces inductionHypothesis =>
      obtain ⟨first, rest⟩ := List.forall_mem_cons.mp plain
      rw [toList_drawAll_cons] at split
      obtain ⟨_ | style, text⟩ := piece
      · obtain ⟨more, rfl, later⟩ := exists_later_of_notMem first split
        exact (inductionHypothesis rest later).cons _
      · change ((styled style text).draw true).toList ++ _ = _ at split
        rw [toList_draw_styled, List.append_assoc, List.append_assoc] at split
        have shape : styled style text :: pieces = [] ++ styled style text :: pieces := rfl
        -- The escape character stands in the opening, in the reset, or in the later pieces.
        rcases style.isSequence_opening.begins_or_later split with
          ⟨rfl, opening⟩ | ⟨more, rfl, inText⟩
        · rw [opening]
          exact .opens shape
        · obtain ⟨more, rfl, behind⟩ := exists_later_of_notMem first inText
          rcases isSequence_closing.begins_or_later behind with
            ⟨rfl, closing⟩ | ⟨more, rfl, later⟩
          · rw [closing, List.append_nil]
            exact .resets shape
          · have marks := (inductionHypothesis rest later).cons (styled style text)
            rwa [toList_draw_styled, List.append_assoc, List.append_assoc] at marks

end Piece

/-! ## Pieces of a diagnostic -/

open Piece

namespace Diagnostic

def headerPieces (diagnostic : Diagnostic) : List Piece :=
  let word :=
    match diagnostic.code with
    | some code => "error[" ++ code ++ "]"
    | none => "error"
  [styled .boldRed word, plain ": ", styled .bold diagnostic.message, plain "\n"]

def snippetPieces (label : Label) (location : Location) : List Piece :=
  let number := toString location.line
  let pad := repeated ' ' number.length
  let remark := if label.message.isEmpty then [] else [plain " ", styled .boldRed label.message]
  [plain "  ", styled .cyan "-->",
    plain (" " ++ number ++ ":" ++ toString location.column ++ "\n" ++ pad ++ " "),
    styled .cyan "|", plain "\n", styled .cyan number, plain " ", styled .cyan "|",
    plain (" " ++ location.text ++ "\n" ++ pad ++ " "), styled .cyan "|",
    plain (" " ++ repeated ' ' (location.column - 1)),
    styled .boldRed (repeated '^' location.width)] ++ remark ++
    [plain ("\n" ++ pad ++ " "), styled .cyan "|", plain "\n"]

def additionPieces (text : String) : List Piece :=
  [plain "  ", styled .dim "=", plain (" " ++ text ++ "\n")]

/-- The pieces of a rendered diagnostic. -/
def pieces (diagnostic : Diagnostic) : List Piece :=
  let place :=
    match diagnostic.label, diagnostic.source with
    | some label, some source => snippetPieces label (locate source label.span)
    | _, _ => []
  let notes := diagnostic.notes.flatMap fun note => additionPieces ("note: " ++ note)
  let suggestion :=
    match diagnostic.suggestion with
    | some suggestion => additionPieces ("suggestion: " ++ suggestion)
    | none => []
  let pointer :=
    match diagnostic.code with
    | some code => additionPieces ("run `kiln --explain " ++ code ++ "` for details")
    | none => []
  diagnostic.headerPieces ++ place ++ notes ++ suggestion ++ pointer

theorem header_eq_drawAll (diagnostic : Diagnostic) (colour : Bool) :
    diagnostic.header colour = drawAll colour diagnostic.headerPieces := by
  unfold header headerPieces
  cases diagnostic.code <;>
    simp only [drawAll, draw, styled, plain, String.append_assoc, String.append_empty]

theorem snippet_eq_drawAll (label : Label) (location : Location) (colour : Bool) :
    snippet label location colour = drawAll colour (snippetPieces label location) := by
  unfold snippet snippetPieces
  generalize toString location.line = number
  generalize toString location.column = column
  generalize repeated ' ' number.length = pad
  generalize repeated ' ' (location.column - 1) = indent
  generalize repeated '^' location.width = carets
  cases label.message.isEmpty <;>
    simp only [drawAll, draw, styled, plain, List.cons_append, List.nil_append,
      Bool.false_eq_true, if_true, if_false, String.append_assoc, String.append_empty]

theorem addition_eq_drawAll (text : String) (colour : Bool) :
    addition colour text = drawAll colour (additionPieces text) := by
  simp only [addition, additionPieces, drawAll, draw, styled, plain, String.append_assoc,
    String.append_empty]

theorem join_additions (notes : List String) (colour : Bool) :
    String.join (notes.map fun note => addition colour ("note: " ++ note)) =
      drawAll colour (notes.flatMap fun note => additionPieces ("note: " ++ note)) := by
  induction notes with
  | nil => rfl
  | cons note notes inductionHypothesis =>
      rw [List.map_cons, String.join_cons, List.flatMap_cons, drawAll_append,
        inductionHypothesis, addition_eq_drawAll]

/-- A diagnostic is rendered with and without colour as the same pieces. -/
theorem render_eq_drawAll (diagnostic : Diagnostic) (colour : Bool) :
    diagnostic.render colour = drawAll colour diagnostic.pieces := by
  obtain ⟨code, message, label, notes, suggestion, source⟩ := diagnostic
  unfold render pieces
  simp only [drawAll_append, header_eq_drawAll, join_additions]
  congr 1
  · congr 1
    · congr 2
      cases label with
      | none => rfl
      | some label =>
          cases source with
          | none => rfl
          | some source => exact snippet_eq_drawAll label _ colour
    · cases suggestion with
      | none => rfl
      | some suggestion => exact addition_eq_drawAll _ colour
  · cases code with
    | none => rfl
    | some code => exact addition_eq_drawAll _ colour

/-! ## Texts without escape characters -/

/-- All texts of a diagnostic. -/
def texts (diagnostic : Diagnostic) : List String :=
  diagnostic.code.toList ++ diagnostic.message :: (diagnostic.label.map Label.message).toList ++
    diagnostic.notes ++ diagnostic.suggestion.toList ++ diagnostic.source.toList

/-- No text of the diagnostic has an escape character. -/
def Unescaped (diagnostic : Diagnostic) : Prop :=
  ∀ text ∈ diagnostic.texts, escape ∉ text.toList

end Diagnostic

theorem notMem_locate {source : String} (noEscape : escape ∉ source.toList) (span : Span) :
    escape ∉ (locate source span).text.toList := by
  obtain ⟨place, isOf, located⟩ := exists_place source span
  rw [located]
  change escape ∉ (String.ofList place.line).toList
  rw [String.toList_ofList]
  intro member
  rw [isOf.whole] at noEscape
  exact noEscape (List.mem_append_right _ (List.mem_append_left _ member))

namespace Diagnostic

theorem notMem_toString (value : Nat) : escape ∉ (toString value).toList := by
  have digits := Rows.notMem_toDigits (c := escape) rfl value
  simpa using digits

theorem notMem_repeated {c : Char} (other : escape ≠ c) (count : Nat) :
    escape ∉ (repeated c count).toList := by
  rw [repeated, String.toList_ofList]
  exact fun member => other (List.eq_of_mem_replicate member)

theorem allPlain_headerPieces {diagnostic : Diagnostic} (unescaped : diagnostic.Unescaped) :
    AllPlain diagnostic.headerPieces := by
  obtain ⟨code, message, label, notes, suggestion, source⟩ := diagnostic
  have noEscape : escape ∉ message.toList := unescaped message (by simp [texts])
  have word : escape ∉ (match code with
      | some code => "error[" ++ code ++ "]"
      | none => "error").toList := by
    cases code with
    | none => decide
    | some code =>
        have inCode : escape ∉ code.toList := unescaped code (by simp [texts])
        simpa [escape] using inCode
  unfold AllPlain headerPieces
  simp only [List.forall_mem_cons, plain, styled, noEscape]
  exact ⟨word, by decide, not_false, by decide, nofun⟩

theorem allPlain_snippetPieces {label : Label} {location : Location}
    (message : escape ∉ label.message.toList) (text : escape ∉ location.text.toList) :
    AllPlain (snippetPieces label location) := by
  have line := notMem_toString location.line
  have column := notMem_toString location.column
  have pad := notMem_repeated (c := ' ') (by decide) (toString location.line).length
  have indent := notMem_repeated (c := ' ') (by decide) (location.column - 1)
  have carets := notMem_repeated (c := '^') (by decide) location.width
  unfold AllPlain snippetPieces
  split <;>
  · simp only [List.forall_mem_append, List.forall_mem_cons, plain, styled]
    simp only [String.toList_append, List.mem_append, not_or, line, column, pad, indent, carets,
      text, message]
    simp [escape]

theorem allPlain_additionPieces {lead text : String} (ofLead : escape ∉ lead.toList)
    (ofText : escape ∉ text.toList) : AllPlain (additionPieces (lead ++ text)) := by
  unfold AllPlain additionPieces
  simp only [List.forall_mem_cons, plain, styled, String.toList_append, List.mem_append,
    ofLead, ofText]
  simp [escape]

theorem allPlain_pieces {diagnostic : Diagnostic} (unescaped : diagnostic.Unescaped) :
    AllPlain diagnostic.pieces := by
  have header := allPlain_headerPieces unescaped
  obtain ⟨code, message, label, notes, suggestion, source⟩ := diagnostic
  have inTexts {text : String} (member : text ∈ texts _) := unescaped text member
  unfold AllPlain pieces
  simp only [List.forall_mem_append]
  refine ⟨⟨⟨⟨header, ?_⟩, ?_⟩, ?_⟩, ?_⟩
  · cases label with
    | none => exact nofun
    | some label =>
        cases source with
        | none => exact nofun
        | some source =>
            exact allPlain_snippetPieces (inTexts (by simp [texts]))
              (notMem_locate (inTexts (by simp [texts])) label.span)
  · intro piece member
    obtain ⟨note, isNote, inside⟩ := List.mem_flatMap.mp member
    exact allPlain_additionPieces (by decide) (inTexts (by simp [texts, isNote])) piece inside
  · cases suggestion with
    | none => exact nofun
    | some suggestion =>
        exact allPlain_additionPieces (by decide) (inTexts (by simp [texts]))
  · cases code with
    | none => exact nofun
    | some code =>
        have ofCode : escape ∉ code.toList := inTexts (by simp [texts])
        have lead : escape ∉ ("run `kiln --explain " ++ code).toList := by
          simpa [escape] using ofCode
        exact allPlain_additionPieces lead (by decide)

/-- Colour only adds escape sequences. When no text of a diagnostic has an escape character,
then
* deleting the escape sequences from the coloured rendering gives the one without colour,
* the one without colour has no escape characters,
* both consist of the same pieces, of which with colour those in a style stand between the
  sequence that opens the style and the one that resets it, and each escape character in
  the coloured one belongs to such a sequence: every style is reset right behind the text of
  the piece that it was opened for. -/
theorem render_colour {diagnostic : Diagnostic} (unescaped : diagnostic.Unescaped) :
    withoutSequences (diagnostic.render true).toList = (diagnostic.render false).toList ∧
      escape ∉ (diagnostic.render false).toList ∧
        (∀ colour, diagnostic.render colour = drawAll colour diagnostic.pieces) ∧
          AllPlain diagnostic.pieces ∧
            ∀ before after, (diagnostic.render true).toList = before ++ escape :: after →
              Marks diagnostic.pieces before (escape :: after) := by
  have plain := allPlain_pieces unescaped
  have drawn := diagnostic.render_eq_drawAll
  refine ⟨?_, ?_, drawn, plain, fun before after split => ?_⟩
  · rw [drawn, drawn]
    exact withoutSequences_drawAll plain
  · rw [drawn]
    exact notMem_drawAll plain
  · rw [drawn] at split
    exact marks_drawAll plain split

/-- The message goes over two lines and, like the note, looks like the rest of an escape
sequence. -/
theorem render_colour_lookalike :
    let diagnostic : Diagnostic :=
      ⟨some "K-C001", "[31m\nm", some ⟨⟨0, 1⟩, ""⟩, ["0m"], none, some "y;"⟩
    diagnostic.Unescaped ∧
      diagnostic.header true =
        "\x1b[1;31merror[K-C001]\x1b[0m: \x1b[1m[31m\nm\x1b[0m\n" ∧
      withoutSequences (diagnostic.render true).toList = (diagnostic.render false).toList ∧
        escape ∉ (diagnostic.render false).toList ∧
          ∀ before after, (diagnostic.render true).toList = before ++ escape :: after →
            Marks diagnostic.pieces before (escape :: after) := by
  intro diagnostic
  have unescaped : diagnostic.Unescaped := by
    unfold Unescaped
    decide
  obtain ⟨uncoloured, noEscape, _, _, marks⟩ := render_colour unescaped
  exact ⟨unescaped, by decide, uncoloured, noEscape, marks⟩

end Diagnostic

end ExprMachine
