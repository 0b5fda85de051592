import ExprMachine.Proofs.Lexing
import ExprMachine.Proofs.Location
import ExprMachine.Proofs.MaximalMunch

/-!
# Lexing a slice of a text

The text from the beginning of one token to the end of another one is lexed on its own as
it is in the whole text: each of its pieces is the longest one at its place, and remains so
when the text behind the last token is missing. Its tokens are the ones between these two,
moved by the bytes before the slice.
-/

namespace ExprMachine

namespace Token

/-! ## Pieces -/

/-- The text that is cut into pieces. -/
def Piece.texts (pieces : List Piece) : List Char :=
  pieces.flatMap Piece.text

theorem Longest.truncate {piece rest more : List Char} {reading : Reading}
    (longest : Longest (piece ++ rest) piece reading) (initial : more <+: rest) :
    Longest (piece ++ more) piece reading where
  forms := longest.forms
  initial := List.prefix_append piece more
  longest := fun other otherReading otherInitial =>
    longest.longest other otherReading
      (otherInitial.trans ((List.prefix_append_right_inj piece).mpr initial))

theorem Cuts.append {text last : List Char} {front back : List Piece}
    (cuts : Cuts text (front ++ back) last) :
    ∃ rest, text = Piece.texts front ++ rest ∧ Cuts rest back last ∧
      Cuts (Piece.texts front) front [] := by
  induction front generalizing text with
  | nil => exact ⟨text, rfl, cuts, .nil []⟩
  | cons piece front inductionHypothesis =>
      cases cuts with
      | @cons text more _ reading _ longest fine cuts =>
          obtain ⟨rest, shape, after, own⟩ := inductionHypothesis cuts
          refine ⟨rest, ?_, after, ?_⟩
          · rw [shape, ← List.append_assoc]
            rfl
          · rw [shape] at longest
            exact .cons (longest.truncate (List.prefix_append _ rest)) fine own

theorem Cuts.unique {text : List Char} {pieces others : List Piece}
    (cuts : Cuts text pieces []) (otherCuts : Cuts text others []) : pieces = others := by
  generalize ended : [] = last at cuts
  induction cuts generalizing others with
  | nil =>
      subst ended
      generalize empty : [] = text at otherCuts
      cases otherCuts with
      | nil => rfl
      | cons longest _ _ =>
          exact absurd (List.append_eq_nil_iff.mp empty.symm).1 longest.forms.ne_nil
  | @cons piece rest last reading pieces longest fine cuts inductionHypothesis =>
      generalize shape : piece ++ rest = text at otherCuts
      cases otherCuts with
      | nil => exact absurd (List.append_eq_nil_iff.mp shape).1 longest.forms.ne_nil
      | cons otherLongest _ otherCuts =>
          rw [← shape] at otherLongest
          obtain ⟨rfl, rfl⟩ := longest.unique otherLongest
          obtain rfl := List.append_cancel_left shape
          rw [inductionHypothesis otherCuts ended]

theorem Piece.lexemes_shift (offset distance : Nat) (pieces : List Piece) :
    lexemes (offset + distance) pieces = (lexemes offset pieces).map (Lexeme.shift distance) := by
  induction pieces generalizing offset with
  | nil => rfl
  | cons piece pieces inductionHypothesis =>
      obtain ⟨text, reading⟩ := piece
      have rest := inductionHypothesis (offset + Text.byteCount text)
      rw [Nat.add_right_comm] at rest
      cases reading with
      | token token =>
          change (⟨token, ⟨offset + distance, offset + distance + _⟩⟩ : Lexeme) :: _ = _
          rw [rest, Nat.add_right_comm]
          rfl
      | layout => exact rest
      | stuck cause => exact rest

/-! ## Slices -/

theorem Piece.exists_split {offset : Nat} {pieces : List Piece} {before rest : List Lexeme}
    {first : Lexeme} (shape : lexemes offset pieces = before ++ first :: rest) :
    ∃ front own, pieces = front ++ own ∧
      first.span.start = offset + Text.byteCount (texts front) ∧
        lexemes (offset + Text.byteCount (texts front)) own = first :: rest := by
  induction pieces generalizing offset before with
  | nil => exact absurd shape.symm (List.append_ne_nil_of_right_ne_nil _ (List.cons_ne_nil _ _))
  | cons piece pieces inductionHypothesis =>
      have goesOn {before : List Lexeme}
          (shape : lexemes (offset + Text.byteCount piece.text) pieces =
            before ++ first :: rest) : ∃ front own, piece :: pieces = front ++ own ∧
              first.span.start = offset + Text.byteCount (texts front) ∧
                lexemes (offset + Text.byteCount (texts front)) own = first :: rest := by
        obtain ⟨front, own, rfl, start, found⟩ := inductionHypothesis shape
        rw [Nat.add_assoc, ← Text.byteCount_append] at start found
        exact ⟨piece :: front, own, rfl, start, found⟩
      obtain ⟨text, reading⟩ := piece
      cases reading with
      | token token =>
          cases before with
          | nil =>
              have isFirst := (List.cons.inj shape).1
              exact ⟨[], _, rfl, congrArg (Span.start ∘ Lexeme.span) isFirst.symm, shape⟩
          | cons _ before => exact goesOn (List.cons.inj shape).2
      | layout => exact goesOn shape
      | stuck cause => exact goesOn shape

theorem Piece.exists_split_end {offset : Nat} {pieces : List Piece} {own rest : List Lexeme}
    {last : Lexeme} (isLast : own.getLast? = some last)
    (shape : lexemes offset pieces = own ++ rest) :
    ∃ front back, pieces = front ++ back ∧ lexemes offset front = own ∧
      last.span.stop = offset + Text.byteCount (texts front) := by
  induction pieces generalizing offset own with
  | nil =>
      obtain ⟨rfl, _⟩ := List.append_eq_nil_iff.mp shape.symm
      cases isLast
  | cons piece pieces inductionHypothesis =>
      have goesOn {own : List Lexeme} (isLast : own.getLast? = some last)
          (shape : lexemes (offset + Text.byteCount piece.text) pieces = own ++ rest) :
          ∃ front back, pieces = front ++ back ∧
            lexemes (offset + Text.byteCount piece.text) front = own ∧
              last.span.stop = offset + Text.byteCount (texts (piece :: front)) := by
        obtain ⟨front, back, rfl, found, stop⟩ := inductionHypothesis isLast shape
        rw [Nat.add_assoc, ← Text.byteCount_append] at stop
        exact ⟨front, back, rfl, found, stop⟩
      obtain ⟨text, reading⟩ := piece
      cases reading with
      | token token =>
          cases own with
          | nil => cases isLast
          | cons head own =>
              obtain ⟨rfl, others⟩ := List.cons.inj shape
              cases own with
              | nil =>
                  cases isLast
                  refine ⟨[⟨text, .token token⟩], pieces, rfl, rfl, ?_⟩
                  rw [texts, List.flatMap_singleton]
                  rfl
              | cons next own =>
                  rw [List.getLast?_cons_cons] at isLast
                  obtain ⟨front, back, rfl, found, stop⟩ := goesOn isLast others
                  exact ⟨⟨text, .token token⟩ :: front, back, rfl,
                    congrArg (_ :: ·) found, stop⟩
      | layout =>
          obtain ⟨front, back, rfl, found, stop⟩ := goesOn isLast shape
          exact ⟨⟨text, .layout⟩ :: front, back, rfl, found, stop⟩
      | stuck cause =>
          obtain ⟨front, back, rfl, found, stop⟩ := goesOn isLast shape
          exact ⟨⟨text, .stuck cause⟩ :: front, back, rfl, found, stop⟩

end Token

theorem lex_of_cuts {source : String} {pieces : List Token.Piece}
    (cuts : Token.Cuts source.toList pieces []) :
    lex source = .ok (Token.Piece.lexemes 0 pieces) := by
  have finds := Token.lexFrom_finds 0 #[] source.toList
  rw [lex]
  cases outcome : Token.lexFrom 0 #[] source.toList with
  | ok lexemes =>
      rw [outcome] at finds
      obtain ⟨others, otherCuts, same⟩ := finds
      rw [cuts.unique otherCuts]
      exact congrArg Except.ok same
  | error error =>
      rw [outcome] at finds
      obtain ⟨_, _, _, stuckCuts, _, _, stuck⟩ := finds
      exact absurd cuts (stuckCuts.not_of_stuck stuck pieces)

/-- A slice of the source text from one token to another is lexed on its own as in the
whole text. -/
theorem exists_slice {source : String} {before own after : List Lexeme}
    (lexed : lex source = .ok (before ++ (own ++ after))) {first last : Lexeme}
    (isFirst : own.head? = some first) (isLast : own.getLast? = some last) :
    ∃ front piece back slice,
      Span.CutsOut source.toList ⟨first.span.start, last.span.stop⟩ front piece back ∧
        lex (String.ofList piece) = .ok slice ∧
          own = slice.map (Lexeme.shift first.span.start) := by
  have finds := Token.lexFrom_finds 0 #[] source.toList
  obtain ⟨found, whole, listed⟩ := exists_of_except_map_eq_ok lexed
  rw [whole] at finds
  obtain ⟨pieces, cuts, same⟩ := finds
  obtain ⟨more, rfl⟩ := List.head?_eq_some_iff.mp isFirst
  have shape : Token.Piece.lexemes 0 pieces = before ++ first :: (more ++ after) :=
    (same.trans (List.nil_append _)).symm.trans listed
  obtain ⟨front, ownAndAfter, rfl, start, shape⟩ := Token.Piece.exists_split shape
  rw [← List.cons_append] at shape
  obtain ⟨own, back, rfl, shape, stop⟩ := Token.Piece.exists_split_end isLast shape
  obtain ⟨_, text, cutsRest, _⟩ := cuts.append
  obtain ⟨rest, textRest, _, cutsOwn⟩ := cutsRest.append
  refine ⟨Token.Piece.texts front, Token.Piece.texts own, rest, Token.Piece.lexemes 0 own,
    ⟨?_, ?_, ?_⟩, ?_, ?_⟩
  · rw [text, textRest]
  · rw [start, Nat.zero_add]
  · rw [stop, Text.byteCount_append, Nat.zero_add]
  · refine lex_of_cuts ?_
    rw [String.toList_ofList]
    exact cutsOwn
  · rw [← shape, ← Token.Piece.lexemes_shift, start, Nat.zero_add, Nat.zero_add]

end ExprMachine
