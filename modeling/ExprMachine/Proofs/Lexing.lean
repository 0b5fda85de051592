import ExprMachine.Token.Lexing

/-!
# Lexing one text after another

No token goes on past the end of a line, except for strings, which end with a quote.
So a text that is lexed without an error can be followed by a line feed and any other
text: what comes after the line feed is lexed as it is on its own, with all places
moved by the bytes before it.
-/

namespace ExprMachine

def Span.shift (distance : Nat) (span : Span) : Span :=
  ⟨span.start + distance, span.stop + distance⟩

def Lexeme.shift (distance : Nat) (lexeme : Lexeme) : Lexeme :=
  ⟨lexeme.token, lexeme.span.shift distance⟩

def LexError.shift (distance : Nat) (error : LexError) : LexError :=
  { error with position := error.position + distance }

namespace Token

/-! ## Texts further back -/

/-- The lexemes found in a text that begins further back, after those found before. -/
theorem lexFrom_shift (front : Array Lexeme) (distance offset : Nat)
    (found : Array Lexeme) (text : List Char) :
    lexFrom (offset + distance) (front ++ found.map (Lexeme.shift distance)) text =
      ((lexFrom offset found text).map
          (front ++ Array.map (Lexeme.shift distance) ·)).mapError
        (LexError.shift distance) := by
  fun_induction lexFrom offset found text with
  | case1 => rw [lexFrom]; rfl
  | case2 offset found first text next stop layout inductionHypothesis =>
      rw [lexFrom]
      simp only [next] at layout
      simp only [layout]
      rw [← inductionHypothesis]
      simp only [stop, next, Nat.add_right_comm]
  | case3 offset found first text next stop token reading inductionHypothesis =>
      rw [lexFrom]
      simp only [next] at reading
      simp only [reading]
      rw [← inductionHypothesis]
      simp only [stop, next, Nat.add_right_comm, Array.map_push, Lexeme.shift,
        Span.shift, Array.append_push]
  | case4 offset found first text next cause stuck =>
      rw [lexFrom]
      simp only [next] at stuck
      simp only [stuck]
      rfl

/-! ## Blanks -/

/-- Blanks are passed over one by one. -/
theorem lexFrom_cons_of_isBlank {first : Char} (blank : isBlank first = true)
    (offset : Nat) (found : Array Lexeme) (text : List Char) :
    lexFrom offset found (first :: text) =
      lexFrom (offset + first.utf8Size) found text := by
  have run (c : Char) (rest : List Char) (blank : isBlank c = true) (offset : Nat) :
      lexFrom offset found (c :: rest) =
        lexFrom (offset + (c.utf8Size + Text.byteCount (rest.takeWhile isBlank))) found
          (rest.dropWhile isBlank) := by
    rw [lexFrom]
    simp only [cut, blank, if_true, Text.byteCount_cons]
  rw [run first text blank]
  cases text with
  | nil => rfl
  | cons second text =>
      cases next : isBlank second with
      | true =>
          rw [run second text next]
          simp only [List.takeWhile_cons, List.dropWhile_cons, next, if_true,
            Text.byteCount_cons, Nat.add_assoc]
      | false =>
          simp only [List.takeWhile_cons, List.dropWhile_cons, next]
          rfl

/-! ## Line ends -/

theorem takeWhile_lineEnd {p : Char → Bool} (stops : p '\n' = false)
    (text more : List Char) :
    (text ++ '\n' :: more).takeWhile p = text.takeWhile p := by
  induction text with
  | nil => simp [stops]
  | cons c text inductionHypothesis =>
      simp only [List.cons_append, List.takeWhile_cons, inductionHypothesis]

theorem dropWhile_lineEnd {p : Char → Bool} (stops : p '\n' = false)
    (text more : List Char) :
    (text ++ '\n' :: more).dropWhile p = text.dropWhile p ++ '\n' :: more := by
  induction text with
  | nil => simp [stops]
  | cons c text inductionHypothesis =>
      simp only [List.cons_append, List.dropWhile_cons, inductionHypothesis]
      split <;> rfl

theorem lineEnd_ne_cons {c : Char} (different : '\n' ≠ c) {text : List Char}
    (more : List Char) (begins : ∀ rest, text = c :: rest → False) (rest : List Char) :
    text ++ '\n' :: more = c :: rest → False := by
  cases text with
  | nil => exact fun same => different (List.cons.inj same).1
  | cons first text =>
      intro same
      obtain ⟨rfl, _⟩ := List.cons.inj same
      exact begins text rfl

/-- A cut from a text that goes on with another line. -/
def Cut.before (more : List Char) (cut : Cut) : Cut :=
  { cut with rest := cut.rest ++ '\n' :: more }

theorem cutSymbol_lineEnd (first : Char) (text more : List Char) :
    cutSymbol first (text ++ '\n' :: more) = (cutSymbol first text).before more := by
  by_cases paired : ∃ next rest, text = next :: rest ∧
      ((first = '/' ∧ next = '/') ∨ (first = '=' ∧ next = '=') ∨
        (first = '!' ∧ next = '='))
  · have inLine : Text.isInLine '\n' = false := rfl
    obtain ⟨next, rest, rfl, ⟨rfl, rfl⟩ | ⟨rfl, rfl⟩ | ⟨rfl, rfl⟩⟩ := paired
    · have piece := takeWhile_lineEnd inLine ('/' :: rest) more
      have after := dropWhile_lineEnd inLine ('/' :: rest) more
      simp only [List.cons_append] at piece after
      simp only [List.cons_append, cutSymbol, piece, after]
      rfl
    · rfl
    · rfl
  · have comment (rest : List Char) (is : first = '/') : text = '/' :: rest → False :=
      fun shape => paired ⟨_, _, shape, Or.inl ⟨is, rfl⟩⟩
    have equal (rest : List Char) (is : first = '=') : text = '=' :: rest → False :=
      fun shape => paired ⟨_, _, shape, Or.inr (Or.inl ⟨is, rfl⟩)⟩
    have notEqual (rest : List Char) (is : first = '!') : text = '=' :: rest → False :=
      fun shape => paired ⟨_, _, shape, Or.inr (Or.inr ⟨is, rfl⟩)⟩
    rw [cutSymbol.eq_4 first text comment equal notEqual, cutSymbol.eq_4]
    · split
      · rfl
      · split <;> rfl
    · exact fun rest is => lineEnd_ne_cons (by decide) more (comment · is) rest
    · exact fun rest is => lineEnd_ne_cons (by decide) more (equal · is) rest
    · exact fun rest is => lineEnd_ne_cons (by decide) more (notEqual · is) rest

/-- A string that is closed goes on to its quote, and no further. -/
theorem cutString_lineEnd {text : List Char} (more : List Char)
    (closed : (cutString text).reading ≠ .stuck .unclosedString) :
    cutString (text ++ '\n' :: more) = (cutString text).before more := by
  cases after : text.dropWhile isInString with
  | nil =>
      rw [cutString, after] at closed
      exact absurd rfl closed
  | cons quote rest =>
      have whole := List.takeWhile_append_dropWhile (p := isInString) (l := text)
      have shorter : (text.takeWhile isInString).length ≠ text.length := by
        have lengths := congrArg List.length whole
        rw [after, List.length_append, List.length_cons] at lengths
        omega
      rw [cutString, cutString, List.dropWhile_append, List.takeWhile_append, after,
        if_neg shorter]
      rfl

/-- A piece that is not blank does not go on past the end of a line. -/
theorem cut_lineEnd {first : Char} {text : List Char} (more : List Char)
    (notBlank : isBlank first = false)
    (closed : (cut first text).reading ≠ .stuck .unclosedString) :
    cut first (text ++ '\n' :: more) = (cut first text).before more := by
  have digit : Char.isDigit '\n' = false := rfl
  have namePart : isNamePart '\n' = false := rfl
  rw [cut, notBlank] at closed ⊢
  rw [cut, notBlank]
  simp only [Bool.false_eq_true, if_false] at closed ⊢
  split
  · rw [takeWhile_lineEnd digit, dropWhile_lineEnd digit]
    rfl
  · split
    · rw [takeWhile_lineEnd namePart, dropWhile_lineEnd namePart]
      rfl
    · split
      · next noDigit noName quote =>
          rw [if_neg noDigit, if_neg noName, if_pos quote] at closed
          exact cutString_lineEnd more closed
      · exact cutSymbol_lineEnd first text more

/-! ## Two texts -/

/-- Text that is lexed without an error can be followed by another line. -/
theorem lexFrom_lines {offset : Nat} {found lexemes : Array Lexeme} {text : List Char}
    (fine : lexFrom offset found text = .ok lexemes) (more : List Char) :
    lexFrom offset found (text ++ '\n' :: more) =
      lexFrom (offset + Text.byteCount text + 1) lexemes more := by
  induction length : text.length using Nat.strongRecOn
    generalizing offset found text with
  | _ _ inductionHypothesis =>
      subst length
      cases text with
      | nil =>
          rw [lexFrom] at fine
          cases fine
          exact lexFrom_cons_of_isBlank rfl offset _ more
      | cons first text =>
          have whole := congrArg Text.byteCount (cut_whole first text)
          have shorter := cut_rest_length_le first text
          rw [Text.byteCount_append] at whole
          cases blank : isBlank first with
          | true =>
              rw [lexFrom_cons_of_isBlank blank] at fine
              rw [List.cons_append, lexFrom_cons_of_isBlank blank,
                inductionHypothesis _ (Nat.lt_succ_self _) fine rfl,
                Text.byteCount_cons, ← Nat.add_assoc offset]
          | false =>
              have closed : (cut first text).reading ≠ .stuck .unclosedString := by
                intro stuck
                rw [lexFrom, stuck] at fine
                cases fine
              rw [lexFrom] at fine
              rw [List.cons_append, lexFrom, cut_lineEnd more blank closed]
              simp only [Cut.before]
              cases reading : (cut first text).reading with
              | layout =>
                  simp only [reading] at fine ⊢
                  rw [inductionHypothesis _ (Nat.lt_succ_of_le shorter) fine rfl, ← whole,
                    ← Nat.add_assoc offset]
              | token token =>
                  simp only [reading] at fine ⊢
                  rw [inductionHypothesis _ (Nat.lt_succ_of_le shorter) fine rfl, ← whole,
                    ← Nat.add_assoc offset]
              | stuck cause =>
                  simp only [reading, reduceCtorEq] at fine

end Token

/-- The number of bytes before the second of two lines. -/
def lineStart (line : String) : Nat :=
  line.utf8ByteSize + 1

/-- After a text without errors and a line feed, another text is lexed as it is on its
own, with its places moved by the bytes before it. -/
theorem lex_lines {first : String} {lexemes : List Lexeme} (fine : lex first = .ok lexemes)
    (second : String) :
    lex (first ++ "\n" ++ second) =
      ((lex second).map (lexemes ++ List.map (Lexeme.shift (lineStart first)) ·)).mapError
        (LexError.shift (lineStart first)) := by
  obtain ⟨found, foundFirst, rfl⟩ : ∃ found,
      Token.lexFrom 0 #[] first.toList = .ok found ∧ found.toList = lexemes := by
    rw [lex] at fine
    cases outcome : Token.lexFrom 0 #[] first.toList with
    | ok found =>
        rw [outcome] at fine
        exact ⟨found, rfl, Except.ok.inj fine⟩
    | error error =>
        rw [outcome] at fine
        cases fine
  have text : (first ++ "\n" ++ second).toList = first.toList ++ '\n' :: second.toList := by
    rw [String.toList_append, String.toList_append, List.append_assoc]
    rfl
  have start : 0 + Text.byteCount first.toList + 1 = 0 + lineStart first := by
    rw [Text.byteCount_toList, Nat.add_assoc, lineStart]
  have shifted := Token.lexFrom_shift found (lineStart first) 0 #[] second.toList
  rw [Array.map_empty, Array.append_empty] at shifted
  rw [lex, text, Token.lexFrom_lines foundFirst, start, shifted, lex]
  cases Token.lexFrom 0 #[] second.toList with
  | ok rest => exact congrArg Except.ok (by simp)
  | error error => rfl

/-- A line feed separates two texts, whatever the last lexeme before it is: the tokens
after it are those of the second text, with their places moved by the bytes before. If the
second text has an error, so has the whole, with the same snippet and suggestion. -/
theorem lex_newline {first : String} {lexemes : List Lexeme} (fine : lex first = .ok lexemes)
    (second : String) :
    let distance := first.utf8ByteSize + 1
    match lex second with
    | .ok more => lex (first ++ "\n" ++ second) =
        .ok (lexemes ++ more.map (Lexeme.shift distance))
    | .error error => ∃ moved, lex (first ++ "\n" ++ second) = .error moved ∧
        moved.position = error.position + distance ∧ moved.snippet = error.snippet ∧
          moved.suggestion = error.suggestion := by
  intro distance
  have lines := lex_lines fine second
  cases lexed : lex second with
  | ok more =>
      rw [lexed] at lines
      exact lines
  | error error =>
      rw [lexed] at lines
      exact ⟨error.shift distance, lines, rfl, rfl, rfl⟩

/-- A comment at the end of the first text ends there. -/
theorem lex_newline_comment :
    let lexemes : List Lexeme := [⟨.integer 1, ⟨0, 1⟩⟩]
    let error : LexError := ⟨.unclosedString, 2, "\"x"⟩
    lex "1 // é" = .ok lexemes ∧ lex "y \"x" = .error error ∧
      ∃ moved, lex ("1 // é" ++ "\n" ++ "y \"x") = .error moved ∧
        moved.position = 10 ∧ moved.snippet = error.snippet ∧
          moved.suggestion = error.suggestion := by
  intro lexemes error
  have fine : lex "1 // é" = .ok lexemes := by
    have number : Token.cut '1' [' ', '/', '/', ' ', 'é'] =
        ⟨.token (.integer 1), ['1'], [' ', '/', '/', ' ', 'é']⟩ := by decide +kernel
    have blank : Token.cut ' ' ['/', '/', ' ', 'é'] =
        ⟨.layout, [' '], ['/', '/', ' ', 'é']⟩ := by decide +kernel
    have comment : Token.cut '/' ['/', ' ', 'é'] =
        ⟨.layout, ['/', '/', ' ', 'é'], []⟩ := by decide +kernel
    simp only [lex, String.reduceToList, Token.lexFrom, number, blank, comment]
    rfl
  have failed : lex "y \"x" = .error error := by
    have name : Token.cut 'y' [' ', '"', 'x'] =
        ⟨.token (.identifier "y"), ['y'], [' ', '"', 'x']⟩ := by decide +kernel
    have blank : Token.cut ' ' ['"', 'x'] = ⟨.layout, [' '], ['"', 'x']⟩ := by decide +kernel
    have quote : Token.cut '"' ['x'] = ⟨.stuck .unclosedString, ['"', 'x'], []⟩ := by
      decide +kernel
    simp only [lex, String.reduceToList, Token.lexFrom, name, blank, quote]
    rfl
  have both := lex_newline fine "y \"x"
  rw [failed] at both
  exact ⟨fine, failed, both⟩

end ExprMachine
