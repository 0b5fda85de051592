/-!
# Texts

Characters are counted in two ways: one by one, and by the bytes that they take
in UTF-8. A text is blank when it consists of white space only.
-/

namespace ExprMachine.Text

/-- The number of bytes that characters take in UTF-8. -/
def byteCount (characters : List Char) : Nat :=
  characters.foldr (fun c count => c.utf8Size + count) 0

/-- A line goes on to the next line feed. -/
def isInLine (c : Char) : Bool :=
  c ≠ '\n'

/-- The characters with the Unicode property `White_Space`. -/
def isWhiteSpace (c : Char) : Bool :=
  ('\t' ≤ c && c ≤ '\r') || c = ' ' || c = '\u0085' || c = '\u00a0' ||
    c = '\u1680' || ('\u2000' ≤ c && c ≤ '\u200a') || c = '\u2028' ||
    c = '\u2029' || c = '\u202f' || c = '\u205f' || c = '\u3000'

def isBlank (text : String) : Bool :=
  text.toList.all isWhiteSpace

@[simp]
theorem byteCount_nil : byteCount [] = 0 := rfl

@[simp]
theorem byteCount_cons (c : Char) (text : List Char) :
    byteCount (c :: text) = c.utf8Size + byteCount text := rfl

@[simp]
theorem byteCount_append (front back : List Char) :
    byteCount (front ++ back) = byteCount front + byteCount back := by
  induction front with
  | nil => simp
  | cons c front inductionHypothesis =>
      rw [List.cons_append, byteCount_cons, byteCount_cons, inductionHypothesis,
        Nat.add_assoc]

/-- Every character takes at least one byte. -/
theorem length_le_byteCount (text : List Char) :
    text.length ≤ byteCount text := by
  induction text with
  | nil => exact Nat.le_refl _
  | cons c text inductionHypothesis =>
      have positive := c.utf8Size_pos
      simp only [List.length_cons, byteCount_cons]
      omega

/-- The bytes of a string are the bytes of its characters. -/
@[simp]
theorem byteCount_toList (text : String) :
    byteCount text.toList = text.utf8ByteSize := by
  have ofList (characters : List Char) :
      byteCount characters = (String.ofList characters).utf8ByteSize := by
    induction characters with
    | nil => rfl
    | cons c characters inductionHypothesis =>
        rw [byteCount_cons, inductionHypothesis, ← List.singleton_append,
          String.ofList_append, String.utf8ByteSize_append,
          ← String.singleton_eq_ofList, String.utf8ByteSize_singleton]
  rw [ofList, String.ofList_toList]

end ExprMachine.Text
