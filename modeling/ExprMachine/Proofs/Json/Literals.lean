import ExprMachine.Json.Reading
import Mathlib.Data.String.Basic

/-!
# Literals of documents

A text that is written between quotes is read back up to the closing quote, and stands
for the text that was written. An integer that is written in decimal digits is read back
up to the character after it, and stands for the integer that was written.
-/

namespace ExprMachine.Json

/-! ## Strings -/

theorem append_ofList_cons (done : String) (c : Char) (text : List Char) :
    done ++ String.ofList (c :: text) = done.push c ++ String.ofList text := by
  apply String.toList_injective
  simp

/-- How a character is written between quotes. -/
inductive Escaped : Char → List Char → Prop
  | simple {c mark : Char} : simpleEscape? mark = some c → Escaped c ['\\', mark]
  | unit {c high low : Char} :
      codeUnit? '0' '0' high low = some c.toNat → c.toNat < 0x20 →
        Escaped c ['\\', 'u', '0', '0', high, low]
  | plain {c : Char} : c ≠ '"' → c ≠ '\\' → ¬c.toNat < 0x20 → Escaped c [c]

theorem codeUnit?_hexDigit {value : Nat} (small : value < 0x20) :
    codeUnit? '0' '0' (hexDigit (value / 16)) (hexDigit (value % 16)) = some value := by
  have every : ∀ value : Fin 0x20,
      codeUnit? '0' '0' (hexDigit (value.val / 16)) (hexDigit (value.val % 16)) =
        some value.val := by
    decide
  exact every ⟨value, small⟩

theorem escaped_escapeCharacter (c : Char) : Escaped c (escapeCharacter c) := by
  unfold escapeCharacter
  split
  case h_8 noQuote noBackslash _ _ _ _ _ =>
    split
    · next control => exact .unit (codeUnit?_hexDigit control) control
    · next plain => exact .plain noQuote noBackslash plain
  all_goals exact .simple rfl

section Strings

variable {c : Char} {written : List Char}

theorem readLiteral_escaped (escaped : Escaped c written) (done : String)
    (rest : List Char) :
    readLiteral done (written ++ rest) = readLiteral (done ++ String.ofList written) rest := by
  cases escaped with
  | @simple mark known =>
      have noUnit : mark ≠ 'u' := by
        rintro rfl
        cases known
      have found : (simpleEscape? mark).isSome := by rw [known]; rfl
      rw [List.cons_append, List.cons_append, List.nil_append, readLiteral]
      · rw [if_pos found, append_ofList_cons, append_ofList_cons, String.ofList_nil,
          String.append_empty]
      · intro _ _ _ _ _ same
        exact absurd same noUnit
  | @unit high low known small =>
      have found : (codeUnit? '0' '0' high low).isSome := by rw [known]; rfl
      simp only [List.cons_append, List.nil_append, readLiteral, found, if_true]
  | plain noQuote noBackslash plain =>
      have allowed : ¬(c.toNat < 0x20 ∨ c = '\\') := not_or_intro plain noBackslash
      rw [List.singleton_append, readLiteral]
      · rw [if_neg allowed, append_ofList_cons, String.ofList_nil, String.append_empty]
      · exact noQuote
      · intro _ _ _ _ _ same
        exact absurd same noBackslash
      · intro _ _ same
        exact absurd same noBackslash

theorem unescapeFrom_escaped (escaped : Escaped c written) (done : String)
    (rest : List Char) :
    unescapeFrom done (written ++ rest) = unescapeFrom (done.push c) rest := by
  cases escaped with
  | @simple mark known =>
      have noUnit : mark ≠ 'u' := by
        rintro rfl
        cases known
      rw [List.cons_append, List.cons_append, List.nil_append, unescapeFrom]
      · rw [known]
      · intro _ _ _ _ _ same
        exact absurd same noUnit
  | @unit high low known small =>
      have noHigh : isHighSurrogate c.toNat = false := by
        simp [isHighSurrogate]
        omega
      have noLow : isLowSurrogate c.toNat = false := by
        simp [isLowSurrogate]
        omega
      simp [unescapeFrom, known, noHigh, noLow]
  | plain noQuote noBackslash plain =>
      rw [List.singleton_append, unescapeFrom]
      · intro _ _ _ _ _ same
        exact absurd same noBackslash
      · intro _ _ same
        exact absurd same noBackslash

end Strings

/-- A text is read up to the closing quote. -/
theorem readLiteral_escape (text : List Char) (done : String) (rest : List Char) :
    readLiteral done (text.flatMap escapeCharacter ++ '"' :: rest) =
      some (done ++ String.ofList (text.flatMap escapeCharacter), rest) := by
  induction text generalizing done with
  | nil => simp [readLiteral]
  | cons c text inductionHypothesis =>
      rw [List.flatMap_cons, List.append_assoc, readLiteral_escaped (escaped_escapeCharacter c),
        inductionHypothesis, String.append_assoc, String.ofList_append]

theorem unescapeFrom_escape (text : List Char) (done : String) :
    unescapeFrom done (text.flatMap escapeCharacter) = some (done ++ String.ofList text) := by
  induction text generalizing done with
  | nil => simp [unescapeFrom]
  | cons c text inductionHypothesis =>
      rw [List.flatMap_cons, unescapeFrom_escaped (escaped_escapeCharacter c),
        inductionHypothesis, append_ofList_cons]

@[simp]
theorem unescape?_escape (text : String) : unescape? (escape text) = some text := by
  rw [unescape?, escape, String.toList_ofList, unescapeFrom_escape]
  simp

/-! ## Numbers -/

/-- Only zero is written with a zero in front. -/
theorem eq_zero_of_toDigits {value : Nat} {digits : List Char}
    (found : Nat.toDigits 10 value = '0' :: digits) : value = 0 := by
  induction value using Nat.strongRecOn generalizing digits with
  | ind value inductionHypothesis =>
      by_cases small : value < 10
      · have digit := found
        rw [Nat.toDigits_of_lt_base small] at digit
        obtain ⟨-, rfl⟩ := List.cons.inj digit
        have same := congrArg (Nat.ofDigitChars 10 · 0) found
        rw [Nat.ofDigitChars_ten_toDigits] at same
        exact same
      · have large := Nat.le_of_not_lt small
        obtain ⟨first, front, split⟩ : ∃ first front,
            Nat.toDigits 10 (value / 10) = first :: front :=
          List.exists_cons_of_ne_nil Nat.toDigits_ne_nil
        rw [Nat.toDigits_of_base_le (by decide) large, split] at found
        obtain ⟨rfl, -⟩ := List.cons.inj found
        have quotient := inductionHypothesis (value / 10) (by omega) split
        omega

theorem isDigit_of_toDigits {value : Nat} {c : Char} (member : c ∈ Nat.toDigits 10 value) :
    c.isDigit :=
  Nat.isDigit_of_mem_toDigits (by decide) (by decide) member

theorem exists_toDigits_eq_cons (value : Nat) :
    ∃ first digits, Nat.toDigits 10 value = first :: digits ∧ first.isDigit := by
  obtain ⟨first, digits, split⟩ : ∃ first digits, Nat.toDigits 10 value = first :: digits :=
    List.exists_cons_of_ne_nil Nat.toDigits_ne_nil
  have member : first ∈ Nat.toDigits 10 value := by
    rw [split]
    exact List.mem_cons_self
  exact ⟨first, digits, split, isDigit_of_toDigits member⟩

theorem toList_toString (value : Int) :
    (toString value).toList =
      if value < 0 then '-' :: Nat.toDigits 10 value.natAbs
      else Nat.toDigits 10 value.natAbs := by
  cases value with
  | ofNat value =>
      have text : toString (Int.ofNat value) = value.repr := rfl
      have noSign : ¬Int.ofNat value < 0 := Int.not_lt.mpr (Int.natCast_nonneg value)
      rw [text, Nat.toList_repr, if_neg noSign]
      rfl
  | negSucc value =>
      have text : toString (Int.negSucc value) = "-" ++ (value + 1).repr := rfl
      rw [text, String.toList_append, Nat.toList_repr, if_pos (Int.negSucc_lt_zero value)]
      rfl

theorem exists_toString_eq_cons (value : Int) :
    ∃ c text, (toString value).toList = c :: text ∧ (c = '-' ∨ c.isDigit) := by
  rw [toList_toString]
  split
  · exact ⟨'-', _, rfl, Or.inl rfl⟩
  · obtain ⟨first, digits, split, digit⟩ := exists_toDigits_eq_cons value.natAbs
    exact ⟨first, digits, split, Or.inr digit⟩

/-- A run of characters goes on to the first character that does not belong to it. -/
theorem run_append {p : Char → Bool} {front rest : List Char}
    (each : ∀ c ∈ front, p c = true) (stops : ∀ c ∈ rest.head?, p c = false) :
    (front ++ rest).takeWhile p = front ∧ (front ++ rest).dropWhile p = rest := by
  rw [List.takeWhile_append_of_pos each, List.dropWhile_append_of_pos each]
  cases rest with
  | nil => exact ⟨List.append_nil _, rfl⟩
  | cons c rest =>
      have stop := stops c rfl
      simp [stop]

/-- What can stand after a number: nothing that the number could go on with. -/
def EndsNumber (rest : List Char) : Prop :=
  ∀ c ∈ rest.head?, c.isDigit = false ∧ c ≠ '.' ∧ c ≠ 'e' ∧ c ≠ 'E'

section Numbers

variable {rest : List Char}

theorem readDigits_append {digits : List Char} (nonempty : digits ≠ [])
    (digit : ∀ c ∈ digits, c.isDigit) (ends : EndsNumber rest) :
    readDigits (digits ++ rest) = some (digits, rest) := by
  obtain ⟨taken, dropped⟩ := run_append digit fun c first => (ends c first).1
  rw [readDigits, taken, dropped]
  split
  · exact absurd rfl nonempty
  · rfl

theorem readWhole_toDigits (value : Nat) (ends : EndsNumber rest) :
    readWhole (Nat.toDigits 10 value ++ rest) = some (Nat.toDigits 10 value, rest) := by
  by_cases zero : value = 0
  · subst zero
    cases rest with
    | nil => rfl
    | cons c rest =>
        obtain ⟨noDigit, _⟩ := ends c rfl
        simp [readWhole, noDigit]
  · rw [readWhole]
    · exact readDigits_append Nat.toDigits_ne_nil (fun _ => isDigit_of_toDigits) ends
    · intro others same
      obtain ⟨first, digits, split, _⟩ := exists_toDigits_eq_cons value
      rw [split] at same
      obtain ⟨rfl, _⟩ := List.cons.inj same
      exact zero (eq_zero_of_toDigits split)

theorem readFraction_of_ends (ends : EndsNumber rest) :
    readFraction rest = some ([], rest) := by
  cases rest with
  | nil => rfl
  | cons c rest =>
      obtain ⟨_, noPoint, _⟩ := ends c rfl
      rw [readFraction]
      intro _ same
      exact noPoint (List.cons.inj same).1

theorem readExponent_of_ends (ends : EndsNumber rest) :
    readExponent rest = some ([], rest) := by
  cases rest with
  | nil => rfl
  | cons c rest =>
      obtain ⟨_, _, lower, upper⟩ := ends c rfl
      have noMark : ¬(c = 'e' ∨ c = 'E') := not_or_intro lower upper
      simp only [readExponent, if_neg noMark]

theorem readMagnitude_toDigits (value : Nat) (ends : EndsNumber rest) :
    readMagnitude (Nat.toDigits 10 value ++ rest) = some (Nat.toDigits 10 value, rest) := by
  simp [readMagnitude, readWhole_toDigits value ends, readFraction_of_ends ends,
    readExponent_of_ends ends]

/-- An integer is read up to what stands after it. -/
theorem readNumber_ofInt (value : Int) (ends : EndsNumber rest) :
    readNumber ((toString value).toList ++ rest) = some (ofInt value, rest) := by
  have text := toList_toString value
  have same : ofInt value = .number (String.ofList (toString value).toList) := by
    rw [String.ofList_toList]
    rfl
  have magnitude := readMagnitude_toDigits value.natAbs ends
  rw [same, text]
  split
  · rw [List.cons_append, readNumber, magnitude]
    rfl
  · rw [readNumber, magnitude]
    · rfl
    · intro others same
      obtain ⟨first, digits, split, digit⟩ := exists_toDigits_eq_cons value.natAbs
      rw [split] at same
      obtain ⟨rfl, _⟩ := List.cons.inj same
      cases digit

end Numbers

@[simp]
theorem integer?_ofInt (value : Int) : (ofInt value).integer? = some value := by
  have text := toList_toString value
  have digit : (Nat.toDigits 10 value.natAbs).all Char.isDigit :=
    List.all_eq_true.mpr fun _ => isDigit_of_toDigits
  have number := Nat.ofDigitChars_ten_toDigits (n := value.natAbs)
  rw [ofInt, integer?, text]
  by_cases negative : value < 0
  · have noZero : Nat.toDigits 10 value.natAbs ≠ ['0'] := by
      intro same
      have zero := eq_zero_of_toDigits same
      omega
    rw [if_pos negative]
    simp only [if_pos (And.intro digit noZero), number]
    congr 1
    omega
  · rw [if_neg negative]
    split
    · next others same =>
        obtain ⟨first, digits, split, digit⟩ := exists_toDigits_eq_cons value.natAbs
        rw [split] at same
        obtain ⟨rfl, _⟩ := List.cons.inj same
        cases digit
    · rw [if_pos digit, number]
      congr 1
      omega

end ExprMachine.Json
