import ExprMachine.Proofs.Builtin.Arrays
import Mathlib.Tactic.Ring

/-!
# Joining strings

`string_join` takes the concatenation of arrays of strings to the concatenation of texts, with
the separator where the arrays meet. It never fails: `JoinOutcome` lists what it answers to
all the arguments that it can be given.
-/

namespace ExprMachine

namespace Value

/-- Strings, each with the cell that it was built in. -/
def strings (given : List (Cell × String)) : List Value :=
  given.map fun given => .string given.1 given.2

theorem length_string {content : String} (short : content.utf8ByteSize < 2 ^ 63) (cell : Cell) :
    (string cell content).length = content.utf8ByteSize :=
  Int64.toInt_ofNat_of_lt short

theorem exists_string_of_kind {value : Value} (isString : value.kind = .string) :
    ∃ given : Cell × String, value = .string given.1 given.2 := by
  cases value with
  | string cell content => exact ⟨(cell, content), rfl⟩
  | _ => cases isString

theorem exists_array_of_kind {value : Value} (isArray : value.kind = .array) :
    ∃ cell items, value = .array cell items := by
  cases value with
  | array cell items => exact ⟨cell, items, rfl⟩
  | _ => cases isArray

/-- Values are strings up to the first of another kind. -/
theorem strings_or_other (items : List Value) :
    (∃ given, items = strings given) ∨
      ∃ front item others, items = strings front ++ item :: others ∧ item.kind ≠ .string := by
  induction items with
  | nil => exact .inl ⟨[], rfl⟩
  | cons item items inductionHypothesis =>
      by_cases isString : item.kind = .string
      · obtain ⟨first, rfl⟩ := exists_string_of_kind isString
        rcases inductionHypothesis with ⟨given, rfl⟩ | ⟨front, item, others, rfl, other⟩
        · exact .inl ⟨first :: given, rfl⟩
        · exact .inr ⟨first :: front, item, others, rfl, other⟩
      · exact .inr ⟨[], item, items, rfl, isString⟩

end Value

namespace Builtin

open Value

/-! ## What is answered -/

/-- What `string_join` gives for a list of arguments when the given cell is fresh. -/
inductive JoinOutcome (fresh : Cell) : List Value → Value → Prop
  | count {arguments : List Value} (wrong : arguments.length ≠ 2) :
      JoinOutcome fresh arguments
        (.error fresh
          ("wrong number of arguments. got=" ++ toString arguments.length ++ ", want=2"))
  | array {argument : Value} (other : argument.kind ≠ .array) (separator : Value) :
      JoinOutcome fresh [argument, separator]
        (.error fresh ("argument[0] to `string_join` must be ARRAY, got " ++ argument.kind.name))
  | separator {separator : Value} (other : separator.kind ≠ .string) (cell : Cell)
      (items : List Value) :
      JoinOutcome fresh [.array cell items, separator]
        (.error fresh
          ("argument[1] to `string_join` must be STRING, got " ++ separator.kind.name))
  | empty (cell mark : Cell) (separator : String) :
      JoinOutcome fresh [.array cell [], .string mark separator] .null
  | item {item : Value} (other : item.kind ≠ .string) (front : List (Cell × String))
      (others : List Value) (cell mark : Cell) (separator : String) :
      JoinOutcome fresh
        [.array cell (strings front ++ item :: others), .string mark separator]
        (.error fresh
          ("argument[0] to `string_join` must contain only STRING, got " ++ item.kind.name))
  | joined {given : List (Cell × String)} (some : given ≠ []) (cell mark : Cell)
      (separator : String) :
      JoinOutcome fresh [.array cell (strings given), .string mark separator]
        (.string fresh (separator.intercalate (given.map Prod.snd)))

variable {fresh : Cell}

theorem mapM_content?_strings (given : List (Cell × String)) :
    (strings given).mapM content? = .ok (given.map Prod.snd) := by
  induction given with
  | nil => rfl
  | cons first given inductionHypothesis =>
      rw [strings, List.map_cons, List.mapM_cons, ← strings, inductionHypothesis]
      rfl

theorem mapM_content?_other {item : Value} (other : item.kind ≠ .string)
    (front : List (Cell × String)) (others : List Value) :
    (strings front ++ item :: others).mapM content? = .error (.expectedStrings item.kind) := by
  have refused : content? item = .error (.expectedStrings item.kind) := by
    cases item with
    | string => exact absurd rfl other
    | _ => rfl
  rw [List.mapM_append, mapM_content?_strings, List.mapM_cons, refused]
  rfl

theorem join_strings {given : List (Cell × String)} (some : given ≠ []) (separator : String) :
    join (strings given) separator =
      .string (separator.intercalate (given.map Prod.snd)) := by
  have filled : (strings given).isEmpty = false := by
    cases given with
    | nil => exact absurd rfl some
    | cons => rfl
  rw [join, filled, mapM_content?_strings]
  rfl

theorem join_other {item : Value} (other : item.kind ≠ .string)
    (front : List (Cell × String)) (others : List Value) (separator : String) :
    join (strings front ++ item :: others) separator =
      .misuse (.expectedStrings item.kind) := by
  have filled : (strings front ++ item :: others).isEmpty = false := by
    cases front <;> rfl
  rw [join, filled, mapM_content?_other other]
  rfl

theorem answer_count {arguments : List Value} (wrong : arguments.length ≠ 2) :
    stringJoin.answer arguments = .misuse (.wrongArgumentCount arguments.length 2) := by
  rcases arguments with _ | ⟨argument, _ | ⟨separator, _ | ⟨other, others⟩⟩⟩
  · rfl
  · rfl
  · exact absurd rfl wrong
  · rfl

theorem JoinOutcome.of_exists (arguments : List Value) (fresh : Cell) :
    ∃ value, JoinOutcome fresh arguments value := by
  by_cases wrong : arguments.length ≠ 2
  · exact ⟨_, .count wrong⟩
  obtain ⟨argument, separator, rfl⟩ := List.length_eq_two.mp (not_not.mp wrong)
  by_cases isArray : argument.kind = .array
  swap
  · exact ⟨_, .array isArray separator⟩
  obtain ⟨cell, items, rfl⟩ := exists_array_of_kind isArray
  by_cases isString : separator.kind = .string
  swap
  · exact ⟨_, .separator isString cell items⟩
  obtain ⟨⟨mark, separator⟩, rfl⟩ := exists_string_of_kind isString
  rcases strings_or_other items with ⟨given, rfl⟩ | ⟨front, item, others, rfl, other⟩
  · by_cases none : given = []
    · subst none
      exact ⟨_, .empty cell mark separator⟩
    · exact ⟨_, .joined none cell mark separator⟩
  · exact ⟨_, .item other front others cell mark separator⟩

theorem JoinOutcome.value_call {arguments : List Value} {value : Value}
    (outcome : JoinOutcome fresh arguments value) :
    (stringJoin.call arguments fresh).value = value := by
  unfold call
  cases outcome with
  | count wrong =>
      rw [answer_count wrong]
      exact congrArg (Value.error fresh) (String.append_assoc ..)
  | @array argument other separator =>
      cases argument with
      | array => exact absurd rfl other
      | _ => rfl
  | @separator separator other cell items =>
      cases separator with
      | string => exact absurd rfl other
      | _ => rfl
  | empty => rfl
  | item other front others cell mark separator =>
      change ((join (strings front ++ _ :: others) separator).build fresh).value = _
      rw [join_other other]
      rfl
  | @joined given some cell mark separator =>
      change ((join (strings given) separator).build fresh).value = _
      rw [join_strings some]
      rfl

/-- There is one outcome for each list of arguments, and it is the answer. -/
theorem joinOutcome_iff {arguments : List Value} {value : Value} :
    JoinOutcome fresh arguments value ↔ (stringJoin.call arguments fresh).value = value := by
  constructor
  · exact JoinOutcome.value_call
  · rintro rfl
    obtain ⟨value, outcome⟩ := JoinOutcome.of_exists arguments fresh
    rwa [outcome.value_call]

/-! ## Texts and their lengths -/

/-- The answer for an array of strings and a separator. -/
def joined (given : List (Cell × String)) (separator : String) (cell mark fresh : Cell) :
    Value :=
  (stringJoin.call [.array cell (strings given), .string mark separator] fresh).value

theorem joined_eq {given : List (Cell × String)} (some : given ≠ []) (separator : String)
    (cell mark fresh : Cell) :
    joined given separator cell mark fresh =
      .string fresh (separator.intercalate (given.map Prod.snd)) :=
  (JoinOutcome.joined some cell mark separator).value_call

/-- The number of bytes of all texts. -/
def totalBytes (given : List (Cell × String)) : Nat :=
  (given.map fun given => given.2.utf8ByteSize).sum

theorem totalBytes_cons (first : Cell × String) (given : List (Cell × String)) :
    totalBytes (first :: given) = first.2.utf8ByteSize + totalBytes given := by
  rw [totalBytes, List.map_cons, List.sum_cons, totalBytes]

theorem utf8ByteSize_intercalate (first : Cell × String) (others : List (Cell × String))
    (separator : String) :
    (separator.intercalate ((first :: others).map Prod.snd)).utf8ByteSize =
      totalBytes (first :: others) + others.length * separator.utf8ByteSize := by
  induction others generalizing first with
  | nil =>
      rw [List.map_cons, List.map_nil, String.intercalate_singleton, totalBytes_cons,
        List.length_nil, Nat.zero_mul]
      rfl
  | cons second others inductionHypothesis =>
      rw [List.map_cons, List.map_cons, String.intercalate_cons_cons, ← List.map_cons,
        String.utf8ByteSize_append, String.utf8ByteSize_append, inductionHypothesis,
        totalBytes_cons first, List.length_cons]
      ring

theorem sum_length_strings {given : List (Cell × String)} (short : totalBytes given < 2 ^ 63) :
    ((strings given).map Value.length).sum = totalBytes given := by
  induction given with
  | nil => rfl
  | cons first given inductionHypothesis =>
      rw [totalBytes_cons] at short
      have shorter : totalBytes given < 2 ^ 63 := by omega
      rw [strings, List.map_cons, List.map_cons, List.sum_cons, ← strings,
        inductionHypothesis shorter, length_string (by omega), totalBytes_cons, Nat.cast_add]

/-- What is not counted at all may be of any length. -/
theorem count_mul_length {count : Nat} {separator : String}
    (short : count * separator.utf8ByteSize < 2 ^ 63) (mark : Cell) :
    (count : Int) * (Value.string mark separator).length =
      ((count * separator.utf8ByteSize : Nat) : Int) := by
  cases count with
  | zero => rw [Nat.zero_mul, Nat.cast_zero, zero_mul]
  | succ count =>
      have separatorShort : separator.utf8ByteSize < 2 ^ 63 := by
        rw [Nat.succ_mul] at short
        omega
      rw [length_string separatorShort, Nat.cast_mul]

/-- `len` of joined strings. -/
theorem length_joined {given : List (Cell × String)} (some : given ≠ []) {separator : String}
    (short : (separator.intercalate (given.map Prod.snd)).utf8ByteSize < 2 ^ 63)
    (cell mark fresh : Cell) :
    (joined given separator cell mark fresh).length =
      ((strings given).map Value.length).sum +
        (given.length - 1) * (Value.string mark separator).length := by
  obtain ⟨first, others, rfl⟩ := List.exists_cons_of_ne_nil some
  rw [joined_eq some, length_string short]
  rw [utf8ByteSize_intercalate] at short ⊢
  have counted : (((first :: others).length : Int) - 1) = others.length := by
    rw [List.length_cons, Nat.cast_succ, add_sub_cancel_right]
  rw [counted, sum_length_strings (by omega), count_mul_length (by omega), Nat.cast_add]

/-- For each separator, joining takes the concatenation of arrays of strings that are not
empty to the concatenation of texts with the separator in between, wherever the arrays and
the strings are. A single string gives its text. The bytes of the result are those of the
strings and of a separator before each but the first, and so does `len` count them.

For each list of arguments the answer is given by `JoinOutcome`.

A text takes up memory, so that it has fewer than 2 ^ 63 bytes. -/
theorem stringJoin_append (separator : String) :
    (∀ (string : Cell × String) (cell mark fresh : Cell),
      joined [string] separator cell mark fresh = .string fresh string.2) ∧
    (∀ first second : List (Cell × String), first ≠ [] → second ≠ [] →
      ∃ left right : String, ∀ cell mark fresh : Cell,
        joined first separator cell mark fresh = .string fresh left ∧
          joined second separator cell mark fresh = .string fresh right ∧
          joined (first ++ second) separator cell mark fresh =
            .string fresh (left ++ separator ++ right)) ∧
    (∀ given : List (Cell × String), given ≠ [] →
      ∃ text : String,
        text.utf8ByteSize =
            (given.map fun given => given.2.utf8ByteSize).sum +
              (given.length - 1) * separator.utf8ByteSize ∧
          ∀ cell mark fresh : Cell,
            joined given separator cell mark fresh = .string fresh text ∧
              (text.utf8ByteSize < 2 ^ 63 →
                (joined given separator cell mark fresh).length =
                  ((strings given).map Value.length).sum +
                    (given.length - 1) * (Value.string mark separator).length)) ∧
    ∀ (arguments : List Value) (fresh : Cell) (value : Value),
      JoinOutcome fresh arguments value ↔ (stringJoin.call arguments fresh).value = value := by
  refine ⟨fun string cell mark fresh => ?_, fun first second someFirst someSecond => ?_,
    fun given some => ?_, fun arguments fresh value => joinOutcome_iff⟩
  · rw [joined_eq (List.cons_ne_nil string [])]
    exact congrArg (Value.string fresh) String.intercalate_singleton
  · refine ⟨_, _, fun cell mark fresh => ⟨joined_eq someFirst .., joined_eq someSecond .., ?_⟩⟩
    have someBoth : first ++ second ≠ [] := List.append_ne_nil_of_left_ne_nil someFirst second
    rw [joined_eq someBoth, List.map_append,
      String.intercalate_append_of_ne_nil (mt List.map_eq_nil_iff.mp someFirst)
        (mt List.map_eq_nil_iff.mp someSecond)]
  · refine ⟨_, ?_, fun cell mark fresh =>
      ⟨joined_eq some .., fun short => length_joined some short cell mark fresh⟩⟩
    obtain ⟨first, others, rfl⟩ := List.exists_cons_of_ne_nil some
    exact utf8ByteSize_intercalate first others separator

/-- One text is empty, and one has more bytes than characters. -/
theorem stringJoin_append_words :
    let first : List (Cell × String) := [(0, "a"), (1, "")]
    let second : List (Cell × String) := [(2, "é")]
    first ≠ [] ∧ second ≠ [] ∧
      joined (first ++ second) ", " 3 4 5 = .string 5 "a, , é" ∧
      (joined (first ++ second) ", " 3 4 5).length = 7 ∧
      JoinOutcome 5 [.array 3 [.string 0 "a", .null], .integer 1]
        (.error 5 "argument[1] to `string_join` must be STRING, got INTEGER") := by
  intro first second
  have someFirst : first ≠ [] := List.cons_ne_nil _ _
  have someSecond : second ≠ [] := List.cons_ne_nil _ _
  obtain ⟨_, append, counted, outcome⟩ := stringJoin_append ", "
  obtain ⟨left, right, texts⟩ := append first second someFirst someSecond
  obtain ⟨onLeft, onRight, onBoth⟩ := texts 3 4 5
  obtain rfl : "a, " = left := (Value.string.inj onLeft).2
  obtain rfl : "é" = right := (Value.string.inj onRight).2
  obtain ⟨text, -, lengths⟩ := counted (first ++ second) (List.cons_ne_nil _ _)
  obtain ⟨sameText, length⟩ := lengths 3 4 5
  obtain rfl : "a, , é" = text := (Value.string.inj (onBoth.symm.trans sameText)).2
  exact ⟨someFirst, someSecond, onBoth, length (by decide), (outcome _ 5 _).mpr rfl⟩

end Builtin

end ExprMachine
