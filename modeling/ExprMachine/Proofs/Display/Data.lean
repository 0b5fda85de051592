import ExprMachine.Proofs.Evaluation
import ExprMachine.Proofs.Grammar

/-!
# Displayed data

Integers, booleans and arrays of them are displayed as they are written in a program.
The display stands for an expression, in which the magnitude of a negative integer is
negated. This expression is evaluated to a value that differs from the displayed one in
nothing but the cells of its arrays.
-/

namespace ExprMachine

/-- Only the least word has no opposite. -/
theorem Word.toInt_neg {value : Word} (large : Int64.minValue < value) :
    (-value).toInt = -value.toInt := by
  have above : -9223372036854775808 < value.toInt := Int64.lt_iff_toInt_lt.mp large
  have below := value.toInt_lt
  rw [Int64.toInt_neg]
  exact Int.bmod_eq_of_le (by omega) (by omega)

namespace Value

/-- Data are integers, booleans and arrays of data. The least word is left out, since its
magnitude is no word, and so are arrays with more items than an expression can list. -/
inductive IsData : Value → Prop
  | integer {value : Word} : Int64.minValue < value → IsData (integer value)
  | boolean (value : Bool) : IsData (boolean value)
  | array (cell : Cell) {items : List Value} :
      items.length ≤ Limited.arrayElements.limit → (∀ item ∈ items, IsData item) →
        IsData (array cell items)

/-! ## Levels, integers and cells -/

mutual

/-- How many levels deep the display is nested: one for the value, one more for each array
that a part of it stands in, and one more for a minus sign. -/
def nesting : Value → Nat
  | integer value => if value.toInt < 0 then 2 else 1
  | array _ items => 1 + deepest items
  | _ => 1

def deepest : List Value → Nat
  | [] => 0
  | item :: items => max item.nesting (deepest items)

end

mutual

/-- The number of integers that a value holds. -/
def integerCount : Value → Nat
  | integer _ => 1
  | array _ items => integerCountOfAll items
  | _ => 0

def integerCountOfAll : List Value → Nat
  | [] => 0
  | item :: items => item.integerCount + integerCountOfAll items

end

mutual

/-- The value with all cells replaced by the first one. Values that are the same without
their cells are built in the same way. -/
def withoutCells : Value → Value
  | integer value => integer value
  | boolean value => boolean value
  | null => null
  | builtin called => builtin called
  | string _ content => string 0 content
  | array _ items => array 0 (allWithoutCells items)
  | error _ message => error 0 message
  | function _ code localCount => function 0 code localCount

def allWithoutCells : List Value → List Value
  | [] => []
  | item :: items => item.withoutCells :: allWithoutCells items

end

theorem nesting_le_deepest {item : Value} {items : List Value} (member : item ∈ items) :
    item.nesting ≤ deepest items := by
  induction items with
  | nil => cases member
  | cons first items inductionHypothesis =>
      rw [deepest]
      rcases List.mem_cons.mp member with rfl | later
      · exact Nat.le_max_left ..
      · exact Nat.le_trans (inductionHypothesis later) (Nat.le_max_right ..)

/-! ## Text -/

mutual

/-- Cells are not displayed. -/
theorem append_withoutCells (value : Value) (done : String) :
    value.withoutCells.append done = value.append done := by
  cases value with
  | array cell items =>
      cases items with
      | nil => rfl
      | cons first items =>
          rw [withoutCells, allWithoutCells, append, append, append_withoutCells first,
            appendItems_allWithoutCells items]
  | boolean value => rfl
  | _ => rfl

theorem appendItems_allWithoutCells (items : List Value) (done : String) :
    appendItems (allWithoutCells items) done = appendItems items done := by
  cases items with
  | nil => rfl
  | cons item items =>
      rw [allWithoutCells, appendItems, appendItems, append_withoutCells item,
        appendItems_allWithoutCells items]

end

theorem text_of_withoutCells_eq {value other : Value}
    (same : value.withoutCells = other.withoutCells) : value.text = other.text := by
  rw [text, ← append_withoutCells, same, append_withoutCells, text]

/-! ## Expressions -/

mutual

/-- The tree of the expression that data are displayed as. Other values are displayed as
something else, and count as empty arrays here. -/
def phrase : Value → Phrase
  | integer value =>
      if value.toInt < 0 then .unary .negate (.integer (-value)) else .integer value
  | boolean value => .boolean value
  | array _ items => .array (phrases items)
  | _ => .array []

def phrases : List Value → List Phrase
  | [] => []
  | item :: items => item.phrase :: phrases items

end

/-- The expression that data are displayed as. -/
def expr (value : Value) : Expr :=
  value.phrase.expr

theorem expr_integer_of_neg {value : Word} (negative : value.toInt < 0) :
    (integer value).expr = .unary .negate (.integer (-value)) := by
  rw [expr, phrase, if_pos negative]
  rfl

theorem expr_integer_of_not_neg {value : Word} (positive : ¬ value.toInt < 0) :
    (integer value).expr = .integer value := by
  rw [expr, phrase, if_neg positive]
  rfl

theorem expr_array (cell : Cell) (items : List Value) :
    (array cell items).expr = .array (items.map expr) := by
  have same : Phrase.exprs (phrases items) = items.map expr := by
    induction items with
    | nil => rfl
    | cons item items inductionHypothesis =>
        exact congrArg (item.expr :: ·) inductionHypothesis
  exact congrArg Expr.array same

/-! ## Literals -/

theorem length_literalsOfAll {items : List Value}
    (each : ∀ item ∈ items, item.expr.literals.length = item.integerCount) :
    (Expr.literalsOfAll (items.map expr)).length = integerCountOfAll items := by
  induction items with
  | nil => rfl
  | cons item items inductionHypothesis =>
      obtain ⟨first, others⟩ := List.forall_mem_cons.mp each
      rw [List.map_cons, Expr.literalsOfAll, List.length_append, first,
        inductionHypothesis others, integerCountOfAll]

/-- The expression has a literal for each integer. -/
theorem IsData.length_literals {value : Value} (data : value.IsData) :
    value.expr.literals.length = value.integerCount := by
  induction data with
  | @integer value _ =>
      by_cases negative : value.toInt < 0
      · rw [expr_integer_of_neg negative]
        rfl
      · rw [expr_integer_of_not_neg negative]
        rfl
  | boolean value => rfl
  | array cell _ _ inductionHypothesis =>
      rw [expr_array]
      exact length_literalsOfAll inductionHypothesis

theorem allSupported {symbols : SymbolTable} {items : List Value}
    (each : ∀ item ∈ items, item.expr.Supported symbols) :
    Expr.AllSupported symbols (items.map expr) := by
  induction items with
  | nil => trivial
  | cons item items inductionHypothesis =>
      obtain ⟨first, others⟩ := List.forall_mem_cons.mp each
      exact ⟨first, inductionHypothesis others⟩

/-- The expression can be compiled, whatever names there are. -/
theorem IsData.supported {value : Value} (data : value.IsData) (symbols : SymbolTable) :
    value.expr.Supported symbols := by
  induction data with
  | @integer value _ =>
      by_cases negative : value.toInt < 0
      · rw [expr_integer_of_neg negative]
        trivial
      · rw [expr_integer_of_not_neg negative]
        trivial
  | boolean value => trivial
  | array cell short _ inductionHypothesis =>
      rw [expr_array, Expr.Supported, List.length_map]
      exact ⟨short, allSupported inductionHypothesis⟩

/-! ## Evaluation -/

/-- Evaluating the expression builds the value in new cells and prints nothing. -/
def Rebuilds (valuation : Valuation) (expr : Expr) (value : Value) : Prop :=
  ∀ scene, ∃ copy later, expr.evaluate valuation scene = .ok (copy, later) ∧
    copy.withoutCells = value.withoutCells ∧ later.printed = scene.printed

theorem rebuilds_negative (valuation : Valuation) {value : Word}
    (large : Int64.minValue < value) :
    Rebuilds valuation (.unary .negate (.integer (-value))) (integer value) := by
  intro scene
  refine ⟨integer value, scene, ?_, rfl, rfl⟩
  have opposite : UnaryOperator.negate.evaluate (integer (-value)) = .ok (integer value) := by
    rw [UnaryOperator.evaluate, Word.toInt_neg large, Int.neg_neg, ofExact,
      if_pos ⟨value.minValue_le_toInt, value.toInt_le⟩, Int64.ofInt_toInt]
  exact congrArg scene.conclude opposite

theorem rebuilds_all {valuation : Valuation} {items : List Value}
    (each : ∀ item ∈ items, Rebuilds valuation item.expr item) (scene : Scene) :
    ∃ copies later,
      Expr.evaluateAll valuation (items.map expr) scene = .ok (copies, later) ∧
        allWithoutCells copies = allWithoutCells items ∧
          later.printed = scene.printed := by
  induction items generalizing scene with
  | nil => exact ⟨[], scene, rfl, rfl, rfl⟩
  | cons item items inductionHypothesis =>
      obtain ⟨first, others⟩ := List.forall_mem_cons.mp each
      obtain ⟨copy, middle, evaluated, same, printed⟩ := first scene
      obtain ⟨copies, later, evaluatedAll, sameAll, printedAll⟩ :=
        inductionHypothesis others middle
      refine ⟨copy :: copies, later, ?_, ?_, printedAll.trans printed⟩
      · rw [List.map_cons, Expr.evaluateAll, evaluated]
        simp only [bind, Except.bind, evaluatedAll]
      · rw [allWithoutCells, allWithoutCells, same, sameAll]

/-- Data are rebuilt by the expression that they are displayed as. -/
theorem IsData.rebuilds {value : Value} (data : value.IsData) (valuation : Valuation) :
    Rebuilds valuation value.expr value := by
  induction data with
  | @integer value large =>
      by_cases negative : value.toInt < 0
      · rw [expr_integer_of_neg negative]
        exact rebuilds_negative valuation large
      · rw [expr_integer_of_not_neg negative]
        exact fun scene => ⟨_, scene, rfl, rfl, rfl⟩
  | boolean value => exact fun scene => ⟨_, scene, rfl, rfl, rfl⟩
  | @array cell items _ _ inductionHypothesis =>
      intro scene
      obtain ⟨copies, later, evaluated, same, printed⟩ :=
        rebuilds_all inductionHypothesis scene
      refine ⟨Value.array later.fresh copies, { later with fresh := later.fresh + 1 }, ?_, ?_,
        printed⟩
      · rw [expr_array, Expr.evaluate, evaluated]
        rfl
      · exact congrArg (Value.array 0) same

end Value

end ExprMachine
