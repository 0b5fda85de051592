import ExprMachine.Proofs.Builtin.Arrays

/-!
# Values and the cells they were built in

A heap tells what was built in each cell. When all parts of some values are what the heap
tells of their cells, a cell stands for one content: values that are identical are the same
in every respect, and only strings can be equal without being identical. Builtins keep to
this. They hand on values that were there before, or build a new one in the next cell.
-/

namespace ExprMachine

/-- What was built so far, in the order of the cells. -/
abbrev Heap := List Value

namespace Value

/-- The cell that the value was built in, if it has one. -/
def cell? : Value → Option Cell
  | string cell _ | array cell _ | error cell _ | function cell _ _ => some cell
  | integer _ | boolean _ | null | builtin _ => none

/-- The value itself, an item of it, an item of an item, and so on. -/
inductive Part : Value → Value → Prop
  | self (value : Value) : Part value value
  | item {part item : Value} {cell : Cell} {items : List Value} :
      item ∈ items → Part part item → Part part (array cell items)

/-- Every part of the value that has a cell is what was built in this cell. -/
def LivesIn (heap : Heap) (value : Value) : Prop :=
  ∀ part, Part part value → ∀ cell, part.cell? = some cell → heap[cell]? = some part

section Living

variable {heap later : Heap} {value : Value}

theorem LivesIn.own (lives : value.LivesIn heap) {cell : Cell}
    (built : value.cell? = some cell) : heap[cell]? = some value :=
  lives value (.self value) cell built

/-- What was built stays where it is. -/
theorem LivesIn.mono (lives : value.LivesIn heap) (goesOn : heap <+: later) :
    value.LivesIn later := by
  intro part inside cell built
  obtain ⟨more, rfl⟩ := goesOn
  have found := lives part inside cell built
  obtain ⟨used, _⟩ := List.getElem?_eq_some_iff.mp found
  rw [List.getElem?_append_left used, found]

theorem LivesIn.item {cell : Cell} {items : List Value}
    (lives : (array cell items).LivesIn heap) {item : Value} (member : item ∈ items) :
    item.LivesIn heap :=
  fun part inside => lives part (.item member inside)

theorem LivesIn.part (lives : value.LivesIn heap) {part : Value}
    (inside : part.Part value) : part.LivesIn heap := by
  induction inside with
  | self => exact lives
  | item member _ inductionHypothesis => exact inductionHypothesis (lives.item member)

theorem livesIn_of_cell?_eq_none (none : value.cell? = none) : value.LivesIn heap := by
  intro part inside cell built
  cases inside with
  | self => cases none.symm.trans built
  | item => cases none

/-- A value that is built of what lives in the heap goes into the next cell. -/
theorem exists_livesIn_of_built (placed : value.cell? = some heap.length)
    (parts : ∀ cell items, value = array cell items → ∀ item ∈ items, item.LivesIn heap) :
    ∃ later, heap <+: later ∧ later.length = heap.length + 1 ∧ value.LivesIn later := by
  refine ⟨heap ++ [value], List.prefix_append .., by simp, ?_⟩
  intro part inside cell built
  cases inside with
  | self =>
      cases placed.symm.trans built
      exact List.getElem?_concat_length
  | item member inside =>
      have lives := parts _ _ rfl _ member
      exact lives.mono (List.prefix_append ..) part inside cell built

theorem exists_livesIn_array {items : List Value} (lives : ∀ item ∈ items, item.LivesIn heap) :
    ∃ later, heap <+: later ∧ later.length = heap.length + 1 ∧
      (array heap.length items).LivesIn later := by
  refine exists_livesIn_of_built rfl ?_
  rintro _ _ ⟨⟩
  exact lives

end Living

/-! ## Identical and equal values -/

/-- Identical values without a cell are the same, and the others have the same cell. -/
theorem eq_or_cell?_of_identical {left right : Value}
    (identical : left.identical right = true) :
    left = right ∨ ∃ cell, left.cell? = some cell ∧ right.cell? = some cell := by
  revert identical
  fun_cases Value.identical left right with
  | case1 | case2 | case4 =>
      intro same
      exact Or.inl (congrArg _ (of_decide_eq_true same))
  | case3 => exact fun _ => Or.inl rfl
  | case5 | case6 | case7 | case8 =>
      intro same
      exact Or.inr ⟨_, rfl, congrArg some (of_decide_eq_true same).symm⟩
  | case9 => exact nofun

/-- The value with the cell of a string forgotten, which is what equality looks at. -/
def upToText : Value → Value
  | string _ content => string 0 content
  | other => other

section Coherence

variable {heap : Heap} {left right : Value} (leftLives : left.LivesIn heap)
  (rightLives : right.LivesIn heap)

include leftLives rightLives

theorem LivesIn.identical_iff : left.identical right = true ↔ left = right := by
  constructor
  · intro identical
    rcases eq_or_cell?_of_identical identical with same | ⟨cell, leftCell, rightCell⟩
    · exact same
    · exact Option.some.inj ((leftLives.own leftCell).symm.trans (rightLives.own rightCell))
  · rintro rfl
    exact left.identical_self

theorem LivesIn.equal_iff : left.equal right = true ↔ left.upToText = right.upToText := by
  have identical := leftLives.identical_iff rightLives
  cases left <;> cases right <;>
    simp only [equal, upToText, identical, decide_eq_true_eq, string.injEq, true_and,
      reduceCtorEq]

/-- Identity tells strings apart that equality does not, and no other values. -/
theorem LivesIn.equal_ne_identical_iff :
    left.equal right ≠ left.identical right ↔
      ∃ content cell other, cell ≠ other ∧
        left = .string cell content ∧ right = .string other content := by
  have sameCell := leftLives.identical_iff rightLives
  revert sameCell
  fun_cases equal left right with
  | case1 cell content other text =>
      intro sameCell
      simp only [identical, decide_eq_true_eq, string.injEq] at sameCell
      simp only [identical, ne_eq, decide_eq_decide]
      constructor
      · intro differ
        have sameText : content = text := by
          by_contra otherText
          exact differ (iff_of_false otherText fun same => otherText (sameCell.mp same).2)
        subst sameText
        exact ⟨content, cell, other, fun same => differ (iff_of_true rfl same), rfl, rfl⟩
      · rintro ⟨_, _, _, apart, ⟨⟩, ⟨⟩⟩ agree
        exact apart (agree.mp rfl)
  | case2 left right others =>
      refine fun _ => ⟨fun differ => absurd rfl differ, ?_⟩
      rintro ⟨content, cell, other, _, rfl, rfl⟩
      exact absurd rfl (others cell content other content rfl)

end Coherence

section Equivalence

variable {heap : Heap} {holds : Value → Prop}
  (lives : ∀ value, holds value → value.LivesIn heap)

include lives

theorem equivalence_identical :
    Equivalence fun left right : { value // holds value } =>
      left.val.identical right.val = true := by
  have same (left right : { value // holds value }) :=
    (lives left left.property).identical_iff (lives right right.property)
  simp only [same]
  exact InvImage.equivalence Eq Subtype.val eq_equivalence

theorem equivalence_equal :
    Equivalence fun left right : { value // holds value } =>
      left.val.equal right.val = true := by
  have same (left right : { value // holds value }) :=
    (lives left left.property).equal_iff (lives right right.property)
  simp only [same]
  exact InvImage.equivalence Eq (fun value : { value // holds value } => value.val.upToText)
    eq_equivalence

end Equivalence

end Value

/-! ## What builtins answer -/

namespace Answer

/-- What the answer hands on and what it is built of lives in the heap. -/
def LivesIn (heap : Heap) : Answer → Prop
  | value given => given.LivesIn heap
  | array items => ∀ item ∈ items, item.LivesIn heap
  | string _ | misuse _ | printed _ => True

end Answer

namespace Builtin

variable {heap : Heap}

theorem livesIn_onArray (builtin : Builtin) {argument : Value}
    {answer : List Value → Answer} (lives : argument.LivesIn heap)
    (each : ∀ items : List Value, (∀ item ∈ items, item.LivesIn heap) →
      (answer items).LivesIn heap) :
    (builtin.onArray argument answer).LivesIn heap := by
  cases argument with
  | array cell items => exact each items fun item member => lives.item member
  | _ => trivial

theorem livesIn_lengthOf (argument : Value) : (lengthOf argument).LivesIn heap := by
  cases argument with
  | array | string => exact Value.livesIn_of_cell?_eq_none rfl
  | _ => trivial

theorem livesIn_getD {item? : Option Value}
    (lives : ∀ item, item? = some item → item.LivesIn heap) :
    (Answer.value (item?.getD .null)).LivesIn heap := by
  cases item? with
  | none => exact Value.livesIn_of_cell?_eq_none rfl
  | some item => exact lives item rfl

theorem livesIn_join (items : List Value) (separator : String) :
    (join items separator).LivesIn heap := by
  unfold join
  split
  · exact Value.livesIn_of_cell?_eq_none rfl
  · split <;> trivial

theorem livesIn_answer_one (builtin : Builtin) {argument : Value}
    (lives : argument.LivesIn heap) : (builtin.answer [argument]).LivesIn heap := by
  cases builtin with
  | len => exact livesIn_lengthOf argument
  | first =>
      exact livesIn_onArray .first lives fun items each =>
        livesIn_getD fun item found => each item (List.mem_of_head? found)
  | last =>
      exact livesIn_onArray .last lives fun items each =>
        livesIn_getD fun item found => each item (List.mem_of_getLast? found)
  | rest =>
      refine livesIn_onArray .rest lives fun items each => ?_
      cases items with
      | nil => exact Value.livesIn_of_cell?_eq_none rfl
      | cons first items => exact (List.forall_mem_cons.mp each).2
  | pop =>
      refine livesIn_onArray .pop lives fun items each => ?_
      unfold popOf
      split
      · exact fun item member => each item (items.dropLast_subset member)
      · exact Value.livesIn_of_cell?_eq_none rfl
  | push | stringJoin | print => trivial

theorem livesIn_answer_two (builtin : Builtin) {argument other : Value}
    (lives : argument.LivesIn heap) (otherLives : other.LivesIn heap) :
    (builtin.answer [argument, other]).LivesIn heap := by
  cases builtin with
  | push =>
      exact livesIn_onArray .push lives fun items each =>
        List.forall_mem_append.mpr ⟨each, List.forall_mem_singleton.mpr otherLives⟩
  | stringJoin =>
      refine livesIn_onArray .stringJoin lives fun items _ => ?_
      cases other with
      | string cell separator => exact livesIn_join items separator
      | _ => trivial
  | len | first | last | rest | pop | print => trivial

theorem livesIn_answer (builtin : Builtin) {arguments : List Value}
    (lives : ∀ argument ∈ arguments, argument.LivesIn heap) :
    (builtin.answer arguments).LivesIn heap := by
  rcases arguments with _ | ⟨argument, _ | ⟨other, _ | ⟨third, rest⟩⟩⟩
  · cases builtin <;> trivial
  · exact livesIn_answer_one builtin (lives argument List.mem_cons_self)
  · obtain ⟨first, second⟩ := List.forall_mem_cons.mp lives
    exact livesIn_answer_two builtin first (List.forall_mem_singleton.mp second)
  · cases builtin <;> trivial

/-- A call builds at most one value, in the next cell, and hands on no others than those
that live in the heap. -/
theorem exists_livesIn_call (builtin : Builtin) {arguments : List Value}
    (lives : ∀ argument ∈ arguments, argument.LivesIn heap) :
    ∃ later, heap <+: later ∧
      later.length = (builtin.call arguments heap.length).fresh ∧
      (builtin.call arguments heap.length).value.LivesIn later := by
  have answered := builtin.livesIn_answer lives
  unfold call
  generalize builtin.answer arguments = answer at answered
  cases answer with
  | value given => exact ⟨heap, List.prefix_rfl, rfl, answered⟩
  | printed lines =>
      exact ⟨heap, List.prefix_rfl, rfl, Value.livesIn_of_cell?_eq_none rfl⟩
  | array items => exact Value.exists_livesIn_array answered
  | string | misuse => exact Value.exists_livesIn_of_built rfl nofun

end Builtin

end ExprMachine
