import ExprMachine.Machine
import Mathlib.Logic.Function.Basic

/-!
# Relocating values

The cell that a value was built in is only seen when values are compared, and then
only whether two cells are the same. So an injective relocation of cells changes
nothing of what operations on values do, apart from the names of cells in their
results. New cells are taken in order: a relocation moves all cells from a boundary on
by the same distance, so that taking the next cell and relocation can change places.
-/

namespace ExprMachine

/-- New names for cells. From the boundary on, the order of the cells is kept, and
no cell is left out. -/
structure Relocation where
  apply : Nat → Nat
  boundary : Nat
  injective : Function.Injective apply
  apply_add : ∀ count, apply (boundary + count) = apply boundary + count

namespace Relocation

variable {relocation : Relocation} {cell fresh : Nat}

/-- The relocation that keeps all names. -/
def refl : Relocation where
  apply := fun cell => cell
  boundary := 0
  injective := fun _ _ same => same
  apply_add := fun _ => rfl

theorem apply_add_of_le (inside : relocation.boundary ≤ cell) (count : Nat) :
    relocation.apply (cell + count) = relocation.apply cell + count := by
  obtain ⟨distance, rfl⟩ := Nat.exists_eq_add_of_le inside
  rw [Nat.add_assoc, relocation.apply_add, relocation.apply_add, Nat.add_assoc]

/-- Cells in use do not become fresh cells. -/
theorem apply_lt (inside : relocation.boundary ≤ fresh)
    (used : cell < fresh) : relocation.apply cell < relocation.apply fresh := by
  by_contra large
  obtain ⟨distance, same⟩ := Nat.exists_eq_add_of_le (Nat.le_of_not_lt large)
  rw [← apply_add_of_le inside] at same
  have equal := relocation.injective same
  omega

/-- The relocation that leaves out a number of cells, from the given one on. -/
def skip (relocation : Relocation) (inside : relocation.boundary ≤ fresh)
    (count : Nat) : Relocation where
  apply := fun cell =>
    if cell < fresh then relocation.apply cell else relocation.apply cell + count
  boundary := fresh
  injective := by
    intro first second same
    have apart : ∀ {used later}, used < fresh → ¬ later < fresh →
        relocation.apply used ≠ relocation.apply later + count := by
      intro used later isUsed isLater equal
      have after := Nat.le_of_not_lt isLater
      have below :=
        apply_lt (Nat.le_trans inside after) (Nat.lt_of_lt_of_le isUsed after)
      omega
    by_cases firstUsed : first < fresh <;> by_cases secondUsed : second < fresh <;>
      simp only [firstUsed, secondUsed, if_true, if_false] at same
    · exact relocation.injective same
    · exact absurd same (apart firstUsed secondUsed)
    · exact absurd same.symm (apart secondUsed firstUsed)
    · exact relocation.injective (Nat.add_right_cancel same)
  apply_add := by
    intro distance
    rw [if_neg (Nat.not_lt_of_le (Nat.le_add_right ..)), if_neg (Nat.lt_irrefl fresh),
      apply_add_of_le inside]
    omega

theorem apply_skip_of_lt (inside : relocation.boundary ≤ fresh)
    (count : Nat) (used : cell < fresh) :
    (relocation.skip inside count).apply cell = relocation.apply cell :=
  if_pos used

theorem apply_skip_fresh (inside : relocation.boundary ≤ fresh)
    (count : Nat) :
    (relocation.skip inside count).apply fresh = relocation.apply fresh + count :=
  if_neg (Nat.lt_irrefl fresh)

/-- The relocation that only leaves out a number of cells, from the given one on. -/
def gap (fresh count : Nat) : Relocation :=
  refl.skip (Nat.zero_le fresh) count

theorem apply_gap_of_lt (count : Nat) (used : cell < fresh) :
    (gap fresh count).apply cell = cell :=
  apply_skip_of_lt _ count used

theorem apply_gap_of_le (count : Nat) (later : fresh ≤ cell) :
    (gap fresh count).apply cell = cell + count :=
  if_neg (Nat.not_lt_of_le later)

/-- The relocation that exchanges the cells from the first to the second one with a number
of cells after them, and keeps all others. -/
def exchange {first second : Nat} (ordered : first ≤ second) (count : Nat) :
    Relocation where
  apply := fun cell =>
    if cell < first then cell
    else if cell < second then cell + count
    else if cell < second + count then first + (cell - second)
    else cell
  boundary := second + count
  injective := by
    intro cell other same
    simp only at same
    repeat' split at same
    all_goals omega
  apply_add := by
    intro distance
    repeat' rw [if_neg (by omega)]

section Exchange

variable {first second : Nat} (ordered : first ≤ second) (count : Nat)

theorem apply_exchange_of_lt_first (before : cell < first) :
    (exchange ordered count).apply cell = cell :=
  if_pos before

/-- Before the second cell, the first cells make way for the others. -/
theorem apply_exchange_of_lt_second (before : cell < second) :
    (exchange ordered count).apply cell = (gap first count).apply cell := by
  simp only [exchange, gap, skip, refl, before, if_true]

theorem apply_exchange_second_add {distance : Nat} (inside : distance < count) :
    (exchange ordered count).apply (second + distance) = first + distance := by
  simp only [exchange]
  rw [if_neg (by omega), if_neg (by omega), if_pos (by omega), Nat.add_sub_cancel_left]

theorem apply_exchange_boundary :
    (exchange ordered count).apply (second + count) = second + count := by
  simp only [exchange]
  rw [if_neg (by omega), if_neg (by omega), if_neg (Nat.lt_irrefl _)]

end Exchange

/-- The same relocation, of which only a later boundary is known. -/
def raise (relocation : Relocation) (inside : relocation.boundary ≤ fresh) :
    Relocation where
  apply := relocation.apply
  boundary := fresh
  injective := relocation.injective
  apply_add := relocation.apply_add_of_le inside

/-- The relocation that moves every cell from the given one on, and keeps all others. -/
def beyond (fresh : Nat) : Relocation :=
  gap fresh 1

theorem apply_beyond_of_lt (used : cell < fresh) : (beyond fresh).apply cell = cell :=
  apply_gap_of_lt 1 used

theorem lt_of_apply_beyond (kept : (beyond fresh).apply cell = cell) :
    cell < fresh := by
  by_contra unused
  have moved := apply_gap_of_le 1 (Nat.le_of_not_lt unused)
  rw [beyond] at kept
  omega

end Relocation

/-! ## Values -/

namespace Value

mutual

/-- The value with new names for the cells. -/
def relocate (relocation : Relocation) : Value → Value
  | integer value => integer value
  | boolean value => boolean value
  | null => null
  | builtin called => builtin called
  | string cell content => string (relocation.apply cell) content
  | array cell items => array (relocation.apply cell) (relocateAll relocation items)
  | error cell message => error (relocation.apply cell) message
  | function cell code localCount => function (relocation.apply cell) code localCount

def relocateAll (relocation : Relocation) : List Value → List Value
  | [] => []
  | item :: items => item.relocate relocation :: relocateAll relocation items

end

mutual

/-- The value and all its items were built in cells before the given one. -/
def Within (fresh : Cell) : Value → Prop
  | integer _ => True
  | boolean _ => True
  | null => True
  | builtin _ => True
  | string cell _ => cell < fresh
  | array cell items => cell < fresh ∧ AllWithin fresh items
  | error cell _ => cell < fresh
  | function cell _ _ => cell < fresh

def AllWithin (fresh : Cell) : List Value → Prop
  | [] => True
  | item :: items => item.Within fresh ∧ AllWithin fresh items

end

theorem relocateAll_eq_map (relocation : Relocation) (items : List Value) :
    relocateAll relocation items = items.map (relocate relocation) := by
  induction items with
  | nil => rfl
  | cons item items inductionHypothesis =>
      rw [relocateAll, inductionHypothesis, List.map_cons]

theorem allWithin_iff {fresh : Cell} {items : List Value} :
    AllWithin fresh items ↔ ∀ item ∈ items, item.Within fresh := by
  induction items with
  | nil => simp [AllWithin]
  | cons item items inductionHypothesis =>
      rw [AllWithin, inductionHypothesis, List.forall_mem_cons]

mutual

theorem Within.mono {fresh later : Cell} (le : fresh ≤ later) :
    {value : Value} → value.Within fresh → value.Within later
  | integer _, _ | boolean _, _ | null, _ | builtin _, _ => trivial
  | string .., within | error .., within | function .., within =>
      Nat.lt_of_lt_of_le within le
  | array .., within =>
      ⟨Nat.lt_of_lt_of_le within.1 le, AllWithin.mono le within.2⟩

theorem AllWithin.mono {fresh later : Cell} (le : fresh ≤ later) :
    {items : List Value} → AllWithin fresh items → AllWithin later items
  | [], _ => trivial
  | _ :: _, within => ⟨Within.mono le within.1, AllWithin.mono le within.2⟩

end

section Congruence

variable {relocation other : Relocation} {fresh : Cell}

mutual

/-- Only the names of the cells that are in use matter. -/
theorem relocate_congr
    (agree : ∀ cell, cell < fresh → relocation.apply cell = other.apply cell) :
    {value : Value} → value.Within fresh → value.relocate relocation = value.relocate other
  | integer _, _ | boolean _, _ | null, _ | builtin _, _ => rfl
  | string .., within => by rw [relocate, relocate, agree _ within]
  | error .., within => by rw [relocate, relocate, agree _ within]
  | function .., within => by rw [relocate, relocate, agree _ within]
  | array .., within => by
      rw [relocate, relocate, agree _ within.1, relocateAll_congr agree within.2]

theorem relocateAll_congr
    (agree : ∀ cell, cell < fresh → relocation.apply cell = other.apply cell) :
    {items : List Value} → AllWithin fresh items →
      relocateAll relocation items = relocateAll other items
  | [], _ => rfl
  | _ :: _, within => by
      rw [relocateAll, relocateAll, relocate_congr agree within.1,
        relocateAll_congr agree within.2]

end

end Congruence

section Raise

variable {relocation : Relocation} {fresh : Nat} (inside : relocation.boundary ≤ fresh)

mutual

@[simp]
theorem relocate_raise :
    (value : Value) → value.relocate (relocation.raise inside) = value.relocate relocation
  | integer _ | boolean _ | null | builtin _ => rfl
  | string .. | error .. | function .. => rfl
  | array _ items => congrArg (array _) (relocateAll_raise items)

theorem relocateAll_raise :
    (items : List Value) →
      relocateAll (relocation.raise inside) items = relocateAll relocation items
  | [] => rfl
  | item :: items => congrArg₂ List.cons (relocate_raise item) (relocateAll_raise items)

end

end Raise

mutual

@[simp]
theorem relocate_refl : (value : Value) → value.relocate .refl = value
  | integer _ | boolean _ | null | builtin _ => rfl
  | string .. | error .. | function .. => rfl
  | array _ items => by
      rw [relocate, relocateAll_refl items]
      rfl

theorem relocateAll_refl : (items : List Value) → relocateAll .refl items = items
  | [] => rfl
  | item :: items => by rw [relocateAll, relocate_refl item, relocateAll_refl items]

end

/-- Values are kept when the cells are that they were built in. -/
theorem relocate_of_kept {relocation : Relocation} {fresh : Cell}
    (kept : ∀ cell, cell < fresh → relocation.apply cell = cell) {value : Value}
    (within : value.Within fresh) : value.relocate relocation = value := by
  have same : value.relocate relocation = value.relocate .refl := relocate_congr kept within
  rw [same, relocate_refl]

theorem map_relocate_of_kept {relocation : Relocation} {fresh : Cell}
    (kept : ∀ cell, cell < fresh → relocation.apply cell = cell) {values : Array Value}
    (within : ∀ value ∈ values, value.Within fresh) :
    values.map (relocate relocation) = values := by
  rw [Array.map_congr_left fun value member => relocate_of_kept kept (within value member)]
  exact Array.map_id values

mutual

theorem within_of_relocate {fresh : Nat} :
    (value : Value) →
      value.relocate (.beyond fresh) = value →
        value.Within fresh
  | integer _, _ | boolean _, _ | null, _ | builtin _, _ => trivial
  | string .., kept | error .., kept | function .., kept => by
      injection kept with same
      exact Relocation.lt_of_apply_beyond same
  | array _ items, kept => by
      injection kept with same itemsSame
      exact ⟨Relocation.lt_of_apply_beyond same, allWithin_of_relocate items itemsSame⟩

theorem allWithin_of_relocate {fresh : Nat} :
    (items : List Value) →
      relocateAll (.beyond fresh) items = items →
        AllWithin fresh items
  | [], _ => trivial
  | item :: items, kept => by
      injection kept with same itemsSame
      exact ⟨within_of_relocate item same, allWithin_of_relocate items itemsSame⟩

end

/-- The values built before a cell are those that are kept when this cell and all
later ones are moved. -/
theorem within_iff {fresh : Nat} {value : Value} :
    value.Within fresh ↔
      value.relocate (.beyond fresh) = value := by
  constructor
  · intro within
    exact relocate_of_kept (fun _ => Relocation.apply_beyond_of_lt) within
  · exact within_of_relocate value

/-! ## Operations on values -/

variable (relocation : Relocation)
/-! ## Operations on values -/

variable (relocation : Relocation)

@[simp]
theorem kind_relocate (value : Value) : (value.relocate relocation).kind = value.kind := by
  cases value <;> rfl

/-- Values are identical under their new names exactly when they were before. -/
@[simp]
theorem identical_relocate (left right : Value) :
    (left.relocate relocation).identical (right.relocate relocation) =
      left.identical right := by
  cases left <;> cases right <;>
    simp only [relocate, identical, relocation.injective.eq_iff]

mutual

@[simp]
theorem append_relocate (value : Value) (done : String) :
    (value.relocate relocation).append done = value.append done := by
  cases value with
  | array cell items =>
      cases items with
      | nil => rfl
      | cons first items =>
          rw [relocate, relocateAll, append, append, append_relocate first,
            appendItems_relocateAll items]
  | boolean value => rfl
  | _ => rfl

theorem appendItems_relocateAll (items : List Value) (done : String) :
    appendItems (relocateAll relocation items) done = appendItems items done := by
  cases items with
  | nil => rfl
  | cons item items =>
      rw [relocateAll, appendItems, appendItems, append_relocate item,
        appendItems_relocateAll items]

end

@[simp]
theorem negated_relocate (value : Value) :
    (value.relocate relocation).negated = value.negated := by
  cases value <;> rfl

@[simp]
theorem opposite_relocate (value : Value) :
    (value.relocate relocation).opposite = value.opposite := by
  cases value <;> rfl

end Value

variable (relocation : Relocation)

@[simp]
theorem Arithmetic.apply_relocate (operation : Arithmetic) (left right : Value) :
    operation.apply (left.relocate relocation) (right.relocate relocation) =
      operation.apply left right := by
  cases left <;> cases right <;> rfl

@[simp]
theorem Comparison.apply_relocate (comparison : Comparison) (left right : Value) :
    comparison.apply (left.relocate relocation) (right.relocate relocation) =
      comparison.apply left right := by
  cases comparison with
  | equal => simp only [apply_equal, Value.identical_relocate]
  | notEqual => simp only [apply_notEqual, Value.identical_relocate]
  | greaterThan => cases left <;> cases right <;> rfl

/-! ## Builtins -/

namespace Answer

def relocate (relocation : Relocation) : Answer → Answer
  | value given => value (given.relocate relocation)
  | string content => string content
  | array items => array (items.map (Value.relocate relocation))
  | misuse cause => misuse cause
  | printed lines => printed lines

end Answer

namespace Builtin

theorem onArray_relocate (builtin : Builtin) (argument : Value)
    (answer : List Value → Answer) {relocated : List Value → Answer}
    (commutes : ∀ items, relocated (items.map (Value.relocate relocation)) =
      (answer items).relocate relocation) :
    builtin.onArray (argument.relocate relocation) relocated =
      (builtin.onArray argument answer).relocate relocation := by
  cases argument with
  | array cell items =>
      rw [Value.relocate, Value.relocateAll_eq_map]
      exact commutes items
  | _ => rfl

theorem lengthOf_relocate (argument : Value) :
    lengthOf (argument.relocate relocation) =
      (lengthOf argument).relocate relocation := by
  cases argument with
  | array cell items =>
      rw [Value.relocate, Value.relocateAll_eq_map, lengthOf, List.length_map]
      rfl
  | _ => rfl

theorem value_getD_relocate (item? : Option Value) :
    Answer.value ((item?.map (Value.relocate relocation)).getD .null) =
      (Answer.value (item?.getD .null)).relocate relocation := by
  cases item? <;> rfl

theorem restOf_relocate (items : List Value) :
    restOf (items.map (Value.relocate relocation)) =
      (restOf items).relocate relocation := by
  cases items <;> rfl

theorem popOf_relocate (items : List Value) :
    popOf (items.map (Value.relocate relocation)) =
      (popOf items).relocate relocation := by
  rw [popOf, popOf, List.length_map, ← List.map_dropLast]
  split <;> rfl

theorem content?_relocate (value : Value) :
    content? (value.relocate relocation) = content? value := by
  cases value <;> rfl

theorem join_relocate (items : List Value) (separator : String) :
    join (items.map (Value.relocate relocation)) separator =
      (join items separator).relocate relocation := by
  have contents : (items.map (Value.relocate relocation)).mapM content? =
      items.mapM content? := by
    rw [List.mapM_map]
    exact congrArg (fun read => items.mapM read)
      (funext (content?_relocate relocation))
  rw [join, join, contents, List.isEmpty_map]
  split
  · rfl
  · split <;> rfl

theorem joinWith_relocate (items : List Value) (separator : Value) :
    joinWith (items.map (Value.relocate relocation)) (separator.relocate relocation) =
      (joinWith items separator).relocate relocation := by
  cases separator with
  | string cell separator => exact join_relocate relocation items separator
  | _ => rfl

theorem linesOf_relocate (arguments : List Value) :
    linesOf (arguments.map (Value.relocate relocation)) = linesOf arguments := by
  rw [linesOf, linesOf, List.foldl_map]
  simp only [Value.append_relocate]

theorem answer_relocate_one (builtin : Builtin) (argument : Value) :
    builtin.answer [argument.relocate relocation] =
      (builtin.answer [argument]).relocate relocation := by
  cases builtin with
  | len => exact lengthOf_relocate relocation argument
  | first =>
      refine onArray_relocate relocation .first argument _ fun items => ?_
      rw [List.head?_map, value_getD_relocate]
  | last =>
      refine onArray_relocate relocation .last argument _ fun items => ?_
      rw [List.getLast?_map, value_getD_relocate]
  | rest => exact onArray_relocate relocation .rest argument _ (restOf_relocate relocation)
  | pop => exact onArray_relocate relocation .pop argument _ (popOf_relocate relocation)
  | print => exact congrArg Answer.printed (linesOf_relocate relocation [argument])
  | push | stringJoin => rfl

theorem answer_relocate_two (builtin : Builtin) (argument item : Value) :
    builtin.answer [argument.relocate relocation, item.relocate relocation] =
      (builtin.answer [argument, item]).relocate relocation := by
  cases builtin with
  | push =>
      refine onArray_relocate relocation .push argument
        (fun items => .array (items ++ [item])) fun items => ?_
      rw [Answer.relocate, List.map_append]
      rfl
  | stringJoin =>
      exact onArray_relocate relocation .stringJoin argument
        (fun items => joinWith items item) fun items =>
          joinWith_relocate relocation items item
  | print => exact congrArg Answer.printed (linesOf_relocate relocation [argument, item])
  | len | first | last | rest | pop => rfl

/-- A builtin answers under the new names as it did under the old ones. -/
theorem answer_relocate (builtin : Builtin) (arguments : List Value) :
    builtin.answer (arguments.map (Value.relocate relocation)) =
      (builtin.answer arguments).relocate relocation := by
  rcases arguments with _ | ⟨argument, _ | ⟨item, _ | ⟨other, rest⟩⟩⟩
  · cases builtin <;> rfl
  · exact answer_relocate_one relocation builtin argument
  · exact answer_relocate_two relocation builtin argument item
  · cases builtin with
    | print => exact congrArg Answer.printed (linesOf_relocate relocation _)
    | _ => simp only [answer, List.map_cons, List.length_cons, List.length_map, Answer.relocate]

end Builtin

def CallOutcome.relocate (relocation : Relocation) (outcome : CallOutcome) :
    CallOutcome where
  value := outcome.value.relocate relocation
  printed := outcome.printed
  fresh := relocation.apply outcome.fresh

variable {relocation} {fresh : Nat}

theorem Answer.build_relocate (inside : relocation.boundary ≤ fresh) (answer : Answer) :
    (answer.relocate relocation).build (relocation.apply fresh) =
      (answer.build fresh).relocate relocation := by
  have taken := relocation.apply_add_of_le inside 1
  cases answer with
  | value given => rfl
  | printed lines => rfl
  | string content | misuse cause =>
      simp only [relocate, build, CallOutcome.relocate, Value.relocate, taken]
  | array items =>
      simp only [relocate, build, CallOutcome.relocate, Value.relocate,
        Value.relocateAll_eq_map, taken]

/-- A call under the new names has the outcome that it had under the old ones. -/
theorem Builtin.call_relocate (inside : relocation.boundary ≤ fresh) (builtin : Builtin)
    (arguments : List Value) :
    builtin.call (arguments.map (Value.relocate relocation)) (relocation.apply fresh) =
      (builtin.call arguments fresh).relocate relocation := by
  rw [call, answer_relocate, Answer.build_relocate inside]
  rfl

theorem Value.map_relocate_beyond {values : List Value}
    (within : ∀ value ∈ values, value.Within fresh) :
    values.map (Value.relocate (.beyond fresh)) = values := by
  have same := List.map_congr_left fun value member =>
    within_iff.mp (within value member)
  exact same.trans (List.map_id' values)

theorem Answer.within_build {answer : Answer}
    (kept : answer.relocate (.beyond fresh) = answer) :
    (answer.build fresh).value.Within (answer.build fresh).fresh := by
  cases answer with
  | value given =>
      injection kept with same
      exact Value.within_iff.mpr same
  | array items =>
      injection kept with same
      refine ⟨Nat.lt_succ_self fresh, Value.AllWithin.mono (Nat.le_succ fresh) ?_⟩
      refine Value.allWithin_of_relocate items ?_
      rw [Value.relocateAll_eq_map]
      exact same
  | string content | misuse cause => exact Nat.lt_succ_self fresh
  | printed lines => trivial

theorem Answer.fresh_le_build (answer : Answer) (fresh : Cell) :
    fresh ≤ (answer.build fresh).fresh := by
  cases answer <;> first | exact Nat.le_refl fresh | exact Nat.le_succ fresh

/-- What a builtin answers was built before the cells that are still fresh. -/
theorem Builtin.within_call (builtin : Builtin) {arguments : List Value}
    (within : ∀ argument ∈ arguments, argument.Within fresh) :
    (builtin.call arguments fresh).value.Within (builtin.call arguments fresh).fresh := by
  refine Answer.within_build ?_
  rw [← answer_relocate, Value.map_relocate_beyond within]

end ExprMachine
