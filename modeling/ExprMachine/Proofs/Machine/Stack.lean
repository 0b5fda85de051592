import ExprMachine.Machine

/-!
# The stack of a machine

The slots of a machine below `top` are its stack, read as a list from the bottom
to the top. A `View` is what matters of a machine while instructions follow one
another: the stack, the number of slots, the globals, the printed text and the
cells in use. Slots above the stack are left out of it.

For each operation on the stack there is a statement of what it does to the view
when the operands are there, and of how it stops when they are not.
-/

namespace ExprMachine

/-- What matters of a machine between two instructions. -/
structure View where
  stack : List Value
  capacity : Nat
  globals : Array Value
  printed : String
  fresh : Cell

def View.withStack (view : View) (stack : List Value) : View :=
  { view with stack }

namespace Machine

variable {machine : Machine}

/-- The values in use, from the bottom to the top. -/
def stack (machine : Machine) : List Value :=
  machine.slots.toList.take machine.top

def view (machine : Machine) : View where
  stack := machine.stack
  capacity := machine.slots.size
  globals := machine.globals
  printed := machine.printed
  fresh := machine.fresh

@[simp]
theorem length_stack (machine : Machine) : machine.stack.length = machine.top := by
  rw [stack, List.length_take, Array.length_toList]
  exact Nat.min_eq_left machine.top_le

theorem length_stack_le (machine : Machine) :
    machine.stack.length ≤ machine.slots.size := by
  rw [length_stack]
  exact machine.top_le

theorem top_of_stack {stack : List Value} (shape : machine.stack = stack) :
    machine.top = stack.length := by
  rw [← shape, length_stack]

theorem valuesFrom_eq_drop (machine : Machine) (first : Nat) :
    machine.valuesFrom first = machine.stack.drop first := by
  rw [valuesFrom, stack, Array.toList_extract, List.extract_eq_take_drop,
    List.drop_take]

/-! ## Pushing -/

theorem push_of_room (room : machine.top < machine.slots.size) (value : Value) :
    ∃ next, machine.push value = .ok next ∧
      next.view = machine.view.withStack (machine.stack ++ [value]) := by
  obtain ⟨slots, top, globals, printed, fresh, top_le⟩ := machine
  refine ⟨_, dif_pos room, ?_⟩
  have pushed :
      (slots.set top value room).toList.take (top + 1) =
        slots.toList.take top ++ [value] := by
    rw [Array.toList_set, List.take_add_one, List.take_set_of_le (Nat.le_refl top)]
    simp [room]
  simp only [view, stack, View.withStack, pushed, Array.size_set]

theorem push_of_full (full : machine.slots.size ≤ machine.top) (value : Value) :
    machine.push value = machine.fail (.stackOverflow machine.slots.size) := by
  obtain ⟨slots, top, globals, printed, fresh, top_le⟩ := machine
  exact dif_neg (Nat.not_lt_of_le full)

/-! ## Popping -/

/-- The value on top is popped, and is then the one that was popped last. -/
theorem pop_of_stack {below : List Value} {value : Value}
    (shape : machine.stack = below ++ [value]) :
    ∃ next, machine.pop = .ok (value, next) ∧
      next.view = machine.view.withStack below ∧ next.lastPopped = value := by
  have height := top_of_stack shape
  obtain ⟨slots, top, globals, printed, fresh, top_le⟩ := machine
  rw [List.length_append, List.length_singleton] at height
  subst height
  have inside : below.length < slots.size := top_le
  have split :
      slots.toList.take below.length ++ [slots[below.length]] = below ++ [value] := by
    rw [← shape, stack, List.take_add_one]
    simp [inside]
  obtain ⟨front, last⟩ := List.append_inj' split rfl
  have popped : slots[below.length] = value := List.singleton_inj.mp last
  refine ⟨_, by rw [pop, popped], ?_, ?_⟩
  · have kept :
        (slots.setIfInBounds (below.length + 1) .null).toList.take below.length =
          below := by
      rw [Array.toList_setIfInBounds, List.take_set_of_le (Nat.le_succ _), front]
    simp only [view, stack, View.withStack, kept, Array.size_setIfInBounds]
  · have found :
        (slots.setIfInBounds (below.length + 1) .null)[below.length]? =
          some value := by
      rw [Array.getElem?_setIfInBounds_ne (Nat.succ_ne_self _), ← popped]
      exact Array.getElem?_eq_getElem inside
    simp only [lastPopped, found, Option.getD_some]

theorem pop_of_empty (empty : machine.top = 0) :
    machine.pop = machine.fail .stackUnderflow := by
  obtain ⟨slots, top, globals, printed, fresh, top_le⟩ := machine
  cases empty
  rfl

/-! ## Dropping -/

theorem take_clear (slots : Array Value) (first count : Nat) :
    (clear slots first count).toList.take first = slots.toList.take first := by
  suffices kept : ∀ start, first ≤ start →
      (clear slots start count).toList.take first = slots.toList.take first from
    kept first (Nat.le_refl first)
  intro start after
  induction count generalizing slots start with
  | zero => rfl
  | succ count inductionHypothesis =>
      rw [clear, inductionHypothesis _ _ (Nat.le_succ_of_le after),
        Array.toList_setIfInBounds, List.take_set_of_le after]

theorem view_dropTo (top : Nat) (below : top ≤ machine.top) :
    (machine.dropTo top below).view =
      machine.view.withStack (machine.stack.take top) := by
  obtain ⟨slots, oldTop, globals, printed, fresh, top_le⟩ := machine
  simp only [dropTo, view, stack, View.withStack, size_clear, take_clear,
    List.take_take, Nat.min_eq_left below]

/-! ## Outcomes -/

/-- The outcome is a machine with the given view. -/
def Reaches (outcome : Except Stopped Machine) (view : View) : Prop :=
  ∃ next, outcome = .ok next ∧ next.view = view

/-- The outcome is a machine with the given view that popped a value last. -/
def ReachesPopping (outcome : Except Stopped Machine) (view : View)
    (value : Value) : Prop :=
  ∃ next, outcome = .ok next ∧ next.view = view ∧ next.lastPopped = value

/-- The outcome is an error, after the given text was printed. -/
def StopsWith (outcome : Except Stopped Machine) (error : RuntimeError)
    (printed : String) : Prop :=
  ∃ stopped, outcome = .error stopped ∧ stopped.cause = .error error ∧
    stopped.machine.printed = printed

theorem stopsWith_fail (machine : Machine) (error : RuntimeError) :
    StopsWith (machine.fail error) error machine.printed :=
  ⟨_, rfl, rfl, rfl⟩

theorem reaches_push (room : machine.top < machine.slots.size) (value : Value) :
    Reaches (machine.push value)
      (machine.view.withStack (machine.stack ++ [value])) :=
  push_of_room room value

theorem stopsWith_push (full : machine.slots.size ≤ machine.top) (value : Value) :
    StopsWith (machine.push value) (.stackOverflow machine.slots.size)
      machine.printed := by
  rw [push_of_full full]
  exact stopsWith_fail machine _

/-! ## Operations on the values on top -/

/-- The outcome is that of an operation on values on top of others: the result
takes their place, or the error of the operation stops the run. -/
def Concludes (outcome : Except Stopped Machine) (machine : Machine)
    (below : List Value) : Except RuntimeError Value → Prop
  | .ok value =>
      Reaches outcome (machine.view.withStack (below ++ [value]))
  | .error error => StopsWith outcome error machine.printed

/-- When the operands have been popped, what remains is to push the result. -/
theorem concludes_of_popped {popped : Machine} {below : List Value}
    {outcome : Except Stopped Machine} {result : Except RuntimeError Value}
    (shape : popped.view = machine.view.withStack below)
    (room : below.length < machine.slots.size)
    (onValue : ∀ value, result = .ok value → outcome = popped.push value)
    (onError : ∀ error, result = .error error → outcome = popped.fail error) :
    Concludes outcome machine below result := by
  have stack : popped.stack = below := congrArg View.stack shape
  have slots : popped.slots.size = machine.slots.size :=
    congrArg View.capacity shape
  have printed : popped.printed = machine.printed := congrArg View.printed shape
  cases result with
  | ok value =>
      have inside : popped.top < popped.slots.size := by
        rw [top_of_stack stack, slots]
        exact room
      have pushed := reaches_push inside value
      rw [shape, stack] at pushed
      rw [onValue value rfl]
      exact pushed
  | error error =>
      have stopped := stopsWith_fail popped error
      rw [printed] at stopped
      rw [onError error rfl]
      exact stopped

theorem room_below {below operands : List Value}
    (shape : machine.stack = below ++ operands) (some : operands ≠ []) :
    below.length < machine.slots.size := by
  have bound := machine.length_stack_le
  have positive := List.length_pos_iff.mpr some
  rw [shape, List.length_append] at bound
  omega

theorem concludes_unary {below : List Value} {operand : Value}
    (shape : machine.stack = below ++ [operand])
    (operation : Value → Except RuntimeError Value) :
    Concludes (machine.unary operation) machine below (operation operand) := by
  obtain ⟨second, popped, secondView, _⟩ := pop_of_stack shape
  refine concludes_of_popped secondView (room_below shape (List.cons_ne_nil _ _))
    ?_ ?_
  · intro value result
    rw [unary, popped]
    simp only [bind, Except.bind, result]
  · intro error result
    rw [unary, popped]
    simp only [bind, Except.bind, result]

theorem concludes_binary {below : List Value} {left right : Value}
    (shape : machine.stack = below ++ [left, right])
    (operation : Value → Value → Except RuntimeError Value) :
    Concludes (machine.binary operation) machine below (operation left right) := by
  have firstShape : machine.stack = (below ++ [left]) ++ [right] := by
    rw [shape, List.append_assoc]
    rfl
  obtain ⟨second, poppedRight, secondView, _⟩ := pop_of_stack firstShape
  have secondShape : second.stack = below ++ [left] :=
    congrArg View.stack secondView
  obtain ⟨third, poppedLeft, thirdView, _⟩ := pop_of_stack secondShape
  rw [secondView] at thirdView
  refine concludes_of_popped thirdView (room_below shape (List.cons_ne_nil _ _))
    ?_ ?_
  · intro value result
    rw [binary, poppedRight]
    simp only [bind, Except.bind, poppedLeft, result]
  · intro error result
    rw [binary, poppedRight]
    simp only [bind, Except.bind, poppedLeft, result]

/-- Both comparisons find two values on top of the stack, and answer whether these are the
same value. -/
theorem reaches_comparison {below : List Value} {left right : Value}
    (shape : machine.stack = below ++ [left, right]) (constants : Array Value) :
    Reaches (machine.execute constants ⟨.equal, []⟩)
        (machine.view.withStack (below ++ [.boolean (left.identical right)])) ∧
      Reaches (machine.execute constants ⟨.notEqual, []⟩)
        (machine.view.withStack (below ++ [.boolean (!left.identical right)])) := by
  have equal := concludes_binary shape Comparison.equal.apply
  have notEqual := concludes_binary shape Comparison.notEqual.apply
  rw [Comparison.apply_equal] at equal
  rw [Comparison.apply_notEqual] at notEqual
  exact ⟨equal, notEqual⟩

/-- The machine that values from some slot on were dropped from, when that slot
is the first one above the rest of the stack. -/
theorem view_dropTo_of_stack {below dropped : List Value}
    (shape : machine.stack = below ++ dropped) {top : Nat}
    (height : top = below.length) (inside : top ≤ machine.top) :
    (machine.dropTo top inside).view = machine.view.withStack below := by
  rw [view_dropTo, shape, height, List.take_left]

theorem valuesFrom_of_stack {below above : List Value}
    (shape : machine.stack = below ++ above) {first : Nat}
    (height : first = below.length) : machine.valuesFrom first = above := by
  rw [valuesFrom_eq_drop, shape, height, List.drop_left]

/-- Pushing on a machine with a known view, after cells were taken and text was
printed. -/
theorem push_recorded {next : Machine} {view : View} (shape : next.view = view)
    (printed : String) (fresh : Cell) (value : Value) :
    if view.stack.length < view.capacity then
      Reaches (push { next with printed, fresh } value)
        { view with stack := view.stack ++ [value], printed, fresh }
    else
      StopsWith (push { next with printed, fresh } value)
        (.stackOverflow view.capacity) printed := by
  subst shape
  have height : next.view.stack.length = next.top := next.length_stack
  rw [height]
  split
  · next room => exact @reaches_push { next with printed, fresh } room value
  · next full =>
      exact @stopsWith_push { next with printed, fresh } (Nat.le_of_not_lt full) value

theorem collect_of_stack {below items : List Value}
    (shape : machine.stack = below ++ items) :
    if below.length < machine.slots.size then
      Reaches (machine.collect items.length)
        { machine.view with
          stack := below ++ [.array machine.fresh items]
          fresh := machine.fresh + 1 }
    else
      StopsWith (machine.collect items.length)
        (.stackOverflow machine.slots.size) machine.printed := by
  have height := top_of_stack shape
  rw [List.length_append] at height
  have first : machine.top - items.length = below.length := by omega
  have enough : items.length ≤ machine.top := by omega
  have dropped := view_dropTo_of_stack shape first (Nat.sub_le ..)
  have unfolded :
      machine.collect items.length =
        push { machine.dropTo (machine.top - items.length) (Nat.sub_le ..) with
            printed := machine.printed
            fresh := machine.fresh + 1 }
          (.array machine.fresh items) := by
    simp only [collect, if_pos enough, valuesFrom_of_stack shape first]
    rfl
  rw [unfolded]
  exact push_recorded dropped _ _ _

theorem slot_of_stack {below above : List Value} {value : Value}
    (shape : machine.stack = below ++ value :: above) {slot : Nat}
    (height : slot = below.length) : machine.slots[slot]? = some value := by
  have found : machine.stack[slot]? = some value := by
    rw [shape, height, List.getElem?_append_right (Nat.le_refl _), Nat.sub_self]
    rfl
  rw [stack] at found
  have inside : slot < machine.top := by
    have bound := top_of_stack shape
    rw [List.length_append, List.length_cons] at bound
    omega
  rw [List.getElem?_take_of_lt inside] at found
  rwa [Array.getElem?_toList] at found

theorem call_of_builtin {below arguments : List Value} {builtin : Builtin}
    (shape : machine.stack = below ++ .builtin builtin :: arguments) :
    Reaches (machine.call arguments.length)
      { machine.view with
        stack := below ++ [(builtin.call arguments machine.fresh).value]
        printed := machine.printed ++ (builtin.call arguments machine.fresh).printed
        fresh := (builtin.call arguments machine.fresh).fresh } := by
  have height := top_of_stack shape
  rw [List.length_append, List.length_cons] at height
  have slot : machine.top - 1 - arguments.length = below.length := by omega
  have inside : machine.top - 1 - arguments.length ≤ machine.top := by omega
  have enough : arguments.length < machine.top := by omega
  have argumentShape :
      machine.stack = (below ++ [.builtin builtin]) ++ arguments := by
    rw [shape, List.append_assoc]
    rfl
  have argumentSlot :
      machine.top - 1 - arguments.length + 1 =
        (below ++ [Value.builtin builtin]).length := by
    rw [slot, List.length_append, List.length_singleton]
  have values := valuesFrom_of_stack argumentShape argumentSlot
  have dropped := view_dropTo_of_stack shape slot inside
  have unfolded :
      machine.call arguments.length =
        push { machine.dropTo (machine.top - 1 - arguments.length) inside with
            printed := machine.printed ++ (builtin.call arguments machine.fresh).printed
            fresh := (builtin.call arguments machine.fresh).fresh }
          (builtin.call arguments machine.fresh).value := by
    simp only [call, dif_pos enough, slot_of_stack shape slot, Option.getD_some,
      values]
    rfl
  have pushed := push_recorded dropped
    (machine.printed ++ (builtin.call arguments machine.fresh).printed)
    (builtin.call arguments machine.fresh).fresh
    (builtin.call arguments machine.fresh).value
  have room : below.length < machine.slots.size :=
    room_below shape (List.cons_ne_nil _ _)
  rw [unfolded]
  exact (if_pos room).mp pushed

theorem call_of_other {below arguments : List Value} {callee : Value}
    (shape : machine.stack = below ++ callee :: arguments)
    (other : ∀ builtin, callee ≠ .builtin builtin) :
    machine.call arguments.length = machine.fail (.notCallable callee.kind) := by
  have height := top_of_stack shape
  rw [List.length_append, List.length_cons] at height
  have slot : machine.top - 1 - arguments.length = below.length := by omega
  have enough : arguments.length < machine.top := by omega
  simp only [call, dif_pos enough, slot_of_stack shape slot, Option.getD_some]

theorem discard_of_stack {below : List Value} {value : Value}
    (shape : machine.stack = below ++ [value]) (constants : Array Value)
    (operands : List Nat) :
    ReachesPopping (machine.execute constants ⟨.pop, operands⟩)
      (machine.view.withStack below) value := by
  obtain ⟨next, popped, nextView, last⟩ := pop_of_stack shape
  refine ⟨next, ?_, nextView, last⟩
  simp only [execute, popped, bind, Except.bind]

/-- Globals with a value in one slot. Slots before it that are missing are
null. -/
def store (globals : Array Value) (slot : Nat) (value : Value) : Array Value :=
  let padded := globals ++ Array.replicate (slot + 1 - globals.size) Value.null
  padded.setIfInBounds slot value

/-- The value on top is moved to a slot of the globals. -/
theorem setGlobal_of_stack {below : List Value} {value : Value}
    (shape : machine.stack = below ++ [value]) (slot : Nat) :
    ReachesPopping (machine.setGlobal slot)
      { machine.view with
        stack := below
        globals := store machine.globals slot value } value := by
  obtain ⟨next, popped, nextView, last⟩ := pop_of_stack shape
  have globals : next.globals = machine.globals := congrArg View.globals nextView
  refine ⟨{ next with globals := store machine.globals slot value }, ?_, ?_, last⟩
  · simp only [setGlobal, popped, bind, Except.bind, globals, store]
  · have capacity : next.slots.size = machine.slots.size :=
      congrArg View.capacity nextView
    have printed : next.printed = machine.printed := congrArg View.printed nextView
    have fresh : next.fresh = machine.fresh := congrArg View.fresh nextView
    have rest : next.stack = below := congrArg View.stack nextView
    simp only [view, stack, ← capacity, ← printed, ← fresh, ← rest]

end Machine

end ExprMachine
