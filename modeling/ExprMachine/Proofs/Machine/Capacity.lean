import ExprMachine.Proofs.Machine.Simulation

/-!
# Stacks of different sizes

A machine with more slots does what the smaller one does, as long as the smaller one
does not run out of slots. What keeps the two alike is that the slots which only the
larger machine has are all null: it never pushes that far, and where it clears one of
them, the smaller machine has nothing to clear and the slot stays null. So even the
value popped last is the same when the smaller stack is full and has no slot for it.
-/

namespace ExprMachine

namespace Machine

/-- The machine with more slots, which are all null. -/
def widen (extra : Nat) (machine : Machine) : Machine where
  slots := machine.slots ++ Array.replicate extra .null
  top := machine.top
  globals := machine.globals
  printed := machine.printed
  fresh := machine.fresh
  top_le := by
    rw [Array.size_append]
    exact Nat.le_add_right_of_le machine.top_le

theorem widen_start {stackSize larger : Nat} (more : stackSize ≤ larger)
    (globals : Array Value) (cell : Cell) :
    (start stackSize globals cell).widen (larger - stackSize) =
      start larger globals cell := by
  simp only [widen, start, Array.replicate_append_replicate, Nat.add_sub_cancel' more]

/-- The second outcome is the widened form of the first one, unless the smaller machine
ran out of slots. -/
inductive OutcomeWidened {α : Type} (extra : Nat) (wide : α → α) :
    Except Stopped α → Except Stopped α → Prop
  | ok (result : α) : OutcomeWidened extra wide (.ok result) (.ok (wide result))
  | stopped (cause : StopCause) (machine : Machine) :
      OutcomeWidened extra wide (.error ⟨cause, machine⟩)
        (.error ⟨cause, machine.widen extra⟩)
  | overflow (capacity : Nat) (machine : Machine) (outcome : Except Stopped α) :
      OutcomeWidened extra wide (.error ⟨.error (.stackOverflow capacity), machine⟩)
        outcome

theorem OutcomeWidened.bind {α β : Type} {extra : Nat} {wide : α → α} {nextWide : β → β}
    {first wideFirst : Except Stopped α} {next wideNext : α → Except Stopped β}
    (same : OutcomeWidened extra wide first wideFirst)
    (later : ∀ result,
      OutcomeWidened extra nextWide (next result) (wideNext (wide result))) :
    OutcomeWidened extra nextWide (first >>= next) (wideFirst >>= wideNext) := by
  cases same with
  | ok result => exact later result
  | stopped cause machine => exact .stopped cause machine
  | overflow capacity machine outcome => exact .overflow capacity machine _

/-! ## Slots -/

section Slots

variable (slots : Array Value) (extra : Nat)

/-- Clearing one of the slots beyond leaves it null. -/
theorem setIfInBounds_append_null (slot : Nat) :
    (slots ++ Array.replicate extra Value.null).setIfInBounds slot .null =
      slots.setIfInBounds slot .null ++ Array.replicate extra .null := by
  rw [Array.setIfInBounds_append]
  split
  · rfl
  · next beyond =>
      rw [Array.setIfInBounds_replicate_self,
        Array.setIfInBounds_eq_of_size_le (Nat.le_of_not_lt beyond)]

theorem clear_append_null (first count : Nat) :
    clear (slots ++ Array.replicate extra .null) first count =
      clear slots first count ++ Array.replicate extra .null := by
  induction count generalizing slots first with
  | zero => rfl
  | succ count inductionHypothesis =>
      rw [clear, clear, setIfInBounds_append_null, inductionHypothesis]

end Slots

/-! ## The stack -/

section Stack

variable (extra : Nat) (machine : Machine)

/-- A push goes to the same slot, unless only the larger machine has it. -/
theorem push_widen (value : Value) :
    OutcomeWidened extra (widen extra) (machine.push value)
      ((machine.widen extra).push value) := by
  obtain ⟨slots, top, globals, printed, fresh, top_le⟩ := machine
  by_cases room : top < slots.size
  · have wideRoom : top < (slots ++ Array.replicate extra Value.null).size := by
      rw [Array.size_append]
      exact Nat.lt_add_right _ room
    rw [push, widen, push, dif_pos room, dif_pos wideRoom]
    simp only [Array.set_append_left room]
    exact .ok (Machine.mk (slots.set top value) (top + 1) globals printed fresh _)
  · rw [push_of_full (Nat.le_of_not_lt room)]
    exact .overflow _ _ _

theorem pop_widen :
    OutcomeWidened extra (fun popped => (popped.1, popped.2.widen extra)) machine.pop
      (machine.widen extra).pop := by
  obtain ⟨slots, top, globals, printed, fresh, top_le⟩ := machine
  cases top with
  | zero => exact .stopped _ ⟨slots, 0, globals, printed, fresh, top_le⟩
  | succ top =>
      have wideRoom : top < (slots ++ Array.replicate extra Value.null).size := by
        rw [Array.size_append]
        exact Nat.lt_add_right _ top_le
      have value : (slots ++ Array.replicate extra Value.null)[top] = slots[top] :=
        Array.getElem_append_left top_le
      rw [pop, widen, pop]
      simp only [value, setIfInBounds_append_null]
      exact .ok (slots[top],
        Machine.mk (slots.setIfInBounds (top + 1) .null) top globals printed fresh _)

theorem dropTo_widen (top : Nat) (below : top ≤ machine.top)
    (wideBelow : top ≤ (machine.widen extra).top) :
    (machine.widen extra).dropTo top wideBelow = (machine.dropTo top below).widen extra := by
  obtain ⟨slots, oldTop, globals, printed, fresh, top_le⟩ := machine
  simp only [dropTo, widen, clear_append_null]

theorem stack_widen : (machine.widen extra).stack = machine.stack := by
  rw [stack, stack, widen, Array.toList_append, List.take_append_of_le_length]
  exact machine.top_le

theorem valuesFrom_widen (first : Nat) :
    (machine.widen extra).valuesFrom first = machine.valuesFrom first := by
  rw [valuesFrom_eq_drop, valuesFrom_eq_drop, stack_widen]

theorem slot_widen {slot : Nat} (inside : slot < machine.slots.size) :
    (machine.widen extra).slots[slot]? = machine.slots[slot]? :=
  Array.getElem?_append_left inside

/-! ## Instructions -/

theorem unary_widen (operation : Value → Except RuntimeError Value) :
    OutcomeWidened extra (widen extra) (machine.unary operation)
      ((machine.widen extra).unary operation) := by
  refine (pop_widen extra machine).bind fun (operand, next) => ?_
  dsimp only
  cases operation operand with
  | ok value => exact push_widen extra next value
  | error error => exact .stopped _ next

theorem binary_widen (operation : Value → Value → Except RuntimeError Value) :
    OutcomeWidened extra (widen extra) (machine.binary operation)
      ((machine.widen extra).binary operation) := by
  refine (pop_widen extra machine).bind fun (right, middle) => ?_
  refine (pop_widen extra middle).bind fun (left, next) => ?_
  dsimp only
  cases operation left right with
  | ok value => exact push_widen extra next value
  | error error => exact .stopped _ next

theorem collect_widen (count : Nat) :
    OutcomeWidened extra (widen extra) (machine.collect count)
      ((machine.widen extra).collect count) := by
  have same : (machine.widen extra).top = machine.top := rfl
  by_cases enough : count ≤ machine.top
  · have below := Nat.sub_le machine.top count
    simp only [collect, same, if_pos enough, valuesFrom_widen,
      dropTo_widen extra machine _ below]
    exact push_widen extra
      { machine.dropTo (machine.top - count) below with fresh := machine.fresh + 1 } _
  · simp only [collect, same, if_neg enough]
    exact .stopped _ machine

theorem setGlobal_widen (slot : Nat) :
    OutcomeWidened extra (widen extra) (machine.setGlobal slot)
      ((machine.widen extra).setGlobal slot) := by
  refine (pop_widen extra machine).bind fun (value, next) => ?_
  let globals := next.globals ++ Array.replicate (slot + 1 - next.globals.size) .null
  exact .ok { next with globals := globals.setIfInBounds slot value }

theorem call_widen (argumentCount : Nat) :
    OutcomeWidened extra (widen extra) (machine.call argumentCount)
      ((machine.widen extra).call argumentCount) := by
  have same : (machine.widen extra).top = machine.top := rfl
  by_cases enough : argumentCount < machine.top
  · have inside : machine.top - 1 - argumentCount < machine.slots.size := by
      have bound := machine.top_le
      omega
    have below : machine.top - 1 - argumentCount ≤ machine.top := by omega
    simp only [call, same, dif_pos enough, valuesFrom_widen, slot_widen extra machine inside,
      dropTo_widen extra machine _ below]
    split
    · next builtin _ =>
        let arguments := machine.valuesFrom (machine.top - 1 - argumentCount + 1)
        let outcome := builtin.call arguments machine.fresh
        exact push_widen extra
          { machine.dropTo (machine.top - 1 - argumentCount) below with
            printed := machine.printed ++ outcome.printed
            fresh := outcome.fresh } outcome.value
    · exact .stopped _ machine
  · simp only [call, same, dif_neg enough]
    exact .stopped _ machine

/-- An instruction does the same in a machine with more slots. -/
theorem execute_widen (constants : Array Value) (instruction : Instruction) :
    OutcomeWidened extra (widen extra) (machine.execute constants instruction)
      ((machine.widen extra).execute constants instruction) := by
  obtain ⟨opcode, operands⟩ := instruction
  cases opcode with
  | constant =>
      simp only [execute]
      split
      · exact push_widen extra machine _
      · exact .stopped _ machine
  | getBuiltin =>
      simp only [execute]
      split
      · exact push_widen extra machine _
      · exact .stopped _ machine
  | pushTrue | pushFalse | pushNull | getGlobal => exact push_widen extra machine _
  | add | subtract | multiply | divide => exact binary_widen extra machine _
  | equal => exact binary_widen extra machine Comparison.equal.apply
  | notEqual => exact binary_widen extra machine Comparison.notEqual.apply
  | greaterThan => exact binary_widen extra machine Comparison.greaterThan.apply
  | minus => exact unary_widen extra machine Value.opposite
  | bang => exact unary_widen extra machine fun operand => .ok operand.negated
  | pop => exact (pop_widen extra machine).bind fun popped => .ok popped.2
  | array => exact collect_widen extra machine _
  | setGlobal => exact setGlobal_widen extra machine _
  | call => exact call_widen extra machine _

/-! ## Runs -/

/-- A run goes the same way in a machine with more slots. -/
theorem runFrom_widen (constants : Array Value) (offset : Nat) (stream : List UInt8) :
    OutcomeWidened extra (widen extra) (machine.runFrom constants offset stream)
      ((machine.widen extra).runFrom constants offset stream) := by
  fun_induction runFrom constants offset stream machine with
  | case1 offset machine =>
      rw [runFrom]
      exact .ok machine
  | case2 offset byte stream machine unknown =>
      rw [runFrom_cons, unknown]
      exact .stopped _ machine
  | case3 offset byte stream machine opcode truncated =>
      rw [runFrom_cons, truncated]
      exact .stopped _ machine
  | case4 offset byte stream machine instruction rest fetched next executed
      inductionHypothesis =>
      have wide := execute_widen extra machine constants instruction
      rw [executed] at wide
      rw [runFrom_cons, fetched]
      dsimp only
      generalize (machine.widen extra).execute constants instruction = outcome at wide ⊢
      cases wide
      exact inductionHypothesis
  | case5 offset byte stream machine instruction rest fetched stopped executed =>
      have wide := execute_widen extra machine constants instruction
      rw [executed] at wide
      rw [runFrom_cons, fetched]
      dsimp only
      generalize (machine.widen extra).execute constants instruction = outcome at wide ⊢
      cases wide with
      | stopped cause machine => exact .stopped cause machine
      | overflow capacity machine => exact .overflow capacity machine _

/-! ## What is seen at the end -/

theorem topValue?_widen : (machine.widen extra).topValue? = machine.topValue? := by
  have same : (machine.widen extra).top = machine.top := rfl
  rw [topValue?, topValue?, same]
  split
  · rfl
  · next positive =>
      have inside : machine.top - 1 < machine.slots.size := by
        have bound := machine.top_le
        omega
      exact slot_widen extra machine inside

/-- When the smaller stack is full, there is no slot for a value popped last, and the
larger machine has null there. -/
theorem lastPopped_widen : (machine.widen extra).lastPopped = machine.lastPopped := by
  by_cases inside : machine.top < machine.slots.size
  · exact congrArg (·.getD .null) (slot_widen extra machine inside)
  · have beyond := Nat.le_of_not_lt inside
    have none : machine.slots[machine.top]? = none := Array.getElem?_eq_none beyond
    have wide : (machine.widen extra).slots[machine.top]? =
        (Array.replicate extra Value.null)[machine.top - machine.slots.size]? :=
      Array.getElem?_append_right beyond
    have same : (machine.widen extra).top = machine.top := rfl
    rw [lastPopped, lastPopped, same, none, wide, Array.getElem?_replicate]
    split <;> rfl

end Stack

/-- What can be seen of a machine when its run has ended. -/
structure Observed where
  printed : String
  globals : Array Value
  top : Nat
  topValue? : Option Value
  lastPopped : Value

def observed (machine : Machine) : Observed :=
  ⟨machine.printed, machine.globals, machine.top, machine.topValue?, machine.lastPopped⟩

theorem observed_widen (extra : Nat) (machine : Machine) :
    (machine.widen extra).observed = machine.observed := by
  rw [observed, observed, topValue?_widen, lastPopped_widen]
  rfl

/-- Both runs go through or stop for the same cause, and the same is seen of the
machines afterwards. -/
inductive EndAlike : Except Stopped Machine → Except Stopped Machine → Prop
  | ok {machine other : Machine} :
      other.observed = machine.observed → EndAlike (.ok machine) (.ok other)
  | stopped (cause : StopCause) {machine other : Machine} :
      other.observed = machine.observed →
        EndAlike (.error ⟨cause, machine⟩) (.error ⟨cause, other⟩)

/-- A run that does not overflow its stack ends alike with a larger one. -/
theorem run_with_larger_stack {stackSize larger : Nat} (more : stackSize ≤ larger)
    (bytecode : Bytecode) (globals : Array Value) (cell : Cell)
    (enough : ∀ capacity,
      ¬Overflows capacity ((start stackSize globals cell).run bytecode)) :
    EndAlike ((start stackSize globals cell).run bytecode)
      ((start larger globals cell).run bytecode) := by
  have wide := runFrom_widen (larger - stackSize) (start stackSize globals cell)
    bytecode.constants 0 bytecode.code
  rw [widen_start more] at wide
  rw [run] at enough ⊢
  rw [run]
  generalize runFrom bytecode.constants 0 bytecode.code (start stackSize globals cell) =
    outcome at enough wide ⊢
  generalize runFrom bytecode.constants 0 bytecode.code (start larger globals cell) =
    largerOutcome at wide ⊢
  cases wide with
  | ok machine => exact .ok (observed_widen _ machine)
  | stopped cause machine => exact .stopped cause (observed_widen _ machine)
  | overflow capacity machine => exact absurd ⟨_, _, rfl, rfl, rfl⟩ (enough capacity)

/-- Two values fill a stack of two slots, so that no slot is left for a value popped
last. -/
theorem run_with_larger_stack_full :
    let bytecode : Bytecode := ⟨[5, 6], #[]⟩
    (∀ capacity, ¬Overflows capacity ((start 2 #[] 0).run bytecode)) ∧
      EndAlike ((start 2 #[] 0).run bytecode) ((start 3 #[] 0).run bytecode) := by
  intro bytecode
  have ended : (start 2 #[] 0).run bytecode =
      .ok ⟨#[.boolean true, .boolean false], 2, #[], "", 0, by decide⟩ := by
    have fits : ∀ instruction ∈ [Instruction.mk .pushTrue [], ⟨.pushFalse, []⟩],
        instruction.Fits := by
      simp [Instruction.Fits, Opcode.widths]
    exact runFrom_encodeAll fits #[] 0 (start 2 #[] 0)
  have enough : ∀ capacity, ¬Overflows capacity ((start 2 #[] 0).run bytecode) := by
    rintro capacity ⟨printed, stopped, failed, _⟩
    rw [ended] at failed
    cases failed
  exact ⟨enough, run_with_larger_stack (by decide) bytecode #[] 0 enough⟩

end Machine

end ExprMachine
