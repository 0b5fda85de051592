import ExprMachine.Proofs.Machine.Accesses
import ExprMachine.Proofs.Machine.Stack
import ExprMachine.Proofs.Decoding

/-!
# The two machines agree

A raw machine that starts with no more values in use than it has slots runs as the
machine does. This is the invariant that makes all its accesses to the slots hit, and
those to the arguments and to the globals hit for reasons of their own. The accesses
that are left are the ones to the code, the constants and the builtins, and when one of
them misses, the machine stops with the fault that belongs to it.
-/

namespace ExprMachine

/-- The fault of the bytecode that a missing access amounts to, for those that can miss
at all. -/
def Access.fault? : Access → Option Fault
  | code _ => some .operandCutOff
  | constant _ => some .noSuchConstant
  | builtin _ => some .noSuchBuiltin
  | slot _ | slots .. | global _ | argument _ | items .. | below .. => none

/-- The state of a machine. -/
def Machine.raw (machine : Machine) : RawMachine :=
  ⟨machine.slots, machine.top, machine.globals, machine.printed, machine.fresh⟩

/-- The outcomes agree: the same results, the same errors with the same machine, or a
fault and the access that missed. -/
inductive Agrees {α β : Type} (raw : α → β) :
    Except Stopped α → Except RawStop β → Prop
  | ok (result : α) : Agrees raw (.ok result) (.ok (raw result))
  | error (error : RuntimeError) (machine : Machine) :
      Agrees raw (.error ⟨.error error, machine⟩) (.error (.error error machine.raw))
  | fault {access : Access} {fault : Fault} (machine : Machine) :
      access.fault? = some fault →
        Agrees raw (.error ⟨.fault fault, machine⟩) (.error (.miss access))

namespace Agrees

variable {α β γ δ : Type} {raw : α → β} {nextRaw : γ → δ}

theorem bind {first : Except Stopped α} {rawFirst : Except RawStop β}
    {next : α → Except Stopped γ} {rawNext : β → Except RawStop δ}
    (agrees : Agrees raw first rawFirst)
    (later : ∀ result, Agrees nextRaw (next result) (rawNext (raw result))) :
    Agrees nextRaw (first >>= next) (rawFirst >>= rawNext) := by
  cases agrees with
  | ok result => exact later result
  | error error machine => exact .error error machine
  | fault machine caused => exact .fault machine caused

theorem fail (machine : Machine) (error : RuntimeError) :
    Agrees raw (machine.fail error) (machine.raw.fail error) :=
  .error error machine

/-- An access that missed is one whose fault stopped the machine. -/
theorem fault_of_miss {outcome : Except Stopped α} {access : Access}
    (agrees : Agrees raw outcome (.error (.miss access))) :
    ∃ fault, access.fault? = some fault ∧
      ∃ machine, outcome = .error ⟨.fault fault, machine⟩ := by
  cases agrees with
  | fault machine caused => exact ⟨_, caused, machine, rfl⟩

end Agrees

/-! ## Accesses that hit -/

section Hits

variable {α : Type} {store : Array α} {first last number amount : Nat}

@[simp]
theorem reach_some (access : Access) (found : α) : reach access (some found) = .ok found :=
  rfl

theorem subtract?_of_le (enough : amount ≤ number) :
    subtract? number amount = some (number - amount) :=
  if_pos enough

theorem slice?_of_le (ordered : first ≤ last) (inside : last ≤ store.size) :
    slice? store first last = some (store.extract first last) :=
  if_pos ⟨ordered, inside⟩

theorem clear?_of_le {slots : Array Value} (ordered : first ≤ last)
    (inside : last ≤ slots.size) :
    clear? slots first last = some (Machine.clear slots first (last - first)) :=
  if_pos ⟨ordered, inside⟩

theorem write?_of_lt {index : Nat} (inside : index < store.size) (value : α) :
    write? store index value = some (store.set index value) :=
  dif_pos inside

end Hits

/-! ## Builtins -/

namespace Builtin

theorem withoutLast_eq (items : List Value) : withoutLast items = .ok (popOf items) := by
  by_cases several : 1 < items.length
  · have sliced : slice? items.toArray 0 (items.length - 1) =
        some (items.toArray.extract 0 (items.length - 1)) :=
      slice?_of_le (Nat.zero_le _) (Nat.sub_le ..)
    have kept : (items.toArray.extract 0 (items.length - 1)).toList = items.dropLast := by
      rw [Array.toList_extract, List.extract_eq_take_drop, List.drop_zero, Nat.sub_zero,
        List.dropLast_eq_take]
    simp only [withoutLast, popOf, if_pos several, subtract?_of_le (Nat.le_of_lt several),
      reach_some, sliced, bind, Except.bind, kept]
  · rw [withoutLast, popOf, if_neg several, if_neg several]

/-- An argument that is there is looked at as it is in the list of arguments. -/
theorem answerToArray_eq (builtin : Builtin) {arguments : Array Value} {argument : Value}
    {answer : List Value → Except RawStop Answer} {expected : List Value → Answer}
    (there : arguments[0]? = some argument)
    (same : ∀ items, answer items = .ok (expected items)) :
    builtin.answerToArray arguments 0 answer = .ok (builtin.onArray argument expected) := by
  rw [answerToArray, there]
  cases argument with
  | array cell items => exact same items
  | _ => rfl

theorem rawAnswer_one (builtin : Builtin) (argument : Value) :
    builtin.rawAnswer #[argument] = .ok (builtin.answer [argument]) := by
  cases builtin with
  | len | push | stringJoin | print => rfl
  | first | last | rest => exact answerToArray_eq _ rfl fun _ => rfl
  | pop => exact answerToArray_eq _ rfl withoutLast_eq

theorem rawAnswer_two (builtin : Builtin) (argument item : Value) :
    builtin.rawAnswer #[argument, item] = .ok (builtin.answer [argument, item]) := by
  cases builtin with
  | push => exact answerToArray_eq .push rfl fun items => rfl
  | stringJoin => exact answerToArray_eq .stringJoin rfl fun items => rfl
  | _ => rfl

/-- A builtin only looks at arguments that are there, because it counts them first. -/
theorem rawAnswer_eq (builtin : Builtin) (arguments : List Value) :
    builtin.rawAnswer arguments.toArray = .ok (builtin.answer arguments) := by
  rcases arguments with _ | ⟨argument, _ | ⟨item, _ | ⟨other, rest⟩⟩⟩
  · cases builtin <;> rfl
  · exact rawAnswer_one builtin argument
  · exact rawAnswer_two builtin argument item
  · cases builtin <;> rfl

end Builtin

/-! ## The stack -/

namespace Machine

variable (machine : Machine)

theorem raw_push (value : Value) :
    Agrees raw (machine.push value) (machine.raw.push value) := by
  obtain ⟨slots, top, globals, printed, fresh, top_le⟩ := machine
  by_cases room : top < slots.size
  · have written := write?_of_lt room value
    rw [push, dif_pos room]
    simp only [raw, RawMachine.push, if_neg (Nat.not_le_of_lt room), written, reach_some, bind,
      Except.bind]
    exact .ok (Machine.mk (slots.set top value) (top + 1) globals printed fresh _)
  · have full := Nat.le_of_not_lt room
    have rawFull : RawMachine.push ⟨slots, top, globals, printed, fresh⟩ value =
        RawMachine.fail ⟨slots, top, globals, printed, fresh⟩ (.stackOverflow slots.size) :=
      if_pos full
    rw [push_of_full full, raw, rawFull]
    exact .error _ _

theorem raw_pop :
    Agrees (fun popped => (popped.1, popped.2.raw)) machine.pop machine.raw.pop := by
  obtain ⟨slots, top, globals, printed, fresh, top_le⟩ := machine
  cases top with
  | zero => exact .fail _ _
  | succ top =>
      have cleared : (write? slots (top + 1) Value.null).getD slots =
          slots.setIfInBounds (top + 1) .null := by
        rw [write?, Array.setIfInBounds]
        split <;> rfl
      have kept : (slots.setIfInBounds (top + 1) Value.null)[top]? = some slots[top] := by
        rw [Array.getElem?_setIfInBounds_ne (Nat.succ_ne_self top)]
        exact Array.getElem?_eq_getElem top_le
      rw [pop]
      simp only [raw, RawMachine.pop, if_neg (Nat.succ_ne_zero top),
        subtract?_of_le (Nat.le_add_left 1 top), reach_some, bind, Except.bind,
        Nat.add_sub_cancel, cleared, kept]
      exact .ok (slots[top],
        Machine.mk (slots.setIfInBounds (top + 1) .null) top globals printed fresh _)

theorem clear_add (slots : Array Value) (first count more : Nat) :
    clear slots first (count + more) =
      clear (clear slots first count) (first + count) more := by
  induction count generalizing slots first with
  | zero => rw [Nat.zero_add, Nat.add_zero, clear]
  | succ count inductionHypothesis =>
      rw [Nat.succ_add, clear, clear, inductionHypothesis, Nat.succ_add_eq_add_succ]

/-- There is nothing to clear beyond the last slot. -/
theorem clear_to_end (slots : Array Value) {first : Nat} (inside : first ≤ slots.size) :
    clear slots first (slots.size + 1 - first) = clear slots first (slots.size - first) := by
  have beyond : (clear slots first (slots.size - first)).size ≤
      first + (slots.size - first) := by
    rw [size_clear]
    omega
  rw [Nat.succ_sub inside, Nat.succ_eq_add_one, clear_add, clear, clear,
    Array.setIfInBounds_eq_of_size_le beyond]

theorem raw_dropTo (top : Nat) (below : top ≤ machine.top) :
    machine.raw.dropTo top = .ok (machine.dropTo top below).raw := by
  obtain ⟨slots, oldTop, globals, printed, fresh, top_le⟩ := machine
  have ordered : top ≤ min (oldTop + 1) slots.size := by
    simp only at below
    omega
  have cleared := clear?_of_le ordered (Nat.min_le_right ..)
  -- The raw machine stops at the last slot, where the machine clears one that is not there.
  have same : clear slots top (min (oldTop + 1) slots.size - top) =
      clear slots top (oldTop + 1 - top) := by
    rcases Nat.lt_or_eq_of_le top_le with room | rfl
    · rw [Nat.min_eq_left room]
    · rw [Nat.min_eq_right (Nat.le_succ _), clear_to_end slots below]
  simp only [raw, RawMachine.dropTo, cleared, reach_some, bind, Except.bind, same, dropTo]

/-- The values in use from a slot on are a slice of the slots. -/
theorem slice_of_le {first : Nat} (inside : first ≤ machine.top) :
    slice? machine.slots first machine.top =
      some (machine.slots.extract first machine.top) :=
  slice?_of_le inside machine.top_le

/-! ## Instructions -/

theorem raw_unary (operation : Value → Except RuntimeError Value) :
    Agrees raw (machine.unary operation) (machine.raw.unary operation) := by
  refine machine.raw_pop.bind fun (operand, next) => ?_
  dsimp only
  cases operation operand with
  | ok value => exact next.raw_push value
  | error error => exact .fail next error

theorem raw_binary (operation : Value → Value → Except RuntimeError Value) :
    Agrees raw (machine.binary operation) (machine.raw.binary operation) := by
  refine machine.raw_pop.bind fun (right, middle) => ?_
  refine middle.raw_pop.bind fun (left, next) => ?_
  dsimp only
  cases operation left right with
  | ok value => exact next.raw_push value
  | error error => exact .fail next error

theorem raw_collect (count : Nat) :
    Agrees raw (machine.collect count) (machine.raw.collect count) := by
  by_cases enough : count ≤ machine.top
  · have below := Nat.sub_le machine.top count
    have dropped := machine.raw_dropTo (machine.top - count) below
    have sliced := machine.slice_of_le below
    have few : ¬machine.raw.top < count := Nat.not_lt_of_le enough
    rw [collect, if_pos enough, RawMachine.collect, if_neg few]
    simp only [raw] at dropped ⊢
    simp only [subtract?_of_le enough, sliced, dropped, reach_some, bind, Except.bind]
    exact raw_push { machine.dropTo (machine.top - count) below with
      fresh := machine.fresh + 1 } _
  · have few := Nat.lt_of_not_le enough
    have rawFew : machine.raw.collect count = machine.raw.fail .stackUnderflow := if_pos few
    rw [collect, if_neg enough, rawFew]
    exact .fail machine _

theorem raw_setGlobal (slot : Nat) :
    Agrees raw (machine.setGlobal slot) (machine.raw.setGlobal slot) := by
  refine machine.raw_pop.bind fun (value, next) => ?_
  obtain ⟨slots, top, globals, printed, fresh, top_le⟩ := next
  have inside : slot <
      (globals ++ Array.replicate (slot + 1 - globals.size) Value.null).size := by
    rw [Array.size_append, Array.size_replicate]
    omega
  simp only [raw, write?_of_lt inside, reach_some, bind, Except.bind,
    Array.setIfInBounds, dif_pos inside]
  exact .ok (Machine.mk slots top _ printed fresh top_le)

theorem raw_call (argumentCount : Nat) :
    Agrees raw (machine.call argumentCount) (machine.raw.call argumentCount) := by
  by_cases enough : argumentCount < machine.top
  · have few : ¬machine.raw.top ≤ argumentCount := Nat.not_le_of_lt enough
    have positive : 1 ≤ machine.top := Nat.lt_of_le_of_lt (Nat.zero_le _) enough
    have counted : argumentCount ≤ machine.top - 1 := Nat.le_sub_one_of_lt enough
    have below : machine.top - 1 - argumentCount ≤ machine.top := by omega
    have argumentsBelow : machine.top - 1 - argumentCount + 1 ≤ machine.top := by omega
    have inside : machine.top - 1 - argumentCount < machine.slots.size :=
      Nat.lt_of_lt_of_le argumentsBelow machine.top_le
    have found := Array.getElem?_eq_getElem inside
    have sliced := machine.slice_of_le argumentsBelow
    have dropped := machine.raw_dropTo _ below
    rw [call, dif_pos enough, RawMachine.call, if_neg few]
    simp only [raw] at dropped ⊢
    simp only [subtract?_of_le positive, subtract?_of_le counted, found, reach_some, bind,
      Except.bind, Option.getD_some]
    cases machine.slots[machine.top - 1 - argumentCount] with
    | builtin builtin =>
        let arguments := machine.valuesFrom (machine.top - 1 - argumentCount + 1)
        let outcome := builtin.call arguments machine.fresh
        have answered : builtin.rawAnswer
            (machine.slots.extract (machine.top - 1 - argumentCount + 1) machine.top) =
              .ok (builtin.answer arguments) :=
          builtin.rawAnswer_eq arguments
        simp only [sliced, answered, dropped, reach_some]
        exact raw_push { machine.dropTo (machine.top - 1 - argumentCount) below with
          printed := machine.printed ++ outcome.printed
          fresh := outcome.fresh } outcome.value
    | _ => exact .error _ machine
  · have few := Nat.le_of_not_lt enough
    have rawFew : machine.raw.call argumentCount = machine.raw.fail .stackUnderflow :=
      if_pos few
    rw [call, dif_neg enough, rawFew]
    exact .fail machine _

/-- An instruction does in the raw machine what it does in the machine, or misses a
constant or a builtin. -/
theorem raw_execute (constants : Array Value) (instruction : Instruction) :
    Agrees raw (machine.execute constants instruction)
      (machine.raw.execute constants instruction) := by
  obtain ⟨opcode, operands⟩ := instruction
  cases opcode with
  | constant =>
      simp only [execute, RawMachine.execute]
      cases constants[(Instruction.mk .constant operands).operand]? with
      | some value => exact machine.raw_push value
      | none => exact .fault machine rfl
  | getBuiltin =>
      simp only [execute, RawMachine.execute, Builtin.ofIndex?]
      cases Builtin.all[(Instruction.mk .getBuiltin operands).operand]? with
      | some builtin => exact machine.raw_push (.builtin builtin)
      | none => exact .fault machine rfl
  | pushTrue | pushFalse | pushNull | getGlobal => exact machine.raw_push _
  | add | subtract | multiply | divide => exact machine.raw_binary _
  | equal => exact machine.raw_binary Comparison.equal.apply
  | notEqual => exact machine.raw_binary Comparison.notEqual.apply
  | greaterThan => exact machine.raw_binary Comparison.greaterThan.apply
  | minus => exact machine.raw_unary Value.opposite
  | bang => exact machine.raw_unary fun operand => .ok operand.negated
  | pop => exact machine.raw_pop.bind fun popped => .ok popped.2
  | array => exact machine.raw_collect _
  | setGlobal => exact machine.raw_setGlobal _
  | call => exact machine.raw_call _

end Machine

end ExprMachine
