import ExprMachine.Proofs.Machine.Faults

/-!
# Dead values are released

The slot above the values in use still holds the value that was popped last, and every
slot above that one holds null. A pop moves the slot of the last value down by one and
clears the one above it, a push writes into it, and dropping values clears all that they
leave. So an instruction that is given up halfway, because its operands do not fit or
because there is no room for its result, leaves no value behind either.
-/

namespace ExprMachine

namespace Machine

theorem getElem?_clear (slots : Array Value) (first count slot : Nat) :
    (clear slots first count)[slot]? =
      if first ≤ slot ∧ slot < first + count then slots[slot]?.map fun _ => .null
      else slots[slot]? := by
  induction count generalizing slots first with
  | zero => rw [clear, if_neg (by omega)]
  | succ count inductionHypothesis =>
      rw [clear, inductionHypothesis, Array.getElem?_setIfInBounds]
      by_cases here : first = slot
      · subst here
        by_cases inside : first < slots.size
        · rw [if_neg (by omega), if_pos rfl, if_pos inside, if_pos (by omega),
            Array.getElem?_eq_getElem inside]
          rfl
        · rw [if_neg (by omega), if_pos rfl, if_neg inside, if_pos (by omega),
            Array.getElem?_eq_none (Nat.le_of_not_lt inside)]
          rfl
      · simp only [if_neg here]
        by_cases within : first + 1 ≤ slot ∧ slot < first + 1 + count
        · rw [if_pos within, if_pos (by omega)]
        · rw [if_neg within, if_neg (by omega)]

end Machine

/-- Operands can only be missed. -/
theorem Opcode.miss_of_operandsAt {opcode : Opcode} {code : List UInt8} {offset : Nat}
    {stop : RawStop} (failed : opcode.operandsAt code offset = .error stop) :
    ∃ access, stop = .miss access := by
  have read := opcode.operandsAt_decode code offset
  split at read
  · cases read.symm.trans failed
  · obtain ⟨place, missed⟩ := read
    cases failed.symm.trans missed
    exact ⟨_, rfl⟩

theorem RawRun.mem_states_cons {moment : Moment} {moments : List Moment}
    {outcome : Except RawStop RawMachine} {state : RawMachine} :
    state ∈ states ⟨moment :: moments, outcome⟩ ↔
      state = moment.machine ∨ state ∈ states ⟨moments, outcome⟩ :=
  List.mem_cons

namespace RawMachine

/-! ## Released slots -/

/-- The stack has the given number of slots, and at most as many values are in use. Above
the slot of the value popped last, which comes after them, every slot holds null. -/
structure Released (capacity : Nat) (state : RawMachine) : Prop where
  size_eq : state.slots.size = capacity
  top_le : state.top ≤ capacity
  null_above : ∀ slot value, state.top < slot → state.slots[slot]? = some value →
    value = .null

theorem released_start (stackSize : Nat) (globals : Array Value) (cell : Cell) :
    (start stackSize globals cell).Released stackSize where
  size_eq := Array.size_replicate
  top_le := Nat.zero_le _
  null_above := by
    intro slot value _ found
    rw [start, Array.getElem?_replicate] at found
    split at found <;> cases found
    rfl

/-- An outcome leaves a state whose slots are released, unless an access missed. -/
inductive Releases (capacity : Nat) {α : Type} (state : α → RawMachine) :
    Except RawStop α → Prop
  | ok {result : α} :
      (state result).Released capacity → Releases capacity state (.ok result)
  | error (error : RuntimeError) {machine : RawMachine} :
      machine.Released capacity → Releases capacity state (.error (.error error machine))
  | miss (access : Access) : Releases capacity state (.error (.miss access))

namespace Releases

variable {capacity : Nat} {α β : Type} {state : α → RawMachine} {nextState : β → RawMachine}

theorem bind {first : Except RawStop α} {next : α → Except RawStop β}
    (releases : Releases capacity state first)
    (later : ∀ result, (state result).Released capacity →
      Releases capacity nextState (next result)) :
    Releases capacity nextState (first >>= next) := by
  cases releases with
  | ok released => exact later _ released
  | error error released => exact .error error released
  | miss access => exact .miss access

/-- An access changes no state. -/
theorem afterAccess {γ : Type} {access : Access} {found : Option γ}
    {next : γ → Except RawStop α}
    (later : ∀ value, found = some value → Releases capacity state (next value)) :
    Releases capacity state (reach access found >>= next) := by
  cases found with
  | some value => exact later value rfl
  | none => exact .miss access

end Releases

/-! ## The stack -/

section Stack

variable {capacity : Nat} {machine : RawMachine} (released : machine.Released capacity)

include released

theorem releases_push (value : Value) : Releases capacity id (machine.push value) := by
  unfold push
  split
  · exact .error _ released
  · next room =>
      refine .afterAccess fun slots written => ?_
      unfold write? at written
      split at written <;> cases written
      next inside =>
        refine .ok ⟨?_, ?_, ?_⟩
        · exact (Array.size_set inside).trans released.size_eq
        · exact Nat.le_trans inside (Nat.le_of_eq released.size_eq)
        · intro slot other above found
          have different : machine.top ≠ slot := Nat.ne_of_lt (Nat.lt_of_succ_lt above)
          simp only [id, Array.getElem?_set_ne inside different] at found
          exact released.null_above slot other (Nat.lt_of_succ_lt above) found

/-- The slot above the popped value is cleared, if there is one. -/
theorem releases_pop : Releases capacity Prod.snd machine.pop := by
  unfold pop
  split
  · exact .error _ released
  · next positive =>
      refine .afterAccess fun top lowered => .afterAccess fun value _ => ?_
      unfold subtract? at lowered
      split at lowered <;> cases lowered
      have height : machine.top - 1 + 1 = machine.top := Nat.sub_one_add_one positive
      have cleared : (write? machine.slots machine.top Value.null).getD machine.slots =
          machine.slots.setIfInBounds machine.top .null := by
        rw [write?, Array.setIfInBounds]
        split <;> rfl
      rw [height, cleared]
      refine .ok ⟨?_, ?_, ?_⟩
      · exact Array.size_setIfInBounds.trans released.size_eq
      · exact Nat.le_trans (Nat.sub_le ..) released.top_le
      · intro slot other above found
        simp only [Array.getElem?_setIfInBounds] at found
        split at found
        · split at found <;> cases found
          rfl
        · exact released.null_above slot other (by simp only at above; omega) found

theorem releases_dropTo (top : Nat) : Releases capacity id (machine.dropTo top) := by
  refine .afterAccess fun slots cleared => ?_
  unfold clear? at cleared
  split at cleared <;> cases cleared
  next bounds =>
    refine .ok ⟨?_, ?_, ?_⟩
    · exact (Machine.size_clear ..).trans released.size_eq
    · have size_eq := released.size_eq
      simp only [id]
      omega
    · intro slot value above found
      simp only [id, Machine.getElem?_clear] at found
      split at found
      · cases there : machine.slots[slot]? <;> rw [there] at found <;> cases found
        rfl
      · next beyond =>
          have inside := (Array.getElem?_eq_some_iff.mp found).1
          exact released.null_above slot value (by simp only [id] at above; omega) found

end Stack

/-! ## Instructions -/

section Instructions

variable {capacity : Nat} {machine : RawMachine} (released : machine.Released capacity)

include released

theorem releases_unary (operation : Value → Except RuntimeError Value) :
    Releases capacity id (machine.unary operation) := by
  refine (releases_pop released).bind fun (operand, next) popped => ?_
  dsimp only
  cases operation operand with
  | ok value => exact releases_push popped value
  | error error => exact .error error popped

/-- The first operand may be popped when the second one is missing. -/
theorem releases_binary (operation : Value → Value → Except RuntimeError Value) :
    Releases capacity id (machine.binary operation) := by
  refine (releases_pop released).bind fun (right, middle) poppedRight => ?_
  refine (releases_pop poppedRight).bind fun (left, next) popped => ?_
  dsimp only
  cases operation left right with
  | ok value => exact releases_push popped value
  | error error => exact .error error popped

theorem releases_collect (count : Nat) : Releases capacity id (machine.collect count) := by
  unfold collect
  split
  · exact .error _ released
  · refine .afterAccess fun first _ => .afterAccess fun items _ => ?_
    refine (releases_dropTo released first).bind fun dropped rest => ?_
    have recorded : Released capacity { dropped with fresh := machine.fresh + 1 } :=
      ⟨rest.size_eq, rest.top_le, rest.null_above⟩
    exact releases_push recorded _

theorem releases_setGlobal (slot : Nat) :
    Releases capacity id (machine.setGlobal slot) := by
  refine (releases_pop released).bind fun (value, next) popped => ?_
  refine .afterAccess fun globals _ => ?_
  exact .ok ⟨popped.size_eq, popped.top_le, popped.null_above⟩

theorem releases_call (argumentCount : Nat) :
    Releases capacity id (machine.call argumentCount) := by
  unfold call
  split
  · exact .error _ released
  · refine .afterAccess fun last _ => .afterAccess fun calleeSlot _ =>
      .afterAccess fun callee _ => ?_
    cases callee with
    | builtin builtin =>
        refine .afterAccess fun arguments _ => ?_
        have answered := builtin.rawAnswer_eq arguments.toList
        rw [Array.toArray_toList] at answered
        rw [answered]
        refine (releases_dropTo released calleeSlot).bind fun dropped rest => ?_
        let outcome := builtin.call arguments.toList machine.fresh
        have recorded : Released capacity { dropped with
            printed := machine.printed ++ outcome.printed
            fresh := outcome.fresh } :=
          ⟨rest.size_eq, rest.top_le, rest.null_above⟩
        exact releases_push recorded outcome.value
    | _ => exact .error _ released

/-- An instruction releases what it takes off the stack, also if it stops halfway. -/
theorem releases_execute (constants : Array Value) (instruction : Instruction) :
    Releases capacity id (machine.execute constants instruction) := by
  obtain ⟨opcode, operands⟩ := instruction
  cases opcode with
  | constant | getBuiltin =>
      exact .afterAccess fun value _ => releases_push released _
  | pushTrue | pushFalse | pushNull | getGlobal => exact releases_push released _
  | add | subtract | multiply | divide => exact releases_binary released _
  | equal => exact releases_binary released Comparison.equal.apply
  | notEqual => exact releases_binary released Comparison.notEqual.apply
  | greaterThan => exact releases_binary released Comparison.greaterThan.apply
  | minus => exact releases_unary released Value.opposite
  | bang => exact releases_unary released fun operand => .ok operand.negated
  | pop => exact (releases_pop released).bind fun _ popped => .ok popped
  | array => exact releases_collect released _
  | setGlobal => exact releases_setGlobal released _
  | call => exact releases_call released _

end Instructions

/-! ## Runs -/

theorem Releases.released_of_mem {capacity : Nat} {outcome : Except RawStop RawMachine}
    (releases : Releases capacity id outcome) {state : RawMachine}
    (member : state ∈ RawRun.states ⟨[], outcome⟩) : state.Released capacity := by
  cases releases with
  | ok released =>
      cases List.mem_singleton.mp member
      exact released
  | error error released =>
      cases List.mem_singleton.mp member
      exact released
  | miss access => cases member

/-- A run goes through states whose slots are released, and leaves one behind. -/
theorem released_of_mem_runFrom {capacity : Nat} {bytecode : Bytecode} {counter : Nat}
    {machine : RawMachine} (released : machine.Released capacity) {state : RawMachine}
    (member : state ∈ (machine.runFrom bytecode counter).states) :
    state.Released capacity := by
  -- Each case but the last begins with a line that is dispatched in the first state.
  fun_induction runFrom bytecode counter machine with
  | case1 counter machine inside byte unknown =>
      rcases RawRun.mem_states_cons.mp member with rfl | last
      · exact released
      · exact (Releases.error _ released).released_of_mem last
  | case2 counter machine inside byte opcode known stop failed =>
      obtain ⟨access, rfl⟩ := Opcode.miss_of_operandsAt failed
      rcases RawRun.mem_states_cons.mp member with rfl | last
      · exact released
      · exact (Releases.miss access).released_of_mem last
  | case3 counter machine inside byte opcode known operands next found instruction moment
      stop failed =>
      rcases RawRun.mem_states_cons.mp member with rfl | last
      · exact released
      · have releases := releases_execute released bytecode.constants instruction
        rw [failed] at releases
        exact releases.released_of_mem last
  | case4 counter machine inside byte opcode known operands next found instruction moment
      after executed rest inductionHypothesis =>
      rcases RawRun.mem_states_cons.mp member with rfl | later
      · exact released
      · have releases := releases_execute released bytecode.constants instruction
        rw [executed] at releases
        cases releases with
        | ok afterReleased => exact inductionHypothesis afterReleased later
  | case5 counter machine ended =>
      exact (Releases.ok released).released_of_mem member

end RawMachine

/-- In all states that a run goes through and in the one that it leaves behind, whatever
the bytes and also after an error, the stack has the slots that it had at first, there
are no more values in use than slots, and all slots above the one of the value popped
last hold null. -/
theorem run_releases_slots (bytecode : Bytecode) (stackSize : Nat) (globals : Array Value)
    (cell : Cell) :
    let outcome := (Machine.start stackSize globals cell).run bytecode
    let run := (RawMachine.start stackSize globals cell).run bytecode
    Agrees Machine.raw outcome run.outcome ∧
      ∀ state ∈ run.states, state.Released stackSize := by
  intro outcome run
  refine ⟨(lockstep_run bytecode stackSize globals cell).agrees, fun state member => ?_⟩
  have started := RawMachine.released_start stackSize globals cell
  exact RawMachine.released_of_mem_runFrom started member

end ExprMachine
