import ExprMachine.Proofs.Compilation.Validity
import ExprMachine.Proofs.Machine.Stack

/-!
# The depth of the stack

How many values an instruction takes off the stack and how many it leaves there
depends on the instruction alone, whatever the values are. So the depth of the
stack after some code can be told without running it. Code whose depth can be
told never finds too few values, and a run of it only stops with an error that
comes from the values or from the size of the stack.
-/

namespace ExprMachine

namespace Instruction

/-- The number of values that an instruction takes off the stack. -/
def takes (instruction : Instruction) : Nat :=
  match instruction.opcode with
  | .add | .subtract | .multiply | .divide => 2
  | .equal | .notEqual | .greaterThan => 2
  | .minus | .bang | .pop | .setGlobal => 1
  | .array => instruction.operand
  | .call => instruction.operand + 1
  | .constant | .pushTrue | .pushFalse | .pushNull | .getGlobal | .getBuiltin => 0

/-- The number of values that an instruction leaves in place of those it takes. -/
def leaves (instruction : Instruction) : Nat :=
  match instruction.opcode with
  | .pop | .setGlobal => 0
  | _ => 1

/-- The depth of the stack after an instruction, if the stack is deep enough. -/
def depthAfter (depth : Nat) (instruction : Instruction) : Option Nat :=
  if instruction.takes ≤ depth then
    some (depth - instruction.takes + instruction.leaves)
  else
    none

theorem takes_le_of_depthAfter {instruction : Instruction} {depth after : Nat}
    (told : depthAfter depth instruction = some after) : instruction.takes ≤ depth := by
  by_contra few
  rw [depthAfter, if_neg few] at told
  cases told

/-- The depth of the stack after code, if the stack is always deep enough. -/
def depthAfterAll (depth : Nat) (code : List Instruction) : Option Nat :=
  code.foldlM depthAfter depth

theorem depthAfterAll_cons (depth : Nat) (instruction : Instruction)
    (code : List Instruction) :
    depthAfterAll depth (instruction :: code) =
      (depthAfter depth instruction).bind fun depth => depthAfterAll depth code := rfl

theorem depthAfterAll_append (depth : Nat) (front back : List Instruction) :
    depthAfterAll depth (front ++ back) =
      (depthAfterAll depth front).bind fun depth => depthAfterAll depth back :=
  List.foldlM_append

theorem depthAfterAll_singleton (depth : Nat) (instruction : Instruction) :
    depthAfterAll depth [instruction] = depthAfter depth instruction := by
  rw [depthAfterAll_cons]
  cases depthAfter depth instruction <;> rfl

end Instruction

/-! ## Instructions that find their operands -/

/-- The outcome is a machine with a stack of the given depth, or an error that
comes from the values or from the size of the stack. -/
def EndsAt (depth : Nat) : Except Stopped Machine → Prop
  | .ok machine => machine.top = depth
  | .error stopped => ∃ error, stopped.cause = .error error ∧
      (error.OfValues ∨ ∃ capacity, error = .stackOverflow capacity)

namespace Machine

variable {machine : Machine} {constants : Array Value}
  {outcome : Except Stopped Machine}

theorem endsAt_of_reaches {view : View} (reaches : Reaches outcome view) :
    EndsAt view.stack.length outcome := by
  obtain ⟨next, rfl, same⟩ := reaches
  exact top_of_stack (congrArg View.stack same)

theorem endsAt_of_reachesPopping {view : View} {value : Value}
    (reaches : ReachesPopping outcome view value) :
    EndsAt view.stack.length outcome := by
  obtain ⟨next, reached, same, _⟩ := reaches
  exact endsAt_of_reaches ⟨next, reached, same⟩

theorem endsAt_of_stopsWith {error : RuntimeError} {printed : String}
    (stops : StopsWith outcome error printed)
    (known : error.OfValues ∨ ∃ capacity, error = .stackOverflow capacity)
    (depth : Nat) : EndsAt depth outcome := by
  obtain ⟨stopped, rfl, cause, _⟩ := stops
  exact ⟨error, cause, known⟩

theorem endsAt_of_concludes {below : List Value} {result : Except RuntimeError Value}
    (concludes : Concludes outcome machine below result)
    (raises : RaisesOfValues result) : EndsAt (below.length + 1) outcome := by
  cases result with
  | ok value =>
      have ends := endsAt_of_reaches concludes
      rw [View.withStack, List.length_append, List.length_singleton] at ends
      exact ends
  | error error =>
      exact endsAt_of_stopsWith concludes (Or.inl (raises error rfl)) _

/-- A push leaves one more value or overflows the stack. -/
theorem endsAt_push (machine : Machine) (value : Value) :
    EndsAt (machine.top + 1) (machine.push value) := by
  by_cases room : machine.top < machine.slots.size
  · have ends := endsAt_of_reaches (reaches_push room value)
    rw [View.withStack, List.length_append, length_stack] at ends
    exact ends
  · have stops := stopsWith_push (Nat.le_of_not_lt room) value
    exact endsAt_of_stopsWith stops (Or.inr ⟨_, rfl⟩) _

/-- The values on top of the stack, if there are enough of them. -/
theorem exists_operands {count : Nat} (enough : count ≤ machine.top) :
    ∃ below operands, machine.stack = below ++ operands ∧ operands.length = count ∧
      below.length = machine.top - count := by
  refine ⟨machine.stack.take (machine.top - count),
    machine.stack.drop (machine.top - count), (List.take_append_drop ..).symm, ?_, ?_⟩
  · rw [List.length_drop, length_stack]
    omega
  · rw [List.length_take, length_stack]
    omega

theorem endsAt_binary (enough : 2 ≤ machine.top)
    {operation : Value → Value → Except RuntimeError Value}
    (raises : ∀ left right, RaisesOfValues (operation left right)) :
    EndsAt (machine.top - 2 + 1) (machine.binary operation) := by
  obtain ⟨below, operands, shape, count, height⟩ := exists_operands enough
  obtain ⟨left, right, rfl⟩ := List.length_eq_two.mp count
  rw [← height]
  exact endsAt_of_concludes (concludes_binary shape operation) (raises left right)

theorem endsAt_unary (enough : 1 ≤ machine.top)
    {operation : Value → Except RuntimeError Value}
    (raises : ∀ operand, RaisesOfValues (operation operand)) :
    EndsAt (machine.top - 1 + 1) (machine.unary operation) := by
  obtain ⟨below, operands, shape, count, height⟩ := exists_operands enough
  obtain ⟨operand, rfl⟩ := List.length_eq_one_iff.mp count
  rw [← height]
  exact endsAt_of_concludes (concludes_unary shape operation) (raises operand)

theorem endsAt_collect {count : Nat} (enough : count ≤ machine.top) :
    EndsAt (machine.top - count + 1) (machine.collect count) := by
  obtain ⟨below, items, shape, rfl, height⟩ := exists_operands enough
  have collected := collect_of_stack shape
  rw [← height]
  split at collected
  · have ends := endsAt_of_reaches collected
    rw [List.length_append, List.length_singleton] at ends
    exact ends
  · exact endsAt_of_stopsWith collected (Or.inr ⟨_, rfl⟩) _

theorem endsAt_call {count : Nat} (enough : count + 1 ≤ machine.top) :
    EndsAt (machine.top - (count + 1) + 1) (machine.call count) := by
  obtain ⟨below, operands, shape, counted, height⟩ := exists_operands enough
  obtain ⟨callee, arguments, rfl⟩ := List.exists_cons_of_length_eq_add_one counted
  obtain rfl : arguments.length = count := Nat.succ.inj counted
  rw [← height]
  by_cases isBuiltin : ∃ builtin, callee = .builtin builtin
  · obtain ⟨builtin, rfl⟩ := isBuiltin
    have ends := endsAt_of_reaches (call_of_builtin shape)
    rw [List.length_append, List.length_singleton] at ends
    exact ends
  · have other : ∀ builtin, callee ≠ .builtin builtin := by
      intro builtin same
      exact isBuiltin ⟨builtin, same⟩
    have ofValues : (RuntimeError.notCallable callee.kind).OfValues := trivial
    rw [call_of_other shape other]
    exact endsAt_of_stopsWith (stopsWith_fail _ _) (Or.inl ofValues) _

theorem raisesOfValues_arithmetic (operation : Arithmetic) (left right : Value) :
    RaisesOfValues (operation.apply left right) := by
  rw [Arithmetic.apply_eq_evaluate]
  exact operation.raisesOfValues left right

theorem raisesOfValues_comparison (comparison : Comparison) (left right : Value) :
    RaisesOfValues (comparison.apply left right) := by
  cases comparison with
  | equal =>
      rw [Comparison.apply_equal]
      exact raisesOfValues_ok _
  | notEqual =>
      rw [Comparison.apply_notEqual]
      exact raisesOfValues_ok _
  | greaterThan =>
      rw [Comparison.apply_eq_exceeds]
      exact Value.raisesOfValues_exceeds left right

theorem raisesOfValues_opposite (operand : Value) :
    RaisesOfValues operand.opposite := by
  rw [Value.opposite_eq_evaluate]
  exact UnaryOperator.negate.raisesOfValues operand

/-- A valid instruction that finds its operands leaves the depth that can be told
from the instruction. -/
theorem endsAt_execute {instruction : Instruction}
    (valid : instruction.Valid constants.size) {depth : Nat}
    (told : instruction.depthAfter machine.top = some depth) :
    EndsAt depth (machine.execute constants instruction) := by
  obtain ⟨opcode, operands⟩ := instruction
  rw [Instruction.depthAfter] at told
  split at told
  · next enough =>
      cases told
      cases opcode with
      | constant =>
          have found := Array.getElem?_eq_getElem (valid.constant_lt rfl)
          simp only [execute, found]
          exact endsAt_push machine _
      | getBuiltin =>
          have found : Builtin.ofIndex? (Instruction.mk .getBuiltin operands).operand =
              some _ := List.getElem?_eq_getElem (valid.builtin_lt rfl)
          simp only [execute, found]
          exact endsAt_push machine _
      | pushTrue | pushFalse | pushNull | getGlobal => exact endsAt_push machine _
      | add | subtract | multiply | divide =>
          exact endsAt_binary enough (raisesOfValues_arithmetic _)
      | equal => exact endsAt_binary enough (raisesOfValues_comparison .equal)
      | notEqual => exact endsAt_binary enough (raisesOfValues_comparison .notEqual)
      | greaterThan =>
          exact endsAt_binary enough (raisesOfValues_comparison .greaterThan)
      | minus => exact endsAt_unary enough raisesOfValues_opposite
      | bang => exact endsAt_unary enough fun _ => raisesOfValues_ok _
      | array => exact endsAt_collect enough
      | call => exact endsAt_call enough
      | pop =>
          obtain ⟨below, dropped, shape, count, height⟩ := exists_operands enough
          obtain ⟨value, rfl⟩ := List.length_eq_one_iff.mp count
          have ends := endsAt_of_reachesPopping
            (discard_of_stack shape constants operands)
          rw [View.withStack, height] at ends
          exact ends
      | setGlobal =>
          obtain ⟨below, dropped, shape, count, height⟩ := exists_operands enough
          obtain ⟨value, rfl⟩ := List.length_eq_one_iff.mp count
          have ends := endsAt_of_reachesPopping (setGlobal_of_stack shape
            (Instruction.mk .setGlobal operands).operand)
          rw [height] at ends
          exact ends
  · cases told

/-! ## Instructions that do not -/

theorem pop_of_few (few : machine.top < 1) :
    machine.pop = machine.fail .stackUnderflow :=
  pop_of_empty (Nat.lt_one_iff.mp few)

theorem underflows_unary (few : machine.top < 1)
    (operation : Value → Except RuntimeError Value) :
    StopsWith (machine.unary operation) .stackUnderflow machine.printed := by
  rw [unary, pop_of_few few]
  exact stopsWith_fail machine _

theorem underflows_binary (few : machine.top < 2)
    (operation : Value → Value → Except RuntimeError Value) :
    StopsWith (machine.binary operation) .stackUnderflow machine.printed := by
  by_cases empty : machine.top < 1
  · rw [binary, pop_of_few empty]
    exact stopsWith_fail machine _
  · obtain ⟨below, operands, shape, count, height⟩ :=
      exists_operands (Nat.le_of_not_lt empty)
    obtain ⟨right, rfl⟩ := List.length_eq_one_iff.mp count
    obtain ⟨next, popped, nextView, _⟩ := pop_of_stack shape
    have printed : next.printed = machine.printed := congrArg View.printed nextView
    have nextTop : next.top = below.length :=
      top_of_stack (congrArg View.stack nextView)
    have nextFew : next.top < 1 := by omega
    rw [binary, popped]
    simp only [bind, Except.bind, pop_of_few nextFew, fail]
    rw [← printed]
    exact ⟨_, rfl, rfl, rfl⟩

theorem underflows_collect {count : Nat} (few : machine.top < count) :
    StopsWith (machine.collect count) .stackUnderflow machine.printed := by
  rw [collect, if_neg (Nat.not_le_of_lt few)]
  exact stopsWith_fail machine _

theorem underflows_call {count : Nat} (few : machine.top < count + 1) :
    StopsWith (machine.call count) .stackUnderflow machine.printed := by
  rw [call, dif_neg (Nat.not_lt_of_le (Nat.le_of_lt_succ few))]
  exact stopsWith_fail machine _

theorem underflows_setGlobal (few : machine.top < 1) (slot : Nat) :
    StopsWith (machine.setGlobal slot) .stackUnderflow machine.printed := by
  rw [setGlobal, pop_of_few few]
  exact stopsWith_fail machine _

/-- An instruction that takes more values than there are underflows the stack. -/
theorem underflows_execute {instruction : Instruction}
    (few : machine.top < instruction.takes) (constants : Array Value) :
    StopsWith (machine.execute constants instruction) .stackUnderflow
      machine.printed := by
  obtain ⟨opcode, operands⟩ := instruction
  cases opcode with
  | constant | getBuiltin | pushTrue | pushFalse | pushNull | getGlobal =>
      exact absurd few (Nat.not_lt_zero _)
  | add | subtract | multiply | divide => exact underflows_binary few _
  | equal => exact underflows_binary few Comparison.equal.apply
  | notEqual => exact underflows_binary few Comparison.notEqual.apply
  | greaterThan => exact underflows_binary few Comparison.greaterThan.apply
  | minus => exact underflows_unary few Value.opposite
  | bang => exact underflows_unary few fun operand => .ok operand.negated
  | array => exact underflows_collect few
  | call => exact underflows_call few
  | setGlobal => exact underflows_setGlobal few _
  | pop =>
      simp only [execute, pop_of_few few, bind, Except.bind, fail]
      exact stopsWith_fail machine _

/-! ## Code -/

/-- Valid code whose depth can be told is run to this depth, or stopped by an error
that comes from the values or from the size of the stack. -/
theorem endsAt_executeAll {code : List Instruction}
    (valid : CodeValid constants.size code) {depth : Nat}
    (told : Instruction.depthAfterAll machine.top code = some depth) :
    EndsAt depth (machine.executeAll constants code) := by
  induction code generalizing machine with
  | nil =>
      cases told
      exact rfl
  | cons instruction code inductionHypothesis =>
      have headValid := valid instruction List.mem_cons_self
      have tailValid : CodeValid constants.size code := fun other member =>
        valid other (List.mem_cons_of_mem instruction member)
      rw [Instruction.depthAfterAll_cons, Option.bind_eq_some_iff] at told
      obtain ⟨middle, headTold, tailTold⟩ := told
      have ends := endsAt_execute headValid headTold
      rw [executeAll_cons]
      cases executed : machine.execute constants instruction with
      | ok next =>
          rw [executed] at ends
          change next.top = middle at ends
          subst ends
          exact inductionHypothesis tailValid tailTold
      | error stopped =>
          rw [executed] at ends
          exact ends

theorem top_of_executeAll {code : List Instruction}
    (valid : CodeValid constants.size code) {depth : Nat}
    (told : Instruction.depthAfterAll machine.top code = some depth) {next : Machine}
    (ended : machine.executeAll constants code = .ok next) : next.top = depth := by
  have ends := endsAt_executeAll valid told
  rw [ended] at ends
  exact ends

end Machine

end ExprMachine
