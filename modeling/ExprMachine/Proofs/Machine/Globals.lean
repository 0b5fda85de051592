import ExprMachine.Proofs.Decoding
import ExprMachine.Proofs.Machine.Stack
import ExprMachine.Proofs.Sequencing

/-!
# The number of globals

How many globals there are after some code depends on the code alone: an instruction
that fills a slot makes sure that there are as many globals, and all others leave the
globals as they are. None of them changes how many slots the stack has.
-/

namespace ExprMachine

namespace Instruction

/-- The number of globals after an instruction. -/
def globalsAfter (count : Nat) (instruction : Instruction) : Nat :=
  match instruction.opcode with
  | .setGlobal => max count (instruction.operand + 1)
  | _ => count

/-- The number of globals after code. -/
def globalsAfterAll (count : Nat) (code : List Instruction) : Nat :=
  code.foldl globalsAfter count

theorem globalsAfterAll_append (count : Nat) (front back : List Instruction) :
    globalsAfterAll count (front ++ back) =
      globalsAfterAll (globalsAfterAll count front) back :=
  List.foldl_append

theorem globalsAfter_of_ne {instruction : Instruction}
    (different : instruction.opcode ≠ .setGlobal) (count : Nat) :
    globalsAfter count instruction = count := by
  unfold globalsAfter
  split
  · next same => exact absurd same different
  · rfl

theorem le_globalsAfter (count : Nat) (instruction : Instruction) :
    count ≤ globalsAfter count instruction := by
  unfold globalsAfter
  split
  · exact Nat.le_max_left ..
  · exact Nat.le_refl _

theorem le_globalsAfterAll (count : Nat) (code : List Instruction) :
    count ≤ globalsAfterAll count code := by
  induction code generalizing count with
  | nil => exact Nat.le_refl _
  | cons instruction code inductionHypothesis =>
      exact Nat.le_trans (le_globalsAfter count instruction) (inductionHypothesis _)

/-- A slot that the code fills is among the globals after it. -/
theorem lt_globalsAfterAll {code : List Instruction} {slot : Nat}
    (fills : ⟨.setGlobal, [slot]⟩ ∈ code) (count : Nat) :
    slot < globalsAfterAll count code := by
  obtain ⟨front, back, rfl⟩ := List.append_of_mem fills
  rw [globalsAfterAll_append]
  have filled : slot + 1 ≤
      globalsAfter (globalsAfterAll count front) ⟨.setGlobal, [slot]⟩ :=
    Nat.le_max_right ..
  exact Nat.lt_of_lt_of_le filled (le_globalsAfterAll _ back)

end Instruction

namespace Machine

variable {machine middle next : Machine} {constants : Array Value}

/-- The globals and the number of stack slots are the same in both machines. -/
structure Keeps (machine next : Machine) : Prop where
  globals : next.globals = machine.globals
  capacity : next.slots.size = machine.slots.size

theorem Keeps.trans (first : machine.Keeps middle) (second : middle.Keeps next) :
    machine.Keeps next :=
  ⟨second.globals.trans first.globals, second.capacity.trans first.capacity⟩

theorem keeps_push {value : Value} (pushed : machine.push value = .ok next) :
    machine.Keeps next := by
  obtain ⟨slots, top, globals, printed, fresh, top_le⟩ := machine
  by_cases room : top < slots.size
  · rw [push, dif_pos room] at pushed
    cases pushed
    exact ⟨rfl, Array.size_set room⟩
  · rw [push, dif_neg room] at pushed
    cases pushed

theorem keeps_pop {value : Value} (popped : machine.pop = .ok (value, next)) :
    machine.Keeps next := by
  unfold pop at popped
  split at popped <;> cases popped
  exact ⟨rfl, Array.size_setIfInBounds ..⟩

theorem keeps_dropTo (machine : Machine) (top : Nat) (below : top ≤ machine.top) :
    machine.Keeps (machine.dropTo top below) :=
  ⟨rfl, size_clear ..⟩

theorem keeps_unary (operation : Value → Except RuntimeError Value)
    (executed : machine.unary operation = .ok next) : machine.Keeps next := by
  obtain ⟨⟨operand, popped⟩, first, executed⟩ := (except_bind_eq_ok_iff _ _ _).mp executed
  simp only at executed
  split at executed
  · exact (keeps_pop first).trans (keeps_push executed)
  · cases executed

theorem keeps_binary (operation : Value → Value → Except RuntimeError Value)
    (executed : machine.binary operation = .ok next) : machine.Keeps next := by
  obtain ⟨⟨right, afterRight⟩, first, executed⟩ :=
    (except_bind_eq_ok_iff _ _ _).mp executed
  obtain ⟨⟨left, afterLeft⟩, second, executed⟩ :=
    (except_bind_eq_ok_iff _ _ _).mp executed
  simp only at executed
  split at executed
  · exact ((keeps_pop first).trans (keeps_pop second)).trans (keeps_push executed)
  · cases executed

theorem keeps_collect {count : Nat} (executed : machine.collect count = .ok next) :
    machine.Keeps next := by
  unfold collect at executed
  split at executed
  · obtain ⟨globals, capacity⟩ := keeps_push executed
    have dropped := machine.keeps_dropTo (machine.top - count) (Nat.sub_le ..)
    exact dropped.trans ⟨globals, capacity⟩
  · cases executed

theorem keeps_call {count : Nat} (executed : machine.call count = .ok next) :
    machine.Keeps next := by
  unfold call at executed
  split at executed
  · simp only at executed
    split at executed
    · obtain ⟨globals, capacity⟩ := keeps_push executed
      have dropped := machine.keeps_dropTo (machine.top - 1 - count) (by omega)
      exact dropped.trans ⟨globals, capacity⟩
    · cases executed
  · cases executed

/-- Only `setGlobal` touches the globals. -/
theorem keeps_execute {instruction : Instruction}
    (different : instruction.opcode ≠ .setGlobal)
    (executed : machine.execute constants instruction = .ok next) :
    machine.Keeps next := by
  obtain ⟨opcode, operands⟩ := instruction
  cases opcode with
  | setGlobal => exact absurd rfl different
  | constant | getBuiltin =>
      simp only [execute] at executed
      split at executed
      · exact keeps_push executed
      · cases executed
  | pushTrue | pushFalse | pushNull | getGlobal => exact keeps_push executed
  | add | subtract | multiply | divide => exact keeps_binary _ executed
  | equal => exact keeps_binary Comparison.equal.apply executed
  | notEqual => exact keeps_binary Comparison.notEqual.apply executed
  | greaterThan => exact keeps_binary Comparison.greaterThan.apply executed
  | minus => exact keeps_unary Value.opposite executed
  | bang => exact keeps_unary (fun operand => .ok operand.negated) executed
  | array => exact keeps_collect executed
  | call => exact keeps_call executed
  | pop =>
      obtain ⟨⟨value, popped⟩, first, executed⟩ :=
        (except_bind_eq_ok_iff _ _ _).mp executed
      cases executed
      exact keeps_pop first

theorem setGlobal_sizes {slot : Nat} (executed : machine.setGlobal slot = .ok next) :
    next.globals.size = max machine.globals.size (slot + 1) ∧
      next.slots.size = machine.slots.size := by
  obtain ⟨⟨value, popped⟩, first, executed⟩ := (except_bind_eq_ok_iff _ _ _).mp executed
  cases executed
  obtain ⟨globals, capacity⟩ := keeps_pop first
  refine ⟨?_, capacity⟩
  simp only [globals, Array.size_setIfInBounds, Array.size_append, Array.size_replicate]
  omega

/-- An instruction leaves as many globals as can be told from the instruction, and as
many stack slots as there were. -/
theorem sizes_execute {instruction : Instruction}
    (executed : machine.execute constants instruction = .ok next) :
    next.globals.size = instruction.globalsAfter machine.globals.size ∧
      next.slots.size = machine.slots.size := by
  by_cases fills : instruction.opcode = .setGlobal
  · obtain ⟨opcode, operands⟩ := instruction
    cases fills
    exact setGlobal_sizes executed
  · obtain ⟨globals, capacity⟩ := keeps_execute fills executed
    rw [Instruction.globalsAfter_of_ne fills, globals]
    exact ⟨rfl, capacity⟩

/-- Code leaves as many globals as can be told from the code, and as many stack slots as
there were. -/
theorem sizes_executeAll {code : List Instruction}
    (executed : machine.executeAll constants code = .ok next) :
    next.globals.size = Instruction.globalsAfterAll machine.globals.size code ∧
      next.slots.size = machine.slots.size := by
  induction code generalizing machine with
  | nil =>
      cases executed
      exact ⟨rfl, rfl⟩
  | cons instruction code inductionHypothesis =>
      rw [executeAll_cons] at executed
      obtain ⟨middle, first, rest⟩ := (except_bind_eq_ok_iff _ _ _).mp executed
      obtain ⟨globals, capacity⟩ := sizes_execute first
      obtain ⟨restGlobals, restCapacity⟩ := inductionHypothesis rest
      rw [restGlobals, globals, restCapacity, capacity]
      exact ⟨rfl, rfl⟩

end Machine

end ExprMachine
