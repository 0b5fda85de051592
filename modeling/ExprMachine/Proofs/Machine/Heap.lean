import ExprMachine.Proofs.Heap
import ExprMachine.Proofs.Machine.Mirroring

/-!
# The heap behind a machine

A run builds values one after the other, each in the next cell, and copies them between the
constants, the stack and the globals. So there is a heap that all values in these places
live in, also those in slots above the stack, and each instruction goes on with this heap:
it adds what it builds and changes nothing in it. It does not matter whether the instruction
goes through or stops the run.
-/

namespace ExprMachine

variable {heap : Heap}

theorem Value.livesIn_of_within_zero {value : Value} (within : value.Within 0) :
    value.LivesIn heap := by
  refine livesIn_of_cell?_eq_none ?_
  cases value with
  | array cell items => exact absurd within.1 (Nat.not_lt_zero cell)
  | string cell | error cell | function cell => exact absurd within (Nat.not_lt_zero cell)
  | integer | boolean | null | builtin => rfl

namespace Machine

/-- The machine at the end of a run, or at the point where the run stopped. -/
def leftBehind : Except Stopped Machine → Machine
  | .ok machine => machine
  | .error stopped => stopped.machine

/-- The values in all slots and globals live in the heap, and the next one that is built goes
into the cell after it. -/
structure LivesIn (heap : Heap) (machine : Machine) : Prop where
  fresh : machine.fresh = heap.length
  slots : ∀ value ∈ machine.slots, value.LivesIn heap
  globals : ∀ value ∈ machine.globals, value.LivesIn heap

/-- What an outcome leaves behind lives in a heap that goes on from the given one. -/
def KeepsHeap (heap : Heap) (outcome : Except Stopped Machine) : Prop :=
  ∃ later, heap <+: later ∧ (leftBehind outcome).LivesIn later

theorem KeepsHeap.of_goesOn {later : Heap} {outcome : Except Stopped Machine}
    (keeps : KeepsHeap later outcome) (goesOn : heap <+: later) : KeepsHeap heap outcome := by
  obtain ⟨last, further, lives⟩ := keeps
  exact ⟨last, goesOn.trans further, lives⟩

variable {machine : Machine} {value : Value} (lives : machine.LivesIn heap)

theorem mem_clear {slots : Array Value} {first count : Nat}
    (member : value ∈ clear slots first count) : value ∈ slots ∨ value = .null := by
  induction count generalizing slots first with
  | zero => exact Or.inl member
  | succ count inductionHypothesis =>
      rcases inductionHypothesis member with kept | cleared
      · exact Array.mem_or_eq_of_mem_setIfInBounds kept
      · exact Or.inr cleared

theorem mem_slots_of_mem_valuesFrom {first : Nat}
    (member : value ∈ machine.valuesFrom first) : value ∈ machine.slots := by
  rw [valuesFrom_eq_drop, stack] at member
  exact Array.mem_toList_iff.mp (List.mem_of_mem_take (List.mem_of_mem_drop member))

/-! ## The stack -/

include lives

theorem LivesIn.keepsHeap (error : RuntimeError) : KeepsHeap heap (machine.fail error) :=
  ⟨heap, List.prefix_rfl, lives⟩

theorem keepsHeap_push (new : value.LivesIn heap) : KeepsHeap heap (machine.push value) := by
  refine ⟨heap, List.prefix_rfl, ?_⟩
  obtain ⟨slots, top, globals, printed, fresh, top_le⟩ := machine
  by_cases room : top < slots.size
  · rw [push, dif_pos room]
    refine ⟨lives.fresh, fun other member => ?_, lives.globals⟩
    have written : other ∈ slots.set top value room := member
    rcases Array.mem_or_eq_of_mem_set written with kept | rfl
    · exact lives.slots other kept
    · exact new
  · rw [push, dif_neg room]
    exact lives

/-- What comes after a pop starts with a value and a machine that live in the heap. -/
theorem keepsHeap_afterPop {next : Value × Machine → Except Stopped Machine}
    (later : ∀ value (popped : Machine), value.LivesIn heap → popped.LivesIn heap →
      KeepsHeap heap (next (value, popped))) : KeepsHeap heap (machine.pop >>= next) := by
  obtain ⟨slots, top, globals, printed, fresh, top_le⟩ := machine
  cases top with
  | zero => exact ⟨heap, List.prefix_rfl, lives⟩
  | succ top =>
      refine later slots[top] _ (lives.slots _ (Array.getElem_mem top_le)) ?_
      refine ⟨lives.fresh, fun value member => ?_, lives.globals⟩
      rcases Array.mem_or_eq_of_mem_setIfInBounds member with kept | rfl
      · exact lives.slots value kept
      · exact Value.livesIn_of_cell?_eq_none rfl

theorem livesIn_dropTo (top : Nat) (below : top ≤ machine.top) :
    (machine.dropTo top below).LivesIn heap := by
  refine ⟨lives.fresh, fun value member => ?_, lives.globals⟩
  rcases mem_clear member with kept | rfl
  · exact lives.slots value kept
  · exact Value.livesIn_of_cell?_eq_none rfl

theorem livesIn_valuesFrom (first : Nat) :
    ∀ value ∈ machine.valuesFrom first, value.LivesIn heap :=
  fun value member => lives.slots value (mem_slots_of_mem_valuesFrom member)

/-- The machine goes on with a larger heap when it is told the next cell, whatever it has
printed. -/
theorem LivesIn.goOn {later : Heap} (goesOn : heap <+: later) (printed : String) :
    LivesIn later { machine with printed, fresh := later.length } :=
  ⟨rfl, fun value member => (lives.slots value member).mono goesOn,
    fun value member => (lives.globals value member).mono goesOn⟩

/-! ## Instructions -/

theorem keepsHeap_unary {operation : Value → Except RuntimeError Value}
    (bare : ∀ operand value, operation operand = .ok value → value.Within 0) :
    KeepsHeap heap (machine.unary operation) := by
  refine keepsHeap_afterPop lives fun operand popped _ poppedLives => ?_
  dsimp only
  split
  · next value applied =>
      exact keepsHeap_push poppedLives
        (Value.livesIn_of_within_zero (bare operand value applied))
  · exact poppedLives.keepsHeap _

theorem keepsHeap_binary {operation : Value → Value → Except RuntimeError Value}
    (bare : ∀ left right value, operation left right = .ok value → value.Within 0) :
    KeepsHeap heap (machine.binary operation) := by
  refine keepsHeap_afterPop lives fun right middle _ middleLives => ?_
  refine keepsHeap_afterPop middleLives fun left popped _ poppedLives => ?_
  dsimp only
  split
  · next value applied =>
      exact keepsHeap_push poppedLives
        (Value.livesIn_of_within_zero (bare left right value applied))
  · exact poppedLives.keepsHeap _

/-- An array is built of values on the stack. -/
theorem keepsHeap_collect (count : Nat) : KeepsHeap heap (machine.collect count) := by
  by_cases enough : count ≤ machine.top
  · have below := Nat.sub_le machine.top count
    obtain ⟨later, goesOn, size, arrayLives⟩ :=
      Value.exists_livesIn_array (livesIn_valuesFrom lives (machine.top - count))
    rw [← lives.fresh] at size arrayLives
    have dropped := (livesIn_dropTo lives _ below).goOn goesOn machine.printed
    rw [size] at dropped
    rw [collect, if_pos enough]
    exact (keepsHeap_push dropped arrayLives).of_goesOn goesOn
  · rw [collect, if_neg enough]
    exact lives.keepsHeap _

theorem keepsHeap_setGlobal (slot : Nat) : KeepsHeap heap (machine.setGlobal slot) := by
  refine keepsHeap_afterPop lives fun value popped valueLives poppedLives => ?_
  refine ⟨heap, List.prefix_rfl, poppedLives.fresh, poppedLives.slots, fun other member => ?_⟩
  rcases mem_store member with kept | rfl | rfl
  · exact poppedLives.globals other kept
  · exact valueLives
  · exact Value.livesIn_of_cell?_eq_none rfl

theorem keepsHeap_call (count : Nat) : KeepsHeap heap (machine.call count) := by
  by_cases enough : count < machine.top
  · have below : machine.top - 1 - count ≤ machine.top := by omega
    rw [call, dif_pos enough]
    dsimp only
    split
    · next builtin _ =>
        obtain ⟨later, goesOn, size, valueLives⟩ := builtin.exists_livesIn_call
          (livesIn_valuesFrom lives (machine.top - 1 - count + 1))
        rw [← lives.fresh] at size valueLives
        have dropped := (livesIn_dropTo lives _ below).goOn goesOn (machine.printed ++
          (builtin.call (machine.valuesFrom (machine.top - 1 - count + 1))
            machine.fresh).printed)
        rw [size] at dropped
        exact (keepsHeap_push dropped valueLives).of_goesOn goesOn
    · exact lives.keepsHeap _
  · rw [call, dif_neg enough]
    exact lives.keepsHeap _

variable {constants : Array Value} (pool : ∀ value ∈ constants, value.LivesIn heap)

include pool

/-- What an instruction preserves: the values of the machine live in the heap, which goes on
with what the instruction builds. -/
theorem keepsHeap_execute (instruction : Instruction) :
    KeepsHeap heap (machine.execute constants instruction) := by
  obtain ⟨opcode, operands⟩ := instruction
  cases opcode with
  | constant =>
      simp only [execute]
      split
      · next value found => exact keepsHeap_push lives (pool value (Array.mem_of_getElem? found))
      · exact ⟨heap, List.prefix_rfl, lives⟩
  | getBuiltin =>
      simp only [execute]
      split
      · exact keepsHeap_push lives (Value.livesIn_of_cell?_eq_none rfl)
      · exact ⟨heap, List.prefix_rfl, lives⟩
  | getGlobal =>
      refine keepsHeap_push lives ?_
      cases found : machine.globals[(Instruction.mk .getGlobal operands).operand]? with
      | none => exact Value.livesIn_of_cell?_eq_none rfl
      | some value => exact lives.globals value (Array.mem_of_getElem? found)
  | pushTrue | pushFalse | pushNull =>
      exact keepsHeap_push lives (Value.livesIn_of_cell?_eq_none rfl)
  | add => exact keepsHeap_binary lives Arithmetic.add.within_apply
  | subtract => exact keepsHeap_binary lives Arithmetic.subtract.within_apply
  | multiply => exact keepsHeap_binary lives Arithmetic.multiply.within_apply
  | divide => exact keepsHeap_binary lives Arithmetic.divide.within_apply
  | equal => exact keepsHeap_binary lives Comparison.equal.within_apply
  | notEqual => exact keepsHeap_binary lives Comparison.notEqual.within_apply
  | greaterThan => exact keepsHeap_binary lives Comparison.greaterThan.within_apply
  | minus => exact keepsHeap_unary lives Value.within_opposite
  | bang => exact keepsHeap_unary lives Value.within_negated
  | pop => exact keepsHeap_afterPop lives fun _ _ _ popped => ⟨heap, List.prefix_rfl, popped⟩
  | array => exact keepsHeap_collect lives _
  | setGlobal => exact keepsHeap_setGlobal lives _
  | call => exact keepsHeap_call lives _

/-- What code preserves: the same, however far it runs. -/
theorem keepsHeap_executeAll (code : List Instruction) :
    KeepsHeap heap (machine.executeAll constants code) := by
  induction code generalizing machine heap with
  | nil => exact ⟨heap, List.prefix_rfl, lives⟩
  | cons instruction code inductionHypothesis =>
      obtain ⟨later, goesOn, livesLater⟩ := keepsHeap_execute lives pool instruction
      rw [executeAll_cons]
      cases outcome : machine.execute constants instruction with
      | error stopped =>
          rw [outcome] at livesLater
          exact ⟨later, goesOn, livesLater⟩
      | ok next =>
          rw [outcome] at livesLater
          have poolLater : ∀ value ∈ constants, value.LivesIn later :=
            fun value member => (pool value member).mono goesOn
          exact (inductionHypothesis livesLater poolLater).of_goesOn goesOn

end Machine

end ExprMachine
