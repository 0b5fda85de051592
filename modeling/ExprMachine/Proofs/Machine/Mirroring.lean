import ExprMachine.Proofs.Machine.Depth
import ExprMachine.Proofs.Relocation

/-!
# Machines that mirror each other

A copy of a machine holds the same values, relocated, and has printed some text
before. The two do the same at every step: the same instructions go through, the
same errors stop them, the text printed is the same apart from the text before, and
the values stay relocated. The slots above the stack play no part in this, so a
machine that has run some code before is a copy of one that is just started.
-/

namespace ExprMachine

/-! ## Copies -/

/-- The view of a copy, which printed the given text before. -/
def View.copied (relocation : Relocation) (earlier : String) (view : View) : View where
  stack := view.stack.map (Value.relocate relocation)
  capacity := view.capacity
  globals := view.globals.map (Value.relocate relocation)
  printed := earlier ++ view.printed
  fresh := relocation.apply view.fresh

/-- All values in a view were built in cells that are in use. -/
structure View.Within (view : View) : Prop where
  stack : ∀ value ∈ view.stack, value.Within view.fresh
  globals : ∀ value ∈ view.globals, value.Within view.fresh

/-- Each constant has a relocated copy at the same index, and was built before the
cells that the relocation keeps in order. -/
def Copied (relocation : Relocation) (constants copies : Array Value) : Prop :=
  ∀ (index : Nat) (value : Value), constants[index]? = some value →
    value.Within relocation.boundary ∧
      copies[index]? = some (value.relocate relocation)

/-! ## Operations that build nothing -/

theorem Arithmetic.within_apply (operation : Arithmetic) (left right value : Value)
    (applied : operation.apply left right = .ok value) : value.Within 0 := by
  unfold apply at applied
  split at applied
  · unfold onWords at applied
    split at applied
    · cases applied
    · split at applied <;> cases applied
      trivial
  · cases applied

theorem Comparison.within_apply (comparison : Comparison) (left right value : Value)
    (applied : comparison.apply left right = .ok value) : value.Within 0 := by
  unfold apply at applied
  split at applied <;> cases applied <;> trivial

theorem Value.within_opposite (operand value : Value)
    (applied : operand.opposite = .ok value) : value.Within 0 := by
  unfold opposite at applied
  split at applied
  · split at applied <;> cases applied
    trivial
  · cases applied

theorem Value.within_negated (operand value : Value)
    (applied : Except.ok operand.negated = (.ok value : Except RuntimeError Value)) :
    value.Within 0 := by
  cases applied
  cases operand <;> trivial

namespace Machine

/-- The second machine is a copy of the first one. -/
structure Mirrors (relocation : Relocation) (earlier : String)
    (machine copy : Machine) : Prop where
  view : copy.view = machine.view.copied relocation earlier
  within : machine.view.Within
  inside : relocation.boundary ≤ machine.fresh

/-- The outcomes are a machine and its copy, or the same error in both. -/
inductive OutcomeMirrors (relocation : Relocation) (earlier : String) :
    Except Stopped Machine → Except Stopped Machine → Prop
  | ok {machine copy : Machine} :
      Mirrors relocation earlier machine copy →
        OutcomeMirrors relocation earlier (.ok machine) (.ok copy)
  | error {stopped copied : Stopped} :
      copied.cause = stopped.cause →
        copied.machine.printed = earlier ++ stopped.machine.printed →
          OutcomeMirrors relocation earlier (.error stopped) (.error copied)

/-- If the outcomes are two machines, the values that they popped last are copies. -/
def PopsMirrored (relocation : Relocation)
    (outcome copied : Except Stopped Machine) : Prop :=
  ∀ machine copy, outcome = .ok machine → copied = .ok copy →
    copy.lastPopped = machine.lastPopped.relocate relocation ∧
      machine.lastPopped.Within machine.fresh

/-! ## Results of operations -/

theorem store_relocate (relocation : Relocation) (globals : Array Value) (slot : Nat)
    (value : Value) :
    store (globals.map (Value.relocate relocation)) slot (value.relocate relocation) =
      (store globals slot value).map (Value.relocate relocation) := by
  have null : Value.null = Value.null.relocate relocation := rfl
  rw [store, store, Array.map_setIfInBounds, Array.map_append, Array.map_replicate,
    ← null, Array.size_map]

theorem mem_store {globals : Array Value} {slot : Nat} {value other : Value}
    (member : other ∈ store globals slot value) :
    other ∈ globals ∨ other = value ∨ other = .null := by
  rw [store] at member
  rcases Array.mem_or_eq_of_mem_setIfInBounds member with kept | rfl
  · rcases Array.mem_append.mp kept with before | padded
    · exact Or.inl before
    · exact Or.inr (Or.inr (Array.eq_of_mem_replicate padded))
  · exact Or.inr (Or.inl rfl)

section Step

variable {relocation : Relocation} {earlier : String} {machine copy : Machine}
  {constants copies : Array Value} {outcome copied : Except Stopped Machine}

theorem outcomeMirrors_of_reaches {view : View} (reaches : Reaches outcome view)
    (copyReaches : Reaches copied (view.copied relocation earlier))
    (within : view.Within) (inside : relocation.boundary ≤ view.fresh) :
    OutcomeMirrors relocation earlier outcome copied := by
  obtain ⟨next, rfl, rfl⟩ := reaches
  obtain ⟨copyNext, rfl, same⟩ := copyReaches
  exact .ok ⟨same, within, inside⟩

theorem outcomeMirrors_of_stopsWith {error : RuntimeError} {printed : String}
    (stops : StopsWith outcome error printed)
    (copyStops : StopsWith copied error (earlier ++ printed)) :
    OutcomeMirrors relocation earlier outcome copied := by
  obtain ⟨stopped, rfl, cause, rfl⟩ := stops
  obtain ⟨copyStopped, rfl, copyCause, copyPrinted⟩ := copyStops
  exact .error (copyCause.trans cause.symm) copyPrinted

namespace Mirrors

variable (mirrors : Mirrors relocation earlier machine copy)

include mirrors

theorem stack : copy.stack = machine.stack.map (Value.relocate relocation) :=
  congrArg View.stack mirrors.view

theorem slots : copy.slots.size = machine.slots.size :=
  congrArg View.capacity mirrors.view

theorem globals : copy.globals = machine.globals.map (Value.relocate relocation) :=
  congrArg View.globals mirrors.view

theorem printed : copy.printed = earlier ++ machine.printed :=
  congrArg View.printed mirrors.view

theorem fresh : copy.fresh = relocation.apply machine.fresh :=
  congrArg View.fresh mirrors.view

theorem top : copy.top = machine.top := by
  rw [← length_stack, ← length_stack, mirrors.stack, List.length_map]

/-! ## The stack -/

theorem push {value copyValue : Value}
    (relocated : copyValue = value.relocate relocation)
    (within : value.Within machine.fresh) :
    OutcomeMirrors relocation earlier (machine.push value) (copy.push copyValue) := by
  subst relocated
  by_cases room : machine.top < machine.slots.size
  · have copyRoom : copy.top < copy.slots.size := by rwa [mirrors.top, mirrors.slots]
    refine outcomeMirrors_of_reaches (reaches_push room value) ?_
      ⟨?_, mirrors.within.globals⟩ mirrors.inside
    · have reaches := reaches_push copyRoom (value.relocate relocation)
      rw [mirrors.view, mirrors.stack] at reaches
      simpa only [View.withStack, View.copied, List.map_append, List.map_singleton]
        using reaches
    · intro other member
      rcases List.mem_append.mp member with before | added
      · exact mirrors.within.stack other before
      · rw [List.mem_singleton.mp added]
        exact within
  · have full := Nat.le_of_not_lt room
    have copyFull : copy.slots.size ≤ copy.top := by rwa [mirrors.top, mirrors.slots]
    have copyStops := stopsWith_push copyFull (value.relocate relocation)
    rw [mirrors.slots, mirrors.printed] at copyStops
    exact outcomeMirrors_of_stopsWith (stopsWith_push full value) copyStops

/-- The copies of values on top of the stack are on top of the copy of the stack. -/
theorem stack_append {below operands : List Value}
    (shape : machine.stack = below ++ operands) :
    copy.stack =
      below.map (Value.relocate relocation) ++
        operands.map (Value.relocate relocation) := by
  rw [mirrors.stack, shape, List.map_append]

theorem within_below {below operands : List Value}
    (shape : machine.stack = below ++ operands) {value : Value}
    (member : value ∈ below) : value.Within machine.fresh :=
  mirrors.within.stack value <| by
    change value ∈ machine.stack
    rw [shape]
    exact List.mem_append_left operands member

theorem within_operands {below operands : List Value}
    (shape : machine.stack = below ++ operands) {value : Value}
    (member : value ∈ operands) : value.Within machine.fresh :=
  mirrors.within.stack value <| by
    change value ∈ machine.stack
    rw [shape]
    exact List.mem_append_right below member

/-- A value takes the place of those on top of the stack, and its copy that of their
copies. -/
theorem replaced {below operands : List Value} {value copyValue : Value}
    (shape : machine.stack = below ++ operands) {printed copyPrinted : String}
    {fresh copyFresh : Cell}
    (reaches : Reaches outcome
      { machine.view with stack := below ++ [value], printed, fresh })
    (copyReaches : Reaches copied
      { copy.view with
        stack := below.map (Value.relocate relocation) ++ [copyValue]
        printed := copyPrinted
        fresh := copyFresh })
    (later : machine.fresh ≤ fresh) (within : value.Within fresh)
    (relocated : copyValue = value.relocate relocation)
    (samePrinted : copyPrinted = earlier ++ printed)
    (sameFresh : copyFresh = relocation.apply fresh) :
    OutcomeMirrors relocation earlier outcome copied := by
  subst relocated samePrinted sameFresh
  refine outcomeMirrors_of_reaches reaches ?_ ⟨?_, ?_⟩
    (Nat.le_trans mirrors.inside later)
  · rw [mirrors.view] at copyReaches
    simpa only [View.copied, List.map_append, List.map_singleton] using copyReaches
  · intro other member
    rcases List.mem_append.mp member with before | added
    · exact (mirrors.within_below shape before).mono later
    · rw [List.mem_singleton.mp added]
      exact within
  · exact fun other member => (mirrors.within.globals other member).mono later

/-- An operation on operands and their copies concludes with the same result, which
was built in no cell. -/
theorem concludes {below operands : List Value} {result : Except RuntimeError Value}
    (shape : machine.stack = below ++ operands)
    (concludes : Concludes outcome machine below result)
    (copyConcludes :
      Concludes copied copy (below.map (Value.relocate relocation)) result)
    (cellFree : ∀ value, result = .ok value → value.Within 0) :
    OutcomeMirrors relocation earlier outcome copied := by
  cases result with
  | ok value =>
      have free := cellFree value rfl
      have kept : value.relocate relocation = value.relocate .refl :=
        Value.relocate_congr (fun _ none => absurd none (Nat.not_lt_zero _)) free
      exact mirrors.replaced shape concludes copyConcludes (Nat.le_refl _)
        (free.mono (Nat.zero_le _)) (by rw [kept, Value.relocate_refl]) mirrors.printed
        mirrors.fresh
  | error error =>
      have copyStops : StopsWith copied error copy.printed := copyConcludes
      rw [mirrors.printed] at copyStops
      exact outcomeMirrors_of_stopsWith concludes copyStops

theorem unary {operation : Value → Except RuntimeError Value}
    (enough : 1 ≤ machine.top)
    (commutes : ∀ operand, operation (operand.relocate relocation) = operation operand)
    (cellFree : ∀ operand value, operation operand = .ok value → value.Within 0) :
    OutcomeMirrors relocation earlier (machine.unary operation)
      (copy.unary operation) := by
  obtain ⟨below, operands, shape, count, _⟩ := exists_operands enough
  obtain ⟨operand, rfl⟩ := List.length_eq_one_iff.mp count
  have copyConcludes := concludes_unary (mirrors.stack_append shape) operation
  rw [commutes] at copyConcludes
  exact mirrors.concludes shape (concludes_unary shape operation) copyConcludes
    (cellFree operand)

theorem binary {operation : Value → Value → Except RuntimeError Value}
    (enough : 2 ≤ machine.top)
    (commutes : ∀ left right,
      operation (left.relocate relocation) (right.relocate relocation) =
        operation left right)
    (cellFree : ∀ left right value, operation left right = .ok value →
      value.Within 0) :
    OutcomeMirrors relocation earlier (machine.binary operation)
      (copy.binary operation) := by
  obtain ⟨below, operands, shape, count, _⟩ := exists_operands enough
  obtain ⟨left, right, rfl⟩ := List.length_eq_two.mp count
  have copyConcludes := concludes_binary (mirrors.stack_append shape) operation
  rw [commutes] at copyConcludes
  exact mirrors.concludes shape (concludes_binary shape operation) copyConcludes
    (cellFree left right)

theorem collect {count : Nat} (enough : count ≤ machine.top) :
    OutcomeMirrors relocation earlier (machine.collect count) (copy.collect count) := by
  obtain ⟨below, items, shape, rfl, _⟩ := exists_operands enough
  have collected := collect_of_stack shape
  have copyCollected := collect_of_stack (mirrors.stack_append shape)
  rw [List.length_map, List.length_map, mirrors.slots] at copyCollected
  by_cases room : below.length < machine.slots.size
  · rw [if_pos room] at collected copyCollected
    have taken := relocation.apply_add_of_le mirrors.inside 1
    refine mirrors.replaced shape collected copyCollected (Nat.le_succ _)
      ⟨Nat.lt_succ_self _, ?_⟩ ?_ mirrors.printed (by rw [mirrors.fresh, taken])
    · refine Value.allWithin_iff.mpr fun item member => ?_
      exact (mirrors.within_operands shape member).mono (Nat.le_succ _)
    · rw [mirrors.fresh, Value.relocate, Value.relocateAll_eq_map]
  · rw [if_neg room] at collected copyCollected
    rw [mirrors.printed] at copyCollected
    exact outcomeMirrors_of_stopsWith collected copyCollected

theorem call {count : Nat} (enough : count + 1 ≤ machine.top) :
    OutcomeMirrors relocation earlier (machine.call count) (copy.call count) := by
  obtain ⟨below, operands, shape, counted, _⟩ := exists_operands enough
  obtain ⟨callee, arguments, rfl⟩ := List.exists_cons_of_length_eq_add_one counted
  obtain rfl : arguments.length = count := Nat.succ.inj counted
  have copyShape := mirrors.stack_append shape
  have sameCount : (arguments.map (Value.relocate relocation)).length =
      arguments.length := List.length_map _
  by_cases isBuiltin : ∃ builtin, callee = .builtin builtin
  · obtain ⟨builtin, rfl⟩ := isBuiltin
    have copyCalled := call_of_builtin copyShape
    rw [sameCount, mirrors.fresh, Builtin.call_relocate mirrors.inside] at copyCalled
    refine mirrors.replaced shape (call_of_builtin shape) copyCalled
      (Answer.fresh_le_build _ _) (builtin.within_call ?_) rfl ?_ rfl
    · intro argument member
      exact mirrors.within_operands shape (List.mem_cons_of_mem _ member)
    · rw [mirrors.printed, String.append_assoc]
      rfl
  · have other : ∀ builtin, callee ≠ .builtin builtin := by
      intro builtin same
      exact isBuiltin ⟨builtin, same⟩
    have copyOther : ∀ builtin, callee.relocate relocation ≠ .builtin builtin := by
      intro builtin same
      cases callee <;> cases same
      exact other _ rfl
    have copyCalled := call_of_other copyShape copyOther
    rw [sameCount, Value.kind_relocate] at copyCalled
    rw [call_of_other shape other, copyCalled]
    exact .error rfl mirrors.printed

/-- A value is popped, and its copy is. -/
theorem popping {below : List Value} {value : Value} {globals : Array Value}
    (shape : machine.stack = below ++ [value])
    (reaches : ReachesPopping outcome
      { machine.view with stack := below, globals } value)
    (copyReaches : ReachesPopping copied
      { copy.view with
        stack := below.map (Value.relocate relocation)
        globals := globals.map (Value.relocate relocation) }
      (value.relocate relocation))
    (within : ∀ value ∈ globals, value.Within machine.fresh) :
    OutcomeMirrors relocation earlier outcome copied ∧
      PopsMirrored relocation outcome copied := by
  obtain ⟨next, rfl, nextView, rfl⟩ := reaches
  obtain ⟨copyNext, rfl, copyView, last⟩ := copyReaches
  have fresh : next.fresh = machine.fresh := congrArg View.fresh nextView
  refine ⟨.ok ⟨?_, ?_, ?_⟩, ?_⟩
  · rw [copyView, nextView, mirrors.view]
    rfl
  · rw [nextView]
    exact ⟨fun _ member => mirrors.within_below shape member, within⟩
  · rw [fresh]
    exact mirrors.inside
  · rintro _ _ ⟨⟩ ⟨⟩
    refine ⟨last, ?_⟩
    rw [fresh]
    exact mirrors.within_operands shape (List.mem_singleton_self _)

theorem discard (enough : 1 ≤ machine.top) (constants copies : Array Value)
    (operands : List Nat) :
    OutcomeMirrors relocation earlier (machine.execute constants ⟨.pop, operands⟩)
        (copy.execute copies ⟨.pop, operands⟩) ∧
      PopsMirrored relocation (machine.execute constants ⟨.pop, operands⟩)
        (copy.execute copies ⟨.pop, operands⟩) := by
  obtain ⟨below, popped, shape, count, _⟩ := exists_operands enough
  obtain ⟨value, rfl⟩ := List.length_eq_one_iff.mp count
  have copyReaches :=
    discard_of_stack (mirrors.stack_append shape) copies operands
  rw [View.withStack, show copy.view.globals = _ from mirrors.globals] at copyReaches
  exact mirrors.popping shape (discard_of_stack shape constants operands) copyReaches
    mirrors.within.globals

theorem setGlobal (enough : 1 ≤ machine.top) (slot : Nat) :
    OutcomeMirrors relocation earlier (machine.setGlobal slot) (copy.setGlobal slot) ∧
      PopsMirrored relocation (machine.setGlobal slot) (copy.setGlobal slot) := by
  obtain ⟨below, popped, shape, count, _⟩ := exists_operands enough
  obtain ⟨value, rfl⟩ := List.length_eq_one_iff.mp count
  have copyReaches := setGlobal_of_stack (mirrors.stack_append shape) slot
  rw [mirrors.globals, store_relocate] at copyReaches
  refine mirrors.popping shape (setGlobal_of_stack shape slot) copyReaches ?_
  intro other member
  rcases mem_store member with before | rfl | rfl
  · exact mirrors.within.globals other before
  · exact mirrors.within_operands shape (List.mem_singleton_self _)
  · trivial

/-! ## Instructions -/

/-- A valid instruction that finds its operands does the same in the copy. -/
theorem execute {instruction : Instruction}
    (valid : instruction.Valid constants.size)
    (enough : instruction.takes ≤ machine.top)
    (pool : Copied relocation constants copies) :
    OutcomeMirrors relocation earlier (machine.execute constants instruction)
      (copy.execute copies instruction) := by
  obtain ⟨opcode, operands⟩ := instruction
  cases opcode with
  | constant =>
      have found := Array.getElem?_eq_getElem (valid.constant_lt rfl)
      obtain ⟨within, copyFound⟩ := pool _ _ found
      simp only [Machine.execute, found, copyFound]
      exact mirrors.push rfl (within.mono mirrors.inside)
  | getBuiltin =>
      have found : Builtin.ofIndex? (Instruction.mk .getBuiltin operands).operand =
          some _ := List.getElem?_eq_getElem (valid.builtin_lt rfl)
      simp only [Machine.execute, found]
      exact mirrors.push rfl trivial
  | pushTrue | pushFalse | pushNull => exact mirrors.push rfl trivial
  | getGlobal =>
      refine mirrors.push ?_ ?_
      · rw [mirrors.globals, Array.getElem?_map]
        cases machine.globals[(Instruction.mk .getGlobal operands).operand]? <;> rfl
      · cases found : machine.globals[(Instruction.mk .getGlobal operands).operand]? with
        | none => trivial
        | some value =>
            exact mirrors.within.globals value (Array.mem_of_getElem? found)
  | add | subtract | multiply | divide =>
      exact mirrors.binary enough (Arithmetic.apply_relocate relocation _)
        (Arithmetic.within_apply _)
  | equal =>
      exact mirrors.binary enough (Comparison.equal.apply_relocate relocation)
        Comparison.equal.within_apply
  | notEqual =>
      exact mirrors.binary enough (Comparison.notEqual.apply_relocate relocation)
        Comparison.notEqual.within_apply
  | greaterThan =>
      exact mirrors.binary enough (Comparison.greaterThan.apply_relocate relocation)
        Comparison.greaterThan.within_apply
  | minus =>
      exact mirrors.unary enough (Value.opposite_relocate relocation)
        Value.within_opposite
  | bang =>
      refine mirrors.unary enough ?_ Value.within_negated
      intro operand
      rw [Value.negated_relocate]
  | array => exact mirrors.collect enough
  | call => exact mirrors.call enough
  | pop => exact (mirrors.discard enough constants copies operands).1
  | setGlobal => exact (mirrors.setGlobal enough _).1

end Mirrors

end Step

/-! ## Code -/

variable {relocation : Relocation} {earlier : String} {constants copies : Array Value}

/-- Valid code whose depth can be told does the same in the copy. -/
theorem Mirrors.executeAll {code : List Instruction}
    (valid : CodeValid constants.size code) (pool : Copied relocation constants copies)
    {machine copy : Machine} {depth : Nat}
    (told : Instruction.depthAfterAll machine.top code = some depth)
    (mirrors : Mirrors relocation earlier machine copy) :
    OutcomeMirrors relocation earlier (machine.executeAll constants code)
      (copy.executeAll copies code) := by
  induction code generalizing machine copy with
  | nil => exact .ok mirrors
  | cons instruction code inductionHypothesis =>
      obtain ⟨headValid, tailValid⟩ := List.forall_mem_cons.mp valid
      rw [Instruction.depthAfterAll_cons, Option.bind_eq_some_iff] at told
      obtain ⟨middle, headTold, tailTold⟩ := told
      have ends := endsAt_execute headValid headTold
      have stepped :=
        mirrors.execute headValid (Instruction.takes_le_of_depthAfter headTold) pool
      rw [executeAll_cons, executeAll_cons]
      generalize machine.execute constants instruction = outcome at ends stepped
      generalize copy.execute copies instruction = copied at stepped
      cases stepped with
      | ok nextMirrors =>
          have height : _ = middle := ends
          rw [← height] at tailTold
          exact inductionHypothesis tailValid tailTold nextMirrors
      | error sameCause samePrinted => exact .error sameCause samePrinted

end Machine

end ExprMachine
