import ExprMachine.Builtin
import ExprMachine.Bytecode

/-!
# The stack machine

The machine has a fixed number of stack slots, the globals and the text printed
so far. The slots below `top` hold the values in use. The slot at `top` still
holds the value that was popped last, and every slot above it holds null.

An instruction either leads to the next machine or stops the run: with an error
of the program, or with a fault of the bytecode, which compiled programs never
have. A run that stops hands back the machine as it was when it stopped.
-/

namespace ExprMachine

/-- The operations on integers that stay within the words. -/
inductive Arithmetic where
  | add
  | subtract
  | multiply
  | divide
deriving DecidableEq, Repr

/-- The operations that compare two values. -/
inductive Comparison where
  | equal
  | notEqual
  | greaterThan
deriving DecidableEq, Repr

/-- How an operation is written. -/
def Arithmetic.sign : Arithmetic → String
  | add => "+"
  | subtract => "-"
  | multiply => "*"
  | divide => "/"

inductive RuntimeError where
  | stackOverflow (capacity : Nat)
  | stackUnderflow
  | unsupportedOperands (operation : Arithmetic) (left right : Kind)
  | unsupportedNegation (operand : Kind)
  | notOrdered (left right : Kind)
  | divisionByZero
  | arithmeticOverflow (operation : Arithmetic) (left right : Word)
  | negationOverflow (operand : Word)
  | unknownOpcode (byte : UInt8) (offset : Nat)
  | notCallable (callee : Kind)
deriving DecidableEq, Repr

namespace RuntimeError

def code : RuntimeError → String
  | stackOverflow _ => "K-R001"
  | stackUnderflow => "K-R002"
  | unsupportedOperands .. => "K-R003"
  | unsupportedNegation _ => "K-R004"
  | notOrdered .. => "K-R005"
  | divisionByZero => "K-R006"
  | arithmeticOverflow .. => "K-R007"
  | negationOverflow _ => "K-R007"
  | unknownOpcode .. => "K-R008"
  | notCallable _ => "K-R009"

def message : RuntimeError → String
  | stackOverflow capacity =>
      "stack overflow: the stack holds at most " ++ toString capacity ++ " values"
  | stackUnderflow => "stack underflow: pop from an empty stack"
  | unsupportedOperands operation left right =>
      "unsupported types for " ++ operation.sign ++ ": " ++ left.name ++ " " ++
        right.name
  | unsupportedNegation operand => "unsupported type for -: " ++ operand.name
  | notOrdered left right => "unknown operator: " ++ left.name ++ " > " ++ right.name
  | divisionByZero => "division by zero"
  | arithmeticOverflow operation left right =>
      "integer overflow: " ++ left.text ++ " " ++ operation.sign ++ " " ++ right.text
  | negationOverflow operand => "integer overflow: -(" ++ operand.text ++ ")"
  | unknownOpcode byte offset =>
      "unknown opcode " ++ toString byte.toNat ++ " at offset " ++ toString offset
  | notCallable callee => "calling non-function: " ++ callee.name

end RuntimeError

/-! ## Operations on values -/

namespace Arithmetic

/-- The exact result of an operation, if it is a word. -/
def result? : Arithmetic → Word → Word → Option Word
  | add => Word.add?
  | subtract => Word.subtract?
  | multiply => Word.multiply?
  | divide => Word.divide?

/-- An operation on words. Nothing is divided by zero. -/
def onWords (operation : Arithmetic) (left right : Word) :
    Except RuntimeError Value :=
  if operation = divide ∧ right = 0 then
    .error .divisionByZero
  else
    match operation.result? left right with
    | some result => .ok (.integer result)
    | none => .error (.arithmeticOverflow operation left right)

/-- An operation on values, which have to be integers. -/
def apply (operation : Arithmetic) : Value → Value → Except RuntimeError Value
  | .integer left, .integer right => operation.onWords left right
  | left, right => .error (.unsupportedOperands operation left.kind right.kind)

end Arithmetic

namespace Comparison

/-- Compares two values. Integers compare by their value, other values can only
be told apart, and are equal when they are identical. -/
def apply (comparison : Comparison) (left right : Value) :
    Except RuntimeError Value :=
  match comparison, left, right with
  | equal, .integer left, .integer right => .ok (.boolean (left = right))
  | notEqual, .integer left, .integer right => .ok (.boolean (left ≠ right))
  | greaterThan, .integer left, .integer right => .ok (.boolean (right < left))
  | equal, _, _ => .ok (.boolean (left.identical right))
  | notEqual, _, _ => .ok (.boolean (!left.identical right))
  | greaterThan, _, _ => .error (.notOrdered left.kind right.kind)

/-- Integers are identical when their values are the same, so that the path for integers
answers what the path for other values would. -/
theorem apply_equal (left right : Value) :
    equal.apply left right = .ok (.boolean (left.identical right)) := by
  cases left with
  | integer left => cases right <;> rfl
  | _ => rfl

theorem apply_notEqual (left right : Value) :
    notEqual.apply left right = .ok (.boolean (!left.identical right)) := by
  cases left with
  | integer left =>
      cases right with
      | integer right => simp only [apply, Value.identical, ne_eq, decide_not]
      | _ => rfl
  | _ => rfl

end Comparison

namespace Value

/-- What `!` makes of a value: only false and null are taken for false. -/
def negated : Value → Value
  | boolean value => boolean (!value)
  | null => boolean true
  | _ => boolean false

def opposite : Value → Except RuntimeError Value
  | integer word =>
      match Word.negate? word with
      | some result => .ok (.integer result)
      | none => .error (.negationOverflow word)
  | other => .error (.unsupportedNegation other.kind)

end Value

/-! ## Machines -/

/-- The number of stack slots unless another one is asked for. -/
def defaultStackSize : Nat := 2048

/-- The state of a machine. Cells from `fresh` on are not in use. -/
structure Machine where
  slots : Array Value
  top : Nat
  globals : Array Value
  printed : String
  fresh : Cell
  top_le : top ≤ slots.size

/-- A fault of the bytecode that makes it impossible to go on. -/
inductive Fault where
  | operandCutOff
  | noSuchConstant
  | noSuchBuiltin
deriving DecidableEq, Repr

/-- Why a run stops before the end of the code. -/
inductive StopCause where
  | error (error : RuntimeError)
  | fault (fault : Fault)
deriving DecidableEq, Repr

/-- Why a run stopped, and the machine at that point. -/
structure Stopped where
  cause : StopCause
  machine : Machine

namespace Machine

def start (stackSize : Nat) (globals : Array Value) (fresh : Cell) : Machine where
  slots := Array.replicate stackSize .null
  top := 0
  globals := globals
  printed := ""
  fresh := fresh
  top_le := Nat.zero_le _

def fail {α : Type} (machine : Machine) (error : RuntimeError) : Except Stopped α :=
  .error ⟨.error error, machine⟩

def crash {α : Type} (machine : Machine) (fault : Fault) : Except Stopped α :=
  .error ⟨.fault fault, machine⟩

/-- The value in use that was pushed last. -/
def topValue? (machine : Machine) : Option Value :=
  if machine.top = 0 then none else machine.slots[machine.top - 1]?

/-- The value that was popped last, as long as nothing was pushed over it. -/
def lastPopped (machine : Machine) : Value :=
  machine.slots[machine.top]?.getD .null

/-! ## The stack -/

def push (machine : Machine) (value : Value) : Except Stopped Machine :=
  match machine with
  | ⟨slots, top, globals, printed, fresh, top_le⟩ =>
      if room : top < slots.size then
        .ok ⟨slots.set top value, top + 1, globals, printed, fresh, by
          rw [Array.size_set]
          exact room⟩
      else
        .error ⟨.error (.stackOverflow slots.size),
          ⟨slots, top, globals, printed, fresh, top_le⟩⟩

/-- Pops a value. Its slot keeps it, and the slot above is cleared. -/
def pop (machine : Machine) : Except Stopped (Value × Machine) :=
  match machine with
  | ⟨slots, 0, globals, printed, fresh, top_le⟩ =>
      .error ⟨.error .stackUnderflow, ⟨slots, 0, globals, printed, fresh, top_le⟩⟩
  | ⟨slots, top + 1, globals, printed, fresh, top_le⟩ =>
      .ok (slots[top],
        ⟨slots.setIfInBounds (top + 1) .null, top, globals, printed, fresh,
          by simpa using Nat.le_of_succ_le top_le⟩)

/-- Clears a number of slots from the given one on. -/
def clear (slots : Array Value) (first : Nat) : (count : Nat) → Array Value
  | 0 => slots
  | count + 1 => clear (slots.setIfInBounds first .null) (first + 1) count

theorem size_clear (slots : Array Value) (first count : Nat) :
    (clear slots first count).size = slots.size := by
  induction count generalizing slots first with
  | zero => rfl
  | succ count inductionHypothesis =>
      rw [clear, inductionHypothesis, Array.size_setIfInBounds]

/-- Drops the values from the given slot on, and clears the slot of the value
that was popped last. -/
def dropTo (machine : Machine) (top : Nat) (below : top ≤ machine.top) : Machine :=
  match machine, below with
  | ⟨slots, oldTop, globals, printed, fresh, top_le⟩, below =>
      ⟨clear slots top (oldTop + 1 - top), top, globals, printed, fresh, by
        rw [size_clear]
        exact Nat.le_trans below top_le⟩

/-- The values in use from the given slot on, from the bottom to the top. -/
def valuesFrom (machine : Machine) (first : Nat) : List Value :=
  (machine.slots.extract first machine.top).toList

/-! ## Instructions -/

/-- Replaces the two values on top by the result of an operation on them. -/
def binary (machine : Machine)
    (operation : Value → Value → Except RuntimeError Value) :
    Except Stopped Machine := do
  let (right, machine) ← machine.pop
  let (left, machine) ← machine.pop
  match operation left right with
  | .ok value => machine.push value
  | .error error => machine.fail error

/-- Replaces the value on top by the result of an operation on it. -/
def unary (machine : Machine) (operation : Value → Except RuntimeError Value) :
    Except Stopped Machine := do
  let (operand, machine) ← machine.pop
  match operation operand with
  | .ok value => machine.push value
  | .error error => machine.fail error

/-- Replaces a number of values on top by an array of them. -/
def collect (machine : Machine) (count : Nat) : Except Stopped Machine :=
  if count ≤ machine.top then
    let first := machine.top - count
    let items := machine.valuesFrom first
    let cell := machine.fresh
    let machine := machine.dropTo first (Nat.sub_le ..)
    { machine with fresh := cell + 1 }.push (.array cell items)
  else
    machine.fail .stackUnderflow

/-- Fills a global slot with the value on top. Slots before it that are missing
become null. -/
def setGlobal (machine : Machine) (slot : Nat) : Except Stopped Machine := do
  let (value, ⟨slots, top, globals, printed, fresh, top_le⟩) ← machine.pop
  let globals := globals ++ Array.replicate (slot + 1 - globals.size) .null
  .ok ⟨slots, top, globals.setIfInBounds slot value, printed, fresh, top_le⟩

/-- Calls the builtin below the given number of arguments, and replaces all of
them by its answer. -/
def call (machine : Machine) (argumentCount : Nat) : Except Stopped Machine :=
  if enough : argumentCount < machine.top then
    let calleeSlot := machine.top - 1 - argumentCount
    match machine.slots[calleeSlot]?.getD .null with
    | .builtin builtin =>
        let outcome := builtin.call (machine.valuesFrom (calleeSlot + 1)) machine.fresh
        match machine.dropTo calleeSlot (by omega) with
        | ⟨slots, top, globals, printed, _, top_le⟩ =>
            push ⟨slots, top, globals, printed ++ outcome.printed, outcome.fresh, top_le⟩
              outcome.value
    | other => machine.fail (.notCallable other.kind)
  else
    machine.fail .stackUnderflow

def execute (constants : Array Value) (instruction : Instruction)
    (machine : Machine) : Except Stopped Machine :=
  match instruction.opcode with
  | .constant =>
      match constants[instruction.operand]? with
      | some value => machine.push value
      | none => machine.crash .noSuchConstant
  | .add => machine.binary Arithmetic.add.apply
  | .subtract => machine.binary Arithmetic.subtract.apply
  | .multiply => machine.binary Arithmetic.multiply.apply
  | .divide => machine.binary Arithmetic.divide.apply
  | .pushTrue => machine.push (.boolean true)
  | .pushFalse => machine.push (.boolean false)
  | .pushNull => machine.push .null
  | .equal => machine.binary Comparison.equal.apply
  | .notEqual => machine.binary Comparison.notEqual.apply
  | .greaterThan => machine.binary Comparison.greaterThan.apply
  | .minus => machine.unary Value.opposite
  | .bang => machine.unary fun operand => .ok operand.negated
  | .pop => do
      let (_, machine) ← machine.pop
      .ok machine
  | .array => machine.collect instruction.operand
  | .getGlobal => machine.push (machine.globals[instruction.operand]?.getD .null)
  | .setGlobal => machine.setGlobal instruction.operand
  | .getBuiltin =>
      match Builtin.ofIndex? instruction.operand with
      | some builtin => machine.push (.builtin builtin)
      | none => machine.crash .noSuchBuiltin
  | .call => machine.call instruction.operand

/-- Executes the instructions of a stream that begins at the given offset, up to
its end or to the first instruction that stops the run. -/
def runFrom (constants : Array Value) (offset : Nat) :
    List UInt8 → Machine → Except Stopped Machine
  | [], machine => .ok machine
  | byte :: stream, machine =>
      match _ : fetch byte stream with
      | .unknown => machine.fail (.unknownOpcode byte offset)
      | .truncated _ => machine.crash .operandCutOff
      | .instruction instruction rest =>
          match machine.execute constants instruction with
          | .ok machine =>
              runFrom constants (offset + instruction.opcode.size) rest machine
          | .error stopped => .error stopped
termination_by stream => stream.length
decreasing_by
  have shorter := length_of_fetch ‹_›
  simp only [List.length_cons]
  omega

def run (bytecode : Bytecode) (machine : Machine) : Except Stopped Machine :=
  machine.runFrom bytecode.constants 0 bytecode.code

end Machine

end ExprMachine
