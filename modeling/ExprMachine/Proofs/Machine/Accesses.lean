import ExprMachine.Machine
import ExprMachine.Instruction.Listing
import ExprMachine.Proofs.Sequencing

/-!
# The machine, access by access

A `Machine` cannot miss its stack, because it knows how many slots it has in use. The
`RawMachine` described here is the same machine without this knowledge. Its code is an
array of bytes that it reads at a counter, each instruction says by itself how many
bytes of operands it takes, the number of values in use is just a number, and every
access to the code, the constants, the builtins, the slots, the globals and the
arguments of a builtin is one that may miss. A run records all that it dispatched.
-/

namespace ExprMachine

/-! ## Accesses -/

/-- What a raw machine reads or writes: one place, or the places from the first up to the
last one. The subtraction of an amount counts as an access below a number. -/
inductive Access where
  | code (offset : Nat)
  | constant (index : Nat)
  | builtin (index : Nat)
  | slot (index : Nat)
  | slots (first last : Nat)
  | global (index : Nat)
  | argument (index : Nat)
  | items (first last : Nat)
  | below (number amount : Nat)
deriving DecidableEq, Repr

/-- The state of a machine, with nothing known about the number of values in use. -/
structure RawMachine where
  slots : Array Value
  top : Nat
  globals : Array Value
  printed : String
  fresh : Cell

/-- Why a raw machine stops: an error of the program, which leaves a state, or an access
that missed. -/
inductive RawStop where
  | error (error : RuntimeError) (machine : RawMachine)
  | miss (access : Access)

/-- What an access found, or that it missed. -/
def reach {α : Type} (access : Access) : Option α → Except RawStop α
  | some found => .ok found
  | none => .error (.miss access)

def subtract? (number amount : Nat) : Option Nat :=
  if amount ≤ number then some (number - amount) else none

section Stores

variable {α : Type} (store : Array α)

def write? (index : Nat) (value : α) : Option (Array α) :=
  if inside : index < store.size then some (store.set index value inside) else none

def slice? (first last : Nat) : Option (Array α) :=
  if first ≤ last ∧ last ≤ store.size then some (store.extract first last) else none

end Stores

def clear? (slots : Array Value) (first last : Nat) : Option (Array Value) :=
  if first ≤ last ∧ last ≤ slots.size then
    some (Machine.clear slots first (last - first))
  else
    none

/-! ## Builtins -/

namespace Builtin

/-- An answer to the given number of arguments. -/
def answerTo (count : Nat) (arguments : Array Value) (answer : Except RawStop Answer) :
    Except RawStop Answer :=
  if arguments.size = count then
    answer
  else
    .ok (.misuse (.wrongArgumentCount arguments.size count))

/-- An answer to the items of the argument at a place, which has to be an array. -/
def answerToArray (builtin : Builtin) (arguments : Array Value) (place : Nat)
    (answer : List Value → Except RawStop Answer) : Except RawStop Answer := do
  let argument ← reach (.argument place) arguments[place]?
  match argument with
  | .array _ items => answer items
  | other => .ok (.misuse (.expectedArray place builtin other.kind))

/-- The items of an array but the last one, or null if nothing is left. -/
def withoutLast (items : List Value) : Except RawStop Answer :=
  if 1 < items.length then do
    let last ← reach (.below items.length 1) (subtract? items.length 1)
    let kept ← reach (.items 0 last) (slice? items.toArray 0 last)
    .ok (.array kept.toList)
  else
    .ok (.value .null)

/-- The answer of a builtin, which counts its arguments before it looks at them. -/
def rawAnswer (builtin : Builtin) (arguments : Array Value) : Except RawStop Answer :=
  match builtin with
  | len =>
      answerTo 1 arguments do
        let argument ← reach (.argument 0) arguments[0]?
        .ok (lengthOf argument)
  | first =>
      answerTo 1 arguments <|
        builtin.answerToArray arguments 0 fun items =>
          .ok (.value (items.head?.getD .null))
  | last =>
      answerTo 1 arguments <|
        builtin.answerToArray arguments 0 fun items =>
          .ok (.value (items.getLast?.getD .null))
  | rest =>
      answerTo 1 arguments <|
        builtin.answerToArray arguments 0 fun items => .ok (restOf items)
  | push =>
      answerTo 2 arguments <|
        builtin.answerToArray arguments 0 fun items => do
          let item ← reach (.argument 1) arguments[1]?
          .ok (.array (items ++ [item]))
  | pop => answerTo 1 arguments <| builtin.answerToArray arguments 0 withoutLast
  | print => .ok (.printed (linesOf arguments.toList))
  | stringJoin =>
      answerTo 2 arguments <|
        builtin.answerToArray arguments 0 fun items => do
          let separator ← reach (.argument 1) arguments[1]?
          .ok (joinWith items separator)

end Builtin

/-! ## The stack -/

namespace RawMachine

def start (stackSize : Nat) (globals : Array Value) (fresh : Cell) : RawMachine where
  slots := Array.replicate stackSize .null
  top := 0
  globals := globals
  printed := ""
  fresh := fresh

def fail {α : Type} (machine : RawMachine) (error : RuntimeError) : Except RawStop α :=
  .error (.error error machine)

/-- The value in use that was pushed last, if any is in use. -/
def topValue (machine : RawMachine) : Except RawStop (Option Value) :=
  match subtract? machine.top 1 with
  | none => .ok none
  | some slot => do
      let value ← reach (.slot slot) machine.slots[slot]?
      .ok (some value)

def push (machine : RawMachine) (value : Value) : Except RawStop RawMachine :=
  if machine.slots.size ≤ machine.top then
    machine.fail (.stackOverflow machine.slots.size)
  else do
    let slots ← reach (.slot machine.top) (write? machine.slots machine.top value)
    .ok { machine with slots, top := machine.top + 1 }

/-- Pops a value. If there is a slot above it, that one is cleared. -/
def pop (machine : RawMachine) : Except RawStop (Value × RawMachine) :=
  if machine.top = 0 then
    machine.fail .stackUnderflow
  else do
    let top ← reach (.below machine.top 1) (subtract? machine.top 1)
    let slots := (write? machine.slots (top + 1) .null).getD machine.slots
    let value ← reach (.slot top) slots[top]?
    .ok (value, { machine with slots, top })

/-- Drops the values from a slot on, and clears the slots up to the one of the value
popped last, if that one has a slot. -/
def dropTo (machine : RawMachine) (top : Nat) : Except RawStop RawMachine := do
  let last := min (machine.top + 1) machine.slots.size
  let slots ← reach (.slots top last) (clear? machine.slots top last)
  .ok { machine with slots, top }

/-! ## Instructions -/

def binary (machine : RawMachine)
    (operation : Value → Value → Except RuntimeError Value) :
    Except RawStop RawMachine := do
  let (right, machine) ← machine.pop
  let (left, machine) ← machine.pop
  match operation left right with
  | .ok value => machine.push value
  | .error error => machine.fail error

def unary (machine : RawMachine) (operation : Value → Except RuntimeError Value) :
    Except RawStop RawMachine := do
  let (operand, machine) ← machine.pop
  match operation operand with
  | .ok value => machine.push value
  | .error error => machine.fail error

def collect (machine : RawMachine) (count : Nat) : Except RawStop RawMachine :=
  if machine.top < count then
    machine.fail .stackUnderflow
  else do
    let first ← reach (.below machine.top count) (subtract? machine.top count)
    let items ← reach (.slots first machine.top) (slice? machine.slots first machine.top)
    let dropped ← machine.dropTo first
    { dropped with fresh := machine.fresh + 1 }.push (.array machine.fresh items.toList)

def setGlobal (machine : RawMachine) (slot : Nat) : Except RawStop RawMachine := do
  let (value, machine) ← machine.pop
  let missing := slot + 1 - machine.globals.size
  let globals := machine.globals ++ Array.replicate missing .null
  let globals ← reach (.global slot) (write? globals slot value)
  .ok { machine with globals }

def call (machine : RawMachine) (argumentCount : Nat) : Except RawStop RawMachine :=
  if machine.top ≤ argumentCount then
    machine.fail .stackUnderflow
  else do
    let last ← reach (.below machine.top 1) (subtract? machine.top 1)
    let calleeSlot ← reach (.below last argumentCount) (subtract? last argumentCount)
    let callee ← reach (.slot calleeSlot) machine.slots[calleeSlot]?
    match callee with
    | .builtin builtin => do
        let arguments ← reach (.slots (calleeSlot + 1) machine.top)
          (slice? machine.slots (calleeSlot + 1) machine.top)
        let answer ← builtin.rawAnswer arguments
        let outcome := answer.build machine.fresh
        let dropped ← machine.dropTo calleeSlot
        push { dropped with
          printed := machine.printed ++ outcome.printed
          fresh := outcome.fresh } outcome.value
    | other => machine.fail (.notCallable other.kind)

def execute (constants : Array Value) (instruction : Instruction)
    (machine : RawMachine) : Except RawStop RawMachine :=
  match instruction.opcode with
  | .constant => do
      let value ← reach (.constant instruction.operand) constants[instruction.operand]?
      machine.push value
  | .add => machine.binary Arithmetic.add.apply
  | .subtract => machine.binary Arithmetic.subtract.apply
  | .multiply => machine.binary Arithmetic.multiply.apply
  | .divide => machine.binary Arithmetic.divide.apply
  | .pushTrue => machine.push (.boolean true)
  | .pushFalse => machine.push (.boolean false)
  | .pushNull => machine.push .null
  | .equal => machine.binary Comparison.equal.apply
  | .notEqual => machine.binary Comparison.notEqual.apply
  | .greaterThan => machine.binary Comparison.greaterThan.apply
  | .minus => machine.unary Value.opposite
  | .bang => machine.unary fun operand => .ok operand.negated
  | .pop => do
      let (_, machine) ← machine.pop
      .ok machine
  | .array => machine.collect instruction.operand
  | .getGlobal => machine.push (machine.globals[instruction.operand]?.getD .null)
  | .setGlobal => machine.setGlobal instruction.operand
  | .getBuiltin => do
      let builtin ← reach (.builtin instruction.operand) Builtin.all[instruction.operand]?
      machine.push (.builtin builtin)
  | .call => machine.call instruction.operand

end RawMachine

/-! ## Runs -/

/-- The operands of an opcode in the code from an offset on, and the offset after them. -/
def Opcode.operandsAt (code : List UInt8) (offset : Nat) :
    Opcode → Except RawStop (List Nat × Nat)
  | constant | array | getGlobal | setGlobal => do
      let high ← reach (.code offset) code[offset]?
      let low ← reach (.code (offset + 1)) code[offset + 1]?
      .ok ([high.toNat * 256 + low.toNat], offset + 2)
  | getBuiltin | call => do
      let operand ← reach (.code offset) code[offset]?
      .ok ([operand.toNat], offset + 1)
  | add | subtract | multiply | divide | pushTrue | pushFalse | pushNull | equal | notEqual
  | greaterThan | minus | bang | pop => .ok ([], offset)

/-- Operands are read forwards. -/
theorem Opcode.le_operandsAt {code : List UInt8} {offset next : Nat} {opcode : Opcode}
    {operands : List Nat} (found : opcode.operandsAt code offset = .ok (operands, next)) :
    offset ≤ next := by
  cases opcode with
  | constant | array | getGlobal | setGlobal =>
      simp only [operandsAt, except_bind_eq_ok_iff] at found
      obtain ⟨_, _, _, _, same⟩ := found
      cases same
      exact Nat.le_add_right ..
  | getBuiltin | call =>
      simp only [operandsAt, except_bind_eq_ok_iff] at found
      obtain ⟨_, _, same⟩ := found
      cases same
      exact Nat.le_succ _
  | _ =>
      cases found
      exact Nat.le_refl _

/-- What a run dispatched, and the state of the machine before. -/
structure Moment where
  line : Line
  machine : RawMachine

/-- All that a run dispatched, in order, and how the run ended. -/
structure RawRun where
  moments : List Moment
  outcome : Except RawStop RawMachine

/-- Runs code from a counter on. The counter moves past each instruction that is
dispatched. -/
def RawMachine.runFrom (bytecode : Bytecode) (counter : Nat) (machine : RawMachine) :
    RawRun :=
  if inside : counter < bytecode.code.length then
    let byte := bytecode.code[counter]
    match Opcode.ofByte? byte with
    | none =>
        ⟨[⟨⟨counter, .unknown byte⟩, machine⟩], machine.fail (.unknownOpcode byte counter)⟩
    | some opcode =>
        match _ : opcode.operandsAt bytecode.code (counter + 1) with
        | .error stop => ⟨[⟨⟨counter, .truncated opcode⟩, machine⟩], .error stop⟩
        | .ok (operands, next) =>
            let instruction := ⟨opcode, operands⟩
            let moment := ⟨⟨counter, .instruction instruction⟩, machine⟩
            match machine.execute bytecode.constants instruction with
            | .error stop => ⟨[moment], .error stop⟩
            | .ok after =>
                let rest := runFrom bytecode next after
                ⟨moment :: rest.moments, rest.outcome⟩
  else
    ⟨[], .ok machine⟩
termination_by bytecode.code.length - counter
decreasing_by
  have past := Opcode.le_operandsAt ‹_›
  omega

def RawMachine.run (bytecode : Bytecode) (machine : RawMachine) : RawRun :=
  machine.runFrom bytecode 0

end ExprMachine
