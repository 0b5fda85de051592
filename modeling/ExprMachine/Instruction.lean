/-!
# Instructions

An instruction is an opcode with operands. In a byte stream it is one byte for
the opcode, followed by the operands with their highest byte first; how many
bytes each operand takes depends on the opcode alone. `Instruction.encode` writes
an instruction, and `fetch` reads the one at the head of a stream. A `CodeStream`
grows by the instructions that are pushed onto it.
-/

namespace ExprMachine

inductive Opcode where
  | constant
  | add
  | subtract
  | multiply
  | divide
  | pushTrue
  | pushFalse
  | equal
  | notEqual
  | greaterThan
  | minus
  | bang
  | pop
  | pushNull
  | array
  | getGlobal
  | setGlobal
  | getBuiltin
  | call
deriving DecidableEq, Repr

namespace Opcode

def name : Opcode → String
  | constant => "OpConstant"
  | add => "OpAdd"
  | subtract => "OpSub"
  | multiply => "OpMul"
  | divide => "OpDiv"
  | pushTrue => "OpTrue"
  | pushFalse => "OpFalse"
  | equal => "OpEqual"
  | notEqual => "OpNotEqual"
  | greaterThan => "OpGreaterThan"
  | minus => "OpMinus"
  | bang => "OpBang"
  | pop => "OpPop"
  | pushNull => "OpNull"
  | array => "OpArray"
  | getGlobal => "OpGetGlobal"
  | setGlobal => "OpSetGlobal"
  | getBuiltin => "OpGetBuiltin"
  | call => "OpCall"

/-- The number of bytes of each operand. -/
def widths : Opcode → List Nat
  | constant | array | getGlobal | setGlobal => [2]
  | getBuiltin | call => [1]
  | _ => []

def all : List Opcode :=
  [constant, add, subtract, multiply, divide, pushTrue, pushFalse, equal,
    notEqual, greaterThan, minus, bang, pop, pushNull, array, getGlobal,
    setGlobal, getBuiltin, call]

def byte : Opcode → UInt8
  | constant => 0
  | add => 1
  | subtract => 2
  | multiply => 3
  | divide => 4
  | pushTrue => 5
  | pushFalse => 6
  | equal => 7
  | notEqual => 8
  | greaterThan => 9
  | minus => 10
  | bang => 11
  | pop => 12
  | pushNull => 13
  | array => 14
  | getGlobal => 15
  | setGlobal => 16
  | getBuiltin => 17
  | call => 18

def ofByte? (byte : UInt8) : Option Opcode :=
  all[byte.toNat]?

/-- The number of bytes of an instruction with this opcode. -/
def size (opcode : Opcode) : Nat :=
  opcode.widths.foldr (· + ·) 1

theorem ofByte?_byte (opcode : Opcode) : ofByte? opcode.byte = some opcode := by
  cases opcode <;> rfl

end Opcode

structure Instruction where
  opcode : Opcode
  operands : List Nat
deriving DecidableEq, Repr

namespace Instruction

/-- The operand of an instruction. No opcode has more than one. -/
def operand (instruction : Instruction) : Nat :=
  instruction.operands.headD 0

/-! ## Bytes -/

/-- The lowest bytes of a number, the highest of them first. -/
def bigEndian : (width : Nat) → Nat → List UInt8
  | 0, _ => []
  | width + 1, value => bigEndian width (value / 256) ++ [UInt8.ofNat value]

/-- The number that bytes stand for, the highest of them first. -/
def ofBigEndian (bytes : List UInt8) : Nat :=
  bytes.foldl (fun value byte => value * 256 + byte.toNat) 0

/-- The bytes of operands with the given widths. Operands beyond the widths are
left out, and so are the high bytes of operands that are too large. -/
def encodeOperands (widths operands : List Nat) : List UInt8 :=
  (operands.zip widths).flatMap fun (operand, width) => bigEndian width operand

def encode (instruction : Instruction) : List UInt8 :=
  instruction.opcode.byte ::
    encodeOperands instruction.opcode.widths instruction.operands

/-- Reads operands with the given widths from the head of a stream, if there are
enough bytes. -/
def decodeOperands : List Nat → List UInt8 → Option (List Nat × List UInt8)
  | [], stream => some ([], stream)
  | width :: widths, stream =>
      let bytes := stream.take width
      if bytes.length = width then
        match decodeOperands widths (stream.drop width) with
        | some (operands, rest) => some (ofBigEndian bytes :: operands, rest)
        | none => none
      else
        none

def encodeAll (instructions : List Instruction) : List UInt8 :=
  instructions.flatMap encode

theorem length_of_decodeOperands {widths : List Nat} {stream rest : List UInt8}
    {operands : List Nat}
    (decoded : decodeOperands widths stream = some (operands, rest)) :
    rest.length ≤ stream.length := by
  induction widths generalizing stream operands with
  | nil =>
      simp only [decodeOperands, Option.some.injEq, Prod.mk.injEq] at decoded
      exact Nat.le_of_eq (congrArg List.length decoded.2.symm)
  | cons width widths inductionHypothesis =>
      simp only [decodeOperands] at decoded
      split at decoded
      · split at decoded
        · next following =>
            simp only [Option.some.injEq, Prod.mk.injEq] at decoded
            rw [decoded.2] at following
            have bound := inductionHypothesis following
            rw [List.length_drop] at bound
            omega
        · cases decoded
      · cases decoded

end Instruction

/-- What stands at the head of a stream: an instruction and the stream after it,
a byte that is no opcode, or an opcode whose operands are cut off. -/
inductive Fetched where
  | instruction (instruction : Instruction) (rest : List UInt8)
  | unknown
  | truncated (opcode : Opcode)
deriving DecidableEq, Repr

/-- What stands at the head of a stream that begins with the given byte. -/
def fetch (byte : UInt8) (stream : List UInt8) : Fetched :=
  match Opcode.ofByte? byte with
  | none => .unknown
  | some opcode =>
      match Instruction.decodeOperands opcode.widths stream with
      | some (operands, rest) => .instruction ⟨opcode, operands⟩ rest
      | none => .truncated opcode

/-- Fetching an instruction makes the stream shorter. -/
theorem length_of_fetch {byte : UInt8} {stream rest : List UInt8}
    {instruction : Instruction}
    (fetched : fetch byte stream = .instruction instruction rest) :
    rest.length ≤ stream.length := by
  unfold fetch at fetched
  split at fetched
  · cases fetched
  · split at fetched
    · next decoded =>
        cases fetched
        exact Instruction.length_of_decodeOperands decoded
    · cases fetched

/-- The bytes of instructions, to which more can be appended. -/
structure CodeStream where
  bytes : Array UInt8
deriving DecidableEq, Repr

namespace CodeStream

def empty : CodeStream := ⟨#[]⟩

def length (stream : CodeStream) : Nat :=
  stream.bytes.size

/-- Appends bytes to a stream. The first of them stands at the offset returned. -/
def push (stream : CodeStream) (bytes : List UInt8) : Nat × CodeStream :=
  (stream.length, ⟨stream.bytes ++ bytes.toArray⟩)

/-- Appends pieces one after another, and their offsets to those found before. -/
def pushAll (offsets : Array Nat) (stream : CodeStream) :
    List (List UInt8) → Array Nat × CodeStream
  | [] => (offsets, stream)
  | piece :: pieces =>
      let (offset, longer) := stream.push piece
      pushAll (offsets.push offset) longer pieces

end CodeStream

end ExprMachine
