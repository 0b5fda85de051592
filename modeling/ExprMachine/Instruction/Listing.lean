import ExprMachine.Instruction

/-!
# Listings

A listing shows a byte stream as lines, one for each instruction with its
offset. A byte that is no opcode has a line of its own, and an opcode whose
operands are cut off has the last line.
-/

namespace ExprMachine

inductive Line.Content where
  | instruction (instruction : Instruction)
  | unknown (byte : UInt8)
  | truncated (opcode : Opcode)
deriving DecidableEq, Repr

/-- A line of a listing and the offset of the byte it begins at. -/
structure Line where
  offset : Nat
  content : Line.Content
deriving DecidableEq, Repr

namespace Line

/-- Appends the lines of a stream that begins at the given offset. -/
def appendLines (offset : Nat) (lines : Array Line) : List UInt8 → Array Line
  | [] => lines
  | byte :: stream =>
      match _ : fetch byte stream with
      | .instruction instruction rest =>
          appendLines (offset + instruction.opcode.size)
            (lines.push ⟨offset, .instruction instruction⟩) rest
      | .unknown =>
          appendLines (offset + 1) (lines.push ⟨offset, .unknown byte⟩) stream
      | .truncated opcode => lines.push ⟨offset, .truncated opcode⟩
termination_by stream => stream.length
decreasing_by
  · have shorter := length_of_fetch ‹_›
    simp only [List.length_cons]
    omega
  · simp

def ofStream (stream : List UInt8) : List Line :=
  (appendLines 0 #[] stream).toList

/-- A number with at least four digits. -/
def padded (number : Nat) : String :=
  let digits := toString number
  String.ofList (List.replicate (4 - digits.length) '0') ++ digits

def append (line : Line) (done : String) : String :=
  let done := done ++ padded line.offset ++ " "
  match line.content with
  | .instruction instruction =>
      instruction.operands.foldl
        (fun done operand => done ++ " " ++ toString operand)
        (done ++ instruction.opcode.name) ++ "\n"
  | .unknown byte => done ++ "ERROR: unknown opcode " ++ toString byte.toNat ++ "\n"
  | .truncated opcode => done ++ "ERROR: truncated " ++ opcode.name ++ "\n"

end Line

def listing (stream : List UInt8) : String :=
  (Line.ofStream stream).foldl (fun done line => line.append done) ""

end ExprMachine
