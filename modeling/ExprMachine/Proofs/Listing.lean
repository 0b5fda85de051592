import ExprMachine.Bytecode
import ExprMachine.Proofs.Streams

/-!
# The lines of a listing

The lines of a listing tile the stream: the first one stands at its beginning, each one
stands where the one before ends, and they go up to the end of the stream or up to an
opcode whose operands are cut off. The text of bytecode consists of these lines and of a
line for each constant.
-/

namespace ExprMachine

/-- Operands that cannot be decoded are longer than the stream. -/
theorem Instruction.length_of_decodeOperands_none {widths : List Nat} {stream : List UInt8}
    (missing : decodeOperands widths stream = none) : stream.length < widths.sum := by
  induction widths generalizing stream with
  | nil => cases missing
  | cons width widths inductionHypothesis =>
      simp only [decodeOperands] at missing
      split at missing
      · split at missing
        · cases missing
        · next following =>
            have short := inductionHypothesis following
            rw [List.length_drop] at short
            rw [List.sum_cons]
            omega
      · next short =>
          rw [List.length_take] at short
          rw [List.sum_cons]
          omega

/-! ## What is fetched -/

section Fetching

variable {byte : UInt8} {stream rest : List UInt8}

theorem ofByte?_of_unknown (fetched : fetch byte stream = .unknown) :
    Opcode.ofByte? byte = none := by
  rw [fetch] at fetched
  split at fetched
  · assumption
  · split at fetched <;> cases fetched

theorem decode_of_truncated {opcode : Opcode}
    (fetched : fetch byte stream = .truncated opcode) :
    Opcode.ofByte? byte = some opcode ∧
      Instruction.decodeOperands opcode.widths stream = none := by
  rw [fetch] at fetched
  split at fetched
  · cases fetched
  · split at fetched
    · cases fetched
    · cases fetched
      exact ⟨‹_›, ‹_›⟩

theorem decode_of_instruction {instruction : Instruction}
    (fetched : fetch byte stream = .instruction instruction rest) :
    Opcode.ofByte? byte = some instruction.opcode ∧
      Instruction.decodeOperands instruction.opcode.widths stream =
        some (instruction.operands, rest) := by
  rw [fetch] at fetched
  split at fetched
  · cases fetched
  · split at fetched
    · cases fetched
      exact ⟨‹_›, ‹_›⟩
    · cases fetched

end Fetching

namespace Line

/-! ## What stands in a stream -/

/-- The line with this content belongs to an offset of the code. -/
inductive Stands (code : List UInt8) (offset : Nat) : Content → Prop
  | instruction {instruction : Instruction} :
      instruction.Fits → instruction.encode <+: code.drop offset →
        Stands code offset (.instruction instruction)
  | unknown {byte : UInt8} :
      code[offset]? = some byte → (∀ opcode : Opcode, opcode.byte ≠ byte) →
        Stands code offset (.unknown byte)
  | truncated {opcode : Opcode} :
      code[offset]? = some opcode.byte → code.length < offset + opcode.size →
        Stands code offset (.truncated opcode)

section Standing

variable {code stream rest : List UInt8} {offset : Nat} {byte : UInt8}

theorem getElem?_of_drop (found : code.drop offset = byte :: stream) :
    code[offset]? = some byte := by
  rw [← Nat.add_zero offset, ← List.getElem?_drop, found]
  rfl

theorem drop_succ_of_drop (found : code.drop offset = byte :: stream) :
    code.drop (offset + 1) = stream := by
  rw [← List.drop_drop, found]
  rfl

theorem stands_of_fetch_instruction {instruction : Instruction}
    (found : code.drop offset = byte :: stream)
    (fetched : fetch byte stream = .instruction instruction rest) :
    Stands code offset (.instruction instruction) ∧
      code.drop (offset + instruction.opcode.size) = rest ∧
      offset + instruction.opcode.size ≤ code.length := by
  obtain ⟨fits, bytes⟩ := of_fetch fetched
  have size := fits.complete.length_encode
  refine ⟨.instruction fits ⟨rest, bytes.trans found.symm⟩, ?_, ?_⟩
  · rw [← List.drop_drop, found, ← bytes]
    exact List.drop_left' size
  · have inside := (List.getElem?_eq_some_iff.mp (getElem?_of_drop found)).1
    have length := congrArg List.length (found.trans bytes.symm)
    rw [List.length_drop, List.length_append, size] at length
    omega

theorem stands_of_fetch_unknown (found : code.drop offset = byte :: stream)
    (fetched : fetch byte stream = .unknown) : Stands code offset (.unknown byte) := by
  refine .unknown (getElem?_of_drop found) fun opcode same => ?_
  have unknown := ofByte?_of_unknown fetched
  rw [← same, opcode.ofByte?_byte] at unknown
  cases unknown

theorem stands_of_fetch_truncated {opcode : Opcode}
    (found : code.drop offset = byte :: stream)
    (fetched : fetch byte stream = .truncated opcode) :
    Stands code offset (.truncated opcode) := by
  obtain ⟨known, missing⟩ := decode_of_truncated fetched
  have short := Instruction.length_of_decodeOperands_none missing
  have length := congrArg List.length found
  rw [List.length_drop, List.length_cons] at length
  refine .truncated ?_ ?_
  · rw [Opcode.byte_of_ofByte? known]
    exact getElem?_of_drop found
  · rw [Opcode.size_eq]
    omega

end Standing

/-! ## Lines one after another -/

/-- The lines of a stream that begins at the given offset. -/
def linesFrom (offset : Nat) : List UInt8 → List Line
  | [] => []
  | byte :: stream =>
      match _ : fetch byte stream with
      | .instruction instruction rest =>
          ⟨offset, .instruction instruction⟩ ::
            linesFrom (offset + instruction.opcode.size) rest
      | .unknown => ⟨offset, .unknown byte⟩ :: linesFrom (offset + 1) stream
      | .truncated opcode => [⟨offset, .truncated opcode⟩]
termination_by stream => stream.length
decreasing_by
  · have shorter := length_of_fetch ‹_›
    simp only [List.length_cons]
    omega
  · simp

theorem linesFrom_cons (offset : Nat) (byte : UInt8) (stream : List UInt8) :
    linesFrom offset (byte :: stream) =
      match fetch byte stream with
      | .instruction instruction rest =>
          ⟨offset, .instruction instruction⟩ ::
            linesFrom (offset + instruction.opcode.size) rest
      | .unknown => ⟨offset, .unknown byte⟩ :: linesFrom (offset + 1) stream
      | .truncated opcode => [⟨offset, .truncated opcode⟩] := by
  rw [linesFrom]
  split
  · next fetched => rw [fetched]
  · next fetched => rw [fetched]
  · next fetched => rw [fetched]

theorem appendLines_eq (offset : Nat) (lines : Array Line) (stream : List UInt8) :
    appendLines offset lines stream = lines ++ (linesFrom offset stream).toArray := by
  fun_induction linesFrom offset stream generalizing lines with
  | case1 => simp [appendLines]
  | case2 offset byte stream instruction rest fetched inductionHypothesis =>
      rw [appendLines]
      split
      · next found =>
          cases found.symm.trans fetched
          rw [inductionHypothesis]
          simp
      · next found => cases found.symm.trans fetched
      · next found => cases found.symm.trans fetched
  | case3 offset byte stream fetched inductionHypothesis =>
      rw [appendLines]
      split
      · next found => cases found.symm.trans fetched
      · rw [inductionHypothesis]
        simp
      · next found => cases found.symm.trans fetched
  | case4 offset byte stream opcode fetched =>
      rw [appendLines]
      split
      · next found => cases found.symm.trans fetched
      · next found => cases found.symm.trans fetched
      · next found =>
          cases found.symm.trans fetched
          simp

theorem ofStream_eq (stream : List UInt8) : ofStream stream = linesFrom 0 stream := by
  rw [ofStream, appendLines_eq]
  simp

/-- The lines go through the code from an offset on, without a gap and without an
overlap, up to its end or to an instruction that is cut off. -/
inductive Tiles (code : List UInt8) : Nat → List Line → Prop
  | finished : Tiles code code.length []
  | instruction {offset : Nat} {instruction : Instruction} {lines : List Line} :
      Stands code offset (.instruction instruction) →
        Tiles code (offset + instruction.opcode.size) lines →
          Tiles code offset (⟨offset, .instruction instruction⟩ :: lines)
  | unknown {offset : Nat} {byte : UInt8} {lines : List Line} :
      Stands code offset (.unknown byte) → Tiles code (offset + 1) lines →
        Tiles code offset (⟨offset, .unknown byte⟩ :: lines)
  | truncated {offset : Nat} {opcode : Opcode} :
      Stands code offset (.truncated opcode) →
        Tiles code offset [⟨offset, .truncated opcode⟩]

theorem tiles_linesFrom {code stream : List UInt8} {offset : Nat}
    (found : code.drop offset = stream) (inside : offset ≤ code.length) :
    Tiles code offset (linesFrom offset stream) := by
  fun_induction linesFrom offset stream with
  | case1 offset =>
      rw [Nat.le_antisymm inside (List.drop_eq_nil_iff.mp found)]
      exact .finished
  | case2 offset byte stream instruction rest fetched inductionHypothesis =>
      obtain ⟨stands, following, past⟩ := stands_of_fetch_instruction found fetched
      exact .instruction stands (inductionHypothesis following past)
  | case3 offset byte stream fetched inductionHypothesis =>
      have next := List.getElem?_eq_some_iff.mp (getElem?_of_drop found)
      exact .unknown (stands_of_fetch_unknown found fetched)
        (inductionHypothesis (drop_succ_of_drop found) next.1)
  | case4 offset byte stream opcode fetched =>
      exact .truncated (stands_of_fetch_truncated found fetched)

theorem tiles_ofStream (code : List UInt8) : Tiles code 0 (ofStream code) := by
  rw [ofStream_eq]
  exact tiles_linesFrom rfl (Nat.zero_le _)

/-! ## Text -/

def text (line : Line) : String :=
  padded line.offset ++ " " ++
    match line.content with
    | .instruction instruction =>
        instruction.opcode.name ++
          String.join (instruction.operands.map fun operand => " " ++ toString operand) ++
            "\n"
    | .unknown byte => "ERROR: unknown opcode " ++ toString byte.toNat ++ "\n"
    | .truncated opcode => "ERROR: truncated " ++ opcode.name ++ "\n"

theorem foldl_append_operands (operands : List Nat) (done : String) :
    operands.foldl (fun done operand => done ++ " " ++ toString operand) done =
      done ++ String.join (operands.map fun operand => " " ++ toString operand) := by
  induction operands generalizing done with
  | nil => simp
  | cons operand operands inductionHypothesis =>
      rw [List.foldl_cons, inductionHypothesis, List.map_cons, String.join_cons]
      simp only [String.append_assoc]

theorem append_eq (line : Line) (done : String) : line.append done = done ++ line.text := by
  obtain ⟨offset, content⟩ := line
  cases content with
  | instruction instruction =>
      simp only [append, foldl_append_operands]
      simp only [text, String.append_assoc]
  | _ => simp only [append, text, String.append_assoc]

theorem foldl_append_eq (lines : List Line) (done : String) :
    lines.foldl (fun done line => line.append done) done =
      done ++ String.join (lines.map text) := by
  induction lines generalizing done with
  | nil => simp
  | cons line lines inductionHypothesis =>
      rw [List.foldl_cons, inductionHypothesis, append_eq, List.map_cons, String.join_cons,
        String.append_assoc]

end Line

theorem listing_eq (stream : List UInt8) :
    listing stream = String.join ((Line.ofStream stream).map Line.text) := by
  rw [listing, Line.foldl_append_eq]
  exact String.empty_append

/-! ## Constants -/

namespace Bytecode

/-- The line of a constant: its index, the name of its type and its text. -/
def constantLine : Value × Nat → String
  | (value, index) =>
      Line.padded index ++ " " ++ value.kind.name ++ " " ++ value.text ++ "\n"

/-- A heading and a line for each constant, if there are any. -/
def constantLines : List Value → List String
  | [] => []
  | value :: values => "constants:\n" :: (value :: values).zipIdx.map constantLine

theorem appendConstants_eq (values : List Value) (index : Nat) (done : String) :
    appendConstants index values done =
      done ++ String.join ((values.zipIdx index).map constantLine) := by
  induction values generalizing index done with
  | nil => simp [appendConstants]
  | cons value values inductionHypothesis =>
      rw [appendConstants, inductionHypothesis, value.append_eq, List.zipIdx_cons,
        List.map_cons, String.join_cons]
      simp only [constantLine, String.append_assoc]

/-- Bytecode is shown as the lines of its listing, one after another, and then those of its
constants. -/
theorem text_eq (bytecode : Bytecode) :
    bytecode.text =
      String.join ((Line.ofStream bytecode.code).map Line.text ++
        constantLines bytecode.constants.toList) := by
  obtain ⟨code, ⟨values⟩⟩ := bytecode
  rw [String.join_append, ← listing_eq]
  cases values with
  | nil => exact String.append_empty.symm
  | cons value values =>
      have shown : text ⟨code, ⟨value :: values⟩⟩ =
          appendConstants 0 (value :: values) (listing code ++ "constants:\n") := rfl
      rw [shown, appendConstants_eq, constantLines, String.join_cons, String.append_assoc]

example :
    text ⟨Instruction.encodeAll [⟨.constant, [0]⟩, ⟨.pop, []⟩], #[.integer 2]⟩ =
      "0000 OpConstant 0\n0003 OpPop\nconstants:\n0000 INTEGER 2\n" := by
  cbv

end Bytecode

end ExprMachine
