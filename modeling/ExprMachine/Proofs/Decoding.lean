import ExprMachine.Machine
import Mathlib.Algebra.Group.Nat.Defs
import Mathlib.Data.List.Forall2

/-!
# Decoding what was encoded

An instruction has `Fits` when it has one operand for each width of its opcode
and each operand fits its width. A stream of such instructions is read back as
it was written: by `fetch`, by the listing, and by the machine, which runs the
stream as if it were given the instructions themselves.
-/

namespace ExprMachine

namespace Instruction

/-! ## Operands -/

@[simp]
theorem length_bigEndian (width value : Nat) :
    (bigEndian width value).length = width := by
  induction width generalizing value with
  | zero => rfl
  | succ width inductionHypothesis =>
      rw [bigEndian, List.length_append, inductionHypothesis]
      rfl

theorem ofBigEndian_bigEndian (width value : Nat) :
    ofBigEndian (bigEndian width value) = value % 256 ^ width := by
  induction width generalizing value with
  | zero => rw [Nat.pow_zero, Nat.mod_one]; rfl
  | succ width inductionHypothesis =>
      have lastByte : (UInt8.ofNat value).toNat = value % 256 := rfl
      have quotient := inductionHypothesis (value / 256)
      rw [ofBigEndian] at quotient
      rw [bigEndian, ofBigEndian, List.foldl_append, quotient, List.foldl_cons,
        List.foldl_nil, lastByte, Nat.pow_succ, Nat.mul_comm (256 ^ width) 256,
        Nat.mod_mul]
      omega

theorem encodeOperands_cons (width operand : Nat) (widths operands : List Nat) :
    encodeOperands (width :: widths) (operand :: operands) =
      bigEndian width operand ++ encodeOperands widths operands := rfl

/-- Operands come back from their bytes, cut to their widths. -/
theorem decodeOperands_encodeOperands {widths operands : List Nat}
    (sameLength : operands.length = widths.length) (rest : List UInt8) :
    decodeOperands widths (encodeOperands widths operands ++ rest) =
      some (operands.zipWith (fun operand width => operand % 256 ^ width) widths,
        rest) := by
  induction widths generalizing operands with
  | nil =>
      have empty : operands = [] := List.length_eq_zero_iff.mp sameLength
      subst empty
      rfl
  | cons width widths inductionHypothesis =>
      cases operands with
      | nil => cases sameLength
      | cons operand operands =>
          have tailLength : operands.length = widths.length :=
            Nat.succ.inj sameLength
          have front :
              (bigEndian width operand ++
                (encodeOperands widths operands ++ rest)).take width =
                bigEndian width operand :=
            List.take_left' (length_bigEndian width operand)
          have back :
              (bigEndian width operand ++
                (encodeOperands widths operands ++ rest)).drop width =
                encodeOperands widths operands ++ rest :=
            List.drop_left' (length_bigEndian width operand)
          rw [encodeOperands_cons, List.append_assoc, decodeOperands, front, back]
          simp only [length_bigEndian, if_true, inductionHypothesis tailLength,
            ofBigEndian_bigEndian, List.zipWith_cons_cons]

/-- The instruction has an operand for each width, and each one fits. -/
def Fits (instruction : Instruction) : Prop :=
  List.Forall₂ (fun operand width => operand < 256 ^ width)
    instruction.operands instruction.opcode.widths

/-- Operands that fit lose nothing when they are cut to their widths. -/
theorem Fits.zipWith_mod {operands widths : List Nat}
    (fits : List.Forall₂ (fun operand width => operand < 256 ^ width) operands
      widths) :
    operands.zipWith (fun operand width => operand % 256 ^ width) widths =
      operands := by
  induction fits with
  | nil => rfl
  | cons small _ inductionHypothesis =>
      rw [List.zipWith_cons_cons, inductionHypothesis, Nat.mod_eq_of_lt small]

@[simp]
theorem encodeAll_nil : encodeAll [] = [] := rfl

/-! ## Operands that do not fit -/

/-- The instruction with its operands cut to their widths. -/
def cut (instruction : Instruction) : Instruction :=
  ⟨instruction.opcode,
    instruction.operands.zipWith (fun operand width => operand % 256 ^ width)
      instruction.opcode.widths⟩

theorem Fits.cut_eq {instruction : Instruction} (fits : instruction.Fits) :
    instruction.cut = instruction := by
  rw [cut, Fits.zipWith_mod fits]

/-- Bytes only hold the low part of a number. -/
theorem bigEndian_mod (width value : Nat) :
    bigEndian width (value % 256 ^ width) = bigEndian width value := by
  induction width generalizing value with
  | zero => rfl
  | succ width inductionHypothesis =>
      have quotient : value % 256 ^ (width + 1) / 256 = value / 256 % 256 ^ width := by
        rw [Nat.pow_succ, Nat.mul_comm, Nat.mod_mul_right_div_self]
      have lastByte :
          UInt8.ofNat (value % 256 ^ (width + 1)) = UInt8.ofNat value := by
        rw [← UInt8.toNat_inj, UInt8.toNat_ofNat', UInt8.toNat_ofNat', Nat.pow_succ,
          Nat.mul_comm]
        exact Nat.mod_mul_right_mod value 256 (256 ^ width)
      rw [bigEndian, bigEndian, quotient, lastByte, inductionHypothesis]

theorem encodeOperands_mod (widths operands : List Nat) :
    encodeOperands widths
        (operands.zipWith (fun operand width => operand % 256 ^ width) widths) =
      encodeOperands widths operands := by
  induction widths generalizing operands with
  | nil => cases operands <;> rfl
  | cons width widths inductionHypothesis =>
      cases operands with
      | nil => rfl
      | cons operand operands =>
          rw [List.zipWith_cons_cons, encodeOperands_cons, encodeOperands_cons,
            bigEndian_mod, inductionHypothesis]

/-- An instruction and the one with cut operands are written in the same way. -/
theorem encode_cut (instruction : Instruction) :
    instruction.cut.encode = instruction.encode := by
  rw [encode, encode, cut, encodeOperands_mod]

theorem encodeAll_map_cut (code : List Instruction) :
    encodeAll (code.map cut) = encodeAll code := by
  induction code with
  | nil => rfl
  | cons instruction code inductionHypothesis =>
      have rest : (code.map cut).flatMap encode = code.flatMap encode :=
        inductionHypothesis
      rw [encodeAll, encodeAll, List.map_cons, List.flatMap_cons, List.flatMap_cons,
        encode_cut, rest]

/-- The instruction has as many operands as its opcode takes. -/
def Complete (instruction : Instruction) : Prop :=
  instruction.operands.length = instruction.opcode.widths.length

theorem Complete.cut_fits {instruction : Instruction}
    (complete : instruction.Complete) : instruction.cut.Fits := by
  have shorten : ∀ {operands widths : List Nat}, operands.length = widths.length →
      List.Forall₂ (fun operand width => operand < 256 ^ width)
        (operands.zipWith (fun operand width => operand % 256 ^ width) widths)
        widths := by
    intro operands widths sameLength
    induction widths generalizing operands with
    | nil =>
        rw [List.zipWith_nil_right]
        exact .nil
    | cons width widths inductionHypothesis =>
        cases operands with
        | nil => cases sameLength
        | cons operand operands =>
            have small : operand % 256 ^ width < 256 ^ width :=
              Nat.mod_lt _ (Nat.pow_pos (by decide))
            exact .cons small (inductionHypothesis (Nat.succ.inj sameLength))
  exact shorten complete

theorem encodeAll_cons (instruction : Instruction) (code : List Instruction) :
    encodeAll (instruction :: code) =
      instruction.opcode.byte ::
        (encodeOperands instruction.opcode.widths instruction.operands ++
          encodeAll code) := rfl

end Instruction

/-! ## Streams -/

/-- The instruction at the head of a stream is fetched as it was written. -/
theorem fetch_encode {instruction : Instruction} (fits : instruction.Fits)
    (rest : List UInt8) :
    fetch instruction.opcode.byte
        (Instruction.encodeOperands instruction.opcode.widths
          instruction.operands ++ rest) =
      .instruction instruction rest := by
  have decoded :=
    Instruction.decodeOperands_encodeOperands fits.length_eq rest
  rw [Instruction.Fits.zipWith_mod fits] at decoded
  simp only [fetch, Opcode.ofByte?_byte, decoded]

namespace Line

/-- The lines of instructions, the first of which begins at the given offset. -/
def ofCode (offset : Nat) : List Instruction → List Line
  | [] => []
  | instruction :: code =>
      ⟨offset, .instruction instruction⟩ ::
        ofCode (offset + instruction.opcode.size) code

@[simp]
theorem ofCode_map_content (offset : Nat) (code : List Instruction) :
    (ofCode offset code).map Line.content = code.map .instruction := by
  induction code generalizing offset with
  | nil => rfl
  | cons instruction code inductionHypothesis =>
      rw [ofCode, List.map_cons, inductionHypothesis]
      rfl

theorem appendLines_encodeAll {code : List Instruction}
    (fits : ∀ instruction ∈ code, instruction.Fits) (offset : Nat)
    (lines : Array Line) :
    appendLines offset lines (Instruction.encodeAll code) =
      lines ++ (ofCode offset code).toArray := by
  induction code generalizing offset lines with
  | nil => simp [appendLines, ofCode]
  | cons instruction code inductionHypothesis =>
      have headFits := fits instruction List.mem_cons_self
      have tailFits : ∀ other ∈ code, other.Fits := fun other member =>
        fits other (List.mem_cons_of_mem instruction member)
      have fetched := fetch_encode headFits (Instruction.encodeAll code)
      rw [Instruction.encodeAll_cons, appendLines]
      split
      · next found =>
          cases found.symm.trans fetched
          rw [inductionHypothesis tailFits]
          simp [ofCode]
      · next found => cases found.symm.trans fetched
      · next found => cases found.symm.trans fetched

/-- The listing of encoded instructions shows exactly these instructions. -/
theorem ofStream_encodeAll {code : List Instruction}
    (fits : ∀ instruction ∈ code, instruction.Fits) :
    ofStream (Instruction.encodeAll code) = ofCode 0 code := by
  rw [ofStream, appendLines_encodeAll fits]
  simp

/-- The listing of encoded instructions shows their operands cut to their widths. -/
theorem content_ofStream_encodeAll {code : List Instruction}
    (complete : ∀ instruction ∈ code, instruction.Complete) :
    (ofStream (Instruction.encodeAll code)).map Line.content =
      (code.map Instruction.cut).map .instruction := by
  have fits : ∀ instruction ∈ code.map Instruction.cut, instruction.Fits := by
    intro instruction member
    obtain ⟨original, originalMember, rfl⟩ := List.mem_map.mp member
    exact (complete original originalMember).cut_fits
  rw [← Instruction.encodeAll_map_cut, ofStream_encodeAll fits, ofCode_map_content]

end Line

namespace Machine

/-- What a run does first depends on what is fetched. -/
theorem runFrom_cons (constants : Array Value) (offset : Nat) (byte : UInt8)
    (stream : List UInt8) (machine : Machine) :
    machine.runFrom constants offset (byte :: stream) =
      match fetch byte stream with
      | .unknown => machine.fail (.unknownOpcode byte offset)
      | .truncated _ => machine.crash .operandCutOff
      | .instruction instruction rest =>
          (machine.execute constants instruction).bind fun next =>
            next.runFrom constants (offset + instruction.opcode.size) rest := by
  rw [runFrom]
  split
  · next fetched => rw [fetched]
  · next fetched => rw [fetched]
  · next instruction rest fetched =>
      rw [fetched]
      dsimp only
      cases machine.execute constants instruction <;> rfl

/-- Executes instructions one after another. -/
def executeAll (constants : Array Value) (code : List Instruction)
    (machine : Machine) : Except Stopped Machine :=
  code.foldlM (fun machine instruction => machine.execute constants instruction)
    machine

@[simp]
theorem executeAll_nil (constants : Array Value) (machine : Machine) :
    machine.executeAll constants [] = .ok machine := rfl

theorem executeAll_cons (constants : Array Value) (instruction : Instruction)
    (code : List Instruction) (machine : Machine) :
    machine.executeAll constants (instruction :: code) =
      (machine.execute constants instruction).bind fun machine =>
        machine.executeAll constants code := rfl

theorem executeAll_singleton (constants : Array Value) (instruction : Instruction)
    (machine : Machine) :
    machine.executeAll constants [instruction] =
      machine.execute constants instruction := by
  rw [executeAll_cons]
  cases machine.execute constants instruction <;> rfl

theorem executeAll_append (constants : Array Value)
    (front back : List Instruction) (machine : Machine) :
    machine.executeAll constants (front ++ back) =
      (machine.executeAll constants front).bind fun machine =>
        machine.executeAll constants back :=
  List.foldlM_append

/-- Running a stream is executing the instructions it was made of. -/
theorem runFrom_encodeAll {code : List Instruction}
    (fits : ∀ instruction ∈ code, instruction.Fits) (constants : Array Value)
    (offset : Nat) (machine : Machine) :
    machine.runFrom constants offset (Instruction.encodeAll code) =
      machine.executeAll constants code := by
  induction code generalizing offset machine with
  | nil => rw [Instruction.encodeAll_nil, runFrom, executeAll_nil]
  | cons instruction code inductionHypothesis =>
      have headFits := fits instruction List.mem_cons_self
      have tailFits : ∀ other ∈ code, other.Fits := fun other member =>
        fits other (List.mem_cons_of_mem instruction member)
      have fetched := fetch_encode headFits (Instruction.encodeAll code)
      rw [Instruction.encodeAll_cons, runFrom, executeAll_cons]
      split
      · next found => cases found.symm.trans fetched
      · next found => cases found.symm.trans fetched
      · next found =>
          cases found.symm.trans fetched
          split
          · next next executed =>
              rw [executed, inductionHypothesis tailFits]
              rfl
          · next stopped executed => rw [executed]; rfl

end Machine

end ExprMachine
