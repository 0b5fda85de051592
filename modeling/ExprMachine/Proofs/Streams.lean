import ExprMachine.Proofs.Decoding
import Mathlib

/-!
# Instructions as bytes and back

A stream is decoded by fetching one instruction after another. When instructions with
all their operands are pushed onto a stream, they are decoded at the offsets at which
they were pushed, with their operands cut to their widths. And what a stream is decoded
to can be pushed again, which gives the same stream.
-/

namespace ExprMachine

/-- An instruction in a stream, the offset of its first byte, and the offset of the byte
after it. -/
structure Placed where
  instruction : Instruction
  start : Nat
  stop : Nat
deriving DecidableEq, Repr

/-- The instructions of a stream that begins at the given offset, unless there is a byte
that is no opcode, or operands are cut off. -/
def decodeFrom (offset : Nat) : List UInt8 → Option (List Placed)
  | [] => some []
  | byte :: stream =>
      match _ : fetch byte stream with
      | .instruction instruction rest =>
          let stop := offset + 1 + (stream.length - rest.length)
          (decodeFrom stop rest).map (⟨instruction, offset, stop⟩ :: ·)
      | .unknown => none
      | .truncated _ => none
termination_by stream => stream.length
decreasing_by
  have shorter := length_of_fetch ‹_›
  simp only [List.length_cons]
  omega

def CodeStream.decode (stream : CodeStream) : Option (List Placed) :=
  decodeFrom 0 stream.bytes.toList

/-- Instructions one after another, the first of which begins at the given offset. -/
def Placed.ofCode (offset : Nat) : List Instruction → List Placed
  | [] => []
  | instruction :: code =>
      let stop := offset + instruction.opcode.size
      ⟨instruction, offset, stop⟩ :: ofCode stop code

@[simp]
theorem Placed.map_instruction_ofCode (offset : Nat) (code : List Instruction) :
    (ofCode offset code).map Placed.instruction = code := by
  induction code generalizing offset with
  | nil => rfl
  | cons instruction code inductionHypothesis =>
      rw [ofCode, List.map_cons, inductionHypothesis]

/-! ## Sizes -/

theorem Opcode.size_eq (opcode : Opcode) : opcode.size = 1 + opcode.widths.sum := by
  cases opcode <;> rfl

namespace Instruction

theorem length_encodeOperands {widths operands : List Nat}
    (sameLength : operands.length = widths.length) :
    (encodeOperands widths operands).length = widths.sum := by
  induction widths generalizing operands with
  | nil =>
      cases List.length_eq_zero_iff.mp sameLength
      rfl
  | cons width widths inductionHypothesis =>
      cases operands with
      | nil => cases sameLength
      | cons operand operands =>
          rw [encodeOperands_cons, List.length_append, length_bigEndian,
            inductionHypothesis (Nat.succ.inj sameLength), List.sum_cons]

/-- An instruction takes as many bytes as its opcode says. -/
theorem Complete.length_encode {instruction : Instruction}
    (complete : instruction.Complete) :
    instruction.encode.length = instruction.opcode.size := by
  rw [encode, List.length_cons, length_encodeOperands complete, Opcode.size_eq,
    Nat.add_comm]

theorem Fits.complete {instruction : Instruction} (fits : instruction.Fits) :
    instruction.Complete :=
  fits.length_eq

/-! ## Operands from their bytes -/

theorem ofBigEndian_concat (front : List UInt8) (last : UInt8) :
    ofBigEndian (front ++ [last]) = ofBigEndian front * 256 + last.toNat := by
  rw [ofBigEndian, List.foldl_append]
  rfl

theorem ofBigEndian_lt (bytes : List UInt8) :
    ofBigEndian bytes < 256 ^ bytes.length := by
  induction bytes using List.reverseRecOn with
  | nil => decide
  | append_singleton front last inductionHypothesis =>
      have small := last.toNat_lt
      rw [ofBigEndian_concat, List.length_append, List.length_singleton, Nat.pow_succ]
      omega

/-- Bytes come back from the number that they stand for. -/
theorem bigEndian_ofBigEndian (bytes : List UInt8) :
    bigEndian bytes.length (ofBigEndian bytes) = bytes := by
  induction bytes using List.reverseRecOn with
  | nil => rfl
  | append_singleton front last inductionHypothesis =>
      have small := last.toNat_lt
      have high : (ofBigEndian front * 256 + last.toNat) / 256 = ofBigEndian front := by
        omega
      have low : UInt8.ofNat (ofBigEndian front * 256 + last.toNat) = last := by
        rw [← UInt8.toNat_inj, UInt8.toNat_ofNat']
        omega
      rw [ofBigEndian_concat, List.length_append, List.length_singleton, bigEndian, high,
        low, inductionHypothesis]

/-- Operands that were decoded fit their widths, and are written with the same bytes. -/
theorem of_decodeOperands {widths operands : List Nat} {stream rest : List UInt8}
    (decoded : decodeOperands widths stream = some (operands, rest)) :
    List.Forall₂ (fun operand width => operand < 256 ^ width) operands widths ∧
      encodeOperands widths operands ++ rest = stream := by
  induction widths generalizing stream operands with
  | nil =>
      cases decoded
      exact ⟨.nil, rfl⟩
  | cons width widths inductionHypothesis =>
      simp only [decodeOperands] at decoded
      split at decoded
      · next enough =>
          split at decoded
          · next others last following =>
              cases decoded
              obtain ⟨fits, same⟩ := inductionHypothesis following
              have small := ofBigEndian_lt (stream.take width)
              have back := bigEndian_ofBigEndian (stream.take width)
              rw [enough] at small back
              refine ⟨.cons small fits, ?_⟩
              rw [encodeOperands_cons, back, List.append_assoc, same,
                List.take_append_drop]
          · cases decoded
      · cases decoded

end Instruction

theorem Opcode.byte_of_ofByte? {byte : UInt8} {opcode : Opcode}
    (found : ofByte? byte = some opcode) : opcode.byte = byte := by
  have position : byte.toNat < all.length := (List.getElem?_eq_some_iff.mp found).1
  have every : ∀ index : Fin all.length, ∀ opcode,
      all[index.val]? = some opcode → opcode.byte.toNat = index.val := by
    decide
  exact UInt8.toNat_inj.mp (every ⟨byte.toNat, position⟩ opcode found)

/-- What is fetched fits, and is written as it was read. -/
theorem of_fetch {byte : UInt8} {stream rest : List UInt8} {instruction : Instruction}
    (fetched : fetch byte stream = .instruction instruction rest) :
    instruction.Fits ∧ instruction.encode ++ rest = byte :: stream := by
  unfold fetch at fetched
  split at fetched
  · cases fetched
  · next opcode found =>
      split at fetched
      · next operands last decoded =>
          cases fetched
          obtain ⟨fits, same⟩ := Instruction.of_decodeOperands decoded
          refine ⟨fits, ?_⟩
          rw [Instruction.encode, List.cons_append, same, Opcode.byte_of_ofByte? found]
      · cases fetched

/-! ## Streams -/

/-- Instructions are decoded where they stand. -/
theorem decodeFrom_encodeAll {code : List Instruction}
    (fits : ∀ instruction ∈ code, instruction.Fits) (offset : Nat) :
    decodeFrom offset (Instruction.encodeAll code) = some (Placed.ofCode offset code) := by
  induction code generalizing offset with
  | nil => rw [Instruction.encodeAll_nil, decodeFrom, Placed.ofCode]
  | cons instruction code inductionHypothesis =>
      obtain ⟨head, tail⟩ := List.forall_mem_cons.mp fits
      have fetched := fetch_encode head (Instruction.encodeAll code)
      have stop (rest : List UInt8) :
          offset + 1 + ((Instruction.encodeOperands instruction.opcode.widths
            instruction.operands ++ rest).length - rest.length) =
              offset + instruction.opcode.size := by
        rw [List.length_append, Nat.add_sub_cancel, Opcode.size_eq,
          Instruction.length_encodeOperands head.complete, Nat.add_assoc]
      rw [Instruction.encodeAll_cons, decodeFrom]
      split
      · next found =>
          cases found.symm.trans fetched
          dsimp only
          rw [stop, inductionHypothesis tail, Placed.ofCode]
          rfl
      · next found => cases found.symm.trans fetched
      · next found => cases found.symm.trans fetched

/-- What a stream is decoded to fits and stands one after another, and is written with
the bytes of the stream. -/
theorem of_decodeFrom {offset : Nat} {stream : List UInt8} {placed : List Placed}
    (decoded : decodeFrom offset stream = some placed) :
    ∃ code, placed = Placed.ofCode offset code ∧
      (∀ instruction ∈ code, instruction.Fits) ∧ Instruction.encodeAll code = stream := by
  fun_induction decodeFrom offset stream generalizing placed with
  | case1 =>
      cases decoded
      exact ⟨[], rfl, List.forall_mem_nil _, rfl⟩
  | case2 offset byte stream instruction rest fetched stop =>
      rename_i inductionHypothesis
      obtain ⟨others, following, rfl⟩ := Option.map_eq_some_iff.mp decoded
      obtain ⟨code, rfl, fits, same⟩ := inductionHypothesis following
      obtain ⟨head, bytes⟩ := of_fetch fetched
      have length := congrArg List.length bytes
      rw [List.length_append, head.complete.length_encode, List.length_cons] at length
      have size : stop = offset + instruction.opcode.size := by
        have shorter := length_of_fetch fetched
        omega
      refine ⟨instruction :: code, ?_, List.forall_mem_cons.mpr ⟨head, fits⟩, ?_⟩
      · rw [Placed.ofCode, size]
      · rw [← bytes, ← same]
        rfl
  | case3 => cases decoded
  | case4 => cases decoded

/-- Instructions are pushed at the offsets where they stand in the stream. -/
theorem CodeStream.pushAll_encode {code : List Instruction}
    (complete : ∀ instruction ∈ code, instruction.Complete) (offsets : Array Nat)
    (stream : CodeStream) :
    stream.pushAll offsets (code.map Instruction.encode) =
      (offsets ++ ((Placed.ofCode stream.length code).map Placed.start).toArray,
        ⟨stream.bytes ++ (Instruction.encodeAll code).toArray⟩) := by
  induction code generalizing offsets stream with
  | nil => simp [pushAll, Placed.ofCode]
  | cons instruction code inductionHypothesis =>
      obtain ⟨head, tail⟩ := List.forall_mem_cons.mp complete
      have longer : (stream.push instruction.encode).2.length =
          stream.length + instruction.opcode.size := by
        rw [← head.length_encode]
        simp [push, length]
      rw [List.map_cons, pushAll]
      dsimp only
      rw [inductionHypothesis tail, longer, Placed.ofCode]
      simp [push, Instruction.encodeAll]

/-- Instructions follow one another without a gap, from the first offset to the end of
their bytes. -/
theorem Placed.stops_ofCode {code : List Instruction}
    (complete : ∀ instruction ∈ code, instruction.Complete) (offset : Nat) :
    offset :: (ofCode offset code).map stop =
      (ofCode offset code).map start ++
        [offset + (Instruction.encodeAll code).length] := by
  induction code generalizing offset with
  | nil => rfl
  | cons instruction code inductionHypothesis =>
      obtain ⟨head, tail⟩ := List.forall_mem_cons.mp complete
      have length : (Instruction.encodeAll (instruction :: code)).length =
          instruction.opcode.size + (Instruction.encodeAll code).length := by
        rw [← head.length_encode, ← List.length_append]
        rfl
      rw [ofCode, List.map_cons, List.map_cons, inductionHypothesis tail, List.cons_append,
        length, Nat.add_assoc]

/-- Instructions with all their operands are decoded as they were pushed: the operands
are cut to their widths, each instruction begins at the offset that its push returned,
and the last one ends where the stream does. And a stream that can be decoded is made
by pushing what it is decoded to, with the same offsets. -/
theorem CodeStream.decode_pushAll :
    (∀ code : List Instruction, (∀ instruction ∈ code, instruction.Complete) →
      let (offsets, stream) := empty.pushAll #[] (code.map Instruction.encode)
      ∃ placed, stream.decode = some placed ∧
        placed.map Placed.instruction = code.map (fun instruction =>
          ⟨instruction.opcode,
            instruction.operands.zipWith (fun operand width => operand % 2 ^ (8 * width))
              instruction.opcode.widths⟩) ∧
        placed.map Placed.start = offsets.toList ∧
        0 :: placed.map Placed.stop = offsets.toList ++ [stream.length]) ∧
    ∀ (stream : CodeStream) (placed : List Placed), stream.decode = some placed →
      empty.pushAll #[] (placed.map fun each => each.instruction.encode) =
        ((placed.map Placed.start).toArray, stream) := by
  constructor
  · intro code complete
    have fits : ∀ instruction ∈ code.map Instruction.cut, instruction.Fits := by
      intro instruction member
      obtain ⟨original, originalMember, rfl⟩ := List.mem_map.mp member
      exact (complete original originalMember).cut_fits
    have cutComplete : ∀ instruction ∈ code.map Instruction.cut, instruction.Complete :=
      fun instruction member => (fits instruction member).complete
    have same : code.map Instruction.encode =
        (code.map Instruction.cut).map Instruction.encode := by
      rw [List.map_map]
      exact (List.map_congr_left fun instruction _ => instruction.encode_cut).symm
    have widths : Instruction.cut = fun instruction => ⟨instruction.opcode,
        instruction.operands.zipWith (fun operand width => operand % 2 ^ (8 * width))
          instruction.opcode.widths⟩ := by
      funext instruction
      simp only [Instruction.cut, Nat.pow_mul]
    rw [same, pushAll_encode cutComplete]
    refine ⟨Placed.ofCode 0 (code.map Instruction.cut), ?_, ?_, ?_, ?_⟩
    · simp only [decode, empty, Array.empty_append, List.toList_toArray]
      exact decodeFrom_encodeAll fits 0
    · rw [Placed.map_instruction_ofCode, widths]
    · simp [length, empty]
    · rw [Placed.stops_ofCode cutComplete]
      simp [length, empty]
  · intro stream placed decoded
    obtain ⟨code, rfl, fits, same⟩ := of_decodeFrom decoded
    have complete : ∀ instruction ∈ code, instruction.Complete :=
      fun instruction member => (fits instruction member).complete
    have pieces : (Placed.ofCode 0 code).map (fun each => each.instruction.encode) =
        code.map Instruction.encode := by
      have both : (fun each : Placed => each.instruction.encode) =
          Instruction.encode ∘ Placed.instruction := rfl
      rw [both, ← List.map_map, Placed.map_instruction_ofCode]
    rw [pieces, pushAll_encode complete, same]
    simp [length, empty]

/-- Operands that are too large keep their low bytes. -/
theorem CodeStream.decode_pushAll_tooLarge :
    let code : List Instruction := [⟨.constant, [65537]⟩, ⟨.call, [300]⟩, ⟨.pop, []⟩]
    (∀ instruction ∈ code, instruction.Complete) ∧
      empty.pushAll #[] (code.map Instruction.encode) =
        (#[0, 3, 5], ⟨#[0, 0, 1, 18, 44, 12]⟩) ∧
      ∃ placed, decode ⟨#[0, 0, 1, 18, 44, 12]⟩ = some placed ∧
        placed.map Placed.instruction =
          [⟨.constant, [1]⟩, ⟨.call, [44]⟩, ⟨.pop, []⟩] ∧
        placed.map Placed.start = [0, 3, 5] ∧
        0 :: placed.map Placed.stop = [0, 3, 5, 6] := by
  intro code
  have complete : ∀ instruction ∈ code, instruction.Complete := by
    simp [code, Instruction.Complete, Opcode.widths]
  have pushed : empty.pushAll #[] (code.map Instruction.encode) =
      (#[0, 3, 5], ⟨#[0, 0, 1, 18, 44, 12]⟩) := by
    decide
  have decoded := decode_pushAll.1 code complete
  rw [pushed] at decoded
  exact ⟨complete, pushed, decoded⟩

end ExprMachine
