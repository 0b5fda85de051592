import ExprMachine.Proofs.Machine.Agreement
import ExprMachine.Proofs.Machine.Depth
import ExprMachine.Proofs.Listing

/-!
# Runs line by line

The machine fetches instructions by the table of their operands, and the raw machine
knows by itself how many bytes each opcode takes. Both dispatch the lines of the listing
one after another, and stop at the same line for the same cause.
-/

namespace ExprMachine

/-! ## Operands -/

/-- An opcode finds the operands that its widths say, or misses a byte of the code. -/
theorem Opcode.operandsAt_decode (opcode : Opcode) (code : List UInt8) (offset : Nat) :
    match Instruction.decodeOperands opcode.widths (code.drop offset) with
    | some (operands, _) =>
        opcode.operandsAt code offset = .ok (operands, offset + opcode.widths.sum)
    | none => ∃ place, opcode.operandsAt code offset = .error (.miss (.code place)) := by
  have first : code[offset]? = (code.drop offset)[0]? := by
    rw [List.getElem?_drop, Nat.add_zero]
  have second : code[offset + 1]? = (code.drop offset)[1]? := by
    rw [List.getElem?_drop]
  -- From here on, the code matters only as the stream that is left of it.
  generalize code.drop offset = stream at first second
  cases opcode with
  | constant | array | getGlobal | setGlobal =>
      rcases stream with _ | ⟨high, _ | ⟨low, rest⟩⟩
      · exact ⟨offset, by rw [operandsAt, first]; rfl⟩
      · exact ⟨offset + 1, by rw [operandsAt, first, second]; rfl⟩
      · simp [operandsAt, first, second, Instruction.decodeOperands, Instruction.ofBigEndian,
          bind, Except.bind, widths]
  | getBuiltin | call =>
      rcases stream with _ | ⟨operand, rest⟩
      · exact ⟨offset, by rw [operandsAt, first]; rfl⟩
      · simp [operandsAt, first, Instruction.decodeOperands, Instruction.ofBigEndian, bind,
          Except.bind, widths]
  | _ => rfl

/-! ## One step of the raw machine -/

namespace RawMachine

variable {bytecode : Bytecode} {counter : Nat} {byte : UInt8} {stream : List UInt8}

theorem runFrom_end (machine : RawMachine) :
    machine.runFrom bytecode bytecode.code.length = ⟨[], .ok machine⟩ := by
  rw [runFrom, dif_neg (Nat.lt_irrefl _)]

theorem byte_of_drop (found : bytecode.code.drop counter = byte :: stream) :
    ∃ inside : counter < bytecode.code.length, bytecode.code[counter] = byte :=
  List.getElem?_eq_some_iff.mp (Line.getElem?_of_drop found)

theorem runFrom_of_unknown (found : bytecode.code.drop counter = byte :: stream)
    (fetched : fetch byte stream = .unknown) (machine : RawMachine) :
    machine.runFrom bytecode counter =
      ⟨[⟨⟨counter, .unknown byte⟩, machine⟩],
        machine.fail (.unknownOpcode byte counter)⟩ := by
  obtain ⟨inside, same⟩ := byte_of_drop found
  rw [runFrom, dif_pos inside]
  simp only [same, ofByte?_of_unknown fetched]

theorem runFrom_of_truncated {opcode : Opcode}
    (found : bytecode.code.drop counter = byte :: stream)
    (fetched : fetch byte stream = .truncated opcode) (machine : RawMachine) :
    ∃ offset, machine.runFrom bytecode counter =
      ⟨[⟨⟨counter, .truncated opcode⟩, machine⟩], .error (.miss (.code offset))⟩ := by
  obtain ⟨inside, same⟩ := byte_of_drop found
  obtain ⟨known, missing⟩ := decode_of_truncated fetched
  have read := opcode.operandsAt_decode bytecode.code (counter + 1)
  rw [Line.drop_succ_of_drop found, missing] at read
  obtain ⟨offset, missed⟩ := read
  refine ⟨offset, ?_⟩
  rw [runFrom, dif_pos inside]
  simp only [same, known]
  split
  · next stop failed =>
      cases failed.symm.trans missed
      rfl
  · next read => cases read.symm.trans missed

theorem runFrom_of_instruction {instruction : Instruction} {rest : List UInt8}
    (found : bytecode.code.drop counter = byte :: stream)
    (fetched : fetch byte stream = .instruction instruction rest) (machine : RawMachine) :
    machine.runFrom bytecode counter =
      let moment := ⟨⟨counter, .instruction instruction⟩, machine⟩
      match machine.execute bytecode.constants instruction with
      | .error stop => ⟨[moment], .error stop⟩
      | .ok after =>
          let later := after.runFrom bytecode (counter + instruction.opcode.size)
          ⟨moment :: later.moments, later.outcome⟩ := by
  obtain ⟨inside, same⟩ := byte_of_drop found
  obtain ⟨known, decoded⟩ := decode_of_instruction fetched
  have read := instruction.opcode.operandsAt_decode bytecode.code (counter + 1)
  rw [Line.drop_succ_of_drop found, decoded, Nat.add_assoc, ← Opcode.size_eq] at read
  rw [runFrom, dif_pos inside]
  simp only [same, known]
  split
  · next failed => cases failed.symm.trans read
  · next failed =>
      cases failed.symm.trans read
      rfl

end RawMachine

/-! ## Causes -/

/-- The fault of an instruction that numbers a constant or a builtin that is not there. -/
def Instruction.fault? (poolSize : Nat) (instruction : Instruction) : Option Fault :=
  match instruction.opcode with
  | .constant => if instruction.operand < poolSize then none else some .noSuchConstant
  | .getBuiltin =>
      if instruction.operand < Builtin.all.length then none else some .noSuchBuiltin
  | _ => none

theorem Instruction.valid_of_fault? {instruction : Instruction} {poolSize : Nat}
    (fits : instruction.Fits) (sound : instruction.fault? poolSize = none) :
    instruction.Valid poolSize where
  fits := fits
  constant_lt := by
    intro same
    by_contra beyond
    simp only [fault?, same, if_neg beyond] at sound
    cases sound
  builtin_lt := by
    intro same
    by_contra beyond
    simp only [fault?, same, if_neg beyond] at sound
    cases sound

namespace Line

/-- The fault that stops every run that dispatches a line with this content. -/
def Content.fault? (poolSize : Nat) : Content → Option Fault
  | .instruction code => code.fault? poolSize
  | .unknown _ => none
  | .truncated _ => some .operandCutOff

/-- A run can stop at this line for this cause: for the fault of the line if it has one,
and for an unknown opcode if the line shows it, with its byte and its offset. -/
structure Stops (poolSize : Nat) (line : Line) (cause : StopCause) : Prop where
  fault_iff (fault : Fault) :
    cause = .fault fault ↔ line.content.fault? poolSize = some fault
  unknown_iff (byte : UInt8) (offset : Nat) :
    cause = .error (.unknownOpcode byte offset) ↔ line = ⟨offset, .unknown byte⟩

theorem stops_unknown (poolSize offset : Nat) (byte : UInt8) :
    Stops poolSize ⟨offset, .unknown byte⟩ (.error (.unknownOpcode byte offset)) := by
  constructor <;> simp [Content.fault?, and_comm]

theorem stops_truncated (poolSize offset : Nat) (opcode : Opcode) :
    Stops poolSize ⟨offset, .truncated opcode⟩ (.fault .operandCutOff) := by
  constructor <;> simp [Content.fault?]

end Line

namespace Machine

variable {machine : Machine} {constants : Array Value} {instruction : Instruction}
  {stopped : Stopped}

theorem execute_of_fault? {fault : Fault}
    (faulty : instruction.fault? constants.size = some fault) :
    machine.execute constants instruction = machine.crash fault := by
  obtain ⟨opcode, operands⟩ := instruction
  cases opcode with
  | constant =>
      simp only [Instruction.fault?] at faulty
      split at faulty
      · cases faulty
      · next beyond =>
          cases faulty
          simp only [execute, Array.getElem?_eq_none (Nat.le_of_not_lt beyond)]
  | getBuiltin =>
      simp only [Instruction.fault?] at faulty
      split at faulty
      · cases faulty
      · next beyond =>
          cases faulty
          simp only [execute, Builtin.ofIndex?,
            List.getElem?_eq_none (Nat.le_of_not_lt beyond)]
  | _ => cases faulty

/-- A valid instruction stops with an error of the program, which is never one of an
unknown opcode. -/
theorem error_of_execute (valid : instruction.Valid constants.size)
    (failed : machine.execute constants instruction = .error stopped) :
    ∃ error, stopped.cause = .error error ∧
      ∀ byte offset, error ≠ .unknownOpcode byte offset := by
  cases told : instruction.depthAfter machine.top with
  | some depth =>
      have ends := endsAt_execute valid told
      rw [failed] at ends
      obtain ⟨error, cause, known⟩ := ends
      refine ⟨error, cause, ?_⟩
      rintro byte offset rfl
      rcases known with ofValues | ⟨capacity, impossible⟩
      · exact ofValues
      · cases impossible
  | none =>
      have few : machine.top < instruction.takes := by
        rw [Instruction.depthAfter] at told
        split at told
        · cases told
        · next few => exact Nat.lt_of_not_le few
      obtain ⟨other, same, cause, _⟩ := underflows_execute few constants
      cases failed.symm.trans same
      refine ⟨.stackUnderflow, cause, ?_⟩
      intro byte offset impossible
      cases impossible

theorem stops_of_execute (fits : instruction.Fits)
    (failed : machine.execute constants instruction = .error stopped) (offset : Nat) :
    Line.Stops constants.size ⟨offset, .instruction instruction⟩ stopped.cause := by
  cases faulty : instruction.fault? constants.size with
  | some fault =>
      cases failed.symm.trans (execute_of_fault? faulty)
      constructor <;> simp [Line.Content.fault?, faulty]
  | none =>
      obtain ⟨error, cause, known⟩ :=
        error_of_execute (Instruction.valid_of_fault? fits faulty) failed
      constructor <;> simp [Line.Content.fault?, faulty, cause, known]

end Machine

/-! ## Lockstep -/

/-- From an offset of the code on, a machine and a raw machine in the same state go
through the same lines, and end alike. -/
inductive Lockstep (bytecode : Bytecode) :
    Nat → List Line → Machine → Except Stopped Machine → RawRun → Prop
  | finished (machine : Machine) :
      Lockstep bytecode bytecode.code.length [] machine (.ok machine) ⟨[], .ok machine.raw⟩
  | stopped {counter : Nat} {content : Line.Content} {lines : List Line} {machine : Machine}
      {stopped : Stopped} {stop : RawStop} :
      Line.Stands bytecode.code counter content →
        Line.Stops bytecode.constants.size ⟨counter, content⟩ stopped.cause →
          Agrees Machine.raw (.error stopped) (.error stop) →
            Lockstep bytecode counter (⟨counter, content⟩ :: lines) machine (.error stopped)
              ⟨[⟨⟨counter, content⟩, machine.raw⟩], .error stop⟩
  | step {counter : Nat} {instruction : Instruction} {lines : List Line}
      {machine next : Machine} {outcome : Except Stopped Machine} {later : RawRun} :
      Line.Stands bytecode.code counter (.instruction instruction) →
        instruction.fault? bytecode.constants.size = none →
          machine.execute bytecode.constants instruction = .ok next →
            Lockstep bytecode (counter + instruction.opcode.size) lines next outcome later →
              Lockstep bytecode counter (⟨counter, .instruction instruction⟩ :: lines)
                machine outcome
                ⟨⟨⟨counter, .instruction instruction⟩, machine.raw⟩ :: later.moments,
                  later.outcome⟩

theorem lockstep_runFrom {bytecode : Bytecode} {counter : Nat} {stream : List UInt8}
    (found : bytecode.code.drop counter = stream) (inside : counter ≤ bytecode.code.length)
    (machine : Machine) :
    Lockstep bytecode counter (Line.linesFrom counter stream) machine
      (machine.runFrom bytecode.constants counter stream)
      (machine.raw.runFrom bytecode counter) := by
  fun_induction Machine.runFrom bytecode.constants counter stream machine with
  | case1 counter machine =>
      have ended := Nat.le_antisymm inside (List.drop_eq_nil_iff.mp found)
      subst ended
      rw [Line.linesFrom, RawMachine.runFrom_end]
      exact .finished machine
  | case2 counter byte stream machine unknown =>
      rw [Line.linesFrom_cons, unknown, RawMachine.runFrom_of_unknown found unknown]
      exact .stopped (Line.stands_of_fetch_unknown found unknown)
        (Line.stops_unknown _ counter byte) (.fail machine _)
  | case3 counter byte stream machine opcode truncated =>
      obtain ⟨offset, same⟩ := RawMachine.runFrom_of_truncated found truncated machine.raw
      rw [Line.linesFrom_cons, truncated, same]
      exact .stopped (Line.stands_of_fetch_truncated found truncated)
        (Line.stops_truncated _ counter opcode) (.fault machine rfl)
  | case4 counter byte stream machine instruction rest fetched next executed
      inductionHypothesis =>
      obtain ⟨stands, following, past⟩ := Line.stands_of_fetch_instruction found fetched
      have sound : instruction.fault? bytecode.constants.size = none := by
        cases faulty : instruction.fault? bytecode.constants.size with
        | none => rfl
        | some fault => cases executed.symm.trans (Machine.execute_of_fault? faulty)
      -- The outcome of the raw machine is the one that agrees with the next machine.
      have agrees := machine.raw_execute bytecode.constants instruction
      rw [executed] at agrees
      rw [Line.linesFrom_cons, fetched, RawMachine.runFrom_of_instruction found fetched]
      generalize machine.raw.execute bytecode.constants instruction = rawOutcome at agrees ⊢
      cases agrees
      exact .step stands sound executed (inductionHypothesis following past)
  | case5 counter byte stream machine instruction rest fetched stopped executed =>
      obtain ⟨stands, _⟩ := Line.stands_of_fetch_instruction found fetched
      have stops := Machine.stops_of_execute (of_fetch fetched).1 executed counter
      have agrees := machine.raw_execute bytecode.constants instruction
      rw [executed] at agrees
      rw [Line.linesFrom_cons, fetched, RawMachine.runFrom_of_instruction found fetched]
      generalize machine.raw.execute bytecode.constants instruction = rawOutcome at agrees ⊢
      cases agrees with
      | error error machine => exact .stopped stands stops (.error error machine)
      | fault machine caused => exact .stopped stands stops (.fault machine caused)

theorem lockstep_run (bytecode : Bytecode) (stackSize : Nat) (globals : Array Value)
    (cell : Cell) :
    Lockstep bytecode 0 (Line.ofStream bytecode.code) (.start stackSize globals cell)
      ((Machine.start stackSize globals cell).run bytecode)
      ((RawMachine.start stackSize globals cell).run bytecode) := by
  rw [Line.ofStream_eq]
  exact lockstep_runFrom rfl (Nat.zero_le _) (.start stackSize globals cell)

theorem Lockstep.agrees {bytecode : Bytecode} {counter : Nat} {lines : List Line}
    {machine : Machine} {outcome : Except Stopped Machine} {run : RawRun}
    (lockstep : Lockstep bytecode counter lines machine outcome run) :
    Agrees Machine.raw outcome run.outcome := by
  induction lockstep with
  | finished machine => exact .ok machine
  | stopped _ _ agrees => exact agrees
  | step _ _ _ _ inductionHypothesis => exact inductionHypothesis

end ExprMachine
