import ExprMachine.Proofs.Machine.Lockstep

/-!
# Faults of the bytecode

The bytes at an offset of the code tell whether a run that gets there stops at a fault.
All other accesses of a raw machine hit, in every state that a run goes through.
-/

namespace ExprMachine

/-- The bytes at this offset cause a fault: operands are cut off, or they number a
constant or a builtin that is not there. -/
inductive Bytecode.Broken (bytecode : Bytecode) (offset : Nat) : Fault → Prop
  | operandCutOff {opcode : Opcode} :
      bytecode.code[offset]? = some opcode.byte →
        bytecode.code.length < offset + opcode.size → Broken bytecode offset .operandCutOff
  | noSuchConstant {high low : UInt8} :
      bytecode.code[offset]? = some Opcode.constant.byte →
        bytecode.code[offset + 1]? = some high → bytecode.code[offset + 2]? = some low →
          bytecode.constants.size ≤ high.toNat * 256 + low.toNat →
            Broken bytecode offset .noSuchConstant
  | noSuchBuiltin {index : UInt8} :
      bytecode.code[offset]? = some Opcode.getBuiltin.byte →
        bytecode.code[offset + 1]? = some index → 8 ≤ index.toNat →
          Broken bytecode offset .noSuchBuiltin

/-! ## The bytes of a line -/

theorem Opcode.byte_inj {opcode other : Opcode} (same : opcode.byte = other.byte) :
    opcode = other := by
  have known := opcode.ofByte?_byte
  rw [same, other.ofByte?_byte] at known
  exact (Option.some.inj known).symm

namespace Line.Stands

variable {code : List UInt8} {offset : Nat} {instruction : Instruction}

theorem getElem?_encode (stands : Stands code offset (.instruction instruction))
    {place : Nat} (inside : place < instruction.encode.length) :
    code[offset + place]? = instruction.encode[place]? := by
  obtain ⟨-, ⟨rest, same⟩⟩ := stands
  rw [← List.getElem?_drop, ← same, List.getElem?_append_left inside]

theorem opcode_byte (stands : Stands code offset (.instruction instruction)) :
    code[offset]? = some instruction.opcode.byte :=
  stands.getElem?_encode (Nat.zero_lt_succ _)

theorem size_le (stands : Stands code offset (.instruction instruction)) :
    offset + instruction.opcode.size ≤ code.length := by
  have first := (List.getElem?_eq_some_iff.mp stands.opcode_byte).1
  obtain ⟨fits, ⟨rest, same⟩⟩ := stands
  have length := congrArg List.length same
  rw [List.length_append, fits.complete.length_encode, List.length_drop] at length
  omega

/-- The operand of an instruction in the code is the number that its bytes stand for. -/
theorem exists_operand {width : Nat} (stands : Stands code offset (.instruction instruction))
    (widths : instruction.opcode.widths = [width]) :
    ∃ bytes : List UInt8, bytes.length = width ∧
      instruction.operand = Instruction.ofBigEndian bytes ∧
        ∀ place < width, code[offset + 1 + place]? = bytes[place]? := by
  obtain ⟨opcode, operands⟩ := instruction
  dsimp only at widths
  have fits : Instruction.Fits ⟨opcode, operands⟩ := by
    cases stands
    assumption
  rw [Instruction.Fits, widths] at fits
  obtain ⟨operand, _, small, empty, rfl⟩ := List.forall₂_cons_right_iff.mp fits
  cases empty
  have encoded : (Instruction.mk opcode [operand]).encode =
      opcode.byte :: Instruction.bigEndian width operand := by
    simp [Instruction.encode, widths, Instruction.encodeOperands]
  refine ⟨Instruction.bigEndian width operand, Instruction.length_bigEndian _ _, ?_, ?_⟩
  · rw [Instruction.ofBigEndian_bigEndian, Nat.mod_eq_of_lt small]
    rfl
  · intro place inside
    have room : place + 1 < (Instruction.mk opcode [operand]).encode.length := by
      rw [encoded, List.length_cons, Instruction.length_bigEndian]
      exact Nat.succ_lt_succ inside
    have found := stands.getElem?_encode room
    rw [encoded, List.getElem?_cons_succ] at found
    rw [← found, Nat.add_assoc, Nat.add_comm 1]

theorem exists_pair (stands : Stands code offset (.instruction instruction))
    (widths : instruction.opcode.widths = [2]) :
    ∃ high low, code[offset + 1]? = some high ∧ code[offset + 2]? = some low ∧
      instruction.operand = high.toNat * 256 + low.toNat := by
  obtain ⟨bytes, length, operand, found⟩ := stands.exists_operand widths
  obtain ⟨high, low, rfl⟩ := List.length_eq_two.mp length
  refine ⟨high, low, found 0 Nat.two_pos, found 1 Nat.one_lt_two, ?_⟩
  rw [operand]
  simp [Instruction.ofBigEndian]

theorem exists_single (stands : Stands code offset (.instruction instruction))
    (widths : instruction.opcode.widths = [1]) :
    ∃ index, code[offset + 1]? = some index ∧ instruction.operand = index.toNat := by
  obtain ⟨bytes, length, operand, found⟩ := stands.exists_operand widths
  obtain ⟨index, rfl⟩ := List.length_eq_one_iff.mp length
  refine ⟨index, found 0 Nat.one_pos, ?_⟩
  rw [operand]
  simp [Instruction.ofBigEndian]

/-! ## Broken bytes -/

variable {bytecode : Bytecode} {content : Content} {fault : Fault}

/-- What stands where the byte of an opcode is. -/
theorem of_opcode {opcode : Opcode} (stands : Stands code offset content)
    (found : code[offset]? = some opcode.byte) :
    (∃ operands, content = .instruction ⟨opcode, operands⟩) ∨
      content = .truncated opcode ∧ code.length < offset + opcode.size := by
  cases stands with
  | @instruction instruction fits bytes =>
      have first := (Stands.instruction fits bytes).opcode_byte
      cases Opcode.byte_inj (Option.some.inj (first.symm.trans found))
      exact Or.inl ⟨instruction.operands, rfl⟩
  | unknown byte other =>
      exact absurd (Option.some.inj (found.symm.trans byte)) (other opcode)
  | truncated byte short =>
      cases Opcode.byte_inj (Option.some.inj (byte.symm.trans found))
      exact Or.inr ⟨rfl, short⟩

theorem fault?_of_broken (stands : Stands bytecode.code offset content)
    (broken : bytecode.Broken offset fault) :
    content.fault? bytecode.constants.size = some fault := by
  cases broken with
  | operandCutOff byte short =>
      rcases stands.of_opcode byte with ⟨operands, rfl⟩ | ⟨rfl, _⟩
      · exact absurd stands.size_le (Nat.not_le_of_lt short)
      · rfl
  | noSuchConstant byte first second beyond =>
      rcases stands.of_opcode byte with ⟨operands, rfl⟩ | ⟨rfl, short⟩
      · obtain ⟨high, low, firstFound, secondFound, operand⟩ := stands.exists_pair rfl
        cases first.symm.trans firstFound
        cases second.symm.trans secondFound
        rw [← operand] at beyond
        exact if_neg (Nat.not_lt_of_le beyond)
      · have inside := (List.getElem?_eq_some_iff.mp second).1
        exact absurd inside (Nat.not_lt_of_le (Nat.le_of_lt_succ short))
  | noSuchBuiltin byte first beyond =>
      rcases stands.of_opcode byte with ⟨operands, rfl⟩ | ⟨rfl, short⟩
      · obtain ⟨index, firstFound, operand⟩ := stands.exists_single rfl
        cases first.symm.trans firstFound
        rw [← operand] at beyond
        exact if_neg (Nat.not_lt_of_le beyond)
      · have inside := (List.getElem?_eq_some_iff.mp first).1
        exact absurd inside (Nat.not_lt_of_le (Nat.le_of_lt_succ short))

theorem broken_of_fault? (stands : Stands bytecode.code offset content)
    (faulty : content.fault? bytecode.constants.size = some fault) :
    bytecode.Broken offset fault := by
  cases stands with
  | unknown => cases faulty
  | truncated byte short =>
      cases faulty
      exact .operandCutOff byte short
  | @instruction instruction fits bytes =>
      have stands : Stands bytecode.code offset (.instruction instruction) :=
        .instruction fits bytes
      obtain ⟨opcode, operands⟩ := instruction
      cases opcode with
      | constant =>
          simp only [Content.fault?, Instruction.fault?] at faulty
          split at faulty
          · cases faulty
          · next beyond =>
              cases faulty
              obtain ⟨high, low, first, second, operand⟩ := stands.exists_pair rfl
              rw [operand] at beyond
              exact .noSuchConstant stands.opcode_byte first second (Nat.le_of_not_lt beyond)
      | getBuiltin =>
          simp only [Content.fault?, Instruction.fault?] at faulty
          split at faulty
          · cases faulty
          · next beyond =>
              cases faulty
              obtain ⟨index, first, operand⟩ := stands.exists_single rfl
              rw [operand] at beyond
              exact .noSuchBuiltin stands.opcode_byte first (Nat.le_of_not_lt beyond)
      | _ => cases faulty

end Line.Stands

/-! ## States -/

/-- Of all the accesses that a raw machine in this state can make, only those can miss
that amount to a fault of the bytecode. There are no more values in use than slots, so the
value popped last has the slot above them or, if the stack is full, none. -/
structure RawMachine.Sound (state : RawMachine) : Prop where
  top_le : state.top ≤ state.slots.size
  topValue_hits : ∃ value?, state.topValue = .ok value?
  execute_hits : ∀ constants instruction access,
    state.execute constants instruction = .error (.miss access) →
      ∃ fault, access.fault? = some fault

/-- The states that a run goes through, with the one that it ends in. There is none left
after an access that missed. -/
def RawRun.states (run : RawRun) : List RawMachine :=
  run.moments.map Moment.machine ++
    match run.outcome with
    | .ok state => [state]
    | .error (.error _ state) => [state]
    | .error (.miss _) => []

namespace Machine

theorem raw_topValue (machine : Machine) : machine.raw.topValue = .ok machine.topValue? := by
  obtain ⟨slots, top, globals, printed, fresh, top_le⟩ := machine
  cases top with
  | zero => rfl
  | succ top =>
      have found : slots[top]? = some slots[top] := Array.getElem?_eq_getElem top_le
      simp only [raw, RawMachine.topValue, topValue?, subtract?_of_le (Nat.le_add_left 1 top),
        Nat.add_sub_cancel, found, reach_some, bind, Except.bind, if_neg (Nat.succ_ne_zero top)]

theorem raw_sound (machine : Machine) : machine.raw.Sound where
  top_le := machine.top_le
  topValue_hits := ⟨_, machine.raw_topValue⟩
  execute_hits := by
    intro constants instruction access missed
    have agrees := machine.raw_execute constants instruction
    rw [missed] at agrees
    obtain ⟨fault, caused, _⟩ := agrees.fault_of_miss
    exact ⟨fault, caused⟩

end Machine

namespace Lockstep

variable {bytecode : Bytecode} {counter : Nat} {lines : List Line} {machine : Machine}
  {outcome : Except Stopped Machine} {run : RawRun}

theorem moments_stand (lockstep : Lockstep bytecode counter lines machine outcome run)
    {moment : Moment} (member : moment ∈ run.moments) :
    Line.Stands bytecode.code moment.line.offset moment.line.content := by
  induction lockstep with
  | finished => cases member
  | stopped stands =>
      cases List.mem_singleton.mp member
      exact stands
  | step stands _ _ _ inductionHypothesis =>
      rcases List.mem_cons.mp member with rfl | later
      · exact stands
      · exact inductionHypothesis later

theorem fault_iff (lockstep : Lockstep bytecode counter lines machine outcome run)
    (fault : Fault) :
    (∃ final, outcome = .error ⟨.fault fault, final⟩) ↔
      ∃ moment ∈ run.moments,
        moment.line.content.fault? bytecode.constants.size = some fault := by
  induction lockstep with
  | finished => simp
  | @stopped _ _ _ _ stopped _ _ stops _ =>
      obtain ⟨cause, final⟩ := stopped
      have same := stops.fault_iff fault
      simpa using same
  | step _ sound _ _ inductionHypothesis =>
      rw [inductionHypothesis]
      simp [Line.Content.fault?, sound]

/-- Every state of the raw machine is that of a machine, which has its values in slots. -/
theorem states_sound (lockstep : Lockstep bytecode counter lines machine outcome run)
    {state : RawMachine} (member : state ∈ run.states) : state.Sound := by
  induction lockstep with
  | finished machine =>
      cases List.mem_singleton.mp member
      exact machine.raw_sound
  | @stopped _ _ _ machine _ _ _ _ agrees =>
      rcases List.mem_append.mp member with before | after
      · cases List.mem_singleton.mp before
        exact machine.raw_sound
      · cases agrees with
        | error error machine =>
            cases List.mem_singleton.mp after
            exact machine.raw_sound
        | fault => cases after
  | @step _ _ _ machine _ _ _ _ _ _ _ inductionHypothesis =>
      rcases List.mem_cons.mp member with rfl | later
      · exact machine.raw_sound
      · exact inductionHypothesis later

end Lockstep

/-- A run stops at a fault exactly if it gets to bytes that cause this fault: operands
that are cut off, or the number of a constant or of a builtin that is not there. In all
its states, no other access can miss. -/
theorem run_faults_iff_broken (bytecode : Bytecode) (stackSize : Nat)
    (globals : Array Value) (cell : Cell) :
    let outcome := (Machine.start stackSize globals cell).run bytecode
    let run := (RawMachine.start stackSize globals cell).run bytecode
    Agrees Machine.raw outcome run.outcome ∧
    (∀ fault, (∃ final, outcome = .error ⟨.fault fault, final⟩) ↔
      ∃ moment ∈ run.moments, bytecode.Broken moment.line.offset fault) ∧
    (∀ access, run.outcome = .error (.miss access) →
      ∃ moment ∈ run.moments, ∃ fault, access.fault? = some fault ∧
        bytecode.Broken moment.line.offset fault) ∧
    ∀ state ∈ run.states, state.Sound := by
  intro outcome run
  have lockstep := lockstep_run bytecode stackSize globals cell
  have faults : ∀ fault, (∃ final, outcome = .error ⟨.fault fault, final⟩) ↔
      ∃ moment ∈ run.moments, bytecode.Broken moment.line.offset fault := by
    intro fault
    rw [lockstep.fault_iff fault]
    refine exists_congr fun moment => and_congr_right fun member => ?_
    have stands := lockstep.moments_stand member
    exact ⟨stands.broken_of_fault?, stands.fault?_of_broken⟩
  refine ⟨lockstep.agrees, faults, ?_, fun state member => lockstep.states_sound member⟩
  intro access missed
  have agrees := lockstep.agrees
  rw [missed] at agrees
  obtain ⟨fault, caused, stopped⟩ := agrees.fault_of_miss
  obtain ⟨moment, member, broken⟩ := (faults fault).mp stopped
  exact ⟨moment, member, fault, caused, broken⟩

end ExprMachine
