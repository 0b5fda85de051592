import ExprMachine.Proofs.Compilation.Globals
import ExprMachine.Proofs.Parsing.Literals
import ExprMachine.Proofs.Session.Inputs

/-!
# What a session holds

The symbol table, the constants and the globals of a session are updated at different
stages of an evaluation, but only kept together. So they stay aligned: there is one
global for each slot handed out, the slots are numbered by the global names, and there
is one constant for each literal of the inputs that succeeded. Each slot was filled by
one of these inputs, so that no input reads a slot that was never filled.
-/

namespace ExprMachine

namespace Session

variable {session : Session} {source : String}

/-- The number of literals in the inputs that succeed. -/
def literalsAccepted : Session → List String → Nat
  | _, [] => 0
  | session, source :: inputs =>
      (if (session.evaluate source).succeeds then literalCount source else 0) +
        literalsAccepted (session.evaluate source).session inputs

/-- One of the inputs was run to its end, and filled the slot. -/
def Filled (session : Session) (inputs : List String) (slot : Nat) : Prop :=
  ∃ front source back program draft machine, inputs = front ++ source :: back ∧
    (session.after front).Accepts source program draft machine ∧
      ⟨.setGlobal, [slot]⟩ ∈ draft.code.toList

/-- The parts of a session are aligned, there were as many literals as given, and the
slots were filled. -/
structure Aligned (session : Session) (literals : Nat) (filled : Nat → Prop) : Prop where
  wellFormed : session.WellFormed
  numbered : session.symbols.Numbered
  globals : session.globals.size = session.symbols.globalCount
  constants : session.constants.size = literals
  room : session.constants.size ≤ maxConstants
  filled : ∀ slot, slot < session.symbols.globalCount → filled slot

theorem aligned_start (stackSize : Nat) : (start stackSize).Aligned 0 fun _ => False where
  wellFormed := wellFormed_start stackSize
  numbered := SymbolTable.numbered_withBuiltins
  globals := rfl
  constants := rfl
  room := Nat.zero_le _
  filled := fun slot impossible => absurd impossible (Nat.not_lt_zero slot)

theorem Aligned.mono {literals : Nat} {filled later : Nat → Prop}
    (aligned : session.Aligned literals filled)
    (kept : ∀ slot, filled slot → later slot) : session.Aligned literals later :=
  { aligned with filled := fun slot inside => kept slot (aligned.filled slot inside) }

/-- What an accepted input does to an aligned session. -/
theorem Aligned.accept {literals : Nat} {filled : Nat → Prop}
    (aligned : session.Aligned literals filled) {program : Program} {draft : Draft}
    {machine : Machine} (accepts : session.Accepts source program draft machine) :
    (session.evaluate source).session.Aligned (literals + literalCount source) fun slot =>
      filled slot ∨ ⟨.setGlobal, [slot]⟩ ∈ draft.code.toList := by
  have wellFormed := (aligned.wellFormed.evaluate source).1
  have addressable := aligned.wellFormed.symbols.addressable
  have valid := Program.valid_of_compile addressable accepts.compiled
  have ended := accepts.ended
  rw [Draft.bytecode, Machine.run_eq_executeAll valid] at ended
  have size := (Machine.sizes_executeAll ended).1
  obtain ⟨supported, room, shape⟩ := Program.of_compile_start accepts.compiled
  have counted := literalCount_of_read accepts.read supported
  have start : (session.machine draft).globals.size = session.symbols.globalCount :=
    aligned.globals
  rw [accepts.evaluate] at wellFormed ⊢
  rw [start] at size
  subst shape
  refine ⟨wellFormed, program.numbered_symbolsAfter aligned.numbered, ?_, ?_, ?_, ?_⟩
  · exact size.trans (program.globalsAfterAll_code aligned.numbered _)
  · rw [counted, ← aligned.constants]
    simp [commit]
  · rcases room with none | enough
    · simpa [commit, none, Literal.constants] using aligned.room
    · simpa [commit] using enough
  · intro slot inside
    exact (program.lt_or_fills inside session.constants.size).imp_left
      (aligned.filled slot)

/-- What any input does to an aligned session. -/
theorem Aligned.evaluate {literals : Nat} {filled : Nat → Prop}
    (aligned : session.Aligned literals filled) (source : String) :
    (session.evaluate source).session.Aligned
      (literals + if (session.evaluate source).succeeds then literalCount source else 0)
      fun slot => filled slot ∨ session.Filled [source] slot := by
  rcases session.evaluate_cases source with ⟨printed, error, rejected⟩ | accepted
  · rw [rejected]
    exact aligned.mono fun _ => Or.inl
  · obtain ⟨program, draft, machine, accepts⟩ := accepted
    have succeeds : (session.evaluate source).succeeds = true := by
      rw [accepts.evaluate]
      rfl
    rw [if_pos succeeds]
    refine (aligned.accept accepts).mono fun slot => Or.imp_right fun stored => ?_
    exact ⟨[], source, [], program, draft, machine, rfl, accepts, stored⟩

theorem Filled.cons_of_head {slot : Nat} (filled : session.Filled [source] slot)
    (inputs : List String) : session.Filled (source :: inputs) slot := by
  obtain ⟨front, input, back, program, draft, machine, split, accepts, stored⟩ := filled
  refine ⟨front, input, back ++ inputs, program, draft, machine, ?_, accepts, stored⟩
  rw [← List.cons_append, ← List.append_assoc, ← split]
  rfl

theorem Filled.cons_of_tail {slot : Nat} {inputs : List String}
    (filled : (session.evaluate source).session.Filled inputs slot) :
    session.Filled (source :: inputs) slot := by
  obtain ⟨front, input, back, program, draft, machine, rfl, accepts, stored⟩ := filled
  exact ⟨source :: front, input, back, program, draft, machine, rfl, accepts, stored⟩

/-- What inputs one after another do to an aligned session. -/
theorem Aligned.after {literals : Nat} {filled : Nat → Prop}
    (aligned : session.Aligned literals filled) (inputs : List String) :
    (session.after inputs).Aligned (literals + session.literalsAccepted inputs)
      fun slot => filled slot ∨ session.Filled inputs slot := by
  induction inputs generalizing session literals filled with
  | nil => exact aligned.mono fun _ => Or.inl
  | cons source inputs inductionHypothesis =>
      have rest := inductionHypothesis (aligned.evaluate source)
      rw [Nat.add_assoc] at rest
      refine rest.mono fun slot => ?_
      rintro ((before | byThis) | later)
      · exact Or.inl before
      · exact Or.inr (byThis.cons_of_head inputs)
      · exact Or.inr later.cons_of_tail

/-- A slot that a compiled input reads was filled by an earlier input that was run to
its end, or is filled by the input itself before it is read. -/
theorem Aligned.filled_of_reads {literals : Nat} {filled : Nat → Prop}
    (aligned : session.Aligned literals filled) {program : Program} {draft : Draft}
    (compiled : program.compile session.draft = .ok draft)
    {before after : List Instruction} {slot : Nat}
    (split : draft.code.toList = before ++ ⟨.getGlobal, [slot]⟩ :: after) :
    (filled slot ∨ ⟨.setGlobal, [slot]⟩ ∈ before) ∧
      ∀ machine, (session.machine draft).run
          ⟨Instruction.encodeAll before, draft.constants⟩ = .ok machine →
        slot < machine.globals.size := by
  have addressable := aligned.wellFormed.symbols.addressable
  have valid := Program.valid_of_compile addressable compiled
  rw [split] at valid
  have beforeValid : CodeValid draft.constants.size before :=
    (List.forall_mem_append.mp valid).1
  obtain ⟨_, _, shape⟩ := Program.of_compile_start compiled
  have code : program.code session.symbols session.constants.size =
      before ++ ⟨.getGlobal, [slot]⟩ :: after := by
    rw [← split, shape]
  have handed := program.lt_or_fills_of_reads aligned.numbered code
  refine ⟨handed.imp_left (aligned.filled slot), fun machine ended => ?_⟩
  rw [Machine.run_eq_executeAll beforeValid] at ended
  rw [(Machine.sizes_executeAll ended).1]
  have start : (session.machine draft).globals.size = session.symbols.globalCount :=
    aligned.globals
  rw [start]
  rcases handed with inside | stored
  · exact Nat.lt_of_lt_of_le inside (Instruction.le_globalsAfterAll _ before)
  · exact Instruction.lt_globalsAfterAll stored _

/-- After any inputs, on a stack of any size:
* The global names are numbered by the slots handed out, and every other name is that
  of a builtin and has its index.
* There are as many globals as slots, and operands can number them.
* There are as many constants as literals in the inputs that succeeded, and operands
  can number them.
* Each slot that a compiled program reads from then on was filled by one of the inputs
  that succeeded, or is filled by the program itself before; and when a run of it gets
  to the place where the slot is read, there is such a global. -/
theorem stores_aligned (stackSize : Nat) (inputs : List String) :
    let start := Session.start stackSize
    let session := start.after inputs
    session.symbols.Numbered ∧
      (session.globals.size = session.symbols.globalCount ∧
        session.globals.size ≤ Limited.globals.limit) ∧
      (session.constants.size = start.literalsAccepted inputs ∧
        session.constants.size ≤ maxConstants) ∧
      ∀ program draft, Program.compile program session.draft = .ok draft →
        ∀ before slot after,
          draft.code.toList = before ++ ⟨.getGlobal, [slot]⟩ :: after →
            (start.Filled inputs slot ∨ ⟨.setGlobal, [slot]⟩ ∈ before) ∧
              ∀ machine, (session.machine draft).run
                  ⟨Instruction.encodeAll before, draft.constants⟩ = .ok machine →
                slot < machine.globals.size := by
  intro start session
  have aligned : session.Aligned (start.literalsAccepted inputs) (start.Filled inputs) := by
    have gathered := (aligned_start stackSize).after inputs
    rw [Nat.zero_add] at gathered
    exact gathered.mono fun slot filled => filled.resolve_left id
  refine ⟨aligned.numbered, ⟨aligned.globals, ?_⟩, ⟨aligned.constants, aligned.room⟩, ?_⟩
  · rw [aligned.globals]
    exact aligned.wellFormed.symbols.globalCount_le
  · intro program draft compiled before slot after split
    exact aligned.filled_of_reads compiled split

end Session

end ExprMachine
