import ExprMachine.Proofs.Machine.Heap
import ExprMachine.Proofs.Session.Inputs
import ExprMachine.Proofs.Session.Lines

/-!
# Identity and equality in a session

Values of a session are kept in its constants and globals, and while an input runs also on
the stack. At every moment all of them live in one heap: an input that fails leaves the
session with the heap that it had, and one that succeeds goes on with it. So identity and
equality can be told apart only by strings, and the comparisons of the language are the
questions whether two values are the same.
-/

namespace ExprMachine

/-- The constants of literals are built in the next cells. -/
theorem Literal.exists_livesIn_constants (heap : Heap) (literals : List Literal) :
    ∃ later, heap <+: later ∧ later.length = heap.length + cellCount literals ∧
      ∀ value ∈ constants heap.length literals, value.LivesIn later := by
  induction literals generalizing heap with
  | nil => exact ⟨heap, List.prefix_rfl, rfl, List.forall_mem_nil _⟩
  | cons literal literals inductionHypothesis =>
      cases literal with
      | integer number =>
          obtain ⟨later, goesOn, size, lives⟩ := inductionHypothesis heap
          refine ⟨later, goesOn, size, List.forall_mem_cons.mpr ⟨?_, lives⟩⟩
          exact Value.livesIn_of_cell?_eq_none rfl
      | string content =>
          have placed : (Value.string heap.length content).cell? = some heap.length := rfl
          obtain ⟨middle, begins, middleSize, first⟩ :=
            Value.exists_livesIn_of_built placed nofun
          obtain ⟨later, goesOn, size, lives⟩ := inductionHypothesis middle
          rw [middleSize] at size lives
          refine ⟨later, begins.trans goesOn, ?_, List.forall_mem_cons.mpr ⟨?_, lives⟩⟩
          · rw [size, cellCount]
            omega
          · exact first.mono goesOn

/-! ## The values of a moment -/

/-- Where values are kept. -/
structure Stores where
  constants : Array Value
  globals : Array Value
  slots : Array Value

namespace Stores

/-- The value is kept, or nested in an array that is. -/
def Holds (stores : Stores) (value : Value) : Prop :=
  ∃ whole, (whole ∈ stores.constants ∨ whole ∈ stores.globals ∨ whole ∈ stores.slots) ∧
    value.Part whole

theorem livesIn_of_holds {stores : Stores} {heap : Heap}
    (constants : ∀ value ∈ stores.constants, value.LivesIn heap)
    (globals : ∀ value ∈ stores.globals, value.LivesIn heap)
    (slots : ∀ value ∈ stores.slots, value.LivesIn heap) {value : Value}
    (holds : stores.Holds value) : value.LivesIn heap := by
  obtain ⟨whole, kept, inside⟩ := holds
  rcases kept with constant | global | slot
  · exact (constants whole constant).part inside
  · exact (globals whole global).part inside
  · exact (slots whole slot).part inside

end Stores

/-- The stores of a machine that runs with the given constants. -/
def Machine.stores (constants : Array Value) (machine : Machine) : Stores :=
  ⟨constants, machine.globals, machine.slots⟩

namespace Session

/-- The stores between two inputs. -/
def stores (session : Session) : Stores :=
  ⟨session.constants, session.globals, #[]⟩

/-- The machine after the first instructions of a compiled input, or at the point where one
of them stopped the run. -/
def machineAfter (session : Session) (draft : Draft) (count : Nat) : Machine :=
  Machine.leftBehind ((session.machine draft).run
    ⟨Instruction.encodeAll (draft.code.toList.take count), draft.constants⟩)

/-- The stores at a moment of the session: between two inputs, or when some instructions of
the next input have been executed. -/
inductive Moment (session : Session) : Stores → Prop
  | between : session.Moment session.stores
  | during {source : String} {program : Program} {draft : Draft} (count : Nat) :
      readProgram source = .ok program → program.compile session.draft = .ok draft →
        session.Moment ((session.machineAfter draft count).stores draft.constants)

/-! ## The heap behind a session -/

/-- The constants and globals live in the heap, and the next value goes into the cell after
it. -/
structure LivesIn (heap : Heap) (session : Session) : Prop where
  fresh : session.fresh = heap.length
  constants : ∀ value ∈ session.constants, value.LivesIn heap
  globals : ∀ value ∈ session.globals, value.LivesIn heap

theorem livesIn_start (stackSize : Nat) : (start stackSize).LivesIn [] where
  fresh := rfl
  constants := fun _ impossible => nomatch impossible
  globals := fun _ impossible => nomatch impossible

variable {session : Session} {heap : Heap}

/-- A compiled input goes on with the heap: its strings are built in the next cells. -/
theorem LivesIn.compile (lives : session.LivesIn heap) {program : Program} {draft : Draft}
    (compiled : program.compile session.draft = .ok draft) :
    ∃ later, heap <+: later ∧ (session.machine draft).LivesIn later ∧
      ∀ value ∈ draft.constants, value.LivesIn later := by
  obtain ⟨_, _, rfl⟩ := Program.of_compile_start compiled
  obtain ⟨later, goesOn, size, added⟩ :=
    Literal.exists_livesIn_constants heap program.literals
  rw [← lives.fresh] at size added
  refine ⟨later, goesOn, ⟨size.symm, ?_, ?_⟩, ?_⟩
  · intro value member
    rw [Array.eq_of_mem_replicate member]
    exact Value.livesIn_of_cell?_eq_none rfl
  · exact fun value member => (lives.globals value member).mono goesOn
  · intro value member
    rcases Array.mem_append.mp member with before | new
    · exact (lives.constants value before).mono goesOn
    · exact added value (List.mem_toArray.mp new)

/-- However far a compiled input runs, all values live in a heap that goes on from that of
the session. -/
theorem LivesIn.machineAfter (lives : session.LivesIn heap)
    (addressable : session.symbols.Addressable) {program : Program} {draft : Draft}
    (compiled : program.compile session.draft = .ok draft) (count : Nat) :
    ∃ later, heap <+: later ∧ (session.machineAfter draft count).LivesIn later ∧
      ∀ value ∈ draft.constants, value.LivesIn later := by
  obtain ⟨begun, begins, machine, pool⟩ := lives.compile compiled
  have valid : CodeValid draft.constants.size (draft.code.toList.take count) :=
    fun instruction member => Program.valid_of_compile addressable compiled instruction
      (List.mem_of_mem_take member)
  obtain ⟨later, goesOn, livesLater⟩ :=
    Machine.keepsHeap_executeAll machine pool (draft.code.toList.take count)
  rw [← Machine.run_eq_executeAll valid] at livesLater
  exact ⟨later, begins.trans goesOn, livesLater,
    fun value member => (pool value member).mono goesOn⟩

/-- What an input preserves: a session that lives in a heap goes on with it, or stays. -/
theorem LivesIn.evaluate (lives : session.LivesIn heap) (wellFormed : session.WellFormed)
    (source : String) :
    ∃ later, heap <+: later ∧ (session.evaluate source).session.LivesIn later := by
  rcases session.evaluate_cases source with ⟨printed, error, rejected⟩ | accepted
  · rw [rejected]
    exact ⟨heap, List.prefix_rfl, lives⟩
  · obtain ⟨program, draft, machine, accepts⟩ := accepted
    obtain ⟨later, goesOn, livesLater, pool⟩ := lives.machineAfter
      wellFormed.symbols.addressable accepts.compiled draft.code.toList.length
    have ended : session.machineAfter draft draft.code.toList.length = machine := by
      rw [Session.machineAfter, List.take_length]
      exact congrArg Machine.leftBehind accepts.ended
    rw [ended] at livesLater
    rw [accepts.evaluate]
    exact ⟨later, goesOn, livesLater.fresh, pool, livesLater.globals⟩

/-- What inputs one after another preserve. -/
theorem LivesIn.after (lives : session.LivesIn heap) (wellFormed : session.WellFormed)
    (inputs : List String) : ∃ later, (session.after inputs).LivesIn later := by
  induction inputs generalizing session heap with
  | nil => exact ⟨heap, lives⟩
  | cons source inputs inductionHypothesis =>
      obtain ⟨later, _, livesLater⟩ := lives.evaluate wellFormed source
      exact inductionHypothesis livesLater (wellFormed.evaluate source).1

/-- At every moment there is a heap that all values live in. -/
theorem Moment.exists_livesIn {stackSize : Nat} {inputs : List String} {stores : Stores}
    (moment : ((start stackSize).after inputs).Moment stores) :
    ∃ heap, ∀ value, stores.Holds value → value.LivesIn heap := by
  have wellFormed := (wellFormed_start stackSize).after inputs
  obtain ⟨heap, lives⟩ := (livesIn_start stackSize).after (wellFormed_start stackSize) inputs
  cases moment with
  | between =>
      exact ⟨heap, fun value =>
        Stores.livesIn_of_holds lives.constants lives.globals fun other impossible =>
          absurd impossible (Array.not_mem_empty other)⟩
  | during count read compiled =>
      obtain ⟨later, _, machine, pool⟩ :=
        lives.machineAfter wellFormed.symbols.addressable compiled count
      exact ⟨later, fun value => Stores.livesIn_of_holds pool machine.globals machine.slots⟩

/-- At every moment of a session, for the values in the constants, the globals and the slots
of the stack and all values nested in their arrays:
* Identity and equality are equivalence relations.
* Identical values are equal, and have the same name of their type and the same text.
* Equality differs from identity on two strings of the same text that were built in two
  cells, and on no other values.
* When two of the values are on top of a stack, in any order, `==` replaces them by the
  answer whether they are identical, and `!=` by the opposite answer. -/
theorem identity_coherent {stackSize : Nat} {inputs : List String} {stores : Stores}
    (moment : ((start stackSize).after inputs).Moment stores) :
    (Equivalence fun left right : { value // stores.Holds value } =>
      left.val.identical right.val = true) ∧
    (Equivalence fun left right : { value // stores.Holds value } =>
      left.val.equal right.val = true) ∧
    ∀ left right, stores.Holds left → stores.Holds right →
      (left.identical right = true →
        left.equal right = true ∧ left.kind.name = right.kind.name ∧
          left.text = right.text) ∧
      (left.equal right ≠ left.identical right ↔
        ∃ content cell other, cell ≠ other ∧
          left = .string cell content ∧ right = .string other content) ∧
      ∀ (machine : Machine) (constants : Array Value) (below : List Value),
        machine.stack = below ++ [left, right] ∨ machine.stack = below ++ [right, left] →
          Machine.Reaches (machine.execute constants ⟨.equal, []⟩)
            (machine.view.withStack (below ++ [.boolean (left.identical right)])) ∧
          Machine.Reaches (machine.execute constants ⟨.notEqual, []⟩)
            (machine.view.withStack (below ++ [.boolean (!left.identical right)])) := by
  obtain ⟨heap, lives⟩ := moment.exists_livesIn
  refine ⟨Value.equivalence_identical lives, Value.equivalence_equal lives, ?_⟩
  intro left right leftHeld rightHeld
  have leftLives := lives left leftHeld
  have rightLives := lives right rightHeld
  refine ⟨fun identical => ?_, leftLives.equal_ne_identical_iff rightLives, ?_⟩
  · obtain rfl := (leftLives.identical_iff rightLives).mp identical
    exact ⟨(leftLives.equal_iff leftLives).mpr rfl, rfl, rfl⟩
  · rintro machine constants below (shape | shape)
    · exact Machine.reaches_comparison shape constants
    · have turned : left.identical right = right.identical left :=
        Bool.eq_iff_iff.mpr <| (leftLives.identical_iff rightLives).trans <|
          eq_comm.trans (rightLives.identical_iff leftLives).symm
      rw [turned]
      exact Machine.reaches_comparison shape constants

/-- Two strings with the same text that the language tells apart, at the moment before it
compares them. -/
theorem identity_coherent_strings :
    let left := Value.string 0 "x"
    let right := Value.string 1 "x"
    let program : Program :=
      [.expression (.binary .equals (.string "x") (.string "x")) ⟨0, 10⟩]
    let draft : Draft :=
      ⟨#[⟨.constant, [0]⟩, ⟨.constant, [1]⟩, ⟨.equal, []⟩, ⟨.pop, []⟩], #[left, right],
        .withBuiltins, 2⟩
    let machine := (start 10).machineAfter draft 2
    readProgram "\"x\" == \"x\"" = .ok program ∧
      program.compile (start 10).draft = .ok draft ∧ machine.stack = [left, right] ∧
      left.equal right ≠ left.identical right ∧
      Machine.Reaches (machine.execute draft.constants ⟨.equal, []⟩)
        (machine.view.withStack [.boolean false]) := by
  intro left right program draft machine
  have lexed : lex "\"x\" == \"x\"" =
      .ok [⟨.string "x", ⟨0, 3⟩⟩, ⟨.symbol .equal, ⟨4, 6⟩⟩, ⟨.string "x", ⟨7, 10⟩⟩] := by
    cbv
  have sentence : Reader.statement (Reader.expression maxNesting)
      (.start [⟨.string "x", ⟨0, 3⟩⟩, ⟨.symbol .equal, ⟨4, 6⟩⟩, ⟨.string "x", ⟨7, 10⟩⟩]) =
        .ok ⟨.expression (.binary .equals (.string "x") (.string "x")) ⟨0, 10⟩,
          ⟨3, ⟨7, 10⟩, []⟩, by decide⟩ := by
    with_unfolding_all rfl
  have read : readProgram "\"x\" == \"x\"" = .ok program :=
    readProgram_of_statement lexed sentence rfl
  have compiled : program.compile (start 10).draft = .ok draft := rfl
  have stack : machine.stack = [left, right] := by
    subst machine draft
    cbv
  have moment : ((start 10).after []).Moment (machine.stores draft.constants) :=
    .during 2 read compiled
  have holds (value : Value) (member : value ∈ draft.constants) :
      (machine.stores draft.constants).Holds value :=
    ⟨value, Or.inl member, .self value⟩
  obtain ⟨_, _, coherent⟩ := identity_coherent moment
  obtain ⟨_, differ, compared⟩ :=
    coherent left right (holds left (by simp [draft])) (holds right (by simp [draft]))
  have apart : left.equal right ≠ left.identical right :=
    differ.mpr ⟨"x", 0, 1, Nat.zero_ne_one, rfl, rfl⟩
  exact ⟨read, compiled, stack, apart, (compared machine draft.constants [] (.inl stack)).1⟩

end Session

end ExprMachine
