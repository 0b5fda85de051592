import ExprMachine.Proofs.Machine.Lockstep

/-!
# Runs and listings

The lines that a run dispatches are the first lines of the listing. If the run goes
through, they are all of them, and if it stops at an unknown opcode, they are those up to
the first line that shows one.
-/

namespace ExprMachine

/-- The line shows a byte that is no opcode. -/
def Line.isUnknown (line : Line) : Bool :=
  match line.content with
  | .unknown _ => true
  | _ => false

namespace Lockstep

variable {bytecode : Bytecode} {counter : Nat} {lines : List Line} {machine final : Machine}
  {outcome : Except Stopped Machine} {run : RawRun}

theorem dispatched_isPrefixOf (lockstep : Lockstep bytecode counter lines machine outcome run) :
    run.moments.map Moment.line <+: lines := by
  induction lockstep with
  | finished machine => exact List.nil_prefix
  | stopped => exact List.cons_prefix_cons.mpr ⟨rfl, List.nil_prefix⟩
  | step _ _ _ _ inductionHypothesis =>
      exact List.cons_prefix_cons.mpr ⟨rfl, inductionHypothesis⟩

theorem dispatched_of_ok (lockstep : Lockstep bytecode counter lines machine outcome run)
    (ended : outcome = .ok final) : run.moments.map Moment.line = lines := by
  induction lockstep with
  | finished machine => rfl
  | stopped => cases ended
  | step _ _ _ _ inductionHypothesis =>
      rw [List.map_cons, inductionHypothesis ended]

/-- Instructions are no unknown opcodes, so a run gets to the first one there is. -/
theorem dispatched_of_unknownOpcode {byte : UInt8} {offset : Nat}
    (lockstep : Lockstep bytecode counter lines machine outcome run)
    (ended : outcome = .error ⟨.error (.unknownOpcode byte offset), final⟩) :
    (run.moments.map Moment.line).getLast? = some ⟨offset, .unknown byte⟩ ∧
      lines.find? Line.isUnknown = some ⟨offset, .unknown byte⟩ := by
  induction lockstep with
  | finished => cases ended
  | stopped _ stops _ =>
      cases ended
      obtain ⟨rfl, rfl⟩ := (stops.unknown_iff byte offset).mp rfl
      exact ⟨rfl, rfl⟩
  | step _ _ _ _ inductionHypothesis =>
      obtain ⟨last, first⟩ := inductionHypothesis ended
      refine ⟨?_, first⟩
      rw [List.map_cons, List.getLast?_cons, last]
      rfl

theorem fault_of_truncated {offset : Nat} {opcode : Opcode}
    (lockstep : Lockstep bytecode counter lines machine outcome run)
    (reached : ⟨offset, .truncated opcode⟩ ∈ run.moments.map Moment.line) :
    ∃ final, outcome = .error ⟨.fault .operandCutOff, final⟩ := by
  induction lockstep with
  | finished => cases reached
  | @stopped _ _ _ _ stopped _ _ stops _ =>
      cases List.mem_singleton.mp reached
      obtain ⟨cause, final⟩ := stopped
      have cutOff : cause = .fault .operandCutOff :=
        (stops.fault_iff .operandCutOff).mpr rfl
      rw [cutOff]
      exact ⟨final, rfl⟩
  | step _ _ _ _ inductionHypothesis =>
      rcases List.mem_cons.mp reached with impossible | later
      · cases impossible
      · exact inductionHypothesis later

end Lockstep

/-- A listing consists of lines that tile the code, and a run dispatches these lines one
after another, beginning with the first. If it stops at an unknown opcode, the last line
it dispatched is the first one that shows an unknown opcode, with the same byte and
offset. If it gets to operands that are cut off, it stops at this fault. And if it goes
through, it has dispatched all lines. -/
theorem run_dispatches_listing (bytecode : Bytecode) (stackSize : Nat)
    (globals : Array Value) (cell : Cell) :
    let lines := Line.ofStream bytecode.code
    let outcome := (Machine.start stackSize globals cell).run bytecode
    let run := (RawMachine.start stackSize globals cell).run bytecode
    let dispatched := run.moments.map Moment.line
    (listing bytecode.code = String.join (lines.map Line.text) ∧
      Line.Tiles bytecode.code 0 lines) ∧
    Agrees Machine.raw outcome run.outcome ∧
    dispatched <+: lines ∧
    (∀ byte offset final,
      outcome = .error ⟨.error (.unknownOpcode byte offset), final⟩ →
        dispatched.getLast? = some ⟨offset, .unknown byte⟩ ∧
          lines.find? Line.isUnknown = some ⟨offset, .unknown byte⟩) ∧
    (∀ offset opcode, ⟨offset, .truncated opcode⟩ ∈ dispatched →
      ∃ final, outcome = .error ⟨.fault .operandCutOff, final⟩) ∧
    (∀ final, outcome = .ok final → dispatched = lines) := by
  intro lines outcome run dispatched
  have lockstep := lockstep_run bytecode stackSize globals cell
  have listed : listing bytecode.code = String.join (lines.map Line.text) :=
    listing_eq bytecode.code
  have tiled : Line.Tiles bytecode.code 0 lines := Line.tiles_ofStream bytecode.code
  refine ⟨⟨listed, tiled⟩, lockstep.agrees, lockstep.dispatched_isPrefixOf, ?_, ?_, ?_⟩
  · intro byte offset final ended
    exact lockstep.dispatched_of_unknownOpcode ended
  · intro offset opcode reached
    exact lockstep.fault_of_truncated reached
  · intro final ended
    exact lockstep.dispatched_of_ok ended

end ExprMachine
