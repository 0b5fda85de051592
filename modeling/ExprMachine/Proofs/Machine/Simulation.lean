import ExprMachine.Proofs.Decoding
import ExprMachine.Proofs.Evaluation
import ExprMachine.Proofs.Machine.Stack

/-!
# Runs that follow evaluations

A run of the machine follows an evaluation when it ends as the evaluation does,
as long as the stack has enough slots. The number of slots that are enough is
exact for an evaluation that has a result: with fewer slots the stack overflows.
When the evaluation ends early, a run with fewer slots may end as the evaluation
does or overflow before.
-/

namespace ExprMachine

/-- The outcome is an overflow of a stack with the given number of slots. -/
def Overflows (capacity : Nat) (outcome : Except Stopped Machine) : Prop :=
  ∃ printed, Machine.StopsWith outcome (.stackOverflow capacity) printed

/-- The outcome is the error that an evaluation ended early with. -/
def HaltsAs (outcome : Except Stopped Machine) (halt : Halt) : Prop :=
  ∃ error : RuntimeError, halt.cause = .error error ∧ error.OfValues ∧
    Machine.StopsWith outcome error halt.printed

/-- The outcome of a run is that of an evaluation, if the stack has as many slots
as the given height says. Results of the evaluation show in the machine. -/
def Follows {α : Type} (capacity height : Nat) (shows : α → Machine → Prop)
    (outcome : Except Stopped Machine) : Except Halt α → Prop
  | .ok result =>
      if height ≤ capacity then
        ∃ next, outcome = .ok next ∧ shows result next
      else
        Overflows capacity outcome
  | .error halt =>
      HaltsAs outcome halt ∨ capacity < height ∧ Overflows capacity outcome

namespace Follows

variable {α β : Type} {capacity height : Nat} {shows : α → Machine → Prop}
  {laterShows : β → Machine → Prop} {constants : Array Value}
  {front back : List Instruction} {machine : Machine} {evaluation : Except Halt α}
  {rest : α → Except Halt β}

theorem of_shows {outcome : Except Stopped Machine} {result : α} {next : Machine}
    (inside : height ≤ capacity) (reached : outcome = .ok next)
    (shown : shows result next) :
    Follows capacity height shows outcome (.ok result) := by
  rw [Follows, if_pos inside]
  exact ⟨next, reached, shown⟩

/-- An evaluation with a result needs all the slots that the height says. -/
theorem of_overflows {outcome : Except Stopped Machine} {result : α}
    (tooFew : ¬ height ≤ capacity) (overflows : Overflows capacity outcome) :
    Follows capacity height shows outcome (.ok result) := by
  rw [Follows, if_neg tooFew]
  exact overflows

/-- A run that stops goes no further, whatever comes after. -/
theorem stopped_of_append {stopped : Stopped}
    (stops : machine.executeAll constants front = .error stopped) :
    machine.executeAll constants (front ++ back) = .error stopped := by
  rw [Machine.executeAll_append, stops]
  rfl

theorem stopsWith_of_append {error : RuntimeError} {printed : String}
    (stops : Machine.StopsWith (machine.executeAll constants front) error printed) :
    Machine.StopsWith (machine.executeAll constants (front ++ back)) error printed := by
  obtain ⟨stopped, failed, cause, text⟩ := stops
  exact ⟨stopped, stopped_of_append failed, cause, text⟩

theorem overflows_of_append
    (overflows : Overflows capacity (machine.executeAll constants front)) :
    Overflows capacity (machine.executeAll constants (front ++ back)) := by
  obtain ⟨printed, stops⟩ := overflows
  exact ⟨printed, stopsWith_of_append stops⟩

/-- Runs one after the other follow evaluations one after the other. Together
they need as many slots as the one that needs more. -/
theorem andThen {total : Nat}
    (before : Follows capacity height shows (machine.executeAll constants front)
      evaluation)
    (laterHeight : Nat)
    (after : ∀ result next, evaluation = .ok result → shows result next →
      Follows capacity laterHeight laterShows (next.executeAll constants back)
        (rest result))
    (whole : total = max height laterHeight) :
    Follows capacity total laterShows
      (machine.executeAll constants (front ++ back)) (evaluation >>= rest) := by
  subst whole
  cases evaluation with
  | error halt =>
      rcases before with ⟨error, cause, ofValues, stops⟩ | ⟨tooFew, overflows⟩
      · exact Or.inl ⟨error, cause, ofValues, stopsWith_of_append stops⟩
      · exact Or.inr ⟨by omega, overflows_of_append overflows⟩
  | ok result =>
      by_cases inside : height ≤ capacity
      · rw [Follows, if_pos inside] at before
        obtain ⟨next, reached, shown⟩ := before
        have following := after result next rfl shown
        have joined : machine.executeAll constants (front ++ back) =
            next.executeAll constants back := by
          rw [Machine.executeAll_append, reached]
          rfl
        have same : max height laterHeight ≤ capacity ↔ laterHeight ≤ capacity := by
          omega
        rw [joined]
        change Follows capacity _ laterShows _ (rest result)
        cases ended : rest result with
        | ok _ => simpa only [ended, Follows, same] using following
        | error _ =>
            rw [ended] at following
            rcases following with halts | ⟨tooFew, overflows⟩
            · exact Or.inl halts
            · exact Or.inr ⟨by omega, overflows⟩
      · rw [Follows, if_neg inside] at before
        have overflows : Overflows capacity
            (machine.executeAll constants (front ++ back)) :=
          overflows_of_append before
        change Follows capacity _ laterShows _ (rest result)
        cases rest result with
        | ok _ => exact of_overflows (by omega) overflows
        | error _ => exact Or.inr ⟨by omega, overflows⟩

theorem map {outcome : Except Stopped Machine} {result : α → β}
    (before : Follows capacity height shows outcome evaluation)
    (shown : ∀ value next, shows value next → laterShows (result value) next) :
    Follows capacity height laterShows outcome
      (evaluation >>= fun value => .ok (result value)) := by
  cases evaluation with
  | error halt => exact before
  | ok value =>
      by_cases inside : height ≤ capacity
      · rw [Follows, if_pos inside] at before
        obtain ⟨next, reached, holds⟩ := before
        exact of_shows inside reached (shown value next holds)
      · rw [Follows, if_neg inside] at before
        exact of_overflows inside before

end Follows

/-! ## Instructions -/

/-- The view of a machine in a scene. -/
def Scene.view (scene : Scene) (stack : List Value) (capacity : Nat)
    (globals : Array Value) : View :=
  ⟨stack, capacity, globals, scene.printed, scene.fresh⟩

/-- The machine has values on top of a stack, in a scene whose next string
literal is the given one. -/
def Leaves (stack : List Value) (capacity : Nat) (globals : Array Value)
    (literal : Cell) (values : List Value) (scene : Scene) (next : Machine) : Prop :=
  next.view = scene.view (stack ++ values) capacity globals ∧ scene.literal = literal

namespace Machine

variable {machine : Machine} {scene : Scene} {stack : List Value} {capacity : Nat}
  {globals : Array Value} {literal : Cell}

theorem follows_push (stands : machine.view = scene.view stack capacity globals)
    (value : Value) {after : Scene} (printed : after.printed = scene.printed)
    (fresh : after.fresh = scene.fresh) (counted : after.literal = literal) :
    Follows capacity (stack.length + 1)
      (fun result => Leaves stack capacity globals literal [result.1] result.2)
      (machine.push value) (.ok (value, after)) := by
  have shape : machine.stack = stack := congrArg View.stack stands
  have slots : machine.slots.size = capacity := congrArg View.capacity stands
  have height := top_of_stack shape
  by_cases room : machine.top < machine.slots.size
  · obtain ⟨next, pushed, nextView⟩ := push_of_room room value
    refine Follows.of_shows (by omega) pushed ⟨?_, counted⟩
    rw [nextView, stands, shape, Scene.view, Scene.view, printed, fresh]
    rfl
  · have stops := stopsWith_push (Nat.le_of_not_lt room) value
    rw [slots] at stops
    exact Follows.of_overflows (by omega) ⟨_, stops⟩

theorem follows_concludes {outcome : Except Stopped Machine} {operands : List Value}
    {result : Except RuntimeError Value}
    (stands : machine.view = scene.view (stack ++ operands) capacity globals)
    (concludes : Concludes outcome machine stack result)
    (raises : RaisesOfValues result) (counted : scene.literal = literal) :
    Follows capacity 0
      (fun result => Leaves stack capacity globals literal [result.1] result.2)
      outcome (scene.conclude result) := by
  cases result with
  | ok value =>
      obtain ⟨next, reached, nextView⟩ := concludes
      refine Follows.of_shows (Nat.zero_le _) reached ⟨?_, counted⟩
      rw [nextView, stands]
      rfl
  | error error =>
      have printed : machine.printed = scene.printed := congrArg View.printed stands
      have stops : StopsWith outcome error scene.printed := by
        rw [← printed]
        exact concludes
      exact Or.inl ⟨error, rfl, raises error rfl, stops⟩

theorem follows_collect {items : List Value}
    (stands : machine.view = scene.view (stack ++ items) capacity globals)
    (counted : scene.literal = literal) :
    Follows capacity (stack.length + 1)
      (fun result => Leaves stack capacity globals literal [result.1] result.2)
      (machine.collect items.length)
      (.ok (.array scene.fresh items, { scene with fresh := scene.fresh + 1 })) := by
  have shape : machine.stack = stack ++ items := congrArg View.stack stands
  have slots : machine.slots.size = capacity := congrArg View.capacity stands
  have fresh : machine.fresh = scene.fresh := congrArg View.fresh stands
  have collected := collect_of_stack shape
  rw [slots, fresh, stands] at collected
  by_cases room : stack.length < capacity
  · rw [if_pos room] at collected
    obtain ⟨next, reached, nextView⟩ := collected
    exact Follows.of_shows room reached ⟨nextView, counted⟩
  · rw [if_neg room] at collected
    exact Follows.of_overflows room ⟨_, collected⟩

theorem follows_call {callee : Value} {arguments : List Value}
    (stands : machine.view =
      scene.view (stack ++ callee :: arguments) capacity globals)
    (counted : scene.literal = literal) :
    Follows capacity 0
      (fun result => Leaves stack capacity globals literal [result.1] result.2)
      (machine.call arguments.length) (scene.call arguments callee) := by
  have shape : machine.stack = stack ++ callee :: arguments :=
    congrArg View.stack stands
  have fresh : machine.fresh = scene.fresh := congrArg View.fresh stands
  have printed : machine.printed = scene.printed := congrArg View.printed stands
  by_cases isBuiltin : ∃ builtin, callee = .builtin builtin
  · obtain ⟨builtin, rfl⟩ := isBuiltin
    have called := call_of_builtin shape
    rw [fresh, printed, stands] at called
    obtain ⟨next, reached, nextView⟩ := called
    exact Follows.of_shows (Nat.zero_le _) reached ⟨nextView, counted⟩
  · have other : ∀ builtin, callee ≠ .builtin builtin := by
      intro builtin same
      exact isBuiltin ⟨builtin, same⟩
    have refused : scene.call arguments callee =
        scene.halt (.error (.notCallable callee.kind)) := by
      cases callee with
      | builtin builtin => exact absurd rfl (other builtin)
      | _ => rfl
    rw [call_of_other shape other, refused]
    have stops := stopsWith_fail machine (.notCallable callee.kind)
    rw [printed] at stops
    exact Or.inl ⟨_, rfl, trivial, stops⟩

end Machine

end ExprMachine
