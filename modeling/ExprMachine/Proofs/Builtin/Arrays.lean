import ExprMachine.Proofs.Relocation
import Mathlib.Algebra.Group.Nat.Defs
import Mathlib.Data.List.Forall2
import Mathlib.Data.List.Induction

/-!
# Taking arrays apart and building them up

An array never changes: `push`, `rest` and `pop` build a new one. What is pushed on an
empty array one by one is in it in this order, and can be taken out of it again from the
front, by `first` and `rest`, or from the back, by `last` and `pop`. The items are not
copied, so that each comes out as the value that was put in.
-/

namespace ExprMachine

namespace Value

/-- The items of an array. -/
def items? : Value → Option (List Value)
  | array _ items => some items
  | _ => none

/-- The number that `len` answers, or zero if it answers none. -/
def length (value : Value) : Int :=
  match Builtin.len.answer [value] with
  | .value (.integer length) => length.toInt
  | _ => 0

theorem length_array {items : List Value} (short : items.length < 2 ^ 63) (cell : Cell) :
    (array cell items).length = items.length :=
  Int64.toInt_ofNat_of_lt short

/-- Every value is the same as itself. -/
theorem identical_self (value : Value) : value.identical value = true := by
  cases value <;> simp only [identical, decide_true]

/-- Values that were there before are not the same as an array built in a fresh cell. -/
theorem identical_array_of_within {old : Value} {fresh : Cell} (within : old.Within fresh)
    (items : List Value) : (array fresh items).identical old = false := by
  cases old with
  | array cell others => exact decide_eq_false (Nat.ne_of_gt within.1)
  | _ => rfl

end Value

/-! ## Chains of calls -/

namespace CallOutcome

/-- The value is there, and cells from the given one on are fresh. -/
def holding (value : Value) (fresh : Cell) : CallOutcome := ⟨value, "", fresh⟩

/-- Calls a builtin with the value of a call before and with further arguments. -/
def thenCall (outcome : CallOutcome) (builtin : Builtin) (others : List Value) : CallOutcome :=
  builtin.call (outcome.value :: others) outcome.fresh

/-- Pushes items one after the other. -/
def pushAll (items : List Value) (outcome : CallOutcome) : CallOutcome :=
  items.foldl (fun outcome item => outcome.thenCall .push [item]) outcome

/-- Takes items out, by one builtin for the item and one for what is left, until `len` is
zero, but at most the given number. Returns the items in the order in which they were taken,
and what is left. -/
def takeApart (take drop : Builtin) : Nat → CallOutcome → List Value × Value
  | 0, outcome => ([], outcome.value)
  | limit + 1, outcome =>
      if outcome.value.length = 0 then
        ([], outcome.value)
      else
        let item := outcome.thenCall take []
        let others := takeApart take drop limit (drop.call [outcome.value] item.fresh)
        (item.value :: others.1, others.2)

variable {cell fresh : Cell} {items : List Value}

theorem pushAll_array (items front : List Value) (cell fresh : Cell) :
    ∃ built, pushAll items (holding (.array cell front) fresh) =
      holding (.array built (front ++ items)) (fresh + items.length) := by
  induction items generalizing front cell fresh with
  | nil => exact ⟨cell, by rw [List.append_nil]; rfl⟩
  | cons item items inductionHypothesis =>
      obtain ⟨built, pushed⟩ := inductionHypothesis (front ++ [item]) fresh (fresh + 1)
      refine ⟨built, ?_⟩
      rw [List.append_assoc, List.singleton_append, Nat.add_assoc, Nat.add_comm 1] at pushed
      exact pushed

theorem takeApart_of_length_eq_zero {outcome : CallOutcome} (take drop : Builtin)
    (none : outcome.value.length = 0) (limit : Nat) :
    takeApart take drop limit outcome = ([], outcome.value) := by
  cases limit with
  | zero => rfl
  | succ limit => exact if_pos none

theorem takeApart_succ {outcome left : CallOutcome} {take drop : Builtin} {item : Value}
    {later : Cell} (some : outcome.value.length ≠ 0)
    (taken : outcome.thenCall take [] = holding item later)
    (dropped : drop.call [outcome.value] later = left) (limit : Nat) :
    takeApart take drop (limit + 1) outcome =
      (item :: (takeApart take drop limit left).1, (takeApart take drop limit left).2) := by
  subst dropped
  rw [takeApart, if_neg some, taken]
  rfl

theorem length_ne_zero (short : items.length < 2 ^ 63) (some : items ≠ []) (cell : Cell) :
    (Value.array cell items).length ≠ 0 := by
  have positive := List.length_pos_iff.mpr some
  rw [Value.length_array short]
  omega

/-- By `first` and `rest`, all items are taken in their order. -/
theorem takeApart_first {limit : Nat} (short : items.length < 2 ^ 63)
    (enough : items.length ≤ limit) (cell fresh : Cell) :
    ∃ left, takeApart .first .rest limit (holding (.array cell items) fresh) =
      (items, .array left []) := by
  induction items generalizing limit cell fresh with
  | nil => exact ⟨cell, takeApart_of_length_eq_zero _ _ rfl limit⟩
  | cons item items inductionHypothesis =>
      cases limit with
      | zero => cases enough
      | succ limit =>
          obtain ⟨left, taken⟩ := inductionHypothesis (Nat.lt_of_succ_lt short)
            (Nat.le_of_succ_le_succ enough) fresh (fresh + 1)
          have counted := length_ne_zero short (List.cons_ne_nil item items) cell
          have dropped : Builtin.rest.call [.array cell (item :: items)] fresh =
              holding (.array fresh items) (fresh + 1) := rfl
          refine ⟨left, ?_⟩
          rw [takeApart_succ counted rfl dropped, taken]
          rfl

theorem thenCall_last (front : List Value) (item : Value) (cell fresh : Cell) :
    (holding (.array cell (front ++ [item])) fresh).thenCall .last [] = holding item fresh := by
  change holding ((front ++ [item]).getLast?.getD .null) fresh = _
  rw [List.getLast?_concat, Option.getD_some]

theorem call_pop_singleton (item : Value) (cell fresh : Cell) :
    Builtin.pop.call [.array cell [item]] fresh = holding .null fresh := rfl

theorem call_pop {front : List Value} (some : front ≠ []) (item : Value) (cell fresh : Cell) :
    Builtin.pop.call [.array cell (front ++ [item])] fresh =
      holding (.array fresh front) (fresh + 1) := by
  have several : 1 < (front ++ [item]).length := by
    have positive := List.length_pos_iff.mpr some
    rw [List.length_append, List.length_singleton]
    omega
  change (Builtin.popOf (front ++ [item])).build fresh = _
  rw [Builtin.popOf, if_pos several, List.dropLast_concat]
  rfl

/-- By `last` and `pop`, all items are taken from the last to the first. What is left of an
array that had any is null. -/
theorem takeApart_last {limit : Nat} (short : items.length < 2 ^ 63)
    (enough : items.length ≤ limit) (cell fresh : Cell) :
    takeApart .last .pop limit (holding (.array cell items) fresh) =
      (items.reverse, if items = [] then .array cell items else .null) := by
  induction items using List.reverseRecOn generalizing limit cell fresh with
  | nil => exact takeApart_of_length_eq_zero _ _ rfl limit
  | append_singleton front item inductionHypothesis =>
      have some : front ++ [item] ≠ [] := List.concat_ne_nil item front
      have counted := length_ne_zero short some cell
      rw [List.length_append, List.length_singleton] at short enough
      cases limit with
      | zero => cases enough
      | succ limit =>
          rw [if_neg some, List.reverse_concat]
          by_cases alone : front = []
          · subst alone
            rw [takeApart_succ counted (thenCall_last [] item cell fresh)
              (call_pop_singleton item cell fresh), takeApart_of_length_eq_zero _ _ rfl]
            rfl
          · rw [takeApart_succ counted (thenCall_last front item cell fresh)
              (call_pop alone item cell fresh),
              inductionHypothesis (Nat.lt_of_succ_lt short) (Nat.le_of_succ_le_succ enough),
              if_neg alone]

/-- An array that is not empty, whichever cell it is in: it makes no difference whether an
item is pushed before or after the first one is taken away, and an item that is pushed is
taken away again by `pop`. -/
theorem items?_of_push {outcome : CallOutcome} (isArray : outcome.value.items? = .some items)
    (some : items ≠ []) (item : Value) :
    ((outcome.thenCall .push [item]).thenCall .rest []).value.items? =
        .some (items.tail ++ [item]) ∧
      ((outcome.thenCall .rest []).thenCall .push [item]).value.items? =
        .some (items.tail ++ [item]) ∧
      ((outcome.thenCall .push [item]).thenCall .pop []).value.items? = .some items := by
  obtain ⟨value, printed, fresh⟩ := outcome
  cases value with
  | array cell others =>
      cases isArray
      have popped : (Builtin.pop.call [.array fresh (items ++ [item])]
          (fresh + 1)).value.items? = .some items := by
        rw [call_pop some]
        rfl
      cases items with
      | nil => exact absurd rfl some
      | cons first others => exact ⟨rfl, rfl, popped⟩
  | _ => cases isArray

end CallOutcome

/-! ## New arrays -/

namespace Builtin

theorem onArray_given {builtin : Builtin} {argument given : Value}
    {answer : List Value → Answer} (each : ∀ items, answer items = .value given → given = .null)
    (answered : builtin.onArray argument answer = .value given) : given = .null := by
  cases argument with
  | array cell items => exact each items answered
  | _ => cases answered

/-- The builtins that build arrays answer with no value that was there before but null. -/
theorem given_of_builds {builtin : Builtin} (builds : builtin ∈ [rest, push, pop])
    {arguments : List Value} {given : Value} (answered : builtin.answer arguments = .value given) :
    given = .null := by
  cases builtin with
  | rest =>
      rcases arguments with _ | ⟨argument, _ | ⟨other, others⟩⟩
      · cases answered
      · refine onArray_given (fun items nothing => ?_) answered
        cases items <;> cases nothing
        rfl
      · cases answered
  | push =>
      rcases arguments with _ | ⟨argument, _ | ⟨item, _ | ⟨other, others⟩⟩⟩
      · cases answered
      · cases answered
      · have pushed : push.onArray argument (fun items => .array (items ++ [item])) =
            .value given := answered
        refine onArray_given (fun items nothing => ?_) pushed
        cases nothing
      · cases answered
  | pop =>
      rcases arguments with _ | ⟨argument, _ | ⟨other, others⟩⟩
      · cases answered
      · refine onArray_given (fun items nothing => ?_) answered
        unfold popOf at nothing
        split at nothing <;> cases nothing
        rfl
      · cases answered
  | _ => exact absurd builds (by decide)

/-- An array that is built is the same as no value that was there before. -/
theorem identical_of_builds {builtin : Builtin} (builds : builtin ∈ [rest, push, pop])
    {arguments items : List Value} {cell fresh : Cell} {old : Value}
    (built : (builtin.call arguments fresh).value = .array cell items)
    (within : old.Within fresh) : (Value.array cell items).identical old = false := by
  unfold call at built
  cases answered : builtin.answer arguments with
  | value given =>
      obtain rfl := given_of_builds builds answered
      rw [answered] at built
      cases built
  | array others =>
      rw [answered] at built
      cases built
      exact Value.identical_array_of_within within items
  | string | misuse | printed =>
      rw [answered] at built
      cases built

open CallOutcome

/-- Arrays are taken apart and built up again without loss:
* Pushing items on an empty array gives an array of these items in their order, and `len`
  answers their number.
* Taking `first` and then `rest` until `len` is zero yields the items in their order. Taking
  `last` and then `pop` yields them in reverse order, and for the last of them `pop` answers
  null. Each of them is the same value as the one that was pushed.
* For every array that is not empty, built by pushes or not, `rest` and `push` can change
  places, and `pop` undoes `push`.
* An array that is built is the same as no value that was there before, and it is there for
  all calls that come later.

The items of an array take up memory, so that there are fewer than 2 ^ 63 of them. -/
theorem arrays_rebuilt (items : List Value) (cell fresh : Cell) :
    let built := pushAll items (holding (.array cell []) fresh)
    built.value.items? = some items ∧
      (built.thenCall .len []).value = .integer (Int64.ofNat items.length) ∧
      (items.length < 2 ^ 63 →
        built.value.length = items.length ∧
          ∀ limit, items.length ≤ limit →
            (∃ left, takeApart .first .rest limit built = (items, .array left [])) ∧
              takeApart .last .pop limit built =
                (items.reverse, if items = [] then built.value else .null) ∧
              List.Forall₂ (fun taken item => taken.identical item)
                (takeApart .first .rest limit built).1 items ∧
              List.Forall₂ (fun taken item => taken.identical item)
                (takeApart .last .pop limit built).1 items.reverse) ∧
      (∀ (array : CallOutcome) (held : List Value), array.value.items? = some held →
        held ≠ [] → ∀ item,
          ((array.thenCall .push [item]).thenCall .rest []).value.items? =
              some (held.tail ++ [item]) ∧
            ((array.thenCall .rest []).thenCall .push [item]).value.items? =
              some (held.tail ++ [item]) ∧
            ((array.thenCall .push [item]).thenCall .pop []).value.items? = some held) ∧
      ∀ (builtin : Builtin) (arguments : List Value) (fresh : Cell),
        (builtin ∈ [rest, push, pop] → ∀ cell items,
          (builtin.call arguments fresh).value = .array cell items →
            ∀ old : Value, old.Within fresh →
              (Value.array cell items).identical old = false) ∧
          ((∀ argument ∈ arguments, argument.Within fresh) →
            (builtin.call arguments fresh).value.Within
              (builtin.call arguments fresh).fresh) := by
  intro built
  obtain ⟨place, pushed⟩ := pushAll_array items [] cell fresh
  rw [List.nil_append] at pushed
  rw [show built = holding (.array place items) (fresh + items.length) from pushed]
  refine ⟨rfl, rfl, fun short => ⟨Value.length_array short place, fun limit enough => ?_⟩,
    fun array held isArray some item => items?_of_push isArray some item,
    fun builtin arguments fresh => ⟨?_, builtin.within_call⟩⟩
  · have same (values : List Value) :
        List.Forall₂ (fun taken item => taken.identical item) values values :=
      List.forall₂_same.mpr fun item _ => item.identical_self
    obtain ⟨left, front⟩ := takeApart_first short enough place (fresh + items.length)
    have back := takeApart_last short enough place (fresh + items.length)
    rw [front, back]
    exact ⟨⟨left, rfl⟩, rfl, same items, same items.reverse⟩
  · exact fun builds cell items isArray old within =>
      identical_of_builds builds isArray within

/-- Among the items are an array and a string. -/
theorem arrays_rebuilt_nested :
    let items : List Value := [.integer 1, .array 0 [.null], .string 1 "a"]
    let built := pushAll items (holding (.array 2 []) 3)
    let left := built.thenCall .rest []
    items.length < 2 ^ 63 ∧ items ≠ [] ∧ built.value = .array 5 items ∧ built.value.Within 6 ∧
      built.value.length = 3 ∧
      takeApart .last .pop 4 built = (items.reverse, .null) ∧
      ((built.thenCall .push [.null]).thenCall .pop []).value.items? = some items ∧
      left.value = .array 6 [.array 0 [.null], .string 1 "a"] ∧
      (Value.array 6 [.array 0 [.null], .string 1 "a"]).identical built.value = false ∧
      left.value.Within 7 := by
  intro items built left
  have short : items.length < 2 ^ 63 := by decide
  have nonempty : items ≠ [] := List.cons_ne_nil _ _
  have within : built.value.Within 6 := by
    refine ⟨(by decide : 5 < 6), trivial, ⟨(by decide : 0 < 6), trivial, trivial⟩, ?_, trivial⟩
    exact (by decide : 1 < 6)
  obtain ⟨_, _, loops, commute, new⟩ := arrays_rebuilt items 2 3
  obtain ⟨counted, taken⟩ := loops short
  obtain ⟨distinct, inside⟩ := new rest [built.value] 6
  exact ⟨short, nonempty, rfl, within, counted, (taken 4 (by decide)).2.1,
    (commute built items rfl nonempty .null).2.2, rfl, distinct (by decide) 6 _ rfl built.value within,
    inside (List.forall_mem_singleton.mpr within)⟩

end Builtin

end ExprMachine
