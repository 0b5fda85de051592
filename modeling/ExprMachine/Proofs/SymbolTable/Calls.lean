import ExprMachine.Proofs.SymbolTable

/-!
# Calls on a symbol table

A table is only changed by calls that bind a name, as a global or to a builtin, in any
order. A global can become the name of a builtin and a global again. The slot that it had
is then given up: slots are counted and never counted down, so that no name is ever given a
slot that some name had before.
-/

namespace ExprMachine

namespace SymbolTable

/-- The name stands for a slot. -/
def IsGlobal (table : SymbolTable) (name : String) : Prop :=
  ∃ slot, table.resolve? name = some ⟨.global, slot⟩

end SymbolTable

/-- A call on a symbol table. -/
inductive TableCall where
  | define (name : String)
  | defineBuiltin (index : Nat) (name : String)
  | resolve (name : String)
deriving DecidableEq, Repr

namespace TableCall

variable (call : TableCall) (table : SymbolTable)

/-- The name that the call binds, if it binds one. -/
def bound? : TableCall → Option String
  | define name | defineBuiltin _ name => some name
  | resolve _ => none

/-- The binding that the call returns, and the table after it. -/
def perform : TableCall → SymbolTable → Option Binding × SymbolTable
  | define name, table => (some ⟨.global, (table.define name).1⟩, (table.define name).2)
  | defineBuiltin index name, table =>
      (some ⟨.builtin, index⟩, table.defineBuiltin index name)
  | resolve name, table => (table.resolve? name, table)

/-- The call binds a name as a global that is none yet. -/
def OpensSlot : Prop :=
  ∃ name, call = define name ∧ ¬ table.IsGlobal name

/-! ## One call -/

/-- A call concerns the name that it binds, and no other. -/
theorem resolve?_perform (name : String) :
    (call.perform table).2.resolve? name =
      if call.bound? = some name then (call.perform table).1 else table.resolve? name := by
  cases call with
  | define own =>
      simp only [perform, bound?, Option.some.injEq]
      exact table.resolve?_define own name
  | defineBuiltin index own =>
      simp only [perform, bound?, Option.some.injEq]
      exact table.resolve?_defineBuiltin index own name
  | resolve own => exact (if_neg nofun).symm

/-- A call counts one more slot, or none. -/
theorem globalCount_perform :
    call.OpensSlot table ∧
        (call.perform table).2.globalCount = table.globalCount + 1 ∨
      ¬ call.OpensSlot table ∧
        (call.perform table).2.globalCount = table.globalCount := by
  cases call with
  | define name =>
      rcases table.define_cases name with ⟨slot, resolved, defined⟩ | ⟨unbound, defined⟩
      · refine Or.inr ⟨?_, by rw [perform, defined]⟩
        rintro ⟨_, ⟨⟩, noGlobal⟩
        exact noGlobal ⟨slot, resolved⟩
      · refine Or.inl ⟨⟨name, rfl, ?_⟩, by rw [perform, defined]; rfl⟩
        rintro ⟨slot, resolved⟩
        exact unbound slot resolved
  | defineBuiltin index name =>
      refine Or.inr ⟨?_, rfl⟩
      rintro ⟨_, ⟨⟩, _⟩
  | resolve name =>
      refine Or.inr ⟨?_, rfl⟩
      rintro ⟨_, ⟨⟩, _⟩

theorem globalCount_le_perform :
    table.globalCount ≤ (call.perform table).2.globalCount := by
  rcases call.globalCount_perform table with ⟨_, counted⟩ | ⟨_, counted⟩ <;> omega

/-- A name that is bound as a global is returned the same slot again, by a table that stays
the same. -/
theorem perform_define_again (name : String) :
    (define name).perform ((define name).perform table).2 = (define name).perform table := by
  have found := table.resolve?_define name name
  rw [if_pos rfl] at found
  rcases (table.define name).2.define_cases name with ⟨slot, resolved, again⟩ | ⟨unbound, _⟩
  · obtain ⟨⟩ := found.symm.trans resolved
    simp only [perform, again]
  · exact absurd found (unbound _)

/-- A name that a call leaves a global keeps its slot. -/
theorem resolve?_perform_of_isGlobal {name : String} (before : table.IsGlobal name)
    (after : (call.perform table).2.IsGlobal name) :
    (call.perform table).2.resolve? name = table.resolve? name := by
  obtain ⟨slot, resolved⟩ := after
  rw [resolve?_perform] at resolved ⊢
  split at resolved
  · next binds =>
      rw [if_pos binds]
      cases call with
      | define own =>
          cases binds
          obtain ⟨kept, found⟩ := before
          rcases table.define_cases name with ⟨slot, same, defined⟩ | ⟨unbound, _⟩
          · rw [perform, defined, same]
          · exact absurd found (unbound kept)
      | defineBuiltin index own => cases resolved
      | resolve own => cases binds
  · next binds => rw [if_neg binds]

end TableCall

namespace SymbolTable

theorem Distinct.perform {table : SymbolTable} (distinct : table.Distinct)
    (call : TableCall) : (call.perform table).2.Distinct := by
  cases call with
  | define name => exact distinct.define name
  | resolve name => exact distinct
  | defineBuiltin index own =>
      have kept {name : String} {slot : Nat}
          (resolved : (table.defineBuiltin index own).resolve? name =
            some ⟨.global, slot⟩) : table.resolve? name = some ⟨.global, slot⟩ := by
        rw [resolve?_defineBuiltin] at resolved
        split at resolved
        · cases resolved
        · exact resolved
      exact ⟨fun resolved => distinct.slot_lt (kept resolved),
        fun first second => distinct.slot_injective (kept first) (kept second)⟩

theorem distinct_initial (bare : Bool) : (initial bare).Distinct where
  slot_lt := fun resolved => nomatch (builtin_of_initial resolved).1
  slot_injective := fun resolved => nomatch (builtin_of_initial resolved).1

/-! ## Calls one after another -/

/-- The table after calls, one after another. -/
def afterCalls (table : SymbolTable) (calls : List TableCall) : SymbolTable :=
  calls.foldl (fun table call => (call.perform table).2) table

variable {table : SymbolTable} {name : String}

theorem afterCalls_append (table : SymbolTable) (front back : List TableCall) :
    table.afterCalls (front ++ back) = (table.afterCalls front).afterCalls back :=
  List.foldl_append

theorem Distinct.afterCalls (distinct : table.Distinct) (calls : List TableCall) :
    (table.afterCalls calls).Distinct := by
  induction calls generalizing table with
  | nil => exact distinct
  | cons call calls inductionHypothesis => exact inductionHypothesis (distinct.perform call)

theorem globalCount_le_afterCalls (table : SymbolTable) (calls : List TableCall) :
    table.globalCount ≤ (table.afterCalls calls).globalCount := by
  induction calls generalizing table with
  | nil => exact Nat.le_refl _
  | cons call calls inductionHypothesis =>
      exact Nat.le_trans (call.globalCount_le_perform table) (inductionHypothesis _)

/-- A name that no call binds keeps its binding. -/
theorem resolve?_afterCalls {calls : List TableCall}
    (unbound : ∀ call ∈ calls, call.bound? ≠ some name) :
    (table.afterCalls calls).resolve? name = table.resolve? name := by
  induction calls generalizing table with
  | nil => rfl
  | cons call calls inductionHypothesis =>
      obtain ⟨here, later⟩ := List.forall_mem_cons.mp unbound
      have kept := call.resolve?_perform table name
      rw [if_neg here] at kept
      exact (inductionHypothesis later).trans kept

/-- A name is bound as the last call says that binds it. -/
theorem resolve?_afterCalls_of_last {call : TableCall} {front back : List TableCall}
    (binds : call.bound? = some name) (last : ∀ later ∈ back, later.bound? ≠ some name) :
    (table.afterCalls (front ++ call :: back)).resolve? name =
      (call.perform (table.afterCalls front)).1 := by
  have bound := call.resolve?_perform (table.afterCalls front) name
  rw [if_pos binds] at bound
  rw [afterCalls_append]
  exact (resolve?_afterCalls last).trans bound

/-- A name keeps its slot as long as it stays a global. -/
theorem resolve?_afterCalls_of_isGlobal {calls : List TableCall}
    (stays : ∀ front, front <+: calls → (table.afterCalls front).IsGlobal name) :
    (table.afterCalls calls).resolve? name = table.resolve? name := by
  induction calls generalizing table with
  | nil => rfl
  | cons call calls inductionHypothesis =>
      have before : table.IsGlobal name := stays [] List.nil_prefix
      have after : (call.perform table).2.IsGlobal name :=
        stays [call] (List.prefix_append [call] calls)
      have later : ∀ front, front <+: calls →
          ((call.perform table).2.afterCalls front).IsGlobal name :=
        fun front inside => stays (call :: front) ((List.prefix_cons_inj call).mpr inside)
      exact (inductionHypothesis later).trans
        (call.resolve?_perform_of_isGlobal table before after)

/-- A name that was bound to a builtin is no global until it is bound as one. -/
theorem not_isGlobal_of_defineBuiltin {front back : List TableCall} {index : Nat}
    (undefined : .define name ∉ back) :
    ¬ (table.afterCalls (front ++ .defineBuiltin index name :: back)).IsGlobal name := by
  rw [afterCalls_append]
  generalize table.afterCalls front = table
  have start : ¬ (table.defineBuiltin index name).IsGlobal name := by
    rintro ⟨slot, resolved⟩
    rw [resolve?_defineBuiltin, if_pos rfl] at resolved
    cases resolved
  change ¬ ((table.defineBuiltin index name).afterCalls back).IsGlobal name
  generalize table.defineBuiltin index name = table at start
  induction back generalizing table with
  | nil => exact start
  | cons call back inductionHypothesis =>
      obtain ⟨different, later⟩ := List.ne_and_not_mem_of_not_mem_cons undefined
      refine inductionHypothesis later (call.perform table).2 ?_
      rintro ⟨slot, resolved⟩
      rw [TableCall.resolve?_perform] at resolved
      split at resolved
      · next binds =>
          cases call with
          | define own =>
              cases binds
              exact different rfl
          | defineBuiltin other own => cases resolved
          | resolve own => cases binds
      · exact start ⟨slot, resolved⟩

/-- A name that is no global is given a slot that no name had after any of the calls. -/
theorem Distinct.slot_unused (distinct : table.Distinct) {calls front : List TableCall}
    (earlier : front <+: calls) (unbound : ¬ (table.afterCalls calls).IsGlobal name)
    (other : String) :
    (table.afterCalls front).resolve? other ≠
      some ⟨.global, ((table.afterCalls calls).define name).1⟩ := by
  intro used
  have counted := (distinct.afterCalls front).slot_lt used
  rcases (table.afterCalls calls).define_cases name with ⟨slot, resolved, _⟩ | ⟨_, defined⟩
  · exact unbound ⟨slot, resolved⟩
  · rw [defined] at counted
    obtain ⟨back, rfl⟩ := earlier
    rw [afterCalls_append] at counted
    have grown := globalCount_le_afterCalls (table.afterCalls front) back
    exact absurd counted (Nat.not_lt_of_le grown)

/-- Slots are never shared. After any calls on a table with the builtins or with no names:
* No two global names have the same slot, and the slots are among those counted.
* A call counts one more slot if it binds a name as a global that is none, and otherwise
  it counts none.
* Binding a name as a global twice returns the same slot twice.
* A name keeps its slot as long as it stays a global.
* A name that is no global is given a slot that no name had after any of the calls. A name
  that was bound to a builtin is no global until it is bound as one again.
* A name stands for what the last call that bound it returned, and if none did, for what
  it stood for at first.
* A call changes nothing of the names that it does not bind. -/
theorem slots_never_shared (bare : Bool) (calls : List TableCall) :
    let start := initial bare
    let table := start.afterCalls calls
    table.Distinct ∧
      (∀ call : TableCall,
        ((call.perform table).2.globalCount = table.globalCount + 1 ↔
          call.OpensSlot table) ∧
        ((call.perform table).2.globalCount = table.globalCount ↔
          ¬ call.OpensSlot table)) ∧
      (∀ name, let first := (TableCall.define name).perform table
        (TableCall.define name).perform first.2 = first) ∧
      (∀ name slot later, table.resolve? name = some ⟨.global, slot⟩ →
        (∀ front, front <+: later → (table.afterCalls front).IsGlobal name) →
          (table.afterCalls later).resolve? name = some ⟨.global, slot⟩) ∧
      (∀ name, ¬ table.IsGlobal name →
        ∃ slot, ((TableCall.define name).perform table).1 = some ⟨.global, slot⟩ ∧
          ∀ front, front <+: calls → ∀ other,
            (start.afterCalls front).resolve? other ≠ some ⟨.global, slot⟩) ∧
      (∀ front index name back, calls = front ++ .defineBuiltin index name :: back →
        .define name ∉ back → ¬ table.IsGlobal name) ∧
      (∀ front call back name, calls = front ++ call :: back →
        call.bound? = some name → (∀ later ∈ back, later.bound? ≠ some name) →
          table.resolve? name = (call.perform (start.afterCalls front)).1) ∧
      (∀ name, (∀ call ∈ calls, call.bound? ≠ some name) →
        table.resolve? name = start.resolve? name) ∧
      ∀ (call : TableCall) (name : String), call.bound? ≠ some name →
        (call.perform table).2.resolve? name = table.resolve? name := by
  intro start table
  have distinct : start.Distinct := distinct_initial bare
  refine ⟨distinct.afterCalls calls, fun call => ?_, TableCall.perform_define_again table, ?_, ?_, ?_,
    ?_, fun name unbound => resolve?_afterCalls unbound, fun call name free => ?_⟩
  · rcases call.globalCount_perform table with ⟨opens, counted⟩ | ⟨closed, counted⟩
    · simp only [opens, counted, not_true_eq_false, Nat.succ_ne_self, and_self]
    · simp only [closed, counted, not_false_eq_true, (Nat.succ_ne_self _).symm, and_self]
  · intro name slot later resolved stays
    rw [resolve?_afterCalls_of_isGlobal stays, resolved]
  · intro name unbound
    exact ⟨_, rfl, fun front earlier => distinct.slot_unused earlier unbound⟩
  · rintro front index name back rfl undefined
    exact not_isGlobal_of_defineBuiltin undefined
  · rintro front call back name rfl binds last
    exact resolve?_afterCalls_of_last binds last
  · rw [call.resolve?_perform table name, if_neg free]

end SymbolTable

end ExprMachine
