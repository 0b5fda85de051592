import ExprMachine.Compilation
import ExprMachine.Proofs.Evaluation
import ExprMachine.Proofs.Machine.Stack
import Mathlib.Logic.ExistsUnique

/-!
# Symbol tables and what names stand for

A symbol table and the values of the globals say together what each name stands
for. In a well-formed table no two names share a slot, so that storing a value in
the slot of a name changes what this name stands for and no other. Which slot a name has
after others have been bound is told by the order in which they were.
-/

namespace ExprMachine

theorem Builtin.index_lt {index : Nat} {name : String}
    (named : (Builtin.ofIndex? index).map Builtin.name = some name) :
    index < Builtin.all.length := by
  obtain ⟨builtin, found, _⟩ := Option.map_eq_some_iff.mp named
  exact (List.getElem?_eq_some_iff.mp found).1

namespace SymbolTable

/-- Operands can number all slots and builtins of the table. -/
structure Addressable (symbols : SymbolTable) : Prop where
  slot_lt : ∀ {name slot}, symbols.resolve? name = some ⟨.global, slot⟩ →
    slot < Limited.globals.limit
  index_lt : ∀ {name index}, symbols.resolve? name = some ⟨.builtin, index⟩ →
    index < Builtin.all.length

/-- Each global name has a slot of its own among those handed out. -/
structure Distinct (symbols : SymbolTable) : Prop where
  slot_lt : ∀ {name slot}, symbols.resolve? name = some ⟨.global, slot⟩ →
    slot < symbols.globalCount
  slot_injective : ∀ {name other slot},
    symbols.resolve? name = some ⟨.global, slot⟩ →
      symbols.resolve? other = some ⟨.global, slot⟩ → name = other

/-- Each global name has a slot of its own among those handed out, operands can
number the slots, and each builtin name has the index of a builtin. -/
structure WellFormed (symbols : SymbolTable) : Prop where
  slot_lt_globalCount : ∀ {name slot},
    symbols.resolve? name = some ⟨.global, slot⟩ → slot < symbols.globalCount
  slot_injective : ∀ {name other slot},
    symbols.resolve? name = some ⟨.global, slot⟩ →
      symbols.resolve? other = some ⟨.global, slot⟩ → name = other
  globalCount_le : symbols.globalCount ≤ Limited.globals.limit
  index_lt : ∀ {name index}, symbols.resolve? name = some ⟨.builtin, index⟩ →
    index < Builtin.all.length

theorem WellFormed.distinct {symbols : SymbolTable} (wellFormed : symbols.WellFormed) :
    symbols.Distinct :=
  ⟨wellFormed.slot_lt_globalCount, wellFormed.slot_injective⟩

theorem WellFormed.addressable {symbols : SymbolTable}
    (wellFormed : symbols.WellFormed) : symbols.Addressable where
  slot_lt := fun resolved =>
    Nat.lt_of_lt_of_le (wellFormed.slot_lt_globalCount resolved)
      wellFormed.globalCount_le
  index_lt := wellFormed.index_lt

/-! ## Names after a definition -/

theorem resolve?_bindFresh (symbols : SymbolTable) (name other : String) :
    (symbols.bindFresh name).resolve? other =
      if name = other then some ⟨.global, symbols.globalCount⟩
      else symbols.resolve? other := by
  rw [resolve?, bindFresh, Std.ExtHashMap.getElem?_insert]
  simp only [beq_iff_eq]
  rfl

theorem resolve?_defineBuiltin (symbols : SymbolTable) (index : Nat)
    (name other : String) :
    (symbols.defineBuiltin index name).resolve? other =
      if name = other then some ⟨.builtin, index⟩ else symbols.resolve? other := by
  rw [resolve?, defineBuiltin, Std.ExtHashMap.getElem?_insert]
  simp only [beq_iff_eq]
  rfl

/-- A definition either finds the slot of the name or hands out the next one. -/
theorem define_cases (symbols : SymbolTable) (name : String) :
    (∃ slot, symbols.resolve? name = some ⟨.global, slot⟩ ∧
      symbols.define name = (slot, symbols)) ∨
    (∀ slot, symbols.resolve? name ≠ some ⟨.global, slot⟩) ∧
      symbols.define name = (symbols.globalCount, symbols.bindFresh name) := by
  unfold define
  split
  · next slot resolved => exact Or.inl ⟨slot, resolved, rfl⟩
  · next noGlobal => exact Or.inr ⟨noGlobal, rfl⟩

/-- A definition concerns its own name alone. -/
theorem resolve?_define (symbols : SymbolTable) (name other : String) :
    (symbols.define name).2.resolve? other =
      if name = other then some ⟨.global, (symbols.define name).1⟩
      else symbols.resolve? other := by
  rcases symbols.define_cases name with ⟨slot, resolved, defined⟩ | ⟨_, defined⟩
  · rw [defined]
    split
    · next same => rw [← same, resolved]
    · rfl
  · rw [defined, resolve?_bindFresh]

theorem Addressable.define {symbols : SymbolTable} (addressable : symbols.Addressable)
    {name : String} (fits : (symbols.define name).1 < Limited.globals.limit) :
    (symbols.define name).2.Addressable where
  slot_lt := by
    intro other slot resolved
    rw [resolve?_define] at resolved
    split at resolved
    · cases resolved
      exact fits
    · exact addressable.slot_lt resolved
  index_lt := by
    intro other index resolved
    rw [resolve?_define] at resolved
    split at resolved
    · cases resolved
    · exact addressable.index_lt resolved

theorem Distinct.slot_ne {symbols : SymbolTable} (distinct : symbols.Distinct)
    {name other : String} (different : name ≠ other) {slot : Nat}
    (resolved : symbols.resolve? other = some ⟨.global, slot⟩) :
    (symbols.define name).1 ≠ slot := by
  rcases symbols.define_cases name with ⟨own, found, defined⟩ | ⟨_, defined⟩
  · rw [defined]
    intro same
    change own = slot at same
    subst same
    exact different (distinct.slot_injective found resolved)
  · rw [defined]
    exact (Nat.ne_of_lt (distinct.slot_lt resolved)).symm

theorem Distinct.define {symbols : SymbolTable} (distinct : symbols.Distinct)
    (name : String) : (symbols.define name).2.Distinct where
  slot_lt := by
    intro other slot resolved
    rcases symbols.define_cases name with ⟨own, _, defined⟩ | ⟨_, defined⟩
    · rw [defined] at resolved ⊢
      exact distinct.slot_lt resolved
    · rw [defined, resolve?_bindFresh] at resolved
      rw [defined]
      change slot < symbols.globalCount + 1
      split at resolved
      · cases resolved
        exact Nat.lt_succ_self _
      · exact Nat.lt_succ_of_lt (distinct.slot_lt resolved)
  slot_injective := by
    intro first second slot firstResolved secondResolved
    rw [resolve?_define] at firstResolved secondResolved
    split at firstResolved
    · next firstSame =>
        cases firstResolved
        split at secondResolved
        · next secondSame => rw [← firstSame, secondSame]
        · next different => exact absurd rfl (distinct.slot_ne different secondResolved)
    · next different =>
        split at secondResolved
        · cases secondResolved
          exact absurd rfl (distinct.slot_ne different firstResolved)
        · exact distinct.slot_injective firstResolved secondResolved

theorem WellFormed.define {symbols : SymbolTable} (wellFormed : symbols.WellFormed)
    {name : String} (fits : (symbols.define name).1 < Limited.globals.limit) :
    (symbols.define name).2.WellFormed where
  slot_lt_globalCount := (wellFormed.distinct.define name).slot_lt
  slot_injective := (wellFormed.distinct.define name).slot_injective
  globalCount_le := by
    rcases symbols.define_cases name with ⟨_, _, defined⟩ | ⟨_, defined⟩
    · rw [defined]
      exact wellFormed.globalCount_le
    · rw [defined] at fits ⊢
      exact fits
  index_lt := (wellFormed.addressable.define fits).index_lt

/-- At the beginning, every name is that of a builtin and has its index. -/
theorem builtin_of_withBuiltins {name : String} {binding : Binding}
    (resolved : withBuiltins.resolve? name = some binding) :
    binding.scope = .builtin ∧
      (Builtin.ofIndex? binding.index).map Builtin.name = some name := by
  simp only [withBuiltins, Builtin.all, List.zipIdx_cons, List.zipIdx_nil,
    List.foldl_cons, List.foldl_nil, resolve?_defineBuiltin] at resolved
  repeat' split at resolved
  all_goals first
    | next same =>
        cases resolved
        rw [← same]
        exact ⟨rfl, rfl⟩
    | simp [resolve?, empty] at resolved

theorem wellFormed_withBuiltins : withBuiltins.WellFormed where
  slot_lt_globalCount := fun resolved => nomatch (builtin_of_withBuiltins resolved).1
  slot_injective := fun resolved => nomatch (builtin_of_withBuiltins resolved).1
  globalCount_le := Nat.zero_le _
  index_lt := fun resolved => Builtin.index_lt (builtin_of_withBuiltins resolved).2

/-- A table that nothing was bound in yet: it has the builtins, or no names at all. -/
def initial (bare : Bool) : SymbolTable :=
  if bare then .empty else .withBuiltins

theorem builtin_of_initial {bare : Bool} {name : String} {binding : Binding}
    (resolved : (initial bare).resolve? name = some binding) :
    binding.scope = .builtin ∧ binding.index < Builtin.all.length := by
  cases bare with
  | false =>
      obtain ⟨scope, named⟩ := builtin_of_withBuiltins resolved
      exact ⟨scope, Builtin.index_lt named⟩
  | true => simp [initial, resolve?, empty] at resolved

/-! ## Numbered names -/

/-- The global names are numbered by the slots handed out, and each builtin name has
the index of its builtin. -/
structure Numbered (symbols : SymbolTable) : Prop where
  slot_lt : ∀ {name slot}, symbols.resolve? name = some ⟨.global, slot⟩ →
    slot < symbols.globalCount
  exists_unique : ∀ {slot}, slot < symbols.globalCount →
    ∃! name, symbols.resolve? name = some ⟨.global, slot⟩
  named : ∀ {name index}, symbols.resolve? name = some ⟨.builtin, index⟩ →
    (Builtin.ofIndex? index).map Builtin.name = some name

theorem Numbered.bindFresh {symbols : SymbolTable} (numbered : symbols.Numbered)
    {name : String} (unbound : ∀ slot, symbols.resolve? name ≠ some ⟨.global, slot⟩) :
    (symbols.bindFresh name).Numbered where
  slot_lt := by
    intro other slot resolved
    rw [resolve?_bindFresh] at resolved
    split at resolved
    · cases resolved
      exact Nat.lt_succ_self _
    · exact Nat.lt_succ_of_lt (numbered.slot_lt resolved)
  exists_unique := by
    intro slot inside
    rcases Nat.lt_succ_iff_lt_or_eq.mp inside with before | rfl
    · obtain ⟨owner, owned, unique⟩ := numbered.exists_unique before
      have different : name ≠ owner := by
        rintro rfl
        exact unbound slot owned
      refine ⟨owner, ?_, fun other resolved => ?_⟩
      · simp only [resolve?_bindFresh, if_neg different, owned]
      · simp only [resolve?_bindFresh] at resolved
        split at resolved
        · cases resolved
          exact absurd before (Nat.lt_irrefl _)
        · exact unique other resolved
    · refine ⟨name, ?_, fun other resolved => ?_⟩
      · simp only [resolve?_bindFresh, if_true]
      · simp only [resolve?_bindFresh] at resolved
        split at resolved
        · next same => exact same.symm
        · exact absurd (numbered.slot_lt resolved) (Nat.lt_irrefl _)
  named := by
    intro other index resolved
    rw [resolve?_bindFresh] at resolved
    split at resolved
    · cases resolved
    · exact numbered.named resolved

theorem Numbered.define {symbols : SymbolTable} (numbered : symbols.Numbered)
    (name : String) : (symbols.define name).2.Numbered := by
  rcases symbols.define_cases name with ⟨_, _, defined⟩ | ⟨unbound, defined⟩
  · rw [defined]
    exact numbered
  · rw [defined]
    exact numbered.bindFresh unbound

/-- A definition hands out the next slot, or none. -/
theorem Numbered.globalCount_define {symbols : SymbolTable}
    (numbered : symbols.Numbered) (name : String) :
    (symbols.define name).2.globalCount =
      max symbols.globalCount ((symbols.define name).1 + 1) := by
  rcases symbols.define_cases name with ⟨slot, resolved, defined⟩ | ⟨_, defined⟩
  · rw [defined]
    exact (Nat.max_eq_left (numbered.slot_lt resolved)).symm
  · rw [defined]
    exact (Nat.max_eq_right (Nat.le_succ _)).symm

theorem numbered_withBuiltins : withBuiltins.Numbered where
  slot_lt := fun resolved => nomatch (builtin_of_withBuiltins resolved).1
  exists_unique := fun impossible => absurd impossible (Nat.not_lt_zero _)
  named := fun resolved => (builtin_of_withBuiltins resolved).2

/-! ## Names in order -/

/-- The name is given a slot when it is bound. -/
def isNew (symbols : SymbolTable) (name : String) : Bool :=
  match symbols.resolve? name with
  | some ⟨.global, _⟩ => false
  | _ => true

/-- The names that are given new slots when the given names are bound in this order. -/
def newNames (symbols : SymbolTable) (names : List String) : List String :=
  (names.filter symbols.isNew).eraseDups

/-- The slot of a name after the given names have been bound in this order. -/
def slot (symbols : SymbolTable) (names : List String) (name : String) : Nat :=
  match symbols.resolve? name with
  | some ⟨.global, slot⟩ => slot
  | _ => symbols.globalCount + (symbols.newNames names).idxOf name

theorem isNew_eq_false {symbols : SymbolTable} {name : String} {slot : Nat}
    (resolved : symbols.resolve? name = some ⟨.global, slot⟩) :
    symbols.isNew name = false := by
  rw [isNew, resolved]

theorem isNew_eq_true {symbols : SymbolTable} {name : String}
    (noGlobal : ∀ slot, symbols.resolve? name ≠ some ⟨.global, slot⟩) :
    symbols.isNew name = true := by
  unfold isNew
  split
  · next slot resolved => exact absurd resolved (noGlobal slot)
  · rfl

theorem isNew_bindFresh (symbols : SymbolTable) (name other : String) :
    (symbols.bindFresh name).isNew other = (symbols.isNew other && !(other == name)) := by
  by_cases same : name = other
  · rw [same, isNew, resolve?_bindFresh, if_pos rfl, beq_self_eq_true, Bool.not_true,
      Bool.and_false]
  · rw [isNew, resolve?_bindFresh, if_neg same, isNew, beq_false_of_ne (Ne.symm same),
      Bool.not_false, Bool.and_true]

theorem newNames_cons_of_global {symbols : SymbolTable} {name : String} {slot : Nat}
    (resolved : symbols.resolve? name = some ⟨.global, slot⟩) (names : List String) :
    symbols.newNames (name :: names) = symbols.newNames names := by
  rw [newNames, List.filter_cons_of_neg (Bool.eq_false_iff.mp (isNew_eq_false resolved)),
    newNames]

theorem newNames_cons_of_new {symbols : SymbolTable} {name : String}
    (noGlobal : ∀ slot, symbols.resolve? name ≠ some ⟨.global, slot⟩)
    (names : List String) :
    symbols.newNames (name :: names) =
      name :: (symbols.bindFresh name).newNames names := by
  have later : (symbols.bindFresh name).isNew =
      fun other => symbols.isNew other && !(other == name) :=
    funext (symbols.isNew_bindFresh name)
  rw [newNames, List.filter_cons_of_pos (isNew_eq_true noGlobal), List.eraseDups_cons,
    List.filter_filter, newNames, later]
  simp only [Bool.and_comm]

theorem slot_of_global {symbols : SymbolTable} {name : String} {slot : Nat}
    (resolved : symbols.resolve? name = some ⟨.global, slot⟩) (names : List String) :
    symbols.slot names name = slot := by
  rw [SymbolTable.slot, resolved]

theorem slot_of_new {symbols : SymbolTable} {name : String}
    (noGlobal : ∀ slot, symbols.resolve? name ≠ some ⟨.global, slot⟩)
    (names : List String) : symbols.slot names name =
      symbols.globalCount + (symbols.newNames names).idxOf name := by
  unfold slot
  split
  · next slot resolved => exact absurd resolved (noGlobal slot)
  · rfl

/-- A name that is bound has the slot that binding it returns. -/
theorem slot_cons_self (symbols : SymbolTable) (names : List String) (name : String) :
    symbols.slot (name :: names) name = (symbols.define name).1 := by
  rcases symbols.define_cases name with ⟨slot, resolved, defined⟩ | ⟨noGlobal, defined⟩
  · rw [defined, slot_of_global resolved]
  · rw [defined, slot_of_new noGlobal, newNames_cons_of_new noGlobal,
      List.idxOf_cons_self]
    rfl

/-- Names that are bound later are given the slots after it. -/
theorem slot_define (symbols : SymbolTable) (names : List String) (name other : String) :
    (symbols.define name).2.slot names other = symbols.slot (name :: names) other := by
  rcases symbols.define_cases name with ⟨slot, resolved, defined⟩ | ⟨noGlobal, defined⟩
  · rw [defined, SymbolTable.slot, SymbolTable.slot, newNames_cons_of_global resolved]
  · have found := symbols.resolve?_bindFresh name other
    rw [defined]
    by_cases same : name = other
    · subst same
      rw [if_pos rfl] at found
      rw [slot_of_global found, slot_cons_self, defined]
    · rw [if_neg same] at found
      rw [SymbolTable.slot, SymbolTable.slot, found, newNames_cons_of_new noGlobal,
        List.idxOf_cons, beq_false_of_ne same, cond_false]
      split
      · rfl
      · exact Nat.add_right_comm ..

/-! ## What names stand for -/

/-- What names stand for when the globals have the given values. Slots that are
missing hold null. -/
def valuation (symbols : SymbolTable) (globals : Array Value) : Valuation :=
  fun name =>
    match symbols.resolve? name with
    | some ⟨.global, slot⟩ => some (globals[slot]?.getD .null)
    | some ⟨.builtin, index⟩ => (Builtin.ofIndex? index).map .builtin
    | none => none

end SymbolTable

namespace Machine

/-- Storing a value fills its slot and leaves all other slots as they were. -/
theorem getD_store (globals : Array Value) (slot other : Nat) (value : Value) :
    (store globals slot value)[other]?.getD .null =
      if slot = other then value else globals[other]?.getD .null := by
  unfold store
  by_cases same : slot = other
  · subst same
    rw [Array.getElem?_setIfInBounds_self, if_pos (by simp; omega), if_pos rfl]
    rfl
  · rw [Array.getElem?_setIfInBounds_ne same, if_neg same, Array.getElem?_append]
    split
    · rfl
    · next outside =>
        rw [Array.getElem?_eq_none (Nat.le_of_not_lt outside),
          Array.getElem?_replicate]
        split <;> rfl

end Machine

/-- Storing a value in the slot of a name is letting the name stand for it. -/
theorem SymbolTable.WellFormed.valuation_store {symbols : SymbolTable}
    (wellFormed : symbols.WellFormed) (globals : Array Value) (name : String)
    (value : Value) :
    (symbols.define name).2.valuation
        (Machine.store globals (symbols.define name).1 value) =
      (symbols.valuation globals).bind name value := by
  funext other
  simp only [valuation, Valuation.bind, resolve?_define]
  by_cases same : name = other
  · rw [if_pos same, if_pos same.symm]
    simp only [Machine.getD_store, if_true]
  · rw [if_neg same, if_neg (Ne.symm same)]
    cases resolved : symbols.resolve? other with
    | none => rfl
    | some binding =>
        obtain ⟨scope, index⟩ := binding
        cases scope with
        | builtin => rfl
        | global =>
            have apart := wellFormed.distinct.slot_ne same resolved
            simp only [Machine.getD_store, if_neg apart]

end ExprMachine
