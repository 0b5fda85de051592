import ExprMachine.Compilation
import ExprMachine.Proofs.SymbolTable
import Mathlib.Data.String.Basic

/-!
# Renaming names

A renaming gives names new spellings, and different ones to different names. Programs,
errors and symbol tables are renamed throughout. A symbol table is looked up under the
new names as it was under the old ones, and holds no other names, so that defining a
name and renaming the table can change places.
-/

namespace ExprMachine

/-- New names for names. No two names are given the same one. -/
structure Renaming where
  apply : String → String
  injective : Function.Injective apply

/-- The builtins keep their names. As no two names are given the same one, no other name
becomes that of a builtin. -/
def Renaming.KeepsBuiltins (naming : Renaming) : Prop :=
  ∀ builtin : Builtin, naming.apply builtin.name = builtin.name

/-! ## Programs and errors -/

mutual

/-- The expression with new names, also in the statements inside it. -/
def Expr.rename (naming : Renaming) : Expr → Expr
  | .integer value => .integer value
  | .boolean value => .boolean value
  | .string content => .string content
  | .identifier name => .identifier (naming.apply name)
  | .unary operator operand => .unary operator (operand.rename naming)
  | .binary operator left right =>
      .binary operator (left.rename naming) (right.rename naming)
  | .array items => .array (Expr.renameAll naming items)
  | .call callee arguments =>
      .call (callee.rename naming) (Expr.renameAll naming arguments)
  | .index collection position =>
      .index (collection.rename naming) (position.rename naming)
  | .conditional condition consequence none =>
      .conditional (condition.rename naming) (Stmt.renameAll naming consequence) none
  | .conditional condition consequence (some alternative) =>
      .conditional (condition.rename naming) (Stmt.renameAll naming consequence)
        (some (Stmt.renameAll naming alternative))

def Expr.renameAll (naming : Renaming) : List Expr → List Expr
  | [] => []
  | item :: items => item.rename naming :: Expr.renameAll naming items

/-- The statement with new names, in its old place. -/
def Stmt.rename (naming : Renaming) : Stmt → Stmt
  | .binding name value span =>
      .binding (naming.apply name) (value.rename naming) span
  | .expression value span => .expression (value.rename naming) span

def Stmt.renameAll (naming : Renaming) : List Stmt → List Stmt
  | [] => []
  | stmt :: stmts => stmt.rename naming :: Stmt.renameAll naming stmts

end

def Program.rename (naming : Renaming) (program : Program) : Program :=
  Stmt.renameAll naming program

/-- The cause with a new name for the variable that it reports, if it reports one. -/
def CompileError.Cause.rename (naming : Renaming) :
    CompileError.Cause → CompileError.Cause
  | .undefinedVariable name => .undefinedVariable (naming.apply name)
  | .unsupported shape => .unsupported shape
  | .unknownOperator operator => .unknownOperator operator
  | .tooManyConstants => .tooManyConstants
  | .tooMany what count => .tooMany what count

def CompileError.rename (naming : Renaming) (error : CompileError) : CompileError :=
  { error with cause := error.cause.rename naming }

/-! ## Symbol tables -/

namespace SymbolTable

variable {naming : Renaming}

/-- The bindings of names, under their new names. -/
def renameNames (naming : Renaming) (names : Std.DHashMap String fun _ => Binding) :
    Std.ExtHashMap String Binding :=
  .ofList <| (Std.DHashMap.Const.toList names).map fun (name, binding) =>
    (naming.apply name, binding)

theorem getElem?_renameNames (names : Std.DHashMap String fun _ => Binding) (name : String) :
    (renameNames naming names)[naming.apply name]? =
      Std.DHashMap.Const.get? names name := by
  cases found : Std.DHashMap.Const.get? names name with
  | some binding =>
      refine Std.ExtHashMap.getElem?_ofList_of_mem (beq_self_eq_true _) ?_ ?_
      · have distinct := Std.DHashMap.Const.distinct_keys_toList (m := names)
        refine List.pairwise_map.mpr (distinct.imp fun different => ?_)
        simp only [beq_eq_false_iff_ne] at different ⊢
        exact fun same => different (naming.injective same)
      · have member := Std.DHashMap.Const.mem_toList_iff_get?_eq_some.mpr found
        exact List.mem_map_of_mem member
  | none =>
      refine Std.ExtHashMap.getElem?_ofList_of_contains_eq_false ?_
      rw [Bool.eq_false_iff, ne_eq, List.contains_iff_mem, List.map_map, List.mem_map]
      rintro ⟨⟨other, binding⟩, member, same⟩
      obtain rfl : other = name := naming.injective same
      rw [Std.DHashMap.Const.mem_toList_iff_get?_eq_some, found] at member
      cases member

theorem getElem?_renameNames_of_unused (names : Std.DHashMap String fun _ => Binding)
    {name : String} (unused : ∀ original, naming.apply original ≠ name) :
    (renameNames naming names)[name]? = none := by
  refine Std.ExtHashMap.getElem?_ofList_of_contains_eq_false ?_
  rw [Bool.eq_false_iff, ne_eq, List.contains_iff_mem, List.map_map, List.mem_map]
  rintro ⟨⟨original, binding⟩, _, same⟩
  exact unused original same

/-- Bindings are told by what they hold for new names and for names that are new for none. -/
theorem eq_of_renamed (naming : Renaming) {first second : Std.ExtHashMap String Binding}
    (kept : ∀ name : String, first[naming.apply name]? = second[naming.apply name]?)
    (others : ∀ name : String, (∀ original, naming.apply original ≠ name) →
      first[name]? = second[name]?) :
    first = second := by
  refine Std.ExtHashMap.ext_getElem? fun name => ?_
  by_cases used : ∃ original, naming.apply original = name
  · obtain ⟨original, rfl⟩ := used
    exact kept original
  · exact others name (not_exists.mp used)

/-- The order in which the names are kept plays no part in renaming them. -/
theorem renameNames_congr {names others : Std.DHashMap String fun _ => Binding}
    (same : names.Equiv others) :
    renameNames naming names = renameNames naming others := by
  refine eq_of_renamed naming (fun name => ?_) (fun name unused => ?_)
  · rw [getElem?_renameNames, getElem?_renameNames, same.constGet?_eq]
  · rw [getElem?_renameNames_of_unused names unused,
      getElem?_renameNames_of_unused others unused]

/-- The table with new names, which stand for what the old ones stood for. -/
def rename (naming : Renaming) (symbols : SymbolTable) : SymbolTable where
  bindings := symbols.bindings.inner.lift (renameNames naming) fun _ _ => renameNames_congr
  globalCount := symbols.globalCount

/-- A name stands for the same under its new name. -/
theorem resolve?_rename (symbols : SymbolTable) (name : String) :
    (symbols.rename naming).resolve? (naming.apply name) = symbols.resolve? name := by
  obtain ⟨⟨bindings⟩, globalCount⟩ := symbols
  induction bindings with
  | mk names => exact getElem?_renameNames names name

/-- A name that is new for no name stands for nothing. -/
theorem resolve?_rename_of_unused (symbols : SymbolTable) {name : String}
    (unused : ∀ original, naming.apply original ≠ name) :
    (symbols.rename naming).resolve? name = none := by
  obtain ⟨⟨bindings⟩, globalCount⟩ := symbols
  induction bindings with
  | mk names => exact getElem?_renameNames_of_unused names unused

/-- What the new names stand for and the number of slots tell what the renamed table is. -/
theorem eq_rename {symbols renamed : SymbolTable}
    (kept : ∀ name, renamed.resolve? (naming.apply name) = symbols.resolve? name)
    (none : ∀ name, (∀ original, naming.apply original ≠ name) →
      renamed.resolve? name = none)
    (count : renamed.globalCount = symbols.globalCount) :
    renamed = symbols.rename naming := by
  have bindings : renamed.bindings = (symbols.rename naming).bindings := by
    refine eq_of_renamed naming (fun name => ?_) (fun name unused => ?_)
    · exact (kept name).trans (symbols.resolve?_rename name).symm
    · exact (none name unused).trans (symbols.resolve?_rename_of_unused unused).symm
  cases renamed
  cases bindings
  cases count
  rfl

theorem rename_bindFresh (symbols : SymbolTable) (name : String) :
    (symbols.rename naming).bindFresh (naming.apply name) =
      (symbols.bindFresh name).rename naming := by
  refine eq_rename (fun other => ?_) (fun other unused => ?_) rfl
  · simp only [resolve?_bindFresh, naming.injective.eq_iff, resolve?_rename]
    rfl
  · rw [resolve?_bindFresh, if_neg (unused name), resolve?_rename_of_unused symbols unused]

/-- A name is given the slot under its new name that it had been given under its old one. -/
theorem define_rename (symbols : SymbolTable) (name : String) :
    (symbols.rename naming).define (naming.apply name) =
      ((symbols.define name).1, (symbols.define name).2.rename naming) := by
  unfold define
  rw [resolve?_rename, rename_bindFresh]
  split <;> rfl

theorem exists_builtin_of_withBuiltins {name : String} {binding : Binding}
    (resolved : withBuiltins.resolve? name = some binding) :
    ∃ builtin : Builtin, builtin.name = name := by
  obtain ⟨builtin, _, named⟩ :=
    Option.map_eq_some_iff.mp (builtin_of_withBuiltins resolved).2
  exact ⟨builtin, named⟩

/-- The table of the builtins has no names but theirs. -/
theorem rename_withBuiltins (keeps : naming.KeepsBuiltins) :
    withBuiltins.rename naming = withBuiltins := by
  refine (eq_rename (fun name => ?_) (fun name unused => ?_) rfl).symm
  · by_cases isBuiltin : ∃ builtin : Builtin, builtin.name = name
    · obtain ⟨builtin, rfl⟩ := isBuiltin
      rw [keeps builtin]
    · have noBuiltin : ¬ ∃ builtin : Builtin, builtin.name = naming.apply name := by
        rintro ⟨builtin, same⟩
        rw [← keeps builtin] at same
        exact isBuiltin ⟨builtin, naming.injective same⟩
      have unbound {other : String} (none : ¬ ∃ builtin : Builtin, builtin.name = other) :
          withBuiltins.resolve? other = Option.none :=
        Option.eq_none_iff_forall_ne_some.mpr fun _ resolved =>
          none (exists_builtin_of_withBuiltins resolved)
      rw [unbound isBuiltin, unbound noBuiltin]
  · refine Option.eq_none_iff_forall_ne_some.mpr fun _ resolved => ?_
    obtain ⟨builtin, rfl⟩ := exists_builtin_of_withBuiltins resolved
    exact unused _ (keeps builtin)

end SymbolTable

end ExprMachine
