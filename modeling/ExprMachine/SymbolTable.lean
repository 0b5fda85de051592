import ExprMachine.Builtin
import Std.Data.ExtHashMap

/-!
# Symbol tables

A symbol table says what each name stands for: the slot of a global, or the
index of a builtin. Slots are handed out in order and never handed out again.
-/

namespace ExprMachine

/-- Where the value of a name is kept. -/
inductive Scope where
  | global
  | builtin
deriving DecidableEq, Repr

/-- What a name stands for: a slot of the globals or the index of a builtin. -/
structure Binding where
  scope : Scope
  index : Nat
deriving DecidableEq, Repr

/-- The names in use, and the number of slots handed out. -/
structure SymbolTable where
  bindings : Std.ExtHashMap String Binding
  globalCount : Nat

namespace SymbolTable

def empty : SymbolTable :=
  ⟨∅, 0⟩

def resolve? (table : SymbolTable) (name : String) : Option Binding :=
  table.bindings[name]?

def defineBuiltin (table : SymbolTable) (index : Nat) (name : String) :
    SymbolTable :=
  { table with bindings := table.bindings.insert name ⟨.builtin, index⟩ }

def bindFresh (table : SymbolTable) (name : String) : SymbolTable :=
  { bindings := table.bindings.insert name ⟨.global, table.globalCount⟩
    globalCount := table.globalCount + 1 }

/-- The slot of a global name and the table in which it has this slot. A name
that is no global yet is given the next slot, even if it names a builtin. -/
def define (table : SymbolTable) (name : String) : Nat × SymbolTable :=
  match table.resolve? name with
  | some ⟨.global, slot⟩ => (slot, table)
  | _ => (table.globalCount, table.bindFresh name)

def withBuiltins : SymbolTable :=
  Builtin.all.zipIdx.foldl
    (fun table (builtin, index) => table.defineBuiltin index builtin.name) empty

end SymbolTable

end ExprMachine
