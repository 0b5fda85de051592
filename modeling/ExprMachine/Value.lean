import ExprMachine.Word

/-!
# Values

Strings, arrays, errors and functions are built once and then shared: each
carries the cell that it was built in. Two such values are identical when they
come from the same cell, whatever they hold, and all other values are identical
when they are equal.
-/

namespace ExprMachine

/-- The number of a cell that a value was built in. -/
abbrev Cell := Nat

/-- A function that every program can call. -/
inductive Builtin where
  | len
  | first
  | last
  | rest
  | push
  | pop
  | print
  | stringJoin
deriving DecidableEq, Repr

namespace Builtin

def name : Builtin → String
  | len => "len"
  | first => "first"
  | last => "last"
  | rest => "rest"
  | push => "push"
  | pop => "pop"
  | print => "print"
  | stringJoin => "string_join"

def all : List Builtin :=
  [len, first, last, rest, push, pop, print, stringJoin]

def ofIndex? (index : Nat) : Option Builtin :=
  all[index]?

def ofName? (name : String) : Option Builtin :=
  all.find? fun builtin => builtin.name = name

end Builtin

/-- The kinds of values that messages tell apart. -/
inductive Kind where
  | integer
  | boolean
  | string
  | array
  | null
  | error
  | builtin
  | function
deriving DecidableEq, Repr

namespace Kind

def name : Kind → String
  | integer => "INTEGER"
  | boolean => "BOOLEAN"
  | string => "STRING"
  | array => "ARRAY"
  | null => "NULL"
  | error => "ERROR"
  | builtin => "BUILTIN"
  | function => "COMPILED_FUNCTION"

end Kind

/-- A value of the language. An error is a value like any other: builtins answer
with one when they are called in a wrong way. -/
inductive Value where
  | integer (value : Word)
  | boolean (value : Bool)
  | null
  | builtin (builtin : Builtin)
  | string (cell : Cell) (content : String)
  | array (cell : Cell) (items : List Value)
  | error (cell : Cell) (message : String)
  | function (cell : Cell) (code : List UInt8) (localCount : Nat)

namespace Value

instance : Inhabited Value := ⟨.null⟩

def kind : Value → Kind
  | integer _ => .integer
  | boolean _ => .boolean
  | null => .null
  | builtin _ => .builtin
  | string .. => .string
  | array .. => .array
  | error .. => .error
  | function .. => .function

def isError : Value → Bool
  | error .. => true
  | _ => false

/-- Whether two values are the same value: equal if they have no cell, and built
in the same cell otherwise. -/
def identical : Value → Value → Bool
  | integer left, integer right => left = right
  | boolean left, boolean right => left = right
  | null, null => true
  | builtin left, builtin right => left = right
  | string left _, string right _ => left = right
  | array left _, array right _ => left = right
  | error left _, error right _ => left = right
  | function left .., function right .. => left = right
  | _, _ => false

/-- Whether two values are equal: strings by their content, and all others by
identity. -/
def equal : Value → Value → Bool
  | string _ left, string _ right => left = right
  | left, right => left.identical right

/-! ## Text -/

mutual

def append : Value → String → String
  | integer value, done => done ++ value.text
  | boolean true, done => done ++ "true"
  | boolean false, done => done ++ "false"
  | null, done => done ++ "null"
  | builtin _, done => done ++ "builtin function"
  | string _ content, done => done ++ content
  | array _ [], done => done ++ "[]"
  | array _ (first :: items), done =>
      appendItems items (first.append (done ++ "[")) ++ "]"
  | error _ message, done => done ++ "ERROR: " ++ message
  | function .., done => done ++ "compiled function"

def appendItems : List Value → String → String
  | [], done => done
  | item :: items, done => appendItems items (item.append (done ++ ", "))

end

def text (value : Value) : String :=
  value.append ""

mutual

theorem append_eq (value : Value) (done : String) :
    value.append done = done ++ value.text := by
  cases value with
  | array cell items =>
      cases items with
      | nil => simp only [text, append, String.empty_append]
      | cons first items =>
          rw [text, append, append, append_eq first, append_eq first ("" ++ "["),
            appendItems_eq items, appendItems_eq items ("" ++ "[" ++ first.text)]
          simp only [String.empty_append, String.append_assoc]
  | boolean value => cases value <;> simp only [text, append, String.empty_append]
  | _ => simp only [text, append, String.empty_append, String.append_assoc]

theorem appendItems_eq (items : List Value) (done : String) :
    appendItems items done = done ++ appendItems items "" := by
  cases items with
  | nil => simp only [appendItems, String.append_empty]
  | cons item items =>
      rw [appendItems, appendItems, append_eq item, append_eq item ("" ++ ", "),
        appendItems_eq items, appendItems_eq items ("" ++ ", " ++ item.text)]
      simp only [String.empty_append, String.append_assoc]

end

end Value

end ExprMachine
