import ExprMachine.Value

/-!
# Builtins

`Builtin.answer` says what a builtin answers to its arguments: a value that was
there before, or the content of one that is to be built. `Builtin.call` builds
it in a fresh cell. A builtin never fails: when it is called in a wrong way, its
answer is an error value.
-/

namespace ExprMachine

/-- How a builtin can be called in a wrong way. -/
inductive Misuse where
  | wrongArgumentCount (got want : Nat)
  | expectedArray (slot : Nat) (builtin : Builtin) (got : Kind)
  | withoutLength (got : Kind)
  | expectedSeparator (got : Kind)
  | expectedStrings (got : Kind)
deriving DecidableEq, Repr

namespace Misuse

def message : Misuse → String
  | wrongArgumentCount got want =>
      "wrong number of arguments. got=" ++ toString got ++ ", want=" ++ toString want
  | expectedArray slot builtin got =>
      "argument[" ++ toString slot ++ "] to `" ++ builtin.name ++
        "` must be ARRAY, got " ++ got.name
  | withoutLength got =>
      "argument to `len` not supported, got " ++ got.name
  | expectedSeparator got =>
      "argument[1] to `string_join` must be STRING, got " ++ got.name
  | expectedStrings got =>
      "argument[0] to `string_join` must contain only STRING, got " ++ got.name

end Misuse

/-- What a builtin answers: a value, what a new value is to hold, or lines that
are printed before the answer null. -/
inductive Answer where
  | value (given : Value)
  | string (content : String)
  | array (items : List Value)
  | misuse (cause : Misuse)
  | printed (lines : String)

namespace Builtin

/-- The answer to one argument that has to be an array. -/
def onArray (builtin : Builtin) (argument : Value) (answer : List Value → Answer) :
    Answer :=
  match argument with
  | .array _ items => answer items
  | other => .misuse (.expectedArray 0 builtin other.kind)

/-- The length of an array, or the number of bytes of a string. -/
def lengthOf : Value → Answer
  | .array _ items => .value (.integer (Int64.ofNat items.length))
  | .string _ content => .value (.integer (Int64.ofNat content.utf8ByteSize))
  | other => .misuse (.withoutLength other.kind)

/-- An array without its first item, or null if there is none. -/
def restOf : List Value → Answer
  | [] => .value .null
  | _ :: items => .array items

/-- An array without its last item, or null if nothing is left. -/
def popOf (items : List Value) : Answer :=
  if 1 < items.length then .array items.dropLast else .value .null

def content? : Value → Except Misuse String
  | .string _ content => .ok content
  | other => .error (.expectedStrings other.kind)

/-- The strings of an array with a separator between each two of them, or null
if there are none. -/
def join (items : List Value) (separator : String) : Answer :=
  if items.isEmpty then
    .value .null
  else
    match items.mapM content? with
    | .ok parts => .string (separator.intercalate parts)
    | .error misuse => .misuse misuse

/-- The answer of `string_join`, which looks at the array before the separator. -/
def joinWith (items : List Value) : Value → Answer
  | .string _ separator => join items separator
  | other => .misuse (.expectedSeparator other.kind)

def linesOf (arguments : List Value) : String :=
  arguments.foldl (fun lines argument => (argument.append lines).push '\n') ""

/-- The number of arguments that a builtin takes, if it is fixed. -/
def arity? : Builtin → Option Nat
  | len | first | last | rest | pop => some 1
  | push | stringJoin => some 2
  | print => none

def answer (builtin : Builtin) (arguments : List Value) : Answer :=
  match builtin, arguments with
  | len, [argument] => lengthOf argument
  | first, [argument] =>
      builtin.onArray argument fun items => .value (items.head?.getD .null)
  | last, [argument] =>
      builtin.onArray argument fun items => .value (items.getLast?.getD .null)
  | rest, [argument] => builtin.onArray argument restOf
  | pop, [argument] => builtin.onArray argument popOf
  | push, [argument, item] =>
      builtin.onArray argument fun items => .array (items ++ [item])
  | stringJoin, [argument, separator] =>
      builtin.onArray argument fun items => joinWith items separator
  | print, _ => .printed (linesOf arguments)
  | _, _ =>
      .misuse (.wrongArgumentCount arguments.length (builtin.arity?.getD 0))

end Builtin

/-- The outcome of a call: its value, what it printed, and the first cell that
is still fresh. -/
structure CallOutcome where
  value : Value
  printed : String
  fresh : Cell

namespace Answer

/-- Builds what an answer describes in the given fresh cell. -/
def build (fresh : Cell) : Answer → CallOutcome
  | .value given => ⟨given, "", fresh⟩
  | .string content => ⟨.string fresh content, "", fresh + 1⟩
  | .array items => ⟨.array fresh items, "", fresh + 1⟩
  | .misuse cause => ⟨.error fresh cause.message, "", fresh + 1⟩
  | .printed lines => ⟨.null, lines, fresh⟩

end Answer

/-- Calls a builtin. Cells from the given one on are fresh. -/
def Builtin.call (builtin : Builtin) (arguments : List Value) (fresh : Cell) :
    CallOutcome :=
  (builtin.answer arguments).build fresh

end ExprMachine
