/-!
# Integers of the language

The integers of the language are the signed 64-bit words. An operation whose
exact result is not such a word has no result: nothing wraps around.
-/

namespace ExprMachine

/-- A signed 64-bit integer. -/
abbrev Word := Int64

namespace Word

/-- The word with the given value, if there is one. -/
def ofInt? (value : Int) : Option Word :=
  if Int64.minValue.toInt ≤ value ∧ value ≤ Int64.maxValue.toInt then
    some (Int64.ofInt value)
  else
    none

def add? (left right : Word) : Option Word :=
  ofInt? (left.toInt + right.toInt)

def subtract? (left right : Word) : Option Word :=
  ofInt? (left.toInt - right.toInt)

def multiply? (left right : Word) : Option Word :=
  ofInt? (left.toInt * right.toInt)

/-- The quotient rounded towards zero, if it is a word. The divisor is meant
to be different from zero. -/
def divide? (left right : Word) : Option Word :=
  ofInt? (left.toInt.tdiv right.toInt)

def negate? (value : Word) : Option Word :=
  ofInt? (-value.toInt)

/-- Decimal digits, after a minus sign when the word is negative. -/
def text (value : Word) : String :=
  toString value.toInt

theorem toInt_of_ofInt? {value : Int} {word : Word}
    (found : ofInt? value = some word) : word.toInt = value := by
  unfold ofInt? at found
  split at found
  · next bounds =>
      cases found
      have upper := Int.lt_add_one_of_le bounds.2
      exact Int64.toInt_ofInt_of_le bounds.1 upper
  · cases found

end Word

end ExprMachine
