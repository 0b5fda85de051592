import ExprMachine.Expr.Parsing

/-!
# Cursors and the tokens after them

A cursor is a place in a list of lexemes. What can be read from there depends on
the tokens of these lexemes alone. The readers of single tokens succeed exactly
when the next token is the one they look for.
-/

namespace ExprMachine

namespace Cursor

variable {cursor : Cursor} {wanted : Token} {rest : List Token}

def tokens (cursor : Cursor) : List Token :=
  cursor.rest.map Lexeme.token

theorem token?_eq_head? (cursor : Cursor) : cursor.token? = cursor.tokens.head? :=
  (List.head?_map ..).symm

theorem isEmpty_rest (cursor : Cursor) :
    cursor.rest.isEmpty = cursor.tokens.isEmpty :=
  List.isEmpty_map.symm

theorem exists_lexeme_of_next? {next : Parsed Token cursor}
    (found : cursor.next? = some next) : ∃ lexeme, cursor.rest = lexeme :: next.after.rest ∧
      next.value = lexeme.token ∧
        next.after = ⟨cursor.position + 1, lexeme.span, next.after.rest⟩ := by
  unfold next? at found
  split at found
  · cases found
  · next lexeme lexemes shape =>
      cases found
      exact ⟨lexeme, shape, rfl, rfl⟩

theorem tokens_of_next? {next : Parsed Token cursor}
    (found : cursor.next? = some next) :
    cursor.tokens = next.value :: next.after.tokens := by
  obtain ⟨lexeme, rest, value, _⟩ := exists_lexeme_of_next? found
  rw [tokens, rest, value]
  rfl

theorem tokens_of_next?_none (missing : cursor.next? = none) : cursor.tokens = [] := by
  unfold next? at missing
  split at missing
  · next shape => exact congrArg (List.map Lexeme.token) shape
  · cases missing

theorem exists_next? {first : Token} (shape : cursor.tokens = first :: rest) :
    ∃ next, cursor.next? = some next ∧ next.value = first ∧
      next.after.tokens = rest := by
  cases found : cursor.next? with
  | none =>
      rw [tokens_of_next?_none found] at shape
      cases shape
  | some next =>
      rw [tokens_of_next? found] at shape
      cases shape
      exact ⟨next, rfl, rfl, rfl⟩

theorem tokens_of_accept? {accepted : Parsed Unit cursor}
    (found : cursor.accept? wanted = some accepted) :
    cursor.tokens = wanted :: accepted.after.tokens := by
  unfold accept? at found
  split at found
  · next next nextFound =>
      split at found
      · next same =>
          cases found
          rw [tokens_of_next? nextFound, same]
          rfl
      · cases found
  · cases found

theorem exists_accept? (shape : cursor.tokens = wanted :: rest) :
    ∃ accepted, cursor.accept? wanted = some accepted ∧
      accepted.after.tokens = rest := by
  obtain ⟨next, found, same, after⟩ := exists_next? shape
  refine ⟨next.map fun _ => (), ?_, after⟩
  simp only [accept?, found, same, if_true]

theorem accept?_eq_none_iff : cursor.accept? wanted = none ↔
    cursor.tokens.head? ≠ some wanted := by
  constructor
  · intro missing same
    obtain ⟨rest, shape⟩ := List.head?_eq_some_iff.mp same
    obtain ⟨accepted, found, _⟩ := exists_accept? shape
    rw [found] at missing
    cases missing
  · intro different
    cases found : cursor.accept? wanted with
    | none => rfl
    | some accepted =>
        rw [tokens_of_accept? found] at different
        exact absurd rfl different

end Cursor

namespace Reader

variable {cursor : Cursor} {rest : List Token}

theorem tokens_of_symbol {wanted : Symbol} {parsed : Parsed Unit cursor}
    (read : symbol wanted cursor = .ok parsed) :
    cursor.tokens = .symbol wanted :: parsed.after.tokens := by
  unfold symbol at read
  split at read
  · next accepted found =>
      cases read
      exact Cursor.tokens_of_accept? found
  · cases read

theorem exists_symbol {wanted : Symbol}
    (shape : cursor.tokens = .symbol wanted :: rest) :
    ∃ parsed, symbol wanted cursor = .ok parsed ∧ parsed.after.tokens = rest := by
  obtain ⟨accepted, found, after⟩ := Cursor.exists_accept? shape
  refine ⟨accepted, ?_, after⟩
  simp only [symbol, found]

theorem tokens_of_identifier {parsed : Parsed String cursor}
    (read : identifier cursor = .ok parsed) :
    cursor.tokens = .identifier parsed.value :: parsed.after.tokens := by
  unfold identifier at read
  split at read
  · next next found =>
      split at read
      · next name same =>
          cases read
          rw [Cursor.tokens_of_next? found, same]
          rfl
      · cases read
  · cases read

theorem exists_identifier {name : String}
    (shape : cursor.tokens = .identifier name :: rest) :
    ∃ parsed, identifier cursor = .ok parsed ∧ parsed.value = name ∧
      parsed.after.tokens = rest := by
  obtain ⟨next, found, same, after⟩ := Cursor.exists_next? shape
  refine ⟨next.map fun _ => name, ?_, rfl, after⟩
  simp only [identifier, found, same]

end Reader

end ExprMachine
