/-!
# Sequences that can fail
-/

namespace ExprMachine

theorem except_bind_eq_ok_iff {ε α β : Type} (first : Except ε α)
    (second : α → Except ε β) (result : β) :
    first >>= second = .ok result ↔
      ∃ middle, first = .ok middle ∧ second middle = .ok result := by
  cases first with
  | error cause =>
      constructor
      · intro impossible
        cases impossible
      · rintro ⟨middle, impossible, _⟩
        cases impossible
  | ok middle =>
      constructor
      · intro rest
        exact ⟨middle, rfl, rest⟩
      · rintro ⟨_, same, rest⟩
        cases same
        exact rest

theorem exists_of_except_map_eq_ok {ε α β : Type} {step : α → β} {first : Except ε α}
    {result : β} (mapped : first.map step = .ok result) :
    ∃ value, first = .ok value ∧ step value = result := by
  cases first with
  | error cause => cases mapped
  | ok value =>
      cases mapped
      exact ⟨value, rfl, rfl⟩

end ExprMachine
