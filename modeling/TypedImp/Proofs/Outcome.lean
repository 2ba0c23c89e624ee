import Mathlib.Tactic.Common
import TypedImp.Error

/-!
# Outcomes

A computation that can fail succeeds if its steps do, one after the other.
-/

namespace TypedImp

variable {α β : Type}

theorem bind_eq_ok {step : Except Error α} {next : α → Except Error β} {b : β} :
    step >>= next = .ok b ↔ ∃ a, step = .ok a ∧ next a = .ok b := by
  rcases step with _ | a
  · constructor
    · intro h
      cases h
    · rintro ⟨a, h, -⟩
      cases h
  · constructor
    · intro h
      exact ⟨a, rfl, h⟩
    · rintro ⟨a', h, h'⟩
      cases h
      exact h'

theorem pure_eq_ok {a b : α} : (pure a : Except Error α) = .ok b ↔ a = b :=
  Except.ok.injEq a b ▸ Iff.rfl

theorem map_eq_ok {step : Except Error α} {f : α → β} {b : β} :
    step.map f = .ok b ↔ ∃ a, step = .ok a ∧ f a = b := by
  cases step with
  | error e => exact ⟨(nomatch ·), fun ⟨_, h, _⟩ => nomatch h⟩
  | ok a =>
    constructor
    · rintro ⟨⟩
      exact ⟨a, rfl, rfl⟩
    · rintro ⟨_, ⟨⟩, rfl⟩
      rfl

theorem map_injective {f : α → β} (hf : Function.Injective f) :
    Function.Injective (Except.map f : Except Error α → Except Error β) := by
  rintro (e | a) (e' | a') h
  · cases h
    rfl
  · cases h
  · cases h
  · rw [hf (Except.ok.inj h)]

theorem exists_of_isOk {step : Except Error α} (h : step.isOk = true) : ∃ a, step = .ok a := by
  cases step with
  | error e => cases h
  | ok a => exact ⟨a, rfl⟩

/-- What a view of the result shows, the result has. -/
theorem exists_of_view {step : Except Error α} {view : α → β} {b : β}
    (h : step.toOption.map view = some b) : ∃ a, step = .ok a ∧ view a = b := by
  cases step with
  | error e => cases h
  | ok a => exact ⟨a, rfl, Option.some.inj h⟩

end TypedImp
