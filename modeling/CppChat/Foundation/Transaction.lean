import Mathlib.Logic.Basic

/-! # Transactions

An operation on a stored state either fails or produces the next state. A transaction
commits the result of a successful operation and rolls every failure back.
-/
namespace CppChat.Foundation

universe u v
variable {ε σ : Type u} {α β : Type v}

theorem bind_eq_ok {x : Except ε α} {f : α → Except ε β} {b : β} :
    (x >>= f) = .ok b ↔ ∃ a, x = .ok a ∧ f a = .ok b := by
  cases x with
  | error e =>
    constructor
    · intro h
      cases h
    · rintro ⟨a, h, -⟩
      cases h
  | ok a =>
    constructor
    · exact fun h => ⟨a, rfl, h⟩
    · rintro ⟨_, h, hf⟩
      cases h
      exact hf

theorem map_eq_ok {x : Except ε α} {f : α → β} {b : β} :
    x.map f = .ok b ↔ ∃ a, x = .ok a ∧ f a = b := by
  cases x <;> simp [Except.map]

/-- The state a transaction leaves behind. -/
def commitOrRollback (s : σ) : Except ε σ → σ
  | .ok t => t
  | .error _ => s

@[simp] theorem commitOrRollback_ok (s t : σ) :
    commitOrRollback s (.ok t : Except ε σ) = t := rfl

@[simp] theorem commitOrRollback_error (s : σ) (e : ε) :
    commitOrRollback s (.error e : Except ε σ) = s := rfl

end CppChat.Foundation
