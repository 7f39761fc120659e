import Mathlib.Algebra.Order.Group.Nat
import Mathlib.Data.List.Basic

/-! # Walks in strides

A walk over the first `n` numbers in strides of `k`: every item of a list belongs to the place where
its stride begins, and the last stride may be short.
-/
namespace CppChat.Foundation

variable {α : Type*}

/-- The items of a walk from `a` to `b`, each as `P` wants it at its place. -/
def Strides (n k : ℕ) (P : ℕ → α → Prop) : ℕ → List α → ℕ → Prop
  | a, [], b => a = b
  | a, x :: xs, b => a < n ∧ P a x ∧ Strides n k P (min (a + k) n) xs b

namespace Strides

variable {n k a b : ℕ} {P : ℕ → α → Prop} {x : α} {xs : List α}

theorem snoc (h : Strides n k P a xs b) (hb : b < n) (hx : P b x) :
    Strides n k P a (xs ++ [x]) (min (b + k) n) := by
  induction xs generalizing a with
  | nil =>
    cases h
    exact ⟨hb, hx, rfl⟩
  | cons y ys ih => exact ⟨h.1, h.2.1, ih h.2.2⟩

theorem le (h : Strides n k P a xs b) (ha : a ≤ n) : a ≤ b ∧ b ≤ n := by
  induction xs generalizing a with
  | nil =>
    cases h
    exact ⟨le_rfl, ha⟩
  | cons y ys ih =>
    obtain ⟨hlt, -, hrest⟩ := h
    have := ih hrest (min_le_right _ _)
    omega

/-- A walk that ends where it begins has no items. -/
theorem eq_nil (h : Strides n k P a xs a) (hk : 0 < k) : xs = [] := by
  cases xs with
  | nil => rfl
  | cons y ys =>
    obtain ⟨hlt, -, hrest⟩ := h
    have := hrest.le (min_le_right _ _)
    omega

/-- All strides but the last are full. -/
theorem count (h : Strides n k P a xs b) (hk : 0 < k) (ha : a ≤ n) :
    k * xs.length < (b - a) + k := by
  induction xs generalizing a with
  | nil =>
    rw [List.length_nil, Nat.mul_zero]
    omega
  | cons y ys ih =>
    obtain ⟨hlt, -, hrest⟩ := h
    have hle := hrest.le (min_le_right _ _)
    have hcount := ih hrest (min_le_right _ _)
    rw [List.length_cons, Nat.mul_succ]
    by_cases hfull : a + k ≤ n
    · omega
    · rw [min_eq_right (by omega)] at hrest
      have hb : b = n := by omega
      rw [hb] at hrest
      rw [hrest.eq_nil hk, List.length_nil]
      omega

end Strides
end CppChat.Foundation
