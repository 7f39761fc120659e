import Mathlib.Logic.Function.Basic
import Mathlib.Order.Basic

/-! # Keys that expire

A key holds a value until its deadline. Nothing removes an expired key; it is only no
longer returned, and time never brings it back.
-/
namespace CppChat.Foundation

/-- How a command went: `lost` took effect, but was reported as failed. -/
inductive Outcome
  | ok
  | failed
  | lost
  deriving DecidableEq

def Outcome.tookEffect (o : Outcome) : Bool := o ≠ .failed

structure Cell (ν : Type*) where
  value : ν
  deadline : ℕ
  deriving DecidableEq

abbrev Keyspace (κ ν : Type*) := κ → Option (Cell ν)

namespace Keyspace
variable {κ ν : Type*} [DecidableEq κ] {s : Keyspace κ ν} {k j : κ} {v : ν} {now later d : ℕ}

/-- `GET` at a time: nothing once the deadline has passed. -/
def get (s : Keyspace κ ν) (now : ℕ) (k : κ) : Option ν :=
  match s k with
  | some c => if now ≤ c.deadline then some c.value else none
  | none => none

/-- `SET` with an expiry. -/
def set (s : Keyspace κ ν) (k : κ) (v : ν) (deadline : ℕ) : Keyspace κ ν :=
  Function.update s k (some ⟨v, deadline⟩)

def del (s : Keyspace κ ν) (k : κ) : Keyspace κ ν := Function.update s k none

/-- `EXPIRE`: moves the deadline of a key that is still there. -/
def expire (s : Keyspace κ ν) (now : ℕ) (k : κ) (deadline : ℕ) : Keyspace κ ν :=
  match s.get now k with
  | some v => s.set k v deadline
  | none => s

/-- `TTL` in whole seconds, rounded as the server rounds it; 0 when the key is gone. Times
are in milliseconds. -/
def ttl (s : Keyspace κ ν) (now : ℕ) (k : κ) : ℕ :=
  match s k with
  | some c => if now ≤ c.deadline then (c.deadline - now + 500) / 1000 else 0
  | none => 0

omit [DecidableEq κ] in
theorem get_eq_some : s.get now k = some v ↔ ∃ d, s k = some ⟨v, d⟩ ∧ now ≤ d := by
  unfold get
  cases h : s k with
  | none => simp
  | some c =>
    obtain ⟨w, d⟩ := c
    simp only [Option.ite_none_right_eq_some, Option.some_inj, Cell.mk.injEq]
    constructor
    · rintro ⟨hlt, rfl⟩
      exact ⟨d, ⟨rfl, rfl⟩, hlt⟩
    · rintro ⟨_, ⟨rfl, rfl⟩, hlt⟩
      exact ⟨hlt, rfl⟩

omit [DecidableEq κ] in
theorem get_congr {t : Keyspace κ ν} (h : t k = s k) : t.get now k = s.get now k := by
  unfold get
  rw [h]

omit [DecidableEq κ] in
/-- Time only removes keys. -/
theorem get_of_later (hle : now ≤ later) (h : s.get later k = some v) : s.get now k = some v := by
  obtain ⟨d, hd, hlt⟩ := get_eq_some.mp h
  exact get_eq_some.mpr ⟨d, hd, Nat.le_trans hle hlt⟩

@[simp] theorem set_self : s.set k v d k = some ⟨v, d⟩ := Function.update_self _ _ _
@[simp] theorem set_of_ne (h : j ≠ k) : s.set k v d j = s j := Function.update_of_ne h _ _
@[simp] theorem del_self : s.del k k = none := Function.update_self _ _ _
@[simp] theorem del_of_ne (h : j ≠ k) : s.del k j = s j := Function.update_of_ne h _ _

/-- A cell after a `SET` is the new one, or was there before. -/
theorem of_set {c : Cell ν} (h : s.set k v d j = some c) : j = k ∧ c = ⟨v, d⟩ ∨ s j = some c := by
  by_cases hj : j = k
  · subst hj
    rw [set_self] at h
    exact .inl ⟨rfl, (Option.some_inj.mp h).symm⟩
  · rw [set_of_ne hj] at h
    exact .inr h

/-- A cell after a `DEL` was there before. -/
theorem of_del {c : Cell ν} (h : s.del k j = some c) : s j = some c := by
  by_cases hj : j = k
  · subst hj
    rw [del_self] at h
    cases h
  · rwa [del_of_ne hj] at h

theorem get_set_self (h : now ≤ d) : (s.set k v d).get now k = some v :=
  get_eq_some.mpr ⟨d, set_self, h⟩

theorem get_set_of_ne (h : j ≠ k) : (s.set k v d).get now j = s.get now j := get_congr (set_of_ne h)

theorem get_del_self : (s.del k).get now k = none := by simp [get]

theorem get_del_of_ne (h : j ≠ k) : (s.del k).get now j = s.get now j := get_congr (del_of_ne h)

theorem expire_of_ne (h : j ≠ k) : s.expire now k d j = s j := by
  unfold expire
  cases s.get now k with
  | none => rfl
  | some v => exact set_of_ne h

theorem expire_self (h : s.get now k = some v) : s.expire now k d k = some ⟨v, d⟩ := by
  simp only [expire, h, set_self]

end Keyspace
end CppChat.Foundation
