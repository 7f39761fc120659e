import Mathlib.Data.List.Nodup
import Mathlib.Logic.Function.Basic

/-! # Maps that remember the order of insertion

A map with the list of its keys, oldest first. Putting a key that is there keeps its place;
a key that was dropped and put again comes last.
-/
namespace CppChat.Foundation

structure Ordered (κ ν : Type*) where
  order : List κ
  lookup : κ → Option ν
  nodup : order.Nodup
  mem_order : ∀ k, k ∈ order ↔ (lookup k).isSome

namespace Ordered

variable {κ ν : Type*} [DecidableEq κ] {m m' : Ordered κ ν} {k l : κ} {v : ν}

def empty : Ordered κ ν := ⟨[], fun _ => none, .nil, by simp⟩

def put (m : Ordered κ ν) (k : κ) (v : ν) : Ordered κ ν where
  order := if (m.lookup k).isSome then m.order else m.order ++ [k]
  lookup := Function.update m.lookup k (some v)
  nodup := by
    split
    · exact m.nodup
    next h =>
      refine m.nodup.append (List.nodup_singleton k) ?_
      rw [List.disjoint_singleton, m.mem_order]
      exact h
  mem_order l := by
    have hmem := m.mem_order l
    by_cases hl : l = k
    · subst hl
      rw [Function.update_self]
      split <;> simp_all
    · rw [Function.update_of_ne hl]
      split <;> simp_all

def drop (m : Ordered κ ν) (k : κ) : Ordered κ ν where
  order := m.order.filter (· ≠ k)
  lookup := Function.update m.lookup k none
  nodup := m.nodup.filter _
  mem_order l := by
    have hmem := m.mem_order l
    by_cases hl : l = k
    · subst hl
      simp
    · rw [Function.update_of_ne hl, List.mem_filter, hmem]
      simp [hl]

theorem drop_of_none (h : m.lookup k = none) : m.drop k = m := by
  have hfilter : m.order.filter (· ≠ k) = m.order := by
    rw [List.filter_eq_self]
    intro l hl
    have hfound := (m.mem_order l).mp hl
    refine decide_eq_true ?_
    rintro rfl
    rw [h] at hfound
    cases hfound
  have hlookup : Function.update m.lookup k none = m.lookup :=
    Function.update_eq_self_iff.mpr h.symm
  cases m
  simp only [drop, Ordered.mk.injEq]
  exact ⟨hfilter, hlookup⟩

theorem mem_put_of_mem (h : l ∈ m.order) : l ∈ (m.put k v).order := by
  simp only [put]
  split
  · exact h
  · exact List.mem_append_left _ h

/-- The entries in their order. -/
def entries (m : Ordered κ ν) : List (κ × ν) :=
  m.order.filterMap fun k => (m.lookup k).map fun v => (k, v)

omit [DecidableEq κ] in
theorem mem_entries : (k, v) ∈ m.entries ↔ m.lookup k = some v := by
  simp only [entries, List.mem_filterMap, Option.map_eq_some_iff, Prod.mk.injEq]
  constructor
  · rintro ⟨k', -, v', hv', rfl, rfl⟩
    exact hv'
  · intro hv
    exact ⟨k, (m.mem_order k).mpr (by rw [hv]; rfl), v, hv, rfl, rfl⟩

omit [DecidableEq κ] in
/-- Every key of the list is found, so nothing is lost between the list and the entries. -/
theorem map_entries : m.entries.map Prod.fst = m.order ∧
    m.entries.map (fun e => some e.2) = m.order.map m.lookup := by
  have hfound : ∀ k ∈ m.order, ∃ v, m.lookup k = some v := fun k hk =>
    Option.isSome_iff_exists.mp ((m.mem_order k).mp hk)
  unfold entries
  generalize m.order = order at hfound
  induction order with
  | nil => exact ⟨rfl, rfl⟩
  | cons k order ih =>
    obtain ⟨v, hv⟩ := hfound k List.mem_cons_self
    obtain ⟨hkeys, hvalues⟩ := ih fun l hl => hfound l (List.mem_cons_of_mem k hl)
    rw [List.filterMap_cons_some (b := (k, v)) (by rw [hv]; rfl)]
    simp only [List.map_cons, hkeys, hvalues, hv, and_self]

/-! ## Runs -/

/-- What one call can do to the keys. -/
inductive Step (m : Ordered κ ν) : Ordered κ ν → Prop
  | same : Step m m
  | put (k : κ) (v : ν) : Step m (m.put k v)
  | drop (k : κ) : Step m (m.drop k)

/-- In the states up to `n`, the key `k` has been there since before `l` came. -/
def Older (f : ℕ → Ordered κ ν) (n : ℕ) (k l : κ) : Prop :=
  ∃ i ≤ n, (∀ j, i ≤ j → j ≤ n → ((f j).lookup k).isSome) ∧ (f i).lookup l = none

variable {f : ℕ → Ordered κ ν} {n : ℕ}

omit [DecidableEq κ] in
theorem Older.later (h : Older f n k l) (hk : ((f (n + 1)).lookup k).isSome) :
    Older f (n + 1) k l := by
  obtain ⟨i, hi, hall, hl⟩ := h
  refine ⟨i, by omega, fun j hij hj => ?_, hl⟩
  rcases Nat.lt_or_ge n j with hlt | hle
  · obtain rfl : j = n + 1 := by omega
    exact hk
  · exact hall j hij hle

/-- The list holds the keys in the order in which they came. -/
theorem order_older (hempty : f 0 = empty) (hstep : ∀ i < n, Step (f i) (f (i + 1))) :
    (f n).order.Pairwise (Older f n) := by
  induction n with
  | zero =>
    rw [hempty]
    exact .nil
  | succ n ih =>
    have ih := ih fun i hi => hstep i (by omega)
    -- A key that stays keeps its age; only a new one is put behind the others.
    have hkept : ∀ keys : List κ, keys.Sublist (f n).order →
        (∀ k ∈ keys, k ∈ (f (n + 1)).order) → keys.Pairwise (Older f (n + 1)) := by
      intro keys hsub hmem
      refine (ih.sublist hsub).imp_of_mem fun hk _ h => ?_
      exact h.later (((f (n + 1)).mem_order _).mp (hmem _ hk))
    have hlast := hstep n (Nat.lt_succ_self n)
    generalize hnext : f (n + 1) = next at hlast
    cases hlast with
    | same =>
      refine hkept _ (List.Sublist.refl _) fun k hk => ?_
      rwa [hnext]
    | drop k =>
      refine hkept _ List.filter_sublist fun l hl => ?_
      rwa [hnext]
    | put k v =>
      have hold : (f n).order.Pairwise (Older f (n + 1)) := by
        refine hkept _ (List.Sublist.refl _) fun l hl => ?_
        rw [hnext]
        exact mem_put_of_mem hl
      simp only [put]
      split
      · exact hold
      next hnew =>
        refine List.pairwise_append.mpr ⟨hold, List.pairwise_singleton .., fun l hl l' hl' => ?_⟩
        obtain rfl := List.mem_singleton.mp hl'
        have hlookup := ((f n).mem_order l).mp hl
        refine Older.later ⟨n, Nat.le_refl n, fun j hj hjn => ?_, by simpa using hnew⟩ ?_
        · obtain rfl := Nat.le_antisymm hjn hj
          exact hlookup
        · rw [hnext, ← mem_order]
          exact mem_put_of_mem hl

end Ordered
end CppChat.Foundation
