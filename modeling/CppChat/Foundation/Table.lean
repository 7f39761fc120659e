import Mathlib.Data.List.Basic
import Mathlib.Data.List.Pairwise

/-! # Tables with uniqueness constraints

A table is a list of rows together with the fact that no two of them clash, where
`clash` is the union of the table's unique keys. A statement that would break a key
fails, so a table that violates its schema cannot be built.
-/
namespace CppChat.Foundation

/-- Rows in storage order; `unique` is what the database engine enforces. -/
structure Table (ρ : Type*) (clash : ρ → ρ → Prop) where
  rows : List ρ
  unique : rows.Pairwise fun a b => ¬ clash a b

namespace Table
variable {ρ : Type*} {clash : ρ → ρ → Prop}

@[ext] theorem ext {t u : Table ρ clash} (h : t.rows = u.rows) : t = u := by
  cases t
  cases u
  cases h
  rfl

def empty : Table ρ clash := ⟨[], List.Pairwise.nil⟩

@[simp] theorem empty_rows : (empty : Table ρ clash).rows = [] := rfl

/-- `DELETE … WHERE p`. -/
def delete (t : Table ρ clash) (p : ρ → Bool) : Table ρ clash :=
  ⟨t.rows.filter (fun r => !p r), t.unique.filter _⟩

@[simp] theorem mem_delete {t : Table ρ clash} {p : ρ → Bool} {r : ρ} :
    r ∈ (t.delete p).rows ↔ r ∈ t.rows ∧ p r = false := by
  simp [delete]

/-- `INSERT`: fails when the row clashes with a stored one. -/
def insert [DecidableRel clash] (t : Table ρ clash) (row : ρ) : Option (Table ρ clash) :=
  if h : ∀ r ∈ t.rows, ¬ clash r row then
    some ⟨t.rows ++ [row], by
      rw [List.pairwise_append]
      refine ⟨t.unique, List.pairwise_singleton _ _, ?_⟩
      intro a ha b hb
      rw [List.mem_singleton] at hb
      exact hb ▸ h a ha⟩
  else none

theorem insert_eq_some [DecidableRel clash] {t u : Table ρ clash} {row : ρ} :
    t.insert row = some u ↔ (∀ r ∈ t.rows, ¬ clash r row) ∧ u.rows = t.rows ++ [row] := by
  unfold insert
  split
  next h =>
    rw [Option.some_inj]
    exact ⟨fun he => ⟨h, he ▸ rfl⟩, fun he => Table.ext he.2.symm⟩
  next h => simp [h]

theorem insert_isSome [DecidableRel clash] {t : Table ρ clash} {row : ρ}
    (h : ∀ r ∈ t.rows, ¬ clash r row) : ∃ u, t.insert row = some u ∧ u.rows = t.rows ++ [row] := by
  unfold insert
  rw [dif_pos h]
  exact ⟨_, rfl, rfl⟩

/-- `UPDATE`: rewrites every row, and fails when the result has clashing rows. -/
def update [DecidableRel clash] (t : Table ρ clash) (f : ρ → ρ) : Option (Table ρ clash) :=
  if h : (t.rows.map f).Pairwise fun a b => ¬ clash a b then some ⟨t.rows.map f, h⟩ else none

theorem update_eq_some [DecidableRel clash] {t u : Table ρ clash} {f : ρ → ρ} :
    t.update f = some u ↔
      ((t.rows.map f).Pairwise fun a b => ¬ clash a b) ∧ u.rows = t.rows.map f := by
  unfold update
  split
  next h =>
    rw [Option.some_inj]
    exact ⟨fun he => ⟨h, he ▸ rfl⟩, fun he => Table.ext he.2.symm⟩
  next h => simp [h]

/-- An `UPDATE` that leaves the key columns alone cannot fail. -/
def map (t : Table ρ clash) (f : ρ → ρ) (hf : ∀ a b, clash (f a) (f b) → clash a b) :
    Table ρ clash :=
  ⟨t.rows.map f, by
    rw [List.pairwise_map]
    exact t.unique.imp fun h hc => h (hf _ _ hc)⟩

@[simp] theorem map_rows (t : Table ρ clash) (f : ρ → ρ)
    (hf : ∀ a b, clash (f a) (f b) → clash a b) : (t.map f hf).rows = t.rows.map f := rfl

/-- Two stored rows that clash are the same row. -/
theorem eq_of_clash (t : Table ρ clash) (hsymm : ∀ a b, clash a b → clash b a) {a b : ρ}
    (ha : a ∈ t.rows) (hb : b ∈ t.rows) (h : clash a b) : a = b := by
  by_contra hne
  have : Std.Symm fun x y => ¬ clash x y := ⟨fun x y hxy hyx => hxy (hsymm _ _ hyx)⟩
  exact t.unique.forall ha hb hne h

/-- A selection whose rows all clash with one another returns at most one row. -/
theorem length_filter_le_one (t : Table ρ clash) {p : ρ → Bool}
    (hp : ∀ a b, p a = true → p b = true → clash a b) : (t.rows.filter p).length ≤ 1 := by
  have hpw := t.unique.filter p
  cases hl : t.rows.filter p with
  | nil => simp
  | cons a l =>
    cases l with
    | nil => simp
    | cons b l =>
      rw [hl] at hpw
      have ha : a ∈ t.rows.filter p := hl ▸ List.mem_cons_self
      have hb : b ∈ t.rows.filter p := hl ▸ List.mem_cons_of_mem _ List.mem_cons_self
      have hc := hp a b (List.mem_filter.mp ha).2 (List.mem_filter.mp hb).2
      exact absurd hc ((List.pairwise_cons.mp hpw).1 b List.mem_cons_self)

end Table

/-- A table with one key: a partial function from keys to rows. -/
abbrev Keyed {κ : Type*} (ρ : Type*) (key : ρ → κ) := Table ρ fun a b => key a = key b

namespace Keyed
variable {κ ρ : Type*} [DecidableEq κ] {key : ρ → κ}

/-- `SELECT … WHERE key = k`. -/
def lookup (t : Keyed ρ key) (k : κ) : Option ρ := t.rows.find? fun r => key r = k

theorem lookup_eq_some {t : Keyed ρ key} {k : κ} {r : ρ} :
    lookup t k = some r ↔ r ∈ t.rows ∧ key r = k := by
  constructor
  · intro h
    exact ⟨List.mem_of_find?_eq_some h, by simpa using List.find?_some h⟩
  · rintro ⟨hr, rfl⟩
    cases hl : lookup t (key r) with
    | none =>
      have hnone := List.find?_eq_none.mp hl r hr
      simp at hnone
    | some s =>
      have hs : s ∈ t.rows := List.mem_of_find?_eq_some hl
      have hk : key s = key r := by simpa using List.find?_some hl
      rw [t.eq_of_clash (fun a b h => h.symm) hs hr hk]

theorem lookup_eq_none {t : Keyed ρ key} {k : κ} :
    lookup t k = none ↔ ∀ r ∈ t.rows, key r ≠ k := by
  simp [lookup, List.find?_eq_none]

theorem lookup_key {t : Keyed ρ key} {k : κ} {r : ρ} (h : lookup t k = some r) : key r = k :=
  (lookup_eq_some.mp h).2

@[simp] theorem lookup_empty (k : κ) : lookup (Table.empty : Keyed ρ key) k = none := rfl

theorem lookup_congr {t u : Keyed ρ key} {k : κ}
    (h : ∀ r, key r = k → (r ∈ t.rows ↔ r ∈ u.rows)) : lookup t k = lookup u k := by
  ext r
  simp only [lookup_eq_some]
  constructor
  · rintro ⟨hr, hk⟩
    exact ⟨(h r hk).mp hr, hk⟩
  · rintro ⟨hr, hk⟩
    exact ⟨(h r hk).mpr hr, hk⟩

theorem lookup_map (t : Keyed ρ key) (f : ρ → ρ) (hf : ∀ r, key (f r) = key r)
    (hclash : ∀ a b, key (f a) = key (f b) → key a = key b) (k : κ) :
    lookup (t.map f hclash) k = (lookup t k).map f := by
  ext r
  simp only [lookup_eq_some, Table.map_rows, List.mem_map, Option.map_eq_some_iff]
  constructor
  · rintro ⟨⟨s, hs, rfl⟩, hk⟩
    exact ⟨s, ⟨hs, (hf s).symm.trans hk⟩, rfl⟩
  · rintro ⟨s, ⟨hs, hk⟩, rfl⟩
    exact ⟨⟨s, hs, rfl⟩, (hf s).trans hk⟩

/-- `UPDATE … WHERE key = k` of columns outside the key. -/
def modify (t : Keyed ρ key) (k : κ) (f : ρ → ρ) (hf : ∀ r, key (f r) = key r) : Keyed ρ key :=
  t.map (fun r => if key r = k then f r else r) fun a b h => by
    have hk : ∀ r, key (if key r = k then f r else r) = key r := by
      intro r
      split
      · exact hf r
      · rfl
    exact (hk a).symm.trans (h.trans (hk b))

theorem mem_modify {t : Keyed ρ key} {k : κ} {f : ρ → ρ} {hf : ∀ r, key (f r) = key r} {r : ρ} :
    r ∈ (modify t k f hf).rows ↔ ∃ s ∈ t.rows, (if key s = k then f s else s) = r := by
  simp [modify]

theorem lookup_modify (t : Keyed ρ key) (k : κ) (f : ρ → ρ) (hf : ∀ r, key (f r) = key r)
    (j : κ) : lookup (modify t k f hf) j = if j = k then (lookup t j).map f else lookup t j := by
  ext r
  have hk : ∀ s, key (if key s = k then f s else s) = key s := by
    intro s
    split
    · exact hf s
    · rfl
  by_cases hj : j = k
  · subst hj
    simp only [if_true, Option.map_eq_some_iff, lookup_eq_some, mem_modify]
    constructor
    · rintro ⟨⟨s, hs, rfl⟩, hkey⟩
      rw [hk] at hkey
      exact ⟨s, ⟨hs, hkey⟩, by rw [if_pos hkey]⟩
    · rintro ⟨s, ⟨hs, hkey⟩, rfl⟩
      exact ⟨⟨s, hs, by rw [if_pos hkey]⟩, by rw [hf, hkey]⟩
  · simp only [if_neg hj, lookup_eq_some, mem_modify]
    constructor
    · rintro ⟨⟨s, hs, rfl⟩, hkey⟩
      rw [hk] at hkey
      rw [if_neg (fun h => hj (hkey.symm.trans h))]
      exact ⟨hs, hkey⟩
    · rintro ⟨hr, hkey⟩
      exact ⟨⟨r, hr, if_neg (fun h => hj (hkey.symm.trans h))⟩, hkey⟩

/-- `INSERT … ON CONFLICT DO UPDATE`: a stored row with the same key is rewritten by `f`. -/
def upsert (t : Keyed ρ key) (row : ρ) (f : ρ → ρ) (hf : ∀ r, key (f r) = key r) : Keyed ρ key :=
  if h : ∀ r ∈ t.rows, key r ≠ key row then
    ⟨t.rows ++ [row], by
      rw [List.pairwise_append]
      refine ⟨t.unique, List.pairwise_singleton _ _, ?_⟩
      intro a ha b hb
      rw [List.mem_singleton] at hb
      exact hb ▸ h a ha⟩
  else modify t (key row) f hf

theorem lookup_upsert (t : Keyed ρ key) (row : ρ) (f : ρ → ρ) (hf : ∀ r, key (f r) = key r)
    (j : κ) : lookup (upsert t row f hf) j =
      if j = key row then some ((lookup t j).elim row f) else lookup t j := by
  unfold upsert
  split
  next h =>
    by_cases hj : j = key row
    · subst hj
      rw [if_pos rfl, lookup_eq_none.mpr h, lookup_eq_some]
      simp
    · rw [if_neg hj]
      apply lookup_congr
      intro r hr
      rw [List.mem_append, List.mem_singleton]
      exact ⟨fun hm => hm.resolve_right fun he => hj (by rw [← hr, he]), .inl⟩
  next h =>
    rw [lookup_modify]
    by_cases hj : j = key row
    · rw [if_pos hj, if_pos hj]
      push Not at h
      obtain ⟨r, hr, hk⟩ := h
      rw [lookup_eq_some.mpr ⟨hr, hk.trans hj.symm⟩]
      rfl
    · rw [if_neg hj, if_neg hj]

end Keyed
end CppChat.Foundation
