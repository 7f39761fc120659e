import Mathlib.Data.List.NodupEquivFin
import Mathlib.Data.Nat.Periodic
import Mathlib.Order.Interval.Finset.Nat

/-! # Rotating choice

A counter that grows by one with each choice, reduced modulo the number of candidates,
serves the candidates in turn: any whole number of rounds serves each equally often.
-/
namespace CppChat.Foundation.Rotation

variable {α : Type*} [DecidableEq α]

/-- The candidate that a counter stands for. -/
def pick (l : List α) (counter : ℕ) : Option α := l[counter % l.length]?

/-- The choices of some consecutive counters. -/
def picks (l : List α) (counter count : ℕ) : List (Option α) :=
  (List.range' counter count).map (pick l)

omit [DecidableEq α] in
theorem pick_isSome {l : List α} (hl : l ≠ []) (counter : ℕ) : (pick l counter).isSome := by
  rw [pick, List.getElem?_eq_getElem (Nat.mod_lt _ (List.length_pos_iff.mpr hl))]
  rfl

omit [DecidableEq α] in
theorem pick_mem {l : List α} {counter : ℕ} {a : α} (h : pick l counter = some a) : a ∈ l :=
  List.mem_of_getElem? h

omit [DecidableEq α] in
theorem picks_add (l : List α) (counter m n : ℕ) :
    picks l counter (m + n) = picks l counter m ++ picks l (counter + m) n := by
  simp only [picks, ← List.map_append]
  rw [← List.range'_append_1]

/-- One round serves a candidate once. -/
theorem count_round {l : List α} (hl : l.Nodup) {a : α} (ha : a ∈ l) (counter : ℕ) :
    (picks l counter l.length).count (some a) = 1 := by
  obtain ⟨j, hj, rfl⟩ := List.getElem_of_mem ha
  have hpick : ∀ i, pick l i = some l[j] ↔ i % l.length = j := by
    intro i
    have hlt : i % l.length < l.length := Nat.mod_lt _ (by omega)
    rw [pick, List.getElem?_eq_getElem hlt, Option.some_inj, hl.getElem_inj_iff]
  have hcount := Nat.filter_Ico_card_eq_of_periodic counter l.length (fun i => i % l.length = j)
    (fun i => by simp)
  have hone : l.length.count (fun i => i % l.length = j) = 1 := by
    rw [Nat.count_eq_card_filter_range, Finset.card_eq_one]
    refine ⟨j, ?_⟩
    ext i
    simp only [Finset.mem_filter, Finset.mem_range, Finset.mem_singleton]
    constructor
    · rintro ⟨hi, hij⟩
      rwa [Nat.mod_eq_of_lt hi] at hij
    · rintro rfl
      exact ⟨hj, Nat.mod_eq_of_lt hj⟩
  have hset : ((List.range' counter l.length).filter fun i => pick l i == some l[j]).toFinset =
      (Finset.Ico counter (counter + l.length)).filter fun i => i % l.length = j := by
    ext i
    simp only [List.mem_toFinset, List.mem_filter, List.mem_range'_1, beq_iff_eq,
      Finset.mem_filter, Finset.mem_Ico, hpick]
  have hnodup : (List.range' counter l.length).Nodup := List.nodup_range'
  rw [hone, ← hset, List.toFinset_card_of_nodup (hnodup.filter _)] at hcount
  rw [picks, List.count, List.countP_map, List.countP_eq_length_filter]
  exact hcount

theorem count_rounds {l : List α} (hl : l.Nodup) {a : α} (ha : a ∈ l) (counter k : ℕ) :
    (picks l counter (k * l.length)).count (some a) = k := by
  induction k generalizing counter with
  | zero => simp [picks]
  | succ k ih =>
    rw [Nat.succ_mul, Nat.add_comm, picks_add, List.count_append, count_round hl ha, ih,
      Nat.add_comm]

end CppChat.Foundation.Rotation
