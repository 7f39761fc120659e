import Mathlib.Algebra.Order.Field.Basic
import Mathlib.Tactic.Linarith
import Mathlib.Tactic.Ring

/-! # Token buckets

A bucket gains credit with time, up to a burst, and an accepted item costs one unit. A bucket
that was never used is full. The items accepted in any interval are bounded by an argument
about the credit that is left.
-/
namespace CppChat.Foundation

variable {K : Type*} [Field K] [LinearOrder K]

structure Bucket (K : Type*) where
  last : Option K
  credit : Option K

namespace Bucket

def available (burst rate : K) (b : Bucket K) (now : K) : K :=
  min burst (b.credit.getD burst + (now - b.last.getD now) * rate)

/-- The bucket after an accepted item. -/
def take (burst rate : K) (b : Bucket K) (now : K) : Bucket K :=
  ⟨some now, some (b.available burst rate now - 1)⟩

def fresh : Bucket K := ⟨none, none⟩

/-- The items of a list of times that lie in an interval. -/
def within (first last : K) (times : List K) : ℕ :=
  times.countP fun t => first ≤ t ∧ t ≤ last

/-- What holds of a bucket at some time after the items at `times`. -/
structure Bounded (burst rate now : K) (times : List K) (b : Bucket K) : Prop where
  used : b = fresh ∧ times = [] ∨ ∃ last credit, b = ⟨some last, some credit⟩ ∧ last ∈ times ∧
    last ≤ now ∧ 0 ≤ credit ∧ credit ≤ burst ∧ (∀ t ∈ times, t ≤ last) ∧
    ∀ first, (∃ t ∈ times, first ≤ t) →
      times.countP (first ≤ ·) + credit ≤ burst + rate * (last - first)
  window : ∀ first last, first ≤ last →
    (within first last times : K) ≤ burst + rate * (last - first)

variable {burst rate now : K} {times : List K} {b : Bucket K}

theorem Bounded.later (h : b.Bounded burst rate now times) {now' : K} (hle : now ≤ now') :
    b.Bounded burst rate now' times := by
  refine ⟨h.used.imp_right ?_, h.window⟩
  rintro ⟨last, credit, hb, hmem, hlast, hrest⟩
  exact ⟨last, credit, hb, hmem, hlast.trans hle, hrest⟩

theorem Bounded.credit (h : b.Bounded burst rate now times) {credit : K}
    (hcredit : b.credit = some credit) : 0 ≤ credit ∧ credit ≤ burst := by
  rcases h.used with ⟨rfl, -⟩ | ⟨last, credit', rfl, -, -, hnonneg, hle, -⟩
  · cases hcredit
  · cases hcredit
    exact ⟨hnonneg, hle⟩

variable [IsStrictOrderedRing K]

theorem bounded_fresh (hburst : 0 ≤ burst) (hrate : 0 ≤ rate) :
    (fresh : Bucket K).Bounded burst rate now [] where
  used := .inl ⟨rfl, rfl⟩
  window first last h := by
    have : 0 ≤ rate * (last - first) := mul_nonneg hrate (sub_nonneg.mpr h)
    simp only [within, List.countP_nil, Nat.cast_zero]
    exact add_nonneg hburst this

theorem Bounded.take (h : b.Bounded burst rate now times) (hrate : 0 ≤ rate)
    (havailable : 1 ≤ b.available burst rate now) :
    (b.take burst rate now).Bounded burst rate now (now :: times) := by
  have hle : b.available burst rate now ≤ burst := min_le_left _ _
  have hbefore : ∀ t ∈ times, t ≤ now := by
    rcases h.used with ⟨-, rfl⟩ | ⟨last, credit, -, -, hlast, -, -, hall, -⟩
    · simp
    · exact fun t ht => (hall t ht).trans hlast
  have hpotential : ∀ first, first ≤ now → ((now :: times).countP (first ≤ ·) : K) +
      (b.available burst rate now - 1) ≤ burst + rate * (now - first) := by
    intro first hfirst
    have hpos : 0 ≤ rate * (now - first) := mul_nonneg hrate (sub_nonneg.mpr hfirst)
    rw [List.countP_cons_of_pos (by simpa using hfirst), Nat.cast_add, Nat.cast_one]
    by_cases hany : ∃ t ∈ times, first ≤ t
    · rcases h.used with ⟨-, rfl⟩ | ⟨last, credit, rfl, -, hlast, -, -, -, hpot⟩
      · simp at hany
      · have hold := hpot first hany
        have havail : available burst rate ⟨some last, some credit⟩ now ≤
            credit + (now - last) * rate := min_le_right _ _
        have hsplit : rate * (now - first) = rate * (last - first) + (now - last) * rate := by
          ring
        linarith
    · have hzero : times.countP (first ≤ ·) = 0 := by
        rw [List.countP_eq_zero]
        simpa using hany
      rw [hzero, Nat.cast_zero]
      linarith
  refine ⟨.inr ⟨now, _, rfl, List.mem_cons_self, le_rfl, by linarith, by linarith, ?_, ?_⟩, ?_⟩
  · intro t ht
    rcases List.mem_cons.mp ht with rfl | ht
    · exact le_rfl
    · exact hbefore t ht
  · rintro first ⟨t, ht, hft⟩
    refine hpotential first (hft.trans ?_)
    rcases List.mem_cons.mp ht with rfl | ht
    · exact le_rfl
    · exact hbefore t ht
  · intro first last hfirst
    by_cases hin : first ≤ now ∧ now ≤ last
    · have hcount : within first last (now :: times) ≤ (now :: times).countP (first ≤ ·) :=
        List.countP_mono_left fun t _ ht => by
          simp only [decide_eq_true_eq] at ht ⊢
          exact ht.1
      have hcast : (within first last (now :: times) : K) ≤
          ((now :: times).countP (first ≤ ·) : K) := Nat.cast_le.mpr hcount
      have hpot := hpotential first hin.1
      have hmono : rate * (now - first) ≤ rate * (last - first) :=
        mul_le_mul_of_nonneg_left (sub_le_sub_right hin.2 first) hrate
      linarith
    · rw [within, List.countP_cons_of_neg (by simpa using hin)]
      exact h.window first last hfirst

/-- An item that comes late enough after the last one is accepted. -/
theorem Bounded.admits (h : b.Bounded burst rate now times) (hburst : 1 ≤ burst)
    (hrate : 0 < rate) (hlate : ∀ t ∈ times, 1 / rate ≤ now - t) :
    1 ≤ b.available burst rate now := by
  rcases h.used with ⟨rfl, -⟩ | ⟨last, credit, rfl, hmem, -, hnonneg, -⟩
  · simp [available, fresh, hburst]
  · have hgain : 1 ≤ (now - last) * rate := by
      have := mul_le_mul_of_nonneg_right (hlate last hmem) hrate.le
      rwa [one_div, inv_mul_cancel₀ hrate.ne'] at this
    refine le_min hburst ?_
    simp only [Option.getD_some]
    linarith

end Bucket
end CppChat.Foundation
