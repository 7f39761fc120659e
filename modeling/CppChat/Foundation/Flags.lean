import Mathlib.Data.Multiset.Count
import Mathlib.Logic.Function.Basic

/-! # Flags that a callback clears

A component raises a flag when it asks for something and lowers it in the callback. The flags of a
component are matched when of each kind one callback is outstanding where its flag is raised, and
none where it is not.
-/
namespace CppChat.Foundation

variable {γ κ : Type*} [DecidableEq κ]

def Flagged (kind : γ → κ) (flag : κ → Bool) (calls : Multiset γ) : Prop :=
  ∀ k, calls.countP (fun c => kind c = k) = (flag k).toNat

namespace Flagged

variable {kind : γ → κ} {flag : κ → Bool} {calls : Multiset γ} {c d : γ} {k : κ}

theorem none (kind : γ → κ) : Flagged kind (fun _ => false) 0 := fun _ => rfl

theorem flag_of_mem (h : Flagged kind flag calls) (hc : c ∈ calls) : flag (kind c) = true := by
  have hcount := h (kind c)
  have hpos : 0 < calls.countP (fun d => kind d = kind c) := Multiset.countP_pos.mpr ⟨c, hc, rfl⟩
  cases hflag : flag (kind c) with
  | true => rfl
  | false =>
    rw [hcount, hflag] at hpos
    exact absurd hpos (Nat.lt_irrefl 0)

/-- A flag that is raised has its one callback. -/
theorem callback (h : Flagged kind flag calls) (hk : flag k = true) :
    ∃ c rest, calls = c ::ₘ rest ∧ kind c = k ∧ ∀ d ∈ rest, kind d ≠ k := by
  have hcount := h k
  rw [hk] at hcount
  have hpos : 0 < calls.countP (fun c => kind c = k) := by
    rw [hcount]
    exact Nat.one_pos
  obtain ⟨c, hc, hkind⟩ := Multiset.countP_pos.mp hpos
  obtain ⟨rest, rfl⟩ := Multiset.exists_cons_of_mem hc
  refine ⟨c, rest, rfl, hkind, fun d hd hd' => ?_⟩
  rw [Multiset.countP_cons, if_pos hkind] at hcount
  have hrest : 0 < rest.countP (fun d => kind d = k) := Multiset.countP_pos.mpr ⟨d, hd, hd'⟩
  rw [Bool.toNat_true] at hcount
  omega

theorem raise (h : Flagged kind flag calls) {flag' : κ → Bool} (hc : flag (kind c) = false)
    (hself : flag' (kind c) = true) (hother : ∀ k, k ≠ kind c → flag' k = flag k) :
    Flagged kind flag' (c ::ₘ calls) := by
  intro k
  have hcount := h k
  by_cases hk : kind c = k
  · subst hk
    rw [Multiset.countP_cons, if_pos rfl, hcount, hc, hself]
    rfl
  · rw [Multiset.countP_cons, if_neg hk, hcount, Nat.add_zero, hother k (Ne.symm hk)]

theorem lower (h : Flagged kind flag (c ::ₘ calls)) {flag' : κ → Bool}
    (hself : flag' (kind c) = false) (hother : ∀ k, k ≠ kind c → flag' k = flag k) :
    Flagged kind flag' calls := by
  intro k
  have hcount := h k
  by_cases hk : kind c = k
  · subst hk
    rw [Multiset.countP_cons, if_pos rfl, h.flag_of_mem (Multiset.mem_cons_self c calls)]
      at hcount
    rw [hself]
    exact Nat.succ_injective hcount
  · rw [Multiset.countP_cons, if_neg hk, Nat.add_zero] at hcount
    rw [hcount, hother k (Ne.symm hk)]

/-- A callback that asks again under the same flag. -/
theorem replace (h : Flagged kind flag (c ::ₘ calls)) (hkind : kind d = kind c) :
    Flagged kind flag (d ::ₘ calls) := by
  intro k
  have hcount := h k
  rw [Multiset.countP_cons] at hcount ⊢
  rwa [hkind]

end Flagged
end CppChat.Foundation
