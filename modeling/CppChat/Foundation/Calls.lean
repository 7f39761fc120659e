import Mathlib.Data.Multiset.AddSub
import Mathlib.Data.Multiset.Count
import CppChat.Foundation.Transition

/-! # Calls in flight

Callers of a component share its state and run interleaved, one step of one call at a time.
A call is known by its control state, so the calls in flight are a multiset. An invariant
looks at one call and the rest of them.
-/
namespace CppChat.Foundation

/-- What a call may start as, and what a step of a call does to the shared state; a call that
has returned leaves no control state. -/
structure Component (σ ℓ α : Type*) where
  entry : ℓ → Bool
  act : σ → ℓ → α → Option (σ × Option ℓ)

namespace Component

variable {σ ℓ α : Type*}

structure State (σ ℓ : Type*) where
  shared : σ
  calls : Multiset ℓ

inductive Action (ℓ α : Type*)
  | enter (c : ℓ)
  | act (c : ℓ) (a : α)
  deriving DecidableEq

/-- The calls after one of them went on or returned. -/
def resume (m : Multiset ℓ) : Option ℓ → Multiset ℓ
  | none => m
  | some c => c ::ₘ m

@[simp] theorem resume_none (m : Multiset ℓ) : resume m none = m := rfl
@[simp] theorem resume_some (m : Multiset ℓ) (c : ℓ) : resume m (some c) = c ::ₘ m := rfl

theorem mem_resume {m : Multiset ℓ} {c : ℓ} {r : Option ℓ} :
    c ∈ resume m r ↔ r = some c ∨ c ∈ m := by
  cases r with
  | none => simp
  | some d => simp [eq_comm]

variable [DecidableEq ℓ] (C : Component σ ℓ α)

def next (s : State σ ℓ) : Action ℓ α → Option (State σ ℓ)
  | .enter c => if C.entry c then some ⟨s.shared, c ::ₘ s.calls⟩ else none
  | .act c a =>
    if c ∈ s.calls then
      (C.act s.shared c a).map fun r => ⟨r.1, resume (s.calls.erase c) r.2⟩
    else none

/-- All interleavings of any number of calls. -/
def machine (init : σ → Prop) : Machine (State σ ℓ) (Action ℓ α) :=
  .ofFn (fun s => init s.shared ∧ s.calls = 0) C.next

variable {C} {init : σ → Prop} {s t : State σ ℓ}

/-- What a step can be. -/
theorem next_cases {e : Action ℓ α} (h : C.next s e = some t) :
    (∃ c, e = .enter c ∧ C.entry c ∧ t = ⟨s.shared, c ::ₘ s.calls⟩) ∨
    ∃ c a m r, e = .act c a ∧ s.calls = c ::ₘ m ∧ C.act s.shared c a = some (t.shared, r) ∧
      t.calls = resume m r := by
  cases e with
  | enter c =>
    simp only [next] at h
    split at h
    · cases h
      exact .inl ⟨c, rfl, ‹_›, rfl⟩
    · cases h
  | act c a =>
    simp only [next] at h
    split at h
    · obtain ⟨⟨u, r⟩, hact, rfl⟩ := Option.map_eq_some_iff.mp h
      exact .inr ⟨c, a, s.calls.erase c, r, rfl, (Multiset.cons_erase ‹_›).symm, hact, rfl⟩
    · cases h

theorem next_act {c : ℓ} {a : α} {u : σ} {r : Option ℓ} (hc : c ∈ s.calls)
    (h : C.act s.shared c a = some (u, r)) :
    C.next s (.act c a) = some ⟨u, resume (s.calls.erase c) r⟩ := by
  simp only [next, if_pos hc, h, Option.map_some]

/-- A property of the shared state and the calls in flight that the entry of a call and
every step of a call keep holds along every run. -/
theorem invariant {I : σ → Multiset ℓ → Prop} (hinit : ∀ u, init u → I u 0)
    (henter : ∀ u m c, C.entry c → I u m → I u (c ::ₘ m))
    (hact : ∀ u m c a v r, I u (c ::ₘ m) → C.act u c a = some (v, r) → I v (resume m r)) :
    (C.machine init).Invariant fun s => I s.shared s.calls := by
  refine ⟨?_, fun s e t _ hs h => ?_⟩
  · rintro s ⟨hshared, hcalls⟩
    rw [hcalls]
    exact hinit _ hshared
  · rcases next_cases h with ⟨c, -, hc, rfl⟩ | ⟨c, a, m, r, -, hm, hstep, ht⟩
    · exact henter _ _ c hc hs
    · rw [hm] at hs
      rw [ht]
      exact hact _ m c a _ r hs hstep

end Component
end CppChat.Foundation
