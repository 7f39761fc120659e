import Mathlib.Logic.Relation

/-! # Labelled transition machines

A machine says where a component may start and which steps each label allows.
Safety of every run is one induction, packaged here once: an invariant that
holds initially and survives each step holds in every reachable state, and a
preorder kept by each step relates the two ends of every run.
-/
namespace CppChat.Foundation

variable {σ α τ : Type*}

structure Machine (σ α : Type*) where
  init : σ → Prop
  step : σ → α → σ → Prop

namespace Machine

/-- States the machine can be in after some run from an initial state. -/
inductive Reachable (M : Machine σ α) : σ → Prop
  | init {s : σ} (h : M.init s) : Reachable M s
  | step {s t : σ} {a : α} (hs : Reachable M s) (h : M.step s a t) : Reachable M t

/-- One step of any label. -/
def Next (M : Machine σ α) (s t : σ) : Prop := ∃ a, M.step s a t

/-- A run of any length, from any state. -/
abbrev Run (M : Machine σ α) : σ → σ → Prop := Relation.ReflTransGen M.Next

/-- Two machine properties that together hold along every run. The step may use
that its source is reachable. -/
structure Invariant (M : Machine σ α) (I : σ → Prop) : Prop where
  init : ∀ s, M.init s → I s
  step : ∀ s a t, M.Reachable s → I s → M.step s a t → I t

theorem Invariant.reachable {M : Machine σ α} {I : σ → Prop} (h : M.Invariant I) {s : σ}
    (hs : M.Reachable s) : I s := by
  induction hs with
  | init h0 => exact h.init _ h0
  | step hs hstep ih => exact h.step _ _ _ hs ih hstep

theorem Reachable.run {M : Machine σ α} {s t : σ} (hs : M.Reachable s) (h : M.Run s t) :
    M.Reachable t := by
  induction h with
  | refl => exact hs
  | tail _ hstep ih =>
    obtain ⟨a, ha⟩ := hstep
    exact ih.step ha

/-- A reflexive, transitive relation kept by every step from a reachable state relates
the two ends of every run. -/
theorem Run.relates {M : Machine σ α} {R : σ → σ → Prop} (hrefl : ∀ s, R s s)
    (htrans : ∀ s t u, R s t → R t u → R s u)
    (hstep : ∀ s a t, M.Reachable s → M.step s a t → R s t) {s t : σ} (hs : M.Reachable s)
    (h : M.Run s t) : R s t := by
  induction h with
  | refl => exact hrefl s
  | tail hrun hnext ih =>
    obtain ⟨a, ha⟩ := hnext
    exact htrans _ _ _ ih (hstep _ a _ (hs.run hrun) ha)

/-- The runs all of whose steps meet a condition on the state before the step. -/
def restrict (M : Machine σ α) (ok : σ → α → Prop) : Machine σ α where
  init := M.init
  step s a t := ok s a ∧ M.step s a t

theorem Reachable.of_restrict {M : Machine σ α} {ok : σ → α → Prop} {s : σ}
    (hs : (M.restrict ok).Reachable s) : M.Reachable s := by
  induction hs with
  | init h => exact .init h
  | step _ h ih => exact ih.step h.2

theorem Reachable.restrict_mono {M : Machine σ α} {ok ok' : σ → α → Prop} {s : σ}
    (himp : ∀ s a, ok s a → ok' s a) (hs : (M.restrict ok).Reachable s) :
    (M.restrict ok').Reachable s := by
  induction hs with
  | init h => exact .init h
  | step _ h ih => exact ih.step ⟨himp _ _ h.1, h.2⟩

/-- A machine whose steps are computed by a partial function. -/
def ofFn (init : σ → Prop) (next : σ → α → Option σ) : Machine σ α where
  init := init
  step s a t := next s a = some t

/-- Runs a list of labels. -/
def runFn (next : σ → α → Option σ) : σ → List α → Option σ
  | s, [] => some s
  | s, a :: as => (next s a).bind fun t => runFn next t as

theorem Reachable.runFn {init : σ → Prop} {next : σ → α → Option σ} {as : List α} {s t : σ}
    (hs : (ofFn init next).Reachable s) (h : runFn next s as = some t) :
    (ofFn init next).Reachable t := by
  induction as generalizing s with
  | nil =>
    cases h
    exact hs
  | cons a as ih =>
    obtain ⟨u, hu, h⟩ := Option.bind_eq_some_iff.mp h
    exact ih (hs.step hu) h

theorem Reachable.runFn_restrict {init : σ → Prop} {next : σ → α → Option σ} {ok : σ → α → Prop}
    [∀ s a, Decidable (ok s a)] {as : List α} {s t : σ}
    (hs : ((ofFn init next).restrict ok).Reachable s)
    (h : Machine.runFn (fun s a => if ok s a then next s a else none) s as = some t) :
    ((ofFn init next).restrict ok).Reachable t := by
  induction as generalizing s with
  | nil =>
    cases h
    exact hs
  | cons a as ih =>
    obtain ⟨u, hu, h⟩ := Option.bind_eq_some_iff.mp h
    dsimp only at hu
    split at hu
    next hok => exact ih (hs.step ⟨hok, hu⟩) h
    next => cases hu

/-- A run of labels that all meet a condition. -/
theorem Reachable.runFn_labels {init : σ → Prop} {next : σ → α → Option σ} {ok : α → Prop}
    {as : List α} {s t : σ} (hok : ∀ a ∈ as, ok a)
    (hs : ((ofFn init next).restrict fun _ a => ok a).Reachable s)
    (h : Machine.runFn next s as = some t) :
    ((ofFn init next).restrict fun _ a => ok a).Reachable t := by
  induction as generalizing s with
  | nil =>
    cases h
    exact hs
  | cons a as ih =>
    obtain ⟨u, hu, h⟩ := Option.bind_eq_some_iff.mp h
    exact ih (fun b hb => hok b (List.mem_cons_of_mem a hb))
      (hs.step ⟨hok a List.mem_cons_self, hu⟩) h

/-- The concrete machine `M` simulates into the abstract `N` through `R`: every concrete
step is matched by a run of the abstract machine. -/
structure Simulates {β : Type*} (M : Machine σ α) (N : Machine τ β) (R : σ → τ → Prop) :
    Prop where
  init : ∀ s, M.init s → ∃ t, N.init t ∧ R s t
  step : ∀ s a s' t, M.Reachable s → R s t → M.step s a s' → ∃ t', N.Run t t' ∧ R s' t'

theorem Simulates.reachable {β : Type*} {M : Machine σ α} {N : Machine τ β} {R : σ → τ → Prop}
    (h : M.Simulates N R) {s : σ} (hs : M.Reachable s) : ∃ t, N.Reachable t ∧ R s t := by
  induction hs with
  | init h0 =>
    obtain ⟨t, ht, hR⟩ := h.init _ h0
    exact ⟨t, .init ht, hR⟩
  | step hs hstep ih =>
    obtain ⟨t, ht, hR⟩ := ih
    obtain ⟨t', hrun, hR'⟩ := h.step _ _ _ _ hs hR hstep
    exact ⟨t', ht.run hrun, hR'⟩

end Machine
end CppChat.Foundation
