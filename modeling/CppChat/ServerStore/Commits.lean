import CppChat.ServerStore.StoreInvariant

/-! # Commits and the table

The table changes by commits alone, and a commit adds the rows of its call. A step of one
call leaves every other call alone, and the conversation of a running call is frozen.
-/
namespace CppChat.ServerStore
open Foundation

variable {W : Type} [DecidableEq W] {D : Deployment W}

/-- The steps that make rows of a call durable. -/
def Action.Commits (a : Action) (k : ℕ) : Prop := a = .commit k ∨ a = .commitRaised k true

def Action.actor : Action → ℕ
  | .unavailable k _ | .begin k _ | .statement k _ | .fail k | .commit k | .commitRaised k _ => k

namespace State

variable {s s₁ s' : State D} {k : ℕ} {a : Action} {batch done todo : List ChatMessage}

omit [DecidableEq W] in
theorem mem_table {r : ChatRow} :
    r ∈ s.table ↔ ∃ e ∈ s.store.rows, e.committed = true ∧ e.row = r := by
  simp [table, and_assoc]

theorem table_unique (s : State D) (t u : Int) (w : W) : (s.table.filter fun r =>
    r.threadId = t ∧ r.senderId = u ∧ r.uniqueId ≠ "" ∧ D.weight r.uniqueId = w).length ≤ 1 := by
  rw [table, List.filter_map, List.length_map, List.filter_filter]
  refine s.store.length_filter_le_one fun a b ha hb => ?_
  simp only [Function.comp_apply, Bool.and_eq_true, decide_eq_true_eq] at ha hb
  exact .inr ⟨ha.1.1.trans hb.1.1.symm, ha.1.2.1.trans hb.1.2.1.symm, ha.1.2.2.1, hb.1.2.2.1,
    ha.1.2.2.2.trans hb.1.2.2.2.symm⟩

/-! ## Steps and the table -/

omit [DecidableEq W] in
theorem abort_table (s : State D) (k : ℕ) (c : Call) : (s.abort k c).table = s.table := by
  have hrows : (s.abort k c).store.rows =
      s.store.rows.filter fun e => !decide (e.writer = k ∧ e.committed = false) := rfl
  rw [table, table, hrows, List.filter_filter]
  refine congrArg _ (List.filter_congr fun e _ => ?_)
  cases e.committed <;> simp

/-- Only a commit changes the table. -/
theorem table_of_step (h : s.step a = some s') (hc : ∀ k, ¬ a.Commits k) : s'.table = s.table := by
  cases did_of_step h with
  | refused hnew ha => rfl
  | started hnew hok hfree hauth => rfl
  | found hcall hlook hcarries => rfl
  | inserted hcall hlook hid hins =>
    simp only [table, setCall_store, hins, List.filter_append]
    simp
  | conflicted hcall hlook hcarries => exact abort_table _ _ _
  | threw hcall ha => exact abort_table _ _ _
  | committed hcall ha => exact absurd (ha.imp And.left And.left) (hc _)
  | lost hcall => exact abort_table _ _ _

/-- A commit of call `k` adds exactly the rows that `k` wrote. -/
theorem table_of_commit (h : s.step a = some s') (hc : a.Commits k) (r : ChatRow) :
    r ∈ s'.table ↔ r ∈ s.table ∨ ∃ e ∈ s.store.rows, e.writer = k ∧ e.row = r := by
  have hfinish : ∀ c, r ∈ (s.finish k c).table ↔
      r ∈ s.table ∨ ∃ e ∈ s.store.rows, e.writer = k ∧ e.row = r := by
    intro c
    simp only [mem_table, mem_finish]
    constructor
    · rintro ⟨_, ⟨e, he, rfl⟩, hcommitted, rfl⟩
      rw [commitEntry_row]
      by_cases hw : e.writer = k
      · exact .inr ⟨e, he, hw, rfl⟩
      · rw [commitEntry_of_ne hw] at hcommitted
        exact .inl ⟨e, he, hcommitted, rfl⟩
    · rintro (⟨e, he, hcommitted, rfl⟩ | ⟨e, he, hw, rfl⟩)
      · exact ⟨e, ⟨e, he, commitEntry_of_committed hcommitted⟩, hcommitted, rfl⟩
      · refine ⟨_, ⟨e, he, rfl⟩, ?_, commitEntry_row k e⟩
        unfold commitEntry
        rw [if_pos hw]
  cases did_of_step h with
  | refused hnew ha => rcases hc with rfl | rfl <;> simp at ha
  | started hnew hok hfree hauth => rcases hc with h | h <;> cases h
  | found hcall hlook hcarries => rcases hc with h | h <;> cases h
  | inserted hcall hlook hid hins => rcases hc with h | h <;> cases h
  | conflicted hcall hlook hcarries => rcases hc with h | h <;> cases h
  | threw hcall ha => rcases hc with rfl | rfl <;> simp at ha
  | @committed _ j _ _ _ hcall ha =>
    have hk : j = k := by
      rcases ha with ⟨rfl, -⟩ | ⟨rfl, -⟩ <;> rcases hc with h | h <;> cases h <;> rfl
    subst hk
    exact hfinish _
  | lost hcall => rcases hc with h | h <;> cases h

theorem table_mono (h : s.step a = some s') {r : ChatRow} (hr : r ∈ s.table) : r ∈ s'.table := by
  by_cases hc : ∃ k, a.Commits k
  · obtain ⟨k, hc⟩ := hc
    exact (table_of_commit h hc r).mpr (.inl hr)
  · push Not at hc
    rw [table_of_step h hc]
    exact hr

theorem table_mono_run (h : (server D).Run s s') {r : ChatRow} (hr : r ∈ s.table) : r ∈ s'.table := by
  induction h with
  | refl => exact hr
  | tail _ hnext ih =>
    obtain ⟨a, ha⟩ := hnext
    exact table_mono ha ih

theorem running_of_commit (h : s.step a = some s') (hc : a.Commits k) :
    ∃ batch done, s.calls k = some (.running batch done []) := by
  rcases hc with rfl | rfl
  · simp only [step] at h
    split at h
    next batch done hcall => exact ⟨batch, done, hcall⟩
    next => cases h
  · simp only [step] at h
    split at h
    next batch done hcall => exact ⟨batch, done, hcall⟩
    next => cases h

/-- While a call runs, no other call changes the rows of its conversation. -/
theorem Inv.frozen (hinv : s.Inv) (hcall : s.calls k = some (.running batch done todo))
    (h : s.step a = some s') (hk : ¬ a.Commits k) {r : ChatRow} (ht : r.threadId = threadOf batch) :
    r ∈ s'.table ↔ r ∈ s.table := by
  by_cases hc : ∃ j, a.Commits j
  · obtain ⟨j, hc⟩ := hc
    rw [table_of_commit h hc]
    refine or_iff_left ?_
    rintro ⟨e, he, hw, rfl⟩
    obtain ⟨b, d, hj⟩ := running_of_commit h hc
    have hlock := ((hinv.running hj).lock (threadOf b)).mpr rfl
    rw [← ((hinv.running hj).own e he hw).2, ht, ((hinv.running hcall).lock _).mpr rfl] at hlock
    exact hk (Option.some_inj.mp hlock ▸ hc)
  · push Not at hc
    rw [table_of_step h hc]

/-- A step of one call leaves every other call and its rows alone. -/
theorem Did.other (h : Did s a s') (hk : a.actor ≠ k) :
    s'.calls k = s.calls k ∧ ∀ e ∈ s'.store.rows, e.writer = k → e ∈ s.store.rows := by
  have hcall : ∀ j (c : Call), a.actor = j → Function.update s.calls j (some c) k = s.calls k :=
    fun j c hj => Function.update_of_ne (fun he => hk (hj.trans he.symm)) _ _
  have habort : ∀ j (c : Call), ∀ e ∈ (s.abort j c).store.rows, e.writer = k → e ∈ s.store.rows :=
    fun j c e he _ => (mem_abort.mp he).1
  cases h with
  | refused hnew ha =>
    refine ⟨hcall _ _ ?_, fun e he _ => he⟩
    rcases ha with rfl | ⟨rfl, -⟩ <;> rfl
  | started hnew hok hfree hauth => exact ⟨hcall _ _ rfl, fun e he _ => he⟩
  | found hrun hlook hcarries => exact ⟨hcall _ _ rfl, fun e he _ => he⟩
  | inserted hrun hlook hid hins =>
    refine ⟨hcall _ _ rfl, fun e he hw => ?_⟩
    rw [setCall_store, hins, List.mem_append, List.mem_singleton] at he
    rcases he with he | rfl
    · exact he
    · exact absurd hw hk
  | conflicted hrun hlook hcarries => exact ⟨hcall _ _ rfl, habort _ _⟩
  | threw hrun ha =>
    refine ⟨hcall _ _ ?_, habort _ _⟩
    rcases ha with rfl | ⟨_, _, _, rfl, -⟩ <;> rfl
  | @committed _ j _ _ _ hrun ha =>
    have hj : a.actor = j := by rcases ha with ⟨rfl, -⟩ | ⟨rfl, -⟩ <;> rfl
    refine ⟨hcall _ _ hj, fun e he hw => ?_⟩
    obtain ⟨e₀, he₀, rfl⟩ := mem_finish.mp he
    rw [commitEntry_writer] at hw
    rwa [commitEntry_of_ne fun h => hk (hj.trans (h.symm.trans hw))]
  | lost hrun => exact ⟨hcall _ _ rfl, habort _ _⟩

/-- A call that has ended takes no further step. -/
theorem Did.actor_running (h : Did s a s') :
    s.calls a.actor = none ∨ ∃ batch done todo, s.calls a.actor = some (.running batch done todo) := by
  cases h with
  | refused hnew ha => rcases ha with rfl | ⟨rfl, -⟩ <;> exact .inl hnew
  | started hnew hok hfree hauth => exact .inl hnew
  | found hrun hlook hcarries => exact .inr ⟨_, _, _, hrun⟩
  | inserted hrun hlook hid hins => exact .inr ⟨_, _, _, hrun⟩
  | conflicted hrun hlook hcarries => exact .inr ⟨_, _, _, hrun⟩
  | threw hrun ha => rcases ha with rfl | ⟨_, _, _, rfl, -⟩ <;> exact .inr ⟨_, _, _, hrun⟩
  | committed hrun ha => rcases ha with ⟨rfl, -⟩ | ⟨rfl, -⟩ <;> exact .inr ⟨_, _, _, hrun⟩
  | lost hrun => exact .inr ⟨_, _, _, hrun⟩

theorem Did.ended (h : Did s a s') {c : Call} (hcall : s.calls k = some c)
    (hend : ∀ b d t, c ≠ .running b d t) : a.actor ≠ k := by
  rintro rfl
  rcases h.actor_running with hnone | ⟨b, d, t, hrun⟩
  · rw [hcall] at hnone
    cases hnone
  · rw [hcall] at hrun
    exact hend b d t (Option.some_inj.mp hrun)

end State
end CppChat.ServerStore
