import CppChat.ServerStore.Commits

/-! # Exactly-once storage

The table never holds a message twice; a batch that is stored already commits without
writing and answers from the stored rows; a batch that reuses a stored id for another
payload is rejected; a call that fails before its commit leaves the table as it was.
-/
namespace CppChat.ServerStore
open Foundation

variable {W : Type} [DecidableEq W] {D : Deployment W}

namespace State

variable {s s₀ s₁ s' : State D} {k : ℕ} {a : Action} {batch done todo : List ChatMessage}

/-- The stored row of a message: same key, and the same payload. -/
def Original (s : State D) (m m' : ChatMessage) : Prop :=
  ∃ r ∈ s.table, r.SameKey D m ∧ r.Carries m ∧ m' = m.acknowledge r

def IsStored (s : State D) (m : ChatMessage) : Prop := ∃ r ∈ s.table, r.SameKey D m ∧ r.Carries m

/-- The key of the message is stored with another receiver, content or type. -/
def Conflicts (s : State D) (m : ChatMessage) : Prop :=
  ∃ r ∈ s.table, r.SameKey D m ∧ ¬ r.Carries m

theorem Inv.lookup_table (hinv : s.Inv) {m : ChatMessage} {r : ChatRow} (hr : r ∈ s.table)
    (hk : r.SameKey D m) (k : ℕ) : s.lookup k m = some r := by
  obtain ⟨e, he, hc, rfl⟩ := mem_table.mp hr
  exact hinv.lookup_eq he (.inl hc) hk

theorem exists_of_mem_forall₂ {α β : Type*} {R : α → β → Prop} {l : List α} {l' : List β}
    (h : List.Forall₂ R l l') {x : α} (hx : x ∈ l) : ∃ y, R x y := by
  induction h with
  | nil => cases hx
  | cons hxy _ ih =>
    rcases List.mem_cons.mp hx with rfl | hx
    · exact ⟨_, hxy⟩
    · exact ih hx

omit [DecidableEq W] in
/-- What a running call has answered does not conflict with the table. -/
theorem Inv.not_conflicts (hinv : s.Inv) {m m' : ChatMessage} (h : s.Answered k m m') :
    ¬ s.Conflicts m := by
  rintro ⟨r, hr, hk, hnot⟩
  obtain ⟨e, he, -, hk', hcarries, -⟩ := h
  obtain ⟨e', he', -, rfl⟩ := mem_table.mp hr
  rw [hinv.eq_of_sameKey he he' hk' hk] at hcarries
  exact hnot hcarries

omit [DecidableEq W] in
theorem Inv.conflicts_mem_todo (hinv : s.Inv) (hcall : s.calls k = some (.running batch done todo))
    {m : ChatMessage} (hm : m ∈ batch) (hconf : s.Conflicts m) : m ∈ todo := by
  obtain ⟨pre, hpre, hans⟩ := (hinv.running hcall).answered
  rw [hpre] at hm
  rcases List.mem_append.mp hm with hm | hm
  · obtain ⟨m', hm'⟩ := exists_of_mem_forall₂ hans hm
    exact absurd hconf (hinv.not_conflicts hm')
  · exact hm

/-- A call on a batch that is stored already: it never writes a row. -/
structure Replays (s : State D) (k : ℕ) (batch : List ChatMessage) : Prop where
  stored : ∀ m ∈ batch, s.IsStored m
  silent : ∀ e ∈ s.store.rows, e.writer ≠ k
  call : (∃ done todo, s.calls k = some (.running batch done todo)) ∨
    s.calls k = some (.failed batch .exception) ∨
    ∃ done, s.calls k = some (.raised batch done) ∨ s.calls k = some (.stored batch done)

theorem IsStored.mono {m : ChatMessage} (h : s.IsStored m) (hstep : s.step a = some s') :
    s'.IsStored m := by
  obtain ⟨r, hr, hk, hc⟩ := h
  exact ⟨r, table_mono hstep hr, hk, hc⟩

/-- The lookup of a stored message finds its row, which carries it. -/
theorem Inv.lookup_stored (hinv : s.Inv) {m : ChatMessage} (h : s.IsStored m) (k : ℕ) :
    ∃ r ∈ s.table, s.lookup k m = some r ∧ r.Carries m := by
  obtain ⟨r, hr, hk, hc⟩ := h
  exact ⟨r, hr, hinv.lookup_table hr hk k, hc⟩

omit [DecidableEq W] in
theorem Inv.todo_subset (hinv : s.Inv) (hcall : s.calls k = some (.running batch done todo)) :
    todo ⊆ batch := by
  obtain ⟨pre, hpre, -⟩ := (hinv.running hcall).answered
  rw [hpre]
  exact List.subset_append_right pre todo

theorem Replays.step (h : s.Replays k batch) (hinv : s.Inv) (hstep : s.step a = some s') :
    s'.Replays k batch := by
  have hdid := did_of_step hstep
  have hstored : ∀ m ∈ batch, s'.IsStored m := fun m hm => (h.stored m hm).mono hstep
  rcases ne_or_eq a.actor k with hother | rfl
  · obtain ⟨hcall, hrows⟩ := hdid.other hother
    exact ⟨hstored, fun e he hw => h.silent e (hrows e he hw) hw, hcall ▸ h.call⟩
  obtain ⟨done, todo, hcall⟩ : ∃ done todo, s.calls a.actor = some (.running batch done todo) := by
    rcases h.call with hcall | hcall | ⟨done, hcall | hcall⟩
    · exact hcall
    all_goals exact absurd rfl (hdid.ended hcall fun _ _ _ => by simp)
  have hsilent : ∀ (c : Call), ∀ e ∈ (s.abort a.actor c).store.rows, e.writer ≠ a.actor :=
    fun c e he => h.silent e (mem_abort.mp he).1
  have hfinds : ∀ m ∈ todo, ∃ r, s.lookup a.actor m = some r ∧ r.Carries m := by
    intro m hm
    obtain ⟨r, -, hr⟩ := hinv.lookup_stored (h.stored m (hinv.todo_subset hcall hm)) a.actor
    exact ⟨r, hr⟩
  cases hdid with
  | refused hnew ha =>
    rcases ha with rfl | ⟨rfl, -⟩ <;> cases hnew.symm.trans hcall
  | started hnew hok hfree hauth => cases hnew.symm.trans hcall
  | found hrun hlook hcarries =>
    cases hrun.symm.trans hcall
    exact ⟨hstored, h.silent, .inl ⟨_, _, Function.update_self _ _ _⟩⟩
  | inserted hrun hlook hid hins =>
    cases hrun.symm.trans hcall
    obtain ⟨r, hr, -⟩ := hfinds _ List.mem_cons_self
    cases hlook.symm.trans hr
  | conflicted hrun hlook hcarries =>
    cases hrun.symm.trans hcall
    obtain ⟨r, hr, hc⟩ := hfinds _ List.mem_cons_self
    cases hlook.symm.trans hr
    exact absurd hc hcarries
  | threw hrun ha =>
    rcases ha with rfl | ⟨m, todo', id, rfl, rfl, -⟩ <;>
    · cases hrun.symm.trans hcall
      exact ⟨hstored, hsilent _, .inr (.inl (Function.update_self _ _ _))⟩
  | committed hrun ha =>
    rcases ha with ⟨rfl, rfl⟩ | ⟨rfl, rfl⟩ <;>
    · cases hrun.symm.trans hcall
      refine ⟨hstored, fun e he => ?_, .inr (.inr ⟨done, ?_⟩)⟩
      · obtain ⟨e₀, he₀, rfl⟩ := mem_finish.mp he
        rw [commitEntry_writer]
        exact h.silent e₀ he₀
      · simp [Action.actor]
  | lost hrun =>
    cases hrun.symm.trans hcall
    exact ⟨hstored, hsilent _, .inr (.inr ⟨done, .inl (Function.update_self _ _ _)⟩)⟩

/-- A call on a batch that conflicts with the table: it never reaches its commit. -/
structure Rejects (s : State D) (k : ℕ) (batch : List ChatMessage) : Prop where
  conflicts : ∃ m ∈ batch, s.Conflicts m
  call : (∃ done todo, s.calls k = some (.running batch done todo)) ∨
    ∃ why, s.calls k = some (.failed batch why)

theorem Conflicts.mono {m : ChatMessage} (h : s.Conflicts m) (hstep : s.step a = some s') :
    s'.Conflicts m := by
  obtain ⟨r, hr, hk, hc⟩ := h
  exact ⟨r, table_mono hstep hr, hk, hc⟩

theorem Rejects.step (h : s.Rejects k batch) (hinv : s.Inv) (hstep : s.step a = some s') :
    s'.Rejects k batch := by
  have hdid := did_of_step hstep
  obtain ⟨m, hm, hconf⟩ := h.conflicts
  have hconf' : ∃ m ∈ batch, s'.Conflicts m := ⟨m, hm, hconf.mono hstep⟩
  rcases ne_or_eq a.actor k with hother | rfl
  · exact ⟨hconf', (hdid.other hother).1 ▸ h.call⟩
  obtain ⟨done, todo, hcall⟩ : ∃ done todo, s.calls a.actor = some (.running batch done todo) := by
    rcases h.call with hcall | ⟨why, hcall⟩
    · exact hcall
    · exact absurd rfl (hdid.ended hcall fun _ _ _ => by simp)
  have htodo : m ∈ todo := hinv.conflicts_mem_todo hcall hm hconf
  cases hdid with
  | refused hnew ha =>
    rcases ha with rfl | ⟨rfl, -⟩ <;> cases hnew.symm.trans hcall
  | started hnew hok hfree hauth => cases hnew.symm.trans hcall
  | found hrun hlook hcarries =>
    cases hrun.symm.trans hcall
    exact ⟨hconf', .inl ⟨_, _, Function.update_self _ _ _⟩⟩
  | inserted hrun hlook hid hins =>
    cases hrun.symm.trans hcall
    exact ⟨hconf', .inl ⟨_, _, Function.update_self _ _ _⟩⟩
  | conflicted hrun hlook hcarries =>
    cases hrun.symm.trans hcall
    exact ⟨hconf', .inr ⟨_, Function.update_self _ _ _⟩⟩
  | threw hrun ha =>
    rcases ha with rfl | ⟨m, todo', id, rfl, rfl, -⟩ <;>
    · cases hrun.symm.trans hcall
      exact ⟨hconf', .inr ⟨_, Function.update_self _ _ _⟩⟩
  | committed hrun ha =>
    rcases ha with ⟨rfl, rfl⟩ | ⟨rfl, rfl⟩ <;>
    · cases hrun.symm.trans hcall
      cases htodo
  | lost hrun =>
    cases hrun.symm.trans hcall
    cases htodo

/-! ## Whole calls -/

theorem Replays.run (h : s₁.Replays k batch) (hinv : s₁.Inv) (hrun : (server D).Run s₁ s) :
    s.Inv ∧ s.Replays k batch := by
  induction hrun with
  | refl => exact ⟨hinv, h⟩
  | tail _ hnext ih =>
    obtain ⟨a, ha⟩ := hnext
    exact ⟨ih.1.step ha, ih.2.step ih.1 ha⟩

theorem Rejects.run (h : s₁.Rejects k batch) (hinv : s₁.Inv) (hrun : (server D).Run s₁ s) :
    s.Rejects k batch := by
  have hboth : s.Inv ∧ s.Rejects k batch := by
    induction hrun with
    | refl => exact ⟨hinv, h⟩
    | tail _ hnext ih =>
      obtain ⟨a, ha⟩ := hnext
      exact ⟨ih.1.step ha, ih.2.step ih.1 ha⟩
  exact hboth.2

theorem step_statement {m : ChatMessage} (hcall : s.calls k = some (.running batch done (m :: todo))) :
    s.step (.statement k s.nextId) = some (s.process k s.nextId batch done m todo) := by
  simp only [State.step, hcall, le_refl, if_true]

/-- The statements of a replayed batch find their rows one after the other. -/
theorem Replays.completes (h : s.Replays k batch) (hinv : s.Inv)
    (hcall : s.calls k = some (.running batch done todo)) :
    ∃ s₂ done', (server D).Run s s₂ ∧ s₂.table = s.table ∧
      s₂.calls k = some (.stored batch done') := by
  induction todo generalizing s done with
  | nil =>
    have hstep : s.step (.commit k) = some (s.finish k (.stored batch done)) := by
      simp only [State.step, hcall]
    refine ⟨_, done, .single ⟨.commit k, hstep⟩, ?_, Function.update_self _ _ _⟩
    have hmap : s.store.rows.map (commitEntry k) = s.store.rows :=
      (List.map_congr_left fun e he => commitEntry_of_ne (h.silent e he)).trans (List.map_id _)
    simp only [table, finish, persist, setCall_store, release_store, Table.map_rows, hmap]
  | cons m todo ih =>
    have hm : m ∈ batch := hinv.todo_subset hcall List.mem_cons_self
    obtain ⟨r, -, hlook, hcarries⟩ := hinv.lookup_stored (h.stored m hm) k
    have hstep := step_statement hcall
    simp only [process, hlook, hcarries, if_true] at hstep
    obtain ⟨s₂, done', hrun, htable, hstored⟩ :=
      ih (h.step hinv hstep) (hinv.step hstep) (Function.update_self _ _ _)
    exact ⟨s₂, done', .head ⟨_, hstep⟩ hrun, htable.trans rfl, hstored⟩

theorem Rejects.completes (h : s.Rejects k batch) (hinv : s.Inv)
    (hcall : s.calls k = some (.running batch done todo)) :
    ∃ s₂ why, (server D).Run s s₂ ∧ s₂.calls k = some (.failed batch why) := by
  induction todo generalizing s done with
  | nil =>
    obtain ⟨m, hm, hconf⟩ := h.conflicts
    cases hinv.conflicts_mem_todo hcall hm hconf
  | cons m todo ih =>
    have hstep := step_statement hcall
    have hnext : ∀ {s' done'}, s.step (.statement k s.nextId) = some s' →
        s'.calls k = some (.running batch done' todo) →
        ∃ s₂ why, (server D).Run s s₂ ∧ s₂.calls k = some (.failed batch why) := by
      intro s' done' hs hc
      obtain ⟨s₂, why, hrun, hfailed⟩ := ih (h.step hinv hs) (hinv.step hs) hc
      exact ⟨s₂, why, .head ⟨_, hs⟩ hrun, hfailed⟩
    unfold process at hstep
    split at hstep
    next r hlook =>
      split at hstep
      · exact hnext hstep (Function.update_self _ _ _)
      · exact ⟨_, _, .single ⟨_, hstep⟩, Function.update_self _ _ _⟩
    next hlook =>
      split at hstep
      · exact hnext hstep (Function.update_self _ _ _)
      · exact ⟨_, _, .single ⟨_, hstep⟩, Function.update_self _ _ _⟩

omit [DecidableEq W] in
theorem IsStored.authorised (hinv : s.Inv) {m : ChatMessage} (h : s.IsStored m) :
    D.Authorises m.senderId m.recvId m.threadId := by
  obtain ⟨r, hr, ⟨ht, hs, -⟩, hc⟩ := h
  obtain ⟨e, he, -, rfl⟩ := mem_table.mp hr
  rw [← hs, ← hc.1, ← ht]
  exact hinv.authorised e he

theorem begin_replays (hinv : s.Inv) (hstep : s.step (.begin k batch) = some s₁)
    (hok : BatchOk batch) (hstored : ∀ m ∈ batch, s.IsStored m) :
    s₁.calls k = some (.running batch [] batch) ∧ s₁.Replays k batch := by
  have hmono : ∀ m ∈ batch, s₁.IsStored m := fun m hm => (hstored m hm).mono hstep
  have hauth : D.AuthorisesBatch batch := by
    cases batch with
    | nil => exact hok.elim
    | cons first rest => exact (hstored first List.mem_cons_self).authorised hinv
  cases did_of_step hstep with
  | refused hnew ha =>
    rcases ha with ha | ⟨ha, hnot⟩
    · cases ha
    · cases ha
      exact absurd ⟨hok, hauth⟩ hnot
  | started hnew _ hfree _ =>
    have hidle : s.CallInv k none := hnew ▸ hinv.call k
    have hcall := Function.update_self k (some (.running batch [] batch)) s.calls
    exact ⟨hcall, hmono, hidle.2, .inl ⟨_, _, hcall⟩⟩
  | threw hcall ha =>
    rcases ha with ha | ⟨_, _, _, ha, -⟩ <;> cases ha
  | committed hcall ha =>
    rcases ha with ⟨ha, -⟩ | ⟨ha, -⟩ <;> cases ha

theorem begin_rejects (hstep : s.step (.begin k batch) = some s₁)
    (hconf : ∃ m ∈ batch, s.Conflicts m) :
    s₁.Rejects k batch ∧ (s₁.calls k = some (.running batch [] batch) ∨
      s₁.calls k = some (.failed batch .refused)) := by
  obtain ⟨m, hm, hconf⟩ := hconf
  have hmono : ∃ m ∈ batch, s₁.Conflicts m := ⟨m, hm, hconf.mono hstep⟩
  simp only [State.step] at hstep
  split at hstep
  next hnew =>
    have hrefused : s₁ = s.setCall k (.failed batch .refused) →
        s₁.Rejects k batch ∧ (s₁.calls k = some (.running batch [] batch) ∨
          s₁.calls k = some (.failed batch .refused)) := by
      rintro rfl
      have hcall := Function.update_self k (some (Call.failed batch .refused)) s.calls
      exact ⟨⟨hmono, .inr ⟨_, hcall⟩⟩, .inr hcall⟩
    unfold begin at hstep
    split at hstep
    · exact hrefused (Option.some_inj.mp hstep).symm
    split at hstep
    · cases hstep
    split at hstep
    · exact hrefused (Option.some_inj.mp hstep).symm
    · cases hstep
      have hcall := Function.update_self k (some (Call.running batch [] batch)) s.calls
      exact ⟨⟨hmono, .inl ⟨_, _, hcall⟩⟩, .inl hcall⟩
  next => cases hstep

omit [DecidableEq W] in
/-- A stored call answers from the rows of the table. -/
theorem Inv.original (hinv : s.Inv) (hcall : s.calls k = some (.stored batch done)) :
    List.Forall₂ s.Original batch done := by
  have hstored := hinv.call k
  rw [hcall] at hstored
  obtain ⟨hended, hans⟩ := hstored
  refine hans.imp ?_
  rintro m m' ⟨e, he, hsees, hk, hc, hm⟩
  refine ⟨e.row, mem_table.mpr ⟨e, he, ?_, rfl⟩, hk, hc, hm⟩
  rcases hsees with hcommitted | hw
  · exact hcommitted
  · exact hended.2 e he hw

/-- Rows that were in the table before a replay are the ones it answers from. -/
theorem original_of_stored (hinv : s.Inv) (hrun : (server D).Run s₀ s)
    (hstored : ∀ m ∈ batch, s₀.IsStored m) (h : List.Forall₂ s.Original batch done) :
    List.Forall₂ s₀.Original batch done := by
  have hboth := (List.forall₂_and_left batch done).mpr ⟨hstored, h⟩
  refine hboth.imp ?_
  rintro m m' ⟨⟨r₀, hr₀, hk₀, hc₀⟩, r, hr, hk, -, hm⟩
  have hrow := hinv.lookup_table hr hk 0
  rw [hinv.lookup_table (table_mono_run hrun hr₀) hk₀ 0] at hrow
  exact ⟨r₀, hr₀, hk₀, hc₀, Option.some_inj.mp hrow ▸ hm⟩

/-- An element whose key no visible row has is inserted. -/
theorem Inv.inserted {m : ChatMessage} {id : ℕ} (hinv : s.Inv)
    (hcall : s.calls k = some (.running batch done (m :: todo)))
    (hstep : s.step (.statement k id) = some s')
    (hnone : ∀ e ∈ s.store.rows, Sees k e → ¬ e.row.SameKey D m) :
    s'.store.rows = s.store.rows ++ [⟨m.toRow id, k, false⟩] ∧
      s'.calls k = some (.running batch (done ++ [{ m with messageId := id }]) todo) := by
  have hunseen : ∀ r, s.lookup k m ≠ some r := by
    intro r hlook
    obtain ⟨e, he, hsees, hkey, -⟩ := lookup_mem hlook
    exact hnone e he hsees hkey
  cases did_of_step hstep with
  | refused hnew ha => rcases ha with ha | ⟨ha, -⟩ <;> cases ha
  | found hrun hlook =>
    cases hrun.symm.trans hcall
    exact absurd hlook (hunseen _)
  | inserted hrun hlook hid hins =>
    cases hrun.symm.trans hcall
    exact ⟨hins, Function.update_self _ _ _⟩
  | conflicted hrun hlook =>
    cases hrun.symm.trans hcall
    exact absurd hlook (hunseen _)
  | threw hrun ha =>
    -- the key would be stored where the lock keeps all others out
    rcases ha with ha | ⟨m', todo', id', ha, rfl, hlook, hid, e, he, hclash⟩
    · cases ha
    · cases ha
      cases hrun.symm.trans hcall
      have hmem : m ∈ batch := hinv.todo_subset hcall List.mem_cons_self
      exact absurd hclash (hinv.no_clash (hinv.running hcall) hmem hlook hid he)
  | committed hrun ha => rcases ha with ⟨ha, -⟩ | ⟨ha, -⟩ <;> cases ha

/-- What every reachable state of the message store guarantees. -/
structure ExactlyOnce (s : State D) : Prop where
  unique : ∀ (t u : Int) (w : W), (s.table.filter fun r => r.threadId = t ∧ r.senderId = u ∧
    r.uniqueId ≠ "" ∧ D.weight r.uniqueId = w).length ≤ 1
  /-- A batch stored before commits without a write, unless an exception stops it. -/
  replay : ∀ k batch s₁, s.step (.begin k batch) = some s₁ → BatchOk batch →
    (∀ m ∈ batch, s.IsStored m) →
      (∀ s₂, (server D).Run s₁ s₂ → (∀ e ∈ s₂.store.rows, e.writer ≠ k) ∧
        ((∃ done todo, s₂.calls k = some (.running batch done todo)) ∨
          s₂.calls k = some (.failed batch .exception) ∨
          (∃ done, s₂.calls k = some (.raised batch done)) ∨
          ∃ done, s₂.calls k = some (.stored batch done) ∧ List.Forall₂ s.Original batch done)) ∧
      ∃ s₂ done, (server D).Run s₁ s₂ ∧ s₂.table = s.table ∧ s₂.calls k = some (.stored batch done)
  /-- An element that a visible row carries, be it of the same batch, writes nothing. -/
  repeated : ∀ k id batch done m todo s', s.calls k = some (.running batch done (m :: todo)) →
    s.step (.statement k id) = some s' → ∀ e ∈ s.store.rows, Sees k e → e.row.SameKey D m →
      e.row.Carries m → s'.store = s.store ∧
        s'.calls k = some (.running batch (done ++ [m.acknowledge e.row]) todo)
  /-- One that no visible row has the key of is inserted: the unique key never raises here. -/
  inserted : ∀ k id batch done m todo s', s.calls k = some (.running batch done (m :: todo)) →
    s.step (.statement k id) = some s' → (∀ e ∈ s.store.rows, Sees k e → ¬ e.row.SameKey D m) →
      s'.store.rows = s.store.rows ++ [⟨m.toRow id, k, false⟩] ∧
        s'.calls k = some (.running batch (done ++ [{ m with messageId := id }]) todo)
  reused : ∀ k id batch done m todo s', s.calls k = some (.running batch done (m :: todo)) →
    s.step (.statement k id) = some s' → ∀ e ∈ s.store.rows, Sees k e → e.row.SameKey D m →
      ¬ e.row.Carries m → s'.calls k = some (.failed batch .conflict)
  /-- A batch that reuses a stored id for another payload is rejected. -/
  rejected : ∀ k batch s₁, s.step (.begin k batch) = some s₁ → (∃ m ∈ batch, s.Conflicts m) →
    (∀ s₂, (server D).Run s₁ s₂ → (∃ done todo, s₂.calls k = some (.running batch done todo)) ∨
      ∃ why, s₂.calls k = some (.failed batch why)) ∧
    ∃ s₂ why, (server D).Run s₁ s₂ ∧ s₂.calls k = some (.failed batch why)
  /-- A failed call left nothing, and only commits touch the table. -/
  failed : ∀ k batch why, s.calls k = some (.failed batch why) → ∀ e ∈ s.store.rows, e.writer ≠ k
  untouched : ∀ a s', s.step a = some s' → (∀ k, ¬ a.Commits k) → s'.table = s.table
  frozen : ∀ k batch done todo a s', s.calls k = some (.running batch done todo) →
    s.step a = some s' → ¬ a.Commits k → ∀ r, r.threadId = threadOf batch →
      (r ∈ s'.table ↔ r ∈ s.table)
  committed : ∀ a k s', s.step a = some s' → a.Commits k → ∀ r, r ∈ s'.table ↔
    r ∈ s.table ∨ ∃ e ∈ s.store.rows, e.writer = k ∧ e.row = r
  /-- A successful call answers every element with its row. -/
  stored : ∀ k batch done, s.calls k = some (.stored batch done) →
    List.Forall₂ s.Original batch done

end State

open State

/-- Every interleaving of calls, retries and exceptions stores every message once. -/
theorem exactly_once {s : State D} (hs : (server D).Reachable s) : ExactlyOnce s where
  unique := s.table_unique
  replay k batch s₁ hstep hok hstored := by
    have hinv := inv_of_reachable hs
    obtain ⟨hcall, hreplay⟩ := begin_replays hinv hstep hok hstored
    refine ⟨fun s₂ hrun => ?_, ?_⟩
    · obtain ⟨hinv₂, hreplay₂⟩ := hreplay.run (hinv.step hstep) hrun
      refine ⟨hreplay₂.silent, ?_⟩
      rcases hreplay₂.call with h | h | ⟨done, h | h⟩
      · exact .inl h
      · exact .inr (.inl h)
      · exact .inr (.inr (.inl ⟨done, h⟩))
      · exact .inr (.inr (.inr ⟨done, h,
          original_of_stored hinv₂ (.head ⟨_, hstep⟩ hrun) hstored (hinv₂.original h)⟩))
    · obtain ⟨s₂, done, hrun, htable, hdone⟩ := hreplay.completes (hinv.step hstep) hcall
      refine ⟨s₂, done, hrun, htable.trans (table_of_step hstep fun j hj => ?_), hdone⟩
      rcases hj with hj | hj <;> cases hj
  repeated k id batch done m todo s' hcall hstep e he hsees hk hc := by
    have hlook := (inv_of_reachable hs).lookup_eq he hsees hk
    simp only [State.step, hcall, process, hlook, hc, if_true] at hstep
    split at hstep
    · cases hstep
      exact ⟨rfl, Function.update_self _ _ _⟩
    · cases hstep
  inserted k id batch done m todo s' hcall hstep hnone :=
    (inv_of_reachable hs).inserted hcall hstep hnone
  reused k id batch done m todo s' hcall hstep e he hsees hk hc := by
    have hlook := (inv_of_reachable hs).lookup_eq he hsees hk
    simp only [State.step, hcall, process, hlook, hc, if_false] at hstep
    split at hstep
    · cases hstep
      exact Function.update_self _ _ _
    · cases hstep
  rejected k batch s₁ hstep hconf := by
    have hinv := inv_of_reachable hs
    obtain ⟨hrejects, hcall⟩ := begin_rejects hstep hconf
    refine ⟨fun s₂ hrun => (hrejects.run (hinv.step hstep) hrun).call, ?_⟩
    rcases hcall with hcall | hcall
    · exact hrejects.completes (hinv.step hstep) hcall
    · exact ⟨s₁, _, .refl, hcall⟩
  failed k batch why hcall := by
    have hidle := (inv_of_reachable hs).call k
    rw [hcall] at hidle
    exact hidle.2
  untouched a s' hstep hc := table_of_step hstep hc
  frozen k batch done todo a s' hcall hstep hc r ht := (inv_of_reachable hs).frozen hcall hstep hc ht
  committed a k s' hstep hc r := table_of_commit hstep hc r
  stored k batch done hcall := (inv_of_reachable hs).original hcall

/-! ## A sample run -/

/-- Two friends with one conversation; unique ids compare without case. -/
def sampleDeployment : Deployment (List Char) where
  activeGroup _ := false
  groupMember _ _ := false
  friend a b := (a, b) = (1, 2) ∨ (a, b) = (2, 1)
  privateChat t a b := (t, a, b) = (5, 1, 2)
  weight s := s.toList.map Char.toLower

def sampleText (id : String) : ChatMessage := ⟨0, 5, 1, 2, id, "text", "2026-01-01 00:00:00", 0, 0, 0⟩

def emptyServer : State sampleDeployment := ⟨.empty, 1, fun _ => none, fun _ => none⟩

/-- A batch that repeats its message, a lost commit, and the retry. -/
def sampleActions : List Action :=
  [.begin 0 [sampleText "a", sampleText "A"], .statement 0 1, .statement 0 2, .commitRaised 0 true,
    .begin 1 [sampleText "a"], .statement 1 2, .commit 1]

theorem exactly_once_sample : ∃ s, Machine.runFn State.step emptyServer sampleActions = some s ∧
    s.table.map ChatRow.messageId = [1] ∧ ExactlyOnce s := by
  have hrun : (Machine.runFn State.step emptyServer sampleActions).map
      (fun s => s.table.map ChatRow.messageId) = some [1] := by decide
  obtain ⟨s, hs, htable⟩ := Option.map_eq_some_iff.mp hrun
  have hinit : (server sampleDeployment).Reachable emptyServer := .init ⟨rfl, rfl, rfl⟩
  exact ⟨s, hs, htable, exactly_once (hinit.runFn hs)⟩

end CppChat.ServerStore
