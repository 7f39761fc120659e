import Mathlib.Data.List.Forall2
import CppChat.ServerStore.AddChatMsg

/-! # The invariant of interleaved batches

A running call owns the lock of its conversation and every uncommitted row it wrote; what
it has acknowledged is in rows it sees. Ended calls own nothing but committed rows, and a
failed call wrote none of them.
-/
namespace CppChat.ServerStore
open Foundation
namespace State

variable {W : Type} {D : Deployment W} {s s' : State D} {j k : ℕ}

@[simp] theorem setCall_store (s : State D) (k : ℕ) (c : Call) : (s.setCall k c).store = s.store := rfl
@[simp] theorem setCall_lock (s : State D) (k : ℕ) (c : Call) : (s.setCall k c).lock = s.lock := rfl
@[simp] theorem setCall_nextId (s : State D) (k : ℕ) (c : Call) :
    (s.setCall k c).nextId = s.nextId := rfl
@[simp] theorem setCall_calls (s : State D) (k : ℕ) (c : Call) :
    (s.setCall k c).calls = Function.update s.calls k (some c) := rfl
@[simp] theorem release_store (s : State D) (k : ℕ) : (s.release k).store = s.store := rfl
@[simp] theorem release_nextId (s : State D) (k : ℕ) : (s.release k).nextId = s.nextId := rfl
@[simp] theorem abort_nextId (s : State D) (k : ℕ) (c : Call) : (s.abort k c).nextId = s.nextId := rfl
@[simp] theorem finish_nextId (s : State D) (k : ℕ) (c : Call) : (s.finish k c).nextId = s.nextId := rfl
@[simp] theorem abort_calls (s : State D) (k : ℕ) (c : Call) :
    (s.abort k c).calls = Function.update s.calls k (some c) := rfl
@[simp] theorem finish_calls (s : State D) (k : ℕ) (c : Call) :
    (s.finish k c).calls = Function.update s.calls k (some c) := rfl

theorem release_lock (s : State D) (k : ℕ) (t : Int) :
    (s.release k).lock t = some j ↔ s.lock t = some j ∧ j ≠ k := by
  simp only [release]
  split
  next h => simp [h, eq_comm]
  next h => exact ⟨fun hj => ⟨hj, fun he => h (he ▸ hj)⟩, fun hj => hj.1⟩

theorem mem_rollback {e : Entry} : e ∈ (s.rollback k).store.rows ↔
    e ∈ s.store.rows ∧ ¬ (e.writer = k ∧ e.committed = false) := by
  simp [rollback]

theorem mem_abort {c : Call} {e : Entry} : e ∈ (s.abort k c).store.rows ↔
    e ∈ s.store.rows ∧ ¬ (e.writer = k ∧ e.committed = false) := mem_rollback

theorem mem_persist {e : Entry} : e ∈ (s.persist k).store.rows ↔
    ∃ e₀ ∈ s.store.rows, commitEntry k e₀ = e := by
  simp [persist]

theorem mem_finish {c : Call} {e : Entry} : e ∈ (s.finish k c).store.rows ↔
    ∃ e₀ ∈ s.store.rows, commitEntry k e₀ = e := mem_persist

theorem commitEntry_of_ne {e : Entry} (h : e.writer ≠ k) : commitEntry k e = e := if_neg h

theorem commitEntry_of_committed {e : Entry} (h : e.committed = true) : commitEntry k e = e := by
  unfold commitEntry
  split
  · rw [← h]
  · rfl

@[simp] theorem commitEntry_writer (k : ℕ) (e : Entry) : (commitEntry k e).writer = e.writer := by
  unfold commitEntry
  split <;> rfl

/-- What one step does to the store, the locks and the call that takes it. -/
inductive Did [DecidableEq W] (s : State D) : Action → State D → Prop
  | refused {a : Action} {k : ℕ} {batch : List ChatMessage} {why : Failure}
      (hnew : s.calls k = none) (ha : a = .unavailable k batch ∨
        (a = .begin k batch ∧ ¬ (BatchOk batch ∧ D.AuthorisesBatch batch))) :
      Did s a (s.setCall k (.failed batch why))
  | started {k : ℕ} {batch : List ChatMessage} (hnew : s.calls k = none) (hok : BatchOk batch)
      (hfree : s.lock (threadOf batch) = none) (hauth : D.AuthorisesBatch batch) :
      Did s (.begin k batch)
        ({ s with lock := Function.update s.lock (threadOf batch) (some k) }.setCall k
          (.running batch [] batch))
  | found {k id : ℕ} {batch done todo : List ChatMessage} {m : ChatMessage} {r : ChatRow}
      (hcall : s.calls k = some (.running batch done (m :: todo))) (hlook : s.lookup k m = some r)
      (hcarries : r.Carries m) :
      Did s (.statement k id) (s.setCall k (.running batch (done ++ [m.acknowledge r]) todo))
  | inserted {k id : ℕ} {batch done todo : List ChatMessage} {m : ChatMessage}
      {store : Table Entry (Entry.Clash D)}
      (hcall : s.calls k = some (.running batch done (m :: todo))) (hlook : s.lookup k m = none)
      (hid : s.nextId ≤ id) (hins : store.rows = s.store.rows ++ [⟨m.toRow id, k, false⟩]) :
      Did s (.statement k id)
        ({ s with store, nextId := id + 1 }.setCall k
          (.running batch (done ++ [{ m with messageId := id }]) todo))
  | conflicted {k id : ℕ} {batch done todo : List ChatMessage} {m : ChatMessage} {r : ChatRow}
      (hcall : s.calls k = some (.running batch done (m :: todo))) (hlook : s.lookup k m = some r)
      (hcarries : ¬ r.Carries m) : Did s (.statement k id) (s.abort k (.failed batch .conflict))
  | threw {a : Action} {k : ℕ} {batch done todo : List ChatMessage}
      (hcall : s.calls k = some (.running batch done todo))
      (ha : a = .fail k ∨ ∃ m todo' id, a = .statement k id ∧ todo = m :: todo' ∧
        s.lookup k m = none ∧ s.nextId ≤ id ∧
        ∃ e ∈ s.store.rows, Entry.Clash D e ⟨m.toRow id, k, false⟩) :
      Did s a (s.abort k (.failed batch .exception))
  | committed {a : Action} {k : ℕ} {batch done : List ChatMessage} {c : Call}
      (hcall : s.calls k = some (.running batch done []))
      (ha : (a = .commit k ∧ c = .stored batch done) ∨
        (a = .commitRaised k true ∧ c = .raised batch done)) : Did s a (s.finish k c)
  | lost {k : ℕ} {batch done : List ChatMessage}
      (hcall : s.calls k = some (.running batch done [])) :
      Did s (.commitRaised k false) (s.abort k (.raised batch done))

/-- Everything a step can do. -/
theorem did_of_step [DecidableEq W] {a : Action} (h : s.step a = some s') : Did s a s' := by
  cases a with
  | unavailable k batch =>
    simp only [step] at h
    split at h
    next hnew =>
      cases h
      exact .refused hnew (.inl rfl)
    next => cases h
  | begin k batch =>
    simp only [step] at h
    split at h
    next hnew =>
      unfold begin at h
      split at h
      next hok =>
        cases h
        exact .refused hnew (.inr ⟨rfl, fun hb => hok hb.1⟩)
      next hok =>
        split at h
        next => cases h
        next hfree =>
          split at h
          next hauth =>
            cases h
            exact .refused hnew (.inr ⟨rfl, fun hb => hauth hb.2⟩)
          next hauth =>
            cases h
            exact .started hnew (not_not.mp hok) (not_not.mp hfree) (not_not.mp hauth)
    next => cases h
  | statement k id =>
    simp only [step] at h
    split at h
    next batch done m todo hcall =>
      split at h
      next hid =>
        cases h
        unfold process
        split
        next r hlook =>
          split
          next hcarries => exact .found hcall hlook hcarries
          next hcarries => exact .conflicted hcall hlook hcarries
        next hlook =>
          split
          next store hins => exact .inserted hcall hlook hid (Table.insert_eq_some.mp hins).2
          next hins =>
            refine .threw hcall (.inr ⟨m, todo, id, rfl, rfl, hlook, hid, ?_⟩)
            by_contra hnone
            push Not at hnone
            obtain ⟨u, hu, -⟩ := Table.insert_isSome hnone
            rw [hu] at hins
            cases hins
      next => cases h
    next => cases h
  | fail k =>
    simp only [step] at h
    split at h
    next batch done todo hcall =>
      cases h
      exact .threw hcall (.inl rfl)
    next => cases h
  | commit k =>
    simp only [step] at h
    split at h
    next batch done hcall =>
      cases h
      exact .committed hcall (.inl ⟨rfl, rfl⟩)
    next => cases h
  | commitRaised k durable =>
    simp only [step] at h
    split at h
    next batch done hcall =>
      cases h
      cases durable with
      | false => exact .lost hcall
      | true => exact .committed hcall (.inr ⟨rfl, rfl⟩)
    next => cases h

/-! ## The invariant -/

/-- The call has nothing in the engine. -/
def Idle (s : State D) (k : ℕ) : Prop :=
  (∀ t, s.lock t ≠ some k) ∧ ∀ e ∈ s.store.rows, e.writer ≠ k

/-- The call has ended, and what is left of it is committed. -/
def Ended (s : State D) (k : ℕ) : Prop :=
  (∀ t, s.lock t ≠ some k) ∧ ∀ e ∈ s.store.rows, e.writer = k → e.committed = true

/-- `m'` is the answer for `m`: id, time and status of a row that carries it. -/
def Answered (s : State D) (k : ℕ) (m m' : ChatMessage) : Prop :=
  ∃ e ∈ s.store.rows, Sees k e ∧ e.row.SameKey D m ∧ e.row.Carries m ∧ m' = m.acknowledge e.row

structure Running (s : State D) (k : ℕ) (batch done todo : List ChatMessage) : Prop where
  ok : BatchOk batch
  authorised : D.AuthorisesBatch batch
  lock : ∀ t, s.lock t = some k ↔ t = threadOf batch
  own : ∀ e ∈ s.store.rows, e.writer = k → e.committed = false ∧ e.row.threadId = threadOf batch
  answered : ∃ pre, batch = pre ++ todo ∧ List.Forall₂ (s.Answered k) pre done

def CallInv (s : State D) (k : ℕ) : Option Call → Prop
  | none => s.Idle k
  | some (.running batch done todo) => s.Running k batch done todo
  | some (.failed _ _) => s.Idle k
  | some (.stored batch done) => s.Ended k ∧ List.Forall₂ (s.Answered k) batch done
  | some (.raised _ _) => s.Ended k

structure Inv (s : State D) : Prop where
  ids : ∀ e ∈ s.store.rows, e.row.messageId < s.nextId
  named : ∀ e ∈ s.store.rows, e.row.uniqueId ≠ ""
  authorised : ∀ e ∈ s.store.rows, D.Authorises e.row.senderId e.row.recvId e.row.threadId
  call : ∀ k, s.CallInv k (s.calls k)

theorem Answered.mono {m m' : ChatMessage} (h : s.Answered k m m')
    (hkeep : ∀ e ∈ s.store.rows, Sees k e → ∃ e' ∈ s'.store.rows, Sees k e' ∧ e'.row = e.row) :
    s'.Answered k m m' := by
  obtain ⟨e, he, hsees, hkey, hcarries, hm⟩ := h
  obtain ⟨e', he', hsees', hrow⟩ := hkeep e he hsees
  exact ⟨e', he', hsees', hrow ▸ hkey, hrow ▸ hcarries, hrow ▸ hm⟩

/-- A call is not disturbed by what leaves its rows, its locks and the committed rows. -/
theorem CallInv.frame {c : Option Call} (h : s.CallInv j c)
    (hown : ∀ e, e.writer = j → (e ∈ s'.store.rows ↔ e ∈ s.store.rows))
    (hkeep : ∀ e ∈ s.store.rows, e.committed = true → e ∈ s'.store.rows)
    (hlock : ∀ t, s'.lock t = some j ↔ s.lock t = some j) : s'.CallInv j c := by
  have hsees : ∀ e ∈ s.store.rows, Sees j e → ∃ e' ∈ s'.store.rows, Sees j e' ∧ e'.row = e.row := by
    intro e he hs
    refine ⟨e, ?_, hs, rfl⟩
    rcases hs with hc | hw
    · exact hkeep e he hc
    · exact (hown e hw).mpr he
  have hidle : s.Idle j → s'.Idle j := fun hi =>
    ⟨fun t ht => hi.1 t ((hlock t).mp ht), fun e he hw => hi.2 e ((hown e hw).mp he) hw⟩
  have hended : s.Ended j → s'.Ended j := fun hi =>
    ⟨fun t ht => hi.1 t ((hlock t).mp ht), fun e he hw => hi.2 e ((hown e hw).mp he) hw⟩
  cases c with
  | none => exact hidle h
  | some c =>
    cases c with
    | running batch done todo =>
      obtain ⟨pre, hpre, hans⟩ := h.answered
      exact ⟨h.ok, h.authorised, fun t => (hlock t).trans (h.lock t),
        fun e he hw => h.own e ((hown e hw).mp he) hw, pre, hpre, hans.imp fun _ _ ha => ha.mono hsees⟩
    | failed batch why => exact hidle h
    | stored batch done => exact ⟨hended h.1, h.2.imp fun _ _ ha => ha.mono hsees⟩
    | raised batch done => exact hended h

/-- An uncommitted row belongs to a running call. -/
theorem Inv.running_of_uncommitted (h : s.Inv) {e : Entry} (he : e ∈ s.store.rows)
    (hc : e.committed = false) : ∃ batch done todo,
      s.calls e.writer = some (.running batch done todo) ∧ s.Running e.writer batch done todo := by
  have hcall := h.call e.writer
  cases hk : s.calls e.writer with
  | none =>
    rw [hk] at hcall
    exact absurd rfl (hcall.2 e he)
  | some c =>
    rw [hk] at hcall
    cases c with
    | running batch done todo => exact ⟨batch, done, todo, rfl, hcall⟩
    | failed batch why => exact absurd rfl (hcall.2 e he)
    | stored batch done =>
      rw [hcall.1.2 e he rfl] at hc
      cases hc
    | raised batch done =>
      rw [hcall.2 e he rfl] at hc
      cases hc

theorem threadOf_mem {batch : List ChatMessage} (h : BatchOk batch) {m : ChatMessage}
    (hm : m ∈ batch) : m.uniqueId ≠ "" ∧ m.threadId = threadOf batch := by
  cases batch with
  | nil => exact h.elim
  | cons first rest =>
    obtain ⟨-, -, -, hall⟩ := h
    exact ⟨(hall m hm).1, (hall m hm).2.2.1⟩

theorem authorises_mem {batch : List ChatMessage} (h : BatchOk batch)
    (hauth : D.AuthorisesBatch batch) {m : ChatMessage} (hm : m ∈ batch) :
    D.Authorises m.senderId m.recvId m.threadId := by
  cases batch with
  | nil => exact h.elim
  | cons first rest =>
    obtain ⟨-, -, -, hall⟩ := h
    obtain ⟨-, -, ht, hs, hr⟩ := hall m hm
    rw [ht, hs, hr]
    exact hauth

/-- The stored rows of a key are one row at most. -/
theorem Inv.eq_of_sameKey (h : s.Inv) {e e' : Entry} (he : e ∈ s.store.rows)
    (he' : e' ∈ s.store.rows) {m : ChatMessage} (hk : e.row.SameKey D m)
    (hk' : e'.row.SameKey D m) : e = e' :=
  s.store.eq_of_clash (fun _ _ => Entry.Clash.symm D) he he' (.inr ⟨hk.1.trans hk'.1.symm,
    hk.2.1.trans hk'.2.1.symm, h.named e he, h.named e' he', hk.2.2.trans hk'.2.2.symm⟩)

theorem lookup_mem [DecidableEq W] {m : ChatMessage} {r : ChatRow} (h : s.lookup k m = some r) :
    ∃ e ∈ s.store.rows, Sees k e ∧ e.row.SameKey D m ∧ e.row = r := by
  have hmem := List.mem_of_mem_head? h
  rw [List.mem_insertionSort, List.mem_map] at hmem
  obtain ⟨e, he, hr⟩ := hmem
  rw [List.mem_filter, decide_eq_true_eq] at he
  exact ⟨e, he.1, he.2.1, he.2.2, hr⟩

theorem Inv.lookup_eq [DecidableEq W] (h : s.Inv) {m : ChatMessage} {e : Entry}
    (he : e ∈ s.store.rows)
    (hsees : Sees k e) (hk : e.row.SameKey D m) : s.lookup k m = some e.row := by
  cases hl : s.lookup k m with
  | some r =>
    obtain ⟨e', he', -, hk', rfl⟩ := lookup_mem hl
    rw [h.eq_of_sameKey he he' hk hk']
  | none =>
    exfalso
    unfold lookup at hl
    rw [List.head?_eq_none_iff] at hl
    have hmem : e.row ∈ (((s.store.rows.filter fun e => Sees k e ∧ e.row.SameKey D m).map
        Entry.row).insertionSort fun a b => a.messageId ≤ b.messageId) := by
      rw [List.mem_insertionSort, List.mem_map]
      exact ⟨e, List.mem_filter.mpr ⟨he, by simp [hsees, hk]⟩, rfl⟩
    rw [hl] at hmem
    cases hmem

/-- Under the lock, a key that the lookup does not find is not in the engine at all. -/
theorem Inv.no_clash [DecidableEq W] (h : s.Inv) {batch done todo : List ChatMessage}
    {m : ChatMessage}
    (hrun : s.Running k batch done todo) (hm : m ∈ batch)
    (hl : s.lookup k m = none) {id : ℕ} (hid : s.nextId ≤ id) {e : Entry} (he : e ∈ s.store.rows) :
    ¬ Entry.Clash D e ⟨m.toRow id, k, false⟩ := by
  rintro (hprimary | ⟨ht, hs, -, -, hw⟩)
  · have hlt := h.ids e he
    have : e.row.messageId = id := hprimary
    omega
  · have hkey : e.row.SameKey D m := ⟨ht, hs, hw⟩
    have hsees : Sees k e := by
      by_cases hc : e.committed = true
      · exact .inl hc
      · right
        obtain ⟨b, d, t, -, hrun'⟩ := h.running_of_uncommitted he (by simpa using hc)
        have hlock := (hrun'.lock (threadOf b)).mpr rfl
        rw [← (hrun'.own e he rfl).2, ht] at hlock
        have hm' : (m.toRow id).threadId = threadOf batch := (threadOf_mem hrun.ok hm).2
        rw [hm', (hrun.lock _).mpr rfl] at hlock
        exact (Option.some_inj.mp hlock).symm
    rw [h.lookup_eq he hsees hkey] at hl
    cases hl

/-! ## One step -/

/-- A step of call `k` keeps the invariant when it keeps the rows' facts, leaves `k`
consistent and disturbs no other call. -/
theorem Inv.step_call {c : Call} (h : s.Inv)
    (hrows : ∀ e ∈ s'.store.rows, e.row.messageId < s'.nextId ∧ e.row.uniqueId ≠ "" ∧
      D.Authorises e.row.senderId e.row.recvId e.row.threadId)
    (hcalls : s'.calls = Function.update s.calls k (some c)) (hk : s'.CallInv k (some c))
    (hown : ∀ e, e.writer ≠ k → (e ∈ s'.store.rows ↔ e ∈ s.store.rows))
    (hkeep : ∀ e ∈ s.store.rows, e.committed = true → e ∈ s'.store.rows)
    (hlock : ∀ j, j ≠ k → ∀ t, s'.lock t = some j ↔ s.lock t = some j) : s'.Inv where
  ids e he := (hrows e he).1
  named e he := (hrows e he).2.1
  authorised e he := (hrows e he).2.2
  call j := by
    rw [hcalls]
    by_cases hj : j = k
    · subst hj
      rw [Function.update_self]
      exact hk
    · rw [Function.update_of_ne hj]
      exact (h.call j).frame (fun e he => hown e (he ▸ hj)) hkeep (hlock j hj)

theorem Inv.rows (h : s.Inv) : ∀ e ∈ s.store.rows, e.row.messageId < s.nextId ∧
    e.row.uniqueId ≠ "" ∧ D.Authorises e.row.senderId e.row.recvId e.row.threadId :=
  fun e he => ⟨h.ids e he, h.named e he, h.authorised e he⟩

theorem Inv.running (h : s.Inv) {batch done todo : List ChatMessage}
    (hc : s.calls k = some (.running batch done todo)) : s.Running k batch done todo := by
  have := h.call k
  rwa [hc] at this

theorem abort_idle {batch done todo : List ChatMessage} (h : s.Running k batch done todo)
    (c : Call) : (s.abort k c).Idle k := by
  refine ⟨fun t ht => ((release_lock _ k t).mp ht).2 rfl, fun e he hw => ?_⟩
  obtain ⟨he, hnot⟩ := mem_abort.mp he
  exact hnot ⟨hw, (h.own e he hw).1⟩

/-- Rolling call `k` back disturbs no other call. -/
theorem Inv.abort (h : s.Inv) {c : Call} (hk : (s.abort k c).CallInv k (some c)) :
    (s.abort k c).Inv := by
  refine h.step_call (fun e he => h.rows e (mem_abort.mp he).1) rfl hk (fun e hw => ?_)
    (fun e he hc => ?_) fun j hj t => ?_
  · rw [mem_abort]
    exact ⟨And.left, fun he => ⟨he, fun hn => hw hn.1⟩⟩
  · refine mem_abort.mpr ⟨he, fun hn => ?_⟩
    rw [hc] at hn
    exact Bool.noConfusion hn.2
  · exact (release_lock _ k t).trans (and_iff_left hj)

theorem Inv.finish (h : s.Inv) {batch done : List ChatMessage} {c : Call}
    (hrun : s.Running k batch done []) (hc : c = .stored batch done ∨ c = .raised batch done) :
    (s.finish k c).Inv := by
  have hrow : ∀ e ∈ (s.finish k c).store.rows, ∃ e₀ ∈ s.store.rows, commitEntry k e₀ = e :=
    fun e he => mem_finish.mp he
  have hended : (s.finish k c).Ended k := by
    refine ⟨fun t ht => ((release_lock _ k t).mp ht).2 rfl, fun e he hw => ?_⟩
    obtain ⟨e₀, -, rfl⟩ := hrow e he
    rw [commitEntry_writer] at hw
    unfold commitEntry
    rw [if_pos hw]
  have hanswered : List.Forall₂ ((s.finish k c).Answered k) batch done := by
    obtain ⟨pre, hpre, hans⟩ := hrun.answered
    rw [List.append_nil] at hpre
    subst hpre
    refine hans.imp fun m m' ha => ha.mono fun e he hs => ?_
    refine ⟨commitEntry k e, mem_finish.mpr ⟨e, he, rfl⟩, ?_, commitEntry_row k e⟩
    rcases hs with hs | hs
    · rw [commitEntry_of_committed hs]
      exact .inl hs
    · exact .inr ((commitEntry_writer k e).trans hs)
  refine h.step_call (fun e he => ?_) rfl ?_ (fun e hw => ?_) (fun e he hc => ?_) fun j hj t => ?_
  · obtain ⟨e₀, he₀, rfl⟩ := hrow e he
    rw [commitEntry_row]
    exact h.rows e₀ he₀
  · rcases hc with rfl | rfl
    · exact ⟨hended, hanswered⟩
    · exact hended
  · rw [mem_finish]
    constructor
    · rintro ⟨e₀, he₀, rfl⟩
      rw [commitEntry_writer] at hw
      rwa [commitEntry_of_ne hw]
    · exact fun he => ⟨e, he, commitEntry_of_ne hw⟩
  · exact mem_finish.mpr ⟨e, he, commitEntry_of_committed hc⟩
  · exact (release_lock _ k t).trans (and_iff_left hj)

theorem Running.next {batch done todo : List ChatMessage} {m m' : ChatMessage}
    (h : s.Running k batch done (m :: todo)) (hlock : s'.lock = s.lock)
    (hown : ∀ e ∈ s'.store.rows, e.writer = k → e.committed = false ∧ e.row.threadId = threadOf batch)
    (hkeep : ∀ e ∈ s.store.rows, e ∈ s'.store.rows) (hm : s'.Answered k m m') :
    s'.Running k batch (done ++ [m']) todo := by
  obtain ⟨pre, hpre, hans⟩ := h.answered
  refine ⟨h.ok, h.authorised, fun t => hlock ▸ h.lock t, hown, pre ++ [m], by simp [hpre], ?_⟩
  have hans' : List.Forall₂ (s'.Answered k) pre done :=
    hans.imp fun _ _ ha => ha.mono fun e he hs => ⟨e, hkeep e he, hs, rfl⟩
  exact List.rel_append hans' (.cons hm .nil)

theorem Inv.step [DecidableEq W] {a : Action} (h : s.Inv) (hstep : s.step a = some s') :
    s'.Inv := by
  cases did_of_step hstep with
  | @refused a k batch why hnew ha =>
    have hidle : s.CallInv k none := hnew ▸ h.call k
    exact h.step_call h.rows rfl hidle (fun _ _ => Iff.rfl) (fun _ he _ => he) fun _ _ _ => Iff.rfl
  | @started k batch hnew hok hfree hauth =>
    have hidle : s.CallInv k none := hnew ▸ h.call k
    refine h.step_call h.rows rfl ?_ (fun _ _ => Iff.rfl) (fun _ he _ => he) fun j hj t => ?_
    · refine ⟨hok, hauth, fun t => ?_, fun e he hw => absurd hw (hidle.2 e he), [], rfl, .nil⟩
      by_cases ht : t = threadOf batch
      · subst ht
        simp
      · simpa [Function.update_of_ne ht, ht] using hidle.1 t
    · by_cases ht : t = threadOf batch
      · subst ht
        simp [hfree, hj.symm]
      · simp [Function.update_of_ne ht]
  | @found k id batch done todo m r hcall hlook hcarries =>
    have hrun := h.running hcall
    obtain ⟨e, he, hsees, hkey, rfl⟩ := lookup_mem hlook
    exact h.step_call h.rows rfl
      (hrun.next rfl hrun.own (fun _ he => he) ⟨e, he, hsees, hkey, hcarries, rfl⟩)
      (fun _ _ => Iff.rfl) (fun _ he _ => he) fun _ _ _ => Iff.rfl
  | @inserted k id batch done todo m store hcall hlook hid hins =>
    have hrun := h.running hcall
    have hm : m ∈ batch := by
      obtain ⟨pre, hpre, -⟩ := hrun.answered
      simp [hpre]
    obtain ⟨hu, ht⟩ := threadOf_mem hrun.ok hm
    have hmem : ∀ e, e ∈ store.rows ↔ e ∈ s.store.rows ∨ e = ⟨m.toRow id, k, false⟩ := by
      simp [hins]
    refine h.step_call (fun e he => ?_) rfl ?_ (fun e hw => ?_) (fun e he _ => ?_) fun _ _ _ => Iff.rfl
    · rcases (hmem e).mp he with he | rfl
      · exact ⟨(h.ids e he).trans_le (hid.trans (Nat.le_succ id)), (h.rows e he).2⟩
      · exact ⟨Nat.lt_succ_self id, hu, authorises_mem hrun.ok hrun.authorised hm⟩
    · refine hrun.next rfl (fun e he hw => ?_) (fun e he => (hmem e).mpr (.inl he)) ?_
      · rcases (hmem e).mp he with he | rfl
        · exact hrun.own e he hw
        · exact ⟨rfl, ht⟩
      · exact ⟨_, (hmem _).mpr (.inr rfl), .inr rfl, ⟨rfl, rfl, rfl⟩, ⟨rfl, rfl, rfl⟩, rfl⟩
    · refine (hmem e).trans (or_iff_left ?_)
      rintro rfl
      exact hw rfl
    · exact (hmem e).mpr (.inl he)
  | @conflicted k id batch done todo m r hcall hlook hcarries =>
    exact h.abort (abort_idle (h.running hcall) _)
  | @threw a k batch done todo hcall ha => exact h.abort (abort_idle (h.running hcall) _)
  | @committed a k batch done c hcall ha =>
    exact h.finish (h.running hcall) (ha.imp And.right And.right)
  | @lost k batch done hcall =>
    have hidle := abort_idle (h.running hcall) (.raised batch done)
    exact h.abort ⟨hidle.1, fun e he hw => absurd hw (hidle.2 e he)⟩

end State

variable {W : Type} [DecidableEq W] {D : Deployment W} {s : State D}

theorem inv_invariant : (server D).Invariant State.Inv where
  init := by
    rintro s ⟨hstore, hlock, hcalls⟩
    have hnone : ∀ e, e ∉ s.store.rows := by simp [hstore]
    refine ⟨fun e he => absurd he (hnone e), fun e he => absurd he (hnone e),
      fun e he => absurd he (hnone e), fun k => ?_⟩
    rw [hcalls]
    exact ⟨fun t => by simp [hlock], fun e he => absurd he (hnone e)⟩
  step := fun _ _ _ _ h hstep => h.step hstep

theorem inv_of_reachable (h : (server D).Reachable s) : s.Inv := inv_invariant.reachable h

end CppChat.ServerStore
