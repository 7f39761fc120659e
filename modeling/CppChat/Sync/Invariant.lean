import CppChat.Sync.Quiet

/-! # The cursors in memory

A cursor in memory is the stored one, unless its thread was dropped, or a page of it was
saved whose callback has not run.
-/
namespace CppChat.Sync
open Foundation LocalStore
namespace State

variable {J : GroupJson} {faults : ℕ → Bool} {M : Set Confirmation} {s s' : State} {t : Int}

/-- In every run, also when threads were dropped and asked for again. -/
structure Inv (s : State) : Prop where
  reachable : LocalStore.store.Reachable s.db
  positive : s.Positive
  closed : s.storeReady = false → s.pending = none ∧ s.historyThread = 0
  opening : ∀ o ∈ s.openings, o.revision ≤ s.revision ∧ (o.revision = s.revision →
    s.storeReady = false ∧ ∀ t, o.cursors t = s.stored t)
  openings : s.openings.Pairwise fun a b => a.revision < b.revision
  behind : ∀ t, s.syncCursors t ≤ s.stored t
  current : s.storeReady = true → ∀ t, t ∉ s.dropped → s.syncCursors t = s.stored t ∨
    ∃ c ∈ s.saves, s.IsCurrent c ∧ c.saved = true ∧ c.threadId = t
  forgotten : s.storeReady = true → ∀ t ∈ s.dropped, s.syncCursors t = 0
  request : ∀ r, s.pending = some r → r = ⟨s.historyThread, s.historyCursor⟩ ∧
    0 < s.historyThread ∧ s.historyCursor = s.syncCursors s.historyThread ∧
    ∀ c ∈ s.saves, ¬ s.IsCurrent c
  saving : ∀ c ∈ s.saves, c.operation ≤ s.historyOperation ∧ 0 < c.threadId ∧
    (s.IsCurrent c → c.saved = true → s.stored c.threadId = c.messageId)
  last : ∀ c pre rest, s.saves = pre ++ c :: rest → s.IsCurrent c → rest = []

theorem Inv.nonneg (h : s.Inv) (t : Int) : 0 ≤ s.stored t := cursor_nonneg h.reachable t

theorem isCurrent_congr {c : PageSave} (hr : s'.revision = s.revision)
    (hs : s'.storeReady = s.storeReady) (ho : s'.historyOperation = s.historyOperation)
    (ht : s'.historyThread = s.historyThread) : s'.IsCurrent c ↔ s.IsCurrent c := by
  rw [IsCurrent, IsCurrent, hr, hs, ho, ht]

theorem Inv.quiet (h : s.Inv) (q : Quiet M s s') : s'.Inv := by
  have hcurrent : ∀ c, s'.IsCurrent c ↔ s.IsCurrent c := fun c =>
    isCurrent_congr q.revision q.storeReady q.historyOperation q.historyThread
  refine ⟨h.reachable.run q.run, q.positive h.positive, ?_,
    fun o ho => ?_, ?_, fun t => ?_, fun hready t ht => ?_, fun hready t ht => ?_, fun r hr => ?_,
    fun c hc => ?_, fun c pre rest hsaves hc => ?_⟩
  · rw [q.storeReady, q.pending, q.historyThread]
    exact h.closed
  · rw [q.openings] at ho
    simp only [q.revision, q.storeReady, q.stored]
    exact h.opening o ho
  · rw [q.openings]
    exact h.openings
  · rw [q.syncCursors, q.stored]
    exact h.behind t
  · rw [q.storeReady] at hready
    rw [q.dropped] at ht
    simp only [q.syncCursors, q.stored, q.saves, hcurrent]
    exact h.current hready t ht
  · rw [q.storeReady] at hready
    rw [q.dropped] at ht
    rw [q.syncCursors]
    exact h.forgotten hready t ht
  · rw [q.pending] at hr
    simp only [q.historyThread, q.historyCursor, q.syncCursors, q.saves, hcurrent]
    exact h.request r hr
  · rw [q.saves] at hc
    simp only [q.historyOperation, hcurrent, q.stored]
    exact h.saving c hc
  · rw [q.saves] at hsaves
    exact h.last c pre rest hsaves ((hcurrent c).mp hc)

/-- A new operation number makes every callback in flight stale. -/
theorem Inv.stale (h : s.Inv) (hop : s'.historyOperation = s.historyOperation + 1)
    {c : PageSave} (hc : c ∈ s.saves) : ¬ s'.IsCurrent c := by
  intro hcurrent
  have hle := (h.saving c hc).1
  have heq := hcurrent.2.2.1
  omega

/-- A step that cancels the page in flight: no request, no current callback. -/
theorem Inv.cancel (h : s.Inv) (hdb : s'.db = s.db) (hp : s.Positive → s'.Positive)
    (hpending : s'.pending = none) (hrevision : s'.revision = s.revision)
    (hop : s'.historyOperation = s.historyOperation + 1) (hready : s'.storeReady = s.storeReady)
    (hthread : s'.historyThread = 0) (hopenings : s'.openings = s.openings)
    (hsaves : s'.saves = s.saves) (hbehind : ∀ t, s'.syncCursors t ≤ s.stored t)
    (hcurrent : s.storeReady = true → ∀ t, t ∉ s'.dropped → s'.syncCursors t = s.stored t)
    (hforgotten : s.storeReady = true → ∀ t ∈ s'.dropped, s'.syncCursors t = 0) : s'.Inv := by
  have hstored : ∀ t, s'.stored t = s.stored t := fun t => by rw [stored, hdb, stored]
  have hstale : ∀ c ∈ s.saves, ¬ s'.IsCurrent c := fun c hc => h.stale hop hc
  refine ⟨hdb ▸ h.reachable, hp h.positive,
    fun _ => ⟨hpending, hthread⟩, fun o ho => ?_, hopenings ▸ h.openings,
    fun t => hstored t ▸ hbehind t, fun hr t ht => .inl ?_, fun hr t ht => hforgotten (hready ▸ hr) t ht,
    fun r hr => ?_, fun c hc => ?_, fun c pre rest heq hc => ?_⟩
  · rw [hopenings] at ho
    simp only [hrevision, hready, hstored]
    exact h.opening o ho
  · rw [hstored]
    exact hcurrent (hready ▸ hr) t ht
  · rw [hpending] at hr
    cases hr
  · rw [hsaves] at hc
    obtain ⟨hle, hpos, -⟩ := h.saving c hc
    exact ⟨hop ▸ Nat.le_succ_of_le hle, hpos, fun hcur => absurd hcur (hstale c hc)⟩
  · rw [hsaves] at heq
    exact absurd hc (hstale c (heq ▸ by simp))

theorem Inv.removeThread (h : s.Inv) (t : Int) : (s.removeThread t).Inv := by
  have hqueue : ∀ x ∈ s.historyQueue.filter (· ≠ t), 0 < x :=
    fun x hx => h.positive.queue x (List.mem_of_mem_filter hx)
  have hmissing : ∀ x ∈ s.threadsWithoutSummary.filter (· ≠ t), 0 < x :=
    fun x hx => h.positive.missing x (List.mem_of_mem_filter hx)
  have hother : ∀ x, x ≠ t → Function.update s.syncCursors t 0 x = s.syncCursors x :=
    fun x hx => Function.update_of_ne hx ..
  have hbehind : ∀ x, Function.update s.syncCursors t 0 x ≤ s.stored x := by
    intro x
    by_cases hx : x = t
    · rw [hx, Function.update_self]
      exact h.nonneg t
    · rw [hother x hx]
      exact h.behind x
  have hforgotten : s.storeReady = true → ∀ x ∈ t :: s.dropped,
      Function.update s.syncCursors t 0 x = 0 := by
    intro hready x hx
    by_cases he : x = t
    · rw [he, Function.update_self]
    · rw [hother x he]
      exact h.forgotten hready x ((List.mem_cons.mp hx).resolve_left he)
  unfold State.removeThread
  dsimp only
  split
  next hthread =>
    refine h.cancel rfl (fun hp => ⟨hp.chats, hqueue, hmissing⟩) rfl rfl rfl rfl rfl rfl rfl hbehind (fun hready x hx => ?_)
      hforgotten
    obtain ⟨hne, hnot⟩ := not_or.mp (List.mem_cons.not.mp hx)
    refine (hother x hne).trans ((h.current hready x hnot).resolve_right ?_)
    rintro ⟨c, -, hcurrent, -, rfl⟩
    exact hne (hcurrent.2.2.2.symm.trans hthread)
  next hthread =>
    refine ⟨h.reachable, ⟨h.positive.chats, hqueue, hmissing⟩, h.closed, h.opening, h.openings, hbehind,
      fun hready x hx => ?_, hforgotten, fun r hr => ?_, h.saving, h.last⟩
    · obtain ⟨hne, hnot⟩ := not_or.mp (List.mem_cons.not.mp hx)
      dsimp only
      rw [hother x hne]
      exact h.current hready x hnot
    · obtain ⟨he, hpos, hcursor, hnone⟩ := h.request r hr
      exact ⟨he, hpos, hcursor.trans (hother _ hthread).symm, hnone⟩

theorem kept_inv : Kept Set.univ Inv where
  positive _ h := h.positive
  quiet _ _ h q := h.quiet q
  removeThread _ t h := h.removeThread t

/-! ## Sessions -/

theorem Inv.resetSession (h : s.Inv) : s.resetSession.Inv := by
  have hstale : ∀ c, ¬ s.resetSession.IsCurrent c := fun c hc => by cases hc.2.1
  refine ⟨h.reachable, ⟨h.positive.chats, fun _ hx => (by cases hx),
    fun _ hx => (by cases hx)⟩, fun _ => ⟨rfl, rfl⟩, fun o ho => ?_, h.openings, h.nonneg,
    fun hready => (by cases hready), fun hready => (by cases hready), fun r hr => (by cases hr),
    fun c hc => ?_, fun c pre rest _ hc => absurd hc (hstale c)⟩
  · have hle := (h.opening o ho).1
    refine ⟨Nat.le_succ_of_le hle, fun he => ?_⟩
    have he : o.revision = s.revision + 1 := he
    omega
  · obtain ⟨hle, hpos, -⟩ := h.saving c hc
    exact ⟨Nat.le_succ_of_le hle, hpos, fun hcur => absurd hcur (hstale c)⟩

theorem Inv.startSession (h : s.Inv) : (s.startSession faults).Inv := by
  have h1 := h.resetSession
  have hrevision : ∀ o ∈ s.openings, o.revision < s.resetSession.revision :=
    fun o ho => Nat.lt_succ_of_le (h.opening o ho).1
  have hreach : LocalStore.store.Reachable (s.resetSession.store faults .openAccount).db :=
    h1.reachable.step (show LocalStore.store.step _ _ _ from rfl)
  have hstale : ∀ c, ¬ (s.startSession faults).IsCurrent c := fun c hc => by cases hc.2.1
  refine ⟨hreach, ⟨h1.positive.chats, h1.positive.queue, h1.positive.missing⟩, fun _ => ⟨rfl, rfl⟩,
    fun o ho => ?_, ?_, fun t => cursor_nonneg hreach t, fun hready => (by cases hready),
    fun hready => (by cases hready), fun r hr => (by cases hr), fun c hc => ?_,
    fun c pre rest _ hc => absurd hc (hstale c)⟩
  · rcases List.mem_append.mp ho with ho | ho
    · have hlt := hrevision o ho
      exact ⟨hlt.le, fun he => absurd he hlt.ne⟩
    · rw [List.mem_singleton] at ho
      subst ho
      exact ⟨le_rfl, fun _ => ⟨rfl, fun t => rfl⟩⟩
  · refine List.pairwise_append.mpr ⟨h.openings, List.pairwise_singleton _ _, fun a ha b hb => ?_⟩
    rw [List.mem_singleton] at hb
    rw [hb]
    exact hrevision a ha
  · obtain ⟨hle, hpos, -⟩ := h1.saving c hc
    exact ⟨hle, hpos, fun hcur => absurd hcur (hstale c)⟩

theorem Inv.popOpening {o : Opening} {rest : List Opening} (h : s.Inv)
    (ho : s.openings = o :: rest) : Inv { s with openings := rest } :=
  ⟨h.reachable, ⟨h.positive.chats, h.positive.queue, h.positive.missing⟩, h.closed,
    fun x hx => h.opening x (ho ▸ List.mem_cons_of_mem _ hx),
    (List.pairwise_cons.mp (ho ▸ h.openings)).2, h.behind, h.current, h.forgotten, h.request,
    h.saving, h.last⟩

/-- The callback of the current session finds the cursors as they are stored. -/
theorem Inv.loadCursors {o : Opening} {rest : List Opening} (h : s.Inv)
    (ho : s.openings = o :: rest) (hrevision : o.revision = s.revision) :
    Inv { s with openings := rest, storeReady := true, syncCursors := o.cursors, dropped := [] } ∧
      s.pending = none := by
  have hlater := (List.pairwise_cons.mp (ho ▸ h.openings)).1
  obtain ⟨-, hopen⟩ := h.opening o (ho ▸ List.mem_cons_self)
  obtain ⟨hready, hcursors⟩ := hopen hrevision
  obtain ⟨hpending, hthread⟩ := h.closed hready
  have hstale : ∀ c ∈ s.saves, s.historyThread ≠ c.threadId := by
    intro c hc he
    have hpos := (h.saving c hc).2.1
    omega
  refine ⟨⟨h.reachable, ⟨h.positive.chats, h.positive.queue, h.positive.missing⟩,
    fun he => by (cases he), fun x hx => ?_, (h.popOpening ho).openings, fun t => (hcursors t).le,
    fun _ t _ => .inl (hcursors t), fun _ t ht => by (cases ht), fun r hr => ?_, fun c hc => ?_,
    fun c pre rest' he hc => ?_⟩, hpending⟩
  · have hlt := hlater x hx
    have hle := (h.opening x (ho ▸ List.mem_cons_of_mem _ hx)).1
    omega
  · exact absurd (hpending.symm.trans hr) (by simp)
  · obtain ⟨hle, hpos, -⟩ := h.saving c hc
    exact ⟨hle, hpos, fun hcur => absurd hcur.2.2.2 (hstale c hc)⟩
  · have he : s.saves = pre ++ c :: rest' := he
    exact absurd hc.2.2.2 (hstale c (he ▸ by simp))

theorem Inv.accountOpened {o : Opening} {rest : List Opening} (h : s.Inv)
    (ho : s.openings = o :: rest) :
    (State.accountOpened J faults { s with openings := rest } o).Inv := by
  unfold State.accountOpened
  split
  · exact h.popOpening ho
  next hguard =>
    simp only [not_or, not_not] at hguard
    exact kept_inv.openConversations o.conversations (h.loadCursors ho hguard.1).1

/-! ## History pages -/

/-- Sending the next request for the thread and cursor just set. -/
theorem Inv.loadNextHistory (h : s.Inv) : s.loadNextHistory.Inv := by
  unfold State.loadNextHistory
  split
  · exact h
  next hcan =>
    obtain ⟨hready, hthread, -⟩ := not_not.mp hcan
    split
    · exact h
    next t rest hqueue =>
      have hpos : ∀ x ∈ t :: rest, 0 < x := fun x hx => h.positive.queue x (hqueue ▸ hx)
      have hnone : ∀ c ∈ s.saves, ¬ s.IsCurrent c := by
        intro c hc hcur
        have hcpos := (h.saving c hc).2.1
        have heq := hcur.2.2.2
        omega
      have hstale : ∀ c ∈ s.saves, c.operation ≠ s.historyOperation + 1 := by
        intro c hc he
        have hle := (h.saving c hc).1
        omega
      refine ⟨h.reachable, ⟨h.positive.chats, fun x hx => hpos x (List.mem_cons_of_mem _ hx),
        h.positive.missing⟩, fun he => absurd (hready.symm.trans he) (by simp), fun o ho => ?_,
        h.openings, h.behind, fun hr x hx => ?_, h.forgotten, fun r hr => ?_, fun c hc => ?_,
        fun c pre rest' he hc => ?_⟩
      · obtain ⟨hle, hopen⟩ := h.opening o ho
        exact ⟨hle, hopen⟩
      · refine .inl ((h.current hready x hx).resolve_right ?_)
        rintro ⟨c, hc, hcur, -⟩
        exact hnone c hc hcur
      · refine ⟨(Option.some.inj hr).symm, hpos t List.mem_cons_self, rfl, fun c hc hcur => ?_⟩
        exact hstale c hc hcur.2.2.1.symm
      · obtain ⟨hle, hcpos, -⟩ := h.saving c hc
        exact ⟨Nat.le_succ_of_le hle, hcpos, fun hcur => absurd hcur.2.2.1.symm (hstale c hc)⟩
      · have he : s.saves = pre ++ c :: rest' := he
        exact absurd hc.2.2.1.symm (hstale c (he ▸ by simp))

/-- The request in flight excludes a callback in flight. -/
theorem Inv.settled (h : s.Inv) {r : HistoryRequest} (hr : s.pending = some r) :
    s.storeReady = true ∧ ∀ t, t ∉ s.dropped → s.syncCursors t = s.stored t := by
  have hready : s.storeReady = true := by
    cases hs : s.storeReady with
    | true => rfl
    | false =>
      rw [(h.closed hs).1] at hr
      cases hr
  refine ⟨hready, fun t ht => (h.current hready t ht).resolve_right ?_⟩
  rintro ⟨c, hc, hcur, -⟩
  exact (h.request r hr).2.2.2 c hc hcur

theorem Inv.noRequest (h : s.Inv) {c : PageSave} (hmem : c ∈ s.saves) (hcurrent : s.IsCurrent c) :
    s.pending = none := by
  cases hp : s.pending with
  | none => rfl
  | some r => exact absurd hcurrent ((h.request r hp).2.2.2 c hmem)

/-- A failed request gives the thread up for now. -/
theorem Inv.historyFailed (h : s.Inv) {r : HistoryRequest} (hr : s.pending = some r) :
    (State.historyFailed { s with pending := none }).Inv := by
  obtain ⟨hready, hcurrent⟩ := h.settled hr
  unfold State.historyFailed
  rw [if_neg (not_not.mpr hready)]
  exact h.cancel rfl (fun hp => ⟨hp.chats, hp.queue, hp.missing⟩) rfl rfl rfl rfl rfl rfl rfl
    h.behind (fun _ => hcurrent) fun _ => h.forgotten hready

/-- What the save of a page does to the cursors. -/
theorem savePage_stored (h : s.Inv) {t cursor : Int} {ms : List StoredMessage} (hpos : 0 < t) :
    let op : Operation := .saveMessages ms t cursor 0
    ((!faults s.operations && (op.run s.db).toBool) = true →
      s.stored t ≤ cursor ∧ ∀ x, (s.store faults op).stored x = if x = t then cursor else s.stored x) ∧
    ((!faults s.operations && (op.run s.db).toBool) = false → (s.store faults op).db = s.db) := by
  intro op
  have hdb : (s.store faults op).db = Call.run s.db ⟨op, faults s.operations⟩ := rfl
  constructor
  · intro hsaved
    rw [Bool.and_eq_true, Bool.not_eq_true'] at hsaved
    obtain ⟨hfault, hrun⟩ := hsaved
    cases hop : op.run s.db with
    | error e =>
      rw [hop] at hrun
      cases hrun
    | ok db' =>
      obtain ⟨reply, hsave⟩ := saveMessages_run hop
      have hle : s.stored t ≤ cursor := (Database.saveMessages_page hsave hpos).1
      have hnonneg : 0 ≤ cursor := (h.nonneg t).trans hle
      refine ⟨hle, fun x => ?_⟩
      have hrun' : Call.run s.db ⟨op, faults s.operations⟩ = db' := by
        simp [Call.run, hfault, hop, commitOrRollback]
      rw [State.stored, hdb, hrun', Database.saveMessages_cursor hsave]
      by_cases hx : x = t
      · rw [if_pos hx, if_pos ⟨hx, hpos, hnonneg⟩]
        exact max_eq_right hle
      · rw [if_neg hx, if_neg fun hc => hx hc.1]
        rfl
  · intro hfailed
    rw [hdb]
    simp only [Call.run]
    split
    · rfl
    next hfault =>
      cases hop : op.run s.db with
      | error e => rfl
      | ok db' =>
        have hfault : faults s.operations = false := by simpa using hfault
        rw [hop, hfault] at hfailed
        cases hfailed

theorem mem_of_append_singleton {α : Type*} {l pre rest : List α} {a b c : α}
    (h : l ++ [a] = pre ++ c :: (rest ++ [b])) : c ∈ l := by
  rw [← List.cons_append, ← List.append_assoc] at h
  rw [(List.append_inj' h rfl).1]
  simp

/-- A page handed to the store: its callback is the only current one. -/
theorem Inv.savePage (h : s.Inv) {r : HistoryRequest} (hr : s.pending = some r) {cursor : Int}
    {ms : List StoredMessage} (more : Bool) :
    let op : Operation := .saveMessages ms s.historyThread cursor 0
    let saved := !faults s.operations && (op.run s.db).toBool
    let s' := ({ s with pending := none } : State).store faults op
    Inv { s' with
      saves := s.saves ++
        [⟨s.revision, s.historyOperation, s.historyThread, cursor, more, saved⟩] } := by
  intro op saved s'
  obtain ⟨hready, hcurrent⟩ := h.settled hr
  obtain ⟨-, hpos, -, hnone⟩ := h.request r hr
  obtain ⟨hsaved, hfailed⟩ := @savePage_stored faults s h _ cursor ms hpos
  have hdb : s'.db = (s.store faults op).db := rfl
  have hreach : LocalStore.store.Reachable s'.db :=
    h.reachable.step (show LocalStore.store.step _ _ _ from rfl)
  have hbehind : ∀ x, s.syncCursors x ≤ s'.stored x := by
    intro x
    cases hs : saved with
    | true =>
      obtain ⟨hle, hstored⟩ := hsaved hs
      rw [stored, hdb, ← stored, hstored x]
      split
      next hx => exact (h.behind x).trans (hx ▸ hle)
      next => exact h.behind x
    | false =>
      rw [stored, hdb, hfailed hs]
      exact h.behind x
  refine ⟨hreach, ⟨h.positive.chats, h.positive.queue, h.positive.missing⟩,
    fun he => absurd (hready.symm.trans he) (by simp), fun o ho => ?_, h.openings, hbehind,
    fun _ x hx => ?_, h.forgotten, fun r hr => (by cases hr), fun c hc => ?_,
    fun c pre rest he hc => ?_⟩
  · obtain ⟨hle, hopen⟩ := h.opening o ho
    exact ⟨hle, fun he => absurd (hready.symm.trans (hopen he).1) (by simp)⟩
  · cases hs : saved with
    | true =>
      by_cases he : x = s.historyThread
      · exact .inr ⟨_, List.mem_append_right _ List.mem_cons_self, ⟨rfl, hready, rfl, rfl⟩, rfl,
          he.symm⟩
      · refine .inl ((hcurrent x hx).trans ?_)
        have hstored := (hsaved hs).2 x
        rw [if_neg he] at hstored
        exact hstored.symm
    | false =>
      refine .inl ((hcurrent x hx).trans ?_)
      change s.db.confirmedCursor x = s'.db.confirmedCursor x
      rw [hdb, hfailed hs]
  · rcases List.mem_append.mp hc with hc | hc
    · obtain ⟨hle, hcpos, -⟩ := h.saving c hc
      exact ⟨hle, hcpos, fun hcur => absurd hcur (hnone c hc)⟩
    · rw [List.mem_singleton] at hc
      subst hc
      refine ⟨le_rfl, hpos, fun _ hs => ?_⟩
      have hstored := (hsaved hs).2 s.historyThread
      rw [if_pos rfl] at hstored
      exact hstored
  · rcases List.eq_nil_or_concat rest with rfl | ⟨rest', last, rfl⟩
    · rfl
    · rw [List.concat_eq_append] at he
      have hmem : c ∈ s.saves := mem_of_append_singleton he
      exact absurd hc (hnone c hmem)

theorem Inv.receiveHistory (h : s.Inv) {r : HistoryRequest} (hr : s.pending = some r)
    (page : HistoryPage) :
    (State.receiveHistory faults { s with pending := none } page).Inv := by
  obtain ⟨hready, hcurrent⟩ := h.settled hr
  obtain ⟨-, hpos, -, hnone⟩ := h.request r hr
  unfold State.receiveHistory
  dsimp only
  have hidle : ∀ thread, thread = s.historyThread ∨ thread = 0 →
      Inv { s with pending := none, historyThread := thread } := by
    intro thread hthread
    have hstale : ∀ c ∈ s.saves, ¬ State.IsCurrent { s with historyThread := thread } c := by
      intro c hc hcur
      rcases hthread with rfl | rfl
      · exact hnone c hc hcur
      · have hcpos := (h.saving c hc).2.1
        have heq : 0 = c.threadId := hcur.2.2.2
        omega
    refine ⟨h.reachable, ⟨h.positive.chats, h.positive.queue, h.positive.missing⟩,
      fun he => absurd (hready.symm.trans he) (by simp), h.opening, h.openings, h.behind,
      fun _ x hx => .inl (hcurrent x hx), h.forgotten, fun r hr => (by cases hr), fun c hc => ?_,
      fun c pre rest he hc => ?_⟩
    · obtain ⟨hle, hcpos, -⟩ := h.saving c hc
      exact ⟨hle, hcpos, fun hcur => absurd hcur (hstale c hc)⟩
    · have he : s.saves = pre ++ c :: rest := he
      exact absurd hc (hstale c (he ▸ by simp))
  split
  · exact hidle _ (.inl rfl)
  next hthread =>
    split
    · exact hidle 0 (.inr rfl)
    split
    · exact h.historyFailed hr
    · have hthread : page.threadId = s.historyThread := not_not.mp hthread
      rw [hthread]
      exact h.savePage hr page.more

/-- The callback of the one current page moves the cursor in memory to the stored one. -/
theorem Inv.advance (h : s.Inv) {c : PageSave} (hsaves : s.saves = [c]) (hc : s.IsCurrent c)
    (hsaved : c.saved = true) :
    Inv { s with
      saves := []
      syncCursors := Function.update s.syncCursors c.threadId c.messageId
      historyCursor := c.messageId
      dropped := s.dropped.filter (· ≠ c.threadId)
      pending := none } ∧ 0 < s.historyThread := by
  have hmem : c ∈ s.saves := hsaves ▸ List.mem_singleton_self c
  obtain ⟨-, hpos, hstored⟩ := h.saving c hmem
  have hstored := hstored hc hsaved
  have hother : ∀ x, x ≠ c.threadId →
      Function.update s.syncCursors c.threadId c.messageId x = s.syncCursors x :=
    fun x hx => Function.update_of_ne hx ..
  refine ⟨⟨h.reachable, ⟨h.positive.chats, h.positive.queue, h.positive.missing⟩,
    fun he => absurd (hc.2.1.symm.trans he) (by simp), h.opening, h.openings, fun x => ?_,
    fun hready x hx => .inl ?_, fun hready x hx => ?_, fun r hr => (by cases hr),
    fun c hc => (by cases hc), fun c pre rest he _ => ?_⟩, hc.2.2.2 ▸ hpos⟩
  · by_cases hx : x = c.threadId
    · subst hx
      change Function.update s.syncCursors c.threadId c.messageId c.threadId ≤ s.stored c.threadId
      rw [Function.update_self]
      exact hstored.ge
    · exact (hother x hx).trans_le (h.behind x)
  · by_cases he : x = c.threadId
    · subst he
      exact (Function.update_self ..).trans hstored.symm
    · have hnot : x ∉ s.dropped := fun hd => hx (List.mem_filter.mpr ⟨hd, by simpa using he⟩)
      refine (hother x he).trans ((h.current hready x hnot).resolve_right ?_)
      rintro ⟨c', hc', -, -, rfl⟩
      rw [hsaves, List.mem_singleton] at hc'
      exact he (hc' ▸ rfl)
  · obtain ⟨hd, hne⟩ := List.mem_filter.mp hx
    exact (hother x (by simpa using hne)).trans (h.forgotten hready x hd)
  · exact absurd he (by simp)

theorem Inv.pageSaved (h : s.Inv) {c : PageSave} {rest : List PageSave}
    (hsaves : s.saves = c :: rest) : (State.pageSaved { s with saves := rest } c).Inv := by
  have hmem : c ∈ s.saves := hsaves ▸ List.mem_cons_self
  unfold State.pageSaved
  split
  next hstale =>
    have hstale : ¬ s.IsCurrent c := hstale
    refine ⟨h.reachable, ⟨h.positive.chats, h.positive.queue, h.positive.missing⟩, h.closed,
      h.opening, h.openings, h.behind, fun hready x hx => ?_, h.forgotten, fun r hr => ?_,
      fun c' hc' => h.saving c' (hsaves ▸ List.mem_cons_of_mem _ hc'), fun c' pre rest' he hc' => ?_⟩
    · refine (h.current hready x hx).imp_right ?_
      rintro ⟨c', hc', hcur, hrest⟩
      rw [hsaves] at hc'
      rcases List.mem_cons.mp hc' with rfl | hc'
      · exact absurd hcur hstale
      · exact ⟨c', hc', hcur, hrest⟩
    · obtain ⟨he, hpos, hcursor, hnone⟩ := h.request r hr
      exact ⟨he, hpos, hcursor, fun c' hc' => hnone c' (hsaves ▸ List.mem_cons_of_mem _ hc')⟩
    · have he : rest = pre ++ c' :: rest' := he
      exact h.last c' (c :: pre) rest' (by rw [hsaves, he]; rfl) hc'
  next hnot =>
    have hcurrent : s.IsCurrent c := not_not.mp hnot
    obtain rfl : rest = [] := h.last c [] rest hsaves hcurrent
    have hpending := h.noRequest hmem hcurrent
    split
    next hfailed =>
      have hready : s.storeReady = true := hcurrent.2.1
      have hagree : ∀ t, t ∉ s.dropped → s.syncCursors t = s.stored t := by
        intro t ht
        refine (h.current hready t ht).resolve_right ?_
        rintro ⟨c', hc', -, hs, -⟩
        rw [hsaves, List.mem_singleton] at hc'
        exact hfailed (hc' ▸ hs)
      unfold State.historyFailed
      rw [if_neg (not_not.mpr hready)]
      have hpop : Inv { s with saves := [] } :=
        ⟨h.reachable, ⟨h.positive.chats, h.positive.queue, h.positive.missing⟩, h.closed, h.opening,
          h.openings, h.behind, fun _ x hx => .inl (hagree x hx), h.forgotten,
          fun r hr => absurd (hpending.symm.trans hr) (by simp), fun c hc => (by cases hc),
          fun c pre rest he _ => absurd he (by simp)⟩
      exact hpop.cancel rfl (fun hp => ⟨hp.chats, hp.queue, hp.missing⟩) hpending rfl rfl rfl rfl
        rfl rfl hpop.behind (fun _ => hagree) fun _ => h.forgotten hready
    next hsaved =>
      obtain ⟨hadvance, hpos⟩ := h.advance hsaves hcurrent (not_not.mp hsaved)
      dsimp only
      split
      · refine ⟨hadvance.reachable, ⟨h.positive.chats, h.positive.queue, h.positive.missing⟩,
          fun he => absurd (hcurrent.2.1.symm.trans he) (by simp), hadvance.opening,
          hadvance.openings, hadvance.behind, hadvance.current, hadvance.forgotten, fun r hr => ?_,
          fun c hc => (by cases hc), hadvance.last⟩
        refine ⟨(Option.some.inj hr).symm, hpos, ?_, fun c hc => (by cases hc)⟩
        have hthread : s.historyThread = c.threadId := hcurrent.2.2.2
        change c.messageId = Function.update s.syncCursors c.threadId c.messageId s.historyThread
        rw [hthread, Function.update_self]
      · refine ⟨hadvance.reachable, ⟨h.positive.chats, h.positive.queue, h.positive.missing⟩,
          fun he => absurd (hcurrent.2.1.symm.trans he) (by simp), hadvance.opening,
          hadvance.openings, hadvance.behind, fun hready x hx => ?_, hadvance.forgotten,
          fun r hr => ?_, fun c hc => (by cases hc), fun c pre rest he _ => ?_⟩
        · refine .inl ((hadvance.current hready x hx).resolve_right ?_)
          rintro ⟨c', hc', -⟩
          cases hc'
        · exact absurd (hpending.symm.trans hr) (by simp)
        · exact absurd he (by simp)

theorem Inv.step (h : s.Inv) {a : Action} (hstep : s.step J faults a = some s') : s'.Inv := by
  cases a with
  | login uid friends =>
    cases hstep
    refine Inv.startSession (h.quiet (M := Set.univ) ?_)
    exact quiet_of_positive rfl (fun hp => ⟨by simp [UserMgr.reset], hp.queue, hp.missing⟩) (by simp)
  | returnToLogin =>
    cases hstep
    refine Inv.resetSession (h.quiet (M := Set.univ) ?_)
    exact quiet_of_positive rfl (fun hp => ⟨by simp [UserMgr.reset], hp.queue, hp.missing⟩) (by simp)
  | accountOpened =>
    simp only [State.step] at hstep
    split at hstep
    · cases hstep
    next o rest ho =>
      cases hstep
      exact h.accountOpened ho
  | loadNextHistory =>
    cases hstep
    exact h.loadNextHistory
  | historyFailed =>
    simp only [State.step] at hstep
    split at hstep
    · cases hstep
    next hpending =>
      cases hstep
      obtain ⟨r, hr⟩ := Option.ne_none_iff_exists'.mp hpending
      exact h.historyFailed hr
  | receiveHistory page =>
    simp only [State.step] at hstep
    split at hstep
    · cases hstep
    next r hr =>
      split at hstep
      · cases hstep
      · cases hstep
        exact h.receiveHistory hr page
  | pageSaved =>
    simp only [State.step] at hstep
    split at hstep
    · cases hstep
    next c rest hsaves =>
      cases hstep
      exact h.pageSaved hsaves
  | _ => exact kept_inv.plain h hstep trivial (tells_univ _)

theorem inv_fresh {db : Database} (hdb : LocalStore.store.Reachable db) : (fresh db).Inv := by
  refine ⟨hdb, ⟨by simp [fresh, UserMgr.reset], by simp [fresh], by simp [fresh]⟩,
    fun _ => ⟨rfl, rfl⟩, by simp [fresh], by simp [fresh], fun t => cursor_nonneg hdb t,
    by simp [fresh], by simp [fresh], by simp [fresh], by simp [fresh], by simp [fresh]⟩

/-- The invariant holds in every run. -/
theorem inv_invariant : (client J faults).Invariant Inv := by
  refine ⟨?_, fun s a s' _ h hstep => h.step hstep⟩
  rintro s ⟨db, hdb, rfl⟩
  exact inv_fresh hdb

end State
end CppChat.Sync
