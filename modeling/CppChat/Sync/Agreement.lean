import CppChat.Sync.Invariant

/-! # Requests carry the stored cursor

`RemoveThread` forgets the cursor in memory and leaves the stored one. As long as no such
thread is asked for again, every request carries the stored cursor, and its page is accepted.
-/
namespace CppChat.Sync
open Foundation LocalStore

/-- The operation that saves a history page. -/
def HistoryPage.save (p : HistoryPage) : Operation :=
  .saveMessages p.messages p.threadId p.messageId 0

namespace State

variable {J : GroupJson} {faults : ℕ → Bool} {s s' : State} {t : Int}

/-- `LoadNextHistory` is not about to ask for a thread that `RemoveThread` dropped, unless
nothing of it was confirmed. -/
def Remembers (s : State) : Action → Prop
  | .loadNextHistory => s.CanLoadNext →
      ∀ t ∈ s.historyQueue.head?, t ∈ s.dropped → s.stored t = 0
  | _ => True

instance (s : State) (a : Action) : Decidable (s.Remembers a) := by
  cases a <;> unfold Remembers <;> infer_instance

variable (J faults) in
/-- The runs all of whose steps meet the condition. -/
def remembering : Machine State Action := (client J faults).restrict Remembers

structure Agree (s : State) : Prop where
  inv : s.Inv
  sent : ∀ p ∈ s.sent, p.1.messageId = p.2
  request : ∀ r, s.pending = some r → r.messageId = s.stored r.threadId

theorem kept_agree : Kept Set.univ Agree where
  positive _ h := h.inv.positive
  quiet s s' h q := by
    refine ⟨h.inv.quiet q, fun p hp => h.sent p (q.sent ▸ hp), fun r hr => ?_⟩
    rw [q.stored]
    exact h.request r (q.pending ▸ hr)
  removeThread s t h := by
    refine ⟨h.inv.removeThread t, fun p hp => h.sent p ?_, fun r hr => ?_⟩
    · unfold State.removeThread at hp
      dsimp only at hp
      split at hp <;> exact hp
    · unfold State.removeThread at hr ⊢
      dsimp only at hr ⊢
      split at hr
      next => cases hr
      next hne =>
        rw [if_neg hne]
        exact h.request r hr

/-- A step after which no request is pending and none was sent. -/
theorem Agree.idle (h : s.Agree) (hinv : s'.Inv) (hsent : s'.sent = s.sent)
    (hpending : s'.pending = none) : s'.Agree :=
  ⟨hinv, fun p hp => h.sent p (hsent ▸ hp), fun r hr => absurd (hpending.symm.trans hr) (by simp)⟩

theorem Agree.accountOpened {o : Opening} {rest : List Opening} (h : s.Agree)
    (ho : s.openings = o :: rest) :
    (State.accountOpened J faults { s with openings := rest } o).Agree := by
  unfold State.accountOpened
  split
  · exact ⟨h.inv.popOpening ho, h.sent, h.request⟩
  next hguard =>
    simp only [not_or, not_not] at hguard
    obtain ⟨hinv, hpending⟩ := h.inv.loadCursors ho hguard.1
    exact kept_agree.openConversations o.conversations (h.idle hinv rfl hpending)

/-- The cursor of the next thread is the stored one. -/
theorem Agree.loadNextHistory (h : s.Agree) (hok : s.Remembers .loadNextHistory) :
    s.loadNextHistory.Agree := by
  have hinv := h.inv.loadNextHistory
  unfold State.loadNextHistory at hinv ⊢
  split at hinv
  next hcan => rwa [if_pos hcan]
  next hcan =>
    rw [if_neg hcan]
    have hcan : s.CanLoadNext := not_not.mp hcan
    split at hinv
    · exact h
    next t rest hqueue =>
      have hcursor : s.syncCursors t = s.stored t := by
        by_cases ht : t ∈ s.dropped
        · rw [h.inv.forgotten hcan.1 t ht, hok hcan t (by rw [hqueue]; rfl) ht]
        · refine (h.inv.current hcan.1 t ht).resolve_right ?_
          rintro ⟨c, hc, hcur, -⟩
          have hpos := (h.inv.saving c hc).2.1
          have hzero := hcan.2.1.symm.trans hcur.2.2.2
          omega
      refine ⟨hinv, fun p hp => ?_, fun r hr => ?_⟩
      · rcases List.mem_cons.mp hp with rfl | hp
        · exact hcursor
        · exact h.sent p hp
      · cases hr
        exact hcursor

theorem historyFailed_sent (s : State) : s.historyFailed.sent = s.sent := by
  unfold State.historyFailed
  split <;> rfl

theorem historyFailed_pending (s : State) : s.historyFailed.pending = s.pending := by
  unfold State.historyFailed
  split <;> rfl

theorem Agree.receiveHistory (h : s.Agree) {r : HistoryRequest} (hr : s.pending = some r)
    (page : HistoryPage) :
    (State.receiveHistory faults { s with pending := none } page).Agree := by
  have hinv := @Inv.receiveHistory faults s h.inv r hr page
  refine h.idle hinv ?_ ?_ <;>
  · unfold State.receiveHistory State.historyFailed
    dsimp only
    split_ifs <;> rfl

theorem Agree.pageSaved (h : s.Agree) {c : PageSave} {rest : List PageSave}
    (hsaves : s.saves = c :: rest) : (State.pageSaved { s with saves := rest } c).Agree := by
  have hinv := h.inv.pageSaved hsaves
  unfold State.pageSaved at hinv ⊢
  split at hinv
  next hstale =>
    rw [if_pos hstale]
    exact ⟨hinv, h.sent, h.request⟩
  next hnot =>
    rw [if_neg hnot]
    have hcurrent : s.IsCurrent c := not_not.mp hnot
    have hmem : c ∈ s.saves := hsaves ▸ List.mem_cons_self
    have hpending := h.inv.noRequest hmem hcurrent
    split at hinv
    next hfailed =>
      rw [if_pos hfailed]
      exact h.idle hinv (historyFailed_sent _) ((historyFailed_pending _).trans hpending)
    next hsaved =>
      rw [if_neg hsaved]
      have hstored := (h.inv.saving c hmem).2.2 hcurrent (not_not.mp hsaved)
      have hnext : c.messageId = s.stored s.historyThread := by
        rw [hcurrent.2.2.2]
        exact hstored.symm
      dsimp only at hinv ⊢
      split at hinv
      next hmore =>
        rw [if_pos hmore]
        refine ⟨hinv, fun p hp => ?_, fun r hr => ?_⟩
        · rcases List.mem_cons.mp hp with rfl | hp
          · exact hnext
          · exact h.sent p hp
        · cases hr
          exact hnext
      next hmore =>
        rw [if_neg hmore]
        exact h.idle hinv rfl hpending

theorem Agree.step (h : s.Agree) {a : Action} (hok : s.Remembers a)
    (hstep : s.step J faults a = some s') : s'.Agree := by
  have hinv := h.inv.step hstep
  cases a with
  | login uid friends =>
    cases hstep
    exact h.idle hinv rfl rfl
  | returnToLogin =>
    cases hstep
    exact h.idle hinv rfl rfl
  | accountOpened =>
    simp only [State.step] at hstep
    split at hstep
    · cases hstep
    next o rest ho =>
      cases hstep
      exact h.accountOpened ho
  | loadNextHistory =>
    cases hstep
    exact h.loadNextHistory hok
  | historyFailed =>
    simp only [State.step] at hstep
    split at hstep
    · cases hstep
    · cases hstep
      exact h.idle hinv (historyFailed_sent _) (historyFailed_pending _)
  | receiveHistory page =>
    simp only [State.step] at hstep
    split at hstep
    · cases hstep
    next r hr =>
      split at hstep
      · cases hstep
      · cases hstep
        exact h.receiveHistory hr page
  | pageSaved =>
    simp only [State.step] at hstep
    split at hstep
    · cases hstep
    next c rest hsaves =>
      cases hstep
      exact h.pageSaved hsaves
  | _ => exact kept_agree.plain h hstep trivial (tells_univ _)

theorem agree_invariant : (remembering J faults).Invariant Agree := by
  refine ⟨?_, fun s a s' _ h hstep => h.step hstep.1 hstep.2⟩
  rintro s ⟨db, hdb, rfl⟩
  exact ⟨inv_fresh hdb, by simp [fresh], by simp [fresh]⟩

/-! ## Pages -/

/-- A page that continues its request: messages of the thread, in increasing order, up to
the announced cursor. -/
structure WellOrdered (r : HistoryRequest) (p : HistoryPage) : Prop where
  thread : p.threadId = r.threadId
  messages : ∀ m ∈ p.messages, m.threadId = r.threadId
  increasing : (r.messageId :: p.messages.map StoredMessage.serverId).IsChain (· < ·)
  cursor : p.messageId = (p.messages.map StoredMessage.serverId).getLastD r.messageId

theorem checkPageOrder_ok {ms : List StoredMessage} {last : Int} (hthread : ∀ m ∈ ms, m.threadId = t)
    (hchain : (last :: ms.map StoredMessage.serverId).IsChain (· < ·)) :
    checkPageOrder t last ms = .ok ((ms.map StoredMessage.serverId).getLastD last) := by
  induction ms generalizing last with
  | nil => rfl
  | cons m ms ih =>
    obtain ⟨hlt, hchain⟩ := List.isChain_cons_cons.mp hchain
    have hm := hthread m List.mem_cons_self
    unfold checkPageOrder
    rw [if_pos ⟨hm, hlt⟩, ih (fun x hx => hthread x (List.mem_cons_of_mem _ hx)) hchain,
      List.map_cons, List.getLastD_cons]

/-- `SaveMessages` finds the page in order. -/
theorem Agree.accepts (h : s.Agree) {r : HistoryRequest} {p : HistoryPage}
    (hr : s.pending = some r) (hp : WellOrdered r p) :
    s.db.checkHistoryPage p.messages p.threadId p.messageId = .ok () := by
  have hpos : 0 < p.threadId := by
    rw [hp.thread, (h.inv.request r hr).1]
    exact (h.inv.request r hr).2.1
  have hstored : s.db.confirmedCursor p.threadId = r.messageId := by
    rw [hp.thread]
    exact (h.request r hr).symm
  unfold Database.checkHistoryPage
  rw [if_pos hpos, hstored,
    checkPageOrder_ok (fun m hm => (hp.messages m hm).trans hp.thread.symm) hp.increasing]
  exact if_pos hp.cursor

theorem pageEnd_ok {ms : List StoredMessage} {last : Int} (hthread : ∀ m ∈ ms, m.threadId = t)
    (hchain : (last :: ms.map StoredMessage.serverId).IsChain (· < ·)) :
    pageEnd t last ms = some ((ms.map StoredMessage.serverId).getLastD last) := by
  induction ms generalizing last with
  | nil => rfl
  | cons m ms ih =>
    obtain ⟨hlt, hchain⟩ := List.isChain_cons_cons.mp hchain
    have hm := hthread m List.mem_cons_self
    unfold pageEnd
    rw [if_neg (not_or.mpr ⟨not_not.mpr hm, not_le.mpr hlt⟩),
      ih (fun x hx => hthread x (List.mem_cons_of_mem _ hx)) hchain, List.map_cons,
      List.getLastD_cons]

/-- The cursor ends beyond the request when there is a message. -/
theorem WellOrdered.lt {r : HistoryRequest} {p : HistoryPage} (hp : WellOrdered r p)
    (hne : p.messages ≠ []) : r.messageId < p.messageId := by
  have hcheck := checkPageOrder_ok hp.messages hp.increasing
  rw [← hp.cursor] at hcheck
  exact (Database.le_of_checkPageOrder hcheck).2.1 hne

/-- `ReceiveHistory` hands the page to the store, and a page that was saved moves the stored
cursor forward. -/
theorem Agree.forward (h : s.Agree) {r : HistoryRequest} {p : HistoryPage}
    (hr : s.pending = some r) (hp : WellOrdered r p) (hne : p.messages ≠ [])
    (hchat : (s.users.chat? p.threadId).isSome = true)
    (hstep : s.step J faults (.receiveHistory p) = some s') :
    ∃ saved, s'.saves = s.saves ++
        [⟨s.revision, s.historyOperation, p.threadId, p.messageId, p.more, saved⟩] ∧
      saved = (!faults s.operations && (p.save.run s.db).toBool) ∧
      (saved = true → s.stored p.threadId < p.messageId ∧ s'.stored p.threadId = p.messageId) := by
  obtain ⟨hrequest, hpos, -⟩ := h.inv.request r hr
  have hthread : p.threadId = s.historyThread := by rw [hp.thread, hrequest]
  have hend : pageEnd p.threadId s.historyCursor p.messages = some p.messageId := by
    have hcursor : s.historyCursor = r.messageId := by rw [hrequest]
    rw [hcursor, hp.thread, pageEnd_ok hp.messages hp.increasing, hp.cursor]
  simp only [State.step, hr, hp.thread, ne_eq, not_true_eq_false, if_false] at hstep
  obtain rfl := Option.some.inj hstep
  have hreceive : State.receiveHistory faults { s with pending := none } p =
      { (({ s with pending := none } : State).store faults p.save) with
        saves := s.saves ++ [⟨s.revision, s.historyOperation, p.threadId, p.messageId, p.more,
          !faults s.operations && (p.save.run s.db).toBool⟩] } := by
    unfold State.receiveHistory
    rw [if_neg (not_not.mpr hthread), if_neg (by simpa [Option.isSome_iff_ne_none] using hchat), if_neg]
    · rfl
    · exact not_or.mpr ⟨not_not.mpr hend, fun hempty => hne hempty.2⟩
  rw [hreceive]
  refine ⟨_, rfl, rfl, fun hsaved => ⟨?_, ?_⟩⟩
  · rw [hp.thread, ← h.request r hr]
    exact hp.lt hne
  · have hstored := (@savePage_stored faults s h.inv _ p.messageId p.messages (hthread ▸ hpos)).1 hsaved
    exact (hstored.2 p.threadId).trans (if_pos rfl)

end State

open State

/-- What the cursors of a client are for: every request continues at the stored cursor, the
page that answers it is accepted, and it moves the stored cursor forward. -/
structure CursorsAgree (J : GroupJson) (faults : ℕ → Bool) (s : State) : Prop where
  sent : ∀ p ∈ s.sent, p.1.messageId = p.2
  pending : ∀ r, s.pending = some r → r.messageId = s.db.confirmedCursor r.threadId
  accepted : ∀ r p, s.pending = some r → WellOrdered r p →
    s.db.checkHistoryPage p.messages p.threadId p.messageId = .ok ()
  forward : ∀ r p s', s.pending = some r → WellOrdered r p → p.messages ≠ [] →
    (s.users.chat? p.threadId).isSome = true → s.step J faults (.receiveHistory p) = some s' →
    ∃ saved, s'.saves = s.saves ++
        [⟨s.revision, s.historyOperation, p.threadId, p.messageId, p.more, saved⟩] ∧
      saved = (!faults s.operations && (p.save.run s.db).toBool) ∧
      (saved = true → s.db.confirmedCursor p.threadId < p.messageId ∧
        s'.db.confirmedCursor p.threadId = p.messageId)

theorem cursors_agree {J : GroupJson} {faults : ℕ → Bool} {s : State}
    (hs : (remembering J faults).Reachable s) : CursorsAgree J faults s := by
  have h := agree_invariant.reachable hs
  exact ⟨h.sent, h.request, fun _ _ => h.accepts, fun _ _ _ => h.forward⟩

def sampleJson : GroupJson := ⟨fun _ => 7, (· = "removed"), fun _ => true, fun _ group => group⟩

def samplePage : HistoryPage :=
  ⟨7, 5, false, [⟨7, 8, 5, "uuid", some "hello", some "2024-01-01 00:00:00", 0, 1, []⟩]⟩

/-- A group is loaded, and asked for again after it was refreshed. -/
def refreshActions : List Action :=
  [.login 1 [], .accountOpened, .receiveGroup "group", .loadNextHistory,
    .receiveHistory samplePage, .pageSaved, .refreshAllHistory true, .loadNextHistory]

/-- The group is removed after its first page and joined again. -/
def rejoinActions : List Action :=
  [.login 1 [], .accountOpened, .receiveGroup "group", .loadNextHistory,
    .receiveHistory samplePage, .pageSaved, .receiveGroup "removed", .receiveGroup "group",
    .loadNextHistory]

theorem cursors_agree_sample : ∃ s,
    Machine.runFn (fun s a => if s.Remembers a then s.step sampleJson (fun _ => false) a else none)
      (fresh (Database.create 0)) refreshActions = some s ∧
    s.sent = [(⟨7, 5⟩, 5), (⟨7, 0⟩, 0)] ∧ CursorsAgree sampleJson (fun _ => false) s := by
  have hrun : (Machine.runFn
      (fun s a => if s.Remembers a then s.step sampleJson (fun _ => false) a else none)
      (fresh (Database.create 0)) refreshActions).map State.sent =
        some [(⟨7, 5⟩, 5), (⟨7, 0⟩, 0)] := by
    decide +kernel
  obtain ⟨s, hs, hsent⟩ := Option.map_eq_some_iff.mp hrun
  have hinit : (remembering sampleJson fun _ => false).Reachable (fresh (Database.create 0)) :=
    .init ⟨_, .init ⟨0, rfl⟩, rfl⟩
  exact ⟨s, hs, hsent, cursors_agree (hinit.runFn_restrict hs)⟩

/-- After `RemoveThread` the stored cursor is 5, and the group is asked for from 0. -/
theorem rejoin_asks_from_zero : ¬ ∀ (J : GroupJson) (faults : ℕ → Bool) (s : State),
    (client J faults).Reachable s → CursorsAgree J faults s := by
  intro h
  have hrun : (Machine.runFn (State.step sampleJson fun _ => false)
      (fresh (Database.create 0)) rejoinActions).map State.sent =
        some [(⟨7, 0⟩, 5), (⟨7, 0⟩, 0)] := by
    decide +kernel
  obtain ⟨s, hs, hsent⟩ := Option.map_eq_some_iff.mp hrun
  have hinit : (client sampleJson fun _ => false).Reachable (fresh (Database.create 0)) :=
    .init ⟨_, .init ⟨0, rfl⟩, rfl⟩
  have hagree := (h _ _ s (hinit.runFn hs)).sent (⟨7, 0⟩, 5) (by rw [hsent]; simp)
  cases hagree

end CppChat.Sync
