import CppChat.LocalStore.Coverage
import CppChat.Sync.Service

/-! # Events that leave the cursors alone

Most events change no cursor, request or callback, or only drop threads. What survives a
quiet change and a dropped thread survives all of them.
-/
namespace CppChat.Sync
open Foundation LocalStore
namespace State

variable {J : GroupJson} {faults : ℕ → Bool} {M : Set Confirmation} {s s' : State} {t : Int}

def stored (s : State) (t : Int) : Int := s.db.confirmedCursor t

/-- Thread ids that may be asked for are positive. -/
structure Positive (s : State) : Prop where
  chats : ∀ c ∈ s.users.chats, 0 < c.threadId
  queue : ∀ t ∈ s.historyQueue, 0 < t
  missing : ∀ t ∈ s.threadsWithoutSummary, 0 < t

/-- The parts of the state the cursors depend on are the same, and the store keeps what the
server told. -/
structure Quiet (M : Set Confirmation) (s s' : State) : Prop where
  run : LocalStore.store.Run s.db s'.db
  stored : ∀ t, s'.stored t = s.stored t
  keeps : Confirmations M → s.db.Keeps M s'.db
  positive : s.Positive → s'.Positive
  pending : s'.pending = s.pending
  revision : s'.revision = s.revision
  historyOperation : s'.historyOperation = s.historyOperation
  storeReady : s'.storeReady = s.storeReady
  syncCursors : s'.syncCursors = s.syncCursors
  historyThread : s'.historyThread = s.historyThread
  historyCursor : s'.historyCursor = s.historyCursor
  openings : s'.openings = s.openings
  saves : s'.saves = s.saves
  sent : s'.sent = s.sent
  dropped : s'.dropped = s.dropped

theorem Quiet.refl (s : State) : Quiet M s s :=
  ⟨.refl, fun _ => rfl, fun _ => .refl _, id, rfl, rfl, rfl, rfl, rfl, rfl, rfl, rfl, rfl, rfl, rfl⟩

theorem Quiet.trans {s'' : State} (h : Quiet M s s') (h' : Quiet M s' s'') : Quiet M s s'' where
  run := h.run.trans h'.run
  stored t := (h'.stored t).trans (h.stored t)
  keeps hM := (h.keeps hM).trans (h'.keeps hM)
  positive hp := h'.positive (h.positive hp)
  pending := h'.pending.trans h.pending
  revision := h'.revision.trans h.revision
  historyOperation := h'.historyOperation.trans h.historyOperation
  storeReady := h'.storeReady.trans h.storeReady
  syncCursors := h'.syncCursors.trans h.syncCursors
  historyThread := h'.historyThread.trans h.historyThread
  historyCursor := h'.historyCursor.trans h.historyCursor
  openings := h'.openings.trans h.openings
  saves := h'.saves.trans h.saves
  sent := h'.sent.trans h.sent
  dropped := h'.dropped.trans h.dropped

/-- What one list element keeps, the whole list keeps. -/
theorem foldl_keeps {α β : Type*} {P : β → Prop} {f : β → α → β} {l : List α}
    (hstep : ∀ b, ∀ a ∈ l, P b → P (f b a)) {b : β} (h : P b) : P (l.foldl f b) := by
  induction l generalizing b with
  | nil => exact h
  | cons a l ih =>
    exact ih (fun b x hx => hstep b x (List.mem_cons_of_mem _ hx)) (hstep b a List.mem_cons_self h)

/-! ## Quiet events -/

theorem local_cursor {op : Operation} {db db' : Database} (hlocal : IsLocal op)
    (h : op.run db = .ok db') (t : Int) : db'.confirmedCursor t = db.confirmedCursor t := by
  cases op with
  | openAccount => exact hlocal.elim
  | saveConversations cs =>
    cases h
    exact Database.confirmedCursor_congr (db.saveConversations_elsewhere cs).1 t
  | forgetGroupProfile thread =>
    cases h
    rfl
  | saveMessages ms thread cursor d =>
    obtain ⟨reply, h⟩ := saveMessages_run h
    rw [Database.saveMessages_cursor h, if_neg]
    exact fun hcond => absurd hcond.2.1 (not_lt.mpr hlocal)
  | saveDraft thread draft =>
    cases h
    exact Database.confirmedCursor_congr (db.saveDraft_tables thread draft).2.2.2.1 t
  | markUnconfirmed id failed =>
    cases h
    rfl
  | saveAttachment a =>
    cases h
    rfl
  | clearLocalHistory thread confirmed =>
    exact Database.confirmedCursor_congr (Database.clearLocalHistory_elsewhere h).1 t
  | deleteLocalMessages thread ids =>
    exact Database.confirmedCursor_congr (Database.deleteLocalMessages_elsewhere h).1 t

theorem store_quiet {op : Operation} (s : State) (hlocal : IsLocal op) (htells : op.Tells M) :
    Quiet M s (s.store faults op) := by
  have hcases := Call.run_cases s.db ⟨op, faults s.operations⟩
  refine ⟨.single ⟨_, rfl⟩, fun t => ?_, fun hM => ?_, fun hp => ⟨hp.chats, hp.queue, hp.missing⟩, rfl, rfl, rfl,
    rfl, rfl, rfl, rfl, rfl, rfl, rfl, rfl⟩
  · rcases hcases with h | h
    · exact congrArg (fun db => db.confirmedCursor t) h
    · exact local_cursor hlocal h t
  · rcases hcases with h | h
    · change s.db.Keeps M (Call.run s.db ⟨op, faults s.operations⟩)
      rw [h]
      exact .refl _
    · exact Database.run_keeps hM htells h

/-- A change of other fields that keeps the thread ids positive. -/
theorem quiet_of_positive {s s' : State} (hdb : s'.db = s.db) (hp : s.Positive → s'.Positive)
    (hrest : s'.pending = s.pending ∧ s'.revision = s.revision ∧
      s'.historyOperation = s.historyOperation ∧ s'.storeReady = s.storeReady ∧
      s'.syncCursors = s.syncCursors ∧ s'.historyThread = s.historyThread ∧
      s'.historyCursor = s.historyCursor ∧ s'.openings = s.openings ∧ s'.saves = s.saves ∧
      s'.sent = s.sent ∧ s'.dropped = s.dropped) : Quiet M s s' := by
  obtain ⟨h1, h2, h3, h4, h5, h6, h7, h8, h9, h10, h11⟩ := hrest
  refine ⟨?_, fun t => ?_, fun _ => ?_, hp, h1, h2, h3, h4, h5, h6, h7, h8, h9, h10, h11⟩
  · rw [hdb]
  · rw [stored, hdb, stored]
  · rw [hdb]
    exact .refl _

theorem loadThreads_quiet (s : State) : Quiet M s s.loadThreads := by
  unfold loadThreads
  split
  · exact .refl s
  · exact quiet_of_positive rfl (fun hp => ⟨hp.chats, hp.queue, hp.missing⟩) (by simp)

theorem reloadThreads_quiet (s : State) : Quiet M s s.reloadThreads := by
  unfold reloadThreads
  split
  · exact .refl s
  · refine Quiet.trans ?_ (loadThreads_quiet _)
    exact quiet_of_positive rfl (fun hp => ⟨hp.chats, hp.queue, hp.missing⟩) (by simp)

theorem queueHistory_quiet (s : State) (prioritize : Bool) (ht : s.Positive → 0 < t) :
    Quiet M s (s.queueHistory t prioritize) := by
  have hqueue : ∀ q : List Int, (∀ x ∈ q, x = t ∨ x ∈ s.historyQueue) →
      Quiet M s { s with historyQueue := q } := by
    intro q hq
    refine quiet_of_positive rfl (fun hp => ⟨hp.chats, fun x hx => ?_, hp.missing⟩) (by simp)
    rcases hq x hx with rfl | hx
    · exact ht hp
    · exact hp.queue x hx
  unfold queueHistory
  split
  · exact .refl s
  · split
    · split
      · exact .refl s
      · exact hqueue _ fun x hx => (List.mem_cons.mp hx).imp_right List.mem_of_mem_filter
    · split
      · exact hqueue _ fun x hx => List.mem_cons.mp hx
      · exact hqueue _ fun x hx => (List.mem_append.mp hx).symm.imp_left List.mem_singleton.mp

theorem mem_addChatThreadData {u : UserMgr} {c x : Chat} (h : x ∈ (u.addChatThreadData c).chats) :
    x ∈ u.chats ∨ (x = c ∧ 0 < c.threadId) := by
  unfold UserMgr.addChatThreadData at h
  split at h
  · exact .inl h
  next hpos =>
    dsimp only at h
    split at h
    · exact .inl h
    · rcases List.mem_orderedInsert (r := fun a b : Chat => a.threadId ≤ b.threadId) |>.mp h with
        rfl | h
      · exact .inr ⟨rfl, not_not.mp hpos⟩
      · exact .inl h

theorem addChat_quiet (s : State) (c : Chat) :
    Quiet M s { s with users := s.users.addChatThreadData c } :=
  quiet_of_positive rfl (fun hp => ⟨fun x hx => (mem_addChatThreadData hx).elim (hp.chats x)
    fun he => he.1 ▸ he.2, hp.queue, hp.missing⟩) (by simp)

theorem chat?_mem {u : UserMgr} {c : Chat} (h : u.chat? t = some c) : c ∈ u.chats ∧ c.threadId = t := by
  refine ⟨List.mem_of_find?_eq_some h, ?_⟩
  simpa using List.find?_some h

theorem ensureThread_quiet (s : State) (t otherUid : Int) :
    Quiet M s (s.ensureThread faults t otherUid).2 := by
  unfold ensureThread
  split
  · exact .refl s
  · split
    · exact .refl s
    · split
      · exact .refl s
      · exact (addChat_quiet s _).trans (store_quiet _ trivial trivial)

theorem chat?_pos (hp : s.Positive) (h : (s.users.chat? t).isSome = true) : 0 < t := by
  obtain ⟨c, hc⟩ := Option.isSome_iff_exists.mp h
  obtain ⟨hmem, rfl⟩ := chat?_mem hc
  exact hp.chats c hmem

theorem ensureThread_pos {otherUid : Int} (hp : s.Positive)
    (h : (s.ensureThread faults t otherUid).1 = true) : 0 < t := by
  unfold ensureThread at h
  split at h
  · exact chat?_pos hp h
  · split at h
    · cases h
    next hguard =>
      simp only [not_or, not_le] at hguard
      exact hguard.1

theorem setGroup_quiet (s : State) (id : Int) (group : String) :
    Quiet M s { s with users := s.users.setGroup id group, groupSnapshot := id :: s.groupSnapshot } := by
  refine quiet_of_positive rfl (fun hp => ⟨fun x hx => ?_, hp.queue, hp.missing⟩) (by simp)
  obtain ⟨c, hc, rfl⟩ := List.mem_map.mp hx
  split <;> exact hp.chats c hc

/-! ## Threads that come and go -/

/-- A property that survives quiet changes and dropped threads. -/
structure Kept (M : Set Confirmation) (P : State → Prop) : Prop where
  positive : ∀ s, P s → s.Positive
  quiet : ∀ s s', P s → Quiet M s s' → P s'
  removeThread : ∀ s t, P s → P (s.removeThread t)

variable {P : State → Prop}

theorem removeGroup_chats {u : UserMgr} {c : Chat} (hc : c ∈ (u.removeGroup t).chats) :
    c ∈ u.chats := by
  unfold UserMgr.removeGroup at hc
  split at hc
  · split at hc
    · exact List.mem_of_mem_filter hc
    · exact hc
  · exact hc

/-- Losing conversations or friends is quiet. -/
theorem users_quiet (s : State) {users : UserMgr} (hchats : ∀ c ∈ users.chats, c ∈ s.users.chats) :
    Quiet M s { s with users } :=
  quiet_of_positive rfl
    (fun hp => ⟨fun c hc => hp.chats c (hchats c hc), hp.queue, hp.missing⟩) (by simp)

theorem Kept.groupRemoved (hP : Kept M P) (h : P s) (t : Int) : P (s.groupRemoved faults t) := by
  unfold State.groupRemoved
  split
  · exact h
  · refine hP.quiet _ _ (hP.removeThread s t h) ((users_quiet _ ?_).trans (store_quiet _ trivial trivial))
    exact fun c hc => removeGroup_chats hc

theorem Kept.receiveGroup (hP : Kept M P) (h : P s) (group : String) :
    P (s.receiveGroup J faults group) := by
  unfold State.receiveGroup
  dsimp only
  split
  · exact hP.groupRemoved h _
  split
  · exact h
  next hguard =>
    split
    · exact h
    split
    · split
      · exact h
      · exact hP.quiet _ _ h ((setGroup_quiet s _ _).trans (store_quiet _ trivial trivial))
    · refine hP.quiet _ _ h (Quiet.trans ?_
        (queueHistory_quiet _ false fun _ => not_le.mp (not_or.mp hguard).1))
      refine Quiet.trans ?_ (store_quiet _ trivial trivial)
      exact (addChat_quiet s _).trans
        (quiet_of_positive rfl (fun hp => ⟨hp.chats, hp.queue, hp.missing⟩) (by simp))

theorem Kept.receiveThread {stored : List StoredConversation} (hP : Kept M P) (h : P s)
    (info : ThreadInfo) : P (receiveThread J faults (s, stored) info).1 := by
  unfold State.receiveThread
  dsimp only
  cases hkind : info.kind with
  | other => exact h
  | group json =>
    have hsnapshot : P { s with groupSnapshot := info.threadId :: s.groupSnapshot } :=
      hP.quiet _ _ h
        (quiet_of_positive rfl (fun hp => ⟨hp.chats, hp.queue, hp.missing⟩) (by simp))
    have hgroup := @Kept.receiveGroup J faults _ _ _ hP hsnapshot json
    dsimp only
    split <;> exact hgroup
  | privateChat user1 user2 =>
    dsimp only
    split
    · exact h
    · generalize (if user1 = s.users.uid then user2 else user1) = other
      have hquiet := @ensureThread_quiet faults M s info.threadId other
      have hpos := @ensureThread_pos faults s info.threadId other (hP.positive s h)
      split
      · exact hP.quiet _ _ h hquiet
      next hknown =>
        refine hP.quiet _ _ h (hquiet.trans ?_)
        split
        · refine quiet_of_positive rfl (fun hp => ⟨hp.chats, hp.queue, fun x hx => ?_⟩) (by simp)
          rcases List.mem_cons.mp hx with rfl | hx
          · exact hpos (by simpa using hknown)
          · exact hp.missing x hx
        · exact .refl _

theorem Kept.queueAll (hP : Kept M P) (l : List Int) (hl : ∀ t ∈ l, 0 < t) (h : P s) :
    P (l.foldl (fun s t => s.queueHistory t false) s) := by
  refine foldl_keeps (fun b t ht hb => ?_) h
  exact hP.quiet _ _ hb (queueHistory_quiet b false fun _ => hl t ht)

theorem Kept.finishThreads (hP : Kept M P) (h : P s) : P (s.finishThreads faults) := by
  unfold State.finishThreads
  dsimp only
  have h1 : P (s.users.chats.foldl (fun s c =>
      if c.IsGroup ∧ c.threadId ∉ s.groupSnapshot then s.groupRemoved faults c.threadId else s)
        s) := foldl_keeps (fun b a _ hb => by
      split
      · exact hP.groupRemoved hb _
      · exact hb) h
  generalize s.users.chats.foldl _ s = s₁ at h1 ⊢
  have h2 := hP.queueAll (s₁.threadsWithoutSummary.dedup.insertionSort (· ≥ ·)) (fun t ht =>
    (hP.positive s₁ h1).missing t (by simpa using ht)) h1
  generalize (s₁.threadsWithoutSummary.dedup.insertionSort (· ≥ ·)).foldl _ s₁ = s₂ at h2 ⊢
  have h3 : P { s₂ with threadsWithoutSummary := [] } := hP.quiet _ _ h2
    (quiet_of_positive rfl (fun hp => ⟨hp.chats, hp.queue, by simp⟩) (by simp))
  have h4 := hP.queueAll (s₂.users.chats.map Chat.threadId) (fun t ht => by
    obtain ⟨c, hc, rfl⟩ := List.mem_map.mp ht
    exact (hP.positive s₂ h2).chats c hc) h3
  rwa [List.foldl_map] at h4

theorem Kept.receiveThreads (hP : Kept M P) (h : P s) (more : Bool) (lastId : Int)
    (threads : List ThreadInfo) : P (s.receiveThreads J faults more lastId threads) := by
  unfold State.receiveThreads
  split
  · exact h
  have h0 : P { s with threadsLoading := false } := hP.quiet _ _ h
    (quiet_of_positive rfl (fun hp => ⟨hp.chats, hp.queue, hp.missing⟩) (by simp))
  have h1 : P (threads.foldl (State.receiveThread J faults)
      ({ s with threadsLoading := false }, [])).1 := by
    refine @foldl_keeps _ _ (fun p : State × List StoredConversation => P p.1) _ threads
      (fun b a _ hb => ?_) _ h0
    obtain ⟨s₁, stored⟩ := b
    exact hP.receiveThread hb a
  generalize threads.foldl (State.receiveThread J faults) _ = p at h1 ⊢
  obtain ⟨s₁, stored⟩ := p
  have h2 : P (s₁.store faults (.saveConversations stored)) :=
    hP.quiet _ _ h1 (store_quiet _ trivial trivial)
  dsimp only
  generalize s₁.store faults (.saveConversations stored) = s₂ at h2 ⊢
  split
  · exact h2
  · have h3 : P { s₂ with threadCursor := lastId, threadsComplete := !more } := hP.quiet _ _ h2
      (quiet_of_positive rfl (fun hp => ⟨hp.chats, hp.queue, hp.missing⟩) (by simp))
    split
    · exact h3
    · exact hP.finishThreads h3

theorem Kept.friendDeleted (hP : Kept M P) (h : P s) (uid : Int) :
    P (let (thread, users) := s.users.removeFriend uid
       let s := { s with users }
       if thread ≤ 0 then s else s.removeThread thread) := by
  have hremoved : P { s with users := (s.users.removeFriend uid).2 } :=
    hP.quiet _ _ h (users_quiet s fun c hc => List.mem_of_mem_filter hc)
  dsimp only
  split
  · exact hremoved
  · exact hP.removeThread _ _ hremoved

/-- The conversations of a stored account, once the cursors are loaded. -/
theorem Kept.openConversations (hP : Kept M P) (cs : List StoredConversation) (h : P s) :
    P (cs.foldl (fun s c =>
      let s := if c.otherUid = 0 ∧ c.groupJson ≠ "" then State.receiveGroup J faults s c.groupJson
        else s
      (s.ensureThread faults c.threadId c.otherUid).2) s).loadThreads := by
  refine hP.quiet _ _ (foldl_keeps (fun b c _ hb => ?_) h) (loadThreads_quiet _)
  refine hP.quiet _ _ ?_ (ensureThread_quiet ..)
  split
  · exact hP.receiveGroup hb _
  · exact hb

/-! ## Messages and queues -/

theorem acceptMessages_quiet (reply : Bool) (ms : List StoredMessage) (s : State) :
    Quiet M s (acceptMessages faults reply s ms).1 := by
  induction ms generalizing s with
  | nil => exact .refl s
  | cons m ms ih =>
    unfold acceptMessages
    split
    · exact (reloadThreads_quiet s).trans (ih _)
    · dsimp only
      refine Quiet.trans ?_ (ih _)
      split
      · exact ensureThread_quiet ..
      · exact .refl s

theorem acceptMessages_subset (reply : Bool) (ms : List StoredMessage) (s : State) :
    (acceptMessages faults reply s ms).2 ⊆ ms := by
  induction ms generalizing s with
  | nil => exact List.Subset.refl _
  | cons m ms ih =>
    unfold acceptMessages
    split
    · exact List.subset_cons_of_subset m (ih _)
    · generalize (if (s.users.chat? m.threadId).isNone ∧ ¬ reply then
        s.ensureThread faults m.threadId m.senderUid else
        ((s.users.chat? m.threadId).isSome, s)) = p
      obtain ⟨known, s⟩ := p
      dsimp only
      split
      · exact List.cons_subset_cons m (ih _)
      · exact List.subset_cons_of_subset m (ih _)

theorem receiveMessages_quiet {ms : List StoredMessage}
    (hms : ∀ m ∈ ms, 0 < m.serverId → m.confirmation ∈ M) (reply : Bool) (s : State) :
    Quiet M s (s.receiveMessages faults ms reply) := by
  unfold State.receiveMessages
  split
  · exact .refl s
  · dsimp only
    split
    · exact acceptMessages_quiet ..
    · exact (acceptMessages_quiet ..).trans (store_quiet _ le_rfl fun m hm =>
        hms m (acceptMessages_subset reply ms s hm))

theorem refreshAllHistory_quiet (force : Bool) (hp : s.Positive) :
    Quiet M s (s.refreshAllHistory force) := by
  have hone : ∀ (b : State) (c : Chat), 0 < c.threadId → Quiet M b
      ((if force then { b with historyComplete := b.historyComplete.filter (· ≠ c.threadId) }
        else b).queueHistory c.threadId false) := by
    intro b c hc
    refine Quiet.trans ?_ (queueHistory_quiet _ false fun _ => hc)
    split
    · exact quiet_of_positive rfl (fun hp => ⟨hp.chats, hp.queue, hp.missing⟩) (by simp)
    · exact .refl b
  unfold State.refreshAllHistory
  split
  · exact .refl s
  · have hchats := hp.chats
    clear hp
    generalize s.users.chats = l at hchats ⊢
    refine foldl_keeps (P := fun b => Quiet M s b) (fun b c hc hb => hb.trans (hone b c (hchats c hc))) (.refl s)

theorem threadOpened_quiet (otherUid : Int) (hp : s.Positive) :
    Quiet M s (let (known, s) := s.ensureThread faults t otherUid
      if known then s.queueHistory t false else s) := by
  have hopened := @ensureThread_quiet faults M s t otherUid
  dsimp only
  split
  next hknown => exact hopened.trans (queueHistory_quiet _ false fun _ => ensureThread_pos hp hknown)
  next => exact hopened

/-- An event with no part in a session or in a history page. -/
def IsPlain : Action → Prop
  | .login .. | .returnToLogin | .accountOpened => False
  | .loadNextHistory | .historyFailed | .receiveHistory _ | .pageSaved => False
  | _ => True

/-- The confirmed messages an event brings are messages of the server. -/
def Tells (M : Set Confirmation) : Action → Prop
  | .receiveMessages ms _ => ∀ m ∈ ms, 0 < m.serverId → m.confirmation ∈ M
  | .store op => op.Tells M
  | _ => True

theorem tells_univ (a : Action) : Tells Set.univ a := by
  cases a with
  | receiveMessages => exact fun _ _ _ => trivial
  | store op => cases op <;> simp [Tells, Operation.Tells]
  | _ => trivial

theorem Kept.plain {a : Action} (hP : Kept M P) (h : P s) (hstep : s.step J faults a = some s')
    (ha : IsPlain a) (htells : Tells M a) : P s' := by
  have hp := hP.positive s h
  cases a with
  | login | returnToLogin | accountOpened | loadNextHistory | historyFailed | receiveHistory
  | pageSaved => exact ha.elim
  | connection up =>
    cases hstep
    exact hP.quiet _ _ h
      (quiet_of_positive rfl (fun hp => ⟨hp.chats, hp.queue, hp.missing⟩) (by simp))
  | addFriend uid =>
    cases hstep
    exact hP.quiet _ _ h (users_quiet s fun c hc => hc)
  | friendDeleted uid =>
    cases hstep
    exact hP.friendDeleted h uid
  | threadOpened thread otherUid =>
    cases hstep
    exact hP.quiet _ _ h (threadOpened_quiet otherUid hp)
  | selectThread thread =>
    cases hstep
    split
    next hsome => exact hP.quiet _ _ h (queueHistory_quiet s true fun hp => chat?_pos hp hsome)
    next => exact h
  | loadThreads =>
    cases hstep
    exact hP.quiet _ _ h (loadThreads_quiet s)
  | reloadThreads =>
    cases hstep
    exact hP.quiet _ _ h (reloadThreads_quiet s)
  | threadsFailed =>
    cases hstep
    dsimp only [State.threadsFailed]
    split
    · exact h
    · exact hP.quiet _ _ h
        (quiet_of_positive rfl (fun hp => ⟨hp.chats, hp.queue, hp.missing⟩) (by simp))
  | receiveThreads more lastId threads =>
    cases hstep
    exact hP.receiveThreads h more lastId threads
  | receiveGroup group =>
    cases hstep
    exact hP.receiveGroup h group
  | receiveMessages messages reply =>
    cases hstep
    exact hP.quiet _ _ h (receiveMessages_quiet htells reply s)
  | refreshAllHistory force =>
    cases hstep
    exact hP.quiet _ _ h (refreshAllHistory_quiet force hp)
  | store op =>
    simp only [State.step] at hstep
    split at hstep
    next hlocal =>
      cases hstep
      exact hP.quiet _ _ h (store_quiet s hlocal htells)
    next => cases hstep

end State
end CppChat.Sync
