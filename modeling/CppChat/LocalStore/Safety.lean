import CppChat.LocalStore.Runs

/-! # Safety of the local store

The invariant of one account database over every run of its operations, whatever their
arguments and wherever they fail.
-/
namespace CppChat.LocalStore
open Foundation
namespace Database

variable {db db' : Database} {m : StoredMessage} {result : SaveResult}

/-! ## Cursors and the schema version -/

theorem openAccount_eq (h : db.openAccount = .ok db') :
    db.userVersion ≤ 5 ∧ db'.userVersion = 5 ∧
      (4 ≤ db.userVersion → ∀ t, db'.confirmedCursor t = db.confirmedCursor t) := by
  unfold openAccount at h
  split at h
  · cases h
  next hle =>
    cases h
    refine ⟨not_lt.mp hle, rfl, fun h4 t => ?_⟩
    rw [if_neg (not_lt.mpr h4)]
    rfl

/-- Opening the account keeps a cursor or takes it back to the start. -/
theorem openAccount_cursor (h : db.openAccount = .ok db') (t : Int) :
    db'.confirmedCursor t = db.confirmedCursor t ∨ db'.confirmedCursor t = 0 := by
  unfold openAccount at h
  split at h
  · cases h
  · cases h
    split
    · change (((Keyed.lookup db.resetVoiceCursors.syncState t).map SyncState.confirmedCursor).getD 0) =
        _ ∨ (((Keyed.lookup db.resetVoiceCursors.syncState t).map SyncState.confirmedCursor).getD 0) = 0
      rw [resetVoiceCursors, Keyed.lookup_map _ _ (fun r => by split <;> rfl), confirmedCursor]
      cases Keyed.lookup db.syncState t with
      | none => exact .inl rfl
      | some r =>
        simp only [Option.map_some, Option.getD_some]
        split
        · exact .inr rfl
        · exact .inl rfl
    · exact .inl rfl

theorem saveConversations_elsewhere (db : Database) (cs : List StoredConversation) :
    (db.saveConversations cs).syncState = db.syncState ∧
      (db.saveConversations cs).userVersion = db.userVersion := by
  unfold saveConversations
  apply foldl_relates fun a b : Database =>
    b.syncState = a.syncState ∧ b.userVersion = a.userVersion
  · exact fun _ => ⟨rfl, rfl⟩
  · exact fun _ _ _ h h' => ⟨h'.1.trans h.1, h'.2.trans h.2⟩
  · exact fun db c => (db.saveConversation_elsewhere c).2.2

theorem deleteLocalMessages_elsewhere {t : Int} {ids : List Int}
    (h : db.deleteLocalMessages t ids = .ok db') :
    db'.syncState = db.syncState ∧ db'.userVersion = db.userVersion := by
  rw [deleteLocalMessages_eq h]
  apply foldl_relates fun a b : Database =>
    b.syncState = a.syncState ∧ b.userVersion = a.userVersion
  · exact fun _ => ⟨rfl, rfl⟩
  · exact fun _ _ _ h h' => ⟨h'.1.trans h.1, h'.2.trans h.2⟩
  · exact fun _ _ => ⟨rfl, rfl⟩

theorem clearLocalHistory_elsewhere {t : Int} {confirmed : Bool}
    (h : db.clearLocalHistory t confirmed = .ok db') :
    db'.syncState = db.syncState ∧ db'.userVersion = db.userVersion := by
  unfold clearLocalHistory at h
  split at h
  · cases h
  split at h
  · cases h
  split at h
  · cases h
  cases h
  exact ⟨rfl, rfl⟩

theorem saveMessages_userVersion {ms : List StoredMessage} {t cursor d : Int}
    {reply : ChatStoreResult} (h : db.saveMessages ms t cursor d = .ok (reply, db')) :
    db'.userVersion = db.userVersion := by
  obtain ⟨-, db1, hall, rfl⟩ := saveMessages_eq h
  have h1 : SameElsewhere db db1 :=
    saveAll_relates SameElsewhere SameElsewhere.refl (fun _ _ _ => SameElsewhere.trans)
      (fun _ _ _ _ => saveMessage_elsewhere) hall
  refine Eq.trans ?_ h1.userVersion
  unfold clearDraft advanceCursor
  split <;> split <;> rfl

/-- The page order the store checks ends at or after the cursor it starts from. -/
theorem le_of_checkPageOrder {t last cursor : Int} {ms : List StoredMessage}
    (h : checkPageOrder t last ms = .ok cursor) :
    last ≤ cursor ∧ (ms ≠ [] → last < cursor) ∧
      ∀ m ∈ ms, m.threadId = t ∧ last < m.serverId ∧ m.serverId ≤ cursor := by
  induction ms generalizing last with
  | nil =>
    cases h
    exact ⟨le_rfl, fun hne => absurd rfl hne, by simp⟩
  | cons m ms ih =>
    unfold checkPageOrder at h
    split at h
    next hm =>
      obtain ⟨hle, -, hall⟩ := ih h
      refine ⟨hm.2.le.trans hle, fun _ => hm.2.trans_le hle, fun x hx => ?_⟩
      rcases List.mem_cons.mp hx with rfl | hx
      · exact ⟨hm.1, hm.2, hle⟩
      · exact ⟨(hall x hx).1, hm.2.trans (hall x hx).2.1, (hall x hx).2.2⟩
    next => cases h

/-- A saved history page continued at the stored cursor. -/
theorem saveMessages_page {ms : List StoredMessage} {t cursor d : Int} {reply : ChatStoreResult}
    (h : db.saveMessages ms t cursor d = .ok (reply, db')) (hpos : 0 < t) :
    db.confirmedCursor t ≤ cursor ∧
      ∀ m ∈ ms, m.threadId = t ∧ db.confirmedCursor t < m.serverId ∧ m.serverId ≤ cursor := by
  obtain ⟨hcheck, -⟩ := saveMessages_eq h
  unfold checkHistoryPage at hcheck
  rw [if_pos hpos] at hcheck
  obtain ⟨last, horder, hlast⟩ := bind_eq_ok.mp hcheck
  split at hlast
  next he =>
    subst he
    obtain ⟨hle, -, hall⟩ := le_of_checkPageOrder horder
    exact ⟨hle, hall⟩
  next => cases hlast

theorem confirmedCursor_congr (h : db'.syncState = db.syncState) (t : Int) :
    db'.confirmedCursor t = db.confirmedCursor t := by
  rw [confirmedCursor, h]
  rfl

end Database

open Database

/-- Only opening the account may take a cursor back, and only below schema version 4. -/
inductive Operation.MovesCursor (op : Operation) (db db' : Database) : Prop
  | opened (hop : op = .openAccount) (hle : db.userVersion ≤ 5) (hversion : db'.userVersion = 5)
      (hcursor : 4 ≤ db.userVersion → ∀ t, db'.confirmedCursor t = db.confirmedCursor t)
  | forward (hversion : db'.userVersion = db.userVersion)
      (hcursor : ∀ t, db.confirmedCursor t ≤ db'.confirmedCursor t)

theorem Operation.MovesCursor.same {db db' : Database} {op : Operation}
    (h : db'.syncState = db.syncState ∧ db'.userVersion = db.userVersion) :
    op.MovesCursor db db' :=
  .forward h.2 fun t => (confirmedCursor_congr h.1 t).ge

theorem saveMessages_run {db db' : Database} {ms : List StoredMessage} {t cursor d : Int}
    (h : (Operation.saveMessages ms t cursor d).run db = .ok db') :
    ∃ reply, db.saveMessages ms t cursor d = .ok (reply, db') := by
  simp only [Operation.run] at h
  cases hs : db.saveMessages ms t cursor d with
  | error e =>
    rw [hs] at h
    cases h
  | ok p =>
    rw [hs] at h
    cases h
    exact ⟨p.1, rfl⟩

/-- One step lemma for all operations: the invariant and the boundaries. -/
theorem Operation.run_preserves {db db' : Database} {op : Operation} (h : op.run db = .ok db') :
    Preserves db db' := by
  cases op with
  | openAccount => exact openAccount_preserves h
  | saveConversations cs =>
    cases h
    exact db.saveConversations_preserves cs
  | forgetGroupProfile t =>
    cases h
    exact preserves_of_rows rfl rfl fun r hr => ⟨r, hr, rfl, rfl, .inl rfl⟩
  | saveMessages ms t cursor d =>
    obtain ⟨reply, h⟩ := saveMessages_run h
    exact saveMessages_preserves h
  | saveDraft t draft =>
    cases h
    exact db.saveDraft_preserves t draft
  | markUnconfirmed id failed =>
    cases h
    exact db.markUnconfirmed_preserves id failed
  | saveAttachment a =>
    cases h
    exact db.recordAttachment_preserves a
  | clearLocalHistory t confirmed => exact clearLocalHistory_preserves h
  | deleteLocalMessages t ids => exact deleteLocalMessages_preserves h

theorem Operation.run_cursor {db db' : Database} {op : Operation} (h : op.run db = .ok db') :
    op.MovesCursor db db' := by
  cases op with
  | openAccount =>
    obtain ⟨hle, hversion, hcursor⟩ := openAccount_eq h
    exact .opened rfl hle hversion hcursor
  | saveConversations cs =>
    cases h
    exact .same (db.saveConversations_elsewhere cs)
  | forgetGroupProfile t =>
    cases h
    exact .same ⟨rfl, rfl⟩
  | saveMessages ms t cursor d =>
    obtain ⟨reply, h⟩ := saveMessages_run h
    refine .forward (saveMessages_userVersion h) fun t' => ?_
    rw [saveMessages_cursor h]
    split
    next hcond =>
      rw [hcond.1]
      exact le_max_left _ _
    next => exact le_rfl
  | saveDraft t draft =>
    cases h
    obtain ⟨-, -, -, hsync, hversion⟩ := db.saveDraft_tables t draft
    exact .same ⟨hsync, hversion⟩
  | markUnconfirmed id failed =>
    cases h
    exact .same ⟨rfl, rfl⟩
  | saveAttachment a =>
    cases h
    exact .same ⟨rfl, rfl⟩
  | clearLocalHistory t confirmed => exact .same (clearLocalHistory_elsewhere h)
  | deleteLocalMessages t ids => exact .same (deleteLocalMessages_elsewhere h)

namespace Call
variable {db : Database} {c : Call}

/-- A call leaves the database as it was, or leaves what its operation computed. -/
theorem run_cases (db : Database) (c : Call) :
    c.run db = db ∨ c.operation.run db = .ok (c.run db) := by
  unfold run
  split
  · exact .inl rfl
  · cases c.operation.run db with
    | error e => exact .inl rfl
    | ok db' => exact .inr rfl

theorem run_preserves (db : Database) (c : Call) : Preserves db (c.run db) := by
  rcases c.run_cases db with h | h
  · rw [h]
    exact .refl db
  · exact Operation.run_preserves h

theorem run_cursor (db : Database) (c : Call) : c.operation.MovesCursor db (c.run db) := by
  rcases c.run_cases db with h | h
  · rw [h]
    exact .same ⟨rfl, rfl⟩
  · exact Operation.run_cursor h

end Call

/-! ## Every run -/

theorem legal_invariant : store.Invariant Legal where
  init := by
    rintro db ⟨version, rfl⟩ r hr
    cases hr
  step := by
    rintro db c db' - hl rfl
    exact (c.run_preserves db).legal hl

theorem legal_of_reachable {db : Database} (h : store.Reachable db) : Legal db :=
  legal_invariant.reachable h

theorem run_grows {db db' : Database} (h : store.Run db db') : Grows db db' := by
  induction h with
  | refl => exact .refl db
  | tail _ hstep ih =>
    obtain ⟨c, rfl⟩ := hstep
    exact ih.trans (c.run_preserves _).grows

theorem cursor_nonneg {db : Database} (h : store.Reachable db) (t : Int) :
    0 ≤ db.confirmedCursor t := by
  induction h with
  | init h =>
    obtain ⟨version, rfl⟩ := h
    exact le_rfl
  | @step db db' c _ hstep ih =>
    obtain rfl : db' = c.run db := hstep
    rcases c.run_cases db with h | h
    · rwa [h]
    · cases Operation.run_cursor h with
      | opened hop =>
        rw [hop] at h
        rcases openAccount_cursor h t with he | he
        · rwa [he]
        · exact he.ge
      | forward _ hcursor => exact ih.trans (hcursor t)

/-- From schema version 4 on no run takes a cursor back. -/
theorem run_cursor_le {db db' : Database} (h : store.Run db db') (h4 : 4 ≤ db.userVersion) :
    4 ≤ db'.userVersion ∧ ∀ t, db.confirmedCursor t ≤ db'.confirmedCursor t := by
  induction h with
  | refl => exact ⟨h4, fun _ => le_rfl⟩
  | tail _ hstep ih =>
    obtain ⟨c, rfl⟩ := hstep
    obtain ⟨hv, hle⟩ := ih
    cases c.run_cursor _ with
    | opened _ _ hversion hcursor =>
      exact ⟨by rw [hversion]; decide, fun t => (hle t).trans (hcursor hv t).ge⟩
    | forward hversion hcursor => exact ⟨hversion ▸ hv, fun t => (hle t).trans (hcursor t)⟩

/-- The stored copies of an unconfirmed message are one row at most: they share its UUID. -/
theorem eq_of_isCopy {db : Database} {m : StoredMessage} {r r' : MessageRow} (hm : m.serverId ≤ 0)
    (hr : r ∈ db.messages.rows) (hr' : r' ∈ db.messages.rows) (h : IsCopy m r)
    (h' : IsCopy m r') : r = r' := by
  obtain ⟨ht, ⟨hpos, -⟩ | ⟨hs, hu, -⟩⟩ := h
  · exact absurd hpos (not_lt.mpr hm)
  obtain ⟨ht', ⟨hpos, -⟩ | ⟨hs', hu', -⟩⟩ := h'
  · exact absurd hpos (not_lt.mpr hm)
  refine eq_of_clash hr hr' (.inr (.inr ⟨ht.trans ht'.symm, hs.trans hs'.symm, ?_, hu.trans hu'.symm⟩))
  rw [hu]
  exact Option.some_ne_none _

/-- A save of a message the server has not confirmed finds a confirmed copy as it is, and
keeps every confirmed row. -/
theorem unconfirmed_save_keeps {db db' : Database} {m : StoredMessage} {result : SaveResult}
    (hm : m.serverId ≤ 0) (h : db.saveMessage m = .ok (result, db')) {r : MessageRow}
    (hr : r ∈ db.messages.rows) (hs : r.serverId ≠ none) :
    (IsCopy m r → result = .existing ∧ db' = db) ∧ r.record ∈ db'.records := by
  have hpos : ¬ 0 < m.serverId := not_lt.mpr hm
  obtain ⟨-, c, -, ⟨h0, -⟩ | ⟨h0, -⟩ | ⟨-, hmerge⟩⟩ := saveMessage_cases h
  · exact absurd h0 hpos
  · exact absurd h0 hpos
  rcases mergeMessage_cases hmerge with ⟨_, -, -, -, -, hres, rfl⟩ | ⟨w, hwrites, hwrote⟩
  · exact ⟨fun _ => ⟨hres, rfl⟩, mem_records_of_mem hr⟩
  · have hcopy : ¬ IsCopy m r := by
      intro hcopy
      cases hwrites with
      | insert hnil => exact findCopies_eq_nil.mp hnil r hr hcopy
      | update hcopies hlate =>
        obtain ⟨hrow, hrowCopy⟩ := mem_findCopies.mp (hcopies ▸ List.mem_cons_self)
        rw [eq_of_isCopy hm hrow hr hrowCopy hcopy] at hlate
        exact hlate ⟨hs, hm⟩
    refine ⟨fun h => absurd h hcopy, (hwrote.records _).mpr (.inr ⟨mem_records_of_mem hr, ?_⟩)⟩
    rwa [isCopy_record]

/-- The same for a whole `SaveMessages` of pending, failed or timed-out messages. -/
theorem unconfirmed_saves_keep {db db' : Database} {ms : List StoredMessage}
    {t cursor d : Int} {reply : ChatStoreResult} (hms : ∀ m ∈ ms, m.serverId ≤ 0)
    (h : db.saveMessages ms t cursor d = .ok (reply, db')) {r : MessageRow}
    (hr : r ∈ db.messages.rows) (hs : r.serverId ≠ none) : r.record ∈ db'.records := by
  obtain ⟨-, db1, hall, rfl⟩ := saveMessages_eq h
  rw [records, (finish_tables t cursor d).2.1]
  change r.record ∈ db1.records
  clear h
  induction ms generalizing db reply r with
  | nil =>
    cases hall
    exact mem_records_of_mem hr
  | cons m ms ih =>
    obtain ⟨⟨outcome, db2⟩, h1, hall⟩ := bind_eq_ok.mp hall
    obtain ⟨⟨reply', db3⟩, h2, hall⟩ := bind_eq_ok.mp hall
    cases hall
    have hkeep := (unconfirmed_save_keeps (hms m List.mem_cons_self) h1 hr hs).2
    obtain ⟨r', hr', he⟩ := List.mem_map.mp hkeep
    have hs' : r'.serverId ≠ none := by
      have : r'.record.serverId = r.record.serverId := by rw [he]
      exact fun h0 => hs (this.symm.trans h0)
    rw [← he]
    exact ih (fun x hx => hms x (List.mem_cons_of_mem _ hx)) hr' hs' h2

theorem markUnconfirmed_keeps {db : Database} {id : String} {failed : Bool} {r : MessageRow}
    (hr : r ∈ db.messages.rows) (hs : r.serverId ≠ none) :
    r ∈ (db.markUnconfirmed id failed).messages.rows := by
  refine List.mem_map.mpr ⟨r, hr, if_neg ?_⟩
  exact fun h => hs h.2

/-- What every reachable account database guarantees. -/
structure Safe (db : Database) : Prop where
  serverIdUnique : ∀ t s : Int,
    (db.messages.rows.filter fun r => r.threadId = t ∧ r.serverId = some s).length ≤ 1
  uuidUnique : ∀ (t u : Int) (id : String), (db.messages.rows.filter fun r =>
    r.threadId = t ∧ r.senderUid = u ∧ r.uniqueId = some id).length ≤ 1
  confirmed : ∀ r ∈ db.messages.rows, r.sendState = 1 ↔ r.serverId ≠ none
  lateSave : ∀ r ∈ db.messages.rows, r.serverId ≠ none → ∀ m : StoredMessage, m.serverId ≤ 0 →
    ∀ result db', db.saveMessage m = .ok (result, db') →
      (IsCopy m r → result = .existing ∧ db' = db) ∧ r.record ∈ db'.records
  lateSaves : ∀ r ∈ db.messages.rows, r.serverId ≠ none → ∀ ms : List StoredMessage,
    (∀ m ∈ ms, m.serverId ≤ 0) → ∀ t cursor d reply db',
      db.saveMessages ms t cursor d = .ok (reply, db') → r.record ∈ db'.records
  lateMark : ∀ r ∈ db.messages.rows, r.serverId ≠ none → ∀ id failed,
    r ∈ (db.markUnconfirmed id failed).messages.rows
  visible : ∀ r ∈ db.messages.rows, ∀ s c, r.serverId = some s →
    db.conversation? r.threadId = some c → ¬ (0 < s ∧ s ≤ c.hiddenBeforeId)
  kept : ∀ r ∈ db.messages.rows, ∀ s, r.serverId = some s → ¬ db.isDeleted r.threadId s
  boundaries : ∀ db', store.Run db db' → ∀ t c, db.conversation? t = some c →
    ∃ c', db'.conversation? t = some c' ∧ c.hiddenBeforeId ≤ c'.hiddenBeforeId ∧
      c.lastServerId ≤ c'.lastServerId
  cursor : 4 ≤ db.userVersion → ∀ db', store.Run db db' → 4 ≤ db'.userVersion ∧
    ∀ t, db.confirmedCursor t ≤ db'.confirmedCursor t
  reset : ∀ (c : Call) (t : Int), (c.run db).confirmedCursor t < db.confirmedCursor t →
    c.operation = .openAccount ∧ db.userVersion < 4 ∧ (c.run db).userVersion = 5

/-- Every run of the store's operations, with any arguments and any failures, is safe. -/
theorem store_safe {db : Database} (h : store.Reachable db) : Safe db where
  serverIdUnique t s := db.messages.length_filter_le_one fun a b ha hb => by
    simp only [decide_eq_true_eq] at ha hb
    refine .inr (.inl ⟨ha.1.trans hb.1.symm, ?_, ha.2.trans hb.2.symm⟩)
    rw [ha.2]
    exact Option.some_ne_none s
  uuidUnique t u id := db.messages.length_filter_le_one fun a b ha hb => by
    simp only [decide_eq_true_eq] at ha hb
    refine .inr (.inr ⟨ha.1.trans hb.1.symm, ha.2.1.trans hb.2.1.symm, ?_, ha.2.2.trans hb.2.2.symm⟩)
    rw [ha.2.2]
    exact Option.some_ne_none id
  confirmed r hr := (legal_of_reachable h r hr).state
  lateSave r hr hs m hm result db' hsave := unconfirmed_save_keeps hm hsave hr hs
  lateSaves r hr hs ms hms t cursor d reply db' hsave := unconfirmed_saves_keep hms hsave hr hs
  lateMark r hr hs id failed := markUnconfirmed_keeps hr hs
  visible r hr s c hs hc := by
    have hlt := (legal_of_reachable h r hr).visible s c hs hc
    omega
  kept r hr := (legal_of_reachable h r hr).kept
  boundaries db' hrun := run_grows hrun
  cursor h4 db' hrun := run_cursor_le hrun h4
  reset c t hlt := by
    cases c.run_cursor db with
    | opened hop hle hversion hcursor =>
      refine ⟨hop, ?_, hversion⟩
      by_contra h4
      rw [hcursor (not_lt.mp h4) t] at hlt
      exact lt_irrefl _ hlt
    | forward hversion hcursor => exact absurd hlt (not_lt.mpr (hcursor t))

/-! ## A sample run -/

/-- A conversation with one confirmed message, on a fresh database. -/
def sampleMessage (serverId : Int) : StoredMessage :=
  ⟨1, 7, serverId, "uuid", some "text", some "2026-01-01", 0, unRead, []⟩

def sampleCalls : List Call :=
  [⟨.openAccount, false⟩, ⟨.saveConversations [⟨1, 8, 0, none, none, ""⟩], false⟩,
    ⟨.saveMessages [sampleMessage 5] 1 5 0, false⟩]

def runCalls (db : Database) (calls : List Call) : Database := calls.foldl (fun db c => c.run db) db

theorem runCalls_reachable {db : Database} (h : store.Reachable db) (calls : List Call) :
    store.Reachable (runCalls db calls) := by
  induction calls generalizing db with
  | nil => exact h
  | cons c calls ih => exact ih (h.step (a := c) rfl)

theorem store_safe_sample :
    (runCalls (create 0) sampleCalls).messages.rows.map MessageRow.serverId = [some 5] ∧
      Safe (runCalls (create 0) sampleCalls) :=
  ⟨by decide, store_safe (runCalls_reachable (.init ⟨0, rfl⟩) sampleCalls)⟩

end CppChat.LocalStore
