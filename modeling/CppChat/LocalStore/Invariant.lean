import CppChat.LocalStore.Operations

/-! # The local store invariant

Uniqueness of the keys is part of the tables' types. Here every operation is shown to
keep the rest: a row is confirmed exactly when it has a server id, no confirmed row lies
below the hidden boundary of its conversation or was deleted locally, boundaries and
newest ids never go back, and neither does a synchronisation cursor outside the one
reset of an old schema.
-/
namespace CppChat.LocalStore
open Foundation
namespace Database

variable {db db' : Database} {m : StoredMessage} {result : SaveResult} {r : MessageRow}

structure RowLegal (db : Database) (r : MessageRow) : Prop where
  state : r.sendState = 1 ↔ r.serverId ≠ none
  positive : ∀ s, r.serverId = some s → 0 < s
  visible : ∀ s c, r.serverId = some s → db.conversation? r.threadId = some c →
    c.hiddenBeforeId < s
  kept : ∀ s, r.serverId = some s → ¬ db.isDeleted r.threadId s

def Legal (db : Database) : Prop := ∀ r ∈ db.messages.rows, RowLegal db r

theorem rowLegal_record : RowLegal db r.record ↔ RowLegal db r :=
  ⟨fun h => ⟨h.1, h.2, h.3, h.4⟩, fun h => ⟨h.1, h.2, h.3, h.4⟩⟩

theorem legal_iff_records : Legal db ↔ ∀ x ∈ db.records, RowLegal db x := by
  simp only [Legal, records, List.forall_mem_map, rowLegal_record]

/-- Boundaries and newest ids of the stored conversations only move forward. -/
def Grows (db db' : Database) : Prop :=
  ∀ t c, db.conversation? t = some c → ∃ c', db'.conversation? t = some c' ∧
    c.hiddenBeforeId ≤ c'.hiddenBeforeId ∧ c.lastServerId ≤ c'.lastServerId

theorem Grows.refl (db : Database) : Grows db db := fun _ c hc => ⟨c, hc, le_rfl, le_rfl⟩

theorem Grows.trans {db'' : Database} (h : Grows db db') (h' : Grows db' db'') :
    Grows db db'' := by
  intro t c hc
  obtain ⟨c', hc', hh, hl⟩ := h t c hc
  obtain ⟨c'', hc'', hh', hl'⟩ := h' t c' hc'
  exact ⟨c'', hc'', hh.trans hh', hl.trans hl'⟩

theorem Grows.of_eq (h : db'.conversations = db.conversations) : Grows db db' := by
  intro t c hc
  refine ⟨c, ?_, le_rfl, le_rfl⟩
  rw [conversation?, h]
  exact hc

/-- What an operation keeps of the invariant and of the boundaries. -/
structure Preserves (db db' : Database) : Prop where
  legal : Legal db → Legal db'
  grows : Grows db db'

theorem Preserves.refl (db : Database) : Preserves db db := ⟨id, .refl db⟩

theorem Preserves.trans {db'' : Database} (h : Preserves db db') (h' : Preserves db' db'') :
    Preserves db db'' :=
  ⟨fun hl => h'.legal (h.legal hl), h.grows.trans h'.grows⟩

/-- A legal row stays legal while its boundary and its tombstones do not reach it. -/
theorem RowLegal.move (h : RowLegal db r)
    (hh : ∀ c', db'.conversation? r.threadId = some c' → c'.hiddenBeforeId ≤ 0 ∨
      ∃ c, db.conversation? r.threadId = some c ∧ c'.hiddenBeforeId ≤ c.hiddenBeforeId)
    (hd : ∀ s, r.serverId = some s → db'.isDeleted r.threadId s → db.isDeleted r.threadId s) :
    RowLegal db' r where
  state := h.state
  positive := h.positive
  visible s c' hs hc' := by
    rcases hh c' hc' with h0 | ⟨c, hc, hle⟩
    · exact h0.trans_lt (h.positive s hs)
    · exact hle.trans_lt (h.visible s c hs hc)
  kept s hs hdel := h.kept s hs (hd s hs hdel)

/-- Rows dropped or rewritten outside their identity, boundaries untouched; only a row that
is still pending may change its state. -/
theorem preserves_of_rows (hconv : db'.conversations = db.conversations)
    (hdel : db'.deletedMessages = db.deletedMessages)
    (hrows : ∀ r' ∈ db'.messages.rows, ∃ r ∈ db.messages.rows, r'.threadId = r.threadId ∧
      r'.serverId = r.serverId ∧
      (r'.sendState = r.sendState ∨ (r.serverId = none ∧ r'.sendState ≠ 1))) :
    Preserves db db' := by
  refine ⟨fun hl r' hr' => ?_, Grows.of_eq hconv⟩
  obtain ⟨r, hr, ht, hs, hst⟩ := hrows r' hr'
  have h := hl r hr
  refine ⟨?_, ?_, ?_, ?_⟩
  · rw [hs]
    rcases hst with hst | ⟨hnone, hne⟩
    · rw [hst]
      exact h.state
    · simp [hnone, hne]
  · rw [hs]
    exact h.positive
  · intro s c hserver hc
    rw [hs] at hserver
    rw [conversation?, hconv, ht] at hc
    exact h.visible s c hserver hc
  · intro s hserver
    rw [hs] at hserver
    rw [isDeleted, hdel, ht]
    exact h.kept s hserver

/-! ## Saving messages -/

theorem state_eq_one : m.state = 1 ↔ 0 < m.serverId := by
  unfold StoredMessage.state
  split
  next h => simp [h]
  next h =>
    split <;> simp [h]

theorem serverColumn_eq_some {s : Int} : m.serverColumn = some s ↔ 0 < m.serverId ∧ s = m.serverId := by
  unfold StoredMessage.serverColumn
  split
  next h => simp [h, eq_comm]
  next h => simp [h]

theorem serverColumn_of_pos (h : 0 < m.serverId) : m.serverColumn = some m.serverId := if_pos h

theorem serverColumn_of_not_pos (h : ¬ 0 < m.serverId) : m.serverColumn = none := if_neg h

/-- Identity, server column and state of the row a save writes. -/
theorem Writes.shape {w : MessageRow} (h : Writes db m w result) :
    w.threadId = m.threadId ∧ w.serverId = m.serverColumn ∧ (w.sendState = 1 ↔ 0 < m.serverId) := by
  cases h with
  | insert h => exact ⟨rfl, rfl, state_eq_one⟩
  | @update row duplicates hcopies hlate =>
    have hcopy := (mem_findCopies.mp (hcopies ▸ List.mem_cons_self)).2
    refine ⟨hcopy.1, ?_, ?_⟩
    · by_cases hpos : 0 < m.serverId
      · simp [MessageRow.merge, serverColumn_of_pos hpos]
      · have hnone : row.serverId = none := by
          by_contra hne
          exact hlate ⟨hne, not_lt.mp hpos⟩
        simp [MessageRow.merge, serverColumn_of_not_pos hpos, hnone]
    · by_cases hpos : 0 < m.serverId
      · simp [MessageRow.merge, state_eq_one.mpr hpos, hpos]
      · have hnone : row.serverId = none := by
          by_contra hne
          exact hlate ⟨hne, not_lt.mp hpos⟩
        have hstate : m.state ≠ 1 := fun h1 => hpos (state_eq_one.mp h1)
        simp [MessageRow.merge, hnone, hstate, hpos]

theorem Wrote.hidden {w : MessageRow} (h : Wrote db m w db') {t : Int} {c' : Conversation}
    (hc' : db'.conversation? t = some c') :
    ∃ c, db.conversation? t = some c ∧ c'.hiddenBeforeId = c.hiddenBeforeId := by
  rcases h.conversation t with ⟨heq, -⟩ | ⟨-, -, c, _, _, hc, -, -, -, hnew⟩
  · exact ⟨c', heq ▸ hc', rfl⟩
  · rw [hnew] at hc'
    cases hc'
    exact ⟨c, hc, rfl⟩

theorem Wrote.grows {w : MessageRow} (h : Wrote db m w db') : Grows db db' := by
  intro t c hc
  rcases h.conversation t with ⟨heq, -⟩ | ⟨-, -, c0, _, _, hc0, hle, -, -, hnew⟩
  · exact ⟨c, heq.trans hc, le_rfl, le_rfl⟩
  · rw [hc] at hc0
    cases hc0
    exact ⟨_, hnew, le_rfl, hle⟩

theorem saveMessage_preserves (h : db.saveMessage m = .ok (result, db')) : Preserves db db' := by
  obtain ⟨-, c, hc, hcases⟩ := saveMessage_cases h
  rcases hcases with ⟨-, -, -, rfl⟩ | ⟨-, -, -, -, rfl⟩ | ⟨hvisible, hmerge⟩
  · refine preserves_of_rows rfl rfl fun r hr => ?_
    exact ⟨r, (Table.mem_delete.mp hr).1, rfl, rfl, .inl rfl⟩
  · exact .refl _
  · rcases mergeMessage_cases hmerge with ⟨_, -, -, -, -, -, rfl⟩ | ⟨w, hwrites, hwrote⟩
    · exact .refl _
    · refine ⟨fun hl => ?_, hwrote.grows⟩
      rw [legal_iff_records] at hl ⊢
      have hhidden : ∀ x : MessageRow, ∀ c', db'.conversation? x.threadId = some c' →
          c'.hiddenBeforeId ≤ 0 ∨
            ∃ c, db.conversation? x.threadId = some c ∧ c'.hiddenBeforeId ≤ c.hiddenBeforeId := by
        intro x c' hc'
        obtain ⟨c, hc, he⟩ := hwrote.hidden hc'
        exact .inr ⟨c, hc, he.le⟩
      intro x hx
      rcases (hwrote.records x).mp hx with rfl | ⟨hold, -⟩
      · obtain ⟨ht, hs, hst⟩ := hwrites.shape
        rw [rowLegal_record]
        refine ⟨?_, ?_, ?_, ?_⟩
        · rw [hst, hs]
          by_cases hpos : 0 < m.serverId
          · simp [hpos, serverColumn_of_pos hpos]
          · simp [hpos, serverColumn_of_not_pos hpos]
        · intro s hserver
          rw [hs, serverColumn_eq_some] at hserver
          exact hserver.2 ▸ hserver.1
        · intro s c' hserver hc'
          rw [hs, serverColumn_eq_some] at hserver
          rw [ht] at hc'
          obtain ⟨c0, hc0, he⟩ := hwrote.hidden hc'
          rw [hc] at hc0
          cases hc0
          rw [he, hserver.2]
          exact (hvisible hserver.1).1
        · intro s hserver
          rw [hs, serverColumn_eq_some] at hserver
          rw [ht, hwrote.elsewhere.isDeleted, hserver.2]
          exact (hvisible hserver.1).2
      · refine (hl x hold).move (hhidden x) fun s _ hd => ?_
        rwa [hwrote.elsewhere.isDeleted] at hd

theorem saveMessage_elsewhere (h : db.saveMessage m = .ok (result, db')) :
    SameElsewhere db db' := by
  obtain ⟨-, c, -, hcases⟩ := saveMessage_cases h
  rcases hcases with ⟨-, -, -, rfl⟩ | ⟨-, -, -, -, rfl⟩ | ⟨-, hmerge⟩
  · exact ⟨rfl, rfl, rfl, rfl, rfl, rfl⟩
  · exact .refl _
  · rcases mergeMessage_cases hmerge with ⟨_, -, -, -, -, -, rfl⟩ | ⟨w, -, hwrote⟩
    · exact .refl _
    · exact hwrote.elsewhere

/-- A relation kept by every single save holds across a whole list of them. -/
theorem saveAll_relates (R : Database → Database → Prop) (hrefl : ∀ db, R db db)
    (htrans : ∀ a b c, R a b → R b c → R a c)
    (hstep : ∀ db m result db', db.saveMessage m = .ok (result, db') → R db db')
    {ms : List StoredMessage} {db db' : Database} {reply : ChatStoreResult}
    (h : db.saveAll ms = .ok (reply, db')) : R db db' := by
  induction ms generalizing db reply with
  | nil =>
    cases h
    exact hrefl _
  | cons m ms ih =>
    obtain ⟨⟨outcome, db1⟩, h1, h⟩ := bind_eq_ok.mp h
    obtain ⟨⟨reply', db2⟩, h2, h⟩ := bind_eq_ok.mp h
    cases h
    exact htrans _ _ _ (hstep _ _ _ _ h1) (ih h2)

theorem saveMessages_eq {ms : List StoredMessage} {t cursor d : Int} {reply : ChatStoreResult}
    (h : db.saveMessages ms t cursor d = .ok (reply, db')) :
    db.checkHistoryPage ms t cursor = .ok () ∧ ∃ db1, db.saveAll ms = .ok (reply, db1) ∧
      db' = (db1.advanceCursor t cursor).clearDraft d := by
  obtain ⟨_, hcheck, h⟩ := bind_eq_ok.mp h
  obtain ⟨⟨reply', db1⟩, hall, h⟩ := bind_eq_ok.mp h
  cases h
  exact ⟨hcheck, db1, hall, rfl⟩

theorem finish_tables (t cursor d : Int) :
    ((db.advanceCursor t cursor).clearDraft d).conversations = db.conversations ∧
      ((db.advanceCursor t cursor).clearDraft d).messages = db.messages ∧
      ((db.advanceCursor t cursor).clearDraft d).deletedMessages = db.deletedMessages := by
  unfold clearDraft advanceCursor
  split <;> split <;> simp

theorem finish_cursor (t cursor d t' : Int) :
    ((db.advanceCursor t cursor).clearDraft d).confirmedCursor t' =
      if t' = t ∧ 0 < t ∧ 0 ≤ cursor then max (db.confirmedCursor t) cursor
      else db.confirmedCursor t' := by
  have hclear : ∀ db : Database, (db.clearDraft d).confirmedCursor t' = db.confirmedCursor t' := by
    intro db
    unfold clearDraft
    split <;> rfl
  rw [hclear]
  unfold advanceCursor
  by_cases hg : 0 < t ∧ 0 ≤ cursor
  · rw [if_pos hg]
    simp only [confirmedCursor, Keyed.lookup_upsert]
    by_cases ht : t' = t
    · subst ht
      simp only [hg, and_self, if_true]
      cases Keyed.lookup db.syncState t' with
      | none => simp [hg.2]
      | some s => simp
    · simp [ht]
  · rw [if_neg hg, if_neg fun h => hg h.2]

theorem saveMessages_preserves {ms : List StoredMessage} {t cursor d : Int}
    {reply : ChatStoreResult} (h : db.saveMessages ms t cursor d = .ok (reply, db')) :
    Preserves db db' := by
  obtain ⟨-, db1, hall, rfl⟩ := saveMessages_eq h
  have h1 : Preserves db db1 :=
    saveAll_relates Preserves Preserves.refl (fun _ _ _ => Preserves.trans)
      (fun _ _ _ _ => saveMessage_preserves) hall
  obtain ⟨hconv, hmsgs, hdel⟩ := db1.finish_tables t cursor d
  refine h1.trans (preserves_of_rows hconv hdel fun r hr => ⟨r, ?_, rfl, rfl, .inl rfl⟩)
  rwa [hmsgs] at hr

theorem saveMessages_cursor {ms : List StoredMessage} {t cursor d : Int}
    {reply : ChatStoreResult} (h : db.saveMessages ms t cursor d = .ok (reply, db')) (t' : Int) :
    db'.confirmedCursor t' =
      if t' = t ∧ 0 < t ∧ 0 ≤ cursor then max (db.confirmedCursor t) cursor
      else db.confirmedCursor t' := by
  obtain ⟨-, db1, hall, rfl⟩ := saveMessages_eq h
  have h1 : SameElsewhere db db1 :=
    saveAll_relates SameElsewhere SameElsewhere.refl (fun _ _ _ => SameElsewhere.trans)
      (fun _ _ _ _ => saveMessage_elsewhere) hall
  rw [finish_cursor, h1.confirmedCursor, h1.confirmedCursor]

end Database
end CppChat.LocalStore
