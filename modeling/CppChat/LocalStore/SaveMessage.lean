import Mathlib.Data.List.Sort
import CppChat.Foundation.Transaction
import CppChat.LocalStore.Schema

/-! # Merging one message into the local store

`saveMessage` is the only writer of message content. It merges by UUID first and by
server id second, suppresses what lies below the hidden boundary or was deleted
locally, and keeps the conversation's newest summary.
-/
namespace CppChat.LocalStore
open Foundation

inductive SaveResult
  | existing
  | new
  | suppressed
  deriving DecidableEq

namespace StoredMessage

def HasIdentity (m : StoredMessage) : Prop :=
  0 < m.threadId ∧ 0 < m.senderUid ∧ (0 < m.serverId ∨ m.uniqueId ≠ "")

instance (m : StoredMessage) : Decidable m.HasIdentity :=
  inferInstanceAs (Decidable (_ ∧ _ ∧ _))

/-- `send_state` of the message as it was passed in. -/
def state (m : StoredMessage) : Int :=
  if 0 < m.serverId then 1 else if m.status = sendFailed then 2 else 0

def serverColumn (m : StoredMessage) : Option Int := if 0 < m.serverId then some m.serverId else none
def uuidColumn (m : StoredMessage) : Option String := if m.uniqueId = "" then none else some m.uniqueId
def imageColumn (m : StoredMessage) : Option Bytes :=
  if m.localImage = [] then none else some m.localImage

/-- The text the conversation list shows for the message. -/
def summary (m : StoredMessage) : Option String :=
  if m.type = 1 then some "[图片]"
  else if m.type = 2 then some "[文件]"
  else if m.type = 3 then some "[语音]"
  else m.content

/-- The row a message that is not stored yet is inserted as. -/
def toRow (m : StoredMessage) (localId : ℕ) : MessageRow where
  localId := localId
  threadId := m.threadId
  senderUid := m.senderUid
  serverId := m.serverColumn
  uniqueId := m.uuidColumn
  content := m.content.getD ""
  messageType := m.type
  chatTime := m.time.getD ""
  serverStatus := m.status
  sendState := m.state
  localImage := m.imageColumn

end StoredMessage

/-- The `UPDATE` of a stored copy; `sender_uid` and `thread_id` are never rewritten. -/
def MessageRow.merge (r : MessageRow) (m : StoredMessage) : MessageRow where
  localId := r.localId
  threadId := r.threadId
  senderUid := r.senderUid
  serverId := m.serverColumn.or r.serverId
  uniqueId := m.uuidColumn.or r.uniqueId
  content := m.content.getD ""
  messageType := m.type
  chatTime := m.time.getD ""
  serverStatus := m.status
  sendState := if r.serverId ≠ none ∨ m.state = 1 then 1 else m.state
  localImage := m.imageColumn.or r.localImage

namespace Database

/-- The `WHERE` clause that finds the stored copies of a message. -/
def IsCopy (m : StoredMessage) (r : MessageRow) : Prop :=
  r.threadId = m.threadId ∧
    ((0 < m.serverId ∧ r.serverId = some m.serverId) ∨
      (r.senderUid = m.senderUid ∧ r.uniqueId = some m.uniqueId ∧ m.uniqueId ≠ ""))

instance (m : StoredMessage) : DecidablePred (IsCopy m) := fun _ =>
  inferInstanceAs (Decidable (_ ∧ (_ ∨ _)))

/-- `ORDER BY server_id IS NOT NULL, local_id`. -/
def CopyOrder (a b : MessageRow) : Prop :=
  if a.serverId.isSome = b.serverId.isSome then a.localId ≤ b.localId else b.serverId.isSome

instance : DecidableRel CopyOrder := fun a b =>
  inferInstanceAs (Decidable (if a.serverId.isSome = b.serverId.isSome then a.localId ≤ b.localId
    else b.serverId.isSome))

def findCopies (db : Database) (m : StoredMessage) : List MessageRow :=
  (db.messages.rows.filter fun r => IsCopy m r).insertionSort CopyOrder

/-- A pending copy of the message: same sender and UUID, no server id. -/
def IsPendingCopy (m : StoredMessage) (r : MessageRow) : Prop :=
  r.threadId = m.threadId ∧ r.senderUid = m.senderUid ∧ r.uniqueId = some m.uniqueId ∧
    r.serverId = none

instance (m : StoredMessage) : DecidablePred (IsPendingCopy m) := fun _ =>
  inferInstanceAs (Decidable (_ ∧ _ ∧ _ ∧ _))

def removePending (db : Database) (m : StoredMessage) : Database :=
  { db with messages := db.messages.delete fun r => IsPendingCopy m r }

def insertMessage (db : Database) (m : StoredMessage) : Except StoreError Database :=
  match db.messages.insert (m.toRow db.nextLocalId) with
  | some messages => .ok { db with messages }
  | none => .error .uniqueViolation

def removeRows (db : Database) (rows : List MessageRow) : Database :=
  { db with messages := db.messages.delete fun r => r.localId ∈ rows.map MessageRow.localId }

def updateMessage (db : Database) (localId : ℕ) (m : StoredMessage) : Except StoreError Database :=
  match db.messages.update fun r => if r.localId = localId then r.merge m else r with
  | some messages => .ok { db with messages }
  | none => .error .uniqueViolation

/-- Drops the duplicate image of a row once its attachment is cached. -/
def releaseRow (db : Database) (m : StoredMessage) (r : MessageRow) : MessageRow :=
  if r.threadId = m.threadId ∧ r.serverId = some m.serverId ∧ db.hasAttachment r.content then
    { r with localImage := none }
  else r

theorem releaseRow_sameKeys (db : Database) (m : StoredMessage) (r : MessageRow) :
    (db.releaseRow m r).SameKeys r := by
  unfold releaseRow
  split <;> exact ⟨rfl, rfl, rfl, rfl, rfl⟩

def releaseImage (db : Database) (m : StoredMessage) : Database :=
  if m.type = 1 ∨ m.type = 2 ∨ m.type = 3 then
    db.mapMessages (db.releaseRow m) (db.releaseRow_sameKeys m)
  else db

/-- Moves the conversation's summary forward; its columns are `NOT NULL`. -/
def updateSummary (db : Database) (m : StoredMessage) : Except StoreError Database :=
  match db.conversation? m.threadId with
  | none => .ok db
  | some c =>
    if c.lastServerId ≤ m.serverId then
      match m.time, m.summary with
      | some time, some summary =>
        .ok { db with
          conversations := Keyed.modify db.conversations m.threadId
            (fun c => { c with lastServerId := m.serverId, lastTime := time, summary := summary })
            fun _ => rfl }
      | _, _ => .error .notNullViolation
    else .ok db

/-- What follows the write of a message the server has confirmed. -/
def settle (db : Database) (m : StoredMessage) : Except StoreError Database :=
  if 0 < m.serverId then (db.releaseImage m).updateSummary m else .ok db

/-- Inserts the message, or folds it and its duplicates into one stored copy. -/
def mergeMessage (db : Database) (m : StoredMessage) : Except StoreError (SaveResult × Database) :=
  match db.findCopies m with
  | [] => do
    let db ← db.insertMessage m
    let db ← db.settle m
    .ok (.new, db)
  | row :: duplicates =>
    if row.serverId ≠ none ∧ m.serverId ≤ 0 then
      .ok (.existing, db) -- a late upload or timeout never turns a confirmed message back
    else do
      let db ← (db.removeRows duplicates).updateMessage row.localId m
      let db ← db.settle m
      .ok (if row.serverId ≠ none then .existing else .new, db)

def saveMessage (db : Database) (m : StoredMessage) : Except StoreError (SaveResult × Database) :=
  if ¬ m.HasIdentity then .error (.checked "Invalid message identity")
  else match db.conversation? m.threadId with
    | none => .error (.checked "Message conversation is missing")
    | some conversation =>
      if 0 < m.serverId ∧ m.serverId ≤ conversation.hiddenBeforeId then
        .ok (.suppressed, db.removePending m)
      else if 0 < m.serverId ∧ db.isDeleted m.threadId m.serverId then .ok (.suppressed, db)
      else db.mergeMessage m

end Database

/-! ## What one save can do -/

/-- A row without its image: what the protocol knows about a message. -/
def MessageRow.record (r : MessageRow) : MessageRow := { r with localImage := none }

namespace Database
variable {db db' : Database} {m : StoredMessage} {result : SaveResult}

def records (db : Database) : List MessageRow := db.messages.rows.map MessageRow.record

theorem mem_records_of_mem {r : MessageRow} (h : r ∈ db.messages.rows) : r.record ∈ db.records :=
  List.mem_map_of_mem h

theorem isCopy_record {r : MessageRow} : IsCopy m r.record ↔ IsCopy m r := Iff.rfl

theorem mem_findCopies {r : MessageRow} :
    r ∈ db.findCopies m ↔ r ∈ db.messages.rows ∧ IsCopy m r := by
  simp [findCopies, List.mem_insertionSort]

theorem findCopies_eq_nil : db.findCopies m = [] ↔ ∀ r ∈ db.messages.rows, ¬ IsCopy m r := by
  rw [List.eq_nil_iff_forall_not_mem]
  simp only [mem_findCopies, not_and]

theorem copyOrder_refl (a : MessageRow) : CopyOrder a a := by simp [CopyOrder]

instance : Std.Total CopyOrder := ⟨by
  intro a b
  unfold CopyOrder
  by_cases h : a.serverId.isSome = b.serverId.isSome
  · simp only [h, if_true]
    exact Nat.le_total _ _
  · rw [if_neg h, if_neg (Ne.symm h)]
    revert h
    cases a.serverId.isSome <;> cases b.serverId.isSome <;> decide⟩

instance : IsTrans MessageRow CopyOrder := ⟨by
  intro a b c hab hbc
  unfold CopyOrder at *
  cases ha : a.serverId.isSome <;> cases hb : b.serverId.isSome <;>
    cases hc : c.serverId.isSome <;> simp_all <;> omega⟩

/-- The copy that survives a merge comes first in the order of the query. -/
theorem copyOrder_of_findCopies {row : MessageRow} {duplicates : List MessageRow}
    (h : db.findCopies m = row :: duplicates) {r : MessageRow} (hr : r ∈ db.messages.rows)
    (hc : IsCopy m r) : CopyOrder row r := by
  have hsorted : (db.findCopies m).Pairwise CopyOrder := List.pairwise_insertionSort _ _
  rw [h, List.pairwise_cons] at hsorted
  have hmem : r ∈ row :: duplicates := h ▸ mem_findCopies.mpr ⟨hr, hc⟩
  rcases List.mem_cons.mp hmem with rfl | hd
  · exact copyOrder_refl r
  · exact hsorted.1 r hd

theorem updateSummary_eq (h : db.updateSummary m = .ok db') :
    db'.messages = db.messages ∧ db'.syncState = db.syncState ∧
      db'.deletedMessages = db.deletedMessages ∧ db'.attachments = db.attachments ∧
      db'.groupProfiles = db.groupProfiles ∧ db'.drafts = db.drafts ∧
      db'.userVersion = db.userVersion := by
  unfold updateSummary at h
  split at h
  · cases h; simp
  · split at h
    · split at h
      · cases h; simp
      · cases h
    · cases h; simp

/-- The conversation after its summary was moved forward. -/
theorem updateSummary_conversation (h : db.updateSummary m = .ok db') (t : Int) :
    (db'.conversation? t = db.conversation? t ∧
        (t = m.threadId → ∀ c, db.conversation? t = some c → m.serverId < c.lastServerId)) ∨
      (t = m.threadId ∧ ∃ c time summary, db.conversation? t = some c ∧
        c.lastServerId ≤ m.serverId ∧ m.time = some time ∧ m.summary = some summary ∧
        db'.conversation? t =
          some { c with lastServerId := m.serverId, lastTime := time, summary := summary }) := by
  unfold updateSummary at h
  split at h
  next hnone =>
    cases h
    refine .inl ⟨rfl, fun ht c hc => ?_⟩
    rw [ht, hnone] at hc
    cases hc
  next c hc =>
    split at h
    next hle =>
      split at h
      next time summary htime hsummary =>
        cases h
        by_cases ht : t = m.threadId
        · subst ht
          refine .inr ⟨rfl, c, time, summary, hc, hle, htime, hsummary, ?_⟩
          have hc' : Keyed.lookup db.conversations m.threadId = some c := hc
          simp [conversation?, Keyed.lookup_modify, hc']
        · refine .inl ⟨?_, fun h => absurd h ht⟩
          simp [conversation?, Keyed.lookup_modify, ht]
      next => cases h
    next hlt =>
      cases h
      refine .inl ⟨rfl, fun ht c' hc' => ?_⟩
      rw [ht, hc] at hc'
      cases hc'
      exact not_le.mp hlt

theorem releaseImage_records : (db.releaseImage m).records = db.records := by
  unfold releaseImage
  split
  · simp only [records, mapMessages, Table.map_rows, List.map_map]
    apply List.map_congr_left
    intro r _
    simp only [Function.comp_apply, releaseRow]
    split <;> rfl
  · rfl

theorem settle_records (h : db.settle m = .ok db') : db'.records = db.records := by
  unfold settle at h
  split at h
  · rw [records, (updateSummary_eq h).1]
    exact releaseImage_records
  · cases h; rfl

theorem releaseImage_conversation (t : Int) :
    (db.releaseImage m).conversation? t = db.conversation? t := by
  unfold releaseImage
  split <;> rfl

/-- Tables that saving a message never writes. -/
structure SameElsewhere (db db' : Database) : Prop where
  syncState : db'.syncState = db.syncState
  deletedMessages : db'.deletedMessages = db.deletedMessages
  attachments : db'.attachments = db.attachments
  groupProfiles : db'.groupProfiles = db.groupProfiles
  drafts : db'.drafts = db.drafts
  userVersion : db'.userVersion = db.userVersion

theorem SameElsewhere.refl (db : Database) : SameElsewhere db db := ⟨rfl, rfl, rfl, rfl, rfl, rfl⟩

theorem SameElsewhere.trans {db'' : Database} (h : SameElsewhere db db')
    (h' : SameElsewhere db' db'') : SameElsewhere db db'' :=
  ⟨h'.1.trans h.1, h'.2.trans h.2, h'.3.trans h.3, h'.4.trans h.4, h'.5.trans h.5, h'.6.trans h.6⟩

theorem SameElsewhere.confirmedCursor (h : SameElsewhere db db') (t : Int) :
    db'.confirmedCursor t = db.confirmedCursor t := by
  rw [Database.confirmedCursor, h.syncState]
  rfl

theorem SameElsewhere.isDeleted (h : SameElsewhere db db') (t s : Int) :
    db'.isDeleted t s ↔ db.isDeleted t s := by
  rw [Database.isDeleted, h.deletedMessages]
  rfl

theorem settle_elsewhere (h : db.settle m = .ok db') : SameElsewhere db db' := by
  unfold settle at h
  split at h
  · obtain ⟨-, h1, h2, h3, h4, h5, h6⟩ := updateSummary_eq h
    have hr : SameElsewhere db (db.releaseImage m) := by
      unfold releaseImage
      split <;> exact ⟨rfl, rfl, rfl, rfl, rfl, rfl⟩
    exact hr.trans ⟨h1, h2, h3, h4, h5, h6⟩
  · cases h; exact .refl db

/-- The row a save writes: a new one, or the first stored copy rewritten. -/
inductive Writes (db : Database) (m : StoredMessage) : MessageRow → SaveResult → Prop
  | insert (h : db.findCopies m = []) : Writes db m (m.toRow db.nextLocalId) .new
  | update {row : MessageRow} {duplicates : List MessageRow}
      (h : db.findCopies m = row :: duplicates) (hlate : ¬ (row.serverId ≠ none ∧ m.serverId ≤ 0)) :
      Writes db m (row.merge m) (if row.serverId ≠ none then .existing else .new)

/-- The rows after a write: the written one, and every row that was no copy of it. -/
structure Wrote (db : Database) (m : StoredMessage) (w : MessageRow) (db' : Database) : Prop where
  records : ∀ x, x ∈ db'.records ↔ x = w.record ∨ (x ∈ db.records ∧ ¬ IsCopy m x)
  elsewhere : SameElsewhere db db'
  conversation : ∀ t, (db'.conversation? t = db.conversation? t ∧ (0 < m.serverId →
      t = m.threadId → ∀ c, db.conversation? t = some c → m.serverId < c.lastServerId)) ∨
    (0 < m.serverId ∧ t = m.threadId ∧ ∃ c time summary, db.conversation? t = some c ∧
      c.lastServerId ≤ m.serverId ∧ m.time = some time ∧ m.summary = some summary ∧
      db'.conversation? t =
        some { c with lastServerId := m.serverId, lastTime := time, summary := summary })

theorem settle_wrote {db1 : Database} {w : MessageRow} (h : db1.settle m = .ok db')
    (hrec : ∀ x, x ∈ db1.records ↔ x = w.record ∨ (x ∈ db.records ∧ ¬ IsCopy m x))
    (helse : SameElsewhere db db1) (hconv : db1.conversations = db.conversations) : Wrote db m w db' where
  records x := by
    rw [settle_records h]
    exact hrec x
  elsewhere := helse.trans (settle_elsewhere h)
  conversation t := by
    have hc : ∀ t, db1.conversation? t = db.conversation? t := fun t => by
      rw [conversation?, hconv]
      rfl
    unfold settle at h
    split at h
    next hpos =>
      rcases updateSummary_conversation h t with ⟨heq, hnew⟩ | ⟨ht, c, time, summary, hold, hrest⟩
      · rw [releaseImage_conversation, hc] at heq hnew
        exact .inl ⟨heq, fun _ => hnew⟩
      · rw [releaseImage_conversation, hc] at hold
        exact .inr ⟨hpos, ht, c, time, summary, hold, hrest⟩
    next hpos =>
      cases h
      exact .inl ⟨hc t, fun h => absurd h hpos⟩

theorem insert_wrote {db1 : Database} (hnil : db.findCopies m = [])
    (hins : db.insertMessage m = .ok db1) (h : db1.settle m = .ok db') :
    Wrote db m (m.toRow db.nextLocalId) db' := by
  unfold insertMessage at hins
  split at hins
  next messages hm =>
    cases hins
    obtain ⟨-, hrows⟩ := Table.insert_eq_some.mp hm
    refine settle_wrote h ?_ ⟨rfl, rfl, rfl, rfl, rfl, rfl⟩ rfl
    intro x
    simp only [records, hrows, List.map_append, List.map_cons, List.map_nil, List.mem_append,
      List.mem_singleton]
    constructor
    · rintro (hx | hx)
      · obtain ⟨r, hr, rfl⟩ := List.mem_map.mp hx
        exact .inr ⟨hx, fun hc => findCopies_eq_nil.mp hnil r hr (isCopy_record.mp hc)⟩
      · exact .inl hx
    · rintro (hx | ⟨hx, -⟩)
      · exact .inr hx
      · exact .inl hx
  next => cases hins

/-- The rows after the stored copy was rewritten and its duplicates removed. -/
theorem update_rows {db1 : Database} {row : MessageRow} {duplicates : List MessageRow}
    (hcopies : db.findCopies m = row :: duplicates)
    (hupd : (db.removeRows duplicates).updateMessage row.localId m = .ok db1) (x : MessageRow) :
    x ∈ db1.messages.rows ↔ x = row.merge m ∨ (x ∈ db.messages.rows ∧ ¬ IsCopy m x) := by
  have hmem : ∀ r, r ∈ row :: duplicates ↔ r ∈ db.messages.rows ∧ IsCopy m r := fun r => by
    rw [← hcopies]
    exact mem_findCopies
  obtain ⟨hrow, hcopy⟩ := (hmem row).mp List.mem_cons_self
  have hnodup : ¬ ∃ d ∈ duplicates, d.localId = row.localId := by
    rintro ⟨d, hd, hid⟩
    have hdmem := ((hmem d).mp (List.mem_cons_of_mem _ hd)).1
    have heq : d = row := eq_of_clash hdmem hrow (.inl hid)
    have hnd : (db.findCopies m).Nodup := by
      refine (List.perm_insertionSort _ _).nodup_iff.mpr (List.Nodup.filter _ ?_)
      exact db.messages.unique.imp fun hc he => hc (.inl (congrArg _ he))
    rw [hcopies, List.nodup_cons] at hnd
    exact hnd.1 (heq ▸ hd)
  unfold updateMessage at hupd
  split at hupd
  next messages hm =>
    cases hupd
    obtain ⟨-, hrows⟩ := Table.update_eq_some.mp hm
    simp only [hrows, List.mem_map, removeRows, Table.mem_delete]
    constructor
    · rintro ⟨r, ⟨hr, hkeep⟩, rfl⟩
      by_cases hid : r.localId = row.localId
      · rw [if_pos hid, eq_of_clash hr hrow (.inl hid)]
        exact .inl rfl
      · rw [if_neg hid]
        refine .inr ⟨hr, fun hc => ?_⟩
        rcases List.mem_cons.mp ((hmem r).mpr ⟨hr, hc⟩) with rfl | hd
        · exact hid rfl
        · exact decide_eq_false_iff_not.mp hkeep ⟨r, hd, rfl⟩
    · rintro (rfl | ⟨hr, hnc⟩)
      · exact ⟨row, ⟨hrow, decide_eq_false hnodup⟩, if_pos rfl⟩
      · have hid : x.localId ≠ row.localId := fun he =>
          hnc (eq_of_clash hr hrow (.inl he) ▸ hcopy)
        refine ⟨x, ⟨hr, decide_eq_false fun hd => ?_⟩, if_neg hid⟩
        obtain ⟨d, hd, he⟩ := hd
        obtain ⟨hdm, hdc⟩ := (hmem d).mp (List.mem_cons_of_mem _ hd)
        exact hnc (eq_of_clash hdm hr (.inl he) ▸ hdc)
  next => cases hupd

theorem update_wrote {db1 : Database} {row : MessageRow} {duplicates : List MessageRow}
    (hcopies : db.findCopies m = row :: duplicates)
    (hupd : (db.removeRows duplicates).updateMessage row.localId m = .ok db1)
    (h : db1.settle m = .ok db') : Wrote db m (row.merge m) db' := by
  have hrows := update_rows hcopies hupd
  unfold updateMessage at hupd
  split at hupd
  next messages hm =>
    cases hupd
    refine settle_wrote h (fun x => ?_) ⟨rfl, rfl, rfl, rfl, rfl, rfl⟩ rfl
    simp only [records, List.mem_map]
    constructor
    · rintro ⟨r, hr, rfl⟩
      rcases (hrows r).mp hr with rfl | ⟨hr, hnc⟩
      · exact .inl rfl
      · exact .inr ⟨⟨r, hr, rfl⟩, hnc⟩
    · rintro (rfl | ⟨⟨r, hr, rfl⟩, hnc⟩)
      · exact ⟨_, (hrows _).mpr (.inl rfl), rfl⟩
      · exact ⟨r, (hrows r).mpr (.inr ⟨hr, hnc⟩), rfl⟩
  next => cases hupd

/-- Everything a successful merge can do. -/
theorem mergeMessage_cases (h : db.mergeMessage m = .ok (result, db')) :
    (∃ row ∈ db.messages.rows, IsCopy m row ∧ row.serverId ≠ none ∧ m.serverId ≤ 0 ∧
      result = .existing ∧ db' = db) ∨
    ∃ w, Writes db m w result ∧ Wrote db m w db' := by
  unfold mergeMessage at h
  split at h
  next hnil =>
    obtain ⟨db1, hins, h⟩ := bind_eq_ok.mp h
    obtain ⟨db2, hset, h⟩ := bind_eq_ok.mp h
    cases h
    exact .inr ⟨_, .insert hnil, insert_wrote hnil hins hset⟩
  next row duplicates hcopies =>
    have hrow := mem_findCopies.mp (hcopies ▸ List.mem_cons_self : row ∈ db.findCopies m)
    split at h
    next hlate =>
      cases h
      exact .inl ⟨row, hrow.1, hrow.2, hlate.1, hlate.2, rfl, rfl⟩
    next hlate =>
      obtain ⟨db1, hupd, h⟩ := bind_eq_ok.mp h
      obtain ⟨db2, hset, h⟩ := bind_eq_ok.mp h
      cases h
      exact .inr ⟨_, .update hcopies hlate, update_wrote hcopies hupd hset⟩

/-- Everything a successful save can do. -/
theorem saveMessage_cases (h : db.saveMessage m = .ok (result, db')) :
    m.HasIdentity ∧ ∃ c, db.conversation? m.threadId = some c ∧
      ((0 < m.serverId ∧ m.serverId ≤ c.hiddenBeforeId ∧ result = .suppressed ∧
          db' = db.removePending m) ∨
        (0 < m.serverId ∧ c.hiddenBeforeId < m.serverId ∧ db.isDeleted m.threadId m.serverId ∧
          result = .suppressed ∧ db' = db) ∨
        ((0 < m.serverId → c.hiddenBeforeId < m.serverId ∧ ¬ db.isDeleted m.threadId m.serverId) ∧
          db.mergeMessage m = .ok (result, db'))) := by
  unfold saveMessage at h
  split at h
  · cases h
  next hid =>
    split at h
    · cases h
    next c hc =>
      refine ⟨not_not.mp hid, c, hc, ?_⟩
      split at h
      next hhidden =>
        cases h
        exact .inl ⟨hhidden.1, hhidden.2, rfl, rfl⟩
      next hhidden =>
        split at h
        next hdel =>
          cases h
          exact .inr (.inl ⟨hdel.1, not_le.mp fun hle => hhidden ⟨hdel.1, hle⟩, hdel.2, rfl, rfl⟩)
        next hdel =>
          refine .inr (.inr ⟨fun hpos => ⟨?_, fun hd => hdel ⟨hpos, hd⟩⟩, h⟩)
          exact not_le.mp fun hle => hhidden ⟨hpos, hle⟩

end Database
end CppChat.LocalStore
