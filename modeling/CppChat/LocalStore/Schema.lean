import CppChat.Foundation.Table

/-! # The client's account database

The SQLite tables that chat storage reads and writes, with their unique keys, and the
value snapshots the worker thread receives. `none` stands for SQL `NULL` in a row and
for a null `QString` in a snapshot. A failed statement is an error; the transaction
around it rolls back.
-/
namespace CppChat.LocalStore
open Foundation

abbrev Bytes := List UInt8

/-- Errors of one storage operation: a failed `checked`, or a violated constraint. -/
inductive StoreError
  | checked (message : String)
  | uniqueViolation
  | notNullViolation
  deriving DecidableEq

/-- `MsgStatus` of the client. -/
def unRead : Int := 0
def sendFailed : Int := 1

structure StoredMessage where
  threadId : Int
  senderUid : Int
  serverId : Int
  uniqueId : String
  content : Option String
  time : Option String
  type : Int
  status : Int
  localImage : Bytes
  deriving DecidableEq

structure StoredConversation where
  threadId : Int
  otherUid : Int
  lastServerId : Int
  lastTime : Option String
  summary : Option String
  groupJson : String
  deriving DecidableEq

structure MsgInfo where
  msgFlag : String
  content : Option String
  imageData : Bytes
  deriving DecidableEq

/-- A row of `messages`. -/
structure MessageRow where
  localId : ℕ
  threadId : Int
  senderUid : Int
  serverId : Option Int
  uniqueId : Option String
  content : String
  messageType : Int
  chatTime : String
  serverStatus : Int
  sendState : Int
  localImage : Option Bytes
  deriving DecidableEq

/-- `UNIQUE(thread_id, server_id)`; SQL `NULL`s are pairwise distinct. -/
def MessageRow.SameServer (a b : MessageRow) : Prop :=
  a.threadId = b.threadId ∧ a.serverId ≠ none ∧ a.serverId = b.serverId

/-- The partial unique index `messages_uuid`. -/
def MessageRow.SameUuid (a b : MessageRow) : Prop :=
  a.threadId = b.threadId ∧ a.senderUid = b.senderUid ∧
    a.uniqueId ≠ none ∧ a.uniqueId = b.uniqueId

def MessageRow.Clash (a b : MessageRow) : Prop :=
  a.localId = b.localId ∨ a.SameServer b ∨ a.SameUuid b

instance : DecidableRel MessageRow.SameServer := fun _ _ =>
  inferInstanceAs (Decidable (_ ∧ _ ∧ _))

instance : DecidableRel MessageRow.SameUuid := fun _ _ =>
  inferInstanceAs (Decidable (_ ∧ _ ∧ _ ∧ _))

instance : DecidableRel MessageRow.Clash := fun _ _ => inferInstanceAs (Decidable (_ ∨ _ ∨ _))

theorem MessageRow.Clash.symm {a b : MessageRow} (h : a.Clash b) : b.Clash a := by
  rcases h with h | ⟨ht, hs, he⟩ | ⟨ht, ha, hu, he⟩
  · exact .inl h.symm
  · exact .inr (.inl ⟨ht.symm, he ▸ hs, he.symm⟩)
  · exact .inr (.inr ⟨ht.symm, ha.symm, he ▸ hu, he.symm⟩)

/-- Two rows that agree on every column of a key. -/
structure MessageRow.SameKeys (a b : MessageRow) : Prop where
  localId : a.localId = b.localId
  threadId : a.threadId = b.threadId
  senderUid : a.senderUid = b.senderUid
  serverId : a.serverId = b.serverId
  uniqueId : a.uniqueId = b.uniqueId

theorem MessageRow.SameKeys.clash {a b a' b' : MessageRow} (ha : a'.SameKeys a)
    (hb : b'.SameKeys b) (h : a'.Clash b') : a.Clash b := by
  simpa only [Clash, SameServer, SameUuid, ha.localId, ha.threadId, ha.senderUid, ha.serverId,
    ha.uniqueId, hb.localId, hb.threadId, hb.senderUid, hb.serverId, hb.uniqueId] using h

structure Conversation where
  threadId : Int
  otherUid : Int
  lastServerId : Int
  lastTime : String
  summary : String
  hiddenBeforeId : Int
  deriving DecidableEq

structure SyncState where
  threadId : Int
  confirmedCursor : Int
  deriving DecidableEq

/-- A row of `deleted_messages`: only the identity of the locally deleted message. -/
structure Tombstone where
  threadId : Int
  serverId : Int
  deriving DecidableEq

structure Attachment where
  fileId : String
  path : String
  sha256 : String
  size : ℕ
  deriving DecidableEq

structure GroupProfile where
  threadId : Int
  metadata : String
  deriving DecidableEq

structure DraftRow where
  threadId : Int
  ordinal : ℕ
  messageFlag : String
  content : String
  imageData : Option Bytes
  deriving DecidableEq

structure Database where
  conversations : Keyed Conversation Conversation.threadId
  messages : Table MessageRow MessageRow.Clash
  syncState : Keyed SyncState SyncState.threadId
  deletedMessages : Keyed Tombstone id
  attachments : Keyed Attachment Attachment.fileId
  groupProfiles : Keyed GroupProfile GroupProfile.threadId
  drafts : Keyed DraftRow fun d => (d.threadId, d.ordinal)
  userVersion : Int

namespace Database

/-- A new database file, or one an earlier release created, before any row is stored. -/
def create (userVersion : Int) : Database :=
  ⟨.empty, .empty, .empty, .empty, .empty, .empty, .empty, userVersion⟩

def conversation? (db : Database) (thread : Int) : Option Conversation :=
  Keyed.lookup db.conversations thread

/-- `SELECT confirmed_cursor …`, 0 when the thread has no row. -/
def confirmedCursor (db : Database) (thread : Int) : Int :=
  ((Keyed.lookup db.syncState thread).map SyncState.confirmedCursor).getD 0

def isDeleted (db : Database) (thread serverId : Int) : Prop :=
  (⟨thread, serverId⟩ : Tombstone) ∈ db.deletedMessages.rows

instance (db : Database) (thread serverId : Int) : Decidable (db.isDeleted thread serverId) :=
  inferInstanceAs (Decidable (_ ∈ _))

def hasAttachment (db : Database) (fileId : String) : Bool :=
  (Keyed.lookup db.attachments fileId).isSome

/-- An `UPDATE messages` of columns outside every key. -/
def mapMessages (db : Database) (f : MessageRow → MessageRow) (hf : ∀ r, (f r).SameKeys r) :
    Database :=
  { db with messages := db.messages.map f fun a b => MessageRow.SameKeys.clash (hf a) (hf b) }

/-- The rowid SQLite gives the next row of `messages`. -/
def nextLocalId (db : Database) : ℕ := (db.messages.rows.map MessageRow.localId).foldr max 0 + 1

theorem localId_lt_next {db : Database} {r : MessageRow} (h : r ∈ db.messages.rows) :
    r.localId < db.nextLocalId := by
  unfold nextLocalId
  generalize db.messages.rows = rows at h
  induction rows with
  | nil => cases h
  | cons a rows ih =>
    simp only [List.map_cons, List.foldr_cons]
    rcases List.mem_cons.mp h with rfl | h
    · omega
    · have := ih h
      omega

theorem eq_of_clash {db : Database} {a b : MessageRow} (ha : a ∈ db.messages.rows)
    (hb : b ∈ db.messages.rows) (h : a.Clash b) : a = b :=
  db.messages.eq_of_clash (fun _ _ => MessageRow.Clash.symm) ha hb h

end Database
end CppChat.LocalStore
