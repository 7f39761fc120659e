import Mathlib.Data.List.Dedup
import CppChat.Foundation.Transition
import CppChat.LocalStore.SaveMessage

/-! # The operations of the chat store

Each public operation runs on the worker thread as one transaction (or one statement).
The store machine runs them in any order with any arguments, and lets any of them fail;
a failed operation leaves the database as it was.
-/
namespace CppChat.LocalStore
open Foundation

/-- The part of `ChatStoreResult` a save reports, keyed by thread and server id. -/
structure ChatStoreResult where
  newMessageKeys : List (Int × Int) := []
  suppressedMessageKeys : List (Int × Int) := []
  deriving DecidableEq

def ChatStoreResult.record (r : ChatStoreResult) (m : StoredMessage) : SaveResult → ChatStoreResult
  | .new => if 0 < m.serverId then
      { r with newMessageKeys := (m.threadId, m.serverId) :: r.newMessageKeys } else r
  | .suppressed =>
      { r with suppressedMessageKeys := (m.threadId, m.serverId) :: r.suppressedMessageKeys }
  | .existing => r

/-- What the voice-capable release left in the history of older clients. -/
def voicePlaceholder : String := "[语音消息] 请升级客户端以收听"

def deletedSummary : String := "[本机已删除消息]"

/-- The order of a history page; returns its last server id. -/
def checkPageOrder (thread : Int) : Int → List StoredMessage → Except StoreError Int
  | last, [] => .ok last
  | last, m :: ms =>
    if m.threadId = thread ∧ last < m.serverId then checkPageOrder thread m.serverId ms
    else .error (.checked "Invalid history page order")

def StoredConversation.toRow (c : StoredConversation) : Conversation :=
  ⟨c.threadId, c.otherUid, c.lastServerId, c.lastTime.getD "", c.summary.getD "", 0⟩

/-- `ON CONFLICT(thread_id) DO UPDATE`: the stored summary and boundary stay. -/
def Conversation.merge (old : Conversation) (c : StoredConversation) : Conversation :=
  { old with
    otherUid := c.otherUid
    lastTime := if old.lastServerId ≤ c.lastServerId then c.lastTime.getD "" else old.lastTime
    lastServerId := max old.lastServerId c.lastServerId }

namespace Database

def saveConversation (db : Database) (c : StoredConversation) : Database :=
  let db := { db with
    conversations := Keyed.upsert db.conversations c.toRow (fun old => old.merge c) fun _ => rfl }
  if c.groupJson = "" then db
  else { db with
    groupProfiles := Keyed.upsert db.groupProfiles ⟨c.threadId, c.groupJson⟩
      (fun old => { old with metadata := c.groupJson }) fun _ => rfl }

def saveConversations (db : Database) (cs : List StoredConversation) : Database :=
  cs.foldl saveConversation db

def forgetGroupProfile (db : Database) (thread : Int) : Database :=
  { db with groupProfiles := db.groupProfiles.delete fun g => g.threadId = thread }

/-- A history page continues exactly at the stored cursor and ends at the announced one. -/
def checkHistoryPage (db : Database) (ms : List StoredMessage) (syncThread cursor : Int) :
    Except StoreError Unit :=
  if 0 < syncThread then do
    let last ← checkPageOrder syncThread (db.confirmedCursor syncThread) ms
    if cursor = last then .ok () else .error (.checked "Invalid history page cursor")
  else .ok ()

def saveAll : Database → List StoredMessage → Except StoreError (ChatStoreResult × Database)
  | db, [] => .ok ({}, db)
  | db, m :: ms => do
    let (outcome, db) ← db.saveMessage m
    let (result, db) ← saveAll db ms
    .ok (result.record m outcome, db)

def advanceCursor (db : Database) (syncThread cursor : Int) : Database :=
  if 0 < syncThread ∧ 0 ≤ cursor then
    { db with
      syncState := Keyed.upsert db.syncState ⟨syncThread, cursor⟩
        (fun old => { old with confirmedCursor := max old.confirmedCursor cursor }) fun _ => rfl }
  else db

def clearDraft (db : Database) (thread : Int) : Database :=
  if 0 < thread then { db with drafts := db.drafts.delete fun d => d.threadId = thread } else db

def saveMessages (db : Database) (ms : List StoredMessage) (syncThread cursor clearDraftThread : Int) :
    Except StoreError (ChatStoreResult × Database) := do
  db.checkHistoryPage ms syncThread cursor
  let (result, db) ← saveAll db ms
  .ok (result, (db.advanceCursor syncThread cursor).clearDraft clearDraftThread)

def saveDraftRow (db : Database) (thread : Int) (ordinal : ℕ) (info : MsgInfo) : Database :=
  let row : DraftRow := ⟨thread, ordinal, info.msgFlag, info.content.getD "",
    if info.imageData = [] then none else some info.imageData⟩
  { db with
    drafts := Keyed.upsert db.drafts row
      (fun old => { old with
        messageFlag := row.messageFlag, content := row.content, imageData := row.imageData })
      fun _ => rfl }

def saveDraft (db : Database) (thread : Int) (draft : List MsgInfo) : Database :=
  let db := { db with
    drafts := db.drafts.delete fun d => d.threadId = thread ∧ draft.length ≤ d.ordinal }
  draft.zipIdx.foldl (fun db (info, i) => db.saveDraftRow thread i info) db

def markUnconfirmed (db : Database) (id : String) (failed : Bool) : Database :=
  db.mapMessages
    (fun r => if r.uniqueId = some id ∧ r.serverId = none then
      { r with sendState := if failed then 3 else 2 } else r)
    fun r => by split <;> exact ⟨rfl, rfl, rfl, rfl, rfl⟩

/-- Drops the duplicates of a cached attachment's bytes. -/
def releaseDuplicates (db : Database) (a : Attachment) : Database :=
  db.mapMessages
    (fun r => if r.content = a.fileId ∧ (r.messageType = 1 ∨ r.messageType = 3) ∧
      r.serverId ≠ none ∧ r.localImage ≠ none then { r with localImage := none } else r)
    fun r => by split <;> exact ⟨rfl, rfl, rfl, rfl, rfl⟩

def recordAttachment (db : Database) (a : Attachment) : Database :=
  releaseDuplicates { db with
    attachments := Keyed.upsert db.attachments a
      (fun old => { old with path := a.path, sha256 := a.sha256, size := a.size }) fun _ => rfl } a

/-- `MAX(last_server_id, hidden_before_id, COALESCE(MAX(server_id), 0))`. -/
def clearBoundary (db : Database) (c : Conversation) : Int :=
  let confirmed := db.messages.rows.filterMap fun r =>
    if r.threadId = c.threadId then r.serverId else none
  max (max c.lastServerId c.hiddenBeforeId) (confirmed.max?.getD 0)

def clearLocalHistory (db : Database) (thread : Int) (requireConfirmedOnly : Bool) :
    Except StoreError Database :=
  if ¬ 0 < thread then .error (.checked "Invalid conversation")
  else match db.conversation? thread with
    | none => .error (.checked "Conversation is missing")
    | some _ =>
      if requireConfirmedOnly ∧ ∃ r ∈ db.messages.rows, r.threadId = thread ∧ r.serverId = none then
        .error (.checked "Conversation still has pending messages")
      else .ok { db with
        conversations := Keyed.modify db.conversations thread
          (fun c => { c with hiddenBeforeId := db.clearBoundary c, summary := "" }) fun _ => rfl
        messages := db.messages.delete fun r => r.threadId = thread ∧ r.serverId ≠ none }

def deleteLocalMessage (db : Database) (thread serverId : Int) : Database :=
  { db with
    deletedMessages := Keyed.upsert db.deletedMessages ⟨thread, serverId⟩ id fun _ => rfl
    messages := db.messages.delete fun r => r.threadId = thread ∧ r.serverId = some serverId
    conversations := Keyed.modify db.conversations thread
      (fun c => if c.lastServerId = serverId then { c with summary := deletedSummary } else c)
      fun c => by split <;> rfl }

def deleteLocalMessages (db : Database) (thread : Int) (serverIds : List Int) :
    Except StoreError Database :=
  if ¬ (0 < thread ∧ serverIds ≠ [] ∧ serverIds.length ≤ 50) then
    .error (.checked "Select between 1 and 50 confirmed messages")
  else if ∃ id ∈ serverIds, ¬ 0 < id then
    .error (.checked "Only confirmed messages can be deleted locally")
  else match db.conversation? thread with
    | none => .error (.checked "Message conversation is missing")
    | some _ => .ok (serverIds.dedup.foldl (fun db id => db.deleteLocalMessage thread id) db)

/-- Before schema version 4 a history page could hold voice placeholders: sync those again. -/
def resetVoiceCursors (db : Database) : Database :=
  let threads := (db.messages.rows.filter fun r =>
    r.messageType = 0 ∧ r.content = voicePlaceholder).map MessageRow.threadId
  { db with
    syncState := db.syncState.map
      (fun s => if s.threadId ∈ threads then { s with confirmedCursor := 0 } else s)
      fun a b h => by split at h <;> split at h <;> exact h }

/-- A message still being sent when the client stopped awaits a check, not a resend. -/
def interruptSending (db : Database) : Database :=
  db.mapMessages
    (fun r => if r.serverId = none ∧ r.sendState = 0 then { r with sendState := 2 } else r)
    fun r => by split <;> exact ⟨rfl, rfl, rfl, rfl, rfl⟩

/-- The database step of `OpenAccount`: schema upgrade and recovery in one transaction. -/
def openAccount (db : Database) : Except StoreError Database :=
  if 5 < db.userVersion then .error (.checked "Local database is newer than this client")
  else
    let db := if db.userVersion < 4 then db.resetVoiceCursors else db
    .ok { db.interruptSending with userVersion := 5 }

end Database

inductive Operation
  | openAccount
  | saveConversations (conversations : List StoredConversation)
  | forgetGroupProfile (thread : Int)
  | saveMessages (messages : List StoredMessage) (syncThread cursor clearDraftThread : Int)
  | saveDraft (thread : Int) (draft : List MsgInfo)
  | markUnconfirmed (id : String) (failed : Bool)
  | saveAttachment (attachment : Attachment)
  | clearLocalHistory (thread : Int) (requireConfirmedOnly : Bool)
  | deleteLocalMessages (thread : Int) (serverIds : List Int)

def Operation.run (db : Database) : Operation → Except StoreError Database
  | .openAccount => db.openAccount
  | .saveConversations cs => .ok (db.saveConversations cs)
  | .forgetGroupProfile t => .ok (db.forgetGroupProfile t)
  | .saveMessages ms t cursor d => (db.saveMessages ms t cursor d).map Prod.snd
  | .saveDraft t draft => .ok (db.saveDraft t draft)
  | .markUnconfirmed id failed => .ok (db.markUnconfirmed id failed)
  | .saveAttachment a => .ok (db.recordAttachment a)
  | .clearLocalHistory t confirmed => db.clearLocalHistory t confirmed
  | .deleteLocalMessages t ids => db.deleteLocalMessages t ids

/-- One call of an operation; `interrupted` when the engine or the disk failed under it. -/
structure Call where
  operation : Operation
  interrupted : Bool

def Call.run (db : Database) (c : Call) : Database :=
  if c.interrupted then db else commitOrRollback db (c.operation.run db)

/-- One account database over its whole life, from the file an earlier or this release made. -/
def store : Machine Database Call where
  init db := ∃ version, db = Database.create version
  step db c db' := db' = c.run db

end CppChat.LocalStore
