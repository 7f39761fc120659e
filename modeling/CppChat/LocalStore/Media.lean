import CppChat.LocalStore.Confluence

/-! # The bytes of stored media

The bytes of a sent image, file or voice message first live in its row. A confirmation
releases them when the attachment of the message is cached, and caching an attachment
releases the bytes of the messages confirmed before. The cache writes an encrypted file
first and its row afterwards; either step may fail.
-/
namespace CppChat.LocalStore
open Foundation

def IsMedia (type : Int) : Prop := type = 1 ∨ type = 2 ∨ type = 3

instance : DecidablePred IsMedia := fun _ => inferInstanceAs (Decidable (_ ∨ _ ∨ _))

/-- The identity its sender gives a message. -/
structure MediaKey where
  threadId : Int
  senderUid : Int
  uniqueId : String
  deriving DecidableEq

def StoredMessage.key (m : StoredMessage) : MediaKey := ⟨m.threadId, m.senderUid, m.uniqueId⟩

def MessageRow.HasKey (r : MessageRow) (k : MediaKey) : Prop :=
  r.threadId = k.threadId ∧ r.senderUid = k.senderUid ∧ r.uniqueId = some k.uniqueId

instance (k : MediaKey) : DecidablePred (MessageRow.HasKey · k) := fun _ =>
  inferInstanceAs (Decidable (_ ∧ _ ∧ _))

theorem MessageRow.SameKeys.hasKey {r r' : MessageRow} {k : MediaKey} (h : r'.SameKeys r)
    (hkey : r.HasKey k) : r'.HasKey k :=
  ⟨h.threadId.trans hkey.1, h.senderUid.trans hkey.2.1, h.uniqueId.trans hkey.2.2⟩

/-! ## The two steps of caching an attachment -/

/-- The digest, as hexadecimal text, and the payload encryption of the account. -/
structure Cipher where
  sha256 : Bytes → String
  encrypt : Bytes → Bytes

def kMaxAttachmentSize : ℕ := 20 * 1024 * 1024

def Cipher.attachment (c : Cipher) (id : String) (image : Bytes) : Attachment :=
  ⟨id, "attachments/" ++ c.sha256 id.toUTF8.data.toList, c.sha256 image, image.length⟩

/-- The file step of `SaveAttachment`: the row to record, and the payload of the file. -/
def Cipher.saveAttachmentFile (c : Cipher) (id : String) (image : Bytes) :
    Except StoreError (Attachment × Bytes) :=
  if id = "" then .error (.checked "No active account or attachment identity")
  else if image = [] ∨ kMaxAttachmentSize < image.length then
    .error (.checked "Invalid attachment size")
  else .ok (c.attachment id image, c.encrypt image)

/-- The account's database and its directory of encrypted files. `saved` lists the bytes that
committed saves wrote for the messages, in their order, and `filed` those that the committed
files were made of, each under its file id. -/
structure Cache where
  db : Database
  committed : List (String × Bytes)
  queued : List Attachment
  saved : List (MediaKey × Bytes)
  filed : List (String × Bytes)

/-- The bytes of the message were written by this save. A pending save that finds its message
confirmed writes nothing: it repeats an earlier save. -/
def WroteMedia (m : StoredMessage) (result : SaveResult) : Prop :=
  m.localImage ≠ [] ∧ m.uniqueId ≠ "" ∧ result ≠ .suppressed ∧
    (result = .existing → 0 < m.serverId)

instance (m : StoredMessage) : DecidablePred (WroteMedia m) := fun _ =>
  inferInstanceAs (Decidable (_ ∧ _ ∧ _ ∧ _))

def Database.writtenMedia : Database → List StoredMessage → List (MediaKey × Bytes)
  | _, [] => []
  | db, m :: ms =>
    match db.saveMessage m with
    | .error _ => []
    | .ok (outcome, db') =>
      if WroteMedia m outcome then (m.key, m.localImage) :: writtenMedia db' ms
      else writtenMedia db' ms

def Call.writtenMedia (db : Database) (call : Call) : List (MediaKey × Bytes) :=
  match call.operation with
  | .saveMessages ms t cursor d =>
    if call.interrupted then []
    else match db.saveMessages ms t cursor d with
      | .ok _ => db.writtenMedia ms
      | .error _ => []
  | _ => []

/-- The bytes that were written last for the message of the key. -/
def lastWritten (k : MediaKey) : Option Bytes → List (MediaKey × Bytes) → Option Bytes
  | last, [] => last
  | last, (key, image) :: rest => lastWritten k (if key = k then some image else last) rest

theorem lastWritten_append (k : MediaKey) (last : Option Bytes) (w w' : List (MediaKey × Bytes)) :
    lastWritten k last (w ++ w') = lastWritten k (lastWritten k last w) w' := by
  induction w generalizing last with
  | nil => rfl
  | cons x w ih => exact ih _

inductive MediaStep
  /-- Any operation of the store but the database step of `SaveAttachment`. -/
  | call (call : Call)
  | saveFile (id : String) (image : Bytes) (interrupted : Bool)
  /-- The database step of a waiting attachment, whose file was committed. -/
  | saveRow (index : ℕ) (interrupted : Bool)

def Operation.isSaveAttachment : Operation → Bool
  | .saveAttachment _ => true
  | _ => false

namespace Cache

def next (c : Cipher) (s : Cache) : MediaStep → Option Cache
  | .call call =>
    if call.operation.isSaveAttachment then none
    else some { s with db := call.run s.db, saved := s.saved ++ call.writtenMedia s.db }
  | .saveFile id image interrupted =>
    match c.saveAttachmentFile id image with
    | .error _ => some s
    | .ok (attachment, payload) =>
      if interrupted then some s
      else some { s with
        committed := (attachment.path, payload) :: s.committed
        queued := attachment :: s.queued
        filed := (id, image) :: s.filed }
  | .saveRow index interrupted =>
    match s.queued[index]? with
    | none => none
    | some attachment =>
      some { s with
        db := Call.run s.db ⟨.saveAttachment attachment, interrupted⟩
        queued := s.queued.eraseIdx index }

def machine (c : Cipher) : Machine Cache MediaStep :=
  .ofFn (fun s => ∃ version, s = ⟨.create version, [], [], [], []⟩) (next c)

end Cache

/-! ## The rows after a save -/

namespace Database
variable {db db' : Database} {m : StoredMessage} {result : SaveResult}

/-- A row after the release that follows a confirmation. -/
def settledRow (db : Database) (m : StoredMessage) (r : MessageRow) : MessageRow :=
  if 0 < m.serverId ∧ IsMedia m.type then db.releaseRow m r else r

theorem settle_rows (h : db.settle m = .ok db') :
    db'.messages.rows = db.messages.rows.map (db.settledRow m) := by
  unfold settle at h
  unfold settledRow
  by_cases hpos : 0 < m.serverId
  · rw [if_pos hpos] at h
    rw [(updateSummary_eq h).1, releaseImage]
    by_cases hmedia : IsMedia m.type
    · simp only [hpos, hmedia, and_self, if_true]
      rw [if_pos (show m.type = 1 ∨ m.type = 2 ∨ m.type = 3 from hmedia)]
      rfl
    · simp only [hmedia, and_false, if_false, List.map_id']
      rw [if_neg (show ¬ (m.type = 1 ∨ m.type = 2 ∨ m.type = 3) from hmedia)]
  · rw [if_neg hpos] at h
    cases h
    simp only [hpos, false_and, if_false, List.map_id']

theorem settledRow_congr (h : db'.attachments = db.attachments) (r : MessageRow) :
    db'.settledRow m r = db.settledRow m r := by
  unfold settledRow releaseRow hasAttachment
  rw [h]

theorem settledRow_of_not_isCopy {r : MessageRow} (h : ¬ IsCopy m r) : db.settledRow m r = r := by
  unfold settledRow releaseRow
  split
  next hpos =>
    rw [if_neg]
    rintro ⟨ht, hs, -⟩
    exact h ⟨ht, .inl ⟨hpos.1, hs⟩⟩
  next => rfl

theorem settledRow_cases (db : Database) (m : StoredMessage) (r : MessageRow) :
    db.settledRow m r = r ∨ (r.serverId = some m.serverId ∧ db.hasAttachment r.content ∧
      db.settledRow m r = { r with localImage := none }) := by
  unfold settledRow releaseRow
  split
  next =>
    split
    next h => exact .inr ⟨h.2.1, h.2.2, rfl⟩
    next => exact .inl rfl
  next => exact .inl rfl

/-- The stored rows after a save that wrote `w`. -/
theorem mergeMessage_rows (h : db.mergeMessage m = .ok (result, db')) :
    (result = .existing ∧ m.serverId ≤ 0 ∧ db' = db) ∨
    ∃ w, Writes db m w result ∧ ∀ x, x ∈ db'.messages.rows ↔
      x = db.settledRow m w ∨ (x ∈ db.messages.rows ∧ ¬ IsCopy m x) := by
  unfold mergeMessage at h
  split at h
  next hnil =>
    obtain ⟨db1, hins, h⟩ := bind_eq_ok.mp h
    obtain ⟨db2, hset, h⟩ := bind_eq_ok.mp h
    cases h
    refine .inr ⟨_, .insert hnil, fun x => ?_⟩
    unfold insertMessage at hins
    split at hins
    next messages hm =>
      cases hins
      rw [settle_rows hset, (Table.insert_eq_some.mp hm).2]
      simp only [List.map_append, List.mem_append, List.mem_map, List.map_cons, List.map_nil,
        List.mem_singleton]
      rw [@settledRow_congr db _ _ rfl]
      constructor
      · rintro (⟨r, hr, rfl⟩ | hx)
        · have hnc := findCopies_eq_nil.mp hnil r hr
          rw [settledRow_of_not_isCopy hnc]
          exact .inr ⟨hr, hnc⟩
        · exact .inl hx
      · rintro (hx | ⟨hx, hnc⟩)
        · exact .inr hx
        · exact .inl ⟨x, hx, settledRow_of_not_isCopy hnc⟩
    next => cases hins
  next row duplicates hcopies =>
    split at h
    next hlate =>
      cases h
      exact .inl ⟨rfl, hlate.2, rfl⟩
    next hlate =>
      obtain ⟨db1, hupd, h⟩ := bind_eq_ok.mp h
      obtain ⟨db2, hset, h⟩ := bind_eq_ok.mp h
      cases h
      refine .inr ⟨_, .update hcopies hlate, fun x => ?_⟩
      have hwrote := update_rows hcopies hupd
      have hattachments : db1.attachments = db.attachments := by
        unfold updateMessage at hupd
        split at hupd <;> cases hupd
        rfl
      rw [settle_rows hset, List.mem_map]
      simp only [hwrote, settledRow_congr hattachments]
      constructor
      · rintro ⟨r, rfl | ⟨hr, hnc⟩, rfl⟩
        · exact .inl rfl
        · rw [settledRow_of_not_isCopy hnc]
          exact .inr ⟨hr, hnc⟩
      · rintro (rfl | ⟨hx, hnc⟩)
        · exact ⟨_, .inl rfl, rfl⟩
        · exact ⟨x, .inr ⟨hx, hnc⟩, settledRow_of_not_isCopy hnc⟩

end Database
end CppChat.LocalStore
