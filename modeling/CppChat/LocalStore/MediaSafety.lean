import CppChat.LocalStore.Media

/-! # Own media is never lost

As long as a sent media message is stored, its row holds its bytes or names an attachment
whose file was committed. The converse, that a confirmed message with a cached attachment
holds no duplicate, fails for files confirmed before their attachment row: the two
statements that release a duplicate disagree on the types.
-/
namespace CppChat.LocalStore
open Foundation

/-- The message of the server that a key names. -/
def ServerMessage.Of (f : ServerMessage) (k : MediaKey) : Prop :=
  f.senderUid = k.senderUid ∧ f.uniqueId = k.uniqueId

/-- The operation tells messages of the server in the thread of the key, and neither clears
the thread nor deletes the message. -/
def Operation.Spares (M : Set ServerMessage) (k : MediaKey) : Operation → Prop
  | .saveMessages ms _ _ _ => ∀ m ∈ ms, m.threadId = k.threadId → 0 < m.serverId → m.facts ∈ M
  | .clearLocalHistory t _ => t ≠ k.threadId
  | .deleteLocalMessages t ids => t = k.threadId → ∀ f ∈ M, f.Of k → f.serverId ∉ ids
  | _ => True

namespace Database
variable {M : Set ServerMessage} {k : MediaKey} {db db' : Database} {m : StoredMessage}
  {result : SaveResult}

/-! ## Operations that write no message -/

/-- The message of the key stays, and rows change their sending state only. -/
structure KeepsMessage (M : Set ServerMessage) (k : MediaKey) (db db' : Database) : Prop where
  forth : ∀ r ∈ db.messages.rows, r.HasKey k →
    (∀ s, r.serverId = some s → ∃ f ∈ M, f.Of k ∧ f.serverId = s) →
    ∃ state, { r with sendState := state } ∈ db'.messages.rows
  visible : ∀ f ∈ M, f.Of k → 0 < f.serverId → db.Visible k.threadId f → db'.Visible k.threadId f

/-- Every row was there, and the attachments are as they were. -/
structure AddsNoRow (db db' : Database) : Prop where
  rows : ∀ r' ∈ db'.messages.rows, ∃ r ∈ db.messages.rows, ∃ state, r' = { r with sendState := state }
  attachments : db'.attachments = db.attachments

theorem KeepsMessage.refl (db : Database) : KeepsMessage M k db db :=
  ⟨fun r hr _ _ => ⟨r.sendState, hr⟩, fun _ _ _ _ h => h⟩

theorem KeepsMessage.trans {db'' : Database} (h : KeepsMessage M k db db')
    (h' : KeepsMessage M k db' db'') : KeepsMessage M k db db'' where
  forth r hr hkey hserver := by
    obtain ⟨state, hr'⟩ := h.forth r hr hkey hserver
    exact h'.forth { r with sendState := state } hr' hkey hserver
  visible f hf hk hpos hv := h'.visible f hf hk hpos (h.visible f hf hk hpos hv)

theorem AddsNoRow.refl (db : Database) : AddsNoRow db db := ⟨fun r hr => ⟨r, hr, r.sendState, rfl⟩, rfl⟩

theorem AddsNoRow.trans {db'' : Database} (h : AddsNoRow db db') (h' : AddsNoRow db' db'') :
    AddsNoRow db db'' where
  rows r'' hr'' := by
    obtain ⟨r', hr', state', rfl⟩ := h'.rows r'' hr''
    obtain ⟨r, hr, state, rfl⟩ := h.rows r' hr'
    exact ⟨r, hr, state', rfl⟩
  attachments := h'.attachments.trans h.attachments

theorem visible_congr {t : Int} {f : ServerMessage} (hconv : db'.conversations = db.conversations)
    (hdel : db'.deletedMessages = db.deletedMessages) : db'.Visible t f ↔ db.Visible t f := by
  unfold Visible isDeleted conversation?
  rw [hconv, hdel]

theorem keepsMessage_of_tables (hconv : db'.conversations = db.conversations)
    (hmsgs : db'.messages = db.messages) (hdel : db'.deletedMessages = db.deletedMessages) :
    KeepsMessage M k db db' where
  forth r hr _ _ := ⟨r.sendState, hmsgs ▸ hr⟩
  visible _ _ _ _ hv := (visible_congr hconv hdel).mpr hv

theorem addsNoRow_of_tables (hmsgs : db'.messages = db.messages)
    (hatt : db'.attachments = db.attachments) : AddsNoRow db db' where
  rows r hr := ⟨r, hmsgs ▸ hr, r.sendState, rfl⟩
  attachments := hatt

/-- An update of sending states alone. -/
theorem mapMessages_keepsMessage {f : MessageRow → MessageRow} (hf : ∀ r, (f r).SameKeys r)
    (hstate : ∀ r, ∃ state, f r = { r with sendState := state }) :
    KeepsMessage M k db (db.mapMessages f hf) ∧ AddsNoRow db (db.mapMessages f hf) := by
  refine ⟨⟨fun r hr _ _ => ?_, fun _ _ _ _ hv => hv⟩, fun r' hr' => ?_, rfl⟩
  · obtain ⟨state, he⟩ := hstate r
    exact ⟨state, he ▸ List.mem_map_of_mem hr⟩
  · obtain ⟨r, hr, rfl⟩ := List.mem_map.mp hr'
    obtain ⟨state, he⟩ := hstate r
    exact ⟨r, hr, state, he⟩

theorem openAccount_keepsMessage (h : db.openAccount = .ok db') :
    KeepsMessage M k db db' ∧ AddsNoRow db db' := by
  unfold openAccount at h
  split at h
  · cases h
  · cases h
    have hreset : KeepsMessage M k db (if db.userVersion < 4 then db.resetVoiceCursors else db) ∧
        AddsNoRow db (if db.userVersion < 4 then db.resetVoiceCursors else db) := by
      split
      · exact ⟨keepsMessage_of_tables rfl rfl rfl, addsNoRow_of_tables rfl rfl⟩
      · exact ⟨.refl db, .refl db⟩
    have hmap := @mapMessages_keepsMessage M k
      (if db.userVersion < 4 then db.resetVoiceCursors else db)
      (fun r => if r.serverId = none ∧ r.sendState = 0 then { r with sendState := 2 } else r)
      (fun r => by split <;> exact ⟨rfl, rfl, rfl, rfl, rfl⟩) fun r => by
        split
        · exact ⟨2, rfl⟩
        · exact ⟨r.sendState, rfl⟩
    exact ⟨(hreset.1.trans hmap.1).trans (keepsMessage_of_tables rfl rfl rfl),
      (hreset.2.trans hmap.2).trans (addsNoRow_of_tables rfl rfl)⟩

theorem saveConversation_keepsMessage (db : Database) (c : StoredConversation) :
    KeepsMessage M k db (db.saveConversation c) ∧ AddsNoRow db (db.saveConversation c) := by
  obtain ⟨hmsgs, hdel, -, -⟩ := db.saveConversation_elsewhere c
  refine ⟨⟨fun r hr _ _ => ⟨r.sendState, hmsgs ▸ hr⟩, fun f _ _ hpos hv => ⟨fun c' hc' => ?_, ?_⟩⟩,
    addsNoRow_of_tables hmsgs ?_⟩
  · rcases db.saveConversation_conversation c k.threadId with heq | ⟨c'', h, hcases⟩
    · exact hv.1 c' (heq ▸ hc')
    · rw [hc'] at h
      cases h
      rcases hcases with ⟨-, h0⟩ | ⟨c₀, hc₀, heq, -⟩
      · exact h0 ▸ hpos
      · exact heq ▸ hv.1 c₀ hc₀
  · rw [isDeleted, hdel]
    exact hv.2
  · unfold saveConversation
    split <;> rfl

theorem clearLocalHistory_keepsMessage {t : Int} {confirmed : Bool} (ht : t ≠ k.threadId)
    (h : db.clearLocalHistory t confirmed = .ok db') : KeepsMessage M k db db' := by
  unfold clearLocalHistory at h
  split at h
  · cases h
  split at h
  · cases h
  split at h
  · cases h
  cases h
  refine ⟨fun r hr hkey _ => ⟨r.sendState, Table.mem_delete.mpr ⟨hr, decide_eq_false ?_⟩⟩,
    fun f _ _ _ hv => ⟨fun c hc => hv.1 c ?_, hv.2⟩⟩
  · rintro ⟨hrt, -⟩
    exact ht (hrt.symm.trans hkey.1)
  · have hsame := Keyed.lookup_modify db.conversations t
      (fun c => { c with hiddenBeforeId := db.clearBoundary c, summary := "" }) (fun _ => rfl)
      k.threadId
    rw [if_neg (Ne.symm ht)] at hsame
    exact hsame.symm.trans hc

theorem clearLocalHistory_addsNoRow {t : Int} {confirmed : Bool}
    (h : db.clearLocalHistory t confirmed = .ok db') : AddsNoRow db db' := by
  unfold clearLocalHistory at h
  split at h
  · cases h
  split at h
  · cases h
  split at h
  · cases h
  cases h
  exact ⟨fun r hr => ⟨r, (Table.mem_delete.mp hr).1, r.sendState, rfl⟩, rfl⟩

theorem deleteLocalMessage_keepsMessage {t s : Int}
    (hspare : t = k.threadId → ∀ f ∈ M, f.Of k → f.serverId ≠ s) :
    KeepsMessage M k db (db.deleteLocalMessage t s) := by
  refine ⟨fun r hr hkey hserver => ⟨r.sendState, Table.mem_delete.mpr ⟨hr, decide_eq_false ?_⟩⟩,
    fun f hf hk _ hv => ⟨fun c hc => ?_, ?_⟩⟩
  · rintro ⟨hrt, hs⟩
    obtain ⟨f, hf, hk, he⟩ := hserver s hs
    exact hspare (hrt.symm.trans hkey.1) f hf hk he
  · rw [deleteLocalMessage_conversation] at hc
    split at hc
    · obtain ⟨c₀, hc₀, rfl⟩ := Option.map_eq_some_iff.mp hc
      have := hv.1 c₀ hc₀
      split <;> exact this
    · exact hv.1 c hc
  · rw [deleteLocalMessage_isDeleted]
    rintro (⟨ht, he⟩ | hdel)
    · exact hspare ht.symm f hf hk he
    · exact hv.2 hdel

theorem deleteLocalMessages_keepsMessage {t : Int} {ids : List Int}
    (hspare : t = k.threadId → ∀ f ∈ M, f.Of k → f.serverId ∉ ids)
    (h : db.deleteLocalMessages t ids = .ok db') : KeepsMessage M k db db' := by
  have hspare' : ∀ s ∈ ids.dedup, t = k.threadId → ∀ f ∈ M, f.Of k → f.serverId ≠ s :=
    fun s hs ht f hf hk he => hspare ht f hf hk (he ▸ List.mem_dedup.mp hs)
  rw [deleteLocalMessages_eq h]
  clear h hspare
  generalize ids.dedup = ids at hspare'
  induction ids generalizing db with
  | nil => exact .refl db
  | cons s ids ih =>
    have h1 : KeepsMessage M k db (db.deleteLocalMessage t s) :=
      deleteLocalMessage_keepsMessage (hspare' s List.mem_cons_self)
    exact h1.trans (ih fun s' hs' => hspare' s' (List.mem_cons_of_mem _ hs'))

theorem deleteLocalMessage_addsNoRow (db : Database) (t s : Int) :
    AddsNoRow db (db.deleteLocalMessage t s) where
  rows r hr := ⟨r, (Table.mem_delete.mp hr).1, r.sendState, rfl⟩
  attachments := rfl

theorem deleteLocalMessages_addsNoRow {t : Int} {ids : List Int}
    (h : db.deleteLocalMessages t ids = .ok db') : AddsNoRow db db' := by
  rw [deleteLocalMessages_eq h]
  exact foldl_relates AddsNoRow AddsNoRow.refl (fun _ _ _ => AddsNoRow.trans)
    (fun db s => deleteLocalMessage_addsNoRow db t s) _ db

/-- Every operation but the saves of messages and attachments. -/
theorem run_keepsMessage {op : Operation} (h : op.run db = .ok db')
    (hsave : ∀ ms t cursor d, op ≠ .saveMessages ms t cursor d) (hatt : op.isSaveAttachment = false) :
    (op.Spares M k → KeepsMessage M k db db') ∧ AddsNoRow db db' := by
  cases op with
  | openAccount =>
    have := openAccount_keepsMessage (M := M) (k := k) h
    exact ⟨fun _ => this.1, this.2⟩
  | saveConversations cs =>
    cases h
    have := foldl_relates (fun a b => KeepsMessage M k a b ∧ AddsNoRow a b)
      (fun db => ⟨.refl db, .refl db⟩) (fun _ _ _ h h' => ⟨h.1.trans h'.1, h.2.trans h'.2⟩)
      saveConversation_keepsMessage cs db
    exact ⟨fun _ => this.1, this.2⟩
  | forgetGroupProfile t =>
    cases h
    exact ⟨fun _ => keepsMessage_of_tables rfl rfl rfl, addsNoRow_of_tables rfl rfl⟩
  | saveMessages ms t cursor d => exact absurd rfl (hsave ms t cursor d)
  | saveDraft t draft =>
    cases h
    obtain ⟨hconv, hmsgs, hdel, -, -⟩ := db.saveDraft_tables t draft
    refine ⟨fun _ => keepsMessage_of_tables hconv hmsgs hdel, addsNoRow_of_tables hmsgs ?_⟩
    unfold saveDraft
    apply foldl_relates fun a b : Database => b.attachments = a.attachments
    · exact fun _ => rfl
    · exact fun _ _ _ h h' => h'.trans h
    · exact fun _ _ => rfl
  | markUnconfirmed id failed =>
    cases h
    have := @mapMessages_keepsMessage M k db
      (fun r => if r.uniqueId = some id ∧ r.serverId = none then
        { r with sendState := if failed then 3 else 2 } else r)
      (fun r => by split <;> exact ⟨rfl, rfl, rfl, rfl, rfl⟩) fun r => by
        split
        · exact ⟨_, rfl⟩
        · exact ⟨r.sendState, rfl⟩
    exact ⟨fun _ => this.1, this.2⟩
  | saveAttachment a => cases hatt
  | clearLocalHistory t confirmed =>
    exact ⟨fun ht => clearLocalHistory_keepsMessage ht h, clearLocalHistory_addsNoRow h⟩
  | deleteLocalMessages t ids =>
    exact ⟨fun hspare => deleteLocalMessages_keepsMessage hspare h, deleteLocalMessages_addsNoRow h⟩

end Database
end CppChat.LocalStore
