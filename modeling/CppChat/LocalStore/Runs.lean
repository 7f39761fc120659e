import CppChat.LocalStore.Invariant

/-! # The store over whole runs

One lemma for each operation, then one for a call of any operation, then the invariant of
every reachable database and the relation between the two ends of every run.
-/
namespace CppChat.LocalStore
open Foundation
namespace Database

variable {db db' : Database} {m : StoredMessage} {result : SaveResult}

/-! ## One operation -/

/-- Saving a conversation inserts it unhidden, or moves its newest id forward. -/
theorem saveConversation_conversation (db : Database) (c : StoredConversation) (t : Int) :
    (db.saveConversation c).conversation? t = db.conversation? t ∨
      ∃ c', (db.saveConversation c).conversation? t = some c' ∧
        ((db.conversation? t = none ∧ c'.hiddenBeforeId = 0) ∨
          ∃ c₀, db.conversation? t = some c₀ ∧ c'.hiddenBeforeId = c₀.hiddenBeforeId ∧
            c₀.lastServerId ≤ c'.lastServerId) := by
  have hlookup : (db.saveConversation c).conversation? t =
      if t = c.threadId then some ((db.conversation? t).elim c.toRow fun old => old.merge c)
      else db.conversation? t := by
    unfold saveConversation
    split <;> exact Keyed.lookup_upsert db.conversations c.toRow (fun old => old.merge c) _ t
  by_cases ht : t = c.threadId
  · rw [if_pos ht] at hlookup
    refine .inr ⟨_, hlookup, ?_⟩
    cases hold : db.conversation? t with
    | none => exact .inl ⟨rfl, rfl⟩
    | some c₀ => exact .inr ⟨c₀, rfl, rfl, le_max_left _ _⟩
  · rw [if_neg ht] at hlookup
    exact .inl hlookup

/-- The tables a conversation list never touches. -/
theorem saveConversation_elsewhere (db : Database) (c : StoredConversation) :
    (db.saveConversation c).messages = db.messages ∧
      (db.saveConversation c).deletedMessages = db.deletedMessages ∧
      (db.saveConversation c).syncState = db.syncState ∧
      (db.saveConversation c).userVersion = db.userVersion := by
  unfold saveConversation
  split <;> exact ⟨rfl, rfl, rfl, rfl⟩

theorem saveConversation_preserves (db : Database) (c : StoredConversation) :
    Preserves db (db.saveConversation c) := by
  obtain ⟨hmsgs, hdel, -, -⟩ := db.saveConversation_elsewhere c
  constructor
  · intro hl r hr
    rw [hmsgs] at hr
    refine (hl r hr).move (fun c' hc' => ?_) fun s _ hd => ?_
    · rcases db.saveConversation_conversation c r.threadId with heq | ⟨c'', h, hcases⟩
      · exact .inr ⟨c', heq ▸ hc', le_rfl⟩
      · rw [hc'] at h
        cases h
        rcases hcases with ⟨-, h0⟩ | ⟨c₀, hc₀, heq, -⟩
        · exact .inl h0.le
        · exact .inr ⟨c₀, hc₀, heq.le⟩
    · rwa [isDeleted, hdel] at hd
  · intro t c₀ hc₀
    rcases db.saveConversation_conversation c t with heq | ⟨c', h, hcases⟩
    · exact ⟨c₀, heq.trans hc₀, le_rfl, le_rfl⟩
    · rcases hcases with ⟨hnone, -⟩ | ⟨c₁, hc₁, heq, hle⟩
      · rw [hc₀] at hnone
        cases hnone
      · rw [hc₀] at hc₁
        cases hc₁
        exact ⟨c', h, heq.ge, hle⟩

/-- What one list element keeps, the whole list keeps. -/
theorem foldl_relates {α : Type*} (R : Database → Database → Prop) {f : Database → α → Database}
    (hrefl : ∀ db, R db db) (htrans : ∀ a b c, R a b → R b c → R a c)
    (hstep : ∀ db a, R db (f db a)) (l : List α) (db : Database) : R db (l.foldl f db) := by
  induction l generalizing db with
  | nil => exact hrefl db
  | cons a l ih => exact htrans _ _ _ (hstep db a) (ih (f db a))

theorem saveConversations_preserves (db : Database) (cs : List StoredConversation) :
    Preserves db (db.saveConversations cs) :=
  foldl_relates Preserves Preserves.refl (fun _ _ _ => Preserves.trans) saveConversation_preserves cs db

theorem saveDraft_tables (db : Database) (thread : Int) (draft : List MsgInfo) :
    (db.saveDraft thread draft).conversations = db.conversations ∧
      (db.saveDraft thread draft).messages = db.messages ∧
      (db.saveDraft thread draft).deletedMessages = db.deletedMessages ∧
      (db.saveDraft thread draft).syncState = db.syncState ∧
      (db.saveDraft thread draft).userVersion = db.userVersion := by
  unfold saveDraft
  apply foldl_relates fun a b : Database => b.conversations = a.conversations ∧
    b.messages = a.messages ∧ b.deletedMessages = a.deletedMessages ∧
    b.syncState = a.syncState ∧ b.userVersion = a.userVersion
  · exact fun _ => ⟨rfl, rfl, rfl, rfl, rfl⟩
  · rintro a b c ⟨h1, h2, h3, h4, h5⟩ ⟨h1', h2', h3', h4', h5'⟩
    exact ⟨h1'.trans h1, h2'.trans h2, h3'.trans h3, h4'.trans h4, h5'.trans h5⟩
  · exact fun _ _ => ⟨rfl, rfl, rfl, rfl, rfl⟩

theorem saveDraft_preserves (db : Database) (thread : Int) (draft : List MsgInfo) :
    Preserves db (db.saveDraft thread draft) := by
  obtain ⟨hconv, hmsgs, hdel, -, -⟩ := db.saveDraft_tables thread draft
  refine preserves_of_rows hconv hdel fun r hr => ⟨r, ?_, rfl, rfl, .inl rfl⟩
  rwa [hmsgs] at hr

/-- An update of columns outside every key that moves only pending rows to an open state. -/
theorem mapMessages_preserves {f : MessageRow → MessageRow} (hf : ∀ r, (f r).SameKeys r)
    (hstate : ∀ r, (f r).sendState = r.sendState ∨ (r.serverId = none ∧ (f r).sendState ≠ 1)) :
    Preserves db (db.mapMessages f hf) := by
  refine preserves_of_rows rfl rfl fun r' hr' => ?_
  obtain ⟨r, hr, rfl⟩ := List.mem_map.mp hr'
  exact ⟨r, hr, (hf r).threadId, (hf r).serverId, hstate r⟩

theorem markUnconfirmed_preserves (db : Database) (id : String) (failed : Bool) :
    Preserves db (db.markUnconfirmed id failed) := by
  refine mapMessages_preserves _ fun r => ?_
  split
  next h => exact .inr ⟨h.2, by cases failed <;> simp⟩
  next => exact .inl rfl

theorem interruptSending_preserves (db : Database) : Preserves db db.interruptSending := by
  refine mapMessages_preserves _ fun r => ?_
  split
  next h => exact .inr ⟨h.1, by simp⟩
  next => exact .inl rfl

theorem releaseDuplicates_preserves (db : Database) (a : Attachment) :
    Preserves db (db.releaseDuplicates a) := by
  refine mapMessages_preserves _ fun r => ?_
  split <;> exact .inl rfl

theorem recordAttachment_preserves (db : Database) (a : Attachment) :
    Preserves db (db.recordAttachment a) := by
  refine Preserves.trans ?_ (releaseDuplicates_preserves _ a)
  exact preserves_of_rows rfl rfl fun r hr => ⟨r, hr, rfl, rfl, .inl rfl⟩

theorem openAccount_preserves (h : db.openAccount = .ok db') : Preserves db db' := by
  unfold openAccount at h
  split at h
  · cases h
  · cases h
    have hreset : Preserves db (if db.userVersion < 4 then db.resetVoiceCursors else db) := by
      split
      · exact preserves_of_rows rfl rfl fun r hr => ⟨r, hr, rfl, rfl, .inl rfl⟩
      · exact .refl db
    refine hreset.trans ((interruptSending_preserves _).trans ?_)
    exact preserves_of_rows rfl rfl fun r hr => ⟨r, hr, rfl, rfl, .inl rfl⟩

theorem hidden_le_clearBoundary (db : Database) (c : Conversation) :
    c.hiddenBeforeId ≤ db.clearBoundary c :=
  (le_max_right _ _).trans (le_max_left _ _)

theorem clearLocalHistory_preserves {t : Int} {confirmed : Bool}
    (h : db.clearLocalHistory t confirmed = .ok db') : Preserves db db' := by
  unfold clearLocalHistory at h
  split at h
  · cases h
  split at h
  · cases h
  split at h
  · cases h
  cases h
  have hconv := Keyed.lookup_modify db.conversations t
    (fun c => { c with hiddenBeforeId := db.clearBoundary c, summary := "" }) fun _ => rfl
  constructor
  · intro hl r hr
    obtain ⟨hr, hkeep⟩ := Table.mem_delete.mp hr
    have hrow := hl r hr
    by_cases ht : r.threadId = t
    · have hnone : r.serverId = none := by simpa [ht] using hkeep
      refine ⟨hrow.state, hrow.positive, ?_, hrow.kept⟩
      intro s c hs
      rw [hnone] at hs
      cases hs
    · refine hrow.move (fun c' hc' => ?_) fun s _ hd => hd
      have hsame := hconv r.threadId
      rw [if_neg ht] at hsame
      exact .inr ⟨c', hsame.symm.trans hc', le_rfl⟩
  · intro t' c hc
    by_cases ht : t' = t
    · have hnew := hconv t'
      have hold : Keyed.lookup db.conversations t' = some c := hc
      rw [if_pos ht, hold] at hnew
      exact ⟨_, hnew, db.hidden_le_clearBoundary c, le_rfl⟩
    · have hsame := hconv t'
      rw [if_neg ht] at hsame
      exact ⟨c, hsame.trans hc, le_rfl, le_rfl⟩

theorem deleteLocalMessage_conversation (db : Database) (t s t' : Int) :
    (db.deleteLocalMessage t s).conversation? t' =
      if t' = t then (db.conversation? t').map fun c =>
        if c.lastServerId = s then { c with summary := deletedSummary } else c
      else db.conversation? t' :=
  Keyed.lookup_modify db.conversations t _ (fun c => by split <;> rfl) t'

theorem deleteLocalMessage_isDeleted (db : Database) (t s t' s' : Int) :
    (db.deleteLocalMessage t s).isDeleted t' s' ↔ (t' = t ∧ s' = s) ∨ db.isDeleted t' s' := by
  have hmem : ∀ (u : Keyed Tombstone id) (x : Tombstone), x ∈ u.rows ↔ Keyed.lookup u x = some x :=
    fun u x => by simp [Keyed.lookup_eq_some]
  simp only [isDeleted, hmem, deleteLocalMessage, Keyed.lookup_upsert]
  by_cases he : (⟨t', s'⟩ : Tombstone) = ⟨t, s⟩
  · obtain ⟨rfl, rfl⟩ : t' = t ∧ s' = s := by simpa using he
    cases hl : Keyed.lookup db.deletedMessages ⟨t', s'⟩ with
    | none => simp
    | some x =>
      have hx : x = ⟨t', s'⟩ := Keyed.lookup_key hl
      simp [hx]
  · have hne : ¬ (t' = t ∧ s' = s) := by simpa using he
    simp [he, hne]

theorem deleteLocalMessage_preserves (db : Database) (t s : Int) :
    Preserves db (db.deleteLocalMessage t s) := by
  have hconv := db.deleteLocalMessage_conversation t s
  constructor
  · intro hl r hr
    obtain ⟨hr, hkeep⟩ := Table.mem_delete.mp hr
    have hrow := hl r hr
    refine hrow.move (fun c' hc' => ?_) fun s' hs hd => ?_
    · rw [hconv] at hc'
      split at hc'
      · obtain ⟨c, hc, rfl⟩ := Option.map_eq_some_iff.mp hc'
        refine .inr ⟨c, hc, ?_⟩
        split <;> exact le_rfl
      · exact .inr ⟨c', hc', le_rfl⟩
    · rcases (db.deleteLocalMessage_isDeleted t s _ _).mp hd with ⟨ht, rfl⟩ | hd
      · simp [ht, hs] at hkeep
      · exact hd
  · intro t' c hc
    rw [hconv, hc]
    split
    · refine ⟨_, rfl, ?_⟩
      by_cases hs : c.lastServerId = s <;> simp [hs]
    · exact ⟨c, rfl, le_rfl, le_rfl⟩

theorem deleteLocalMessages_eq {t : Int} {ids : List Int}
    (h : db.deleteLocalMessages t ids = .ok db') :
    db' = ids.dedup.foldl (fun db id => db.deleteLocalMessage t id) db := by
  unfold deleteLocalMessages at h
  split at h
  · cases h
  split at h
  · cases h
  split at h
  · cases h
  cases h
  rfl

theorem deleteLocalMessages_preserves {t : Int} {ids : List Int}
    (h : db.deleteLocalMessages t ids = .ok db') : Preserves db db' := by
  rw [deleteLocalMessages_eq h]
  exact foldl_relates Preserves Preserves.refl (fun _ _ _ => Preserves.trans)
    (fun db id => db.deleteLocalMessage_preserves t id) _ db

end Database
end CppChat.LocalStore
