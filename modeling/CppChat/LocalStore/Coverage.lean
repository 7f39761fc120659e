import CppChat.LocalStore.Safety

/-! # Server messages the store accounts for

A server message is accounted for when it is stored, hidden by a clear or deleted locally.
Messages of the server never merge with each other, so an accounted message stays so.
-/
namespace CppChat.LocalStore
open Foundation

/-- The identity of a message as the server tells it. -/
structure Confirmation where
  threadId : Int
  serverId : Int
  senderUid : Int
  uniqueId : String
  deriving DecidableEq

def StoredMessage.confirmation (m : StoredMessage) : Confirmation :=
  ⟨m.threadId, m.serverId, m.senderUid, m.uniqueId⟩

def Confirmation.Shows (f : Confirmation) (r : MessageRow) : Prop :=
  r.threadId = f.threadId ∧ r.serverId = some f.serverId ∧ r.senderUid = f.senderUid ∧
    r.uniqueId = if f.uniqueId = "" then none else some f.uniqueId

/-- What the server tells: one sender for each id, and one id for each unique id. -/
structure Confirmations (M : Set Confirmation) : Prop where
  sender : ∀ f ∈ M, ∀ g ∈ M, f.threadId = g.threadId → f.serverId = g.serverId →
    f.senderUid = g.senderUid
  uuid : ∀ f ∈ M, ∀ g ∈ M, f.threadId = g.threadId → f.senderUid = g.senderUid →
    f.uniqueId = g.uniqueId → f.uniqueId ≠ "" → f.serverId = g.serverId

/-- The messages an operation stores as confirmed are messages of the server. -/
def Operation.Tells (M : Set Confirmation) : Operation → Prop
  | .saveMessages ms _ _ _ => ∀ m ∈ ms, 0 < m.serverId → m.confirmation ∈ M
  | _ => True

namespace Database

variable {M : Set Confirmation} {db db' : Database} {m : StoredMessage} {result : SaveResult}
  {t i : Int}

/-- Every confirmed row shows a message of the server. -/
def Known (M : Set Confirmation) (db : Database) : Prop :=
  ∀ x ∈ db.records, x.serverId ≠ none → ∃ f ∈ M, f.Shows x

def Suppressed (db : Database) (t i : Int) : Prop :=
  (∃ c, db.conversation? t = some c ∧ i ≤ c.hiddenBeforeId) ∨ db.isDeleted t i

/-- Stored or suppressed. -/
def Accounts (db : Database) (t i : Int) : Prop :=
  (∃ x ∈ db.records, x.threadId = t ∧ x.serverId = some i) ∨ db.Suppressed t i

structure Keeps (M : Set Confirmation) (db db' : Database) : Prop where
  known : Known M db → Known M db'
  accounts : Known M db → ∀ t i, db.Accounts t i → db'.Accounts t i

theorem Keeps.refl (db : Database) : Keeps M db db := ⟨id, fun _ _ _ => id⟩

theorem Keeps.trans {db'' : Database} (h : Keeps M db db') (h' : Keeps M db' db'') :
    Keeps M db db'' :=
  ⟨fun hk => h'.known (h.known hk), fun hk t i ha => h'.accounts (h.known hk) t i (h.accounts hk t i ha)⟩

theorem Suppressed.mono (hgrows : Grows db db')
    (hdel : ∀ t i, db.isDeleted t i → db'.isDeleted t i) (h : db.Suppressed t i) :
    db'.Suppressed t i := by
  rcases h with ⟨c, hc, hle⟩ | h
  · obtain ⟨c', hc', hh, -⟩ := hgrows t c hc
    exact .inl ⟨c', hc', hle.trans hh⟩
  · exact .inr (hdel t i h)

/-- An operation whose rows were there before, and whose lost rows are suppressed. -/
theorem keeps_of_records (hgrows : Grows db db')
    (hdel : ∀ t i, db.isDeleted t i → db'.isDeleted t i)
    (hback : ∀ x ∈ db'.records, x.serverId ≠ none → ∃ y ∈ db.records, x.threadId = y.threadId ∧
      x.serverId = y.serverId ∧ x.senderUid = y.senderUid ∧ x.uniqueId = y.uniqueId)
    (hforth : ∀ x ∈ db.records, ∀ i, x.serverId = some i → db'.Accounts x.threadId i) :
    Keeps M db db' := by
  constructor
  · intro hk x hx hs
    obtain ⟨y, hy, ht, hserver, hsender, huuid⟩ := hback x hx hs
    obtain ⟨f, hf, hshows⟩ := hk y hy (hserver ▸ hs)
    refine ⟨f, hf, ?_⟩
    rwa [Confirmation.Shows, ht, hserver, hsender, huuid]
  · rintro - t i (⟨x, hx, rfl, hs⟩ | h)
    · exact hforth x hx i hs
    · exact .inr (h.mono hgrows hdel)

theorem keeps_of_messages (hgrows : Grows db db')
    (hdel : ∀ t i, db.isDeleted t i → db'.isDeleted t i) (hmsgs : db'.messages = db.messages) :
    Keeps M db db' := by
  have hrecords : db'.records = db.records := by rw [records, hmsgs, records]
  refine keeps_of_records hgrows hdel (fun x hx _ => ⟨x, hrecords ▸ hx, rfl, rfl, rfl, rfl⟩)
    fun x hx i hs => .inl ⟨x, hrecords ▸ hx, rfl, hs⟩

/-- An update of columns outside every key. -/
theorem mapMessages_keeps {f : MessageRow → MessageRow} (hf : ∀ r, (f r).SameKeys r) :
    Keeps M db (db.mapMessages f hf) := by
  have hmem : ∀ x, x ∈ (db.mapMessages f hf).records ↔ ∃ r ∈ db.messages.rows, (f r).record = x := by
    intro x
    simp [records, mapMessages, Table.map_rows]
  refine keeps_of_records (Grows.of_eq rfl) (fun _ _ h => h) (fun x hx _ => ?_) fun x hx i hs => ?_
  · obtain ⟨r, hr, rfl⟩ := (hmem x).mp hx
    exact ⟨r.record, mem_records_of_mem hr, (hf r).threadId, (hf r).serverId, (hf r).senderUid,
      (hf r).uniqueId⟩
  · obtain ⟨r, hr, rfl⟩ := List.mem_map.mp hx
    exact .inl ⟨(f r).record, (hmem _).mpr ⟨r, hr, rfl⟩, (hf r).threadId, (hf r).serverId.trans hs⟩

/-! ## Saving a message -/

/-- A confirmed copy of a server message is this very message. -/
theorem Known.copy (hk : Known M db) (hM : Confirmations M) (hm : m.confirmation ∈ M)
    {x : MessageRow} (hx : x ∈ db.records) (hcopy : IsCopy m x) (hs : x.serverId ≠ none) :
    x.serverId = some m.serverId ∧ x.senderUid = m.senderUid := by
  obtain ⟨f, hf, ht, hserver, hsender, huuid⟩ := hk x hx hs
  have hthread : f.threadId = m.confirmation.threadId := ht.symm.trans hcopy.1
  rcases hcopy.2 with ⟨-, hsame⟩ | ⟨hsame, hsameUuid, hne⟩
  · refine ⟨hsame, ?_⟩
    rw [hsender]
    exact hM.sender f hf _ hm hthread (Option.some_inj.mp (hserver.symm.trans hsame))
  · refine ⟨?_, hsame⟩
    rw [hsameUuid] at huuid
    split at huuid
    · cases huuid
    next hfne =>
      rw [hserver, hM.uuid f hf _ hm hthread (hsender.symm.trans hsame)
        (Option.some_inj.mp huuid).symm hfne]
      rfl

/-- The row written for a server message shows a server message. -/
theorem Writes.shows {w : MessageRow} (hwrites : Writes db m w result) (hk : Known M db)
    (hM : Confirmations M) (hm : m.confirmation ∈ M) (hpos : 0 < m.serverId) :
    ∃ f ∈ M, f.Shows w := by
  obtain ⟨ht, hs, -⟩ := hwrites.shape
  rw [serverColumn_of_pos hpos] at hs
  cases hwrites with
  | insert hnil => exact ⟨_, hm, ht, hs, rfl, rfl⟩
  | @update row duplicates hcopies hlate =>
    obtain ⟨hrow, hcopy⟩ := mem_findCopies.mp (hcopies ▸ List.mem_cons_self)
    have hold : m.uniqueId = "" → ∃ f ∈ M, f.Shows (row.merge m) := by
      intro hempty
      have hconfirmed : row.serverId ≠ none := by
        intro hnone
        rcases hcopy.2 with ⟨-, hsame⟩ | ⟨-, -, hne⟩
        · rw [hnone] at hsame
          cases hsame
        · exact hne hempty
      obtain ⟨hserver, -⟩ := hk.copy hM hm (mem_records_of_mem hrow) hcopy hconfirmed
      obtain ⟨f, hf, hft, hfs, hfsender, hfuuid⟩ := hk _ (mem_records_of_mem hrow) hconfirmed
      refine ⟨f, hf, hft, hs.trans (hserver.symm.trans hfs), hfsender, ?_⟩
      have huuid : (row.merge m).uniqueId = row.uniqueId := by
        simp [MessageRow.merge, StoredMessage.uuidColumn, hempty]
      exact huuid.trans hfuuid
    by_cases hempty : m.uniqueId = ""
    · exact hold hempty
    · have hsender : row.senderUid = m.senderUid := by
        by_cases hnone : row.serverId = none
        · rcases hcopy.2 with ⟨-, hsame⟩ | ⟨hsame, -⟩
          · rw [hnone] at hsame
            cases hsame
          · exact hsame
        · exact (hk.copy hM hm (mem_records_of_mem hrow) hcopy hnone).2
      refine ⟨_, hm, ht, hs, hsender, ?_⟩
      simp [MessageRow.merge, StoredMessage.uuidColumn, StoredMessage.confirmation, hempty]

/-- A save keeps every accounted message, and accounts for its own. -/
theorem saveMessage_keeps (hM : Confirmations M) (hm : 0 < m.serverId → m.confirmation ∈ M)
    (h : db.saveMessage m = .ok (result, db')) :
    Keeps M db db' ∧ (0 < m.serverId → db'.Accounts m.threadId m.serverId) := by
  have hgrows := (saveMessage_preserves h).grows
  have hdel : ∀ t i, db.isDeleted t i → db'.isDeleted t i :=
    fun t i => ((saveMessage_elsewhere h).isDeleted t i).mpr
  obtain ⟨-, c, hc, hcases⟩ := saveMessage_cases h
  rcases hcases with ⟨hpos, hle, -, rfl⟩ | ⟨hpos, -, hdeleted, -, rfl⟩ | ⟨hvisible, hmerge⟩
  · refine ⟨keeps_of_records hgrows hdel (fun x hx _ => ⟨x, ?_, rfl, rfl, rfl, rfl⟩)
      fun x hx i hs => ?_, fun _ => .inr (.inl ⟨c, hc, hle⟩)⟩
    · obtain ⟨r, hr, rfl⟩ := List.mem_map.mp hx
      exact mem_records_of_mem (Table.mem_delete.mp hr).1
    · obtain ⟨r, hr, rfl⟩ := List.mem_map.mp hx
      refine .inl ⟨r.record, mem_records_of_mem (Table.mem_delete.mpr ⟨hr, ?_⟩), rfl, hs⟩
      refine decide_eq_false fun hpending => ?_
      have hs : r.serverId = some i := hs
      rw [hpending.2.2.2] at hs
      cases hs
  · exact ⟨.refl _, fun _ => .inr (.inr hdeleted)⟩
  rcases mergeMessage_cases hmerge with ⟨_, -, -, -, hle, -, rfl⟩ | ⟨w, hwrites, hwrote⟩
  · exact ⟨.refl _, fun hpos => absurd hpos (not_lt.mpr hle)⟩
  obtain ⟨ht, hs, -⟩ := hwrites.shape
  have hw : w.record ∈ db'.records := (hwrote.records _).mpr (.inl rfl)
  have hown : 0 < m.serverId → db'.Accounts m.threadId m.serverId := fun hpos =>
    .inl ⟨w.record, hw, ht, hs.trans (serverColumn_of_pos hpos)⟩
  refine ⟨⟨fun hk x hx hne => ?_, fun hk t i ha => ?_⟩, hown⟩
  · rcases (hwrote.records x).mp hx with rfl | ⟨hold, -⟩
    · have hpos : 0 < m.serverId := by
        by_contra hneg
        exact hne (hs.trans (serverColumn_of_not_pos hneg))
      exact hwrites.shows hk hM (hm hpos) hpos
    · exact hk x hold hne
  · rcases ha with ⟨x, hx, rfl, hserver⟩ | hsuppressed
    · by_cases hcopy : IsCopy m x
      · obtain ⟨r, hr, rfl⟩ := List.mem_map.mp hx
        have hne : r.serverId ≠ none := by
          intro hnone
          exact absurd (hnone.symm.trans hserver) (by simp)
        by_cases hpos : 0 < m.serverId
        · obtain ⟨hsame, -⟩ := hk.copy hM (hm hpos) hx hcopy hne
          have hi : i = m.serverId := Option.some_inj.mp (hserver.symm.trans hsame)
          have hthread : r.record.threadId = m.threadId := hcopy.1
          rw [hi, hthread]
          exact hown hpos
        · have hkept := unconfirmed_save_keeps (not_lt.mp hpos) h hr hne
          exact .inl ⟨_, hkept.2, rfl, hserver⟩
      · exact .inl ⟨x, (hwrote.records x).mpr (.inr ⟨hx, hcopy⟩), rfl, hserver⟩
    · exact .inr (hsuppressed.mono hgrows hdel)

theorem saveAll_keeps (hM : Confirmations M) {ms : List StoredMessage} {reply : ChatStoreResult}
    (hms : ∀ m ∈ ms, 0 < m.serverId → m.confirmation ∈ M)
    (h : db.saveAll ms = .ok (reply, db')) :
    Keeps M db db' ∧ (Known M db → ∀ m ∈ ms, 0 < m.serverId → db'.Accounts m.threadId m.serverId) := by
  induction ms generalizing db reply with
  | nil =>
    cases h
    exact ⟨.refl _, by simp⟩
  | cons m ms ih =>
    obtain ⟨⟨outcome, db1⟩, h1, h⟩ := bind_eq_ok.mp h
    obtain ⟨⟨reply', db2⟩, h2, h⟩ := bind_eq_ok.mp h
    cases h
    obtain ⟨hkeeps, hown⟩ := saveMessage_keeps hM (hms m List.mem_cons_self) h1
    obtain ⟨hrest, hothers⟩ := ih (fun x hx => hms x (List.mem_cons_of_mem _ hx)) h2
    refine ⟨hkeeps.trans hrest, fun hk x hx hpos => ?_⟩
    rcases List.mem_cons.mp hx with rfl | hx
    · exact hrest.accounts (hkeeps.known hk) _ _ (hown hpos)
    · exact hothers (hkeeps.known hk) x hx hpos

/-- A saved page accounts for its messages. -/
theorem saveMessages_keeps (hM : Confirmations M) {ms : List StoredMessage} {cursor d : Int}
    {reply : ChatStoreResult} (hms : ∀ m ∈ ms, 0 < m.serverId → m.confirmation ∈ M)
    (h : db.saveMessages ms t cursor d = .ok (reply, db')) :
    Keeps M db db' ∧ (Known M db → ∀ m ∈ ms, 0 < m.serverId → db'.Accounts m.threadId m.serverId) := by
  obtain ⟨-, db1, hall, rfl⟩ := saveMessages_eq h
  obtain ⟨hkeeps, hown⟩ := saveAll_keeps hM hms hall
  obtain ⟨hconv, hmsgs, hdel⟩ := db1.finish_tables t cursor d
  have hfinish : Keeps M db1 ((db1.advanceCursor t cursor).clearDraft d) := by
    refine keeps_of_messages (Grows.of_eq hconv) (fun t i h => ?_) hmsgs
    rwa [isDeleted, hdel]
  exact ⟨hkeeps.trans hfinish, fun hk m hm hpos =>
    hfinish.accounts (hkeeps.known hk) _ _ (hown hk m hm hpos)⟩

/-! ## The other operations -/

theorem openAccount_keeps (h : db.openAccount = .ok db') : Keeps M db db' := by
  unfold openAccount at h
  split at h
  · cases h
  · cases h
    have hreset : Keeps M db (if db.userVersion < 4 then db.resetVoiceCursors else db) := by
      split
      · exact keeps_of_messages (Grows.of_eq rfl) (fun _ _ h => h) rfl
      · exact .refl db
    have hinterrupt (db : Database) : Keeps M db db.interruptSending := mapMessages_keeps _
    refine hreset.trans ((hinterrupt _).trans ?_)
    exact keeps_of_messages (Grows.of_eq rfl) (fun _ _ h => h) rfl

theorem saveConversations_keeps (db : Database) (cs : List StoredConversation) :
    Keeps M db (db.saveConversations cs) := by
  refine foldl_relates (Keeps M) Keeps.refl (fun _ _ _ => Keeps.trans) (fun db c => ?_) cs db
  obtain ⟨hmsgs, hdel, -, -⟩ := db.saveConversation_elsewhere c
  refine keeps_of_messages (db.saveConversation_preserves c).grows (fun t i h => ?_) hmsgs
  rwa [isDeleted, hdel]

/-- A clear moves the boundary past every confirmed row it removes. -/
theorem clearLocalHistory_keeps {confirmed : Bool} (h : db.clearLocalHistory t confirmed = .ok db') :
    Keeps M db db' := by
  have hgrows := (clearLocalHistory_preserves h).grows
  unfold clearLocalHistory at h
  split at h
  · cases h
  split at h
  · cases h
  next c hc =>
    split at h
    · cases h
    cases h
    refine keeps_of_records hgrows (fun _ _ h => h) (fun x hx _ => ⟨x, ?_, rfl, rfl, rfl, rfl⟩)
      fun x hx i hs => ?_
    · obtain ⟨r, hr, rfl⟩ := List.mem_map.mp hx
      exact mem_records_of_mem (Table.mem_delete.mp hr).1
    · obtain ⟨r, hr, rfl⟩ := List.mem_map.mp hx
      have hs : r.serverId = some i := hs
      by_cases ht : r.threadId = t
      · refine .inr (.inl ⟨{ c with hiddenBeforeId := db.clearBoundary c, summary := "" }, ?_, ?_⟩)
        · have hnew := Keyed.lookup_modify db.conversations t
            (fun c => { c with hiddenBeforeId := db.clearBoundary c, summary := "" }) (fun _ => rfl) t
          have hold : Keyed.lookup db.conversations t = some c := hc
          rw [if_pos rfl, hold] at hnew
          exact ht ▸ hnew
        · have hct : c.threadId = t := Keyed.lookup_key hc
          have hmem : i ∈ db.messages.rows.filterMap fun r =>
              if r.threadId = c.threadId then r.serverId else none := by
            refine List.mem_filterMap.mpr ⟨r, hr, ?_⟩
            rw [if_pos (ht.trans hct.symm), hs]
          obtain ⟨k, hk⟩ := Option.ne_none_iff_exists'.mp
            fun hnone => List.ne_nil_of_mem hmem (List.max?_eq_none_iff.mp hnone)
          refine le_trans ?_ (le_max_right _ _)
          rw [hk]
          exact (List.max?_le_iff hk).mp le_rfl i hmem
      · refine .inl ⟨r.record, mem_records_of_mem (Table.mem_delete.mpr ⟨hr, ?_⟩), rfl, hs⟩
        exact decide_eq_false fun hdeleted => ht hdeleted.1

theorem deleteLocalMessage_keeps (db : Database) (t s : Int) :
    Keeps M db (db.deleteLocalMessage t s) := by
  have hdel := db.deleteLocalMessage_isDeleted t s
  refine keeps_of_records (db.deleteLocalMessage_preserves t s).grows
    (fun t' i h => (hdel t' i).mpr (.inr h)) (fun x hx _ => ⟨x, ?_, rfl, rfl, rfl, rfl⟩)
    fun x hx i hs => ?_
  · obtain ⟨r, hr, rfl⟩ := List.mem_map.mp hx
    exact mem_records_of_mem (Table.mem_delete.mp hr).1
  · obtain ⟨r, hr, rfl⟩ := List.mem_map.mp hx
    have hs : r.serverId = some i := hs
    by_cases hmatch : r.threadId = t ∧ i = s
    · exact .inr (.inr ((hdel _ _).mpr (.inl hmatch)))
    · refine .inl ⟨r.record, mem_records_of_mem (Table.mem_delete.mpr ⟨hr, ?_⟩), rfl, hs⟩
      refine decide_eq_false fun hdeleted => hmatch ⟨hdeleted.1, ?_⟩
      exact Option.some_inj.mp (hs.symm.trans hdeleted.2)

/-- One lemma for all operations. -/
theorem run_keeps (hM : Confirmations M) {op : Operation} (htells : op.Tells M)
    (h : op.run db = .ok db') : Keeps M db db' := by
  cases op with
  | openAccount => exact openAccount_keeps h
  | saveConversations cs =>
    cases h
    exact db.saveConversations_keeps cs
  | forgetGroupProfile t =>
    cases h
    exact keeps_of_messages (Grows.of_eq rfl) (fun _ _ h => h) rfl
  | saveMessages ms t cursor d =>
    obtain ⟨reply, h⟩ := saveMessages_run h
    exact (saveMessages_keeps hM htells h).1
  | saveDraft t draft =>
    cases h
    obtain ⟨hconv, hmsgs, hdel, -⟩ := db.saveDraft_tables t draft
    refine keeps_of_messages (Grows.of_eq hconv) (fun t i h => ?_) hmsgs
    rwa [isDeleted, hdel]
  | markUnconfirmed id failed =>
    cases h
    exact mapMessages_keeps _
  | saveAttachment a =>
    cases h
    have hrelease (db : Database) : Keeps M db (db.releaseDuplicates a) := mapMessages_keeps _
    refine Keeps.trans ?_ (hrelease _)
    exact keeps_of_messages (Grows.of_eq rfl) (fun _ _ h => h) rfl
  | clearLocalHistory t confirmed => exact clearLocalHistory_keeps h
  | deleteLocalMessages t ids =>
    rw [deleteLocalMessages_eq h]
    exact foldl_relates (Keeps M) Keeps.refl (fun _ _ _ => Keeps.trans)
      (fun db id => db.deleteLocalMessage_keeps t id) _ db

end Database
end CppChat.LocalStore
