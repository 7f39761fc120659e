import CppChat.LocalStore.MediaSafety

/-! # Own media over whole runs -/
namespace CppChat.LocalStore
open Foundation
namespace Database

variable {M : Set ServerMessage} {k : MediaKey} {db db' : Database} {m : StoredMessage}
  {result : SaveResult} {r w : MessageRow} {image : Bytes} {last : Option Bytes}

/-- The row holds these bytes, or its message is confirmed and its attachment is cached. -/
def Available (db : Database) (r : MessageRow) (image : Bytes) : Prop :=
  r.localImage = some image ∨ (r.serverId ≠ none ∧ db.hasAttachment r.content = true)

/-- What holds of the message of a key, with the bytes that were last saved for it. -/
structure Kept (M : Set ServerMessage) (k : MediaKey) (db : Database) (last : Option Bytes) :
    Prop where
  consistent : Consistent M k.threadId db
  visible : ∀ f ∈ M, f.Of k → db.Visible k.threadId f
  row : ∀ image, last = some image → ∃ r ∈ db.messages.rows, r.HasKey k ∧ db.Available r image

/-- A confirmed row with a key shows the server's message of this key. -/
theorem Consistent.of_hasKey (hcons : Consistent M k.threadId db) (hr : r ∈ db.messages.rows)
    (hkey : r.HasKey k) {s : Int} (hs : r.serverId = some s) :
    ∃ f ∈ M, f.Of k ∧ f.serverId = s := by
  have hv : r.confirmed? = some ⟨s, r.senderUid, r.uniqueId, r.content, r.messageType, r.chatTime⟩ := by
    rw [MessageRow.confirmed?, hs]
    rfl
  obtain ⟨f, hf, he⟩ := hcons ⟨r, hr, hkey.1, hv⟩
  rw [← he] at hv
  obtain ⟨hid, hsender, huuid⟩ := confirmed?_eq_some hv
  refine ⟨f, hf, ⟨hsender.symm.trans hkey.2.1, ?_⟩, Option.some_inj.mp (hid.symm.trans hs)⟩
  rw [hkey.2.2] at huuid
  split at huuid
  · cases huuid
  · exact (Option.some_inj.mp huuid).symm

theorem AddsNoRow.consistent {t : Int} (h : AddsNoRow db db') (hcons : Consistent M t db) :
    Consistent M t db' := by
  rintro v ⟨r', hr', ht, hv⟩
  obtain ⟨r, hr, state, rfl⟩ := h.rows r' hr'
  exact hcons ⟨r, hr, ht, hv⟩

theorem Kept.of_keepsMessage (hk : Kept M k db last) (hM : ServerHistory M)
    (h : KeepsMessage M k db db') (h' : AddsNoRow db db') : Kept M k db' last where
  consistent := h'.consistent hk.consistent
  visible f hf hof := h.visible f hf hof (hM.positive f hf) (hk.visible f hf hof)
  row image hlast := by
    obtain ⟨r, hr, hkey, havail⟩ := hk.row image hlast
    obtain ⟨state, hr'⟩ := h.forth r hr hkey fun s hs => hk.consistent.of_hasKey hr hkey hs
    refine ⟨_, hr', hkey, ?_⟩
    unfold Available hasAttachment
    rw [h'.attachments]
    exact havail

/-! ## One save -/

/-- A save that finds a row with a key is about the message of this key. -/
theorem key_of_isCopy (hM : ServerHistory M) (hcons : Consistent M m.threadId db)
    (hm : 0 < m.serverId → m.facts ∈ M) (hr : r ∈ db.messages.rows) (hcopy : IsCopy m r)
    (hkey : r.HasKey k) : m.facts.Of k := by
  obtain ⟨-, ⟨hpos, hserver⟩ | ⟨hsender, huuid, -⟩⟩ := id hcopy
  · have hs : r.serverId ≠ none := hserver ▸ Option.some_ne_none _
    obtain ⟨-, hsender, huuid⟩ :=
      confirmed?_eq_some (confirmed_of_isCopy hM hcons (hm hpos) hr hcopy hs)
    refine ⟨hsender.symm.trans hkey.2.1, ?_⟩
    rw [hkey.2.2] at huuid
    split at huuid
    · cases huuid
    · exact (Option.some_inj.mp huuid).symm
  · exact ⟨hsender.symm.trans hkey.2.1, Option.some_inj.mp (huuid.symm.trans hkey.2.2)⟩

/-- A save without a UUID finds no row with a key. -/
theorem uniqueId_ne_of_isCopy (hM : ServerHistory M) (hcons : Consistent M m.threadId db)
    (hm : 0 < m.serverId → m.facts ∈ M) (hr : r ∈ db.messages.rows) (hcopy : IsCopy m r)
    (hkey : r.HasKey k) : m.uniqueId ≠ "" := by
  intro hempty
  obtain ⟨-, ⟨hpos, hserver⟩ | ⟨-, -, hne⟩⟩ := id hcopy
  · have hs : r.serverId ≠ none := hserver ▸ Option.some_ne_none _
    obtain ⟨-, -, huuid⟩ :=
      confirmed?_eq_some (confirmed_of_isCopy hM hcons (hm hpos) hr hcopy hs)
    rw [hkey.2.2, if_pos (show m.facts.uniqueId = "" from hempty)] at huuid
    cases huuid
  · exact hne hempty

/-- The row that a save rewrites is any stored copy of it that is pending or confirmed as it:
a pending copy comes first, and a confirmed one has no other beside it. -/
theorem Writes.eq_merge (hwrites : Writes db m w result) (hM : ServerHistory M)
    (hcons : Consistent M m.threadId db) (hm : 0 < m.serverId → m.facts ∈ M)
    (hr : r ∈ db.messages.rows) (hcopy : IsCopy m r) : w = r.merge m := by
  cases hwrites with
  | insert hnil => exact absurd hcopy (findCopies_eq_nil.mp hnil r hr)
  | @update row duplicates hcopies hlate =>
    obtain ⟨hrow, hrowCopy⟩ := mem_findCopies.mp (hcopies ▸ List.mem_cons_self)
    suffices row = r by rw [this]
    by_cases hpos : 0 < m.serverId
    · by_cases hs : r.serverId = none
      · have hrowNone : row.serverId = none := by
          have horder := copyOrder_of_findCopies hcopies hr hcopy
          unfold CopyOrder at horder
          rw [hs] at horder
          cases hrs : row.serverId with
          | none => rfl
          | some s =>
            rw [hrs] at horder
            cases horder
        obtain ⟨ht, ⟨-, hserver⟩ | ⟨hsender, huuid, -⟩⟩ := hcopy
        · rw [hs] at hserver
          cases hserver
        obtain ⟨ht', ⟨-, hserver⟩ | ⟨hsender', huuid', -⟩⟩ := hrowCopy
        · rw [hrowNone] at hserver
          cases hserver
        refine eq_of_clash hrow hr (.inr (.inr ⟨ht'.trans ht.symm, hsender'.trans hsender.symm, ?_,
          huuid'.trans huuid.symm⟩))
        rw [huuid']
        exact Option.some_ne_none _
      · obtain ⟨hid, hsender, huuid⟩ :=
          confirmed?_eq_some (confirmed_of_isCopy hM hcons (hm hpos) hr hcopy hs)
        have hthread : row.threadId = r.threadId := hrowCopy.1.trans hcopy.1.symm
        obtain ⟨-, ⟨-, hserver⟩ | ⟨hsender', huuid', hne⟩⟩ := hrowCopy
        · refine eq_of_clash hrow hr (.inr (.inl ⟨hthread, ?_, hserver.trans hid.symm⟩))
          rw [hserver]
          exact Option.some_ne_none _
        · have hsame : row.uniqueId = r.uniqueId := by
            rw [huuid', huuid, if_neg (show m.facts.uniqueId ≠ "" from hne)]
            rfl
          refine eq_of_clash hrow hr (.inr (.inr ⟨hthread, hsender'.trans hsender.symm, ?_, hsame⟩))
          rw [huuid']
          exact Option.some_ne_none _
    · exact eq_of_isCopy (not_lt.mp hpos) hrow hr hrowCopy hcopy

theorem uuidColumn_of_ne (h : m.uniqueId ≠ "") : m.uuidColumn = some m.uniqueId := if_neg h

/-- The row a save writes has the key of its message. -/
theorem Writes.hasKey (hwrites : Writes db m w result) (hM : ServerHistory M)
    (hcons : Consistent M m.threadId db) (hm : 0 < m.serverId → m.facts ∈ M)
    (hu : m.uniqueId ≠ "") : w.HasKey m.key := by
  cases hwrites with
  | insert hnil => exact ⟨rfl, rfl, uuidColumn_of_ne hu⟩
  | @update row duplicates hcopies hlate =>
    obtain ⟨hrow, hcopy⟩ := mem_findCopies.mp (hcopies ▸ List.mem_cons_self)
    refine ⟨hcopy.1, ?_, ?_⟩
    · obtain ⟨-, ⟨hpos, hserver⟩ | ⟨hsender, -, -⟩⟩ := id hcopy
      · have hs : row.serverId ≠ none := hserver ▸ Option.some_ne_none _
        exact (confirmed?_eq_some (confirmed_of_isCopy hM hcons (hm hpos) hrow hcopy hs)).2.1
      · exact hsender
    · rw [MessageRow.merge, uuidColumn_of_ne hu]
      rfl

theorem Writes.localImage (hwrites : Writes db m w result) (h : m.localImage ≠ []) :
    w.localImage = some m.localImage := by
  have himage : m.imageColumn = some m.localImage := if_neg h
  cases hwrites with
  | insert => rw [StoredMessage.toRow, himage]
  | update =>
    rw [MessageRow.merge, himage]
    rfl

/-- A save that rewrites the message of a key with bytes is one that wrote them. -/
theorem Writes.wroteMedia (hwrites : Writes db m w result) (himage : m.localImage ≠ [])
    (hu : m.uniqueId ≠ "") : WroteMedia m result := by
  refine ⟨himage, hu, ?_⟩
  cases hwrites with
  | insert => exact ⟨nofun, nofun⟩
  | @update row _ _ hlate =>
    split
    next hs => exact ⟨nofun, fun _ => not_le.mp fun hle => hlate ⟨hs, hle⟩⟩
    next => exact ⟨nofun, nofun⟩

theorem settledRow_sameKeys (db : Database) (m : StoredMessage) (r : MessageRow) :
    (db.settledRow m r).SameKeys r := by
  unfold settledRow
  split
  · exact db.releaseRow_sameKeys m r
  · exact ⟨rfl, rfl, rfl, rfl, rfl⟩

/-- The release takes the bytes of a confirmed row whose attachment is cached, and no others. -/
theorem Available.settledRow (h : db.Available r image) :
    db.Available (db.settledRow m r) image := by
  rcases db.settledRow_cases m r with he | ⟨hs, hatt, he⟩
  · rwa [he]
  · rw [he]
    exact .inr ⟨hs ▸ Option.some_ne_none _, hatt⟩

/-- A merge without bytes keeps those of the copy it rewrites, or its attachment. -/
theorem Available.merge (h : db.Available r image) (hM : ServerHistory M)
    (hcons : Consistent M m.threadId db) (hm : 0 < m.serverId → m.facts ∈ M)
    (hr : r ∈ db.messages.rows) (hcopy : IsCopy m r)
    (hlate : ¬ (r.serverId ≠ none ∧ m.serverId ≤ 0)) (hnone : m.localImage = []) :
    db.Available (r.merge m) image := by
  rcases h with himage | ⟨hs, hatt⟩
  · refine .inl ?_
    rw [MessageRow.merge, show m.imageColumn = none from if_pos hnone]
    exact himage
  · have hpos : 0 < m.serverId := not_le.mp fun hle => hlate ⟨hs, hle⟩
    have hshown := confirmed_of_isCopy hM hcons (hm hpos) hr hcopy hs
    obtain ⟨s, -, he⟩ := Option.map_eq_some_iff.mp hshown
    have hcontent : r.content = m.content.getD "" := (ConfirmedRow.mk.inj he).2.2.2.1
    refine .inr ⟨?_, ?_⟩
    · rw [MessageRow.merge, serverColumn_of_pos hpos]
      exact Option.some_ne_none _
    · rw [hcontent] at hatt
      exact hatt

theorem saveMessage_visible {t : Int} {f : ServerMessage} (h : db.saveMessage m = .ok (result, db'))
    (hv : db.Visible t f) : db'.Visible t f := by
  refine ⟨fun c hc => ?_, fun hd => hv.2 (((saveMessage_elsewhere h).isDeleted t f.serverId).mp hd)⟩
  obtain ⟨-, _, -, hcases⟩ := saveMessage_cases h
  rcases hcases with ⟨-, -, -, rfl⟩ | ⟨-, -, -, -, rfl⟩ | ⟨-, hmerge⟩
  · exact hv.1 c hc
  · exact hv.1 c hc
  · rcases mergeMessage_cases hmerge with ⟨_, -, -, -, -, -, rfl⟩ | ⟨_, -, hwrote⟩
    · exact hv.1 c hc
    · obtain ⟨c₀, hc₀, he⟩ := hwrote.hidden hc
      exact he ▸ hv.1 c₀ hc₀

theorem saveMessage_consistent {t : Int} (hM : ServerHistory M) (hcons : Consistent M t db)
    (hm : m.threadId = t → 0 < m.serverId → m.facts ∈ M)
    (h : db.saveMessage m = .ok (result, db')) : Consistent M t db' := by
  unfold Consistent
  rw [saveMessage_confirmedRows hM hcons hm h]
  refine Set.union_subset hcons (Set.image_mono ?_)
  rintro f ⟨rfl, ht, hpos, -⟩
  exact hm ht hpos

theorem saveMessage_row (hM : ServerHistory M) (hk : Kept M k db last)
    (hm : m.threadId = k.threadId → 0 < m.serverId → m.facts ∈ M)
    (h : db.saveMessage m = .ok (result, db'))
    (hlast : (if m.key = k ∧ WroteMedia m result then some m.localImage else last) = some image) :
    ∃ r ∈ db'.messages.rows, r.HasKey k ∧ db'.Available r image := by
  have hsame : ∀ r, db'.Available r image ↔ db.Available r image := fun r => by
    unfold Available hasAttachment
    rw [(saveMessage_elsewhere h).attachments]
  simp only [hsame]
  -- a save that wrote nothing leaves the bytes of before
  have hbefore : ¬ WroteMedia m result →
      ∃ r ∈ db.messages.rows, r.HasKey k ∧ db.Available r image := fun hnot => by
    rw [if_neg fun hw => hnot hw.2] at hlast
    exact hk.row image hlast
  obtain ⟨-, c, hc, hcases⟩ := saveMessage_cases h
  rcases hcases with ⟨hpos, hle, hres, hdb⟩ | ⟨-, -, -, hres, hdb⟩ | ⟨-, hmerge⟩
  · obtain ⟨r, hr, hkey, havail⟩ := hbefore fun hw => hw.2.2.1 hres
    refine ⟨r, hdb ▸ Table.mem_delete.mpr ⟨hr, decide_eq_false ?_⟩, hkey, havail⟩
    rintro ⟨ht, hsender, huuid, -⟩
    have hthread : m.threadId = k.threadId := ht.symm.trans hkey.1
    have hof : m.facts.Of k :=
      ⟨hsender.symm.trans hkey.2.1, Option.some_inj.mp (huuid.symm.trans hkey.2.2)⟩
    exact absurd hle (not_le.mpr ((hk.visible _ (hm hthread hpos) hof).1 c (hthread ▸ hc)))
  · obtain ⟨r, hr, hkey, havail⟩ := hbefore fun hw => hw.2.2.1 hres
    exact ⟨r, hdb ▸ hr, hkey, havail⟩
  · rcases mergeMessage_rows hmerge with ⟨hres, hle, hdb⟩ | ⟨w, hwrites, hrows⟩
    · obtain ⟨r, hr, hkey, havail⟩ :=
        hbefore fun hw => absurd (hw.2.2.2 hres) (not_lt.mpr hle)
      exact ⟨r, hdb ▸ hr, hkey, havail⟩
    · by_cases hw : m.key = k ∧ WroteMedia m result
      · rw [if_pos hw] at hlast
        obtain ⟨rfl, himage, hu, -⟩ := hw
        refine ⟨_, (hrows _).mpr (.inl rfl), ?_,
          Available.settledRow (.inl ((hwrites.localImage himage).trans hlast))⟩
        exact (db.settledRow_sameKeys m w).hasKey
          (hwrites.hasKey hM hk.consistent (fun hpos => hm rfl hpos) hu)
      · rw [if_neg hw] at hlast
        obtain ⟨r, hr, hkey, havail⟩ := hk.row image hlast
        by_cases hcopy : IsCopy m r
        · have hthread : m.threadId = k.threadId := hcopy.1.symm.trans hkey.1
          have hcons := hthread ▸ hk.consistent
          have heq := hwrites.eq_merge hM hcons (hm hthread) hr hcopy
          have hof := key_of_isCopy hM hcons (hm hthread) hr hcopy hkey
          have hmkey : m.key = k := by
            cases k
            exact MediaKey.mk.injEq .. ▸ ⟨hthread, hof.1, hof.2⟩
          refine ⟨_, (hrows _).mpr (.inl rfl), ?_, Available.settledRow ?_⟩
          · refine (db.settledRow_sameKeys m w).hasKey ?_
            rw [heq]
            refine ⟨hkey.1, hkey.2.1, ?_⟩
            rw [MessageRow.merge, StoredMessage.uuidColumn]
            split
            · exact hkey.2.2
            · exact congrArg some hof.2
          · rw [heq]
            refine havail.merge hM hcons (hm hthread) hr hcopy ?_ ?_
            · rintro ⟨hs, hle⟩
              exact hwrites.not_isCopy (not_lt.mpr hle) hr hs hcopy
            · by_contra himage
              exact hw ⟨hmkey, hwrites.wroteMedia himage
                (uniqueId_ne_of_isCopy hM hcons (hm hthread) hr hcopy hkey)⟩
        · exact ⟨r, (hrows r).mpr (.inr ⟨hr, hcopy⟩), hkey, havail⟩

theorem saveMessage_kept (hM : ServerHistory M) (hk : Kept M k db last)
    (hm : m.threadId = k.threadId → 0 < m.serverId → m.facts ∈ M)
    (h : db.saveMessage m = .ok (result, db')) :
    Kept M k db' (if m.key = k ∧ WroteMedia m result then some m.localImage else last) where
  consistent := saveMessage_consistent hM hk.consistent hm h
  visible f hf hof := saveMessage_visible h (hk.visible f hf hof)
  row _ hlast := saveMessage_row hM hk hm h hlast

theorem saveAll_kept (hM : ServerHistory M) {ms : List StoredMessage} {reply : ChatStoreResult}
    (hk : Kept M k db last)
    (hm : ∀ m ∈ ms, m.threadId = k.threadId → 0 < m.serverId → m.facts ∈ M)
    (h : db.saveAll ms = .ok (reply, db')) :
    Kept M k db' (lastWritten k last (db.writtenMedia ms)) := by
  induction ms generalizing db reply last with
  | nil =>
    cases h
    exact hk
  | cons m ms ih =>
    obtain ⟨⟨outcome, db1⟩, h1, h⟩ := bind_eq_ok.mp h
    obtain ⟨⟨reply', db2⟩, h2, h⟩ := bind_eq_ok.mp h
    cases h
    have hstep := saveMessage_kept hM hk (hm m List.mem_cons_self) h1
    have hrest := ih hstep (fun m' hm' => hm m' (List.mem_cons_of_mem _ hm')) h2
    rw [writtenMedia, h1]
    dsimp only
    split
    next hw =>
      rw [lastWritten]
      simpa only [hw, and_true] using hrest
    next hw => simpa only [hw, and_false, if_false] using hrest

theorem finish_attachments (t cursor d : Int) :
    ((db.advanceCursor t cursor).clearDraft d).attachments = db.attachments := by
  unfold clearDraft advanceCursor
  split <;> split <;> rfl

theorem saveMessages_kept (hM : ServerHistory M) {ms : List StoredMessage} {t cursor d : Int}
    {reply : ChatStoreResult} (hk : Kept M k db last)
    (hm : ∀ m ∈ ms, m.threadId = k.threadId → 0 < m.serverId → m.facts ∈ M)
    (h : db.saveMessages ms t cursor d = .ok (reply, db')) :
    Kept M k db' (lastWritten k last (db.writtenMedia ms)) := by
  obtain ⟨-, db1, hall, rfl⟩ := saveMessages_eq h
  obtain ⟨hconv, hmsgs, hdel⟩ := db1.finish_tables t cursor d
  exact (saveAll_kept hM hk hm hall).of_keepsMessage hM
    (keepsMessage_of_tables hconv hmsgs hdel)
    (addsNoRow_of_tables hmsgs (finish_attachments t cursor d))

/-! ## Caching an attachment -/

theorem recordAttachment_lookup (db : Database) (a : Attachment) (id : String) :
    Keyed.lookup (db.recordAttachment a).attachments id =
      if id = a.fileId then some a else Keyed.lookup db.attachments id := by
  have h := Keyed.lookup_upsert db.attachments a
    (fun old => { old with path := a.path, sha256 := a.sha256, size := a.size }) (fun _ => rfl) id
  refine h.trans ?_
  split
  next hid =>
    cases hold : Keyed.lookup db.attachments id with
    | none => rfl
    | some old =>
      have hkey : old.fileId = a.fileId := (Keyed.lookup_key hold).trans hid
      rw [Option.elim_some, hkey]
  next => rfl

theorem recordAttachment_hasAttachment (db : Database) (a : Attachment) (id : String) :
    (db.recordAttachment a).hasAttachment id ↔ id = a.fileId ∨ db.hasAttachment id := by
  unfold hasAttachment
  rw [recordAttachment_lookup]
  split
  next h => exact iff_of_true rfl (.inl h)
  next h => exact ⟨.inr, fun h' => h'.resolve_left h⟩

/-- A row after the release that follows the caching of its attachment. -/
theorem mem_recordAttachment {a : Attachment} {r' : MessageRow} :
    r' ∈ (db.recordAttachment a).messages.rows ↔ ∃ r ∈ db.messages.rows,
      (if r.content = a.fileId ∧ (r.messageType = 1 ∨ r.messageType = 3) ∧
        r.serverId ≠ none ∧ r.localImage ≠ none then { r with localImage := none } else r) = r' :=
  List.mem_map

theorem recordAttachment_kept (hk : Kept M k db last) (a : Attachment) :
    Kept M k (db.recordAttachment a) last where
  consistent := by
    rintro v ⟨r', hr', ht, hv⟩
    obtain ⟨r, hr, rfl⟩ := mem_recordAttachment.mp hr'
    refine hk.consistent ⟨r, hr, ?_, ?_⟩
    · split at ht <;> exact ht
    · split at hv <;> exact hv
  visible f hf hof := hk.visible f hf hof
  row image hlast := by
    obtain ⟨r, hr, hkey, havail⟩ := hk.row image hlast
    refine ⟨_, mem_recordAttachment.mpr ⟨r, hr, rfl⟩, ?_, ?_⟩
    · split <;> exact hkey
    · split
      next h =>
        exact .inr ⟨h.2.2.1, (recordAttachment_hasAttachment db a _).mpr (.inl h.1)⟩
      next =>
        rcases havail with himage | ⟨hs, hatt⟩
        · exact .inl himage
        · exact .inr ⟨hs, (recordAttachment_hasAttachment db a _).mpr (.inr hatt)⟩

/-! ## Duplicates are released -/

/-- No confirmed message keeps a duplicate of its cached attachment. -/
def Released (db : Database) : Prop :=
  ∀ r ∈ db.messages.rows, IsMedia r.messageType → r.serverId ≠ none →
    db.hasAttachment r.content = true → r.localImage = none

instance (db : Database) : Decidable db.Released :=
  inferInstanceAs (Decidable (∀ r ∈ db.messages.rows, _ → _ → _ → _))

theorem AddsNoRow.released (h : AddsNoRow db db') (hrel : Released db) : Released db' := by
  intro r' hr' hmedia hs hatt
  obtain ⟨r, hr, state, rfl⟩ := h.rows r' hr'
  refine hrel r hr hmedia hs ?_
  unfold hasAttachment at hatt ⊢
  rwa [h.attachments] at hatt

theorem saveMessage_released (hrel : Released db) (h : db.saveMessage m = .ok (result, db')) :
    Released db' := by
  have hsame : ∀ id, db'.hasAttachment id = db.hasAttachment id := fun id => by
    unfold hasAttachment
    rw [(saveMessage_elsewhere h).attachments]
  intro r' hr' hmedia hs hatt
  rw [hsame] at hatt
  obtain ⟨-, _, -, hcases⟩ := saveMessage_cases h
  rcases hcases with ⟨-, -, -, rfl⟩ | ⟨-, -, -, -, rfl⟩ | ⟨-, hmerge⟩
  · exact hrel r' (Table.mem_delete.mp hr').1 hmedia hs hatt
  · exact hrel r' hr' hmedia hs hatt
  · rcases mergeMessage_rows hmerge with ⟨-, -, rfl⟩ | ⟨w, hwrites, hrows⟩
    · exact hrel r' hr' hmedia hs hatt
    · rcases (hrows r').mp hr' with rfl | ⟨hr, -⟩
      · have hserver := (db.settledRow_sameKeys m w).serverId
        have hcolumn := hwrites.shape.2.1
        rw [hserver, hcolumn] at hs
        have hpos : 0 < m.serverId := by
          by_contra hpos
          exact hs (serverColumn_of_not_pos hpos)
        have htype : w.messageType = m.type := by cases hwrites <;> rfl
        unfold settledRow releaseRow at hmedia hatt ⊢
        rw [serverColumn_of_pos hpos] at hcolumn
        by_cases hm : IsMedia m.type
        · simp only [hpos, hm, and_self, if_true, hwrites.shape.1, hcolumn, true_and] at hatt ⊢
          split at hatt
          next hc => rw [if_pos hc]
          next hc => exact absurd hatt hc
        · rw [if_neg fun hc => hm hc.2, htype] at hmedia
          exact absurd hmedia hm
      · exact hrel r' hr hmedia hs hatt

theorem saveMessages_released {ms : List StoredMessage} {t cursor d : Int} {reply : ChatStoreResult}
    (hrel : Released db) (h : db.saveMessages ms t cursor d = .ok (reply, db')) : Released db' := by
  obtain ⟨-, db1, hall, rfl⟩ := saveMessages_eq h
  have h1 : Released db1 := saveAll_relates (fun a b => Released a → Released b) (fun _ => id)
    (fun _ _ _ h h' hr => h' (h hr)) (fun _ _ _ _ h hr => saveMessage_released hr h) hall hrel
  obtain ⟨-, hmsgs, -⟩ := db1.finish_tables t cursor d
  exact (addsNoRow_of_tables hmsgs (finish_attachments t cursor d)).released h1

/-- Caching an attachment releases every duplicate but that of a file. -/
theorem recordAttachment_released (hrel : Released db) (a : Attachment) :
    Released (db.recordAttachment a) ↔ ∀ r ∈ db.messages.rows, r.messageType = 2 →
      r.serverId ≠ none → r.content = a.fileId → r.localImage = none := by
  constructor
  · intro h r hr htype hs hcontent
    have hkeep : ¬ (r.content = a.fileId ∧ (r.messageType = 1 ∨ r.messageType = 3) ∧
        r.serverId ≠ none ∧ r.localImage ≠ none) := by
      rw [htype]
      rintro ⟨-, htype | htype, -⟩ <;> exact absurd htype (by decide)
    exact h r (mem_recordAttachment.mpr ⟨r, hr, if_neg hkeep⟩) (.inr (.inl htype)) hs
      ((recordAttachment_hasAttachment db a _).mpr (.inl hcontent))
  · intro h r' hr' hmedia hs hatt
    obtain ⟨r, hr, rfl⟩ := mem_recordAttachment.mp hr'
    split at hmedia
    next hc => rw [if_pos hc]
    next hc =>
      rw [if_neg hc] at hs hatt ⊢
      rcases (recordAttachment_hasAttachment db a _).mp hatt with hcontent | hatt
      · by_cases htype : r.messageType = 2
        · exact h r hr htype hs hcontent
        · by_contra himage
          have htype' : r.messageType = 1 ∨ r.messageType = 3 := by
            rcases hmedia with h1 | h2 | h3
            · exact .inl h1
            · exact absurd h2 htype
            · exact .inr h3
          exact hc ⟨hcontent, htype', hs, himage⟩
      · exact hrel r hr hmedia hs hatt

end Database

/-! ## Every run -/

def MediaStep.Spares (M : Set ServerMessage) (k : MediaKey) : MediaStep → Prop
  | .call c => c.operation.Spares M k
  | _ => True

namespace Cache
open Database
variable {c : Cipher} {s s' : Cache} {step : MediaStep} {M : Set ServerMessage} {k : MediaKey}

/-- The attachment of the id is recorded, as a file that was committed before with bytes that
were handed over for this id. -/
def Cached (c : Cipher) (s : Cache) (id : String) : Prop :=
  ∃ image, (id, image) ∈ s.filed ∧
    Keyed.lookup s.db.attachments id = some (c.attachment id image) ∧
    ((c.attachment id image).path, c.encrypt image) ∈ s.committed

/-- No confirmed file message still holds the bytes of the attachment to be recorded. -/
def ReleasesFiles (s : Cache) : MediaStep → Prop
  | .saveRow index false => ∀ a ∈ s.queued[index]?, ∀ r ∈ s.db.messages.rows,
      r.messageType = 2 → r.serverId ≠ none → r.content = a.fileId → r.localImage = none
  | _ => True

instance (s : Cache) : DecidablePred s.ReleasesFiles
  | .saveRow index false =>
    inferInstanceAs (Decidable (∀ a ∈ s.queued[index]?, ∀ r ∈ s.db.messages.rows, _ → _ → _ → _))
  | .saveRow _ true => isTrue trivial
  | .call _ => isTrue trivial
  | .saveFile .. => isTrue trivial

/-- Every row and every waiting attachment describes a committed file. -/
structure Committed (c : Cipher) (s : Cache) : Prop where
  rows : ∀ id a, Keyed.lookup s.db.attachments id = some a → s.Cached c id
  queued : ∀ a ∈ s.queued, ∃ image, (a.fileId, image) ∈ s.filed ∧
    a = c.attachment a.fileId image ∧ (a.path, c.encrypt image) ∈ s.committed

/-- Everything a step can do to the cache. -/
theorem next_cases (h : s.next c step = some s') :
    (∃ call : Call, step = .call call ∧ call.operation.isSaveAttachment = false ∧
      s' = { s with db := call.run s.db, saved := s.saved ++ call.writtenMedia s.db }) ∨
    (s' = s ∧ ∃ id image interrupted, step = .saveFile id image interrupted) ∨
    (∃ id image, step = .saveFile id image false ∧
      s' = { s with
        committed := ((c.attachment id image).path, c.encrypt image) :: s.committed
        queued := c.attachment id image :: s.queued
        filed := (id, image) :: s.filed }) ∨
    ∃ index interrupted a, step = .saveRow index interrupted ∧ s.queued[index]? = some a ∧
      s' = { s with
        db := if interrupted then s.db else s.db.recordAttachment a
        queued := s.queued.eraseIdx index } := by
  cases step with
  | call call =>
    unfold next at h
    dsimp only at h
    split at h
    · cases h
    next hatt =>
      cases h
      exact .inl ⟨call, rfl, Bool.eq_false_iff.mpr hatt, rfl⟩
  | saveFile id image interrupted =>
    unfold next Cipher.saveAttachmentFile at h
    dsimp only at h
    split at h
    next =>
      cases h
      exact .inr (.inl ⟨rfl, id, image, interrupted, rfl⟩)
    next attachment payload hfile =>
      split at hfile
      · cases hfile
      split at hfile
      · cases hfile
      cases hfile
      cases interrupted with
      | true =>
        cases h
        exact .inr (.inl ⟨rfl, id, image, true, rfl⟩)
      | false =>
        cases h
        exact .inr (.inr (.inl ⟨id, image, rfl, rfl⟩))
  | saveRow index interrupted =>
    unfold next at h
    dsimp only at h
    split at h
    · cases h
    next a ha =>
      cases h
      refine .inr (.inr (.inr ⟨index, interrupted, a, rfl, ha, ?_⟩))
      cases interrupted <;> rfl

theorem call_cases (db : Database) (call : Call) (hatt : call.operation.isSaveAttachment = false) :
    (call.run db = db ∧ call.writtenMedia db = []) ∨
    (∃ ms t cursor d reply, call.operation = .saveMessages ms t cursor d ∧
      db.saveMessages ms t cursor d = .ok (reply, call.run db) ∧
      call.writtenMedia db = db.writtenMedia ms) ∨
    ((∀ ms t cursor d, call.operation ≠ .saveMessages ms t cursor d) ∧
      call.operation.run db = .ok (call.run db) ∧ call.writtenMedia db = []) := by
  obtain ⟨operation, interrupted⟩ := call
  cases operation with
  | saveMessages ms t cursor d =>
    cases interrupted with
    | true => exact .inl ⟨rfl, rfl⟩
    | false =>
      unfold Call.run Call.writtenMedia Operation.run
      dsimp only
      cases h : db.saveMessages ms t cursor d with
      | error e => exact .inl ⟨rfl, rfl⟩
      | ok p => exact .inr (.inl ⟨ms, t, cursor, d, p.1, rfl, h, rfl⟩)
  | _ =>
    cases interrupted with
    | true => exact .inl ⟨rfl, rfl⟩
    | false =>
      rcases Call.run_cases db ⟨_, false⟩ with h | h
      · exact .inl ⟨h, rfl⟩
      · refine .inr (.inr ⟨?_, h, rfl⟩)
        intro ms t cursor d he
        cases he

theorem call_attachments {call : Call} (hatt : call.operation.isSaveAttachment = false)
    (db : Database) : (call.run db).attachments = db.attachments := by
  rcases call_cases db call hatt with ⟨h, -⟩ | ⟨ms, t, cursor, d, reply, -, h, -⟩ | ⟨hsave, h, -⟩
  · rw [h]
  · obtain ⟨-, db1, hall, he⟩ := saveMessages_eq h
    rw [he, finish_attachments]
    exact (saveAll_relates SameElsewhere SameElsewhere.refl (fun _ _ _ => SameElsewhere.trans)
      (fun _ _ _ _ => saveMessage_elsewhere) hall).attachments
  · exact (run_keepsMessage (M := ∅) (k := ⟨0, 0, ""⟩) h hsave hatt).2.attachments

theorem committed_invariant (c : Cipher) : (machine c).Invariant (Committed c) where
  init := by
    rintro s ⟨version, rfl⟩
    exact ⟨fun id a h => (Option.some_ne_none a h.symm).elim, fun a ha => absurd ha List.not_mem_nil⟩
  step := by
    rintro s step s' - hs h
    rcases next_cases h with ⟨call, -, hatt, rfl⟩ | ⟨rfl, -⟩ | ⟨id, image, -, rfl⟩ |
      ⟨index, interrupted, a, -, ha, rfl⟩
    · refine ⟨fun id a h => ?_, hs.queued⟩
      simp only [Cached, call_attachments hatt] at h ⊢
      exact hs.rows id a h
    · exact hs
    · refine ⟨fun id' a h => ?_, fun a ha => ?_⟩
      · obtain ⟨image', hfiled, hlookup, hmem⟩ := hs.rows id' a h
        exact ⟨image', List.mem_cons_of_mem _ hfiled, hlookup, List.mem_cons_of_mem _ hmem⟩
      · rcases List.mem_cons.mp ha with rfl | ha
        · exact ⟨image, List.mem_cons_self, rfl, List.mem_cons_self⟩
        · obtain ⟨image', hfiled, he, hmem⟩ := hs.queued a ha
          exact ⟨image', List.mem_cons_of_mem _ hfiled, he, List.mem_cons_of_mem _ hmem⟩
    · refine ⟨fun id b h => ?_, fun b hb => hs.queued b (List.mem_of_mem_eraseIdx hb)⟩
      cases interrupted with
      | true => exact hs.rows id b h
      | false =>
        simp only [Bool.false_eq_true, if_false, Cached, recordAttachment_lookup] at h ⊢
        split
        next hid =>
          obtain ⟨image, hfiled, he, hmem⟩ := hs.queued a (List.mem_of_getElem? ha)
          rw [← hid] at he hfiled
          exact ⟨image, hfiled, congrArg some he, he ▸ hmem⟩
        next hid =>
          rw [if_neg hid] at h
          exact hs.rows id b h

theorem kept_invariant (c : Cipher) (hM : ServerHistory M) (k : MediaKey) :
    ((machine c).restrict fun _ step => step.Spares M k).Invariant
      fun s => Kept M k s.db (lastWritten k none s.saved) where
  init := by
    rintro s ⟨version, rfl⟩
    refine ⟨?_, fun f _ _ => ⟨fun c hc => ?_, fun hd => ?_⟩, nofun⟩
    · rintro v ⟨r, hr, -⟩
      exact absurd hr List.not_mem_nil
    · exact (Option.some_ne_none c hc.symm).elim
    · exact absurd hd List.not_mem_nil
  step := by
    rintro s step s' - hk ⟨hspares, h⟩
    rcases next_cases h with ⟨call, rfl, hatt, rfl⟩ | ⟨rfl, -⟩ | ⟨id, image, -, rfl⟩ |
      ⟨index, interrupted, a, -, ha, rfl⟩
    · simp only [lastWritten_append]
      rcases call_cases s.db call hatt with ⟨hrun, hw⟩ | ⟨ms, t, cursor, d, reply, hop, hrun, hw⟩ |
        ⟨hsave, hrun, hw⟩
      · rw [hrun, hw]
        exact hk
      · rw [hw]
        change call.operation.Spares M k at hspares
        rw [hop] at hspares
        exact saveMessages_kept hM hk hspares hrun
      · rw [hw]
        obtain ⟨hkeeps, hadds⟩ := run_keepsMessage (M := M) (k := k) hrun hsave hatt
        exact hk.of_keepsMessage hM (hkeeps hspares) hadds
    · exact hk
    · exact hk
    · cases interrupted with
      | true => exact hk
      | false => exact recordAttachment_kept hk a

/-- One step keeps the duplicates released, except the caching of a file's attachment while
a confirmed message holds its bytes. -/
theorem next_released (hs : Released s.db) (h : s.next c step = some s') :
    Released s'.db ↔ s.ReleasesFiles step := by
  rcases next_cases h with ⟨call, rfl, hatt, rfl⟩ | ⟨rfl, id, image, interrupted, rfl⟩ |
    ⟨id, image, rfl, rfl⟩ | ⟨index, interrupted, a, rfl, ha, rfl⟩
  · refine iff_of_true ?_ trivial
    rcases call_cases s.db call hatt with ⟨hrun, -⟩ | ⟨_, _, _, _, _, -, hrun, -⟩ | ⟨hsave, hrun, -⟩
    · rwa [hrun]
    · exact saveMessages_released hs hrun
    · exact (run_keepsMessage (M := ∅) (k := ⟨0, 0, ""⟩) hrun hsave hatt).2.released hs
  · exact iff_of_true hs trivial
  · exact iff_of_true hs trivial
  · cases interrupted with
    | true => exact iff_of_true hs trivial
    | false =>
      refine (recordAttachment_released hs a).trans ⟨fun h b hb => ?_, fun h => h a ha⟩
      rw [Option.mem_def, ha] at hb
      cases hb
      exact h

theorem released_invariant (c : Cipher) :
    ((machine c).restrict ReleasesFiles).Invariant fun s => Released s.db where
  init := by
    rintro s ⟨version, rfl⟩ r hr
    exact absurd hr List.not_mem_nil
  step := by
    rintro s step s' - hs ⟨hok, h⟩
    exact (next_released hs h).mpr hok

/-- A message whose bytes were saved has a row with just these bytes, or one whose file id has a
committed file; and the duplicates stay released as long as no file's attachment is cached after
its confirmation. -/
theorem own_media (c : Cipher) :
    (∀ (M : Set ServerMessage) (k : MediaKey), ServerHistory M → ∀ s,
      ((machine c).restrict fun _ step => step.Spares M k).Reachable s →
      ∀ image, lastWritten k none s.saved = some image →
        ∃ r ∈ s.db.messages.rows, r.HasKey k ∧
          (r.localImage = some image ∨ s.Cached c r.content)) ∧
    ∀ s, ((machine c).restrict ReleasesFiles).Reachable s → Released s.db ∧
      ∀ step s', s.next c step = some s' → (Released s'.db ↔ s.ReleasesFiles step) := by
  refine ⟨fun M k hM s hs image hk => ?_, fun s hs => ?_⟩
  · obtain ⟨r, hr, hkey, havail⟩ := ((kept_invariant c hM k).reachable hs).row image hk
    refine ⟨r, hr, hkey, havail.imp_right ?_⟩
    rintro ⟨-, hatt⟩
    obtain ⟨a, ha⟩ := Option.isSome_iff_exists.mp hatt
    exact ((committed_invariant c).reachable hs.of_restrict).rows _ a ha
  · have hrel := (released_invariant c).reachable hs
    exact ⟨hrel, fun step s' h => next_released hrel h⟩

/-! ## A message sent with its bytes -/

def sampleCipher : Cipher := ⟨fun _ => "digest", id⟩

def sentMedia (type serverId : Int) (content : String) (image : Bytes) : StoredMessage :=
  ⟨1, 7, serverId, "uuid", some content, some "2026-01-01", type, unRead, image⟩

/-- The message is stored, uploaded, its file cached, and confirmed; its row comes last. -/
def sentSteps (type : Int) : List MediaStep :=
  [.call ⟨.saveConversations [⟨1, 8, 0, none, none, ""⟩], false⟩,
    .call ⟨.saveMessages [sentMedia type 0 "pending:uuid" [1]] 0 (-1) 1, false⟩,
    .saveFile "file" [1] false,
    .call ⟨.saveMessages [sentMedia type 0 "file" []] 0 (-1) 0, false⟩,
    .call ⟨.saveMessages [sentMedia type 5 "file" []] 0 (-1) 0, false⟩,
    .saveRow 0 false]

def emptyCache : Cache := ⟨.create 0, [], [], [], []⟩

def sentHistory (type : Int) : Set ServerMessage := {(sentMedia type 5 "file" []).facts}

theorem sentHistory_serverHistory (type : Int) : ServerHistory (sentHistory type) where
  positive := by
    rintro f rfl
    exact (by decide : (0 : Int) < 5)
  serverId_inj := by
    rintro f rfl g rfl -
    rfl
  uuid_inj := by
    rintro f rfl g rfl - - -
    rfl

theorem sentSteps_spare (type : Int) :
    ∀ step ∈ sentSteps type, step.Spares (sentHistory type) ⟨1, 7, "uuid"⟩ := by
  have hpending : ∀ content image, ∀ m ∈ [sentMedia type 0 content image],
      m.threadId = 1 → 0 < m.serverId → m.facts ∈ sentHistory type := by
    rintro content image m hm - hpos
    rw [List.mem_singleton.mp hm] at hpos
    exact absurd hpos (by decide : ¬ (0 : Int) < 0)
  simp only [sentSteps, List.forall_mem_cons]
  refine ⟨trivial, hpending _ _, trivial, hpending _ _, fun m hm _ _ => ?_, trivial, ?_⟩
  · rw [List.mem_singleton.mp hm]
    rfl
  · exact fun _ h => absurd h List.not_mem_nil

/-- A file whose row comes after its confirmation keeps its duplicate. -/
theorem file_keeps_duplicate : ¬ ∀ s, (machine sampleCipher).Reachable s → Released s.db := by
  intro h
  have hrun : (Machine.runFn (next sampleCipher) emptyCache (sentSteps 2)).map
      (fun s => decide (Released s.db)) = some false := by decide
  obtain ⟨s, hs, hdup⟩ := Option.map_eq_some_iff.mp hrun
  exact of_decide_eq_false hdup (h s (Machine.Reachable.runFn (.init ⟨0, rfl⟩) hs))

/-- An image, whose copy in the row is released, and a file, whose copy stays. -/
theorem own_media_sample :
    (∀ type ∈ ([1, 2] : List Int), ∃ s,
      Machine.runFn (next sampleCipher) emptyCache (sentSteps type) = some s ∧
      lastWritten ⟨1, 7, "uuid"⟩ none s.saved = some [1] ∧
      ∃ r ∈ s.db.messages.rows, r.HasKey ⟨1, 7, "uuid"⟩ ∧
        (r.localImage = some [1] ∨ s.Cached sampleCipher r.content)) ∧
    ∃ s, Machine.runFn (fun s step => if s.ReleasesFiles step then s.next sampleCipher step
      else none) emptyCache (sentSteps 1) = some s ∧ Released s.db := by
  refine ⟨fun type htype => ?_, ?_⟩
  · have hrun : (Machine.runFn (next sampleCipher) emptyCache (sentSteps type)).map Cache.saved =
        some [(⟨1, 7, "uuid"⟩, [1])] := by
      revert type
      decide
    obtain ⟨s, hs, hsaved⟩ := Option.map_eq_some_iff.mp hrun
    have hlast : lastWritten ⟨1, 7, "uuid"⟩ none s.saved = some [1] := by
      rw [hsaved]
      decide
    exact ⟨s, hs, hlast, (own_media sampleCipher).1 (sentHistory type) ⟨1, 7, "uuid"⟩
      (sentHistory_serverHistory type) s
      (Machine.Reachable.runFn_labels (sentSteps_spare type) (.init ⟨0, rfl⟩) hs) [1] hlast⟩
  · obtain ⟨s, hs⟩ := Option.isSome_iff_exists.mp (show (Machine.runFn (fun s step =>
      if s.ReleasesFiles step then s.next sampleCipher step else none) emptyCache
      (sentSteps 1)).isSome from by decide)
    exact ⟨s, hs, ((own_media sampleCipher).2 s
      (Machine.Reachable.runFn_restrict (.init ⟨0, rfl⟩) hs)).1⟩

end Cache
end CppChat.LocalStore
