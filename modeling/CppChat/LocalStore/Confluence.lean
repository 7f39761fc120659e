import Mathlib.Data.Set.Image
import CppChat.LocalStore.Settlement

/-! # Independence of the delivery order

A server message reaches the store as an acknowledgement, a notification or a part of a
history page, any number of times. What the store ends with depends on which messages
were delivered, not on the order, the grouping or the repetitions.
-/
namespace CppChat.LocalStore
open Foundation

/-- What every delivery of one server message carries. -/
structure ServerMessage where
  serverId : Int
  senderUid : Int
  uniqueId : String
  content : Option String
  time : Option String
  type : Int
  deriving DecidableEq

/-- The columns of a confirmed row that the server determines. -/
structure ConfirmedRow where
  serverId : Int
  senderUid : Int
  uniqueId : Option String
  content : String
  type : Int
  time : String
  deriving DecidableEq

def ServerMessage.row (f : ServerMessage) : ConfirmedRow :=
  ⟨f.serverId, f.senderUid, if f.uniqueId = "" then none else some f.uniqueId,
    f.content.getD "", f.type, f.time.getD ""⟩

def StoredMessage.facts (m : StoredMessage) : ServerMessage :=
  ⟨m.serverId, m.senderUid, m.uniqueId, m.content, m.time, m.type⟩

def MessageRow.confirmed? (r : MessageRow) : Option ConfirmedRow :=
  r.serverId.map fun s => ⟨s, r.senderUid, r.uniqueId, r.content, r.messageType, r.chatTime⟩

/-- The messages of one thread as the server knows them. -/
structure ServerHistory (M : Set ServerMessage) : Prop where
  positive : ∀ f ∈ M, 0 < f.serverId
  serverId_inj : ∀ f ∈ M, ∀ g ∈ M, f.serverId = g.serverId → f = g
  uuid_inj : ∀ f ∈ M, ∀ g ∈ M, f.senderUid = g.senderUid → f.uniqueId = g.uniqueId →
    f.uniqueId ≠ "" → f = g

namespace Database

variable {db db' db₀ : Database} {m : StoredMessage} {result : SaveResult} {t : Int}
  {M D : Set ServerMessage}

def confirmedRows (db : Database) (t : Int) : Set ConfirmedRow :=
  {v | ∃ r ∈ db.messages.rows, r.threadId = t ∧ r.confirmed? = some v}

/-- Neither hidden by a clear nor deleted locally. -/
def Visible (db : Database) (t : Int) (f : ServerMessage) : Prop :=
  (∀ c, db.conversation? t = some c → c.hiddenBeforeId < f.serverId) ∧
    ¬ db.isDeleted t f.serverId

theorem mem_confirmedRows {v : ConfirmedRow} : v ∈ db.confirmedRows t ↔
    ∃ x ∈ db.records, x.threadId = t ∧ x.confirmed? = some v := by
  constructor
  · rintro ⟨r, hr, ht, hv⟩
    exact ⟨r.record, mem_records_of_mem hr, ht, hv⟩
  · rintro ⟨x, hx, ht, hv⟩
    obtain ⟨r, hr, rfl⟩ := List.mem_map.mp hx
    exact ⟨r, hr, ht, hv⟩

theorem confirmed?_eq_some {r : MessageRow} {f : ServerMessage} (h : r.confirmed? = some f.row) :
    r.serverId = some f.serverId ∧ r.senderUid = f.senderUid ∧
      r.uniqueId = (if f.uniqueId = "" then none else some f.uniqueId) := by
  obtain ⟨s, hs, he⟩ := Option.map_eq_some_iff.mp h
  have hfields := ConfirmedRow.mk.inj he
  exact ⟨by rw [hs, hfields.1], hfields.2.1, hfields.2.2.1⟩

/-- Every confirmed row of the thread shows a message of its history. -/
def Consistent (M : Set ServerMessage) (t : Int) (db : Database) : Prop :=
  db.confirmedRows t ⊆ ServerMessage.row '' M

/-- A confirmed copy of a delivered message shows this very message. -/
theorem confirmed_of_isCopy (hM : ServerHistory M) (hcons : Consistent M m.threadId db)
    (hm : m.facts ∈ M) {r : MessageRow} (hr : r ∈ db.messages.rows) (hcopy : IsCopy m r)
    (hs : r.serverId ≠ none) : r.confirmed? = some m.facts.row := by
  obtain ⟨s, hs⟩ := Option.ne_none_iff_exists'.mp hs
  have hv : r.confirmed? = some ⟨s, r.senderUid, r.uniqueId, r.content, r.messageType, r.chatTime⟩ := by
    rw [MessageRow.confirmed?, hs]
    rfl
  obtain ⟨f, hf, he⟩ := hcons ⟨r, hr, hcopy.1, hv⟩
  rw [hv, ← he]
  rw [← he] at hv
  obtain ⟨hid, hsender, huuid⟩ := confirmed?_eq_some hv
  have hfm : f = m.facts := by
    obtain ⟨-, ⟨-, hserver⟩ | ⟨hsame, hsameUuid, hne⟩⟩ := hcopy
    · exact hM.serverId_inj f hf _ hm (Option.some_inj.mp (hid.symm.trans hserver))
    · rw [hsameUuid] at huuid
      split at huuid
      · cases huuid
      next hfne =>
        exact hM.uuid_inj f hf _ hm (hsender.symm.trans hsame) (Option.some_inj.mp huuid).symm hfne
  rw [hfm]

/-- The row written for a delivered message shows it. -/
theorem Writes.confirmed {w : MessageRow} (h : Writes db m w result) (hpos : 0 < m.serverId)
    (hM : ServerHistory M) (hcons : Consistent M m.threadId db) (hm : m.facts ∈ M) :
    w.confirmed? = some m.facts.row := by
  cases h with
  | insert hnil =>
    simp only [MessageRow.confirmed?, StoredMessage.toRow, serverColumn_of_pos hpos, Option.map_some]
    rfl
  | @update row duplicates hcopies hlate =>
    obtain ⟨hrow, hcopy⟩ := mem_findCopies.mp (hcopies ▸ List.mem_cons_self)
    have hkeys : row.senderUid = m.senderUid ∧
        m.uuidColumn.or row.uniqueId = (if m.uniqueId = "" then none else some m.uniqueId) := by
      by_cases hs : row.serverId = none
      · obtain ⟨-, ⟨-, hserver⟩ | ⟨hsame, -, hne⟩⟩ := hcopy
        · rw [hs] at hserver
          cases hserver
        · exact ⟨hsame, by simp [StoredMessage.uuidColumn, hne]⟩
      · have hv := confirmed_of_isCopy hM hcons hm hrow hcopy hs
        obtain ⟨-, hsender, huuid⟩ := confirmed?_eq_some hv
        refine ⟨hsender, ?_⟩
        rw [huuid]
        unfold StoredMessage.uuidColumn StoredMessage.facts
        split <;> rfl
    simp only [MessageRow.confirmed?, MessageRow.merge, serverColumn_of_pos hpos, Option.some_or,
      Option.map_some, hkeys]
    rfl

theorem Writes.confirmed_of_not_pos {w : MessageRow} (h : Writes db m w result)
    (hpos : ¬ 0 < m.serverId) : w.confirmed? = none := by
  rw [MessageRow.confirmed?, h.shape.2.1, serverColumn_of_not_pos hpos]
  rfl

/-- No confirmed row is lost to a save that the server has not confirmed. -/
theorem Writes.not_isCopy {w : MessageRow} (h : Writes db m w result) (hpos : ¬ 0 < m.serverId)
    {r : MessageRow} (hr : r ∈ db.messages.rows) (hs : r.serverId ≠ none) : ¬ IsCopy m r := by
  intro hcopy
  cases h with
  | insert hnil => exact findCopies_eq_nil.mp hnil r hr hcopy
  | update hcopies hlate =>
    obtain ⟨hrow, hrowCopy⟩ := mem_findCopies.mp (hcopies ▸ List.mem_cons_self)
    rw [eq_of_isCopy (not_lt.mp hpos) hrow hr hrowCopy hcopy] at hlate
    exact hlate ⟨hs, not_lt.mp hpos⟩

/-- What one save adds to the confirmed rows of a thread. -/
def added (db : Database) (t : Int) (m : StoredMessage) : Set ServerMessage :=
  {f | f = m.facts ∧ m.threadId = t ∧ 0 < m.serverId ∧ db.Visible t f}

theorem Wrote.confirmedRows {w : MessageRow} (hwrote : Wrote db m w db')
    (hwrites : Writes db m w result) (hM : ServerHistory M) (hcons : Consistent M t db)
    (hm : m.threadId = t → 0 < m.serverId → m.facts ∈ M) (c : Conversation)
    (hc : db.conversation? m.threadId = some c)
    (hvisible : 0 < m.serverId → c.hiddenBeforeId < m.serverId ∧
      ¬ db.isDeleted m.threadId m.serverId) :
    db'.confirmedRows t = db.confirmedRows t ∪ ServerMessage.row '' db.added t m := by
  ext v
  rw [Set.mem_union, mem_confirmedRows]
  constructor
  · rintro ⟨x, hx, rfl, hv⟩
    rcases (hwrote.records x).mp hx with rfl | ⟨hold, -⟩
    · have ht : m.threadId = w.threadId := hwrites.shape.1.symm
      by_cases hpos : 0 < m.serverId
      · have hw := hwrites.confirmed hpos hM (ht ▸ hcons) (hm ht hpos)
        refine .inr ⟨m.facts, ⟨rfl, ht, hpos, fun c' hc' => ?_, ?_⟩, ?_⟩
        · change db.conversation? w.threadId = some c' at hc'
          rw [← ht, hc] at hc'
          cases hc'
          exact (hvisible hpos).1
        · change ¬ db.isDeleted w.threadId m.serverId
          rw [← ht]
          exact (hvisible hpos).2
        · exact Option.some_inj.mp (hw.symm.trans hv)
      · have hw : w.confirmed? = some v := hv
        rw [hwrites.confirmed_of_not_pos hpos] at hw
        cases hw
    · exact .inl (mem_confirmedRows.mpr ⟨x, hold, rfl, hv⟩)
  · rintro (⟨r, hr, ht, hv⟩ | ⟨f, ⟨rfl, ht, hpos, -⟩, rfl⟩)
    · have hs : r.serverId ≠ none := by
        intro hs
        rw [MessageRow.confirmed?, hs] at hv
        cases hv
      by_cases hcopy : IsCopy m r
      · by_cases hpos : 0 < m.serverId
        · have htm : m.threadId = t := hcopy.1.symm.trans ht
          have hfacts := hm htm hpos
          have hshown := confirmed_of_isCopy hM (htm ▸ hcons) hfacts hr hcopy hs
          have hw := hwrites.confirmed hpos hM (htm ▸ hcons) hfacts
          refine ⟨w.record, (hwrote.records _).mpr (.inl rfl), hwrites.shape.1.trans htm, ?_⟩
          exact hw.trans (hshown.symm.trans hv)
        · exact absurd hcopy (hwrites.not_isCopy hpos hr hs)
      · exact ⟨r.record, (hwrote.records _).mpr (.inr ⟨mem_records_of_mem hr, hcopy⟩), ht, hv⟩
    · refine ⟨w.record, (hwrote.records _).mpr (.inl rfl), hwrites.shape.1.trans ht, ?_⟩
      exact hwrites.confirmed hpos hM (ht ▸ hcons) (hm ht hpos)

theorem saveMessage_confirmedRows (hM : ServerHistory M) (hcons : Consistent M t db)
    (hm : m.threadId = t → 0 < m.serverId → m.facts ∈ M)
    (h : db.saveMessage m = .ok (result, db')) :
    db'.confirmedRows t = db.confirmedRows t ∪ ServerMessage.row '' db.added t m := by
  obtain ⟨-, c, hc, hcases⟩ := saveMessage_cases h
  have hnone : ¬ db.Visible m.threadId m.facts → db.added t m = ∅ := fun hvis => by
    refine Set.eq_empty_of_forall_notMem ?_
    rintro f ⟨rfl, rfl, -, hv⟩
    exact hvis hv
  rcases hcases with ⟨-, hle, -, rfl⟩ | ⟨-, -, hdel, -, hdb⟩ | ⟨hvisible, hmerge⟩
  · have hvis : ¬ db.Visible m.threadId m.facts := fun hv => absurd hle (not_le.mpr (hv.1 c hc))
    rw [hnone hvis, Set.image_empty, Set.union_empty]
    ext v
    constructor
    · rintro ⟨r, hr, ht, hv⟩
      exact ⟨r, (Table.mem_delete.mp hr).1, ht, hv⟩
    · rintro ⟨r, hr, ht, hv⟩
      refine ⟨r, Table.mem_delete.mpr ⟨hr, decide_eq_false ?_⟩, ht, hv⟩
      rintro ⟨-, -, -, hserver⟩
      rw [MessageRow.confirmed?, hserver] at hv
      cases hv
  · have hvis : ¬ db.Visible m.threadId m.facts := fun hv => hv.2 hdel
    rw [hdb, hnone hvis, Set.image_empty, Set.union_empty]
  · rcases mergeMessage_cases hmerge with ⟨_, -, -, -, hle, -, hdb⟩ | ⟨w, hwrites, hwrote⟩
    · have hempty : db.added t m = ∅ := by
        refine Set.eq_empty_of_forall_notMem ?_
        rintro f ⟨-, -, hpos, -⟩
        exact absurd hpos (not_lt.mpr hle)
      rw [hdb, hempty, Set.image_empty, Set.union_empty]
    · exact hwrote.confirmedRows hwrites hM hcons hm c hc hvisible

end Database
end CppChat.LocalStore
