import CppChat.LocalStore.Confluence

/-! # Saves that are accepted

A save fails on a message without an identity, without a conversation, with a clashing key
or without the text of a `NOT NULL` column. None of this can happen to the messages of a
server history: once its confirmed rows agree with the history, the store accepts each of
them and every pending send.
-/
namespace CppChat.LocalStore
open Foundation

def ServerMessage.summary (f : ServerMessage) : Option String :=
  if f.type = 1 then some "[图片]"
  else if f.type = 2 then some "[文件]"
  else if f.type = 3 then some "[语音]"
  else f.content

/-- The time and the summary are there; the servers write both into every message. -/
def ServerMessage.HasText (f : ServerMessage) : Prop := f.time ≠ none ∧ f.summary ≠ none

instance (f : ServerMessage) : Decidable f.HasText := inferInstanceAs (Decidable (_ ∧ _))

namespace Database

variable {db db' : Database} {m : StoredMessage} {result : SaveResult} {M : Set ServerMessage}

theorem insertMessage_accepts (hnil : db.findCopies m = []) :
    ∃ db1, db.insertMessage m = .ok db1 := by
  have hclash : ∀ r ∈ db.messages.rows, ¬ r.Clash (m.toRow db.nextLocalId) := by
    intro r hr hc
    have hnot := findCopies_eq_nil.mp hnil r hr
    rcases hc with hid | ⟨ht, hs, he⟩ | ⟨ht, hsame, hu, he⟩
    · exact absurd hid (localId_lt_next hr).ne
    · have he : r.serverId = m.serverColumn := he
      rw [he] at hs
      unfold StoredMessage.serverColumn at he hs
      split at he
      next hpos => exact hnot ⟨ht, .inl ⟨hpos, he⟩⟩
      next hpos => exact hs (if_neg hpos)
    · have he : r.uniqueId = m.uuidColumn := he
      rw [he] at hu
      unfold StoredMessage.uuidColumn at he hu
      split at he
      next hempty => exact hu (if_pos hempty)
      next hne => exact hnot ⟨ht, .inr ⟨hsame, he, hne⟩⟩
  obtain ⟨messages, hins, -⟩ := Table.insert_isSome hclash
  exact ⟨{ db with messages }, by rw [insertMessage, hins]⟩

/-- The first copy rewritten clashes with no row that is not a copy itself. -/
theorem merge_not_clash (hM : ServerHistory M) (hcons : Consistent M m.threadId db)
    (hm : 0 < m.serverId → m.facts ∈ M) {row r : MessageRow} (hrow : row ∈ db.messages.rows)
    (hcopy : IsCopy m row) (hlate : ¬ (row.serverId ≠ none ∧ m.serverId ≤ 0))
    (hnot : ¬ IsCopy m r) (hkept : ¬ row.Clash r) : ¬ (row.merge m).Clash r := by
  rintro (hid | ⟨ht, hs, he⟩ | ⟨ht, hsender, hu, he⟩)
  · exact hkept (.inl hid)
  · have ht : row.threadId = r.threadId := ht
    by_cases hpos : 0 < m.serverId
    · have hserver : (row.merge m).serverId = some m.serverId := by
        simp [MessageRow.merge, serverColumn_of_pos hpos]
      exact hnot ⟨ht.symm.trans hcopy.1, .inl ⟨hpos, he.symm.trans hserver⟩⟩
    · have hnone : row.serverId = none := by
        by_contra hne
        exact hlate ⟨hne, not_lt.mp hpos⟩
      exact hs (by simp [MessageRow.merge, serverColumn_of_not_pos hpos, hnone])
  · have ht : row.threadId = r.threadId := ht
    have hsender : row.senderUid = r.senderUid := hsender
    by_cases huuid : m.uniqueId = ""
    · have hsame : (row.merge m).uniqueId = row.uniqueId := by
        simp [MessageRow.merge, StoredMessage.uuidColumn, huuid]
      rw [hsame] at hu he
      exact hkept (.inr (.inr ⟨ht, hsender, hu, he⟩))
    · have hwritten : (row.merge m).uniqueId = some m.uniqueId := by
        simp [MessageRow.merge, StoredMessage.uuidColumn, huuid]
      have hown : row.senderUid = m.senderUid := by
        obtain ⟨-, ⟨hpos, hserver⟩ | ⟨hown, -⟩⟩ := id hcopy
        · have hs : row.serverId ≠ none := hserver ▸ Option.some_ne_none _
          exact (confirmed?_eq_some (confirmed_of_isCopy hM hcons (hm hpos) hrow hcopy hs)).2.1
        · exact hown
      exact hnot ⟨ht.symm.trans hcopy.1, .inr ⟨hsender.symm.trans hown,
        he.symm.trans hwritten, huuid⟩⟩

theorem updateMessage_accepts (hM : ServerHistory M) (hcons : Consistent M m.threadId db)
    (hm : 0 < m.serverId → m.facts ∈ M) {row : MessageRow} {duplicates : List MessageRow}
    (hcopies : db.findCopies m = row :: duplicates)
    (hlate : ¬ (row.serverId ≠ none ∧ m.serverId ≤ 0)) :
    ∃ db1, (db.removeRows duplicates).updateMessage row.localId m = .ok db1 := by
  obtain ⟨hrow, hcopy⟩ := mem_findCopies.mp (hcopies ▸ List.mem_cons_self)
  -- a row that stays beside the first copy is none of the copies
  have hother : ∀ r ∈ (db.removeRows duplicates).messages.rows, r.localId ≠ row.localId →
      ¬ (row.merge m).Clash r := by
    intro r hr hid
    obtain ⟨hr, hkeep⟩ := Table.mem_delete.mp hr
    refine merge_not_clash hM hcons hm hrow hcopy hlate (fun hc => ?_) fun hc => ?_
    · rcases List.mem_cons.mp (hcopies ▸ mem_findCopies.mpr ⟨hr, hc⟩) with rfl | hd
      · exact hid rfl
      · exact decide_eq_false_iff_not.mp hkeep (List.mem_map_of_mem hd)
    · exact hid (eq_of_clash hrow hr hc ▸ rfl)
  have hupd : (((db.removeRows duplicates).messages.rows.map fun r =>
      if r.localId = row.localId then r.merge m else r).Pairwise fun a b => ¬ a.Clash b) := by
    rw [List.pairwise_map]
    refine (db.removeRows duplicates).messages.unique.imp_of_mem fun {a b} ha hb hab => ?_
    have hrowOf : ∀ r ∈ (db.removeRows duplicates).messages.rows, r.localId = row.localId →
        r = row := fun r hr hid => eq_of_clash (Table.mem_delete.mp hr).1 hrow (.inl hid)
    by_cases hia : a.localId = row.localId
    · have hib : b.localId ≠ row.localId := fun hib => hab (.inl (hia.trans hib.symm))
      rw [if_pos hia, if_neg hib, hrowOf a ha hia]
      exact hother b hb hib
    · rw [if_neg hia]
      by_cases hib : b.localId = row.localId
      · rw [if_pos hib, hrowOf b hb hib]
        exact fun hc => hother a ha hia hc.symm
      · rwa [if_neg hib]
  exact ⟨{ db.removeRows duplicates with messages := ⟨_, hupd⟩ }, by
    rw [updateMessage, Table.update, dif_pos hupd]⟩

theorem settle_accepts (hc : (db.conversation? m.threadId).isSome)
    (hm : 0 < m.serverId → m.facts.HasText) : ∃ db1, db.settle m = .ok db1 := by
  unfold settle
  split
  next hpos =>
    obtain ⟨c, hc⟩ := Option.isSome_iff_exists.mp hc
    obtain ⟨time, htime⟩ := Option.ne_none_iff_exists'.mp (hm hpos).1
    obtain ⟨summary, hsummary⟩ := Option.ne_none_iff_exists'.mp (hm hpos).2
    have htime : m.time = some time := htime
    have hsummary : m.summary = some summary := hsummary
    unfold updateSummary
    rw [releaseImage_conversation, hc]
    simp only [htime, hsummary]
    split <;> exact ⟨_, rfl⟩
  next => exact ⟨db, rfl⟩

theorem mergeMessage_accepts (hM : ServerHistory M) (hcons : Consistent M m.threadId db)
    (hc : (db.conversation? m.threadId).isSome)
    (hm : 0 < m.serverId → m.facts ∈ M ∧ m.facts.HasText) :
    ∃ result db', db.mergeMessage m = .ok (result, db') := by
  unfold mergeMessage
  split
  next hnil =>
    obtain ⟨db1, hins⟩ := insertMessage_accepts hnil
    have hc1 : (db1.conversation? m.threadId).isSome := by
      unfold insertMessage at hins
      split at hins
      · cases hins
        exact hc
      · cases hins
    obtain ⟨db2, hset⟩ := settle_accepts hc1 fun hpos => (hm hpos).2
    exact ⟨_, db2, bind_eq_ok.mpr ⟨db1, hins, bind_eq_ok.mpr ⟨db2, hset, rfl⟩⟩⟩
  next row duplicates hcopies =>
    split
    next => exact ⟨_, _, rfl⟩
    next hlate =>
      obtain ⟨db1, hupd⟩ := updateMessage_accepts hM hcons (fun hpos => (hm hpos).1) hcopies hlate
      have hc1 : (db1.conversation? m.threadId).isSome := by
        unfold updateMessage at hupd
        split at hupd
        · cases hupd
          exact hc
        · cases hupd
      obtain ⟨db2, hset⟩ := settle_accepts hc1 fun hpos => (hm hpos).2
      exact ⟨_, db2, bind_eq_ok.mpr ⟨db1, hupd, bind_eq_ok.mpr ⟨db2, hset, rfl⟩⟩⟩

/-- A message of the history, or a pending send, of a known conversation is accepted. -/
theorem saveMessage_accepts (hM : ServerHistory M) (hcons : Consistent M m.threadId db)
    (hid : m.HasIdentity) (hc : (db.conversation? m.threadId).isSome)
    (hm : 0 < m.serverId → m.facts ∈ M ∧ m.facts.HasText) :
    ∃ result db', db.saveMessage m = .ok (result, db') := by
  obtain ⟨c, hc'⟩ := Option.isSome_iff_exists.mp hc
  unfold saveMessage
  simp only [if_neg (not_not.mpr hid), hc']
  split
  · exact ⟨_, _, rfl⟩
  · split
    · exact ⟨_, _, rfl⟩
    · exact mergeMessage_accepts hM hcons hc hm

end Database
end CppChat.LocalStore
