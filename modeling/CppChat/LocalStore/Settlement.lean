import CppChat.LocalStore.Safety

/-! # Settling the pending copy of a message

A confirmation that the hidden boundary suppresses still removes the pending copy of its
message. A confirmation that a tombstone suppresses returns before it does, so a copy
written after the deletion stays open. Every other confirmation folds the copy into the
confirmed row.
-/
namespace CppChat.LocalStore
open Foundation
namespace Database

variable {db db' : Database} {m : StoredMessage} {result : SaveResult}

/-- No row of the message's sender and UUID still awaits the server. -/
def Settled (db : Database) (m : StoredMessage) : Prop :=
  ∀ r ∈ db.messages.rows, r.threadId = m.threadId → r.senderUid = m.senderUid →
    r.uniqueId = some m.uniqueId → r.serverId ≠ none

theorem settled_iff : db.Settled m ↔ ∀ r ∈ db.messages.rows, ¬ IsPendingCopy m r := by
  constructor
  · rintro h r hr ⟨ht, hs, hu, hnone⟩
    exact h r hr ht hs hu hnone
  · intro h r hr ht hs hu hnone
    exact h r hr ⟨ht, hs, hu, hnone⟩

theorem settled_iff_records : db.Settled m ↔ ∀ x ∈ db.records, ¬ IsPendingCopy m x := by
  rw [settled_iff, records, List.forall_mem_map]
  exact Iff.rfl

theorem removePending_settled : (db.removePending m).Settled m := by
  rw [settled_iff]
  intro r hr hpending
  have hkeep := (Table.mem_delete.mp hr).2
  rw [decide_eq_false_iff_not] at hkeep
  exact hkeep hpending

/-- A write of a confirmed message leaves its one confirmed row. -/
theorem Wrote.settled {w : MessageRow} (hwrites : Writes db m w result) (h : Wrote db m w db')
    (hpos : 0 < m.serverId) (hu : m.uniqueId ≠ "") : db'.Settled m := by
  rw [settled_iff_records]
  rintro x hx ⟨ht, hs, huuid, hnone⟩
  rcases (h.records x).mp hx with rfl | ⟨-, hcopy⟩
  · have hserver : w.serverId = none := hnone
    rw [hwrites.shape.2.1, serverColumn_of_pos hpos] at hserver
    cases hserver
  · exact hcopy ⟨ht, .inr ⟨hs, huuid, hu⟩⟩

/-- A confirmation settles the pending copy exactly when it is not stopped by a tombstone,
or there was no such copy. -/
theorem saveMessage_settles_iff (hpos : 0 < m.serverId) (hu : m.uniqueId ≠ "")
    (h : db.saveMessage m = .ok (result, db')) :
    db'.Settled m ↔ (∃ c, db.conversation? m.threadId = some c ∧ m.serverId ≤ c.hiddenBeforeId) ∨
      ¬ db.isDeleted m.threadId m.serverId ∨ db.Settled m := by
  obtain ⟨-, c, hc, hcases⟩ := saveMessage_cases h
  rcases hcases with ⟨-, hle, -, rfl⟩ | ⟨-, hlt, hdel, -, rfl⟩ | ⟨hvisible, hmerge⟩
  · exact iff_of_true removePending_settled (.inl ⟨c, hc, hle⟩)
  · constructor
    · exact fun hs => .inr (.inr hs)
    · rintro (⟨c', hc', hle⟩ | hnot | hs)
      · rw [hc] at hc'
        cases hc'
        exact absurd hle (not_le.mpr hlt)
      · exact absurd hdel hnot
      · exact hs
  · refine iff_of_true ?_ (.inr (.inl (hvisible hpos).2))
    rcases mergeMessage_cases hmerge with ⟨_, -, -, -, hle, -⟩ | ⟨w, hwrites, hwrote⟩
    · exact absurd hpos (not_lt.mpr hle)
    · exact hwrote.settled hwrites hpos hu

end Database

open Database

/-- A pending message whose confirmation arrives: the first kind of settled save. -/
theorem saveMessage_settles_iff_sample :
    let db := runCalls (create 0) [⟨.saveConversations [⟨1, 8, 0, none, none, ""⟩], false⟩,
      ⟨.saveMessages [sampleMessage 0] 0 (-1) 0, false⟩]
    ∃ db', db.saveMessage (sampleMessage 5) = .ok (.new, db') ∧
      (db'.Settled (sampleMessage 5) ↔
        (∃ c, db.conversation? 1 = some c ∧ 5 ≤ c.hiddenBeforeId) ∨
          ¬ db.isDeleted 1 5 ∨ db.Settled (sampleMessage 5)) :=
  ⟨_, rfl, saveMessage_settles_iff (by decide) (by decide) rfl⟩

/-- The confirmed message is deleted locally, a late failure report stores it again as
pending, and the repeated confirmation is suppressed. -/
def tombstoneCalls : List Call :=
  sampleCalls ++ [⟨.deleteLocalMessages 1 [5], false⟩,
    ⟨.saveMessages [{ sampleMessage 0 with status := sendFailed }] 0 (-1) 0, false⟩]

theorem tombstone_leaves_pending : ¬ ∀ db, store.Reachable db → ∀ m result db',
    0 < m.serverId → m.uniqueId ≠ "" → db.saveMessage m = .ok (result, db') → db'.Settled m := by
  intro h
  have hreach := runCalls_reachable (.init ⟨0, rfl⟩) tombstoneCalls
  have hsave : (runCalls (create 0) tombstoneCalls).saveMessage (sampleMessage 5) =
      .ok (.suppressed, runCalls (create 0) tombstoneCalls) := by rfl
  have hsettled := settled_iff.mp (h _ hreach _ _ _ (by decide) (by decide) hsave)
  revert hsettled
  decide

end CppChat.LocalStore
