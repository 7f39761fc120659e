import Mathlib.Logic.Function.Basic
import CppChat.Foundation.Transition

/-! # The messages of a thread in memory

`ChatThreadData` keeps confirmed messages under their ids and messages that were not answered
yet under their uuids. A confirmed message takes over the pending object with its uuid.
-/
namespace CppChat.Threads.Memory
open Foundation

inductive ChatMsgType
  | text
  | pic
  | file
  | audio
  deriving DecidableEq

structure ChatData where
  uniqueId : String
  msgId : Int
  msgType : ChatMsgType
  content : String
  sendUid : Int
  status : Int
  chatTime : String
  deriving DecidableEq

def ChatData.summary (m : ChatData) : String :=
  match m.msgType with
  | .pic => "[图片]"
  | .file => "[文件]"
  | .audio => "[语音]"
  | .text => m.content

structure ChatThreadData where
  msgMap : Int → Option ChatData
  msgUnrspMap : String → Option ChatData
  pendingOrder : List String
  lastMsgId : Int
  lastMsg : String
  lastChatTime : String

namespace ChatThreadData

def create (lastMsgId : Int) : ChatThreadData :=
  ⟨fun _ => none, fun _ => none, [], lastMsgId, "", ""⟩

def addMsg (s : ChatThreadData) (m : ChatData) : ChatThreadData :=
  let inserted := { s with msgMap := Function.update s.msgMap m.msgId (some m) }
  if s.lastMsgId ≤ m.msgId then
    { inserted with
      lastMsg := m.summary
      lastMsgId := m.msgId
      lastChatTime := if m.chatTime = "" then s.lastChatTime else m.chatTime }
  else inserted

def erasePending (s : ChatThreadData) (uniqueId : String) : ChatThreadData :=
  { s with
    msgUnrspMap := Function.update s.msgUnrspMap uniqueId none
    pendingOrder := s.pendingOrder.filter (· ≠ uniqueId) }

/-- The pending object gets the id, status, time and content of the message; its sender and
type stay. -/
def moveMsg (s : ChatThreadData) (m : ChatData) : ChatThreadData :=
  match s.msgUnrspMap m.uniqueId with
  | none => s.addMsg m
  | some pending =>
    (s.addMsg { pending with
      msgId := m.msgId
      status := m.status
      chatTime := m.chatTime
      content := m.content }).erasePending m.uniqueId

def removeLocalMessage (s : ChatThreadData) (msgId : Int) : ChatThreadData :=
  { s with
    msgMap := Function.update s.msgMap msgId none
    lastMsg := if s.lastMsgId = msgId then "[本机已删除消息]" else s.lastMsg }

def forgetPendingMessage (s : ChatThreadData) (senderUid : Int) (uniqueId : String) :
    ChatThreadData :=
  match s.msgUnrspMap uniqueId with
  | none => s
  | some pending => if pending.sendUid = senderUid then s.erasePending uniqueId else s

def clearLocalMessages (s : ChatThreadData) : ChatThreadData :=
  { s with msgMap := fun _ => none, lastMsg := "" }

def restoreLocalSummary (s : ChatThreadData) (msgId : Int) (summary : String) : ChatThreadData :=
  if s.lastMsgId = msgId then { s with lastMsg := summary } else s

def appendUnRspMsg (s : ChatThreadData) (m : ChatData) : ChatThreadData :=
  { s with
    pendingOrder :=
      if (s.msgUnrspMap m.uniqueId).isSome then s.pendingOrder else s.pendingOrder ++ [m.uniqueId]
    msgUnrspMap := Function.update s.msgUnrspMap m.uniqueId (some m)
    lastMsg := m.summary }

end ChatThreadData

/-- The calls that `ChatSyncService` and `MessageSender` make on a thread. -/
inductive Call
  | append (m : ChatData)
  | move (m : ChatData)
  | add (m : ChatData)
  | forget (senderUid : Int) (uniqueId : String)
  | remove (msgId : Int)
  | clear
  | restore (msgId : Int) (summary : String)

def ChatThreadData.apply (s : ChatThreadData) : Call → ChatThreadData
  | .append m => s.appendUnRspMsg m
  | .move m => s.moveMsg m
  | .add m => s.addMsg m
  | .forget senderUid uniqueId => s.forgetPendingMessage senderUid uniqueId
  | .remove msgId => s.removeLocalMessage msgId
  | .clear => s.clearLocalMessages
  | .restore msgId summary => s.restoreLocalSummary msgId summary

/-- The loop over the messages of a page or a notification after they were saved; the flag
says whether a message was suppressed. -/
def receive (s : ChatThreadData) : List (ChatData × Bool) → ChatThreadData
  | [] => s
  | (m, true) :: rest => receive (s.forgetPendingMessage m.sendUid m.uniqueId) rest
  | (m, false) :: rest => receive (s.moveMsg m) rest

/-- The loop over the rows of a local load; pending rows have no server id. -/
def restoreRows (s : ChatThreadData) : List ChatData → ChatThreadData
  | [] => s
  | m :: rest =>
    if 0 < m.msgId then restoreRows (s.moveMsg m) rest
    else if (s.msgUnrspMap m.uniqueId).isSome then restoreRows s rest
    else restoreRows (s.appendUnRspMsg m) rest

def restoreSummaries (s : ChatThreadData) : List (Int × String) → ChatThreadData
  | [] => s
  | (msgId, summary) :: rest => restoreSummaries (s.restoreLocalSummary msgId summary) rest

/-- What `ReadLocalMessages` does with the rows it read. -/
def load (s : ChatThreadData) (rows : List ChatData) (summaries : List (Int × String)) :
    ChatThreadData :=
  restoreSummaries (restoreRows s.clearLocalMessages rows) summaries

/-- What a message is, whatever its delivery. -/
structure Identity where
  sender : Int
  uniqueId : String
  content : String
  msgType : ChatMsgType
  deriving DecidableEq

def ChatData.identity (m : ChatData) : Identity := ⟨m.sendUid, m.uniqueId, m.content, m.msgType⟩

/-- The server's messages. Within the messages of the own user a uuid stands for one message,
so the types agree with those of the messages that this user sends. -/
structure Server (uid : Int) where
  messages : Int → Option Identity
  outgoing : String → ChatMsgType
  agrees : ∀ i m, messages i = some m → m.sender = uid → m.msgType = outgoing m.uniqueId

variable {uid : Int} (server : Server uid)

def Confirmed (m : ChatData) : Prop := server.messages m.msgId = some m.identity

/-- Pending messages are the user's own; all others are the server's. -/
def Lawful : Call → Prop
  | .append m => m.sendUid = uid ∧ m.msgId = 0 ∧ m.msgType = server.outgoing m.uniqueId
  | .move m | .add m => Confirmed server m
  | .forget senderUid uniqueId => ∃ m, Confirmed server m ∧ m.sendUid = senderUid ∧
      m.uniqueId = uniqueId
  | _ => True

/-- Any sequence of calls on a thread. -/
def machine : Machine ChatThreadData Call where
  init s := ∃ lastMsgId, s = .create lastMsgId
  step s c t := Lawful server c ∧ t = s.apply c

/-- No pending message has the uuid of a message of another sender. -/
def Distinct (s : ChatThreadData) : Call → Prop
  | .move m => s.msgUnrspMap m.uniqueId = none ∨ m.sendUid = uid
  | _ => True

/-- Every entry is the server's message of that id. -/
def Entries (s : ChatThreadData) : Prop :=
  ∀ i e, s.msgMap i = some e → e.msgId = i ∧ Confirmed server e

/-- Every pending message is the user's own. -/
def Pending (s : ChatThreadData) : Prop :=
  ∀ u p, s.msgUnrspMap u = some p →
    p.sendUid = uid ∧ p.uniqueId = u ∧ p.msgId = 0 ∧ p.msgType = server.outgoing u

variable {server} {s t : ChatThreadData} {m p : ChatData} {c : Call} {u : String}

namespace ChatThreadData

@[simp] theorem addMsg_msgMap :
    (s.addMsg m).msgMap = Function.update s.msgMap m.msgId (some m) := by
  unfold addMsg
  split <;> rfl

@[simp] theorem addMsg_msgUnrspMap : (s.addMsg m).msgUnrspMap = s.msgUnrspMap := by
  unfold addMsg
  split <;> rfl

@[simp] theorem restoreLocalSummary_msgMap {i : Int} {text : String} :
    (s.restoreLocalSummary i text).msgMap = s.msgMap := by
  unfold restoreLocalSummary
  split <;> rfl

@[simp] theorem restoreLocalSummary_msgUnrspMap {i : Int} {text : String} :
    (s.restoreLocalSummary i text).msgUnrspMap = s.msgUnrspMap := by
  unfold restoreLocalSummary
  split <;> rfl

theorem moveMsg_msgUnrspMap :
    (s.moveMsg m).msgUnrspMap = Function.update s.msgUnrspMap m.uniqueId none := by
  unfold moveMsg
  split
  · rw [addMsg_msgUnrspMap]
    exact (Function.update_eq_self_iff.mpr (Eq.symm ‹_›)).symm
  · rw [erasePending, addMsg_msgUnrspMap]

/-- The object that a confirmed message puts into the map. -/
def placed (s : ChatThreadData) (m : ChatData) : ChatData :=
  match s.msgUnrspMap m.uniqueId with
  | none => m
  | some pending => { pending with
      msgId := m.msgId
      status := m.status
      chatTime := m.chatTime
      content := m.content }

theorem moveMsg_msgMap :
    (s.moveMsg m).msgMap = Function.update s.msgMap m.msgId (some (s.placed m)) := by
  unfold moveMsg placed
  split
  · rw [addMsg_msgMap]
  · rw [erasePending, addMsg_msgMap]

theorem forgetPendingMessage_msgMap {senderUid : Int} :
    (s.forgetPendingMessage senderUid u).msgMap = s.msgMap := by
  unfold forgetPendingMessage
  split
  · rfl
  · split <;> rfl

end ChatThreadData

theorem Entries.update {i : Int} {x : ChatData} (h : Entries server s)
    (hmap : t.msgMap = Function.update s.msgMap i (some x)) :
    Entries server t ↔ ((x.msgId = i ∧ Confirmed server x)) := by
  refine ⟨fun ht => ht i x (by rw [hmap, Function.update_self]), fun hx j e he => ?_⟩
  rw [hmap] at he
  by_cases hj : j = i
  · subst hj
    rw [Function.update_self] at he
    exact Option.some_inj.mp he ▸ hx
  · rw [Function.update_of_ne hj] at he
    exact h j e he

/-- A confirmed message stays the server's in memory exactly when it meets no pending message
of another sender. -/
theorem Entries.move (h : Entries server s) (hp : Pending server s) (hm : Confirmed server m) :
    Entries server (s.moveMsg m) ↔ s.msgUnrspMap m.uniqueId = none ∨ m.sendUid = uid := by
  rw [h.update ChatThreadData.moveMsg_msgMap]
  unfold ChatThreadData.placed
  cases hpending : s.msgUnrspMap m.uniqueId with
  | none => simpa using hm
  | some p =>
    obtain ⟨hsender, hu, -, htype⟩ := hp _ p hpending
    simp only [reduceCtorEq, false_or, true_and]
    constructor
    · intro hplaced
      have hid := Option.some_inj.mp (hm.symm.trans hplaced)
      exact (congrArg Identity.sender hid).trans hsender
    · intro hown
      have hagrees := server.agrees _ _ hm hown
      have hid : m.identity = ChatData.identity { p with
          msgId := m.msgId
          status := m.status
          chatTime := m.chatTime
          content := m.content } := by
        simp only [ChatData.identity, Identity.mk.injEq] at hagrees ⊢
        exact ⟨hown.trans hsender.symm, hu.symm, trivial, hagrees.trans htype.symm⟩
      exact hm.trans (congrArg some hid)

/-- Each lawful call keeps the pending messages the user's own. -/
theorem Pending.apply (h : Pending server s) (hc : Lawful server c) :
    Pending server (s.apply c) := by
  have herase : ∀ x, ∀ v q, Function.update s.msgUnrspMap x none v = some q →
      s.msgUnrspMap v = some q := by
    intro x v q hq
    by_cases hv : v = x
    · rw [hv, Function.update_self] at hq
      cases hq
    · rwa [Function.update_of_ne hv] at hq
  intro v q hq
  cases c with
  | append m =>
    by_cases hv : v = m.uniqueId
    · subst hv
      have hq' : some m = some q := (Function.update_self (f := s.msgUnrspMap) ..).symm.trans hq
      obtain rfl := Option.some_inj.mp hq'
      exact ⟨hc.1, rfl, hc.2⟩
    · exact h v q ((Function.update_of_ne hv _ _).symm.trans hq)
  | move m =>
    rw [ChatThreadData.apply, ChatThreadData.moveMsg_msgUnrspMap] at hq
    exact h v q (herase _ v q hq)
  | add m =>
    rw [ChatThreadData.apply, ChatThreadData.addMsg_msgUnrspMap] at hq
    exact h v q hq
  | forget senderUid x =>
    rw [ChatThreadData.apply, ChatThreadData.forgetPendingMessage] at hq
    split at hq
    · exact h v q hq
    · split at hq
      · exact h v q (herase x v q hq)
      · exact h v q hq
  | restore i text =>
    rw [ChatThreadData.apply, ChatThreadData.restoreLocalSummary_msgUnrspMap] at hq
    exact h v q hq
  | remove i => exact h v q hq
  | clear => exact h v q hq

theorem Entries.apply (h : Entries server s) (hp : Pending server s) (hc : Lawful server c)
    (hdistinct : @Distinct uid s c) : Entries server (s.apply c) := by
  cases c with
  | move m => exact (h.move hp hc).mpr hdistinct
  | add m => exact (h.update ChatThreadData.addMsg_msgMap).mpr ⟨rfl, hc⟩
  | forget senderUid x =>
    rw [ChatThreadData.apply, Entries, ChatThreadData.forgetPendingMessage_msgMap]
    exact h
  | restore i text =>
    rw [ChatThreadData.apply, Entries, ChatThreadData.restoreLocalSummary_msgMap]
    exact h
  | remove i =>
    intro j e he
    by_cases hj : j = i
    · rw [hj] at he
      exact absurd ((Function.update_self ..).symm.trans he) nofun
    · exact h j e ((Function.update_of_ne hj _ _).symm.trans he)
  | append m => exact h
  | clear => exact nofun

/-- The confirmed message of the own user that a call delivers. -/
def Confirms (server : Server uid) (u : String) : Call → Prop
  | .move m => Confirmed server m ∧ m.sendUid = uid ∧ m.uniqueId = u
  | .forget senderUid uniqueId =>
    senderUid = uid ∧ uniqueId = u ∧ ∃ m, Confirmed server m ∧ m.sendUid = uid ∧ m.uniqueId = u
  | _ => False

/-- A pending copy stays, unmarked, until its own confirmed message comes. -/
theorem Pending.kept (h : Pending server s) (hc : Lawful server c)
    (hdistinct : @Distinct uid s c) (hu : s.msgUnrspMap u = some p) :
    (∃ p', (s.apply c).msgUnrspMap u = some p' ∧ p'.msgId = 0 ∧ p'.sendUid = uid) ∨
      Confirms server u c := by
  obtain ⟨hsender, -, hid, -⟩ := h u p hu
  have hstays : (s.apply c).msgUnrspMap u = s.msgUnrspMap u →
      ∃ p', (s.apply c).msgUnrspMap u = some p' ∧ p'.msgId = 0 ∧ p'.sendUid = uid :=
    fun heq => ⟨p, heq.trans hu, hid, hsender⟩
  cases c with
  | append m =>
    by_cases hv : u = m.uniqueId
    · subst hv
      exact .inl ⟨m, Function.update_self .., hc.2.1, hc.1⟩
    · exact .inl (hstays (Function.update_of_ne hv _ _))
  | move m =>
    by_cases hv : u = m.uniqueId
    · subst hv
      refine .inr ⟨hc, hdistinct.resolve_left ?_, rfl⟩
      rw [hu]
      exact nofun
    · refine .inl (hstays ?_)
      rw [ChatThreadData.apply, ChatThreadData.moveMsg_msgUnrspMap, Function.update_of_ne hv]
  | add m => exact .inl (hstays (congrFun ChatThreadData.addMsg_msgUnrspMap u))
  | forget senderUid x =>
    by_cases hx : u = x ∧ senderUid = uid
    · obtain ⟨rfl, rfl⟩ := hx
      exact .inr ⟨rfl, rfl, hc⟩
    · refine .inl (hstays ?_)
      rw [ChatThreadData.apply, ChatThreadData.forgetPendingMessage]
      split
      · rfl
      · split
        · rename_i q hq heq
          refine Function.update_of_ne (fun hux => hx ⟨hux, ?_⟩) _ _
          exact heq.symm.trans (h x q hq).1
        · rfl
  | restore i text =>
    exact .inl (hstays (congrFun ChatThreadData.restoreLocalSummary_msgUnrspMap u))
  | remove i => exact .inl (hstays rfl)
  | clear => exact .inl (hstays rfl)

theorem pending_of_reachable (hs : (machine server).Reachable s) : Pending server s := by
  have hinv : (machine server).Invariant (Pending server) := by
    refine ⟨?_, ?_⟩
    · rintro s ⟨lastMsgId, rfl⟩ u p hu
      cases hu
    · rintro s c t - h ⟨hc, rfl⟩
      exact h.apply hc
  exact hinv.reachable hs

theorem entries_of_reachable
    (hs : ((machine server).restrict (@Distinct uid)).Reachable s) :
    Entries server s := by
  induction hs with
  | init h =>
    obtain ⟨lastMsgId, rfl⟩ := h
    intro i e he
    cases he
  | step hs h ih =>
    obtain ⟨hdistinct, hc, rfl⟩ := h
    exact ih.apply (pending_of_reachable hs.of_restrict) hc hdistinct

/-- What arrives from the server makes a sequence of calls. -/
theorem receive_run {items : List (ChatData × Bool)} (h : ∀ x ∈ items, Confirmed server x.1) :
    (machine server).Run s (receive s items) := by
  induction items generalizing s with
  | nil => exact .refl
  | cons x items ih =>
    obtain ⟨m, suppressed⟩ := x
    have hm := h (m, suppressed) List.mem_cons_self
    have hrest : ∀ x ∈ items, Confirmed server x.1 := fun x hx => h x (List.mem_cons_of_mem _ hx)
    cases suppressed with
    | true => exact .head ⟨.forget m.sendUid m.uniqueId, ⟨m, hm, rfl, rfl⟩, rfl⟩ (ih hrest)
    | false => exact .head ⟨.move m, hm, rfl⟩ (ih hrest)

/-- So does a local load, whose rows are the server's or the user's pending ones. -/
theorem load_run {rows : List ChatData} {summaries : List (Int × String)}
    (h : ∀ m ∈ rows, (0 < m.msgId → Confirmed server m) ∧
      (m.msgId ≤ 0 → Lawful server (.append m))) :
    (machine server).Run s (load s rows summaries) := by
  have hrows : ∀ s, (machine server).Run s (restoreRows s rows) := by
    induction rows with
    | nil => exact fun s => .refl
    | cons m rows ih =>
      obtain ⟨hconfirmed, hpending⟩ := h m List.mem_cons_self
      have ih := ih fun m' hm' => h m' (List.mem_cons_of_mem _ hm')
      intro s
      rw [restoreRows]
      split
      · exact .head ⟨.move m, hconfirmed ‹_›, rfl⟩ (ih _)
      · split
        · exact ih s
        · exact .head ⟨.append m, hpending (Int.not_lt.mp ‹_›), rfl⟩ (ih _)
  have hsummaries : ∀ s, (machine server).Run s (restoreSummaries s summaries) := by
    induction summaries with
    | nil => exact fun s => .refl
    | cons x summaries ih =>
      exact fun s => .head ⟨.restore x.1 x.2, trivial, rfl⟩ (ih _)
  exact .head ⟨.clear, trivial, rfl⟩ ((hrows _).trans (hsummaries _))

/-- Whatever calls came before, the messages of different senders are kept apart as long as no
message of another sender meets a pending one with its uuid, and no longer. What arrives from the
server and a local load are such calls. -/
theorem apart_of_distinct
    (hs : ((machine server).restrict (@Distinct uid)).Reachable s) :
    Entries server s ∧
      (∀ c t u p, (machine server).step s c t → @Distinct uid s c →
        s.msgUnrspMap u = some p →
        (∃ p', t.msgUnrspMap u = some p' ∧ p'.msgId = 0 ∧ p'.sendUid = uid) ∨
          Confirms server u c) ∧
      (∀ m, Confirmed server m →
        (Entries server (s.moveMsg m) ↔ @Distinct uid s (.move m))) ∧
      (∀ items : List (ChatData × Bool), (∀ x ∈ items, Confirmed server x.1) →
        (machine server).Run s (receive s items)) ∧
      ∀ rows summaries, (∀ m ∈ rows, (0 < m.msgId → Confirmed server m) ∧
        (m.msgId ≤ 0 → Lawful server (.append m))) →
          (machine server).Run s (load s rows summaries) := by
  have hentries := entries_of_reachable hs
  have hpending := pending_of_reachable hs.of_restrict
  refine ⟨hentries, ?_, fun m hm => hentries.move hpending hm, fun items h => receive_run h,
    fun rows summaries h => load_run h⟩
  rintro c t u p ⟨hc, rfl⟩ hdistinct hu
  exact hpending.kept hc hdistinct hu

/-- Messages of the users 1 and 2 of a group; message 5 has the uuid of one that user 1 sends. -/
def groupServer : Server 1 where
  messages
    | 5 => some ⟨2, "u", "theirs", .text⟩
    | 6 => some ⟨2, "v", "hello", .text⟩
    | 7 => some ⟨1, "w", "first", .text⟩
    | _ => none
  outgoing _ := .text
  agrees := by
    rintro i m hm -
    split at hm <;> cases hm <;> rfl

def mine : ChatData := ⟨"u", 0, .text, "mine", 1, 0, ""⟩
def theirs : ChatData := ⟨"u", 5, .text, "theirs", 2, 0, ""⟩
def hello : ChatData := ⟨"v", 6, .text, "hello", 2, 0, ""⟩
def first : ChatData := ⟨"w", 7, .text, "first", 1, 0, ""⟩

/-- User 1 sends two messages; one of user 2 and the answer to the first come in between. -/
def twoSenders : ChatThreadData :=
  ((((ChatThreadData.create 0).appendUnRspMsg { first with msgId := 0 }).moveMsg
    hello).appendUnRspMsg mine).moveMsg first

theorem distinct_call (c : Call)
    (hs : ((machine groupServer).restrict (@Distinct 1)).Reachable s)
    (hdistinct : @Distinct 1 s c) (hc : Lawful groupServer c) :
    ((machine groupServer).restrict (@Distinct 1)).Reachable (s.apply c) :=
  .step hs ⟨hdistinct, hc, rfl⟩

theorem twoSenders_reachable :
    ((machine groupServer).restrict (@Distinct 1)).Reachable twoSenders := by
  have hsent := distinct_call (.append { first with msgId := 0 }) (.init ⟨0, rfl⟩) trivial
    ⟨rfl, rfl, rfl⟩
  have hmet := distinct_call (.move hello) hsent (.inl rfl) rfl
  have hboth := distinct_call (.append mine) hmet trivial ⟨rfl, rfl, rfl⟩
  exact distinct_call (.move first) hboth (.inr rfl) rfl

/-- Both senders have their entries, the second message is still pending, and a message of
user 2 with its uuid would break the entries. -/
theorem apart_sample :
    (Entries groupServer twoSenders ∧ twoSenders.msgMap 6 = some hello ∧
      twoSenders.msgMap 7 = some first) ∧
      twoSenders.msgUnrspMap "w" = none ∧ twoSenders.msgUnrspMap "u" = some mine ∧
      ¬ Entries groupServer (twoSenders.moveMsg theirs) := by
  obtain ⟨hentries, -, hmove, -⟩ := apart_of_distinct twoSenders_reachable
  refine ⟨⟨hentries, by decide, by decide⟩, by decide, by decide, ?_⟩
  rw [hmove theirs rfl]
  exact not_or.mpr ⟨by decide, by decide⟩

theorem mine_pending : (machine groupServer).Reachable
    ((ChatThreadData.create 0).appendUnRspMsg mine) :=
  .step (.init ⟨0, rfl⟩) (a := .append mine) ⟨⟨rfl, rfl, rfl⟩, rfl⟩

/-- The message of user 2 is kept as one of user 1, whose own is gone. -/
theorem message_changes_sender :
    ∃ s, (machine groupServer).Reachable s ∧ (s.msgMap 5).map ChatData.sendUid = some 1 ∧
      ¬ Entries groupServer s ∧ s.msgUnrspMap "u" = none := by
  refine ⟨_, .step mine_pending (a := .move theirs) ⟨rfl, rfl⟩, rfl, fun h => ?_, rfl⟩
  have hidentity : groupServer.messages 5 = some ⟨1, "u", "theirs", .text⟩ := (h 5 _ rfl).2
  exact absurd (congrArg (Option.map Identity.sender) hidentity) (by decide)

end CppChat.Threads.Memory
