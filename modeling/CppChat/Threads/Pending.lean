import CppChat.Foundation.InsertionOrder
import CppChat.Threads.Messages

/-! # The pending messages of a thread

`ChatThreadData` shares its message objects with others, who may change them at any time. The
map of the messages that were not answered and the list of their uuids are written by different
calls.
-/
namespace CppChat.Threads.Shared
open Foundation
open Memory (ChatData)

/-- The address of a message object. -/
abbrev Ref := ℕ

structure ChatThreadData where
  msgMap : Int → Option Ref
  msgUnrspMap : String → Option Ref
  pendingOrder : List String
  lastMsgId : Int
  lastMsg : String
  lastChatTime : String

/-- A thread, and the objects as they are now. -/
structure State where
  objects : Ref → ChatData
  thread : ChatThreadData

namespace State

def create (objects : Ref → ChatData) (lastMsgId : Int) : State :=
  ⟨objects, ⟨fun _ => none, fun _ => none, [], lastMsgId, "", ""⟩⟩

def appendMsg (s : State) (msgId : Int) (msg : Ref) : State :=
  let m := s.objects msg
  let inserted := { s.thread with msgMap := Function.update s.thread.msgMap msgId (some msg) }
  if s.thread.lastMsgId ≤ msgId then
    { s with thread := { inserted with
      lastMsg := m.summary
      lastMsgId := msgId
      lastChatTime := if m.chatTime = "" then s.thread.lastChatTime else m.chatTime } }
  else { s with thread := inserted }

def addMsg (s : State) (msg : Ref) : State := s.appendMsg (s.objects msg).msgId msg

def erasePending (s : State) (uniqueId : String) : State :=
  { s with thread := { s.thread with
    msgUnrspMap := Function.update s.thread.msgUnrspMap uniqueId none
    pendingOrder := s.thread.pendingOrder.filter (· ≠ uniqueId) } }

/-- The pending object is changed in place. -/
def confirm (s : State) (pending msg : Ref) : State :=
  let m := s.objects msg
  let confirmed := { s.objects pending with
    msgId := m.msgId
    status := m.status
    chatTime := m.chatTime
    content := m.content }
  { s with objects := Function.update s.objects pending confirmed }

def moveMsg (s : State) (msg : Ref) : State :=
  match s.thread.msgUnrspMap (s.objects msg).uniqueId with
  | none => s.addMsg msg
  | some pending =>
    ((s.confirm pending msg).addMsg pending).erasePending (s.objects msg).uniqueId

def setLastMsgId (s : State) (msgId : Int) : State :=
  { s with thread := { s.thread with lastMsgId := msgId } }

def setLastChatSummary (s : State) (msgId : Int) (chatTime : String) : State :=
  if msgId < s.thread.lastMsgId then s
  else { s with thread := { s.thread with
    lastMsgId := msgId
    lastChatTime := if chatTime = "" then s.thread.lastChatTime else chatTime } }

def removeLocalMessage (s : State) (msgId : Int) : State :=
  { s with thread := { s.thread with
    msgMap := Function.update s.thread.msgMap msgId none
    lastMsg := if s.thread.lastMsgId = msgId then "[本机已删除消息]" else s.thread.lastMsg } }

def forgetPendingMessage (s : State) (senderUid : Int) (uniqueId : String) : State :=
  match s.thread.msgUnrspMap uniqueId with
  | none => s
  | some pending =>
    if (s.objects pending).sendUid = senderUid then s.erasePending uniqueId else s

def restoreLocalSummary (s : State) (msgId : Int) (summary : String) : State :=
  if s.thread.lastMsgId = msgId then { s with thread := { s.thread with lastMsg := summary } }
  else s

def clearLocalMessages (s : State) : State :=
  { s with thread := { s.thread with msgMap := fun _ => none, lastMsg := "" } }

/-- The key need not be the uuid of the object. -/
def appendUnRspMsg (s : State) (uniqueId : String) (msg : Ref) : State :=
  { s with thread := { s.thread with
    pendingOrder :=
      if (s.thread.msgUnrspMap uniqueId).isSome then s.thread.pendingOrder
      else s.thread.pendingOrder ++ [uniqueId]
    msgUnrspMap := Function.update s.thread.msgUnrspMap uniqueId (some msg)
    lastMsg := (s.objects msg).summary } }

/-- `none` when the uuid is not in the map and a null pointer is followed. -/
def getLastMsg (s : State) : Option String :=
  match s.thread.pendingOrder.getLast? with
  | none => some s.thread.lastMsg
  | some uniqueId => (s.thread.msgUnrspMap uniqueId).map fun msg => (s.objects msg).summary

/-- A pointer is null when the uuid is not in the map. -/
def getPendingMessages (s : State) : List (Option Ref) :=
  s.thread.pendingOrder.map s.thread.msgUnrspMap

end State

/-- The calls on a thread, and what others do to an object. -/
inductive Call
  | addMsg (msg : Ref)
  | appendMsg (msgId : Int) (msg : Ref)
  | moveMsg (msg : Ref)
  | setLastMsgId (msgId : Int)
  | setLastChatSummary (msgId : Int) (chatTime : String)
  | removeLocalMessage (msgId : Int)
  | forgetPendingMessage (senderUid : Int) (uniqueId : String)
  | restoreLocalSummary (msgId : Int) (summary : String)
  | clearLocalMessages
  | appendUnRspMsg (uniqueId : String) (msg : Ref)
  | change (msg : Ref) (m : ChatData)

def State.apply (s : State) : Call → State
  | .addMsg msg => s.addMsg msg
  | .appendMsg msgId msg => s.appendMsg msgId msg
  | .moveMsg msg => s.moveMsg msg
  | .setLastMsgId msgId => s.setLastMsgId msgId
  | .setLastChatSummary msgId chatTime => s.setLastChatSummary msgId chatTime
  | .removeLocalMessage msgId => s.removeLocalMessage msgId
  | .forgetPendingMessage senderUid uniqueId => s.forgetPendingMessage senderUid uniqueId
  | .restoreLocalSummary msgId summary => s.restoreLocalSummary msgId summary
  | .clearLocalMessages => s.clearLocalMessages
  | .appendUnRspMsg uniqueId msg => s.appendUnRspMsg uniqueId msg
  | .change msg m => { s with objects := Function.update s.objects msg m }

def State.run (s : State) (calls : List Call) : State := calls.foldl State.apply s

variable {s : State} {c : Call} {calls : List Call} {u : String}

/-! ## What a call does to the pending messages -/

namespace State

@[simp] theorem appendMsg_msgUnrspMap {msgId : Int} {msg : Ref} :
    (s.appendMsg msgId msg).thread.msgUnrspMap = s.thread.msgUnrspMap := by
  unfold appendMsg
  dsimp only
  split <;> rfl

@[simp] theorem appendMsg_pendingOrder {msgId : Int} {msg : Ref} :
    (s.appendMsg msgId msg).thread.pendingOrder = s.thread.pendingOrder := by
  unfold appendMsg
  dsimp only
  split <;> rfl

@[simp] theorem appendMsg_objects {msgId : Int} {msg : Ref} :
    (s.appendMsg msgId msg).objects = s.objects := by
  unfold appendMsg
  dsimp only
  split <;> rfl

theorem appendMsg_msgMap {msgId : Int} {msg : Ref} :
    (s.appendMsg msgId msg).thread.msgMap = Function.update s.thread.msgMap msgId (some msg) := by
  unfold appendMsg
  dsimp only
  split <;> rfl

/-- The two fields, as one map that remembers the order of its keys. -/
def Pending (s : State) (p : Ordered String Ref) : Prop :=
  s.thread.pendingOrder = p.order ∧ s.thread.msgUnrspMap = p.lookup

variable {p : Ordered String Ref}

theorem Pending.erase (h : s.Pending p) : (s.erasePending u).Pending (p.drop u) := by
  obtain ⟨horder, hlookup⟩ := h
  simp only [Pending, erasePending, Ordered.drop, horder, hlookup, and_self]

theorem Pending.append (h : s.Pending p) {msg : Ref} :
    (s.appendUnRspMsg u msg).Pending (p.put u msg) := by
  obtain ⟨horder, hlookup⟩ := h
  simp only [Pending, appendUnRspMsg, Ordered.put, horder, hlookup, and_self]

theorem Pending.congr {t : State} (h : s.Pending p)
    (horder : t.thread.pendingOrder = s.thread.pendingOrder)
    (hmap : t.thread.msgUnrspMap = s.thread.msgUnrspMap) : t.Pending p :=
  ⟨horder.trans h.1, hmap.trans h.2⟩

/-- The pending messages after a call. -/
def pendingAfter (s : State) (p : Ordered String Ref) : Call → Ordered String Ref
  | .appendUnRspMsg uniqueId msg => p.put uniqueId msg
  | .moveMsg msg => p.drop (s.objects msg).uniqueId
  | .forgetPendingMessage senderUid uniqueId =>
    if (p.lookup uniqueId).map (fun r => (s.objects r).sendUid) = some senderUid then
      p.drop uniqueId
    else p
  | _ => p

theorem Pending.apply (h : s.Pending p) : (s.apply c).Pending (s.pendingAfter p c) := by
  cases c with
  | addMsg msg => exact h.congr appendMsg_pendingOrder appendMsg_msgUnrspMap
  | appendMsg msgId msg => exact h.congr appendMsg_pendingOrder appendMsg_msgUnrspMap
  | moveMsg msg =>
    simp only [State.apply, moveMsg, pendingAfter, h.2]
    cases hfind : p.lookup (s.objects msg).uniqueId with
    | none =>
      rw [p.drop_of_none hfind]
      exact h.congr appendMsg_pendingOrder appendMsg_msgUnrspMap
    | some pending => exact Pending.erase (h.congr appendMsg_pendingOrder appendMsg_msgUnrspMap)
  | forgetPendingMessage senderUid uniqueId =>
    simp only [State.apply, forgetPendingMessage, pendingAfter, h.2]
    cases p.lookup uniqueId with
    | none => exact h
    | some pending =>
      simp only [Option.map_some, Option.some_inj]
      split
      · exact h.erase
      · exact h
  | appendUnRspMsg uniqueId msg => exact h.append
  | setLastChatSummary msgId chatTime =>
    simp only [State.apply, setLastChatSummary]
    split <;> exact h
  | restoreLocalSummary msgId summary =>
    simp only [State.apply, restoreLocalSummary]
    split <;> exact h
  | setLastMsgId msgId => exact h
  | removeLocalMessage msgId => exact h
  | clearLocalMessages => exact h
  | change msg m => exact h

theorem pendingAfter_step : p.Step (s.pendingAfter p c) := by
  cases c with
  | appendUnRspMsg uniqueId msg => exact .put uniqueId msg
  | moveMsg msg => exact .drop _
  | forgetPendingMessage senderUid uniqueId =>
    simp only [pendingAfter]
    split
    · exact .drop uniqueId
    · exact .same
  | _ => exact .same

/-- Only `AppendUnRspMsg` makes a uuid pending. -/
theorem pendingAfter_new (hnone : p.lookup u = none)
    (hsome : ((s.pendingAfter p c).lookup u).isSome) : ∃ msg, c = .appendUnRspMsg u msg := by
  have hdrop : ∀ k, ¬ ((p.drop k).lookup u).isSome := by
    intro k
    simp [Ordered.drop, Function.update_apply, hnone]
  have hkeep : ¬ (p.lookup u).isSome := by simp [hnone]
  cases c with
  | appendUnRspMsg uniqueId msg =>
    by_cases hu : u = uniqueId
    · exact ⟨msg, by rw [hu]⟩
    · simp [pendingAfter, Ordered.put, Function.update_of_ne hu, hnone] at hsome
  | moveMsg msg => exact absurd hsome (hdrop _)
  | forgetPendingMessage senderUid uniqueId =>
    simp only [pendingAfter] at hsome
    split at hsome
    · exact absurd hsome (hdrop _)
    · exact absurd hsome hkeep
  | _ => exact absurd hsome hkeep

end State

/-! ## Every sequence of calls -/

/-- The state after the first `n` calls. -/
def after (s : State) (calls : List Call) (n : ℕ) : State := s.run (calls.take n)

/-- The uuid `u` has been pending since before `v` was. -/
def PendingBefore (s : State) (calls : List Call) (u v : String) : Prop :=
  ∃ i ≤ calls.length,
    (∀ j, i ≤ j → j ≤ calls.length → ((after s calls j).thread.msgUnrspMap u).isSome) ∧
    (after s calls i).thread.msgUnrspMap v = none

theorem after_succ {i : ℕ} (hi : i < calls.length) :
    after s calls (i + 1) = (after s calls i).apply calls[i] := by
  unfold after State.run
  rw [List.take_succ_eq_append_getElem hi, List.foldl_append]
  rfl

variable {objects : Ref → ChatData} {lastMsgId : Int}

/-- The pending messages along a run. -/
def history (s : State) (calls : List Call) : ℕ → Ordered String Ref
  | 0 => .empty
  | i + 1 =>
    match calls[i]? with
    | some c => (after s calls i).pendingAfter (history s calls i) c
    | none => history s calls i

theorem pending_history {i : ℕ} (hi : i ≤ calls.length) :
    (after (.create objects lastMsgId) calls i).Pending
      (history (.create objects lastMsgId) calls i) := by
  induction i with
  | zero => exact ⟨rfl, rfl⟩
  | succ i ih =>
    rw [after_succ hi, history, List.getElem?_eq_getElem hi]
    exact (ih (Nat.le_of_lt hi)).apply

theorem history_step {i : ℕ} : (history s calls i).Step (history s calls (i + 1)) := by
  rw [history]
  cases calls[i]? with
  | none => exact .same
  | some c => exact State.pendingAfter_step

theorem older_pending {u v : String}
    (h : Ordered.Older (history (.create objects lastMsgId) calls) calls.length u v) :
    PendingBefore (.create objects lastMsgId) calls u v := by
  obtain ⟨i, hi, hall, hnone⟩ := h
  refine ⟨i, hi, fun j hij hj => ?_, ?_⟩
  · rw [(pending_history hj).2]
    exact hall j hij hj
  · rw [(pending_history hi).2]
    exact hnone

theorem append_of_new {i : ℕ} (hi : i < calls.length)
    (hnone : (after (.create objects lastMsgId) calls i).thread.msgUnrspMap u = none)
    (hsome : ((after (.create objects lastMsgId) calls (i + 1)).thread.msgUnrspMap u).isSome) :
    ∃ msg, calls[i]? = some (.appendUnRspMsg u msg) := by
  have hpending := @pending_history calls objects lastMsgId i (Nat.le_of_lt hi)
  have happly := hpending.apply (c := calls[i])
  rw [hpending.2] at hnone
  rw [after_succ hi, happly.2] at hsome
  obtain ⟨msg, hmsg⟩ := State.pendingAfter_new hnone hsome
  exact ⟨msg, by rw [List.getElem?_eq_getElem hi, hmsg]⟩

theorem after_length : after s calls calls.length = s.run calls := by
  rw [after, List.take_length]

namespace State

variable {p : Ordered String Ref}

theorem Pending.getLastMsg (h : s.Pending p) : s.getLastMsg ≠ none := by
  unfold State.getLastMsg
  rw [h.1, h.2]
  cases hlast : p.order.getLast? with
  | none => exact nofun
  | some u =>
    have hfound := (p.mem_order u).mp (List.mem_of_getLast? hlast)
    obtain ⟨msg, hmsg⟩ := Option.isSome_iff_exists.mp hfound
    dsimp only
    rw [hmsg]
    exact nofun

theorem moveMsg_placed {msg : Ref} : ∃ placed,
    (s.moveMsg msg).thread.msgMap (s.objects msg).msgId = some placed ∧
      ((s.moveMsg msg).objects placed).msgId = (s.objects msg).msgId ∧
      ((s.moveMsg msg).objects placed).content = (s.objects msg).content ∧
      placed = (s.thread.msgUnrspMap (s.objects msg).uniqueId).getD msg := by
  cases hfind : s.thread.msgUnrspMap (s.objects msg).uniqueId with
  | none =>
    refine ⟨msg, ?_, ?_, ?_, rfl⟩
    all_goals simp only [moveMsg, hfind, addMsg, appendMsg_msgMap, appendMsg_objects]
    exact Function.update_self ..
  | some pending =>
    refine ⟨pending, ?_, ?_, ?_, rfl⟩
    all_goals simp only [moveMsg, hfind, addMsg, erasePending, appendMsg_msgMap,
      appendMsg_objects, confirm, Function.update_self]

end State

/-- What a call does to the pending messages of a thread: an append makes its uuid pending with its
message, in the place the uuid has or else at the end, a message is forgotten for its own sender,
and nothing else changes what is pending under a uuid. -/
structure State.Bookkeeping (s : State) : Prop where
  append_map : ∀ u msg, (s.appendUnRspMsg u msg).thread.msgUnrspMap =
    Function.update s.thread.msgUnrspMap u (some msg)
  append_order : ∀ u msg, (s.appendUnRspMsg u msg).thread.pendingOrder =
    if u ∈ s.thread.pendingOrder then s.thread.pendingOrder else s.thread.pendingOrder ++ [u]
  forget : ∀ u msg, s.thread.msgUnrspMap u = some msg →
    (s.forgetPendingMessage (s.objects msg).sendUid u).thread.msgUnrspMap =
      Function.update s.thread.msgUnrspMap u none
  keep : ∀ c u, (s.apply c).thread.msgUnrspMap u = s.thread.msgUnrspMap u ∨
    (∃ msg, c = .appendUnRspMsg u msg) ∨
    (∃ msg, c = .moveMsg msg ∧ (s.objects msg).uniqueId = u) ∨
    ∃ msg, s.thread.msgUnrspMap u = some msg ∧
      c = .forgetPendingMessage (s.objects msg).sendUid u

theorem State.Pending.bookkeeping {p : Ordered String Ref} (h : s.Pending p) : s.Bookkeeping where
  append_map _ _ := rfl
  append_order u msg := by
    have hmem : (s.thread.msgUnrspMap u).isSome ↔ u ∈ s.thread.pendingOrder := by
      rw [h.1, h.2]
      exact (p.mem_order u).symm
    simp only [State.appendUnRspMsg, hmem]
  forget u msg hmsg := by
    simp only [State.forgetPendingMessage, hmsg, if_true, State.erasePending]
  keep c u := by
    have happly := (h.apply (c := c)).2
    rw [happly, h.2]
    cases c with
    | appendUnRspMsg uniqueId msg =>
      by_cases hu : u = uniqueId
      · exact .inr (.inl ⟨msg, by rw [hu]⟩)
      · exact .inl (Function.update_of_ne hu ..)
    | moveMsg msg =>
      by_cases hu : u = (s.objects msg).uniqueId
      · exact .inr (.inr (.inl ⟨msg, rfl, hu.symm⟩))
      · exact .inl (Function.update_of_ne hu ..)
    | forgetPendingMessage senderUid uniqueId =>
      simp only [State.pendingAfter]
      split
      next hsender =>
        by_cases hu : u = uniqueId
        · obtain ⟨msg, hmsg, rfl⟩ := Option.map_eq_some_iff.mp hsender
          exact .inr (.inr (.inr ⟨msg, by rw [hu, hmsg], by rw [hu]⟩))
        · exact .inl (Function.update_of_ne hu ..)
      next => exact .inl rfl
    | _ => exact .inl rfl

/-- After every sequence of calls the list and the map agree: no lookup of a uuid fails, the
pending messages come in the order in which they were first appended, each once, and a message
that is confirmed is no longer pending. What is pending is what was appended and neither confirmed
nor forgotten since. -/
theorem pending_agrees (objects : Ref → ChatData) (lastMsgId : Int) (calls : List Call) :
    let start := State.create objects lastMsgId
    let s := start.run calls
    s.thread.pendingOrder.Nodup ∧
    (∀ u, u ∈ s.thread.pendingOrder ↔ (s.thread.msgUnrspMap u).isSome) ∧
    s.getLastMsg ≠ none ∧
    (∃ entries : List (String × Ref), s.getPendingMessages = entries.map (fun e => some e.2) ∧
      (entries.map Prod.fst).Nodup ∧
      (∀ u msg, (u, msg) ∈ entries ↔ s.thread.msgUnrspMap u = some msg) ∧
      entries.Pairwise fun e e' => PendingBefore start calls e.1 e'.1) ∧
    (∀ i u, i < calls.length → (after start calls i).thread.msgUnrspMap u = none →
      ((after start calls (i + 1)).thread.msgUnrspMap u).isSome →
      ∃ msg, calls[i]? = some (.appendUnRspMsg u msg)) ∧
    (∀ i ≤ calls.length, (after start calls i).Bookkeeping) ∧
    ∀ msg, let m := s.objects msg
      (∃ placed, (s.moveMsg msg).thread.msgMap m.msgId = some placed ∧
        ((s.moveMsg msg).objects placed).msgId = m.msgId ∧
        ((s.moveMsg msg).objects placed).content = m.content ∧
        placed = (s.thread.msgUnrspMap m.uniqueId).getD msg) ∧
      (s.moveMsg msg).thread.msgUnrspMap m.uniqueId = none ∧
      m.uniqueId ∉ (s.moveMsg msg).thread.pendingOrder := by
  intro start s
  let p := history start calls calls.length
  have hpending : (after start calls calls.length).Pending p := pending_history (Nat.le_refl _)
  rw [after_length] at hpending
  have hmem : ∀ u, u ∈ s.thread.pendingOrder ↔ (s.thread.msgUnrspMap u).isSome := by
    rw [hpending.1, hpending.2]
    exact p.mem_order
  refine ⟨hpending.1 ▸ p.nodup, hmem, hpending.getLastMsg, ⟨p.entries, ?_, ?_, ?_, ?_⟩, ?_,
    fun i hi => (pending_history hi).bookkeeping, ?_⟩
  · rw [State.getPendingMessages, hpending.1, hpending.2]
    exact Ordered.map_entries.2.symm
  · rw [Ordered.map_entries.1]
    exact p.nodup
  · intro u msg
    rw [hpending.2]
    exact Ordered.mem_entries
  · have hhistory : p.order.Pairwise (Ordered.Older (history start calls) calls.length) :=
      Ordered.order_older rfl fun i _ => history_step
    rw [← Ordered.map_entries.1, List.pairwise_map] at hhistory
    exact hhistory.imp older_pending
  · exact fun i u hi hnone hsome => append_of_new hi hnone hsome
  · intro msg m
    have happly : (s.moveMsg msg).Pending (p.drop m.uniqueId) := hpending.apply (c := .moveMsg msg)
    refine ⟨State.moveMsg_placed, ?_, ?_⟩
    · rw [happly.2]
      exact Function.update_self ..
    · rw [happly.1]
      simp [Ordered.drop]

/-- Two messages are appended, the first of them twice, and one is forgotten for somebody else. -/
def sampleCalls : List Call :=
  [.appendUnRspMsg "a" 0, .appendUnRspMsg "b" 1, .appendUnRspMsg "a" 2, .forgetPendingMessage 8 "b"]

def sampleObjects : Ref → ChatData := fun msg =>
  ⟨if msg = 1 then "b" else "a", 0, .text, "", 7, 0, ""⟩

theorem pending_agrees_sample :
    let s := (State.create sampleObjects 0).run sampleCalls
    s.getPendingMessages = [some 2, some 1] ∧ s.Bookkeeping ∧
    (s.moveMsg 1).thread.msgUnrspMap "b" = none ∧ (s.moveMsg 1).getPendingMessages = [some 2] := by
  obtain ⟨-, -, -, -, -, hkept, hmove⟩ := pending_agrees sampleObjects 0 sampleCalls
  exact ⟨by decide, hkept 4 (by decide), (hmove 1).2.1, by decide⟩

end CppChat.Threads.Shared
