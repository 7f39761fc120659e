import Mathlib.Data.List.Sort
import Mathlib.Logic.Function.Basic
import CppChat.Foundation.Table
import CppChat.Foundation.Transition

/-! # Storing a batch of chat messages

`AddChatMsg` locks the conversation of its batch, then looks up and inserts one message
after the other, and commits. Calls run interleaved, statement by statement, on one
storage engine whose table holds committed and uncommitted rows under the same unique
keys. An exception may end a call at any point; the commit itself may raise before or
after it took effect.
-/
namespace CppChat.ServerStore
open Foundation

structure ChatMessage where
  messageId : ℕ
  threadId : Int
  senderId : Int
  recvId : Int
  uniqueId : String
  content : String
  chatTime : String
  status : Int
  msgType : Int
  mediaSize : ℕ
  deriving DecidableEq

/-- A row of `chat_message`. -/
structure ChatRow where
  messageId : ℕ
  threadId : Int
  senderId : Int
  recvId : Int
  uniqueId : String
  content : String
  msgType : Int
  mediaSize : ℕ
  createdAt : String
  updatedAt : String
  status : Int
  deriving DecidableEq

/-- What the batches of one deployment are checked against: conversations and friends,
and the sort key by which the columns' collation compares strings. -/
structure Deployment (W : Type) where
  activeGroup : Int → Bool
  groupMember : Int → Int → Bool
  friend : Int → Int → Bool
  privateChat : Int → Int → Int → Bool
  weight : String → W

/-- A row in the engine, with the call that wrote it. -/
structure Entry where
  row : ChatRow
  writer : ℕ
  committed : Bool
  deriving DecidableEq

variable {W : Type} [DecidableEq W] (D : Deployment W)

/-- The primary key, and `uk_chat_message_idempotency`, which skips empty ids. -/
def Entry.Clash (a b : Entry) : Prop :=
  a.row.messageId = b.row.messageId ∨
    (a.row.threadId = b.row.threadId ∧ a.row.senderId = b.row.senderId ∧
      a.row.uniqueId ≠ "" ∧ b.row.uniqueId ≠ "" ∧
      D.weight a.row.uniqueId = D.weight b.row.uniqueId)

instance : DecidableRel (Entry.Clash D) := fun _ _ => inferInstanceAs (Decidable (_ ∨ (_ ∧ _)))

omit [DecidableEq W] in
theorem Entry.Clash.symm {a b : Entry} (h : Entry.Clash D a b) : Entry.Clash D b a := by
  rcases h with h | ⟨ht, hs, ha, hb, hw⟩
  · exact .inl h.symm
  · exact .inr ⟨ht.symm, hs.symm, hb, ha, hw.symm⟩

inductive Failure
  | refused
  | conflict
  | exception
  deriving DecidableEq

/-- One call: its batch, the elements already processed and those still to come. -/
inductive Call
  | running (batch done todo : List ChatMessage)
  | failed (batch : List ChatMessage) (why : Failure)
  | stored (batch done : List ChatMessage)
  | raised (batch done : List ChatMessage)
  deriving DecidableEq

structure State where
  store : Table Entry (Entry.Clash D)
  nextId : ℕ
  lock : Int → Option ℕ
  calls : ℕ → Option Call

/-- The checks before the transaction starts. -/
def BatchOk : List ChatMessage → Prop
  | [] => False
  | first :: rest => 0 < first.threadId ∧ 0 < first.senderId ∧ 0 < first.recvId ∧
      ∀ m ∈ first :: rest, m.uniqueId ≠ "" ∧ m.uniqueId.utf8ByteSize ≤ 64 ∧
        m.threadId = first.threadId ∧ m.senderId = first.senderId ∧ m.recvId = first.recvId

instance : DecidablePred BatchOk
  | [] => inferInstanceAs (Decidable False)
  | _ :: _ => inferInstanceAs (Decidable (_ ∧ _ ∧ _ ∧ ∀ m ∈ _ :: _, _))

/-- The conversation the batch is written to, whose row is locked. -/
def threadOf : List ChatMessage → Int
  | [] => 0
  | first :: _ => first.threadId

namespace Deployment

/-- A group message names its sender as receiver. -/
def Authorises (sender recv thread : Int) : Prop :=
  if sender = recv then D.activeGroup thread = true ∧ D.groupMember thread sender = true
  else D.friend sender recv = true ∧ D.privateChat thread (min sender recv) (max sender recv) = true

instance (sender recv thread : Int) : Decidable (D.Authorises sender recv thread) :=
  inferInstanceAs (Decidable (if sender = recv then _ ∧ _ else _ ∧ _))

def AuthorisesBatch : List ChatMessage → Prop
  | [] => False
  | first :: _ => D.Authorises first.senderId first.recvId first.threadId

instance : DecidablePred D.AuthorisesBatch
  | [] => inferInstanceAs (Decidable False)
  | _ :: _ => inferInstanceAs (Decidable (D.Authorises _ _ _))

end Deployment

/-- Same conversation and sender, and a unique id the column compares equal. -/
def ChatRow.SameKey (r : ChatRow) (m : ChatMessage) : Prop :=
  r.threadId = m.threadId ∧ r.senderId = m.senderId ∧ D.weight r.uniqueId = D.weight m.uniqueId

instance (r : ChatRow) (m : ChatMessage) : Decidable (r.SameKey D m) :=
  inferInstanceAs (Decidable (_ ∧ _ ∧ _))

/-- The stored row is this very message: contents are compared byte by byte. -/
def ChatRow.Carries (r : ChatRow) (m : ChatMessage) : Prop :=
  r.recvId = m.recvId ∧ r.content = m.content ∧ r.msgType = m.msgType

instance (r : ChatRow) (m : ChatMessage) : Decidable (r.Carries m) :=
  inferInstanceAs (Decidable (_ ∧ _ ∧ _))

namespace ChatMessage

def toRow (m : ChatMessage) (id : ℕ) : ChatRow :=
  ⟨id, m.threadId, m.senderId, m.recvId, m.uniqueId, m.content, m.msgType, m.mediaSize, m.chatTime,
    m.chatTime, m.status⟩

/-- A retry answers with the id, time and status of the stored row. -/
def acknowledge (m : ChatMessage) (r : ChatRow) : ChatMessage :=
  { m with messageId := r.messageId, chatTime := r.createdAt, status := r.status }

end ChatMessage

namespace State

variable {D}

/-- What a locking read of call `k` returns: committed rows and its own. -/
def Sees (k : ℕ) (e : Entry) : Prop := e.committed = true ∨ e.writer = k

instance (k : ℕ) : DecidablePred (Sees k) := fun _ => inferInstanceAs (Decidable (_ ∨ _))

/-- The retry lookup: `ORDER BY message_id LIMIT 1 FOR UPDATE`. -/
def lookup (s : State D) (k : ℕ) (m : ChatMessage) : Option ChatRow :=
  (((s.store.rows.filter fun e => Sees k e ∧ e.row.SameKey D m).map Entry.row).insertionSort
    fun a b => a.messageId ≤ b.messageId).head?

def setCall (s : State D) (k : ℕ) (c : Call) : State D :=
  { s with calls := Function.update s.calls k (some c) }

def release (s : State D) (k : ℕ) : State D :=
  { s with lock := fun t => if s.lock t = some k then none else s.lock t }

/-- Rolls the transaction of call `k` back. -/
def rollback (s : State D) (k : ℕ) : State D :=
  { s with store := s.store.delete fun e => e.writer = k ∧ e.committed = false }.release k

def abort (s : State D) (k : ℕ) (c : Call) : State D := (s.rollback k).setCall k c

def commitEntry (k : ℕ) (e : Entry) : Entry := if e.writer = k then { e with committed := true } else e

theorem commitEntry_row (k : ℕ) (e : Entry) : (commitEntry k e).row = e.row := by
  unfold commitEntry
  split <;> rfl

omit [DecidableEq W] in
theorem clash_of_commitEntry (k : ℕ) (a b : Entry)
    (h : Entry.Clash D (commitEntry k a) (commitEntry k b)) : Entry.Clash D a b := by
  simpa only [Entry.Clash, commitEntry_row] using h

/-- Makes the rows of call `k` durable. -/
def persist (s : State D) (k : ℕ) : State D :=
  { s with store := s.store.map (commitEntry k) (clash_of_commitEntry k) }.release k

def finish (s : State D) (k : ℕ) (c : Call) : State D := (s.persist k).setCall k c

/-- Validation, the row lock on the conversation, and the membership check. A call whose
conversation is locked has to wait. -/
def begin (s : State D) (k : ℕ) (batch : List ChatMessage) : Option (State D) :=
  if ¬ BatchOk batch then some (s.setCall k (.failed batch .refused))
  else if s.lock (threadOf batch) ≠ none then none
  else if ¬ D.AuthorisesBatch batch then some (s.setCall k (.failed batch .refused))
  else some
    ({ s with lock := Function.update s.lock (threadOf batch) (some k) }.setCall k
      (.running batch [] batch))

/-- One round of the loop; `id` is the auto-increment value an insert would receive. -/
def process (s : State D) (k id : ℕ) (batch done : List ChatMessage) (m : ChatMessage)
    (todo : List ChatMessage) : State D :=
  match s.lookup k m with
  | some r =>
    if r.Carries m then s.setCall k (.running batch (done ++ [m.acknowledge r]) todo)
    else s.abort k (.failed batch .conflict) -- an id cannot be reused for another payload
  | none =>
    match s.store.insert ⟨m.toRow id, k, false⟩ with
    | some store =>
      { s with store, nextId := id + 1 }.setCall k
        (.running batch (done ++ [{ m with messageId := id }]) todo)
    | none => s.abort k (.failed batch .exception)

end State

/-- What a call can do next. `durable` tells whether the commit took effect although it,
or the step after it, raised. -/
inductive Action
  | unavailable (k : ℕ) (batch : List ChatMessage)
  | begin (k : ℕ) (batch : List ChatMessage)
  | statement (k id : ℕ)
  | fail (k : ℕ)
  | commit (k : ℕ)
  | commitRaised (k : ℕ) (durable : Bool)
  deriving DecidableEq

variable {D} in
def State.step (s : State D) : Action → Option (State D)
  | .unavailable k batch =>
    if s.calls k = none then some (s.setCall k (.failed batch .exception)) else none
  | .begin k batch => if s.calls k = none then s.begin k batch else none
  | .statement k id =>
    match s.calls k with
    | some (.running batch done (m :: todo)) =>
      if s.nextId ≤ id then some (s.process k id batch done m todo) else none
    | _ => none
  | .fail k =>
    match s.calls k with
    | some (.running batch _ _) => some (s.abort k (.failed batch .exception))
    | _ => none
  | .commit k =>
    match s.calls k with
    | some (.running batch done []) => some (s.finish k (.stored batch done))
    | _ => none
  | .commitRaised k durable =>
    match s.calls k with
    | some (.running batch done []) =>
      some (if durable then s.finish k (.raised batch done) else s.abort k (.raised batch done))
    | _ => none

/-- All calls of a deployment that starts with an empty `chat_message`. -/
def server : Machine (State D) Action :=
  .ofFn (fun s => s.store = .empty ∧ s.lock = (fun _ => none) ∧ s.calls = fun _ => none)
    State.step

/-- The committed rows. -/
def State.table {D : Deployment W} (s : State D) : List ChatRow :=
  (s.store.rows.filter Entry.committed).map Entry.row

end CppChat.ServerStore
