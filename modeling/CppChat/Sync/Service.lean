import CppChat.LocalStore.Safety

/-! # History synchronisation of the client

`ChatSyncService` keeps the cursors of the account database in memory and asks the server
for one history page at a time. The database worker runs what it is handed in order, so an
operation runs here when it is handed over, and its callback arrives in a later step.
`LoadNextHistory`, which its callers and timers run last, is a step of its own too.
-/
namespace CppChat.Sync
open Foundation LocalStore

/-- What the client reads of a group object, and how it merges an update into it. -/
structure GroupJson where
  threadId : String → Int
  removed : String → Bool
  /-- `name` is a string and `owner_uid` is positive. -/
  wellFormed : String → Bool
  merge : String → String → String

/-- `ChatThreadData`: a group has no other user. -/
structure Chat where
  threadId : Int
  otherUid : Int
  group : String
  deriving DecidableEq

def Chat.IsGroup (c : Chat) : Prop := c.otherUid = 0

instance (c : Chat) : Decidable c.IsGroup := inferInstanceAs (Decidable (_ = _))

structure UserMgr where
  uid : Int
  friends : List Int
  chats : List Chat
  threadOf : Int → Int

namespace UserMgr

def chat? (u : UserMgr) (thread : Int) : Option Chat := u.chats.find? fun c => c.threadId = thread

def reset (uid : Int) (friends : List Int) : UserMgr := ⟨uid, friends, [], fun _ => 0⟩

def addChatThreadData (u : UserMgr) (c : Chat) : UserMgr :=
  if ¬ 0 < c.threadId then u
  else { u with
    chats := if (u.chat? c.threadId).isSome then u.chats
      else u.chats.orderedInsert (fun a b => a.threadId ≤ b.threadId) c
    threadOf := if 0 < c.otherUid then Function.update u.threadOf c.otherUid c.threadId
      else u.threadOf }

def removeChat (u : UserMgr) (thread : Int) : UserMgr :=
  { u with chats := u.chats.filter fun c => c.threadId ≠ thread }

/-- Forgets a friend, and the conversation whose id it returns. -/
def removeFriend (u : UserMgr) (uid : Int) : Int × UserMgr :=
  (u.threadOf uid, { u.removeChat (u.threadOf uid) with
    friends := u.friends.filter (· ≠ uid), threadOf := Function.update u.threadOf uid 0 })

def removeGroup (u : UserMgr) (thread : Int) : UserMgr :=
  match u.chat? thread with
  | some c => if c.IsGroup then u.removeChat thread else u
  | none => u

def setGroup (u : UserMgr) (thread : Int) (group : String) : UserMgr :=
  { u with chats := u.chats.map fun c => if c.threadId = thread then { c with group } else c }

end UserMgr

/-- A conversation of the thread list. -/
inductive ThreadKind
  | group (json : String)
  | privateChat (user1 user2 : Int)
  | other
  deriving DecidableEq

structure ThreadInfo where
  threadId : Int
  kind : ThreadKind
  lastMessageId : Int
  lastChatTime : String
  hasLastChatSummary : Bool
  deriving DecidableEq

structure HistoryRequest where
  threadId : Int
  messageId : Int
  deriving DecidableEq

/-- The reply to a history request. -/
structure HistoryPage where
  threadId : Int
  messageId : Int
  more : Bool
  messages : List StoredMessage
  deriving DecidableEq

/-- The callback of a saved page: what it captured and whether the save succeeded. -/
structure PageSave where
  revision : ℕ
  operation : ℕ
  threadId : Int
  messageId : Int
  more : Bool
  saved : Bool
  deriving DecidableEq

/-- The callback of `OpenAccount`. -/
structure Opening where
  revision : ℕ
  opened : Bool
  cursors : Int → Int
  conversations : List StoredConversation

/-- The service, `UserMgr`, the request `TcpMgr` awaits and the account database. `sent` and
`dropped` are history: each request with the cursor stored when it was sent, and the threads
`RemoveThread` was called for since the cursors were loaded or their last page was saved. -/
structure State where
  db : Database
  operations : ℕ
  users : UserMgr
  connected : Bool
  pending : Option HistoryRequest
  revision : ℕ
  historyOperation : ℕ
  storeReady : Bool
  threadsLoading : Bool
  threadsComplete : Bool
  threadCursor : Int
  threadsWithoutSummary : List Int
  groupSnapshot : List Int
  syncCursors : Int → Int
  historyQueue : List Int
  historyComplete : List Int
  historyThread : Int
  historyCursor : Int
  openings : List Opening
  saves : List PageSave
  sent : List (HistoryRequest × Int)
  dropped : List Int

variable (J : GroupJson) (faults : ℕ → Bool)

namespace State

/-- Hands an operation to the database worker; it may fail. -/
def store (s : State) (op : Operation) : State :=
  { s with db := Call.run s.db ⟨op, faults s.operations⟩, operations := s.operations + 1 }

def resetSession (s : State) : State :=
  { s with
    revision := s.revision + 1
    historyOperation := s.historyOperation + 1
    pending := none
    storeReady := false, threadsLoading := false, threadsComplete := false
    syncCursors := fun _ => 0
    historyQueue := [], historyComplete := [], threadsWithoutSummary := [], groupSnapshot := []
    threadCursor := 0, historyThread := 0, historyCursor := 0 }

/-- `SELECT … FROM conversations LEFT JOIN group_profiles`. -/
def conversations (db : Database) : List StoredConversation :=
  db.conversations.rows.map fun c =>
    ⟨c.threadId, c.otherUid, c.lastServerId, c.lastTime, c.summary,
      ((Keyed.lookup db.groupProfiles c.threadId).map GroupProfile.metadata).getD ""⟩

def startSession (s : State) : State :=
  let s := s.resetSession
  let opened := !faults s.operations && s.db.openAccount.toBool
  let s := s.store faults .openAccount
  { s with
    openings := s.openings ++ [⟨s.revision, opened, s.db.confirmedCursor, conversations s.db⟩] }

def loadThreads (s : State) : State :=
  if ¬ s.storeReady ∨ s.threadsLoading ∨ s.threadsComplete ∨ ¬ s.connected then s
  else { s with threadsLoading := true }

def reloadThreads (s : State) : State :=
  if s.threadsLoading then s
  else loadThreads { s with groupSnapshot := [], threadsComplete := false, threadCursor := 0 }

/-- Queues a thread; the `LoadNextHistory` at its end is the next step. -/
def queueHistory (s : State) (thread : Int) (prioritize : Bool) : State :=
  if thread ∈ s.historyComplete ∨ s.historyThread = thread then s
  else if thread ∈ s.historyQueue then
    if ¬ prioritize then s
    else { s with historyQueue := thread :: s.historyQueue.filter (· ≠ thread) }
  else if prioritize then { s with historyQueue := thread :: s.historyQueue }
  else { s with historyQueue := s.historyQueue ++ [thread] }

/-- `RefreshAllHistory` and its timer. -/
def refreshAllHistory (s : State) (force : Bool) : State :=
  if ¬ s.storeReady ∨ ¬ s.connected then s
  else s.users.chats.foldl (fun s c =>
    let s := if force then
      { s with historyComplete := s.historyComplete.filter (· ≠ c.threadId) } else s
    s.queueHistory c.threadId false) s

def sendHistoryRequest (s : State) : State :=
  let request : HistoryRequest := ⟨s.historyThread, s.historyCursor⟩
  { s with
    pending := some request
    sent := (request, s.db.confirmedCursor request.threadId) :: s.sent }

/-- `LoadNextHistory` has a thread to ask for. -/
def CanLoadNext (s : State) : Prop :=
  s.storeReady = true ∧ s.historyThread = 0 ∧ s.connected = true

instance (s : State) : Decidable s.CanLoadNext := inferInstanceAs (Decidable (_ ∧ _ ∧ _))

def loadNextHistory (s : State) : State :=
  if ¬ s.CanLoadNext then s
  else match s.historyQueue with
    | [] => s
    | thread :: rest =>
      sendHistoryRequest { s with
        historyOperation := s.historyOperation + 1
        historyQueue := rest
        historyThread := thread
        historyCursor := s.syncCursors thread }

def removeThread (s : State) (thread : Int) : State :=
  let s := { s with
    syncCursors := Function.update s.syncCursors thread 0
    historyQueue := s.historyQueue.filter (· ≠ thread)
    historyComplete := s.historyComplete.filter (· ≠ thread)
    threadsWithoutSummary := s.threadsWithoutSummary.filter (· ≠ thread)
    dropped := thread :: s.dropped }
  if s.historyThread = thread then
    { s with
      historyOperation := s.historyOperation + 1
      pending := none, historyThread := 0, historyCursor := 0 }
  else s

/-- `RequestFailed` of the history request; the timer runs `LoadNextHistory`. -/
def historyFailed (s : State) : State :=
  if ¬ s.storeReady then s
  else { s with historyOperation := s.historyOperation + 1, historyThread := 0 }

def threadsFailed (s : State) : State :=
  if ¬ s.storeReady then s else { s with threadsLoading := false }

/-- Whether the client has the conversation now, creating a private one with a friend. -/
def ensureThread (s : State) (thread otherUid : Int) : Bool × State :=
  if otherUid = 0 then ((s.users.chat? thread).isSome, s)
  else if thread ≤ 0 ∨ otherUid < 0 ∨ otherUid = s.users.uid ∨ otherUid ∉ s.users.friends then
    (false, s)
  else if (s.users.chat? thread).isSome then (true, s)
  else (true, { s with users := s.users.addChatThreadData ⟨thread, otherUid, ""⟩ }.store faults
    (.saveConversations [⟨thread, otherUid, 0, none, none, ""⟩]))

/-- `ReceiveGroup` of a group object that says `removed`. -/
def groupRemoved (s : State) (id : Int) : State :=
  if id ≤ 0 ∨ ¬ s.storeReady then s
  else
    let s := s.removeThread id
    { s with users := s.users.removeGroup id }.store faults (.forgetGroupProfile id)

def receiveGroup (s : State) (group : String) : State :=
  let id := J.threadId group
  if J.removed group then s.groupRemoved faults id
  else if id ≤ 0 ∨ ¬ s.storeReady then s
  else if ¬ J.wellFormed group then s
  else match s.users.chat? id with
    | some c =>
      if ¬ c.IsGroup then s
      else
        let metadata := J.merge c.group group
        { s with users := s.users.setGroup id metadata, groupSnapshot := id :: s.groupSnapshot }.store
          faults (.saveConversations [⟨id, 0, 0, none, none, metadata⟩])
    | none =>
      let metadata := J.merge "" group
      let s := { s with
        users := s.users.addChatThreadData ⟨id, 0, metadata⟩
        groupSnapshot := id :: s.groupSnapshot }
      (s.store faults (.saveConversations [⟨id, 0, 0, none, none, metadata⟩])).queueHistory id false

/-- One conversation of a thread list page, with the rows to store so far. -/
def receiveThread (p : State × List StoredConversation) (t : ThreadInfo) :
    State × List StoredConversation :=
  let (s, stored) := p
  match t.kind with
  | .group json =>
    let s := receiveGroup J faults { s with groupSnapshot := t.threadId :: s.groupSnapshot } json
    match s.users.chat? t.threadId with
    | some c => (s, stored ++ [⟨t.threadId, 0, t.lastMessageId, some t.lastChatTime, none, c.group⟩])
    | none => (s, stored)
  | .privateChat user1 user2 =>
    if user1 ≠ s.users.uid ∧ user2 ≠ s.users.uid then (s, stored)
    else
      let other := if user1 = s.users.uid then user2 else user1
      let (known, s) := s.ensureThread faults t.threadId other
      if ¬ known then (s, stored)
      else
        let s := if ¬ t.hasLastChatSummary ∨ (0 < t.lastMessageId ∧ t.lastChatTime = "") then
          { s with threadsWithoutSummary := t.threadId :: s.threadsWithoutSummary } else s
        (s, stored ++ [⟨t.threadId, other, t.lastMessageId, some t.lastChatTime, none, ""⟩])
  | .other => (s, stored)

/-- Ends a thread list: groups the server no longer lists are gone, and all history is queued. -/
def finishThreads (s : State) : State :=
  let s := s.users.chats.foldl (fun s c =>
    if c.IsGroup ∧ c.threadId ∉ s.groupSnapshot then s.groupRemoved faults c.threadId else s) s
  let missing := s.threadsWithoutSummary.dedup.insertionSort (· ≥ ·)
  let s := missing.foldl (fun s t => s.queueHistory t false) s
  let s := { s with threadsWithoutSummary := [] }
  s.users.chats.foldl (fun s c => s.queueHistory c.threadId false) s

def receiveThreads (s : State) (more : Bool) (lastId : Int) (threads : List ThreadInfo) : State :=
  if ¬ s.threadsLoading then s
  else
    let (s, stored) := threads.foldl (receiveThread J faults) ({ s with threadsLoading := false }, [])
    let s := s.store faults (.saveConversations stored)
    if more ∧ lastId ≤ s.threadCursor then s
    else
      let s := { s with threadCursor := lastId, threadsComplete := !more }
      if more then s else s.finishThreads faults

/-- The callback of `OpenAccount`: loads the cursors and the stored conversations. -/
def accountOpened (s : State) (o : Opening) : State :=
  if o.revision ≠ s.revision ∨ ¬ o.opened then s
  else
    let s := { s with storeReady := true, syncCursors := o.cursors, dropped := [] }
    let s := o.conversations.foldl (fun s c =>
      let s := if c.otherUid = 0 ∧ c.groupJson ≠ "" then receiveGroup J faults s c.groupJson else s
      (s.ensureThread faults c.threadId c.otherUid).2) s
    s.loadThreads

/-- Where a page that continues a cursor ends. -/
def pageEnd (thread : Int) : Int → List StoredMessage → Option Int
  | previous, [] => some previous
  | previous, m :: ms =>
    if m.threadId ≠ thread ∨ m.serverId ≤ previous then none else pageEnd thread m.serverId ms

def receiveHistory (s : State) (p : HistoryPage) : State :=
  if p.threadId ≠ s.historyThread then s
  else if (s.users.chat? p.threadId).isNone then { s with historyThread := 0 }
  else if pageEnd p.threadId s.historyCursor p.messages ≠ some p.messageId ∨
      (p.more ∧ p.messages = []) then s.historyFailed
  else
    let op : Operation := .saveMessages p.messages p.threadId p.messageId 0
    let saved := !faults s.operations && (op.run s.db).toBool
    let s := s.store faults op
    { s with
      saves := s.saves ++
        [⟨s.revision, s.historyOperation, p.threadId, p.messageId, p.more, saved⟩] }

/-- The guard of the callback: nothing was reset since the page was handed over. -/
def IsCurrent (s : State) (c : PageSave) : Prop :=
  s.revision = c.revision ∧ s.storeReady = true ∧ s.historyOperation = c.operation ∧
    s.historyThread = c.threadId

instance (s : State) (c : PageSave) : Decidable (s.IsCurrent c) :=
  inferInstanceAs (Decidable (_ ∧ _ ∧ _ ∧ _))

def pageSaved (s : State) (c : PageSave) : State :=
  if ¬ s.IsCurrent c then s
  else if ¬ c.saved then s.historyFailed
  else
    let s := { s with
      syncCursors := Function.update s.syncCursors c.threadId c.messageId
      historyCursor := c.messageId
      dropped := s.dropped.filter (· ≠ c.threadId) }
    if c.more then s.sendHistoryRequest
    else { s with historyComplete := c.threadId :: s.historyComplete, historyThread := 0 }

/-- The loop of `ReceiveMessages`: the messages of conversations the client has. -/
def acceptMessages (reply : Bool) : State → List StoredMessage → State × List StoredMessage
  | s, [] => (s, [])
  | s, m :: ms =>
    if (s.users.chat? m.threadId).isNone ∧ m.senderUid = s.users.uid then
      acceptMessages reply s.reloadThreads ms
    else
      let (known, s) := if (s.users.chat? m.threadId).isNone ∧ ¬ reply then
        s.ensureThread faults m.threadId m.senderUid else ((s.users.chat? m.threadId).isSome, s)
      let (s, rest) := acceptMessages reply s ms
      (s, if known then m :: rest else rest)

/-- Live messages and acknowledgements never move a cursor. -/
def receiveMessages (s : State) (messages : List StoredMessage) (reply : Bool) : State :=
  if ¬ s.storeReady then s
  else
    let (s, records) := acceptMessages faults reply s messages
    if records = [] then s else s.store faults (.saveMessages records 0 (-1) 0)

end State

/-- A store operation that leaves opening and history pages to the service. -/
def IsLocal : Operation → Prop
  | .openAccount => False
  | .saveMessages _ syncThread _ _ => syncThread ≤ 0
  | _ => True

instance : DecidablePred IsLocal := fun op => by
  cases op <;> unfold IsLocal <;> infer_instance

inductive Action
  | login (uid : Int) (friends : List Int)
  | returnToLogin
  | accountOpened
  | connection (up : Bool)
  | addFriend (uid : Int)
  | friendDeleted (uid : Int)
  | threadOpened (thread otherUid : Int)
  | selectThread (thread : Int)
  | loadThreads
  | reloadThreads
  | threadsFailed
  | receiveThreads (more : Bool) (lastId : Int) (threads : List ThreadInfo)
  | receiveGroup (group : String)
  | receiveMessages (messages : List StoredMessage) (reply : Bool)
  | refreshAllHistory (force : Bool)
  | loadNextHistory
  | historyFailed
  | receiveHistory (page : HistoryPage)
  | pageSaved
  | store (op : Operation)

open State in
/-- The events of the client. `TcpMgr` passes on a reply or a failure of the pending history
request only, and neither after the request was cancelled. -/
def State.step (s : State) : Action → Option State
  | .login uid friends =>
    some (startSession faults { s with users := .reset uid friends, connected := true })
  | .returnToLogin =>
    some { s with users := .reset 0 [], connected := false }.resetSession
  | .accountOpened =>
    match s.openings with
    | [] => none
    | o :: rest => some (accountOpened J faults { s with openings := rest } o)
  | .connection up => some { s with connected := up }
  | .addFriend uid => some { s with users := { s.users with friends := uid :: s.users.friends } }
  | .friendDeleted uid =>
    let (thread, users) := s.users.removeFriend uid
    let s := { s with users }
    some (if thread ≤ 0 then s else s.removeThread thread)
  | .threadOpened thread otherUid =>
    let (known, s) := s.ensureThread faults thread otherUid
    some (if known then s.queueHistory thread false else s)
  | .selectThread thread =>
    some (if (s.users.chat? thread).isSome then s.queueHistory thread true else s)
  | .loadThreads => some s.loadThreads
  | .reloadThreads => some s.reloadThreads
  | .threadsFailed => some s.threadsFailed
  | .receiveThreads more lastId threads => some (s.receiveThreads J faults more lastId threads)
  | .receiveGroup group => some (s.receiveGroup J faults group)
  | .receiveMessages messages reply => some (s.receiveMessages faults messages reply)
  | .refreshAllHistory force => some (s.refreshAllHistory force)
  | .loadNextHistory => some s.loadNextHistory
  | .historyFailed =>
    if s.pending = none then none else some (historyFailed { s with pending := none })
  | .receiveHistory page =>
    match s.pending with
    | none => none
    | some r =>
      if page.threadId ≠ r.threadId then none
      else some (receiveHistory faults { s with pending := none } page)
  | .pageSaved =>
    match s.saves with
    | [] => none
    | c :: rest => some (pageSaved { s with saves := rest } c)
  | .store op => if IsLocal op then some (s.store faults op) else none

def fresh (db : Database) : State where
  db := db
  operations := 0
  users := .reset 0 []
  connected := false
  pending := none
  revision := 0
  historyOperation := 0
  storeReady := false
  threadsLoading := false
  threadsComplete := false
  threadCursor := 0
  threadsWithoutSummary := []
  groupSnapshot := []
  syncCursors := fun _ => 0
  historyQueue := []
  historyComplete := []
  historyThread := 0
  historyCursor := 0
  openings := []
  saves := []
  sent := []
  dropped := []

/-- All runs of one client on one account, from any database the store can reach. -/
def client : Machine State Action :=
  .ofFn (fun s => ∃ db, LocalStore.store.Reachable db ∧ s = fresh db) (State.step J faults)

end CppChat.Sync
