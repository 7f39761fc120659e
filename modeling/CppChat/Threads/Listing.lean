import CppChat.Foundation.Paging
import CppChat.Foundation.Table
import Mathlib.Data.List.MinMax

/-! # The list of conversations

`GetUserThreads` reads a page of the private chats and groups of a user in one query, and the
handler then reads the metadata of each group in a transaction of its own. Each of these reads
can fail. Ids are those that fit an `int`.
-/
namespace CppChat.Threads
open Foundation

namespace ErrorCodes

def success : Int := 0
def uidInvalid : Int := 1011
def databaseError : Int := 1014
def groupForbidden : Int := 1018

end ErrorCodes

/-! ## The tables -/

structure PrivateRow where
  threadId : ℕ
  user1 : Int
  user2 : Int
  deriving DecidableEq

structure MemberRow where
  threadId : ℕ
  userId : Int
  deriving DecidableEq

structure GroupRow where
  threadId : ℕ
  name : String
  ownerUid : Int
  active : Bool
  deriving DecidableEq

structure MessageRow where
  messageId : ℕ
  threadId : ℕ
  createdAt : String
  deriving DecidableEq

/-- The rows under their primary keys. A row of `chat_thread` is inserted with its type under
the next id, and the private chat or the members of the new conversation follow it, so no
thread is both. -/
structure Database where
  privateChat : Table PrivateRow fun a b => a.threadId = b.threadId
  groupChatMember : Table MemberRow fun a b => a = b
  groupChat : Table GroupRow fun a b => a.threadId = b.threadId
  chatMessage : Table MessageRow fun a b => a.messageId = b.messageId
  friend : Int → Int → Bool
  positive : ∀ m ∈ groupChatMember.rows, 0 < m.threadId
  positive' : ∀ p ∈ privateChat.rows, 0 < p.threadId
  apart : ∀ p ∈ privateChat.rows, ∀ m ∈ groupChatMember.rows, p.threadId ≠ m.threadId

/-! ## The query -/

inductive ThreadType
  | privateChat
  | group
  deriving DecidableEq

/-- A row of `all_threads`. -/
structure Thread where
  threadId : ℕ
  type : ThreadType
  user1 : Int
  user2 : Int
  deriving DecidableEq

def Thread.key (t : Thread) : Int := t.threadId

def PrivateRow.other (p : PrivateRow) (uid : Int) : Int := if p.user1 = uid then p.user2 else p.user1

def PrivateRow.thread (p : PrivateRow) : Thread := ⟨p.threadId, .privateChat, p.user1, p.user2⟩

def MemberRow.thread (m : MemberRow) : Thread := ⟨m.threadId, .group, 0, 0⟩

/-- `all_threads` without its cursor. -/
def allThreads (db : Database) (uid : Int) : List Thread :=
  (db.privateChat.rows.filter fun p =>
      (p.user1 = uid ∨ p.user2 = uid) ∧ db.friend uid (p.other uid)).map PrivateRow.thread ++
    (db.groupChatMember.rows.filter fun m => m.userId = uid).map MemberRow.thread

structure ThreadInfo where
  threadId : ℕ
  type : ThreadType
  user1Id : Int
  user2Id : Int
  lastMessageId : ℕ
  lastChatTime : String
  deriving DecidableEq

/-- The message with the greatest id. -/
def lastMessage (db : Database) (thread : ℕ) : Option MessageRow :=
  (db.chatMessage.rows.filter fun m => m.threadId = thread).argmax MessageRow.messageId

def Thread.info (db : Database) (t : Thread) : ThreadInfo where
  threadId := t.threadId
  type := t.type
  user1Id := t.user1
  user2Id := t.user2
  lastMessageId := ((lastMessage db t.threadId).map MessageRow.messageId).getD 0
  lastChatTime := ((lastMessage db t.threadId).map MessageRow.createdAt).getD ""

/-- One page; nothing when the query fails. -/
def getUserThreads (db : Database) (uid last : Int) (pageSize : ℕ) (answers : Bool) :
    Option (Paging.Page ThreadInfo Int) :=
  if uid ≤ 0 ∨ pageSize = 0 ∨ ¬ answers then none
  else
    let page := Paging.page Thread.key (allThreads db uid) pageSize last
    some ⟨page.rows.map (Thread.info db), page.more, page.next⟩

structure GroupJson where
  threadId : ℕ
  name : String
  ownerUid : Int
  deriving DecidableEq

/-- `GetGroup` without the members. -/
def getGroup (db : Database) (uid : Int) (thread : ℕ) (answers : Bool) : Except Int GroupJson :=
  if uid ≤ 0 ∨ thread = 0 then .error ErrorCodes.uidInvalid
  else if ¬ answers then .error ErrorCodes.databaseError
  else match db.groupChat.rows.find? fun g => g.threadId = thread ∧ g.active with
    | none => .error ErrorCodes.groupForbidden
    | some g =>
      if ⟨thread, uid⟩ ∈ db.groupChatMember.rows then .ok ⟨thread, g.name, g.ownerUid⟩
      else .error ErrorCodes.groupForbidden

/-! ## The handler -/

structure Entry where
  info : ThreadInfo
  group : Option GroupJson
  deriving DecidableEq

structure Reply where
  error : Int
  uid : Option Int
  loadMore : Bool
  nextLastId : Int
  threads : List Entry
  deriving DecidableEq

/-- Which reads of one request succeed. -/
structure Plan where
  page : Bool
  group : ℕ → Bool

/-- The loop over the page: a group whose metadata was not read is left out. -/
def entry? (db : Database) (uid : Int) (plan : Plan) (info : ThreadInfo) : Option Entry :=
  if info.type = .group then
    match getGroup db uid info.threadId (plan.group info.threadId) with
    | .ok group => some ⟨info, some group⟩
    | .error _ => none
  else some ⟨info, none⟩

def getUserThreadsHandler (db : Database) (session uid last : Int) (plan : Plan) : Reply :=
  if uid ≤ 0 ∨ uid ≠ session then ⟨ErrorCodes.uidInvalid, none, false, 0, []⟩
  else match getUserThreads db uid last 10 plan.page with
    | none => ⟨ErrorCodes.uidInvalid, none, false, 0, []⟩
    | some page => ⟨ErrorCodes.success, some uid, page.more, page.next,
        page.rows.filterMap ( entry? db uid plan)⟩

/-! ## A listing -/

structure Step where
  plan : Plan
  cursor : Int
  reply : Reply

/-- Pages that follow each other from a cursor, as long as there are more. -/
def listing (db : Database) (uid : Int) : List Plan → Int → List Step
  | [], _ => []
  | plan :: plans, cursor =>
    let reply := getUserThreadsHandler db uid uid cursor plan
    ⟨plan, cursor, reply⟩ ::
      if reply.error = ErrorCodes.success ∧ reply.loadMore then
        listing db uid plans reply.nextLastId
      else []

/-- The last page says that there are no more. -/
def Ended (steps : List Step) : Prop := ∃ s, steps.getLast? = some s ∧ s.reply.loadMore = false

def union (steps : List Step) : List Entry := steps.flatMap fun s => s.reply.threads

/-- What the user is owed: private chats with current friends, and active groups. -/
def Owed (db : Database) (uid : Int) (e : Entry) : Prop :=
  (∃ p ∈ db.privateChat.rows, (p.user1 = uid ∨ p.user2 = uid) ∧ db.friend uid (p.other uid) ∧
    e = ⟨p.thread.info db, none⟩) ∨
  ∃ g ∈ db.groupChat.rows, g.active ∧ ⟨g.threadId, uid⟩ ∈ db.groupChatMember.rows ∧
    e = ⟨(MemberRow.thread ⟨g.threadId, uid⟩).info db, some ⟨g.threadId, g.name, g.ownerUid⟩⟩

/-- A read of this page failed: the query, or one of a group on the page. -/
def Step.Unread (db : Database) (uid : Int) (s : Step) : Prop :=
  s.plan.page = false ∨ ∃ t ∈ (Paging.page Thread.key (allThreads db uid) 10 s.cursor).rows,
    t.type = .group ∧ s.plan.group t.threadId = false

/-- What a listing promises. -/
structure Listed (db : Database) (uid : Int) (steps : List Step) : Prop where
  complete : (∀ s ∈ steps, s.reply.error = ErrorCodes.success) → Ended steps →
    (union steps).Pairwise (fun e e' => e.info.threadId < e'.info.threadId) ∧
      ∀ e, e ∈ union steps ↔ Owed db uid e
  reported : ∀ s ∈ steps, s.Unread db uid → s.reply.error ≠ ErrorCodes.success
  advances : ∀ s ∈ steps, s.reply.error = ErrorCodes.success → s.reply.loadMore = true →
    s.cursor < s.reply.nextLastId

/-- No read of a group fails on a page whose query succeeds. -/
def GroupsRead (db : Database) (uid : Int) (steps : List Step) : Prop :=
  ∀ s ∈ steps, s.plan.page = true →
    ∀ t ∈ (Paging.page Thread.key (allThreads db uid) 10 s.cursor).rows,
      t.type = .group → s.plan.group t.threadId = true

end CppChat.Threads
