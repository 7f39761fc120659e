import CppChat.Relations.Schema

/-! # Groups

The transactions of `MysqlDaoGroups.cpp`. The text that records what a group was created
with is written by the JSON writer, which is a parameter.
-/
namespace CppChat.Relations
open Foundation RowLocks

/-- The fields of a request; `none` when missing or of another type, and a malformed key or
operation, which is refused like one of another type, is none either. An element of `members`
is `none` when it is no int. -/
structure GroupRequest where
  op : Option String
  name : Option Name
  members : Option (List (Option ℤ))
  creationKey : Option String
  threadId : Option ℤ
  memberUid : Option ℤ
  deriving DecidableEq

def failGroup (error : Int) : Program := .finish false (.group error none)

def isMember (uid : ℤ) (thread : ℕ) (next : Bool → Program) : Program :=
  .read (.groupMembers thread) fun members => next (uid ∈ members.getD ∅)

/-- The members are read with the group. -/
def readGroup (thread : ℕ) (next : Option GroupView → Program) : Program :=
  .read (.groupChat thread) fun group =>
    .read (.groupMembers thread) fun members => next <|
      (group.filter Group.active).map fun g => ⟨thread, g.name, g.owner, members.getD ∅⟩

def nameValid (name : Option Name) : Bool :=
  match name with
  | none => false
  | some text =>
    text ≠ [] ∧ text.length ≤ 64 ∧ text.any (fun c => 32 < c) ∧
      ¬ text.any fun c => c < 32 ∨ c = 127

def keyChar (c : Char) : Bool :=
  'a' ≤ c ∧ c ≤ 'z' ∨ 'A' ≤ c ∧ c ≤ 'Z' ∨ '0' ≤ c ∧ c ≤ '9' ∨ c = '-'

def keyValid (key : String) : Bool :=
  key ≠ "" ∧ key.utf8ByteSize ≤ 64 ∧ key.toList.all keyChar

/-- The name, the key and the ids with the creator, of a create request that passes its
checks. -/
def creation (uid : ℤ) (request : GroupRequest) : Option (Name × String × Finset ℤ) :=
  match request.name, request.members, request.creationKey with
  | some name, some members, some key =>
    if ¬ nameValid name ∨ members = [] ∨ 31 < members.length ∨ ¬ keyValid key then none
    else if ∃ member ∈ members, member.getD 0 ≤ 0 then none
    else
      let ids : Finset ℤ := insert uid (members.filterMap id).toFinset
      if ids.card < 2 ∨ 32 < ids.card then none else some (name, key, ids)
  | _, _, _ => none

/-- The ids in the order of a `std::set`. -/
def ascending (ids : Finset ℤ) : List ℤ :=
  Quot.liftOn ids.val (List.insertionSort (· ≤ ·)) fun a b h =>
    ((List.perm_insertionSort _ a).trans <|
      h.trans (List.perm_insertionSort _ b).symm).eq_of_pairwise'
      (List.pairwise_insertionSort _ a) (List.pairwise_insertionSort _ b)

theorem mem_ascending {ids : Finset ℤ} {id : ℤ} : id ∈ ascending ids ↔ id ∈ ids := by
  obtain ⟨⟨l⟩, h⟩ := ids
  exact (List.perm_insertionSort _ l).mem_iff

/-- Each other id has to be a friend, in ascending order. -/
def checkFriends (uid : ℤ) : List ℤ → Program → Program
  | [], next => next
  | id :: ids, next =>
    if id = uid then checkFriends uid ids next
    else .lock .update (.friend uid id) fun row =>
      if row.isSome then checkFriends uid ids next else failGroup ErrorCodes.friendNotFound

/-- `INSERT INTO group_chat_member`: an error when the row is there. -/
def join (thread : ℕ) (uid : ℤ) (next : Program) : Program :=
  .modify (.groupMembers thread)
    (fun members => if uid ∈ members.getD ∅ then none else some (some (insert uid (members.getD ∅))))
    next

def joinAll (thread : ℕ) : List ℤ → Program → Program
  | [], next => next
  | id :: ids, next => join thread id (joinAll thread ids next)

def leave (thread : ℕ) (uid : ℤ) (next : Program) : Program :=
  .update (.groupMembers thread) (fun members => members.erase uid) next

variable (writeString : Name → Finset ℤ → String)

def createNew (uid : ℤ) (name : Name) (key : String) (ids : Finset ℤ) (next : ℕ → Program) :
    Program :=
  checkFriends uid (ascending ids) <|
    .fresh .chatThread fun thread =>
      .insert (.chatThread thread) .group <|
        .insert (.groupCreation uid key) thread <|
          .insert (.groupChat thread) ⟨name, uid, uid, key, writeString name ids, true⟩ <|
            joinAll thread (ascending ids) (next thread)

def createGroup (uid : ℤ) (request : GroupRequest) (next : ℕ → Program) : Program :=
  match creation uid request with
  | none => failGroup ErrorCodes.errorJson
  | some (name, key, ids) =>
    .lock .update (.user uid) fun user =>
      if user.isNone then failGroup ErrorCodes.uidInvalid
      else .lock .update (.groupCreation uid key) fun
        | none => createNew writeString uid name key ids next
        | some thread => .lock .update (.groupChat thread) fun
          | none => createNew writeString uid name key ids next
          | some previous =>
            if previous.creationSpec ≠ writeString name ids then failGroup ErrorCodes.errorJson
            else if ¬ previous.active then failGroup ErrorCodes.groupForbidden
            else isMember uid thread fun member =>
              if ¬ member then failGroup ErrorCodes.groupForbidden else next thread

def addMember (uid target : ℤ) (thread : ℕ) (next : Program) : Program :=
  .lock .update (.friend uid target) fun row =>
    if row.isNone then failGroup ErrorCodes.friendNotFound
    else isMember target thread fun member =>
      if member then next
      else .read (.groupMembers thread) fun members =>
        if 32 ≤ (members.getD ∅).card then failGroup ErrorCodes.groupFull
        else join thread target next

/-- The statements on a group whose row is locked, for a member who may do this. -/
def updateLocked (uid : ℤ) (op : String) (request : GroupRequest) (owner : ℤ) (thread : ℕ)
    (next : Program) : Program :=
  if op = "rename" then
    if ¬ nameValid request.name then failGroup ErrorCodes.errorJson
    else .update (.groupChat thread) (fun g => { g with name := request.name.getD [] }) next
  else if op = "disband" then
    .update (.groupChat thread) (fun g => { g with active := false })
      (.delete (.groupMembers thread) next)
  else
    let target := if op = "leave" then uid else request.memberUid.getD 0
    if target ≤ 0 ∨ target = owner then failGroup ErrorCodes.errorJson
    else if op = "add" then addMember uid target thread next
    else if op = "transfer" then isMember target thread fun member =>
      if ¬ member then failGroup ErrorCodes.groupForbidden
      else .update (.groupChat thread) (fun g => { g with owner := target }) next
    else leave thread target next

def updateGroup (uid : ℤ) (op : String) (request : GroupRequest) (next : ℕ → Program) : Program :=
  match request.threadId with
  | none => failGroup ErrorCodes.errorJson
  | some threadId =>
    if threadId ≤ 0 then failGroup ErrorCodes.errorJson
    else
      let thread := threadId.toNat
      .lock .update (.groupChat thread) fun row =>
        match row.filter Group.active with
        | none => failGroup ErrorCodes.groupForbidden
        | some group => isMember uid thread fun member =>
          if ¬ member then failGroup ErrorCodes.groupForbidden
          else if op ≠ "leave" ∧ uid ≠ group.owner then failGroup ErrorCodes.groupForbidden
          else if op = "leave" ∧ uid = group.owner then failGroup ErrorCodes.groupOwnerMustTransfer
          else updateLocked uid op request group.owner thread (next thread)

def getGroup (uid threadId : ℤ) : Program :=
  if uid ≤ 0 ∨ threadId ≤ 0 then failGroup ErrorCodes.uidInvalid
  else
    let thread := threadId.toNat
    .lock .share (.groupChat thread) fun row =>
      if (row.filter Group.active).isNone then failGroup ErrorCodes.groupForbidden
      else isMember uid thread fun member =>
        if ¬ member then failGroup ErrorCodes.groupForbidden
        else readGroup thread fun view =>
          .finish true (.group ErrorCodes.success (some (.group view)))

def changes : List String :=
  ["create", "info", "rename", "add", "remove", "leave", "transfer", "disband"]

/-- All operations but `common`, which reads a list of groups and changes nothing. -/
def changeGroup (uid : ℤ) (request : GroupRequest) : Program :=
  if uid ≤ 0 then failGroup ErrorCodes.tokenInvalid
  else match request.op with
    | none => failGroup ErrorCodes.errorJson
    | some op =>
      if op ∉ changes then failGroup ErrorCodes.errorJson
      else if op = "info" then
        match request.threadId with
        | none => failGroup ErrorCodes.errorJson
        | some threadId => getGroup uid threadId
      else
        let finish (thread : ℕ) : Program :=
          if op = "leave" ∨ op = "disband" then
            .finish true (.group ErrorCodes.success (some (.removed thread)))
          else readGroup thread fun view =>
            .finish true (.group ErrorCodes.success (some (.group view)))
        if op = "create" then createGroup writeString uid request finish
        else updateGroup uid op request finish

end CppChat.Relations
