import Mathlib.Data.Finset.Sort
import Mathlib.Data.Int.Order.Basic
import CppChat.Foundation.RowLocks

/-! # Contacts, private chats and groups: the tables

One row for each key that the statements lock. A second unique key is a row of its own, and
the members of a group are one row, since every statement on them follows the lock of the
group.
-/
namespace CppChat.Relations
open Foundation RowLocks

namespace ErrorCodes

def success : Int := 0
def errorJson : Int := 1001
def tokenInvalid : Int := 1010
def uidInvalid : Int := 1011
def databaseError : Int := 1014
def friendNotFound : Int := 1017
def groupForbidden : Int := 1018
def groupOwnerMustTransfer : Int := 1019
def groupFull : Int := 1020

end ErrorCodes

structure Apply where
  descs : String
  backName : String
  tags : Option String
  status : ℕ
  deriving DecidableEq

structure Friend where
  back : String
  tags : Option String
  deriving DecidableEq

inductive ThreadType
  | privateChat
  | group
  deriving DecidableEq

/-- A row of `chat_message` with an empty `unique_id`. -/
structure ChatMessage where
  thread : ℕ
  sender : ℤ
  recv : ℤ
  content : String
  status : ℕ
  deriving DecidableEq

/-- A name as the request brings it: bytes that need not be well-formed UTF-8. -/
abbrev Name := List UInt8

structure Group where
  name : Name
  owner : ℤ
  creator : ℤ
  creationKey : String
  creationSpec : String
  active : Bool
  deriving DecidableEq

inductive Row
  | user (uid : ℤ)
  | friendApply (fromUid toUid : ℤ)
  | friend (selfId friendId : ℤ)
  | chatThread (thread : ℕ)
  | privateChat (user1 user2 : ℤ)
  | chatMessage (id : ℕ)
  | groupCreation (creator : ℤ) (key : String)
  | groupChat (thread : ℕ)
  | groupMembers (thread : ℕ)
  deriving DecidableEq

/-- What a row holds; the rows of the unique keys hold the thread. -/
abbrev Val : Row → Type
  | .user _ => Unit
  | .friendApply _ _ => Apply
  | .friend _ _ => Friend
  | .chatThread _ => ThreadType
  | .privateChat _ _ => ℕ
  | .chatMessage _ => ChatMessage
  | .groupCreation _ _ => ℕ
  | .groupChat _ => Group
  | .groupMembers _ => Finset ℤ

abbrev Tables := Db Val

/-- Plain reads of the members of a group follow the lock of its row. -/
def guard : Row → Row
  | .groupMembers thread => .groupChat thread
  | r => r

/-! ## What the operations report -/

structure GroupView where
  threadId : ℕ
  name : Name
  ownerUid : ℤ
  members : Finset ℤ
  deriving DecidableEq

/-- The `group` of a successful change; `none` when nothing was read. -/
inductive GroupReply
  | removed (thread : ℕ)
  | group (view : Option GroupView)
  deriving DecidableEq

inductive Result
  | group (error : Int) (reply : Option GroupReply)
  | applied (success notify : Bool)
  | befriended (success : Bool) (messages : List (ℕ × ChatMessage))
  | deleted (success : Bool)
  | privateChat (success : Bool) (thread : ℕ)
  deriving DecidableEq

abbrev Program := Prog Val Result

def membersOf (db : Tables) (thread : ℕ) : Finset ℤ := (db (.groupMembers thread)).getD ∅

end CppChat.Relations
