import Mathlib.Data.Prod.Lex
import Mathlib.Data.String.Basic
import CppChat.Foundation.Walk
import CppChat.LocalStore.Schema

/-! # Queries of the local history

`ChatStore::QueryHistory` reads one page of the messages that match a filter, newest first. In
one conversation the order is that of the server's ids, across several that of the times.
`HistoryExporter` writes the pages to a file, one after the other.
-/
namespace CppChat.LocalStore
open Foundation

/-- `std::numeric_limits<int>::max()`, the id of pending messages in the order. -/
def maxServerId : Int := 2147483647

/-- `std::numeric_limits<qint64>::max()` -/
def maxLocalId : ℕ := 9223372036854775807

structure HistoryCursor where
  serverId : Int
  localId : ℕ
  time : String
  ceilingId : ℕ
  deriving DecidableEq

/-- The cursor of the first page. -/
def HistoryCursor.start : HistoryCursor := ⟨maxServerId, maxLocalId, "", 0⟩

structure HistoryFilter where
  threadId : Int
  text : String
  category : Int
  date : String
  allowedThreads : List Int
  confirmedOnly : Bool

/-! ## Patterns -/

/-- `LIKE … ESCAPE '\\'`, which ignores the case of ASCII letters. -/
def like : List Char → List Char → Bool
  | [], s => s.isEmpty
  | c :: p, s =>
    if c = '%' then s.tails.any fun t => like p t
    else if c = '_' then
      match s with
      | [] => false
      | _ :: s => like p s
    else if c = '\\' then
      match p with
      | [] => false
      | d :: p =>
        match s with
        | [] => false
        | e :: s => d.toLower == e.toLower && like p s
    else
      match s with
      | [] => false
      | e :: s => c.toLower == e.toLower && like p s

/-- The three calls of `replace`. -/
def escape : List Char → List Char
  | [] => []
  | c :: s => if c = '\\' ∨ c = '%' ∨ c = '_' then '\\' :: c :: escape s else c :: escape s

def contains (text content : String) : Bool :=
  like ('%' :: escape text.toList ++ ['%']) content.toList

/-! ## The query -/

/-- The position of a row in one conversation; later is larger. -/
def threadKey (r : MessageRow) : (Int ×ₗ ℕ)ᵒᵈ :=
  .toDual (toLex (r.serverId.getD maxServerId, r.localId))

/-- The position of a row across conversations. -/
def timeKey (r : MessageRow) : (String ×ₗ ℕ)ᵒᵈ := .toDual (toLex (r.chatTime, r.localId))

namespace HistoryFilter

variable (filter : HistoryFilter)

def scope : List Int := filter.allowedThreads.filter (0 < ·)

def inCategory (r : MessageRow) : Bool :=
  filter.category < 0 ∨
    filter.category ≠ 3 ∧ r.messageType = (if filter.category = 4 then 3 else filter.category) ∨
    filter.category = 3 ∧ r.messageType = 0 ∧
      (contains "http://" r.content ∨ contains "https://" r.content)

def onDate (nextDay : String → Option String) (r : MessageRow) : Bool :=
  filter.date = "" ∨
    filter.date ≤ r.chatTime ∧ r.chatTime < (nextDay filter.date).getD ""

/-- The conditions of the statement that do not depend on the cursor. -/
def selects (nextDay : String → Option String) (db : Database) (r : MessageRow) : Bool :=
  match db.conversation? r.threadId with
  | none => false
  | some c =>
    (if 0 < filter.threadId then r.threadId = filter.threadId else r.threadId ∈ filter.scope) ∧
      r.serverId.all (c.hiddenBeforeId < ·) ∧ (filter.confirmedOnly = false ∨ r.serverId.isSome) ∧
      filter.inCategory r ∧ filter.onDate nextDay r ∧ contains filter.text r.content

end HistoryFilter

/-- `SELECT COALESCE(MAX(local_id),0) FROM messages` -/
def Database.lastLocalId (db : Database) : ℕ :=
  (db.messages.rows.map MessageRow.localId).foldr max 0

/-- The rows that the statement returns, at most 51. -/
def selectHistory (nextDay : String → Option String) (db : Database) (filter : HistoryFilter)
    (cursor : HistoryCursor) : List MessageRow :=
  let rows := db.messages.rows.filter fun r =>
    filter.selects nextDay db r ∧ r.localId ≤ cursor.ceilingId
  if 0 < filter.threadId then
    (Paging.above threadKey (rows.filter fun r => r.serverId.getD maxServerId ≤ cursor.serverId)
      (.toDual (toLex (cursor.serverId, cursor.localId)))).take 51
  else
    (Paging.above timeKey rows (.toDual (toLex
      (if cursor.time = "" then "\uffff" else cursor.time, cursor.localId)))).take 51

/-- The cursor behind a row. -/
def cursorAt (ceilingId : ℕ) (last : MessageRow) : HistoryCursor :=
  ⟨if 0 < last.serverId.getD 0 then last.serverId.getD 0 else maxServerId, last.localId,
    last.chatTime, ceilingId⟩

/-- What is left of the rows of a statement, and where the next page starts. -/
def historyPage (ceilingId : ℕ) (rows : List MessageRow) :
    Paging.Page MessageRow HistoryCursor where
  rows := rows.take 50
  more := 50 < rows.length
  next := (((rows.take 50).getLast?).map (cursorAt ceilingId)).getD .start

/-- `nextDay` is the text of the day after a date, where the date is valid and has one. -/
def queryHistory (nextDay : String → Option String) (db : Database) (filter : HistoryFilter)
    (cursor : HistoryCursor) : Except StoreError (Paging.Page MessageRow HistoryCursor) :=
  if filter.threadId < 0 then .error (.checked "Invalid conversation")
  else if filter.category ∉ [-1, 0, 1, 2, 3, 4] then .error (.checked "Invalid search category")
  -- An empty access scope must never mean all stored conversations.
  else if filter.threadId = 0 ∧ filter.scope = [] then .ok ⟨[], false, .start⟩
  else if filter.date ≠ "" ∧ nextDay filter.date = none then
    .error (.checked "Invalid search date")
  else
    let ceilingId := if cursor.ceilingId = 0 then db.lastLocalId else cursor.ceilingId
    .ok (historyPage ceilingId (selectHistory nextDay db filter { cursor with ceilingId }))

/-- Follows `nextCursor` while `more` is set. -/
def followPages (nextDay : String → Option String) (db : Database) (filter : HistoryFilter) :
    ℕ → HistoryCursor → Option (Except StoreError (List MessageRow))
  | 0, _ => none
  | fuel + 1, cursor =>
    match queryHistory nextDay db filter cursor with
    | .error e => some (.error e)
    | .ok page =>
      if page.more then
        (followPages nextDay db filter fuel page.next).map fun rest => rest.map (page.rows ++ ·)
      else some (.ok page.rows)

/-! ## What a filter means -/

/-- A text occurs in another, up to the case of ASCII letters. -/
def Occurs (text content : String) : Prop :=
  ∃ before found after, content.toList = before ++ found ++ after ∧
    found.map Char.toLower = text.toList.map Char.toLower

/-- A stored message is in a requested conversation, was not hidden there, and is of the kind
that the filter asks for. -/
structure Matches (nextDay : String → Option String) (db : Database) (filter : HistoryFilter)
    (r : MessageRow) : Prop where
  thread : if 0 < filter.threadId then r.threadId = filter.threadId
    else r.threadId ∈ filter.allowedThreads ∧ 0 < r.threadId
  visible : ∃ c, db.conversation? r.threadId = some c ∧
    ∀ id, r.serverId = some id → c.hiddenBeforeId < id
  confirmed : filter.confirmedOnly = true → r.serverId ≠ none
  category : filter.category = -1 ∨
    filter.category = 3 ∧ r.messageType = 0 ∧
      (Occurs "http://" r.content ∨ Occurs "https://" r.content) ∨
    filter.category = 4 ∧ r.messageType = 3 ∨
    filter.category ∈ [0, 1, 2] ∧ r.messageType = filter.category
  date : filter.date ≠ "" → filter.date ≤ r.chatTime ∧
    ∃ day, nextDay filter.date = some day ∧ r.chatTime < day
  text : Occurs filter.text r.content

/-- What the checks of `queryHistory` let through. -/
structure HistoryFilter.Valid (nextDay : String → Option String) (filter : HistoryFilter) :
    Prop where
  thread : 0 ≤ filter.threadId
  category : filter.category ∈ [-1, 0, 1, 2, 3, 4]
  date : filter.date = "" ∨ nextDay filter.date ≠ none

end CppChat.LocalStore
