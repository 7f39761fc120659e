import CppChat.ServerStore.Commits
import CppChat.Wire.Styled

/-! # The text and history handlers of the chat server

`DealChatTextMsg` acknowledges a stored batch with one frame, and `LoadChatMsg` answers with
a history page cut to the frame limit. Requests are taken after parsing. What MySQL and
Redis answer to the checks is given, and `AddChatMsg` is the message store.
-/
namespace CppChat.Wire
open ServerStore

def maxLength : ℕ := 1024 * 16

/-- The bodies `CSession::Send` puts in its queue. -/
def FitsFrame (size : ℕ) : Prop := size ≠ 0 ∧ size ≤ maxLength ∧ size ≤ 2 ^ 15 - 1

namespace ErrorCodes

def success : Int := 0
def errorJson : Int := 1001
def uidInvalid : Int := 1011
def loadChatFailed : Int := 1013
def databaseError : Int := 1014
def redisError : Int := 1015

end ErrorCodes

/-- `RequestContract::ValidId`. -/
def RequestId : Type := { id : String // id ≠ "" ∧ id.utf8ByteSize ≤ 64 }

structure Session where
  userId : Int
  voiceMessages : Bool
  fileMessages : Bool

/-! ## Replies -/

structure ChatJson where
  messageId : ℕ
  threadId : Int
  sender : Int
  recvId : Int
  uniqueId : String
  content : String
  msgContent : String
  chatTime : String
  status : Int
  msgType : Int
  mediaSize : ℕ
  media : Option (String × ℕ)

/-- `media_format` and `duration_ms` are present together. -/
def ChatJson.toObject (c : ChatJson) : Object :=
  [("message_id", .number c.messageId), ("thread_id", .number c.threadId),
    ("sender", .number c.sender), ("recv_id", .number c.recvId), ("unique_id", .text c.uniqueId),
    ("content", .text c.content), ("msg_content", .text c.msgContent),
    ("chat_time", .text c.chatTime), ("status", .number c.status), ("msg_type", .number c.msgType),
    ("media_size", .number c.mediaSize)] ++
  match c.media with
  | none => []
  | some (format, duration) => [("media_format", .text format), ("duration_ms", .number duration)]

/-- The members a reply of either handler can have. -/
structure Reply where
  requestId : Option RequestId
  error : Option Int
  fromUid : Option Int
  toUid : Option Int
  threadId : Option Int
  lastMessageId : Option Int
  loadMore : Option Bool
  chatDatas : Option (List ChatJson)

namespace Reply

def empty (requestId : Option RequestId) : Reply :=
  ⟨requestId, none, none, none, none, none, none, none⟩

def toDocument (r : Reply) : Document where
  members :=
    (r.requestId.map fun id => ("request_id", .text id.1)).toList ++
    (r.error.map fun n => ("error", .number n)).toList ++
    (r.fromUid.map fun n => ("fromuid", .number n)).toList ++
    (r.toUid.map fun n => ("touid", .number n)).toList ++
    (r.threadId.map fun n => ("thread_id", .number n)).toList ++
    (r.lastMessageId.map fun n => ("last_message_id", .number n)).toList ++
    (r.loadMore.map fun b => ("load_more", .bool b)).toList
  arrays := (r.chatDatas.map fun cs => ("chat_datas", cs.map ChatJson.toObject)).toList

/-- The length of `toStyledString`. -/
def size (w : Writer) (r : Reply) : ℕ := r.toDocument.size w

end Reply

def waveHeaderBytes : ℕ := 44
def pcmBytesPerSecond : ℕ := 32000

/-- `PresentMessage`: old clients see a placeholder instead of a file or a voice message. -/
def ChatJson.present (c : ChatJson) (voiceMessages fileMessages : Bool) : ChatJson :=
  if c.msgType = 2 ∧ ¬ fileMessages then
    { c with
      msgType := 0, mediaSize := 0
      content := "[文件消息] 请升级客户端以下载", msgContent := "[文件消息] 请升级客户端以下载" }
  else if c.msgType ≠ 3 then c
  else if ¬ voiceMessages then
    { c with
      msgType := 0, mediaSize := 0
      content := "[语音消息] 请升级客户端以收听", msgContent := "[语音消息] 请升级客户端以收听" }
  else { c with media := some ("wav/pcm_s16le/16000/mono",
    if waveHeaderBytes ≤ c.mediaSize then (c.mediaSize - waveHeaderBytes) * 1000 / pcmBytesPerSecond
    else 0) }

def fillChatJson (m : ChatMessage) (voiceMessages fileMessages : Bool) : ChatJson :=
  ChatJson.present ⟨m.messageId, m.threadId, m.senderId, m.recvId, m.uniqueId, m.content, m.content,
    m.chatTime, m.status, m.msgType, m.mediaSize, none⟩ voiceMessages fileMessages

/-! ## Storing a batch -/

/-- What the checks of a batch and of a page ask: the error codes of MySQL, and Redis. -/
structure Services where
  getGroup : Int → Int → Int
  checkFriendship : Int → Int → Int
  checkPrivateChatAccess : Int → Int → Int
  redis : String → Option String
  access_isInt : ∀ uid thread, IsInt (checkPrivateChatAccess uid thread)

/-- `isspace` of the C locale. -/
def isSpace (c : Char) : Bool := c ∈ [' ', '\t', '\n', '\x0B', '\x0C', '\r']

/-- `std::stoull`: spaces, a sign, then digits; it throws without a digit or out of range. -/
def stoull? (s : String) : Option ℕ :=
  let s := s.toList.dropWhile isSpace
  let (negative, s) := match s with
    | '-' :: rest => (true, rest)
    | '+' :: rest => (false, rest)
    | _ => (false, s)
  let digits := s.takeWhile Char.isDigit
  let n := digits.foldl (fun n c => 10 * n + (c.toNat - '0'.toNat)) 0
  if digits = [] ∨ 2 ^ 64 ≤ n then none
  else some (if negative then (2 ^ 64 - n) % 2 ^ 64 else n)

def IsResourceId (id : String) : Prop :=
  id.utf8ByteSize = 32 ∧ ∀ c ∈ id.toList, c.isDigit ∨ c.toLower ∈ ['a', 'b', 'c', 'd', 'e', 'f']

instance : DecidablePred IsResourceId := fun id =>
  have : Decidable (∀ c ∈ id.toList, c.isDigit ∨ c.toLower ∈ ['a', 'b', 'c', 'd', 'e', 'f']) :=
    List.decidableBAll _ id.toList
  inferInstanceAs (Decidable (_ ∧ _))

/-- The checks of one element; a media message takes its size from the uploaded resource. -/
def checkMessage (v : Services) (actor : Int) (isGroup : Bool) (m : ChatMessage) :
    Except Int ChatMessage :=
  if m.senderId ≠ actor ∨ m.recvId ≤ 0 ∨ m.threadId ≤ 0 then .error ErrorCodes.uidInvalid
  else if m.msgType < 0 ∨ 3 < m.msgType then .error ErrorCodes.errorJson
  else if m.msgType = 0 then .ok m
  else if ¬ IsResourceId m.content then .error ErrorCodes.errorJson
  else match v.redis ("resource_ready_" ++ m.content) with
    | none => .error ErrorCodes.redisError
    | some ready =>
      let scope := if isGroup then "group:" ++ toString actor ++ ":" ++ toString m.threadId ++ ":"
        else toString actor ++ ":" ++ toString m.recvId ++ ":"
      let kind := if m.msgType = 3 then "audio:" else if m.msgType = 2 then "file:" else ""
      let start := (kind ++ scope).toList
      if ¬ start <+: ready.toList then .error ErrorCodes.errorJson
      else match stoull? (String.ofList (ready.toList.drop start.length)) with
        | none => .error ErrorCodes.errorJson
        | some size =>
          if m.msgType = 3 ∧ (size < waveHeaderBytes + pcmBytesPerSecond ∨
              waveHeaderBytes + pcmBytesPerSecond * 60 < size) then .error ErrorCodes.errorJson
          else .ok { m with mediaSize := size }

/-- `MessageService::Store` up to the call of `AddChatMsg`: the batch it hands over. -/
def checkBatch (v : Services) (actor : Int) : List ChatMessage → Except Int (List ChatMessage)
  | [] => .error ErrorCodes.uidInvalid
  | first :: rest =>
    if actor ≤ 0 then .error ErrorCodes.uidInvalid
    else
      let isGroup := first.senderId = first.recvId
      let access := if isGroup then v.getGroup actor first.threadId else ErrorCodes.success
      if access ≠ ErrorCodes.success then .error access
      else do
        let messages ← (first :: rest).mapM (checkMessage v actor isGroup)
        let friendship := if isGroup then ErrorCodes.success
          else v.checkFriendship actor first.recvId
        if friendship ≠ ErrorCodes.success then .error friendship else .ok messages

/-- `AddChatMsg` returns the stored elements, or nothing when it fails. -/
def store (v : Services) (actor : Int) (addChatMsg : List ChatMessage → Option (List ChatMessage))
    (messages : List ChatMessage) : Except Int (List ChatMessage) := do
  let batch ← checkBatch v actor messages
  match addChatMsg batch with
  | some stored => .ok stored
  | none => .error ErrorCodes.databaseError

/-! ## `DealChatTextMsg` -/

/-- An element of `text_array`; `content` is `none` when it is no string. -/
structure TextItem where
  content : Option String
  uniqueId : Option String
  msgid : Option String
  msgType : Option Int

structure TextRequest where
  requestId : Option RequestId
  fromUid : Int
  toUid : Int
  threadId : Int
  textArray : List TextItem

def TextItem.toMessage (item : TextItem) (request : TextRequest) (timestamp content : String) :
    ChatMessage where
  messageId := 0
  threadId := request.threadId
  senderId := request.fromUid
  recvId := if request.toUid = 0 then request.fromUid else request.toUid
  uniqueId := item.uniqueId.getD (item.msgid.getD "")
  content := content
  chatTime := timestamp
  status := 2
  msgType := item.msgType.getD 0
  mediaSize := 0

/-- The loop over `text_array`: an element without a string content is skipped. -/
def readItems (session : Session) (request : TextRequest) (timestamp : String) :
    List TextItem → Except Int (List ChatMessage)
  | [] => .ok []
  | item :: rest =>
    match item.content with
    | none => readItems session request timestamp rest
    | some content =>
      let message := item.toMessage request timestamp content
      if (message.msgType = 3 ∧ ¬ session.voiceMessages) ∨
          (message.msgType = 2 ∧ ¬ session.fileMessages) then .error ErrorCodes.errorJson
      else do
        let messages ← readItems session request timestamp rest
        .ok (message :: messages)

def TextRequest.Refused (request : TextRequest) (session : Session) : Prop :=
  request.fromUid ≤ 0 ∨ request.fromUid ≠ session.userId ∨ request.toUid < 0 ∨
    request.toUid = request.fromUid ∨ request.threadId ≤ 0

instance (request : TextRequest) (session : Session) : Decidable (request.Refused session) :=
  inferInstanceAs (Decidable (_ ∨ _ ∨ _ ∨ _ ∨ _))

/-- The reply to the sender. The text notifications go out after it is built. -/
def dealChatTextMsg (v : Services) (addChatMsg : List ChatMessage → Option (List ChatMessage))
    (session : Session) (timestamp : String) (request : TextRequest) : Reply :=
  let response := Reply.empty request.requestId
  if request.Refused session then { response with error := some ErrorCodes.uidInvalid }
  else
    let response := { response with
      fromUid := some request.fromUid, toUid := some request.toUid
      threadId := some request.threadId }
    match readItems session request timestamp request.textArray with
    | .error e => { response with error := some e }
    | .ok messages =>
      match store v request.fromUid addChatMsg messages with
      | .error e => { response with error := some e }
      | .ok stored => { response with
          error := some ErrorCodes.success
          chatDatas := some (stored.map fun m => fillChatJson m true true) }

/-! ## `LoadChatMsg` -/

structure Page where
  messages : List ChatMessage
  loadMore : Bool
  nextCursor : Int

def toMessage (r : ChatRow) : ChatMessage :=
  ⟨r.messageId, r.threadId, r.senderId, r.recvId, r.uniqueId, r.content, r.createdAt, r.status,
    r.msgType, r.mediaSize⟩

/-- `WHERE thread_id = ? AND message_id > ? ORDER BY message_id ASC`. -/
def rowsAfter (table : List ChatRow) (thread cursor : Int) : List ChatRow :=
  (table.filter fun r => r.threadId = thread ∧ cursor < r.messageId).insertionSort
    fun a b => a.messageId ≤ b.messageId

/-- The DAO: one row more than the page is read to see whether there are more. -/
def loadPage (table : List ChatRow) (thread cursor : Int) (pageSize : ℕ) : Page :=
  let rows := (rowsAfter table thread cursor).take (pageSize + 1)
  let messages := (rows.take pageSize).map toMessage
  { messages
    loadMore := pageSize < rows.length
    nextCursor := ((messages.getLast?).map fun m => (m.messageId : Int)).getD cursor }

def load (v : Services) (table : List ChatRow) (uid thread cursor : Int) : Except Int Page :=
  let access := v.checkPrivateChatAccess uid thread
  if access ≠ ErrorCodes.success ∧ v.getGroup uid thread ≠ ErrorCodes.success then .error access
  else if thread ≤ 0 then .error ErrorCodes.loadChatFailed
  else .ok (loadPage table thread cursor 10)

structure LoadRequest where
  requestId : Option RequestId
  threadId : Int
  messageId : Option Int
  threadId_isInt : IsInt threadId
  messageId_isInt : ∀ n ∈ messageId, IsInt n

def LoadRequest.cursor (q : LoadRequest) : Int := q.messageId.getD 0

/-- The reply with one more message. -/
def candidate (session : Session) (response : Reply) (m : ChatMessage) : Reply :=
  { response with
    chatDatas := some (response.chatDatas.getD [] ++
      [fillChatJson m session.voiceMessages session.fileMessages])
    lastMessageId := some (m.messageId : Int) }

variable (w : Writer)

/-- The loop over the page: a message is kept when the reply with it stays 16 bytes below
the limit. -/
def addMessages (session : Session) : Reply → List ChatMessage → Reply
  | response, [] => response
  | response, m :: rest =>
    if maxLength - 16 < (candidate session response m).size w then
      if response.chatDatas.getD [] = [] then
        { response with error := some ErrorCodes.loadChatFailed, loadMore := some false }
      else { response with loadMore := some true }
    else addMessages session (candidate session response m) rest

def loadChatMsg (v : Services) (session : Session) (table : List ChatRow) (q : LoadRequest) : Reply :=
  let response := { Reply.empty q.requestId with threadId := some q.threadId }
  match load v table session.userId q.threadId q.cursor with
  | .error e => { response with error := some e }
  | .ok page =>
    addMessages w session { response with
      error := some ErrorCodes.success
      lastMessageId := some q.cursor
      loadMore := some page.loadMore
      chatDatas := some [] } page.messages

end CppChat.Wire
