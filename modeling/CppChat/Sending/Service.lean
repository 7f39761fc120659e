import Mathlib.Data.Multiset.AddSub
import Mathlib.Logic.Function.Basic
import CppChat.Attachments.Container
import CppChat.Foundation.Transition
import CppChat.Media.Wave
import CppChat.Texts.Split

/-! # Sending messages

`MessageSender` saves a message, uploads its media, sends it and waits for the confirmation. It
runs on one thread: what it asked the store, the resource manager or a timer for comes back as an
event of its own, in any order. What the rest of the client says may be different at every event.
-/
namespace CppChat.Sending
open Foundation (Machine)
open Foundation.Utf16 (Text utf16)
open Foundation.Cbor (Bytes)
open Attachments (Qt unpack trimmed)
open Texts (EmojiCatalog splitText)

inductive ChatMsgType
  | text
  | pic
  | file
  | audio
  deriving DecidableEq

def ChatMsgType.toInt : ChatMsgType → ℤ
  | text => 0
  | pic => 1
  | file => 2
  | audio => 3

/-- `MsgStatus`. -/
def unRead : ℤ := 0
def sendFailed : ℤ := 1

structure MsgInfo where
  msgFlag : String
  content : Text
  imageData : Bytes
  deriving DecidableEq

/-- A `ChatThreadData`, known by its address. -/
structure Chat where
  ref : ℕ
  threadId : ℤ
  otherId : ℤ
  isGroup : Bool
  threadId_isInt : Wire.IsInt threadId
  otherId_isInt : Wire.IsInt otherId
  deriving DecidableEq

/-- A `TextChatData`: its address and what of it never changes. -/
structure Message where
  ref : ℕ
  uniqueId : Text
  threadId : ℤ
  msgType : ChatMsgType
  sendUid : ℤ
  deriving DecidableEq

/-- What of a message changes. -/
structure Contents where
  msgId : ℤ
  content : Text
  status : ℤ
  deriving DecidableEq

/-- The pictures, files and voice messages. -/
def Message.isMedia (message : Message) : Bool := message.msgType ≠ .text

structure OutgoingMessage where
  content : MsgInfo
  chat : Chat
  message : Message
  deriving DecidableEq

structure StoredMessage where
  threadId : ℤ
  senderUid : ℤ
  serverId : ℤ
  uniqueId : Text
  content : Text
  type : ℤ
  status : ℤ
  localImage : Bytes
  deriving DecidableEq

/-- The members of the object that `textPacket` writes. -/
structure Packet where
  content : Text
  uniqueId : Text
  sender : ℤ
  receiver : ℤ
  thread : ℤ
  messageType : ℤ
  deriving DecidableEq

/-- What a callback of the store is given. -/
structure ChatStoreResult where
  error : String
  image : Bytes
  deriving DecidableEq

/-- The callbacks that the store was given, with what they capture. -/
inductive Callback
  | sendSaved (data : Chat) (outgoing : List OutgoingMessage) (clearDraft : Bool)
  | uploadSaved (upload : OutgoingMessage)
  | retryLoaded (message : Message) (data : Chat)
  | retrySaved (message : Message) (data : Chat) (image : Bytes) (needsUpload : Bool)
  deriving DecidableEq

structure Call where
  revision : ℕ
  callback : Callback
  deriving DecidableEq

structure Timer where
  uniqueId : Text
  data : Chat
  message : Message
  generation : ℕ
  revision : ℕ
  attempt : ℕ
  deriving DecidableEq

/-- The signals and calls of the sender, and what is told of a run: which messages the sender was
given, knew to be saved and queued, for the first time or again, and where it was reset. -/
inductive Entry
  | status (threadId : ℤ) (message : String)
  | savingChanged (saving : Bool)
  | outgoingSaved (threadId : ℤ)
  | sendPrepared (success : Bool)
  | messagesChanged (threadId : ℤ) (scrollToBottom : Bool)
  | messageStatusChanged (threadId : ℤ) (uniqueId : Text) (status : ℤ)
  | saveMessages (records : List StoredMessage) (clearDraftThread : ℤ)
  | loadPendingImage (uniqueId : Text)
  | markUnconfirmed (uniqueId : Text) (failed : Bool)
  | appendUnRspMsg (data : ℕ) (message : Message)
  | rememberImage (key : Text) (bytes : Bytes)
  | uploadMedia (bytes : Bytes) (recipient : ℤ) (requestId : Text) (groupThread mediaType : ℤ)
  | sendData (packet : Packet)
  | given (message : Message)
  | saved (message : Message)
  | queued (item : OutgoingMessage) (again : Bool)
  | reset
  deriving DecidableEq

/-- What the rest of the client says while an event is handled. -/
structure World where
  uid : ℤ
  uid_isInt : Wire.IsInt uid
  threads : ℤ → Option ℕ
  chatThreads : List Chat
  msgUnRsp : ℕ → List Message
  isFriend : ℤ → Bool
  connected : Bool
  storeReady : Bool
  generation : ℕ
  messageDedup : Bool
  groupImages : Bool
  voiceMessages : Bool
  fileMessages : Bool

def World.isCurrent (w : World) (data : Chat) : Bool := w.threads data.threadId = some data.ref

/-- A conversation that messages can be sent to. -/
def World.reaches (w : World) (data : Chat) : Bool :=
  w.connected && (data.isGroup || w.isFriend data.otherId)

/-- The sender, the messages it shares with others, and what it waits for. -/
structure State where
  revision : ℕ
  nextAttempt : ℕ
  saving : Bool
  uploadCommitting : Bool
  retryingIds : List Text
  attempts : Text → Option ℕ
  imageUploads : List (Text × OutgoingMessage)
  sendQueue : List OutgoingMessage
  contents : Message → Contents
  allocated : ℕ
  calls : Multiset Call
  timers : Multiset Timer
  uploading : Multiset Text
  log : List Entry

namespace State

def emit (s : State) (e : Entry) : State := { s with log := e :: s.log }

def setStatus (s : State) (message : Message) (status : ℤ) : State :=
  { s with contents := Function.update s.contents message { s.contents message with status } }

def call (s : State) (callback : Callback) : State :=
  { s with calls := ⟨s.revision, callback⟩ ::ₘ s.calls }

/-- `StoredMessage::From`, with the image. -/
def record (s : State) (message : Message) (localImage : Bytes) : StoredMessage where
  threadId := message.threadId
  senderUid := message.sendUid
  serverId := (s.contents message).msgId
  uniqueId := message.uniqueId
  content := (s.contents message).content
  type := message.msgType.toInt
  status := (s.contents message).status
  localImage := localImage

def upload (s : State) (uniqueId : Text) : Option OutgoingMessage :=
  (s.imageUploads.find? fun e => e.1 = uniqueId).map Prod.snd

def forgetUpload (s : State) (uniqueId : Text) : State :=
  { s with imageUploads := s.imageUploads.filter fun e => e.1 ≠ uniqueId }

def forgetRetry (s : State) (uniqueId : Text) : State :=
  { s with retryingIds := s.retryingIds.filter (· ≠ uniqueId) }

def markOutgoingFailed (s : State) (message : Message) (data : Chat)
    (definitive : Bool) : State :=
  if 0 < (s.contents message).msgId then s
  else ((s.setStatus message sendFailed).emit
    (.markUnconfirmed message.uniqueId definitive)).emit
    (.messageStatusChanged data.threadId message.uniqueId sendFailed)

def sendStoredMessage (s : State) (w : World) (message : Message) (data : Chat) : State :=
  if 0 < (s.contents message).msgId then s
  else if ¬ w.connected ∨ ¬ w.isCurrent data ∨ ¬ data.isGroup ∧ ¬ w.isFriend data.otherId then
    s.markOutgoingFailed message data false
  else
    let attempt := s.nextAttempt + 1
    { s.emit (.sendData ⟨(s.contents message).content, message.uniqueId, message.sendUid,
        data.otherId, data.threadId, message.msgType.toInt⟩) with
      nextAttempt := attempt
      attempts := Function.update s.attempts message.uniqueId (some attempt)
      timers :=
        ⟨message.uniqueId, data, message, w.generation, s.revision, attempt⟩ ::ₘ s.timers }

end State

namespace MsgInfo

/-- The media flags, as `SendNextMessage` and `Send` test them. -/
def isMedia (m : MsgInfo) : Bool :=
  m.msgFlag = "image" ∨ m.msgFlag = "audio" ∨ m.msgFlag = "file"

def msgType (m : MsgInfo) : ChatMsgType :=
  if m.msgFlag = "file" then .file
  else if m.msgFlag = "audio" then .audio
  else if m.msgFlag = "image" then .pic
  else .text

def mediaType (m : MsgInfo) : ℤ :=
  if m.msgFlag = "file" then 2 else if m.msgFlag = "audio" then 3 else 1

end MsgInfo

namespace State

def startUpload (s : State) (item : OutgoingMessage) : State :=
  let id := item.message.uniqueId
  { (s.forgetUpload id).emit (.uploadMedia item.content.imageData item.chat.otherId id
      (if item.chat.isGroup then item.chat.threadId else 0) item.content.mediaType) with
    imageUploads := (id, item) :: (s.forgetUpload id).imageUploads
    uploading := id ::ₘ s.uploading }

/-- The loop over the queue, which is `queue`. -/
def sendLoop (w : World) : List OutgoingMessage → State → State
  | [], s => s
  | item :: queue, s =>
    let s := { s with sendQueue := queue }
    if ¬ w.isCurrent item.chat then sendLoop w queue s
    else if ¬ w.reaches item.chat then
      sendLoop w queue ((s.markOutgoingFailed item.message item.chat false).emit
        (.status item.chat.threadId "会话无法发送，消息保留在本机待确认记录中"))
    else if item.content.isMedia then s.startUpload item
    else sendLoop w queue (s.sendStoredMessage w item.message item.chat)

def sendNextMessage (s : State) (w : World) : State :=
  if s.imageUploads ≠ [] ∨ s.uploadCommitting then s else sendLoop w s.sendQueue s

/-! ## Sending -/

section Send
variable (C : EmojiCatalog) (qt : Qt)

/-- Why an input cannot be sent. -/
def checkInput (w : World) (data : Chat) (input : MsgInfo) : Option String :=
  if input.msgFlag = "file" ∧
      (¬ w.fileMessages ∨ ¬ (unpack qt input.imageData).valid) then
    some "服务器不支持文件传输，或文件无效"
  else if input.msgFlag = "audio" ∧ (¬ w.voiceMessages ∨
      Media.waveDurationMs input.imageData (UInt64.ofNat input.imageData.length) = 0) then
    some "服务器不支持语音，或语音格式/时长无效"
  else if input.msgFlag = "image" ∧ data.isGroup ∧ ¬ w.groupImages then
    some "服务器尚不支持群图片，请升级服务器后重试"
  else if input.isMedia ∧
      (input.imageData = [] ∨ 20 * 1024 * 1024 < input.imageData.length) then
    some "图片无法读取或超过 20 MB，请重新选择图片"
  else none

/-- The most messages that wait, and the most bytes of their media. -/
def maxWaiting : ℕ := 200
def maxMedia : ℕ := 64 * 1024 * 1024

def addParts (waiting : ℕ) (input : MsgInfo) :
    List Text → List MsgInfo → Except String (List MsgInfo)
  | [], outgoing => .ok outgoing
  | part :: parts, outgoing =>
    let outgoing := outgoing ++ [{ input with content := part }]
    if maxWaiting < outgoing.length + waiting then
      .error "待发送消息较多，请等待当前队列完成后重试"
    else addParts waiting input parts outgoing

def collect (w : World) (data : Chat) (sampleId : Texts.Uuid) (waiting : ℕ) :
    List MsgInfo → List MsgInfo → Except String (List MsgInfo)
  | [], outgoing => .ok outgoing
  | input :: inputs, outgoing =>
    match checkInput qt w data input with
    | some error => .error error
    | none =>
      if ¬ input.isMedia ∧ trimmed qt input.content = [] then
        collect w data sampleId waiting inputs outgoing
      else do
        let parts := if input.isMedia then [[]] else splitText C sampleId
          ⟨w.uid, data.otherId, data.threadId, w.uid_isInt, data.otherId_isInt,
            data.threadId_isInt⟩ input.content
        let outgoing ← addParts waiting input parts outgoing
        collect w data sampleId waiting inputs outgoing

/-- The text of a media message that was not uploaded. -/
def pending : Text := utf16 "pending:"

/-- The messages made for the contents, each with its uuid. -/
def create (s : State) (w : World) (data : Chat) (uuid : ℕ → Text) (outgoing : List MsgInfo) :
    List OutgoingMessage :=
  outgoing.mapIdx fun i content =>
    ⟨content, data, ⟨s.allocated + i, uuid i, data.threadId, content.msgType, w.uid⟩⟩

def created (item : OutgoingMessage) : Contents where
  msgId := 0
  content := if item.content.isMedia then pending ++ item.message.uniqueId
    else item.content.content
  status := unRead

def media (items : List OutgoingMessage) : ℕ := (items.map (·.content.imageData.length)).sum

/-- The messages are made. -/
def allocate (s : State) (outgoing : List OutgoingMessage) : State :=
  { s with
    allocated := s.allocated + outgoing.length
    contents := outgoing.foldl
      (fun contents item => Function.update contents item.message (created item)) s.contents
    log := outgoing.map (fun item => .given item.message) ++ s.log }

def send (s : State) (w : World) (inputs : List MsgInfo) (data : Chat) (clearDraft : Bool)
    (sampleId : Texts.Uuid) (uuid : ℕ → Text) : State × Bool :=
  if s.saving ∨ ¬ w.isCurrent data then (s, false)
  else if ¬ w.storeReady then
    (s.emit (.status data.threadId "本地聊天记录尚未就绪，请检查磁盘后重试"), false)
  else if ¬ w.connected then
    (s.emit (.status data.threadId "连接已断开，草稿已保存到本机，请重新登录"), false)
  else if ¬ data.isGroup ∧ ¬ w.isFriend data.otherId then
    (s.emit (.status data.threadId "你们已不是好友，请重新添加好友后再聊天"), false)
  else
    match collect C qt w data sampleId (s.sendQueue.length + s.imageUploads.length) inputs [] with
    | .error message => (s.emit (.status data.threadId message), false)
    | .ok [] => (s, false)
    | .ok contents =>
      let outgoing := s.create w data uuid contents
      if maxMedia < media s.sendQueue + media (s.imageUploads.map Prod.snd) + media outgoing then
        (s.emit (.status data.threadId "待上传媒体超过 64 MiB，请分批发送"), false)
      else
        let s := { s.allocate outgoing with saving := true }.emit (.savingChanged true)
        ((s.emit (.saveMessages
            (outgoing.map fun item => s.record item.message item.content.imageData)
            (if clearDraft then data.threadId else 0))).call (.sendSaved data outgoing clearDraft),
          true)

end Send

def enqueue (s : State) (item : OutgoingMessage) (again : Bool) : State :=
  { s.emit (.queued item again) with sendQueue := s.sendQueue ++ [item] }

/-- A saved message goes to its conversation and into the queue. -/
def accept (s : State) (item : OutgoingMessage) : State :=
  let s := s.emit (.appendUnRspMsg item.chat.ref item.message)
  let s := if item.content.imageData ≠ [] then
      s.emit (.rememberImage (s.contents item.message).content item.content.imageData)
    else s
  s.enqueue item false

def sendSaved (s : State) (w : World) (data : Chat) (outgoing : List OutgoingMessage)
    (clearDraft : Bool) (result : ChatStoreResult) : State :=
  let prepared (s : State) (success : Bool) : State :=
    if clearDraft then s else s.emit (.sendPrepared success)
  let s := { s with saving := false }.emit (.savingChanged false)
  if ¬ w.isCurrent data then prepared s false
  else if result.error ≠ "" then
    (prepared s false).emit (.status data.threadId "发送前保存失败，输入内容已保留")
  else
    let s := if clearDraft then s.emit (.outgoingSaved data.threadId) else s
    let s := outgoing.foldl accept s
    let s := (s.emit (.messagesChanged data.threadId true)).emit (.status data.threadId "")
    prepared (s.sendNextMessage w) true

/-! ## Uploads -/

def uploadProgress (s : State) (requestId : Text) (done total : ℕ) : State :=
  match s.upload requestId with
  | none => s
  | some upload => s.emit (.status upload.chat.threadId
      ("媒体上传中：" ++ toString (done / 1024) ++ "/" ++ toString (total / 1024) ++ " KB"))

def uploadFinished (s : State) (w : World) (requestId fileId : Text) (error : String) : State :=
  match s.upload requestId with
  | none => s
  | some upload =>
    let s := s.forgetUpload requestId
    let data := upload.chat
    if error ≠ "" ∨ ¬ w.connected ∨ ¬ w.isCurrent data then
      ((s.markOutgoingFailed upload.message data false).emit (.status data.threadId
        (if error = "" then "会话已失效，媒体保留在本机待确认记录中"
          else "媒体上传失败：" ++ error ++ "；媒体保留在本机"))).sendNextMessage w
    else
      let s := { s with
        uploadCommitting := true
        contents := Function.update s.contents upload.message
          { s.contents upload.message with content := fileId } }
      (s.emit (.saveMessages [s.record upload.message []] 0)).call (.uploadSaved upload)

def uploadSaved (s : State) (w : World) (upload : OutgoingMessage) (result : ChatStoreResult) :
    State :=
  let data := upload.chat
  let s := { s with uploadCommitting := false }
  if ¬ w.isCurrent data then s.sendNextMessage w
  else
    let s := if result.error = "" then s.sendStoredMessage w upload.message data
      else s.markOutgoingFailed upload.message data false
    (s.emit (.messagesChanged data.threadId false)).sendNextMessage w

/-! ## Retrying -/

def retryLoaded (s : State) (w : World) (message : Message) (data : Chat)
    (image : ChatStoreResult) : State :=
  let id := message.uniqueId
  let needsUpload : Bool := message.isMedia && image.image ≠ []
  if ¬ w.isCurrent data then s.forgetRetry id
  else if image.error ≠ "" ∨
      message.isMedia ∧ pending <+: (s.contents message).content ∧ image.image = [] then
    (s.forgetRetry id).emit (.status data.threadId "本机媒体无法读取，暂时不能重试")
  else if 0 < (s.contents message).msgId then s.forgetRetry id
  else
    let s := s.setStatus message unRead
    (s.emit (.saveMessages [s.record message image.image] 0)).call
      (.retrySaved message data image.image needsUpload)

def retrySaved (s : State) (w : World) (message : Message) (data : Chat) (image : Bytes)
    (needsUpload : Bool) (result : ChatStoreResult) : State :=
  let id := message.uniqueId
  let s := s.forgetRetry id
  if ¬ w.isCurrent data then s
  else if result.error ≠ "" then s.markOutgoingFailed message data false
  else
    let msgFlag := if needsUpload then
        if message.msgType = .file then "file"
        else if message.msgType = .audio then "audio" else "image"
      else "text"
    ((s.enqueue ⟨⟨msgFlag, (s.contents message).content, image⟩, data, message⟩ true).emit
      (.messageStatusChanged data.threadId id (-1))).sendNextMessage w

def retryMessage (s : State) (w : World) (message : Message) (data : Chat) : State :=
  let id := message.uniqueId
  if ¬ w.isCurrent data ∨ 0 < (s.contents message).msgId ∨ (s.upload id).isSome ∨
      id ∈ s.retryingIds ∨ ¬ w.storeReady ∨ ¬ w.messageDedup ∨ ¬ w.connected then s
  else if data.isGroup ∧ message.msgType = .pic ∧ ¬ w.groupImages then
    s.emit (.status data.threadId "服务器尚不支持群图片，请升级服务器后重试")
  else if message.msgType = .audio ∧ ¬ w.voiceMessages then
    s.emit (.status data.threadId "请升级服务器以重试语音消息")
  else if message.msgType = .file ∧ ¬ w.fileMessages then
    s.emit (.status data.threadId "请升级服务器以重试文件消息")
  else
    let s := { s.emit (.given message) with retryingIds := id :: s.retryingIds }
    if message.isMedia then (s.emit (.loadPendingImage id)).call (.retryLoaded message data)
    else s.retryLoaded w message data ⟨"", []⟩

/-! ## The other events -/

def failPending (s : State) (w : World) (threadId : ℤ) (message : String) (definitive : Bool) :
    State :=
  (w.chatThreads.filter fun data => ¬ (0 < threadId ∧ data.threadId ≠ threadId)).foldl
    (fun s data => ((w.msgUnRsp data.ref).foldl
      (fun s pending => s.markOutgoingFailed pending data definitive) s).emit
      (.status data.threadId message)) s

def forgetThread (s : State) (threadId : ℤ) : State :=
  { s with
    imageUploads := s.imageUploads.filter fun e => e.2.chat.threadId ≠ threadId
    sendQueue := s.sendQueue.filter fun item => item.chat.threadId ≠ threadId }

def removeThread (s : State) (w : World) (threadId : ℤ) : State :=
  (s.forgetThread threadId).sendNextMessage w

def reset (s : State) : State :=
  { s.emit .reset with
    revision := s.revision + 1
    saving := false
    uploadCommitting := false
    retryingIds := []
    attempts := fun _ => none
    imageUploads := []
    sendQueue := [] }.emit (.savingChanged false)

def timeout (s : State) (w : World) (t : Timer) : State :=
  if s.revision ≠ t.revision ∨ s.attempts t.uniqueId ≠ some t.attempt then s
  else
    let s := { s with attempts := Function.update s.attempts t.uniqueId none }
    if ¬ w.isCurrent t.data ∨ w.generation ≠ t.generation ∨
        ¬ (w.msgUnRsp t.data.ref).any (·.uniqueId = t.uniqueId) then s
    else (s.markOutgoingFailed t.message t.data false).emit
      (.status t.data.threadId "消息未收到确认，已保留在本机；下次同步会核对，暂不自动重发")

end State

/-- The messages whose records a callback is told to be saved. -/
def Callback.saves : Callback → List Message
  | sendSaved _ outgoing _ => outgoing.map (·.message)
  | uploadSaved upload => [upload.message]
  | retryLoaded _ _ => []
  | retrySaved message _ _ _ => [message]

namespace State

def run (s : State) (w : World) (result : ChatStoreResult) : Callback → State
  | .sendSaved data outgoing clearDraft => s.sendSaved w data outgoing clearDraft result
  | .uploadSaved upload => s.uploadSaved w upload result
  | .retryLoaded message data => s.retryLoaded w message data result
  | .retrySaved message data image needsUpload =>
    s.retrySaved w message data image needsUpload result

/-- The store answers. -/
def answer (s : State) (w : World) (c : Call) (result : ChatStoreResult) : State :=
  if s.revision ≠ c.revision then s
  else
    let s := if result.error = "" then { s with log := c.callback.saves.map .saved ++ s.log } else s
    s.run w result c.callback

end State

/-- The calls of the user interface and of the network, what the sender waits for, and what others
do to a message: they make one, or confirm it. -/
inductive Event
  | send (inputs : List MsgInfo) (data : Chat) (clearDraft : Bool) (sampleId : Texts.Uuid)
    (uuid : ℕ → Text)
  | retry (message : Message) (data : Chat)
  | removeThread (threadId : ℤ)
  | reset
  | failPending (threadId : ℤ) (message : String) (definitive : Bool)
  | uploadProgress (requestId : Text) (done total : ℕ)
  | uploadFinished (requestId fileId : Text) (error : String)
  | answer (c : Call) (result : ChatStoreResult)
  | timeout (t : Timer)
  | make (message : Message) (contents : Contents)
  | change (message : Message) (contents : Contents)

section Machine
variable (C : EmojiCatalog) (qt : Qt)

/-- What is waited for comes once; a message is known where it was made. -/
def State.next (s : State) : World × Event → Option State
  | (w, .send inputs data clearDraft sampleId uuid) =>
    some (s.send C qt w inputs data clearDraft sampleId uuid).1
  | (w, .retry message data) =>
    if message.ref < s.allocated then some (s.retryMessage w message data) else none
  | (w, .removeThread threadId) => some (s.removeThread w threadId)
  | (_, .reset) => some s.reset
  | (w, .failPending threadId message definitive) =>
    some (s.failPending w threadId message definitive)
  | (_, .uploadProgress requestId done total) => some (s.uploadProgress requestId done total)
  | (w, .uploadFinished requestId fileId error) =>
    if requestId ∈ s.uploading then
      some ({ s with uploading := s.uploading.erase requestId }.uploadFinished w requestId fileId
        error)
    else none
  | (w, .answer c result) =>
    if c ∈ s.calls then some ({ s with calls := s.calls.erase c }.answer w c result) else none
  | (w, .timeout t) =>
    if t ∈ s.timers then some ({ s with timers := s.timers.erase t }.timeout w t) else none
  | (_, .make message contents) =>
    if message.ref = s.allocated then
      some { s with
        allocated := s.allocated + 1
        contents := Function.update s.contents message contents }
    else none
  | (_, .change message contents) =>
    if message.ref < s.allocated then
      some { s with contents := Function.update s.contents message contents }
    else none

def State.initial (contents : Message → Contents) (allocated : ℕ) : State where
  revision := 0
  nextAttempt := 0
  saving := false
  uploadCommitting := false
  retryingIds := []
  attempts := fun _ => none
  imageUploads := []
  sendQueue := []
  contents := contents
  allocated := allocated
  calls := 0
  timers := 0
  uploading := 0
  log := []

def machine : Machine State (World × Event) :=
  .ofFn (fun s => ∃ contents allocated, s = .initial contents allocated) (State.next C qt)

end Machine
end CppChat.Sending
