import Mathlib.Data.Nat.Notation
import CppChat.Foundation.QJson
import CppChat.Foundation.Tickets
import CppChat.Foundation.Transition

/-! # The client's request manager

`TcpMgr` keeps, for each kind of request, the latest request whose answer it waits for and
a timer. A response frame is matched with that request before it reaches its handler or an
error signal.
-/
namespace CppChat.Tcp
open Foundation

/-! ## Message numbers -/

abbrev ReqId := ℕ

def idChatLogin : ReqId := 1005
def idChatLoginRsp : ReqId := 1006
def idSearchUserReq : ReqId := 1007
def idSearchUserRsp : ReqId := 1008
def idAddFriendReq : ReqId := 1009
def idAddFriendRsp : ReqId := 1010
def idNotifyAddFriendReq : ReqId := 1011
def idAuthFriendReq : ReqId := 1013
def idAuthFriendRsp : ReqId := 1014
def idNotifyAuthFriendReq : ReqId := 1015
def idTextChatMsgReq : ReqId := 1017
def idTextChatMsgRsp : ReqId := 1018
def idNotifyTextChatMsgReq : ReqId := 1019
def idNotifyOffLineReq : ReqId := 1021
def idHeartBeatReq : ReqId := 1023
def idHeartbeatRsp : ReqId := 1024
def idLoadChatThreadReq : ReqId := 1025
def idLoadChatThreadRsp : ReqId := 1026
def idCreatePrivateChatReq : ReqId := 1027
def idCreatePrivateChatRsp : ReqId := 1028
def idLoadChatMsgReq : ReqId := 1029
def idLoadChatMsgRsp : ReqId := 1030
def idUpdateProfileReq : ReqId := 1031
def idUpdateProfileRsp : ReqId := 1032
def idGetAvatarReq : ReqId := 1033
def idGetAvatarRsp : ReqId := 1034
def idDeleteFriendReq : ReqId := 1035
def idDeleteFriendRsp : ReqId := 1036
def idNotifyDeleteFriend : ReqId := 1037
def idSetContactTagsReq : ReqId := 1038
def idSetContactTagsRsp : ReqId := 1039
def idGroupReq : ReqId := 1060
def idGroupRsp : ReqId := 1061
def idVoiceEvent : ReqId := 1071
def idVoiceAudio : ReqId := 1073
def idVideoImage : ReqId := 1075

def success : Int := 0
def errorJson : Int := 1001
def uidInvalid : Int := 1011
def redisError : Int := 1015

/-- The response numbers and the requests they belong to. -/
def responses : List (ReqId × ReqId) :=
  [(idGroupRsp, idGroupReq), (idChatLoginRsp, idChatLogin), (idSearchUserRsp, idSearchUserReq),
    (idAddFriendRsp, idAddFriendReq), (idAuthFriendRsp, idAuthFriendReq),
    (idSetContactTagsRsp, idSetContactTagsReq), (idDeleteFriendRsp, idDeleteFriendReq),
    (idTextChatMsgRsp, idTextChatMsgReq), (idLoadChatThreadRsp, idLoadChatThreadReq),
    (idCreatePrivateChatRsp, idCreatePrivateChatReq), (idLoadChatMsgRsp, idLoadChatMsgReq),
    (idUpdateProfileRsp, idUpdateProfileReq)]

/-- `none` for the notifications, which belong to no request. -/
def requestForResponse (response : ReqId) : Option ReqId :=
  (responses.find? fun p => p.1 = response).map Prod.snd

/-- Texts are told apart by their UUIDs, heartbeats and avatars need no pairing. -/
def IsTracked (request : ReqId) : Prop :=
  request ≠ idTextChatMsgReq ∧ request ≠ idHeartBeatReq ∧ request ≠ idGetAvatarReq

instance : DecidablePred IsTracked := fun _ => inferInstanceAs (Decidable (_ ∧ _ ∧ _))

/-- The messages `initHandlers` registers a handler for. -/
def handled : List ReqId :=
  [idGroupRsp, idChatLoginRsp, idSetContactTagsRsp, idSearchUserRsp, idAddFriendRsp,
    idNotifyAddFriendReq, idAuthFriendRsp, idNotifyAuthFriendReq, idTextChatMsgRsp,
    idNotifyTextChatMsgReq, idLoadChatThreadRsp, idCreatePrivateChatRsp, idLoadChatMsgRsp,
    idNotifyOffLineReq, idDeleteFriendRsp, idNotifyDeleteFriend, idHeartbeatRsp,
    idUpdateProfileRsp, idGetAvatarRsp]

/-! ## The manager -/

structure TcpMgr where
  connectionGeneration : ℕ := 0
  loggedIn : Bool := false
  requestCorrelation : Bool := false
  /-- `_pendingRequests`. -/
  pending : ReqId → Option QJsonObject := fun _ => none
  /-- The running timers of `_requestTimers`. -/
  timers : ReqId → Bool := fun _ => false

/-- What a frame sets off: a call of its handler, or a signal. -/
inductive Effect
  | handler (id : ReqId) (object : QJsonObject)
  | voiceEvent (id : ReqId) (object : QJsonObject)
  | connectionClosed
  | loginFailed (error : Int)
  | userSearch
  | avatarReceived (uid : Int)
  | profileUpdated (object : QJsonObject)
  | chatMsgFailed (thread error : Int)
  | requestFailed (request : ReqId) (error : Int)

/-- How `slot_send_data` ends. -/
inductive Sent
  | refused
  | queued
  | unwritten
  deriving DecidableEq

namespace TcpMgr

/-- `resetConnectionState`, which also runs when the socket disconnects. -/
def resetConnectionState (m : TcpMgr) : TcpMgr where
  connectionGeneration := m.connectionGeneration + 1

def closeConnection (m : TcpMgr) : TcpMgr := m.resetConnectionState

def startRequestTimer (m : TcpMgr) (request : ReqId) : TcpMgr :=
  if IsTracked request then { m with timers := Function.update m.timers request true } else m

def stopRequestTimer (m : TcpMgr) (request : ReqId) : TcpMgr :=
  { m with
    timers := Function.update m.timers request false
    pending := Function.update m.pending request none }

def cancelRequest (m : TcpMgr) (request : ReqId) : TcpMgr := m.stopRequestTimer request

def failRequest (m : TcpMgr) (request : ReqId) : TcpMgr :=
  let m := m.stopRequestTimer request
  if request = idChatLogin then m.closeConnection else m

/-- The object that is sent: every attempt has a new transport id. -/
def prepare (id : ReqId) (o : QJsonObject) (requestId : String) : QJsonObject :=
  let o := if id = idChatLogin then
    (o.insert "voice_messages" (.bool true)).insert "file_messages" (.bool true) else o
  o.insert "request_id" (.str requestId)

/-- The request becomes the one of its kind whose answer is awaited. -/
def await (m : TcpMgr) (id : ReqId) (request : QJsonObject) : TcpMgr :=
  { m with pending := Function.update m.pending id (some request) }

/-- `slot_send_data`. `compact` is the length of an object's compact text, `size` the length
of an untracked body; `ready` and `written` tell how the socket takes the packet. -/
def slotSendData (compact : QJsonObject → ℕ) (m : TcpMgr) (id : ReqId) (document : Document)
    (size : ℕ) (requestId : String) (ready written : Bool) : TcpMgr × Sent :=
  if IsTracked id ∧ ¬ document.isObject then (m.failRequest id, .refused)
  else
    let request := prepare id document.toObject requestId
    let size := if IsTracked id then compact request else size
    let maxBody := if id = idUpdateProfileReq then 16000 else 2048
    if maxBody < size ∨ ¬ ready then (m.failRequest id, .refused)
    else
      let m := if IsTracked id then m.await id request else m
      let m := m.startRequestTimer id
      if written then (m, .queued) else (m.failRequest id, .unwritten)

/-- The answer names another target than the request does. -/
def OtherTarget (request : ReqId) (object pending : QJsonObject) : Prop :=
  (request = idLoadChatMsgReq ∧ object.contains "thread_id" ∧
    QJson.toInt 0 (object.value "thread_id") ≠ QJson.toInt 0 (pending.value "thread_id")) ∨
  (request = idCreatePrivateChatReq ∧ object.contains "other_id" ∧
    QJson.toInt 0 (object.value "other_id") ≠ QJson.toInt 0 (pending.value "other_id")) ∨
  ((request = idDeleteFriendReq ∨ request = idSetContactTagsReq) ∧ object.contains "friend_uid" ∧
    QJson.toInt 0 (object.value "friend_uid") ≠ QJson.toInt 0 (pending.value "friend_uid"))

instance (request : ReqId) (object pending : QJsonObject) :
    Decidable (OtherTarget request object pending) :=
  inferInstanceAs (Decidable (_ ∨ _ ∨ _))

/-- The answer belongs to the pending request, as far as it can be told. -/
def Matches (m : TcpMgr) (request : ReqId) (object pending : QJsonObject) : Prop :=
  ((object.contains "request_id" ∧ QJson.isString (object.value "request_id") ∧
      QJson.toString (object.value "request_id") = QJson.toString (pending.value "request_id")) ∨
    -- only servers of earlier releases may leave it out
    (¬ object.contains "request_id" ∧ ¬ m.requestCorrelation ∧ request ≠ idSetContactTagsReq)) ∧
  ¬ OtherTarget request object pending

instance (m : TcpMgr) (request : ReqId) (object pending : QJsonObject) :
    Decidable (m.Matches request object pending) :=
  inferInstanceAs (Decidable (((_ ∧ _ ∧ _) ∨ (_ ∧ _ ∧ _)) ∧ _))

/-- The handlers that change the state of the manager: login, and being logged out. -/
def callHandler (m : TcpMgr) (id : ReqId) (object : QJsonObject) : TcpMgr × Option Effect :=
  if id ∉ handled then (m, none)
  else if id = idChatLoginRsp then
    if QJson.toInt 0 (object.value "uid") ≤ 0 then
      (m.closeConnection, some (.loginFailed uidInvalid))
    else
      ({ m with
        loggedIn := true
        requestCorrelation := QJson.toBool (object.value "request_correlation") },
        some (.handler id object))
  else if id = idNotifyOffLineReq then (m.closeConnection, some (.handler id object))
  else (m, some (.handler id object))

/-- The end of `handleMsg`: the error signals, or the handler. -/
def dispatch (m : TcpMgr) (id : ReqId) (document : Document) : TcpMgr × Option Effect :=
  let request := requestForResponse id
  let object := document.toObject
  let error := QJson.toInt errorJson (object.value "error")
  if ¬ document.isObject ∨ error ≠ success then
    if id = idHeartbeatRsp ∧ m.loggedIn then (m.closeConnection, some .connectionClosed)
    else if request = some idChatLogin then (m.closeConnection, some (.loginFailed error))
    else if request = some idSearchUserReq ∧ document.isObject ∧ error = uidInvalid then
      (m, some .userSearch)
    else if id = idGetAvatarRsp ∧ document.isObject then
      (m, some (.avatarReceived (QJson.toInt 0 (object.value "uid"))))
    else if request = some idUpdateProfileReq ∧ document.isObject ∧ error = redisError ∧
        QJson.toBool (object.value "committed") then (m, some (.profileUpdated object))
    else if request = some idTextChatMsgReq ∧ 0 < QJson.toInt 0 (object.value "thread_id") then
      (m, some (.chatMsgFailed (QJson.toInt 0 (object.value "thread_id")) error))
    else match request with
      | some request => (m.failRequest request, some (.requestFailed request error))
      | none => (m, none)
  else m.callHandler id object

/-- The request of a frame that must be matched with a pending one. -/
def pairedRequest (id : ReqId) : Option ReqId :=
  (requestForResponse id).filter fun request => request ≠ idTextChatMsgReq

def handleMsg (m : TcpMgr) (id : ReqId) (document : Document) : TcpMgr × Option Effect :=
  if id = idVoiceEvent ∨ id = idVoiceAudio ∨ id = idVideoImage then
    match document with
    | .object o => (m, some (.voiceEvent id o))
    | _ => (m, none)
  else match pairedRequest id with
    | none => m.dispatch id document
    | some request =>
      match m.pending request with
      | none => (m, none)
      | some pending =>
        if m.Matches request document.toObject pending then
          (m.stopRequestTimer request).dispatch id document
        else (m, none)

end TcpMgr
end CppChat.Tcp
