import CppChat.Foundation.QJson
import CppChat.Foundation.Transition

/-! # The client's call service

`VoiceCallService` is the call state of one client, without widgets and devices. Every input
is a call of one of its functions or the expiry of a timer; the signals it emits are the
output.
-/
namespace CppChat.Call
open Foundation

abbrev Bytes := List UInt8

inductive State
  | idle
  | outgoing
  | incoming
  | connecting
  | active
  deriving DecidableEq

/-! `CallPolicy`, and the other limits. -/

def recoveringMs : ℕ := 6000
def timeoutMs : ℕ := 30000
def ringMs : ℕ := 35000
def connectMs : ℕ := 10000
def lastSequence : Int := 100000000

structure VoiceCallService where
  state : State := .idle
  peer : Int := 0
  call : String := ""
  sequence : Int := 0
  received : Int := 0
  videoSequence : Int := 0
  receivedVideo : Int := 0
  video : Bool := false
  cameraEnabled : Bool := true
  peerCameraEnabled : Bool := true
  /-- The interval of the single-shot timer `deadline_`, while it runs. -/
  deadline : Option ℕ := none
  keepalive : Bool := false
  lastProgress : Int := 0
  recovering : Bool := false
  deriving DecidableEq

inductive Signal
  | send (body : QJsonObject) (audio : Bool)
  | changed
  | ended (reason : String)
  | audio (opus : Bytes) (sequence : Int)
  | sendVideoFrame (body : QJsonObject)
  | videoFrame (jpeg : Bytes)
  | peerCameraChanged (enabled : Bool)
  | networkChanged (recovering : Bool)

/-- `toBase64`, `toLatin1` and `fromBase64Encoding`, which refuses what is not base 64. -/
structure Codec where
  encode : Bytes → String
  latin1 : String → Bytes
  decode : Bytes → Option Bytes

def failure (code : Int) : String :=
  if code = 1021 then "对方正在通话"
  else if code = 1022 then "对方不在线或连接已断开"
  else if code = 1017 then "只有好友之间可以通话"
  else if code = 1025 then "呼叫过于频繁，请稍后重试"
  else "通话连接已失效，请重新呼叫"

def isHexDigit (c : Char) : Bool := ('a' ≤ c && c ≤ 'f') || ('0' ≤ c && c ≤ '9')

/-- `^[a-f0-9]{32}$`; the anchor also admits a final line feed. -/
def isCallId (s : String) : Bool :=
  let l := s.toList
  (l.take 32).all isHexDigit && (l.length == 32 || (l.length == 33 && l.drop 32 == ['\n']))

/-- Errors after which a transient request is dropped or retried. -/
def IsTemporary (code : Int) : Prop :=
  code = 1002 ∨ code = 1014 ∨ code = 1015 ∨ code = 1024 ∨ code = 1025

instance : DecidablePred IsTemporary := fun _ =>
  inferInstanceAs (Decidable (_ ∨ _ ∨ _ ∨ _ ∨ _))

namespace VoiceCallService

def setRecovering (s : VoiceCallService) (recovering : Bool) : VoiceCallService × List Signal :=
  if s.recovering = recovering then (s, [])
  else ({ s with recovering }, [.networkChanged recovering])

def progress (s : VoiceCallService) (now : Int) (recovering : Bool) :
    VoiceCallService × List Signal :=
  { s with lastProgress := now }.setRecovering recovering

def command (s : VoiceCallService) (action : String) : List Signal :=
  if s.state = .idle then []
  else [.send [("call_id", .str s.call), ("peer", .num s.peer), ("action", .str action),
    ("video", .bool s.video)] false]

def reset (s : VoiceCallService) (reason : String) : VoiceCallService × List Signal :=
  let (t, signals) := { s with
    deadline := none, keepalive := false, state := .idle, peer := 0, sequence := 0, received := 0
    call := "", videoSequence := 0, receivedVideo := 0, video := false, cameraEnabled := true
    peerCameraEnabled := true : VoiceCallService }.setRecovering false
  (t, signals ++ [.changed, .ended reason])

/-- How a call is ended from this side, in each state. -/
def endAction (s : VoiceCallService) : String :=
  match s.state with
  | .incoming => "reject"
  | .outgoing => "cancel"
  | _ => "end"

def finish (s : VoiceCallService) (reason : String) : VoiceCallService × List Signal :=
  if s.state = .idle then (s, [])
  else
    let (t, signals) := s.reset (if reason = "" then "通话已结束" else reason)
    (t, signals ++ s.command s.endAction)

/-- `call` is the identifier that `createUuid` makes. -/
def start (s : VoiceCallService) (peer : Int) (video : Bool) (call : String) :
    VoiceCallService × List Signal :=
  if s.state ≠ .idle ∨ peer ≤ 0 then (s, [])
  else
    let t := { s with peer, video, call, state := .outgoing, deadline := some ringMs }
    (t, .changed :: t.command "invite")

def accept (s : VoiceCallService) : VoiceCallService × List Signal :=
  if s.state ≠ .incoming then (s, [])
  else
    let t := { s with state := .connecting, deadline := some connectMs }
    (t, .changed :: t.command "accept")

def disconnected (s : VoiceCallService) : VoiceCallService × List Signal :=
  if s.state = .idle then (s, []) else s.reset "聊天连接断开，通话已结束"

/-- The `timeout` of the single-shot deadline. -/
def deadlineExpired (s : VoiceCallService) : VoiceCallService × List Signal :=
  { s with deadline := none }.finish "对方未接听或网络超时"

def keepaliveExpired (s : VoiceCallService) (now : Int) : VoiceCallService × List Signal :=
  let elapsed := now - s.lastProgress
  if (timeoutMs : Int) ≤ elapsed then s.finish "网络中断，通话已结束"
  else
    let (s, signals) := if (recoveringMs : Int) ≤ elapsed then s.setRecovering true else (s, [])
    (s, signals ++ s.command "ping")

/-- An error that leaves an active call as it is: a transient request of this side. -/
def Tolerates (s : VoiceCallService) (event : QJsonObject) (action : String) (code : Int) : Prop :=
  s.state = .active ∧ QJson.toBool (event.value "incoming") = false ∧
    (((action = "frame" ∨ action = "video") ∧ (code = 1023 ∨ IsTemporary code)) ∨
      ((action = "ping" ∨ action = "camera") ∧ IsTemporary code))

instance (s : VoiceCallService) (event : QJsonObject) (action : String) (code : Int) :
    Decidable (s.Tolerates event action code) :=
  inferInstanceAs (Decidable (_ ∧ _ ∧ ((_ ∧ (_ ∨ _)) ∨ (_ ∧ _))))

/-- The error-free events of the current call. -/
def receiveControl (s : VoiceCallService) (now : Int) (event : QJsonObject) (action : String) :
    VoiceCallService × List Signal :=
  if action = "camera" ∧ s.state = .active ∧ s.video ∧ QJson.toBool (event.value "incoming") ∧
      QJson.isBool (event.value "enabled") then
    let enabled := QJson.toBool (event.value "enabled")
    let (s, signals) := { s with peerCameraEnabled := enabled }.progress now false
    (s, signals ++ [.peerCameraChanged enabled])
  else if action = "accept" ∧ (s.state = .outgoing ∨ s.state = .connecting) then
    let (s, signals) := { s with deadline := none, state := .active }.progress now false
    ({ s with keepalive := true }, signals ++ [.changed])
  else if action = "ping" ∧ s.state = .active then
    let (s, signals) := s.progress now
      ((recoveringMs : ℚ) ≤ QJson.toDouble (event.value "peer_idle_ms"))
    let enabled := QJson.toBool (event.value "peer_camera_enabled")
    if s.video ∧ QJson.isBool (event.value "peer_camera_enabled") ∧ s.peerCameraEnabled ≠ enabled then
      ({ s with peerCameraEnabled := enabled }, signals ++ [.peerCameraChanged enabled])
    else (s, signals)
  else if action = "reject" then s.reset "对方已拒接"
  else if action = "cancel" then s.reset "对方已取消呼叫"
  else if action = "end" then s.reset "对方已挂断"
  else (s, [])

def receive (s : VoiceCallService) (now : Int) (event : QJsonObject) :
    VoiceCallService × List Signal :=
  let call := QJson.toString (event.value "call_id")
  let action := QJson.toString (event.value "action")
  let peer := QJson.toInt 0 (event.value "peer")
  let code := QJson.toInt 0 (event.value "error")
  if ¬ isCallId call ∨ peer ≤ 0 ∨ ¬ QJson.isDouble (event.value "error") then (s, [])
  else if s.state = .idle ∧ code = 0 ∧ action = "invite" ∧ QJson.toBool (event.value "incoming") then
    ({ s with
      call, peer, video := QJson.toBool (event.value "video"), state := .incoming
      deadline := some ringMs }, [.changed])
  else if call ≠ s.call ∨ peer ≠ s.peer ∨ s.state = .idle then (s, [])
  else if code ≠ 0 then
    if s.Tolerates event action code then (s, []) else s.finish (failure code)
  else if QJson.toBool (event.value "video") ≠ s.video then
    s.finish "对方客户端不支持本次通话类型"
  else s.receiveControl now event action

def sendAudio (codec : Codec) (s : VoiceCallService) (opus : Bytes) :
    VoiceCallService × List Signal :=
  if s.state ≠ .active ∨ opus = [] ∨ 512 < opus.length ∨ lastSequence ≤ s.sequence then (s, [])
  else ({ s with sequence := s.sequence + 1 },
    [.send [("call_id", .str s.call), ("peer", .num s.peer), ("seq", .num (s.sequence + 1 : Int)),
      ("video", .bool s.video), ("audio", .str (codec.encode opus))] true])

/-- The frame belongs to the call. -/
def IsOwn (s : VoiceCallService) (event : QJsonObject) : Prop :=
  QJson.toString (event.value "call_id") = s.call ∧ QJson.toInt 0 (event.value "peer") = s.peer

instance (s : VoiceCallService) (event : QJsonObject) : Decidable (s.IsOwn event) :=
  inferInstanceAs (Decidable (_ ∧ _))

def receiveAudio (codec : Codec) (s : VoiceCallService) (now : Int) (event : QJsonObject) :
    VoiceCallService × List Signal :=
  if s.state ≠ .active ∨ ¬ s.IsOwn event ∨ ¬ QJson.isDouble (event.value "seq") then (s, [])
  else
    let sequence := QJson.toInt 0 (event.value "seq")
    let encoded := codec.latin1 (QJson.toString (event.value "audio"))
    if sequence ≤ s.received ∨ encoded = [] ∨ 684 < encoded.length then (s, [])
    else match codec.decode encoded with
      | none => (s, [])
      | some opus =>
        if opus = [] ∨ 512 < opus.length then (s, [])
        else
          let (t, signals) := { s with received := sequence }.progress now false
          (t, signals ++ [.audio opus sequence])

def setCameraEnabled (s : VoiceCallService) (enabled : Bool) : VoiceCallService × List Signal :=
  if s.state ≠ .active ∨ ¬ s.video then (s, [])
  else ({ s with cameraEnabled := enabled },
    [.send [("call_id", .str s.call), ("peer", .num s.peer), ("action", .str "camera"),
      ("video", .bool true), ("enabled", .bool enabled)] false])

def sendVideo (codec : Codec) (s : VoiceCallService) (jpeg : Bytes) :
    VoiceCallService × List Signal :=
  if s.state ≠ .active ∨ ¬ s.video ∨ ¬ s.cameraEnabled ∨ s.recovering ∨ jpeg = [] ∨
      6000 < jpeg.length ∨ lastSequence ≤ s.videoSequence then (s, [])
  else ({ s with videoSequence := s.videoSequence + 1 },
    [.sendVideoFrame [("call_id", .str s.call), ("peer", .num s.peer), ("video", .bool true),
      ("seq", .num (s.videoSequence + 1 : Int)), ("image", .str (codec.encode jpeg))]])

def receiveVideo (codec : Codec) (s : VoiceCallService) (now : Int) (event : QJsonObject) :
    VoiceCallService × List Signal :=
  if s.state ≠ .active ∨ ¬ s.video ∨ ¬ s.peerCameraEnabled ∨ ¬ s.IsOwn event then (s, [])
  else
    let sequence := QJson.toInt (-1) (event.value "seq")
    let bytes := codec.latin1 (QJson.toString (event.value "image"))
    if sequence ≤ s.receivedVideo ∨ bytes = [] ∨ 8000 < bytes.length then (s, [])
    else match codec.decode bytes with
      | none => (s, [])
      | some jpeg =>
        if jpeg = [] ∨ 6000 < jpeg.length then (s, [])
        else
          let (t, signals) := { s with receivedVideo := sequence }.progress now false
          (t, signals ++ [.videoFrame jpeg])

end VoiceCallService

/-- What the service is asked to do, or which of its timers expires. -/
inductive Input
  | start (peer : Int) (video : Bool) (call : String)
  | accept
  | finish (reason : String)
  | disconnected
  | setCameraEnabled (enabled : Bool)
  | sendAudio (opus : Bytes)
  | sendVideo (jpeg : Bytes)
  | receive (event : QJsonObject)
  | receiveAudio (event : QJsonObject)
  | receiveVideo (event : QJsonObject)
  | deadline
  | keepalive

/-- One input at the time `now`; a timer that does not run cannot expire. -/
def VoiceCallService.handle (codec : Codec) (s : VoiceCallService) (now : Int) :
    Input → Option (VoiceCallService × List Signal)
  | .start peer video call => some (s.start peer video call)
  | .accept => some s.accept
  | .finish reason => some (s.finish reason)
  | .disconnected => some s.disconnected
  | .setCameraEnabled enabled => some (s.setCameraEnabled enabled)
  | .sendAudio opus => some (s.sendAudio codec opus)
  | .sendVideo jpeg => some (s.sendVideo codec jpeg)
  | .receive event => some (s.receive now event)
  | .receiveAudio event => some (s.receiveAudio codec now event)
  | .receiveVideo event => some (s.receiveVideo codec now event)
  | .deadline => if s.deadline.isSome then some s.deadlineExpired else none
  | .keepalive => if s.keepalive then some (s.keepaliveExpired now) else none

end CppChat.Call
