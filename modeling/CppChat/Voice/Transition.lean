import Mathlib.Data.Rat.Defs
import Mathlib.Algebra.Order.Ring.Rat
import CppChat.Foundation.Expiring
import CppChat.Foundation.Transition

/-! # Voice calls

One Lua script moves a call between its states. The call is one record stored under the
keys of both parties; every command is checked against the login sessions of both ends
before it may change the record.
-/
namespace CppChat.Voice
open Foundation

/-- The device names `ValidDevice` admits; any other is refused before the script runs. -/
inductive Device
  | desktop
  | android
  deriving DecidableEq

def success : ℕ := 0
def tokenInvalid : ℕ := 1010
def voiceBusy : ℕ := 1021
def voiceOffline : ℕ := 1022
def voiceInvalid : ℕ := 1023
def voiceRateLimited : ℕ := 1025

/-- `CallPolicy::TimeoutMs` and the leases of an invited and of an active call. -/
def timeoutMs : ℚ := 30000
def ringingMs : ℕ := 40000
def leaseMs : ℕ := 45000

inductive CallState
  | ringing
  | active
  deriving DecidableEq

/-- One direction of the call: liveness, sequence numbers and token buckets of a party. -/
structure Side where
  enabled : Bool
  seen : ℚ
  audioSeq : Int
  videoSeq : Int
  audioLast : Option ℚ
  videoLast : Option ℚ
  audioCredit : Option ℚ
  videoCredit : Option ℚ
  deriving DecidableEq

/-- The call record: caller `a`, callee `b`, their sessions and devices. -/
structure Call where
  id : String
  a : Int
  b : Int
  sa : String
  sb : String
  da : Device
  db : Device
  state : CallState
  video : Bool
  caller : Side
  callee : Side
  deriving DecidableEq

inductive Op
  | invite
  | accept
  | reject
  | cancel
  | end
  | frame
  | video
  | ping
  | camera
  deriving DecidableEq

structure Command where
  uid : Int
  peer : Int
  session : String
  call : String
  op : Op
  sequence : Int
  video : Bool
  cameraEnabled : Bool
  device : Device
  peerDevice : Device
  peerSession : String
  deriving DecidableEq

/-- The keys the script reads and writes; `clock` is Redis time in microseconds. -/
structure State where
  clock : ℕ
  voice : Keyspace Int Call
  session : Int × Device → Option String
  rate : Keyspace Int Unit

namespace State

def ms (s : State) : ℕ := s.clock / 1000

/-- `TIME` in milliseconds, with the fraction the script keeps. -/
def now (s : State) : ℚ := s.clock / 1000

def call? (s : State) (u : Int) : Option Call := s.voice.get s.ms u

def setBoth (s : State) (u p : Int) (c : Call) (px : ℕ) : State :=
  { s with voice := (s.voice.set u c (s.ms + px)).set p c (s.ms + px) }

def delBoth (s : State) (u p : Int) : State := { s with voice := (s.voice.del u).del p }

end State

/-- A side before its first frame. -/
def Side.fresh (now : ℚ) : Side := ⟨true, now, 0, 0, none, none, none, none⟩

/-- What `cjson` keeps of a number through one encoding. -/
def Side.encode (num : ℚ → ℚ) (s : Side) : Side where
  enabled := s.enabled
  seen := num s.seen
  audioSeq := s.audioSeq
  videoSeq := s.videoSeq
  audioLast := s.audioLast.map num
  videoLast := s.videoLast.map num
  audioCredit := s.audioCredit.map num
  videoCredit := s.videoCredit.map num

def Call.encode (num : ℚ → ℚ) (c : Call) : Call :=
  { c with caller := c.caller.encode num, callee := c.callee.encode num }

/-- The side of the party that sends the command, and the other one. -/
def Call.side (c : Call) (first : Bool) : Side := if first then c.caller else c.callee

def Call.setSide (c : Call) (first : Bool) (s : Side) : Call :=
  if first then { c with caller := s } else { c with callee := s }

/-- One frame against the sender's token bucket: the new side, or the refusal. -/
def Side.takeFrame (s : Side) (picture : Bool) (sequence : Int) (now : ℚ) : Except ℕ Side :=
  let q := if picture then s.videoSeq else s.audioSeq
  let last := if picture then s.videoLast else s.audioLast
  let credit := if picture then s.videoCredit else s.audioCredit
  let burst : ℚ := if picture then 2 else 10
  let rate : ℚ := if picture then 8 / 1000 else 6 / 100
  if sequence ≤ q then .error voiceInvalid
  else
    let available := min burst (credit.getD burst + (now - last.getD now) * rate)
    if available < 1 then .error voiceRateLimited
    else if picture then
      .ok { s with videoSeq := sequence, videoLast := some now, videoCredit := some (available - 1),
                   seen := now }
    else
      .ok { s with audioSeq := sequence, audioLast := some now, audioCredit := some (available - 1),
                   seen := now }

/-- The sender of a command is one of the two parties; `true` for the caller. -/
def Call.party (c : Call) (u p : Int) : Option Bool :=
  if c.a = u ∧ c.b = p then some true else if c.b = u ∧ c.a = p then some false else none

def Call.devices (c : Call) (first : Bool) : Device × Device := if first then (c.da, c.db) else (c.db, c.da)

def Call.sessions (c : Call) (first : Bool) : String × String :=
  if first then (c.sa, c.sb) else (c.sb, c.sa)

/-- A change of the record that keeps the call: the next record, or the error. -/
def Call.update (c : Call) (first : Bool) (cmd : Command) (now : ℚ) : Except ℕ Call :=
  match cmd.op with
  | .frame => do
    let side ← (c.side first).takeFrame false cmd.sequence now
    .ok (c.setSide first side)
  | .video =>
    if c.video = false ∨ (c.side first).enabled = false then .error voiceInvalid
    else do
      let side ← (c.side first).takeFrame true cmd.sequence now
      .ok (c.setSide first side)
  | .ping => .ok (c.setSide first { c.side first with seen := now })
  | .camera =>
    if c.video = false then .error voiceInvalid
    else .ok (c.setSide first { c.side first with enabled := cmd.cameraEnabled })
  | _ => .error voiceInvalid

/-- What the script does once the command is known to come from a bound party. -/
def State.advance (num : ℚ → ℚ) (s : State) (cmd : Command) (c : Call) (first : Bool) : ℕ × State :=
  if cmd.op = .end ∨ cmd.op = .reject ∨ cmd.op = .cancel then
    if cmd.op = .reject ∧ (first = true ∨ c.state ≠ .ringing) then (voiceInvalid, s)
    else if cmd.op = .cancel ∧ (first = false ∨ c.state ≠ .ringing) then (voiceInvalid, s)
    else (success, s.delBoth cmd.uid cmd.peer)
  else if c.video ≠ cmd.video then (voiceInvalid, s)
  else if cmd.op = .accept then
    if first = true ∨ c.state ≠ .ringing then (voiceInvalid, s)
    else
      let c := { c with
        state := .active
        caller := { c.caller with seen := s.now }
        callee := { c.callee with seen := s.now } }
      (success, s.setBoth cmd.uid cmd.peer (c.encode num) leaseMs)
  else if c.state ≠ .active then (voiceInvalid, s)
  else if timeoutMs < s.now - (c.side (!first)).seen then
    (voiceInvalid, s.delBoth cmd.uid cmd.peer) -- the other party fell silent
  else match c.update first cmd s.now with
    | .ok c => (success, s.setBoth cmd.uid cmd.peer (c.encode num) leaseMs)
    | .error e => (e, s)

/-- The script: session checks, the invitation, and the checks of an existing call. -/
def State.voiceTransition (num : ℚ → ℚ) (s : State) (cmd : Command) : ℕ × State :=
  if s.session (cmd.uid, cmd.device) ≠ some cmd.session then (tokenInvalid, s)
  else match s.session (cmd.peer, cmd.peerDevice) with
  | none => (voiceOffline, s)
  | some ps =>
    if cmd.peerSession ≠ "" ∧ ps ≠ cmd.peerSession then (tokenInvalid, s)
    else if cmd.op = .invite then
      if (s.call? cmd.uid).isSome ∨ (s.call? cmd.peer).isSome then (voiceBusy, s)
      else if (s.rate.get s.ms cmd.uid).isSome then (voiceRateLimited, s)
      else
        let c : Call := ⟨cmd.call, cmd.uid, cmd.peer, cmd.session, ps, cmd.device, cmd.peerDevice,
          .ringing, cmd.video, .fresh s.now, .fresh s.now⟩
        (success, { s.setBoth cmd.uid cmd.peer (c.encode num) ringingMs with
          rate := s.rate.set cmd.uid () (s.ms + 3000) })
    else match s.call? cmd.uid, s.call? cmd.peer with
    | some c, some d =>
      if c.id ≠ cmd.call ∨ d.id ≠ cmd.call then (voiceInvalid, s)
      else match c.party cmd.uid cmd.peer with
      | none => (voiceInvalid, s)
      | some first =>
        if c.devices first ≠ (cmd.device, cmd.peerDevice) then (tokenInvalid, s)
        else if c.sessions first ≠ (cmd.session, ps) then (tokenInvalid, s)
        else s.advance num cmd c first
    | _, _ => (voiceInvalid, s)

/-- Commands of any user, time passing, and logins that replace or drop session keys. -/
inductive Action
  | command (cmd : Command)
  | tick (micros : ℕ)
  | setSession (uid : Int) (device : Device) (session : Option String)

def State.step (num : ℚ → ℚ) (s : State) : Action → Option State
  | .command cmd => if cmd.uid = cmd.peer then none else some (s.voiceTransition num cmd).2
  | .tick micros => some { s with clock := s.clock + micros }
  | .setSession uid device session =>
    some { s with session := Function.update s.session (uid, device) session }

/-- All runs from a server without calls. -/
def voice (num : ℚ → ℚ) : Machine State Action :=
  .ofFn (fun s => ∀ u, s.voice u = none) (State.step num)

end CppChat.Voice
