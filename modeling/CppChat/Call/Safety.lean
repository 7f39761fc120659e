import Mathlib.Algebra.Order.Ring.Rat
import Mathlib.Data.Rat.Cast.Order
import CppChat.Call.Service

/-! # The life of a call

One lemma says what any input can do: the call goes on, opens, connects, becomes active or
ends. The timers, the exits and the sequence numbers of every run follow from it.
-/
namespace CppChat.Call
open Foundation

/-! ## What the signals carry -/

def seq (body : QJsonObject) : Option ℚ :=
  match body.value "seq" with
  | some (.num q) => some q
  | _ => none

/-- The sequence numbers of the audio frames that were sent. -/
def sentAudio (signals : List Signal) : List ℚ :=
  signals.filterMap fun
    | .send body true => seq body
    | _ => none

def sentVideo (signals : List Signal) : List ℚ :=
  signals.filterMap fun
    | .sendVideoFrame body => seq body
    | _ => none

/-- The sequence numbers of the audio frames that were accepted. -/
def takenAudio (signals : List Signal) : List ℚ :=
  signals.filterMap fun
    | .audio _ sequence => some sequence
    | _ => none

/-- The video frames that were accepted; their signal leaves out the sequence number. -/
def takenVideo (signals : List Signal) (sequence : Int) : List ℚ :=
  signals.filterMap fun
    | .videoFrame _ => some (sequence : ℚ)
    | _ => none

/-- The control commands that were sent. -/
def commands (signals : List Signal) : List QJsonObject :=
  signals.filterMap fun
    | .send body false => some body
    | _ => none

/-- The signals send and deliver nothing. -/
structure Quiet (signals : List Signal) : Prop where
  sentAudio : sentAudio signals = []
  sentVideo : sentVideo signals = []
  takenAudio : takenAudio signals = []
  takenVideo : ∀ n, takenVideo signals n = []

theorem Quiet.append {l l' : List Signal} (h : Quiet l) (h' : Quiet l') : Quiet (l ++ l') where
  sentAudio := by
    rw [Call.sentAudio, List.filterMap_append]
    exact List.append_eq_nil_iff.mpr ⟨h.sentAudio, h'.sentAudio⟩
  sentVideo := by
    rw [Call.sentVideo, List.filterMap_append]
    exact List.append_eq_nil_iff.mpr ⟨h.sentVideo, h'.sentVideo⟩
  takenAudio := by
    rw [Call.takenAudio, List.filterMap_append]
    exact List.append_eq_nil_iff.mpr ⟨h.takenAudio, h'.takenAudio⟩
  takenVideo n := by
    rw [Call.takenVideo, List.filterMap_append]
    exact List.append_eq_nil_iff.mpr ⟨h.takenVideo n, h'.takenVideo n⟩

/-- A counter moves with the one frame that carries its new value, or stays. -/
def Advances (old new : Int) (frames : List ℚ) : Prop :=
  (frames = [] ∧ new = old) ∨ (frames = [(new : ℚ)] ∧ old < new)

namespace VoiceCallService
variable {s t : VoiceCallService} {codec : Codec} {now : Int} {input : Input}
  {signals : List Signal} {event : QJsonObject}

def networkSignal (s : VoiceCallService) (recovering : Bool) : List Signal :=
  if s.recovering = recovering then [] else [.networkChanged recovering]

theorem setRecovering_eq (s : VoiceCallService) (recovering : Bool) :
    s.setRecovering recovering = ({ s with recovering }, s.networkSignal recovering) := by
  unfold setRecovering networkSignal
  split
  next h =>
    rw [← h]
  next => rfl

theorem progress_eq (s : VoiceCallService) (now : Int) (recovering : Bool) :
    s.progress now recovering =
      ({ s with lastProgress := now, recovering }, s.networkSignal recovering) :=
  setRecovering_eq _ recovering

theorem networkSignal_quiet (s : VoiceCallService) (recovering : Bool) :
    Quiet (s.networkSignal recovering) := by
  unfold networkSignal
  split <;> exact ⟨rfl, rfl, rfl, fun _ => rfl⟩

theorem networkSignal_commands (s : VoiceCallService) (recovering : Bool) :
    commands (s.networkSignal recovering) = [] := by
  unfold networkSignal
  split <;> rfl

/-- The state a call leaves behind: the initial one, but for the time of its last progress. -/
def idle (s : VoiceCallService) : VoiceCallService := { lastProgress := s.lastProgress }

/-- The command that ends a call from this side. -/
def terminating (s : VoiceCallService) : QJsonObject :=
  [("call_id", .str s.call), ("peer", .num s.peer), ("action", .str s.endAction),
    ("video", .bool s.video)]

theorem reset_eq (s : VoiceCallService) (reason : String) :
    s.reset reason = (s.idle, s.networkSignal false ++ [.changed, .ended reason]) := by
  unfold reset
  rw [setRecovering_eq]
  rfl

theorem reset_commands (s : VoiceCallService) (reason : String) :
    commands (s.reset reason).2 = [] := by
  rw [reset_eq, commands, List.filterMap_append]
  exact List.append_eq_nil_iff.mpr ⟨s.networkSignal_commands false, rfl⟩

theorem finish_eq (h : s.state ≠ .idle) (reason : String) :
    (s.finish reason).1 = s.idle ∧ commands (s.finish reason).2 = [s.terminating] := by
  unfold finish
  rw [if_neg h]
  refine ⟨by rw [reset_eq], ?_⟩
  have hreset := s.reset_commands (if reason = "" then "通话已结束" else reason)
  unfold commands at hreset ⊢
  rw [List.filterMap_append, hreset, command, if_neg h]
  rfl

/-! ## What an input can do -/

/-- The call goes on. -/
structure GoesOn (s t : VoiceCallService) (signals : List Signal) : Prop where
  state : t.state = s.state
  call : t.call = s.call
  peer : t.peer = s.peer
  video : t.video = s.video
  deadline : t.deadline = s.deadline
  keepalive : t.keepalive = s.keepalive
  idle : s.state = .idle → t = s
  sequence : Advances s.sequence t.sequence (sentAudio signals)
  videoSequence : Advances s.videoSequence t.videoSequence (sentVideo signals)
  received : Advances s.received t.received (takenAudio signals)
  receivedVideo : Advances s.receivedVideo t.receivedVideo (takenVideo signals t.receivedVideo)

/-- An error-free acceptance of the current call. -/
structure Accepts (s : VoiceCallService) (event : QJsonObject) : Prop where
  call : QJson.toString (event.value "call_id") = s.call
  peer : QJson.toInt 0 (event.value "peer") = s.peer
  error : QJson.isDouble (event.value "error") ∧ QJson.toInt 0 (event.value "error") = 0
  action : QJson.toString (event.value "action") = "accept"
  video : QJson.toBool (event.value "video") = s.video

/-- The events that end a call without a command of this side. -/
def EndsRemotely : Input → Prop
  | .disconnected => True
  | .receive event => QJson.toInt 0 (event.value "error") = 0 ∧
      (QJson.toString (event.value "action") = "reject" ∨
        QJson.toString (event.value "action") = "cancel" ∨
        QJson.toString (event.value "action") = "end")
  | _ => False

/-- Everything an input can do. -/
inductive Outcome (s : VoiceCallService) (now : Int) :
    Input → VoiceCallService → List Signal → Prop
  | goesOn {i : Input} {t : VoiceCallService} {l : List Signal} (h : GoesOn s t l) :
      Outcome s now i t l
  | opens {i : Input} {l : List Signal} (call : String) (peer : Int) (video : Bool) (state : State)
      (hidle : s.state = .idle) (hstate : state = .outgoing ∨ state = .incoming)
      (hquiet : Quiet l) :
      Outcome s now i { s with call, peer, video, state, deadline := some ringMs } l
  | connects {i : Input} {l : List Signal} (h : s.state = .incoming) (hquiet : Quiet l) :
      Outcome s now i { s with state := .connecting, deadline := some connectMs } l
  | activates {e : QJsonObject} {l : List Signal} (h : s.state = .outgoing ∨ s.state = .connecting)
      (haccepts : s.Accepts e) (hquiet : Quiet l) :
      Outcome s now (.receive e) { s with
        deadline := none, state := .active, lastProgress := now, recovering := false
        keepalive := true } l
  | finishes {i : Input} {l : List Signal} (h : s.state ≠ .idle)
      (hcommands : commands l = [s.terminating]) : Outcome s now i s.idle l
  | resets {i : Input} {l : List Signal} (h : s.state ≠ .idle) (hremote : EndsRemotely i)
      (hcommands : commands l = []) : Outcome s now i s.idle l

theorem advances_refl (n : Int) : Advances n n [] := .inl ⟨rfl, rfl⟩

theorem goesOn_refl (s : VoiceCallService) : GoesOn s s [] :=
  ⟨rfl, rfl, rfl, rfl, rfl, rfl, fun _ => rfl, advances_refl _, advances_refl _, advances_refl _,
    advances_refl _⟩

/-- A step of an active call that moves no counter. -/
theorem goesOn_of_quiet (hactive : s.state = .active) (hstate : t.state = s.state)
    (hcall : t.call = s.call ∧ t.peer = s.peer ∧ t.video = s.video)
    (htimers : t.deadline = s.deadline ∧ t.keepalive = s.keepalive)
    (hcounters : t.sequence = s.sequence ∧ t.videoSequence = s.videoSequence ∧
      t.received = s.received ∧ t.receivedVideo = s.receivedVideo) (hquiet : Quiet signals) :
    GoesOn s t signals where
  state := hstate
  call := hcall.1
  peer := hcall.2.1
  video := hcall.2.2
  deadline := htimers.1
  keepalive := htimers.2
  idle h := by
    rw [hactive] at h
    cases h
  sequence := .inl ⟨hquiet.sentAudio, hcounters.1⟩
  videoSequence := .inl ⟨hquiet.sentVideo, hcounters.2.1⟩
  received := .inl ⟨hquiet.takenAudio, hcounters.2.2.1⟩
  receivedVideo := .inl ⟨hquiet.takenVideo _, hcounters.2.2.2⟩

theorem command_quiet (s : VoiceCallService) (action : String) : Quiet (s.command action) := by
  unfold command
  split <;> exact ⟨rfl, rfl, rfl, fun _ => rfl⟩

theorem start_outcome (peer : Int) (video : Bool) (call : String) :
    Outcome s now input (s.start peer video call).1 (s.start peer video call).2 := by
  unfold start
  split
  · exact .goesOn (goesOn_refl s)
  next h =>
    have hidle : s.state = .idle := by
      by_contra hne
      exact h (.inl hne)
    exact .opens call peer video .outgoing hidle (.inl rfl)
      (Quiet.append (l := [.changed]) ⟨rfl, rfl, rfl, fun _ => rfl⟩ (command_quiet _ _))

theorem accept_outcome : Outcome s now input s.accept.1 s.accept.2 := by
  unfold accept
  split
  · exact .goesOn (goesOn_refl s)
  next h =>
    exact .connects (not_not.mp h)
      (Quiet.append (l := [.changed]) ⟨rfl, rfl, rfl, fun _ => rfl⟩ (command_quiet _ _))

theorem finish_outcome (reason : String) :
    Outcome s now input (s.finish reason).1 (s.finish reason).2 := by
  by_cases h : s.state = .idle
  · rw [finish, if_pos h]
    exact .goesOn (goesOn_refl s)
  · obtain ⟨hstate, hcommands⟩ := finish_eq h reason
    rw [hstate]
    exact .finishes h hcommands

theorem disconnected_outcome : Outcome s now .disconnected s.disconnected.1 s.disconnected.2 := by
  unfold disconnected
  split
  · exact .goesOn (goesOn_refl s)
  next h =>
    have hcommands := s.reset_commands "聊天连接断开，通话已结束"
    rw [reset_eq] at hcommands ⊢
    exact .resets h trivial hcommands

theorem deadlineExpired_outcome (h : s.state ≠ .idle) :
    Outcome s now input s.deadlineExpired.1 s.deadlineExpired.2 := by
  obtain ⟨hstate, hcommands⟩ :=
    finish_eq (s := { s with deadline := none }) h "对方未接听或网络超时"
  unfold deadlineExpired
  rw [hstate]
  exact .finishes h hcommands

theorem keepaliveExpired_outcome (h : s.state = .active) :
    Outcome s now input (s.keepaliveExpired now).1 (s.keepaliveExpired now).2 := by
  unfold keepaliveExpired
  dsimp only
  split
  · exact finish_outcome _
  · split
    · rw [setRecovering_eq]
      exact .goesOn (goesOn_of_quiet h rfl ⟨rfl, rfl, rfl⟩ ⟨rfl, rfl⟩ ⟨rfl, rfl, rfl, rfl⟩
        ((networkSignal_quiet s true).append (command_quiet _ _)))
    · exact .goesOn (goesOn_of_quiet h rfl ⟨rfl, rfl, rfl⟩ ⟨rfl, rfl⟩ ⟨rfl, rfl, rfl, rfl⟩
        (command_quiet s _))

theorem setCameraEnabled_outcome (enabled : Bool) :
    Outcome s now input (s.setCameraEnabled enabled).1 (s.setCameraEnabled enabled).2 := by
  unfold setCameraEnabled
  split
  · exact .goesOn (goesOn_refl s)
  next h =>
    have hactive : s.state = .active := by
      by_contra hne
      exact h (.inl hne)
    exact .goesOn (goesOn_of_quiet hactive rfl ⟨rfl, rfl, rfl⟩ ⟨rfl, rfl⟩ ⟨rfl, rfl, rfl, rfl⟩
      ⟨rfl, rfl, rfl, fun _ => rfl⟩)

theorem sendAudio_outcome (opus : Bytes) :
    Outcome s now input (s.sendAudio codec opus).1 (s.sendAudio codec opus).2 := by
  unfold sendAudio
  split
  · exact .goesOn (goesOn_refl s)
  next h =>
    refine .goesOn ⟨rfl, rfl, rfl, rfl, rfl, rfl, fun hidle => absurd (.inl ?_) h,
      .inr ⟨rfl, Int.lt_succ s.sequence⟩, advances_refl _, advances_refl _, advances_refl _⟩
    rw [hidle]
    decide

theorem sendVideo_outcome (jpeg : Bytes) :
    Outcome s now input (s.sendVideo codec jpeg).1 (s.sendVideo codec jpeg).2 := by
  unfold sendVideo
  split
  · exact .goesOn (goesOn_refl s)
  next h =>
    refine .goesOn ⟨rfl, rfl, rfl, rfl, rfl, rfl, fun hidle => absurd (.inl ?_) h,
      advances_refl _, .inr ⟨rfl, Int.lt_succ s.videoSequence⟩, advances_refl _, advances_refl _⟩
    rw [hidle]
    decide

theorem receiveAudio_outcome (event : QJsonObject) :
    Outcome s now input (s.receiveAudio codec now event).1 (s.receiveAudio codec now event).2 := by
  unfold receiveAudio
  split
  · exact .goesOn (goesOn_refl s)
  next h =>
    have hactive : s.state = .active := by
      by_contra hne
      exact h (.inl hne)
    dsimp only
    split
    · exact .goesOn (goesOn_refl s)
    next hnew =>
      split
      · exact .goesOn (goesOn_refl s)
      next opus =>
        split
        · exact .goesOn (goesOn_refl s)
        · rw [progress_eq]
          have hquiet := networkSignal_quiet
            { s with received := QJson.toInt 0 (event.value "seq") } false
          have hlt : s.received < QJson.toInt 0 (event.value "seq") := by
            by_contra hle
            exact hnew (.inl (not_lt.mp hle))
          refine .goesOn ⟨rfl, rfl, rfl, rfl, rfl, rfl, fun hidle => ?_, .inl ⟨?_, rfl⟩,
            .inl ⟨?_, rfl⟩, .inr ⟨?_, hlt⟩, .inl ⟨?_, rfl⟩⟩
          · rw [hactive] at hidle
            cases hidle
          · rw [sentAudio, List.filterMap_append]
            exact List.append_eq_nil_iff.mpr ⟨hquiet.sentAudio, rfl⟩
          · rw [sentVideo, List.filterMap_append]
            exact List.append_eq_nil_iff.mpr ⟨hquiet.sentVideo, rfl⟩
          · have hnone := hquiet.takenAudio
            rw [takenAudio] at hnone ⊢
            rw [List.filterMap_append, hnone]
            rfl
          · rw [takenVideo, List.filterMap_append]
            exact List.append_eq_nil_iff.mpr ⟨hquiet.takenVideo _, rfl⟩

theorem receiveVideo_outcome (event : QJsonObject) :
    Outcome s now input (s.receiveVideo codec now event).1 (s.receiveVideo codec now event).2 := by
  unfold receiveVideo
  split
  · exact .goesOn (goesOn_refl s)
  next h =>
    have hactive : s.state = .active := by
      by_contra hne
      exact h (.inl hne)
    dsimp only
    split
    · exact .goesOn (goesOn_refl s)
    next hnew =>
      split
      · exact .goesOn (goesOn_refl s)
      next jpeg =>
        split
        · exact .goesOn (goesOn_refl s)
        · rw [progress_eq]
          have hquiet := networkSignal_quiet
            { s with receivedVideo := QJson.toInt (-1) (event.value "seq") } false
          have hlt : s.receivedVideo < QJson.toInt (-1) (event.value "seq") := by
            by_contra hle
            exact hnew (.inl (not_lt.mp hle))
          refine .goesOn ⟨rfl, rfl, rfl, rfl, rfl, rfl, fun hidle => ?_, .inl ⟨?_, rfl⟩,
            .inl ⟨?_, rfl⟩, .inl ⟨?_, rfl⟩, .inr ⟨?_, hlt⟩⟩
          · rw [hactive] at hidle
            cases hidle
          · rw [sentAudio, List.filterMap_append]
            exact List.append_eq_nil_iff.mpr ⟨hquiet.sentAudio, rfl⟩
          · rw [sentVideo, List.filterMap_append]
            exact List.append_eq_nil_iff.mpr ⟨hquiet.sentVideo, rfl⟩
          · rw [takenAudio, List.filterMap_append]
            exact List.append_eq_nil_iff.mpr ⟨hquiet.takenAudio, rfl⟩
          · have hnone := hquiet.takenVideo (QJson.toInt (-1) (event.value "seq"))
            rw [takenVideo] at hnone ⊢
            rw [List.filterMap_append, hnone]
            rfl

theorem receiveControl_outcome (event : QJsonObject) (hown : s.IsOwn event)
    (herror : QJson.isDouble (event.value "error") ∧ QJson.toInt 0 (event.value "error") = 0)
    (hvideo : QJson.toBool (event.value "video") = s.video) (hopen : s.state ≠ .idle) :
    Outcome s now (.receive event)
      (s.receiveControl now event (QJson.toString (event.value "action"))).1
      (s.receiveControl now event (QJson.toString (event.value "action"))).2 := by
  have hreset : ∀ reason, (QJson.toString (event.value "action") = "reject" ∨
      QJson.toString (event.value "action") = "cancel" ∨
      QJson.toString (event.value "action") = "end") →
      Outcome s now (.receive event) (s.reset reason).1 (s.reset reason).2 := by
    intro reason haction
    have hcommands := s.reset_commands reason
    rw [reset_eq] at hcommands ⊢
    exact .resets hopen ⟨herror.2, haction⟩ hcommands
  unfold receiveControl
  split
  next h =>
    dsimp only
    rw [progress_eq]
    exact .goesOn (goesOn_of_quiet h.2.1 rfl ⟨rfl, rfl, rfl⟩ ⟨rfl, rfl⟩ ⟨rfl, rfl, rfl, rfl⟩
      ((networkSignal_quiet _ false).append ⟨rfl, rfl, rfl, fun _ => rfl⟩))
  split
  next h =>
    rw [progress_eq]
    exact .activates h.2 ⟨hown.1, hown.2, herror, h.1, hvideo⟩
      ((networkSignal_quiet _ false).append ⟨rfl, rfl, rfl, fun _ => rfl⟩)
  split
  next h =>
    dsimp only
    rw [progress_eq]
    split
    · exact .goesOn (goesOn_of_quiet h.2 rfl ⟨rfl, rfl, rfl⟩ ⟨rfl, rfl⟩ ⟨rfl, rfl, rfl, rfl⟩
        ((networkSignal_quiet _ _).append ⟨rfl, rfl, rfl, fun _ => rfl⟩))
    · exact .goesOn (goesOn_of_quiet h.2 rfl ⟨rfl, rfl, rfl⟩ ⟨rfl, rfl⟩ ⟨rfl, rfl, rfl, rfl⟩
        (networkSignal_quiet _ _))
  split
  next h => exact hreset _ (.inl h)
  split
  next h => exact hreset _ (.inr (.inl h))
  split
  next h => exact hreset _ (.inr (.inr h))
  exact .goesOn (goesOn_refl s)

theorem receive_outcome (event : QJsonObject) :
    Outcome s now (.receive event) (s.receive now event).1 (s.receive now event).2 := by
  unfold receive
  dsimp only
  split
  · exact .goesOn (goesOn_refl s)
  next hvalid =>
    have hdouble : QJson.isDouble (event.value "error") := by
      by_contra hne
      exact hvalid (.inr (.inr hne))
    split
    next h =>
      exact .opens _ _ _ .incoming h.1 (.inr rfl) ⟨rfl, rfl, rfl, fun _ => rfl⟩
    split
    · exact .goesOn (goesOn_refl s)
    next hown =>
      have hcall : s.IsOwn event := by
        constructor
        · by_contra hne
          exact hown (.inl hne)
        · by_contra hne
          exact hown (.inr (.inl hne))
      have hopen : s.state ≠ .idle := fun hidle => hown (.inr (.inr hidle))
      split
      · split
        · exact .goesOn (goesOn_refl s)
        · exact finish_outcome _
      next hcode =>
        split
        · exact finish_outcome _
        next hvideo =>
          exact receiveControl_outcome event hcall ⟨hdouble, not_not.mp hcode⟩ (not_not.mp hvideo)
            hopen

/-! ## Timers -/

/-- Outside idle one timer guards the call; in idle no timer runs, and nothing of a call is left. -/
structure Guarded (s : VoiceCallService) : Prop where
  idle : s.state = .idle → s = s.idle
  ringing : s.state ≠ .idle → s.state ≠ .active → s.deadline.isSome ∧ s.keepalive = false
  active : s.state = .active → s.deadline = none ∧ s.keepalive = true

theorem guarded_idle (s : VoiceCallService) : Guarded s.idle where
  idle _ := rfl
  ringing h := absurd rfl h
  active h := by cases h

theorem Guarded.outcome (h : Guarded s) (ho : Outcome s now input t signals) : Guarded t := by
  cases ho with
  | goesOn ho =>
    refine ⟨fun hidle => ?_, fun hidle hactive => ?_, fun hactive => ?_⟩
    · rw [ho.state] at hidle
      rw [ho.idle hidle]
      exact h.idle hidle
    · rw [ho.state] at hidle hactive
      rw [ho.deadline, ho.keepalive]
      exact h.ringing hidle hactive
    · rw [ho.state] at hactive
      rw [ho.deadline, ho.keepalive]
      exact h.active hactive
  | opens call peer video state hidle hstate hquiet =>
    have hkeepalive : s.keepalive = false := by
      rw [h.idle hidle]
      rfl
    refine ⟨fun he => ?_, fun _ _ => ⟨rfl, hkeepalive⟩, fun he => ?_⟩
    · rcases hstate with rfl | rfl <;> cases he
    · rcases hstate with rfl | rfl <;> cases he
  | connects hs hquiet =>
    have hne : s.state ≠ .idle ∧ s.state ≠ .active := by
      rw [hs]
      decide
    refine ⟨fun he => ?_, fun _ _ => ⟨rfl, (h.ringing hne.1 hne.2).2⟩, fun he => ?_⟩
    · cases he
    · cases he
  | activates hs haccepts hquiet =>
    refine ⟨fun he => ?_, fun _ he => ?_, fun _ => ⟨rfl, rfl⟩⟩
    · cases he
    · exact absurd rfl he
  | finishes => exact guarded_idle s
  | resets => exact guarded_idle s

theorem handle_outcome (h : Guarded s) (hstep : s.handle codec now input = some (t, signals)) :
    Outcome s now input t signals := by
  have hof : ∀ {p : VoiceCallService × List Signal}, some p = some (t, signals) →
      Outcome s now input p.1 p.2 → Outcome s now input t signals := by
    intro p hp ho
    cases hp
    exact ho
  cases input with
  | start peer video call => exact hof hstep (start_outcome peer video call)
  | accept => exact hof hstep accept_outcome
  | finish reason => exact hof hstep (finish_outcome reason)
  | disconnected => exact hof hstep disconnected_outcome
  | setCameraEnabled enabled => exact hof hstep (setCameraEnabled_outcome enabled)
  | sendAudio opus => exact hof hstep (sendAudio_outcome opus)
  | sendVideo jpeg => exact hof hstep (sendVideo_outcome jpeg)
  | receive event => exact hof hstep (receive_outcome event)
  | receiveAudio event => exact hof hstep (receiveAudio_outcome event)
  | receiveVideo event => exact hof hstep (receiveVideo_outcome event)
  | deadline =>
    unfold handle at hstep
    dsimp only at hstep
    split at hstep
    next hrunning =>
      refine hof hstep (deadlineExpired_outcome fun hidle => ?_)
      rw [h.idle hidle] at hrunning
      cases hrunning
    next => cases hstep
  | keepalive =>
    unfold handle at hstep
    dsimp only at hstep
    split at hstep
    next hrunning =>
      refine hof hstep (keepaliveExpired_outcome ?_)
      by_contra hne
      by_cases hidle : s.state = .idle
      · rw [h.idle hidle] at hrunning
        cases hrunning
      · rw [(h.ringing hidle hne).2] at hrunning
        cases hrunning
    next => cases hstep

end VoiceCallService

/-! ## Every run -/

/-- The sequence numbers of the current call, newest first. -/
structure Frames where
  sentAudio : List ℚ := []
  sentVideo : List ℚ := []
  takenAudio : List ℚ := []
  takenVideo : List ℚ := []

def Frames.record (f : Frames) (t : VoiceCallService) (signals : List Signal) : Frames :=
  if t.state = .idle then {}
  else ⟨Call.sentAudio signals ++ f.sentAudio, Call.sentVideo signals ++ f.sentVideo,
    Call.takenAudio signals ++ f.takenAudio,
    Call.takenVideo signals t.receivedVideo ++ f.takenVideo⟩

/-- A service with the frames of its call. -/
structure Life where
  service : VoiceCallService := {}
  frames : Frames := {}

namespace Life
open VoiceCallService

def next (codec : Codec) (l : Life) (input : Int × Input) : Option Life :=
  (l.service.handle codec input.1 input.2).map fun p => ⟨p.1, l.frames.record p.1 p.2⟩

def machine (codec : Codec) : Machine Life (Int × Input) := .ofFn (fun l => l = {}) (next codec)

/-- The numbers rise to the counter. -/
structure Rising (frames : List ℚ) (counter : Int) : Prop where
  le : ∀ x ∈ frames, x ≤ counter
  pairwise : frames.Pairwise (· > ·)

theorem rising_nil (n : Int) : Rising [] n := ⟨fun _ hx => absurd hx List.not_mem_nil, .nil⟩

theorem Rising.advance {frames new : List ℚ} {old counter : Int} (h : Rising frames old)
    (ha : Advances old counter new) : Rising (new ++ frames) counter := by
  rcases ha with ⟨rfl, rfl⟩ | ⟨rfl, hlt⟩
  · exact h
  · have hlt' : (old : ℚ) < counter := Int.cast_lt.mpr hlt
    refine ⟨fun x hx => ?_, List.pairwise_cons.mpr ⟨fun x hx => ?_, h.pairwise⟩⟩
    · rcases List.mem_cons.mp hx with rfl | hx
      · exact le_rfl
      · exact (h.le x hx).trans hlt'.le
    · exact (h.le x hx).trans_lt hlt'

structure Sound (l : Life) : Prop where
  guarded : Guarded l.service
  sentAudio : Rising l.frames.sentAudio l.service.sequence
  sentVideo : Rising l.frames.sentVideo l.service.videoSequence
  takenAudio : Rising l.frames.takenAudio l.service.received
  takenVideo : Rising l.frames.takenVideo l.service.receivedVideo

variable {codec : Codec} {l : Life} {t : VoiceCallService} {signals : List Signal} {now : Int}
  {input : Input}

theorem record_of_quiet (f : Frames) (hquiet : Quiet signals) :
    f.record t signals = if t.state = .idle then {} else f := by
  unfold Frames.record
  rw [hquiet.sentAudio, hquiet.sentVideo, hquiet.takenAudio, hquiet.takenVideo]
  rfl

theorem sound_idle (h : t.state = .idle) (hguarded : Guarded t) (f : Frames) :
    Sound ⟨t, f.record t signals⟩ := by
  unfold Frames.record
  rw [if_pos h]
  exact ⟨hguarded, rising_nil _, rising_nil _, rising_nil _, rising_nil _⟩

theorem Sound.quiet (h : Sound l) (hguarded : Guarded t) (hquiet : Quiet signals)
    (hcounters : t.sequence = l.service.sequence ∧ t.videoSequence = l.service.videoSequence ∧
      t.received = l.service.received ∧ t.receivedVideo = l.service.receivedVideo) :
    Sound ⟨t, l.frames.record t signals⟩ := by
  by_cases hidle : t.state = .idle
  · exact sound_idle hidle hguarded l.frames
  · rw [record_of_quiet l.frames hquiet, if_neg hidle]
    obtain ⟨h1, h2, h3, h4⟩ := hcounters
    exact ⟨hguarded, h1 ▸ h.sentAudio, h2 ▸ h.sentVideo, h3 ▸ h.takenAudio, h4 ▸ h.takenVideo⟩

theorem Sound.step (h : Sound l) (hstep : l.service.handle codec now input = some (t, signals)) :
    Sound ⟨t, l.frames.record t signals⟩ := by
  have ho := handle_outcome h.guarded hstep
  have hguarded := h.guarded.outcome ho
  cases ho with
  | goesOn ho =>
    by_cases hidle : t.state = .idle
    · exact sound_idle hidle hguarded l.frames
    · unfold Frames.record
      rw [if_neg hidle]
      exact ⟨hguarded, h.sentAudio.advance ho.sequence, h.sentVideo.advance ho.videoSequence,
        h.takenAudio.advance ho.received, h.takenVideo.advance ho.receivedVideo⟩
  | opens call peer video state hidle hstate hquiet =>
    exact h.quiet hguarded hquiet ⟨rfl, rfl, rfl, rfl⟩
  | connects hs hquiet => exact h.quiet hguarded hquiet ⟨rfl, rfl, rfl, rfl⟩
  | activates hs haccepts hquiet => exact h.quiet hguarded hquiet ⟨rfl, rfl, rfl, rfl⟩
  | finishes => exact sound_idle rfl hguarded l.frames
  | resets => exact sound_idle rfl hguarded l.frames

theorem sound_invariant (codec : Codec) : (machine codec).Invariant Sound where
  init := by
    rintro l rfl
    exact ⟨guarded_idle {}, rising_nil _, rising_nil _, rising_nil _, rising_nil _⟩
  step := by
    rintro l ⟨now, input⟩ l' - h hstep
    obtain ⟨⟨t, signals⟩, hhandle, rfl⟩ := Option.map_eq_some_iff.mp hstep
    exact h.step hhandle

/-- What holds in every state, of the next input and of the frames so far. -/
structure CallSafe (codec : Codec) (l : Life) : Prop where
  /-- An event of another call or peer changes nothing. -/
  foreign : l.service.state ≠ .idle → ∀ now event, ¬ l.service.IsOwn event →
    l.service.receive now event = (l.service, []) ∧
    l.service.receiveAudio codec now event = (l.service, []) ∧
    l.service.receiveVideo codec now event = (l.service, [])
  /-- A call becomes active by the acceptance of this call, and no other way. -/
  activated : ∀ now input t signals, l.service.handle codec now input = some (t, signals) →
    l.service.state ≠ .active → t.state = .active →
      (l.service.state = .outgoing ∨ l.service.state = .connecting) ∧
      ∃ event, input = .receive event ∧ l.service.Accepts event
  guarded : Guarded l.service
  /-- Every way out leaves the idle state, and one from this side sends its one command. -/
  ends : ∀ now input t signals, l.service.handle codec now input = some (t, signals) →
    l.service.state ≠ .idle → t.state = .idle → t = l.service.idle ∧
      (commands signals = [l.service.terminating] ∨
        (EndsRemotely input ∧ commands signals = []))
  /-- Within a call the numbers of each direction and kind of frame rise strictly. -/
  sentAudio : l.frames.sentAudio.Pairwise (· > ·)
  sentVideo : l.frames.sentVideo.Pairwise (· > ·)
  takenAudio : l.frames.takenAudio.Pairwise (· > ·)
  takenVideo : l.frames.takenVideo.Pairwise (· > ·)

theorem foreign_receive {s : VoiceCallService} {event : QJsonObject} (hopen : s.state ≠ .idle)
    (h : ¬ s.IsOwn event) : s.receive now event = (s, []) := by
  unfold receive
  dsimp only
  split
  · rfl
  rw [if_neg fun hidle => hopen hidle.1, if_pos]
  by_contra hne
  refine h ⟨?_, ?_⟩
  · by_contra hcall
    exact hne (.inl hcall)
  · by_contra hpeer
    exact hne (.inr (.inl hpeer))

theorem life_safe {l : Life} (hl : (machine codec).Reachable l) : CallSafe codec l := by
  have h := (sound_invariant codec).reachable hl
  refine ⟨fun hopen now event hforeign => ⟨foreign_receive hopen hforeign, ?_, ?_⟩,
    fun now input t signals hstep hs ht => ?_, h.guarded, fun now input t signals hstep hs ht => ?_,
    h.sentAudio.pairwise, h.sentVideo.pairwise, h.takenAudio.pairwise, h.takenVideo.pairwise⟩
  · rw [receiveAudio, if_pos (.inr (.inl hforeign))]
  · rw [receiveVideo, if_pos (.inr (.inr (.inr hforeign)))]
  · have ho := handle_outcome h.guarded hstep
    cases ho with
    | goesOn ho => exact absurd (ho.state.symm.trans ht) hs
    | opens call peer video state hidle hstate =>
      have hstate' : state = .active := ht
      rcases hstate with rfl | rfl <;> cases hstate'
    | connects => cases ht
    | activates hfrom haccepts => exact ⟨hfrom, _, rfl, haccepts⟩
    | finishes => cases ht
    | resets => cases ht
  · have ho := handle_outcome h.guarded hstep
    cases ho with
    | goesOn ho => exact absurd (ho.state.symm.trans ht) hs
    | opens call peer video state hidle => exact absurd hidle hs
    | connects => cases ht
    | activates => cases ht
    | finishes _ hcommands => exact ⟨rfl, .inl hcommands⟩
    | resets _ hremote hcommands => exact ⟨rfl, .inr ⟨hremote, hcommands⟩⟩

/-! ## A call from start to end -/

def sampleCodec : Codec := ⟨fun _ => "", fun _ => [], fun _ => none⟩

def sampleCall : String := "0123456789abcdef0123456789abcdef"

def acceptEvent : QJsonObject :=
  [("call_id", .str sampleCall), ("action", .str "accept"), ("peer", .num 8), ("error", .num 0),
    ("video", .bool false)]

def sampleInputs : List (Int × Input) :=
  [(0, .start 8 false sampleCall), (5, .receive acceptEvent), (6, .sendAudio [1])]

theorem life_safe_sample :
    ((Machine.runFn (next sampleCodec) {} sampleInputs).map fun l =>
      (l.service.state, l.frames.sentAudio)) = some (.active, [1]) ∧
    ∀ l, Machine.runFn (next sampleCodec) {} sampleInputs = some l → CallSafe sampleCodec l :=
  ⟨by decide, fun _ hl => life_safe (Machine.Reachable.runFn (.init rfl) hl)⟩

/-- The time of the last progress survives the call. -/
theorem last_progress_survives : ¬ ∀ l, (machine sampleCodec).Reachable l → ∀ now input t signals,
    l.service.handle sampleCodec now input = some (t, signals) → l.service.state ≠ .idle →
      t.state = .idle → t = {} := by
  intro h
  have hrun : (Machine.runFn (next sampleCodec) {} sampleInputs).map
      (fun l => (decide (l.service.state = .idle), (l.service.finish "").1.state,
        (l.service.finish "").1.lastProgress)) = some (false, .idle, 5) := by decide
  obtain ⟨l, hl, hlast⟩ := Option.map_eq_some_iff.mp hrun
  obtain ⟨hopen, hlast⟩ := Prod.mk.inj hlast
  obtain ⟨hidle, hprogress⟩ := Prod.mk.inj hlast
  have hfresh : (l.service.finish "").1 = {} :=
    h l (Machine.Reachable.runFn (.init rfl) hl) 7 (.finish "") _ (l.service.finish "").2 rfl
      (of_decide_eq_false hopen) hidle
  rw [hfresh] at hprogress
  cases hprogress

end Life
end CppChat.Call
