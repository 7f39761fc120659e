import CppChat.Tcp.Manager

/-! # Responses are matched with their own request

The requests of each kind are tickets: a send issues one, and what counts is the latest one
on this connection that nothing ended. The pending request is exactly the ticket that
counts, so an accepted answer settles it, and no other one.
-/
namespace CppChat.Tcp
open Foundation Foundation.Tickets

/-- The manager with the history of its requests, newest first. -/
structure Session where
  mgr : TcpMgr
  log : List (Event ReqId String)

inductive Step
  | send (id : ReqId) (document : Document) (size : ℕ) (requestId : String) (ready written : Bool)
  | cancel (request : ReqId)
  | timeout (request : ReqId)
  /-- The `failRequest` that follows the slots of `sig_send_failed`. -/
  | fail (request : ReqId)
  | frame (id : ReqId) (document : Document)
  /-- The connection is closed, lost or replaced. -/
  | reset

/-- The `request_id` that was sent with a request. -/
def requestId (request : QJsonObject) : String := QJson.toString (request.value "request_id")

def failed (request : ReqId) (log : List (Event ReqId String)) : List (Event ReqId String) :=
  if request = idChatLogin then .reset :: .close request :: log else .close request :: log

namespace Session

def issue (id : ReqId) (requestId : String) (log : List (Event ReqId String)) :
    List (Event ReqId String) :=
  if IsTracked id then .issue id requestId :: log else log

/-- What a frame adds to the history: the request it settles, and the end of the connection. -/
def answered (m m' : TcpMgr) (id : ReqId) (effect : Option Effect)
    (log : List (Event ReqId String)) : List (Event ReqId String) :=
  let log := match (TcpMgr.pairedRequest id).filter fun _ => effect.isSome with
    | some request => .settle request (((m.pending request).map requestId).getD "") :: log
    | none => log
  if m'.connectionGeneration = m.connectionGeneration then log else .reset :: log

/-- `createUuid` never repeats a `request_id`. -/
def next (compact : QJsonObject → ℕ) (s : Session) : Step → Option Session
  | .send id document size requestId ready written =>
    if requestId ∈ issued s.log then none
    else
      let result := s.mgr.slotSendData compact id document size requestId ready written
      some ⟨result.1, match result.2 with
        | .refused => failed id s.log
        | .queued => issue id requestId s.log
        | .unwritten => failed id (issue id requestId s.log)⟩
  | .cancel request => some ⟨s.mgr.cancelRequest request, .close request :: s.log⟩
  | .timeout request =>
    if s.mgr.timers request then some ⟨s.mgr.failRequest request, failed request s.log⟩ else none
  | .fail request => some ⟨s.mgr.failRequest request, failed request s.log⟩
  | .frame id document =>
    let result := s.mgr.handleMsg id document
    some ⟨result.1, answered s.mgr result.1 id result.2 s.log⟩
  | .reset => some ⟨s.mgr.resetConnectionState, .reset :: s.log⟩

def machine (compact : QJsonObject → ℕ) : Machine Session Step :=
  .ofFn (fun s => s = ⟨{}, []⟩) (next compact)

/-- The pending requests are the tickets that count, and each has a running timer. -/
structure Paired (m : TcpMgr) (log : List (Event ReqId String)) : Prop where
  proper : Proper log
  pending : ∀ k, (m.pending k).map requestId = outstanding log k
  timers : ∀ k, m.timers k = (m.pending k).isSome
  tracked : ∀ k, ¬ IsTracked k → m.pending k = none

variable {m m' : TcpMgr} {log : List (Event ReqId String)} {k request : ReqId} {r : String}

theorem paired_start : Paired {} [] := ⟨trivial, fun _ => rfl, fun _ => rfl, fun _ _ => rfl⟩

theorem Paired.reset (h : Paired m log) : Paired m.resetConnectionState (.reset :: log) :=
  ⟨h.proper, fun _ => rfl, fun _ => rfl, fun _ _ => rfl⟩

theorem Paired.stop (h : Paired m log) (request : ReqId) :
    Paired (m.stopRequestTimer request) (.close request :: log) where
  proper := h.proper
  pending k := by
    unfold outstanding TcpMgr.stopRequestTimer
    dsimp only
    by_cases hk : request = k
    · rw [if_pos hk, hk, Function.update_self]
      rfl
    · rw [if_neg hk, Function.update_of_ne (Ne.symm hk)]
      exact h.pending k
  timers k := by
    unfold TcpMgr.stopRequestTimer
    dsimp only
    by_cases hk : k = request
    · rw [hk, Function.update_self, Function.update_self]
      rfl
    · rw [Function.update_of_ne hk, Function.update_of_ne hk]
      exact h.timers k
  tracked k hk := by
    unfold TcpMgr.stopRequestTimer
    dsimp only
    by_cases hr : k = request
    · rw [hr, Function.update_self]
    · rw [Function.update_of_ne hr]
      exact h.tracked k hk

/-- A settled request is forgotten as a cancelled one is. -/
theorem Paired.settle (h : Paired m log) (hr : outstanding log request = some r) :
    Paired (m.stopRequestTimer request) (.settle request r :: log) where
  proper := ⟨hr, h.proper⟩
  pending := (h.stop request).pending
  timers := (h.stop request).timers
  tracked := (h.stop request).tracked

theorem Paired.fail (h : Paired m log) (request : ReqId) :
    Paired (m.failRequest request) (failed request log) := by
  unfold TcpMgr.failRequest failed
  dsimp only
  split
  · exact (h.stop request).reset
  · exact h.stop request

theorem requestId_prepare (id : ReqId) (o : QJsonObject) (r : String) :
    requestId (TcpMgr.prepare id o r) = r := by
  unfold requestId TcpMgr.prepare
  rw [QJsonObject.value_insert]
  rfl

/-- The request that was sent becomes the one whose answer is awaited. -/
theorem Paired.issue (h : Paired m log) (hr : r ∉ issued log) (hk : IsTracked request)
    (o : QJsonObject) :
    Paired ((m.await request (TcpMgr.prepare request o r)).startRequestTimer request)
      (.issue request r :: log) := by
  unfold TcpMgr.startRequestTimer TcpMgr.await
  rw [if_pos hk]
  refine ⟨⟨hr, h.proper⟩, fun k => ?_, fun k => ?_, fun k htracked => ?_⟩
  · unfold outstanding
    dsimp only
    by_cases hkr : request = k
    · rw [if_pos hkr, hkr, Function.update_self, Option.map_some, requestId_prepare]
    · rw [if_neg hkr, Function.update_of_ne (Ne.symm hkr)]
      exact h.pending k
  · dsimp only
    by_cases hkr : k = request
    · rw [hkr, Function.update_self, Function.update_self]
      rfl
    · rw [Function.update_of_ne hkr, Function.update_of_ne hkr]
      exact h.timers k
  · dsimp only
    rw [Function.update_of_ne fun he : k = request => htracked (he ▸ hk)]
    exact h.tracked k htracked

theorem Paired.send (h : Paired m log) {compact : QJsonObject → ℕ} {document : Document}
    {size : ℕ} {ready written : Bool} (hr : r ∉ issued log) :
    Paired (m.slotSendData compact request document size r ready written).1
      (match (m.slotSendData compact request document size r ready written).2 with
        | .refused => failed request log
        | .queued => Session.issue request r log
        | .unwritten => failed request (Session.issue request r log)) := by
  have hissue : Paired ((if IsTracked request then
      m.await request (TcpMgr.prepare request document.toObject r) else m).startRequestTimer request)
      (Session.issue request r log) := by
    unfold Session.issue
    by_cases hk : IsTracked request
    · rw [if_pos hk, if_pos hk]
      exact h.issue hr hk _
    · rw [if_neg hk, if_neg hk]
      unfold TcpMgr.startRequestTimer
      rw [if_neg hk]
      exact h
  unfold TcpMgr.slotSendData
  dsimp only
  generalize (if IsTracked request then m.await request
    (TcpMgr.prepare request document.toObject r) else m).startRequestTimer request = queued at hissue ⊢
  generalize (if IsTracked request then compact (TcpMgr.prepare request document.toObject r)
    else size) = length
  generalize (if request = idUpdateProfileReq then 16000 else 2048) = maxBody
  split
  · exact h.fail request
  split
  · exact h.fail request
  cases written with
  | true => exact hissue
  | false => exact hissue.fail request

/-! ## Frames -/

theorem mem_handled_of_request {id : ReqId} (h : requestForResponse id = some k) :
    id ∈ handled := by
  have hall : ∀ p ∈ responses, p.1 ∈ handled := by decide
  obtain ⟨p, hp, -⟩ := Option.map_eq_some_iff.mp h
  have hid : p.1 = id := by simpa using List.find?_some hp
  exact hid ▸ hall p (List.mem_of_find?_eq_some hp)

/-- Every response to a request sets something off. -/
theorem dispatch_isSome {id : ReqId} {document : Document} (h : requestForResponse id = some k) :
    (m.dispatch id document).2.isSome := by
  unfold TcpMgr.dispatch
  simp only [h]
  split
  · split_ifs <;> rfl
  · unfold TcpMgr.callHandler
    rw [if_neg (not_not.mpr (mem_handled_of_request h))]
    split_ifs <;> rfl

/-- The end of `handleMsg` keeps the pending requests, forgets the one of the frame's kind, or
ends the connection. -/
theorem dispatch_paired {id : ReqId} {document : Document} (h : Paired m log)
    (hid : ∀ k, requestForResponse id = some k → m.pending k = none) :
    Paired (m.dispatch id document).1
      (if (m.dispatch id document).1.connectionGeneration = m.connectionGeneration then log
        else .reset :: log) := by
  have hclosed : Paired m.closeConnection
      (if m.closeConnection.connectionGeneration = m.connectionGeneration then log
        else .reset :: log) := by
    have hne : m.closeConnection.connectionGeneration ≠ m.connectionGeneration :=
      Nat.succ_ne_self m.connectionGeneration
    rw [if_neg hne]
    exact h.reset
  have hsame : Paired m (if m.connectionGeneration = m.connectionGeneration then log
      else .reset :: log) := by
    rw [if_pos rfl]
    exact h
  have hfail : ∀ k, requestForResponse id = some k → k ≠ idChatLogin → Paired (m.failRequest k)
      (if (m.failRequest k).connectionGeneration = m.connectionGeneration then log
        else .reset :: log) := by
    intro k hk hne
    have hnone := hid k hk
    have hstop := h.stop k
    unfold TcpMgr.failRequest
    dsimp only
    have hsameGeneration : (m.stopRequestTimer k).connectionGeneration = m.connectionGeneration := rfl
    rw [if_neg hne, if_pos hsameGeneration]
    refine ⟨h.proper, fun k' => ?_, hstop.timers, hstop.tracked⟩
    rw [hstop.pending, outstanding]
    split
    next he =>
      rw [← h.pending k', ← he, hnone]
      rfl
    next => rfl
  unfold TcpMgr.dispatch
  dsimp only
  split
  · split
    · exact hclosed
    split
    · exact hclosed
    next hlogin =>
      split
      · exact hsame
      split
      · exact hsame
      split
      · exact hsame
      split
      · exact hsame
      split
      next k hk =>
        refine hfail k hk fun he => hlogin ?_
        rw [hk, he]
      next => exact hsame
  · unfold TcpMgr.callHandler
    split
    · exact hsame
    split
    · split
      · exact hclosed
      · dsimp only
        rw [if_pos rfl]
        exact ⟨h.proper, h.pending, h.timers, h.tracked⟩
    split
    · exact hclosed
    · exact hsame

theorem pairedRequest_eq_some {id : ReqId} : TcpMgr.pairedRequest id = some k ↔
    requestForResponse id = some k ∧ k ≠ idTextChatMsgReq := by
  simp [TcpMgr.pairedRequest, Option.filter_eq_some_iff]

/-- Everything a frame of a paired kind can do. -/
theorem handleMsg_cases {id : ReqId} {document : Document} (hk : TcpMgr.pairedRequest id = some k) :
    m.handleMsg id document = (m, none) ∨
    ∃ p, m.pending k = some p ∧ m.Matches k document.toObject p ∧
      m.handleMsg id document = (m.stopRequestTimer k).dispatch id document ∧
      (m.handleMsg id document).2.isSome := by
  have hvoice : ¬ (id = idVoiceEvent ∨ id = idVoiceAudio ∨ id = idVideoImage) := by
    rintro (rfl | rfl | rfl) <;> cases hk
  unfold TcpMgr.handleMsg
  rw [if_neg hvoice, hk]
  dsimp only
  cases hp : m.pending k with
  | none => exact .inl rfl
  | some p =>
    dsimp only
    split
    next hmatch =>
      exact .inr ⟨p, rfl, hmatch, rfl, dispatch_isSome (pairedRequest_eq_some.mp hk).1⟩
    next => exact .inl rfl

theorem Paired.frame (h : Paired m log) (id : ReqId) (document : Document) :
    Paired (m.handleMsg id document).1
      (answered m (m.handleMsg id document).1 id (m.handleMsg id document).2 log) := by
  unfold answered
  cases hk : TcpMgr.pairedRequest id with
  | some k =>
    rcases @handleMsg_cases m _ _ document hk with hdrop | ⟨p, hp, -, heq, hsome⟩
    · rw [hdrop]
      simpa using h
    · have hout : outstanding log k = some (requestId p) := by
        rw [← h.pending k, hp]
        rfl
      simp only [hsome, hp, Option.filter_some, if_true, Option.map_some, Option.getD_some]
      rw [heq]
      refine dispatch_paired (h.settle hout) fun k' hk' => ?_
      rw [(pairedRequest_eq_some.mp hk).1] at hk'
      cases hk'
      exact Function.update_self ..
  | none =>
    simp only [Option.filter_none]
    unfold TcpMgr.handleMsg
    split
    · split <;> simpa using h
    · rw [hk]
      refine dispatch_paired h fun k hrequest => h.tracked k ?_
      have htext : k = idTextChatMsgReq := by
        by_contra hne
        rw [pairedRequest_eq_some.mpr ⟨hrequest, hne⟩] at hk
        cases hk
      rw [htext]
      decide

theorem paired_invariant (compact : QJsonObject → ℕ) :
    (machine compact).Invariant fun s => Paired s.mgr s.log where
  init := by
    rintro s rfl
    exact paired_start
  step := by
    rintro s step s' - h hstep
    cases step with
    | send id document size requestId ready written =>
      change (if requestId ∈ issued s.log then none else _) = some s' at hstep
      split at hstep
      · cases hstep
      next hr =>
        cases hstep
        exact h.send hr
    | cancel request =>
      cases hstep
      exact h.stop request
    | timeout request =>
      change (if s.mgr.timers request then _ else none) = some s' at hstep
      split at hstep
      · cases hstep
        exact h.fail request
      · cases hstep
    | fail request =>
      cases hstep
      exact h.fail request
    | frame id document =>
      cases hstep
      exact h.frame id document
    | reset =>
      cases hstep
      exact h.reset

/-! ## Every run -/

/-- What holds of the frames that may come next. -/
structure Matched (compact : QJsonObject → ℕ) (s : Session) : Prop where
  /-- Under correlation a response that sets something off carries the `request_id` of the
  latest request of its kind on this connection, that nothing ended and no answer settled. -/
  own : ∀ id document k, TcpMgr.pairedRequest id = some k → s.mgr.requestCorrelation →
    (s.mgr.handleMsg id document).2.isSome → ∃ r later earlier,
      document.toObject.value "request_id" = some (.str r) ∧
      s.log = later ++ .issue k r :: earlier ∧ (∀ e ∈ later, ¬ e.Ends k) ∧
      r ∉ issued later ∧ r ∉ issued earlier ∧ r ∉ settled s.log
  /-- Each response that sets something off is recorded, and no request is answered twice. -/
  recorded : ∀ id document k s', TcpMgr.pairedRequest id = some k → s.mgr.requestCorrelation →
    s.next compact (.frame id document) = some s' → (s.mgr.handleMsg id document).2.isSome →
      ∃ r, document.toObject.value "request_id" = some (.str r) ∧
        settled s'.log = r :: settled s.log
  once : (settled s.log).Nodup
  /-- Every awaited request has a running timer. -/
  timed : ∀ k, s.mgr.timers k = (outstanding s.log k).isSome

theorem own_requestId {id : ReqId} {document : Document} (hk : TcpMgr.pairedRequest id = some k)
    (hcorr : m.requestCorrelation) (hsome : (m.handleMsg id document).2.isSome) :
    ∃ p, m.pending k = some p ∧ document.toObject.value "request_id" = some (.str (requestId p)) := by
  rcases @handleMsg_cases m _ _ document hk with hdrop | ⟨p, hp, hmatch, -, -⟩
  · rw [hdrop] at hsome
    cases hsome
  · refine ⟨p, hp, ?_⟩
    obtain ⟨-, hstring, heq⟩ | ⟨-, hnot, -⟩ := hmatch.1
    · unfold requestId
      rw [← heq]
      cases hv : document.toObject.value "request_id" with
      | none =>
        rw [hv] at hstring
        cases hstring
      | some v =>
        rw [hv] at hstring
        cases v <;> first | rfl | cases hstring
    · exact absurd hcorr hnot

theorem responses_matched (compact : QJsonObject → ℕ) {s : Session}
    (hs : (machine compact).Reachable s) : Matched compact s := by
  have h := (paired_invariant compact).reachable hs
  refine ⟨fun id document k hk hcorr hsome => ?_, fun id document k s' hk hcorr hnext hsome => ?_,
    h.proper.nodup_settled, fun k => ?_⟩
  · obtain ⟨p, hp, hid⟩ := own_requestId hk hcorr hsome
    have hout : outstanding s.log k = some (requestId p) := by
      rw [← h.pending k, hp]
      rfl
    obtain ⟨later, earlier, hlog, hlater⟩ := outstanding_eq_some.mp hout
    have hfresh := h.proper.nodup_issued
    rw [hlog, issued_append] at hfresh
    obtain ⟨-, hcons, hdisjoint⟩ := List.nodup_append.mp hfresh
    exact ⟨requestId p, later, earlier, hid, hlog, hlater,
      fun hmem => hdisjoint _ hmem _ List.mem_cons_self rfl, (List.nodup_cons.mp hcons).1,
      h.proper.not_settled hout⟩
  · obtain ⟨p, hp, hid⟩ := own_requestId hk hcorr hsome
    refine ⟨requestId p, hid, ?_⟩
    obtain rfl := Option.some_inj.mp hnext
    simp only [answered, hk, hsome, hp, Option.filter_some, if_true, Option.map_some,
      Option.getD_some]
    split <;> rfl
  · rw [h.timers, ← h.pending]
    cases s.mgr.pending k <;> rfl

/-! ## A retry while the first answer is on the wire -/

def loginReply : Document :=
  .object [("error", .num 0), ("uid", .num 7), ("request_correlation", .bool true),
    ("request_id", .str "r1")]

def historyReply (requestId : String) : Document :=
  .object [("error", .num 0), ("thread_id", .num 5), ("request_id", .str requestId)]

def retrySteps : List Step :=
  [.send idChatLogin (.object []) 0 "r1" true true, .frame idChatLoginRsp loginReply,
    .send idLoadChatMsgReq (.object [("thread_id", .num 5)]) 0 "r2" true true,
    .timeout idLoadChatMsgReq,
    .send idLoadChatMsgReq (.object [("thread_id", .num 5)]) 0 "r3" true true]

/-- The late answer is dropped and the retry's own answer is handled. -/
theorem responses_matched_sample :
    ((Machine.runFn (next fun _ => 10) ⟨{}, []⟩ retrySteps).map fun s =>
      ((s.mgr.handleMsg idLoadChatMsgRsp (historyReply "r2")).2.isSome,
        (s.mgr.handleMsg idLoadChatMsgRsp (historyReply "r3")).2.isSome)) = some (false, true) ∧
    ∀ s, Machine.runFn (next fun _ => 10) ⟨{}, []⟩ retrySteps = some s →
      Matched (fun _ => 10) s :=
  ⟨by decide, fun _ hs => responses_matched _ (Machine.Reachable.runFn (.init rfl) hs)⟩

end Session
end CppChat.Tcp
