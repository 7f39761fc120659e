import CppChat.Heartbeat.Client

/-! # What the answer to a heartbeat removes

The object of a friend tells whether he left the list since the heartbeat was sent, not whether
he was added again: who was never removed keeps his object. So an answer is right exactly when
it has everybody who was added again while he was still in the list.
-/
namespace CppChat.Heartbeat
open Foundation

/-! ## The list -/

namespace Client

/-- The users of a list differ, and their objects were made. -/
structure Wf (c : Client) : Prop where
  unique : c.friends.Nodup
  objects : ∀ user ∈ c.friendList, user.object < c.objects
  pos : ∀ user ∈ c.friendList, 0 < user.uid
  snapshot : ∀ uid object, c.heartbeatFriends uid = some object → object < c.objects

variable {c : Client} {uid : ℕ} {response : Response}

theorem mem_friends : uid ∈ c.friends ↔ ∃ user ∈ c.friendList, user.uid = uid := List.mem_map

theorem find?_uid (hc : c.Wf) {user : UserInfo} (h : user ∈ c.friendList) :
    (c.friendList.find? fun other => other.uid = user.uid) = some user := by
  have hunique := List.pairwise_map.mp hc.unique
  obtain ⟨before, after, hlist⟩ := List.append_of_mem h
  rw [hlist] at hunique
  rw [hlist, List.find?_append, List.find?_eq_none.mpr, Option.none_or, List.find?_cons_of_pos]
  · simp
  · intro other hother
    simpa using (List.pairwise_append.mp hunique).2.2 other hother user List.mem_cons_self

/-- An added friend is in the list already, or a new object of it. -/
theorem addFriend_cases (c : Client) (uid : ℕ) (addToFront : Bool) :
    (c.addFriend uid addToFront = { c with objects := c.objects + 1 } ∧
        (uid = 0 ∨ uid ∈ c.friends)) ∨
      ∃ list, c.addFriend uid addToFront =
          { c with objects := c.objects + 1, friendList := list } ∧
        list.Perm (⟨uid, c.objects⟩ :: c.friendList) ∧ 0 < uid ∧ uid ∉ c.friends := by
  unfold addFriend
  by_cases h : uid = 0 ∨ uid ∈ c.friends
  · exact .inl ⟨if_pos h, h⟩
  · have hnew := not_or.mp h
    rw [if_neg h]
    cases addToFront with
    | true => exact .inr ⟨_, rfl, List.Perm.refl _, Nat.pos_of_ne_zero hnew.1, hnew.2⟩
    | false =>
      exact .inr ⟨_, rfl, List.perm_append_comm, Nat.pos_of_ne_zero hnew.1, hnew.2⟩

theorem Wf.more (hc : c.Wf) : ({ c with objects := c.objects + 1 } : Client).Wf where
  unique := hc.unique
  objects user h := Nat.lt_succ_of_lt (hc.objects user h)
  pos := hc.pos
  snapshot uid object h := Nat.lt_succ_of_lt (hc.snapshot uid object h)

theorem Wf.addFriend (hc : c.Wf) (uid : ℕ) (addToFront : Bool) :
    (c.addFriend uid addToFront).Wf := by
  obtain ⟨heq, -⟩ | ⟨list, heq, hperm, hpos, hnew⟩ := c.addFriend_cases uid addToFront
  · rw [heq]
    exact hc.more
  · rw [heq]
    refine ⟨?_, ?_, ?_, hc.more.snapshot⟩
    · exact (hperm.map UserInfo.uid).nodup_iff.mpr (List.nodup_cons.mpr ⟨hnew, hc.unique⟩)
    · intro user h
      rcases List.mem_cons.mp (hperm.mem_iff.mp h) with rfl | h
      · exact Nat.lt_succ_self _
      · exact hc.more.objects user h
    · intro user h
      rcases List.mem_cons.mp (hperm.mem_iff.mp h) with rfl | h
      · exact hpos
      · exact hc.pos user h

theorem Wf.filter (hc : c.Wf) (p : UserInfo → Bool) :
    ({ c with friendList := c.friendList.filter p } : Client).Wf where
  unique := hc.unique.sublist (List.filter_sublist.map _)
  objects user h := hc.objects user (List.mem_of_mem_filter h)
  pos user h := hc.pos user (List.mem_of_mem_filter h)
  snapshot := hc.snapshot

theorem foldl_removeFriend (l : List ℕ) (c : Client) : l.foldl removeFriend c =
    { c with friendList := c.friendList.filter fun user => user.uid ∉ l } := by
  induction l generalizing c with
  | nil => simp
  | cons uid l ih =>
    rw [List.foldl_cons, ih]
    simp only [removeFriend, List.filter_filter, List.mem_cons, not_or]
    congr 2
    funext user
    simp [Bool.and_comm]

theorem Wf.login (hc : c.Wf) (l : List ℕ) : (c.login l).Wf := by
  have hstart : ({ c with loggedIn := true, friendList := [] } : Client).Wf :=
    ⟨List.nodup_nil, nofun, nofun, hc.snapshot⟩
  unfold Client.login
  revert hstart
  generalize ({ c with loggedIn := true, friendList := [] } : Client) = c'
  induction l generalizing c' with
  | nil => exact id
  | cons uid l ih => exact fun h => ih _ (h.addFriend uid false)

@[simp] theorem addFriend_heartbeatSnapshotId (c : Client) (uid : ℕ) (addToFront : Bool) :
    (c.addFriend uid addToFront).heartbeatSnapshotId = c.heartbeatSnapshotId := by
  obtain ⟨h, -⟩ | ⟨list, h, -⟩ := c.addFriend_cases uid addToFront <;> rw [h]

@[simp] theorem addFriend_loggedIn (c : Client) (uid : ℕ) (addToFront : Bool) :
    (c.addFriend uid addToFront).loggedIn = c.loggedIn := by
  obtain ⟨h, -⟩ | ⟨list, h, -⟩ := c.addFriend_cases uid addToFront <;> rw [h]

@[simp] theorem login_loggedIn (c : Client) (l : List ℕ) : (c.login l).loggedIn = true := by
  unfold Client.login
  generalize hc : ({ c with loggedIn := true, friendList := [] } : Client) = c'
  have hin : c'.loggedIn = true := by rw [← hc]
  clear hc
  induction l generalizing c' with
  | nil => exact hin
  | cons uid l ih => exact ih _ (by rw [addFriend_loggedIn, hin])

@[simp] theorem login_heartbeatSnapshotId (c : Client) (l : List ℕ) :
    (c.login l).heartbeatSnapshotId = c.heartbeatSnapshotId := by
  unfold Client.login
  generalize hc : ({ c with loggedIn := true, friendList := [] } : Client) = c'
  have hid : c'.heartbeatSnapshotId = c.heartbeatSnapshotId := by rw [← hc]
  clear hc
  induction l generalizing c' with
  | nil => exact hid
  | cons uid l ih => exact ih _ (by rw [addFriend_heartbeatSnapshotId, hid])

theorem mem_removed : uid ∈ c.removed response ↔ ∃ ids, response.friendIds = some ids ∧
    c.heartbeatSnapshotId ≠ 0 ∧ response.friendSnapshotId = some c.heartbeatSnapshotId ∧
    ∃ user ∈ c.friendList, user.uid = uid ∧ uid ∉ ids ∧
      c.heartbeatFriends uid = some user.object := by
  have hid : ¬ (c.heartbeatSnapshotId = 0 ∨
      response.friendSnapshotId.getD 0 ≠ c.heartbeatSnapshotId) ↔
      c.heartbeatSnapshotId ≠ 0 ∧ response.friendSnapshotId = some c.heartbeatSnapshotId := by
    cases response.friendSnapshotId with
    | none => simp [eq_comm]
    | some id => simp
  unfold removed
  cases response.friendIds with
  | none => simp
  | some ids =>
    dsimp only
    split
    next h =>
      refine iff_of_false (List.not_mem_nil) ?_
      rintro ⟨ids, -, hne, heq, -⟩
      exact hid.mpr ⟨hne, heq⟩ h
    next h =>
      obtain ⟨hne, heq⟩ := hid.mp h
      simp only [List.mem_map, List.mem_filter, decide_eq_true_eq]
      constructor
      · rintro ⟨user, ⟨huser, hids, hobject⟩, rfl⟩
        exact ⟨ids, rfl, hne, heq, user, huser, rfl, hids, hobject⟩
      · rintro ⟨ids', hids', -, -, user, huser, rfl, hmissing, hobject⟩
        obtain rfl := Option.some_inj.mp hids'
        exact ⟨user, ⟨huser, hmissing, hobject⟩, rfl⟩

/-- An answer removes who is missing there and has the object of the sending. -/
theorem mem_friends_heartbeatRsp : uid ∈ (c.heartbeatRsp response).friends ↔
    uid ∈ c.friends ∧ uid ∉ c.removed response := by
  simp only [heartbeatRsp, foldl_removeFriend, mem_friends, List.mem_filter, decide_eq_true_eq]
  constructor
  · rintro ⟨user, ⟨huser, hkept⟩, rfl⟩
    exact ⟨⟨user, huser, rfl⟩, hkept⟩
  · rintro ⟨⟨user, huser, rfl⟩, hkept⟩
    exact ⟨user, ⟨huser, hkept⟩, rfl⟩

theorem friends_heartbeatRsp (h : c.removed response = []) :
    (c.heartbeatRsp response).friends = c.friends := by
  simp only [heartbeatRsp, h, List.foldl_nil]

end Client

/-! ## What was processed since the sending -/

namespace World

/-- How the list stands to the friends at the sending of the last heartbeat: who was not removed is
there with his object, and who has another object was added. -/
structure Since (c : Client) (listed : List ℕ) (since : List Change) : Prop where
  present : ∀ uid ∈ listed, .removed uid ∉ since → uid ∈ c.friends
  kept : ∀ user ∈ c.friendList, c.heartbeatFriends user.uid = some user.object ↔
    user.uid ∈ listed ∧ .removed user.uid ∉ since
  added : ∀ user ∈ c.friendList, .added user.uid ∉ since →
    c.heartbeatFriends user.uid = some user.object

variable {c : Client} {listed : List ℕ} {since : List Change} {uid : ℕ}

theorem since_sendHeartbeat (hc : c.Wf) : Since c.sendHeartbeat.1 c.friends [] := by
  have hfind : ∀ user ∈ c.friendList,
      c.sendHeartbeat.1.heartbeatFriends user.uid = some user.object := by
    intro user h
    simp only [Client.sendHeartbeat, Client.find?_uid hc h, Option.map_some]
  refine ⟨fun uid h _ => h, fun user h => ?_, fun user h _ => hfind user h⟩
  exact iff_of_true (hfind user h) ⟨Client.mem_friends.mpr ⟨user, h, rfl⟩, List.not_mem_nil⟩

theorem Since.remove (h : Since c listed since) (l : List ℕ) :
    Since { c with friendList := c.friendList.filter fun user => user.uid ∉ l } listed
      (since ++ l.map .removed) := by
  refine ⟨fun uid hlisted hremoved => ?_, fun user huser => ?_, fun user huser hadded => ?_⟩
  · simp only [List.mem_append, List.mem_map, Change.removed.injEq, exists_eq_right,
      not_or] at hremoved
    obtain ⟨user, huser, rfl⟩ := Client.mem_friends.mp (h.present uid hlisted hremoved.1)
    exact Client.mem_friends.mpr ⟨user, by simp [huser, hremoved.2], rfl⟩
  · obtain ⟨huser, hl⟩ := List.mem_filter.mp huser
    simp only [decide_eq_true_eq] at hl
    rw [h.kept user huser]
    simp [hl]
  · obtain ⟨huser, -⟩ := List.mem_filter.mp huser
    exact h.added user huser fun hmem => hadded (List.mem_append_left _ hmem)

theorem Since.add (h : Since c listed since) (hc : c.Wf) (uid : ℕ) (addToFront : Bool) :
    Since (c.addFriend uid addToFront) listed (since ++ [.added uid]) := by
  have hsame : ∀ other, Change.removed other ∈ since ++ [Change.added uid] ↔
      Change.removed other ∈ since := by
    intro other
    simp
  obtain ⟨heq, -⟩ | ⟨list, heq, hperm, -, hnew⟩ := c.addFriend_cases uid addToFront
  · rw [heq]
    refine ⟨fun other hlisted hremoved => ?_, fun user huser => ?_, fun user huser hadded => ?_⟩
    · exact h.present other hlisted fun hmem => hremoved ((hsame other).mpr hmem)
    · rw [hsame]
      exact h.kept user huser
    · exact h.added user huser fun hmem => hadded (List.mem_append_left _ hmem)
  · rw [heq]
    refine ⟨fun other hlisted hremoved => ?_, fun user huser => ?_, fun user huser hadded => ?_⟩
    · have hmem := h.present other hlisted fun hmem => hremoved ((hsame other).mpr hmem)
      exact (hperm.map UserInfo.uid).mem_iff.mpr (List.mem_cons_of_mem _ hmem)
    · rw [hsame]
      rcases List.mem_cons.mp (hperm.mem_iff.mp huser) with rfl | huser
      · refine iff_of_false (fun hobject => ?_) fun hkept => hnew (h.present _ hkept.1 hkept.2)
        exact lt_irrefl _ (hc.snapshot _ _ hobject)
      · exact h.kept user huser
    · rcases List.mem_cons.mp (hperm.mem_iff.mp huser) with rfl | huser
      · exact absurd (List.mem_append_right _ List.mem_cons_self) hadded
      · exact h.added user huser fun hmem => hadded (List.mem_append_left _ hmem)

/-- An invariant of every run. -/
structure Inv (w : World) : Prop where
  wf : w.client.Wf
  start : w.client.loggedIn = false → w.client.heartbeatSnapshotId = 0
  since : w.client.heartbeatSnapshotId ≠ 0 → Since w.client w.listed w.since

variable {w w' : World}

theorem Inv.receive (h : Inv w) (frame : Frame) : Inv (w.receive frame) := by
  have hremove : ∀ l : List ℕ, Inv { w with
      client := { w.client with friendList := w.client.friendList.filter fun user => user.uid ∉ l }
      since := w.since ++ l.map .removed } := fun l =>
    ⟨h.wf.filter _, h.start, fun hid => (h.since hid).remove l⟩
  cases frame with
  | deleteFriend uid =>
    have hclient : (if 0 < uid then w.client.removeFriend uid else w.client) =
        { w.client with
          friendList := w.client.friendList.filter fun user => user.uid ∉ [uid] } := by
      simp only [Client.removeFriend, List.mem_singleton]
      split
      next => rfl
      next hzero =>
        rw [List.filter_eq_self.mpr]
        intro user huser
        have := h.wf.pos user huser
        simp only [decide_not, Bool.not_eq_true', decide_eq_false_iff_not]
        omega
    rw [World.receive, hclient]
    exact hremove [uid]
  | authFriend uid =>
    refine ⟨h.wf.addFriend uid true, fun hout => ?_, fun hid => ?_⟩
    · rw [World.receive, Client.addFriend_loggedIn] at hout
      rw [World.receive, Client.addFriend_heartbeatSnapshotId]
      exact h.start hout
    · rw [World.receive, Client.addFriend_heartbeatSnapshotId] at hid
      exact (h.since hid).add h.wf uid true
  | heartbeat response =>
    have := hremove (w.client.removed response)
    rw [← Client.foldl_removeFriend] at this
    exact this

theorem inv_invariant (styled : Response → ℕ) (uid : ℕ) : (machine styled uid).Invariant Inv where
  init := by
    rintro w ⟨rows, rfl⟩
    exact ⟨⟨List.nodup_nil, nofun, nofun, nofun⟩, fun _ => rfl, fun h => absurd rfl h⟩
  step := by
    rintro w step w' - h hstep
    change next styled uid w step = some w' at hstep
    have hsame : ∀ v : World, v.client = w.client → v.listed = w.listed → v.since = w.since →
        Inv v := fun v hclient hlisted hsince =>
      ⟨hclient ▸ h.wf, hclient ▸ h.start, hclient ▸ hlisted ▸ hsince ▸ h.since⟩
    cases step with
    | login =>
      simp only [next, Option.ite_none_left_eq_some, Option.some.injEq] at hstep
      obtain ⟨hout, rfl⟩ := hstep
      refine ⟨h.wf.login _, fun hin => ?_, fun hid => absurd ?_ hid⟩
      · simp at hin
      · simpa using h.start (by simpa using hout)
    | close =>
      cases hstep
      exact ⟨⟨h.wf.unique, h.wf.objects, h.wf.pos, nofun⟩, fun _ => rfl, fun hid => absurd rfl hid⟩
    | timer =>
      simp only [next, Option.ite_none_right_eq_some, Option.some.injEq] at hstep
      obtain ⟨hin, rfl⟩ := hstep
      refine ⟨⟨h.wf.unique, h.wf.objects, h.wf.pos, fun uid object hobject => ?_⟩, fun hout => ?_,
        fun _ => since_sendHeartbeat h.wf⟩
      · obtain ⟨user, huser, rfl⟩ := Option.map_eq_some_iff.mp hobject
        exact h.wf.objects user (List.mem_of_find?_eq_some huser)
      · exact absurd (hout.symm.trans hin) (by decide)
    | handle =>
      simp only [next] at hstep
      cases hframes : w.frames with
      | nil =>
        rw [hframes] at hstep
        cases hstep
      | cons frame frames =>
        rw [hframes] at hstep
        cases hstep
        have := (hsame { w with frames } rfl rfl rfl).receive frame
        exact this
    | befriend friend =>
      simp only [next, Option.ite_none_left_eq_some, Option.some.injEq] at hstep
      obtain ⟨-, rfl⟩ := hstep
      exact hsame _ rfl rfl rfl
    | unfriend friend =>
      simp only [next, Option.ite_none_right_eq_some, Option.some.injEq] at hstep
      obtain ⟨-, rfl⟩ := hstep
      exact hsame _ rfl rfl rfl
    | send i | lose i | answer i readable | respond i =>
      simp only [next, Option.map_eq_some_iff] at hstep
      obtain ⟨item, -, rfl⟩ := hstep
      exact hsame _ rfl rfl rfl

/-- A heartbeat of this connection. -/
def Asked (w : World) (id : Option ℕ) : Prop :=
  ∃ i, id = some i ∧ 0 < i ∧ i ≤ w.client.heartbeatSnapshotId

/-- Only heartbeats of this connection are answered. -/
structure Answers (w : World) : Prop where
  start : w.client.loggedIn = false → w.requests = [] ∧ w.responses = [] ∧ w.frames = []
  requests : ∀ request ∈ w.requests, w.Asked request.friendSnapshotId
  responses : ∀ response ∈ w.responses, w.Asked response.friendSnapshotId
  frames : ∀ response, .heartbeat response ∈ w.frames → w.Asked response.friendSnapshotId

theorem heartBeatHandler_friendSnapshotId (styled : Response → ℕ) (uid : ℕ) (request : Request)
    (friendIds : Option (List ℕ)) :
    (heartBeatHandler styled uid (some request) friendIds).friendSnapshotId =
      request.friendSnapshotId := by
  simp only [heartBeatHandler, heartbeat]
  split <;> split <;> rfl

theorem receive_state (w : World) (frame : Frame) :
    (w.receive frame).client.loggedIn = w.client.loggedIn ∧
    (w.receive frame).client.heartbeatSnapshotId = w.client.heartbeatSnapshotId ∧
    (w.receive frame).requests = w.requests ∧ (w.receive frame).responses = w.responses ∧
    (w.receive frame).frames = w.frames := by
  cases frame with
  | deleteFriend uid =>
    by_cases h : 0 < uid <;> simp [receive, h, Client.removeFriend]
  | authFriend uid => simp [receive]
  | heartbeat response =>
    simp [receive, Client.heartbeatRsp, Client.foldl_removeFriend]

section
variable {styled : Response → ℕ} {uid : ℕ} {w w' : World}

theorem Answers.timer (h : w.Answers)
    (hstep : next styled uid w .timer = some w') : w'.Answers := by
  simp only [next, Option.ite_none_right_eq_some, Option.some.injEq] at hstep
  obtain ⟨hin, rfl⟩ := hstep
  have hmore : ∀ id, w.Asked id → ∃ i, id = some i ∧ 0 < i ∧
      i ≤ w.client.heartbeatSnapshotId + 1 := by
    rintro id ⟨i, rfl, hpos, hle⟩
    exact ⟨i, rfl, hpos, by omega⟩
  refine ⟨fun hout => absurd (hout.symm.trans hin) (by decide), fun request hrequest => ?_,
    fun response hresponse => hmore _ (h.responses response hresponse),
    fun response hresponse => hmore _ (h.frames response hresponse)⟩
  rcases List.mem_append.mp hrequest with hrequest | hnew
  · exact hmore _ (h.requests request hrequest)
  · obtain rfl := List.mem_singleton.mp hnew
    exact ⟨_, rfl, Nat.succ_pos _, le_rfl⟩

theorem Answers.send {i : ℕ} (h : w.Answers)
    (hstep : next styled uid w (.send i) = some w') : w'.Answers := by
  simp only [next, Option.map_eq_some_iff] at hstep
  obtain ⟨notice, -, rfl⟩ := hstep
  refine ⟨fun hout => ?_, h.requests, h.responses, fun response hresponse => ?_⟩
  · obtain ⟨hrequests, hresponses, hframes⟩ := h.start hout
    refine ⟨hrequests, hresponses, ?_⟩
    rw [hframes]
    exact if_neg (Bool.not_eq_true _ |>.mpr hout)
  · dsimp only at hresponse
    split at hresponse
    · rcases List.mem_append.mp hresponse with hresponse | hnotice
      · exact h.frames response hresponse
      · cases notice <;> cases List.mem_singleton.mp hnotice
    · exact h.frames response hresponse

theorem Answers.answer {i : ℕ} {readable : Bool} (h : w.Answers)
    (hstep : next styled uid w (.answer i readable) = some w') : w'.Answers := by
  simp only [next, Option.map_eq_some_iff] at hstep
  obtain ⟨request, hrequest, rfl⟩ := hstep
  have hmem := List.mem_of_getElem? hrequest
  refine ⟨fun hout => ?_, fun other hother =>
    h.requests other (List.mem_of_mem_eraseIdx hother), fun response hresponse => ?_, h.frames⟩
  · rw [(h.start hout).1] at hmem
    cases hmem
  · rcases List.mem_append.mp hresponse with hresponse | hnew
    · exact h.responses response hresponse
    · obtain rfl := List.mem_singleton.mp hnew
      rw [heartBeatHandler_friendSnapshotId]
      exact h.requests request hmem

theorem Answers.respond {i : ℕ} (h : w.Answers)
    (hstep : next styled uid w (.respond i) = some w') : w'.Answers := by
  simp only [next, Option.map_eq_some_iff] at hstep
  obtain ⟨response, hresponse, rfl⟩ := hstep
  have hmem := List.mem_of_getElem? hresponse
  refine ⟨fun hout => ?_, h.requests, fun other hother =>
    h.responses other (List.mem_of_mem_eraseIdx hother), fun other hother => ?_⟩
  · rw [(h.start hout).2.1] at hmem
    cases hmem
  · rcases List.mem_append.mp hother with hother | hnew
    · exact h.frames other hother
    · obtain rfl := Frame.heartbeat.inj (List.mem_singleton.mp hnew)
      exact h.responses other hmem

theorem Answers.handle (h : w.Answers)
    (hstep : next styled uid w .handle = some w') : w'.Answers := by
  simp only [next] at hstep
  cases hframes : w.frames with
  | nil =>
    rw [hframes] at hstep
    cases hstep
  | cons frame frames =>
    rw [hframes] at hstep
    cases hstep
    obtain ⟨hin, hid, hrequests, hresponses, hrest⟩ :=
      receive_state { w with frames } frame
    have hasked : ∀ id, (World.receive { w with frames } frame).Asked id ↔ w.Asked id := by
      intro id
      simp only [Asked, hid]
    refine ⟨fun hout => ?_, fun request hrequest => ?_, fun response hresponse => ?_,
      fun response hresponse => ?_⟩
    · have := (h.start (hin.symm.trans hout)).2.2
      rw [hframes] at this
      cases this
    · exact (hasked _).mpr (h.requests request (hrequests ▸ hrequest))
    · exact (hasked _).mpr (h.responses response (hresponses ▸ hresponse))
    · rw [hrest] at hresponse
      exact (hasked _).mpr (h.frames response (hframes ▸ List.mem_cons_of_mem _ hresponse))

end

theorem answers_invariant (styled : Response → ℕ) (uid : ℕ) :
    (machine styled uid).Invariant Answers where
  init := by
    rintro w ⟨rows, rfl⟩
    exact ⟨fun _ => ⟨rfl, rfl, rfl⟩, nofun, nofun, nofun⟩
  step := by
    rintro w step w' - h hstep
    change next styled uid w step = some w' at hstep
    cases step with
    | login =>
      simp only [next, Option.ite_none_left_eq_some, Option.some.injEq] at hstep
      obtain ⟨hout, rfl⟩ := hstep
      obtain ⟨hrequests, hresponses, hframes⟩ := h.start (by simpa using hout)
      refine ⟨fun hin => ?_, by simp [hrequests], by simp [hresponses], by simp [hframes]⟩
      simp at hin
    | close =>
      cases hstep
      exact ⟨fun _ => ⟨rfl, rfl, rfl⟩, nofun, nofun, nofun⟩
    | timer => exact h.timer hstep
    | befriend friend =>
      simp only [next, Option.ite_none_left_eq_some, Option.some.injEq] at hstep
      obtain ⟨-, rfl⟩ := hstep
      exact ⟨h.start, h.requests, h.responses, h.frames⟩
    | unfriend friend =>
      simp only [next, Option.ite_none_right_eq_some, Option.some.injEq] at hstep
      obtain ⟨-, rfl⟩ := hstep
      exact ⟨h.start, h.requests, h.responses, h.frames⟩
    | lose i =>
      simp only [next, Option.map_eq_some_iff] at hstep
      obtain ⟨notice, -, rfl⟩ := hstep
      exact ⟨h.start, h.requests, h.responses, h.frames⟩
    | send i => exact h.send hstep
    | answer i readable => exact h.answer hstep
    | respond i => exact h.respond hstep
    | handle => exact h.handle hstep

/-! ## Right answers -/

/-- An answer is to the last heartbeat. -/
def Current (w : World) (response : Response) : Prop :=
  response.friendSnapshotId = some w.client.heartbeatSnapshotId

/-- What a client should do with an answer: keep who was added since the sending, remove who was
there and is missing, and remove nobody for an older answer or one without friends. -/
structure Right (w : World) (response : Response) (after : Client) : Prop where
  added : ∀ uid ∈ w.client.friends, .added uid ∈ w.since → uid ∈ after.friends
  missing : ∀ ids, response.friendIds = some ids → w.Current response →
    ∀ uid ∈ w.listed, uid ∉ ids → .added uid ∉ w.since → uid ∉ after.friends
  others : response.friendIds = none ∨ ¬ w.Current response →
    after.friends = w.client.friends

/-- Who was in the list at the sending, stayed there and was added again is in the answer. -/
def Covered (w : World) (response : Response) : Prop :=
  w.Current response → ∀ ids, response.friendIds = some ids →
    ∀ uid ∈ w.listed, .removed uid ∉ w.since → .added uid ∈ w.since → uid ∈ ids

theorem Inv.right_iff (h : Inv w) {response : Response} (hid : w.client.heartbeatSnapshotId ≠ 0) :
    w.Right response (w.client.heartbeatRsp response) ↔ w.Covered response := by
  have hsince := h.since hid
  constructor
  · intro hright hcurrent ids hids uid hlisted hstayed hadded
    by_contra hmissing
    have hmem := hsince.present uid hlisted hstayed
    obtain ⟨user, huser, rfl⟩ := Client.mem_friends.mp hmem
    apply (Client.mem_friends_heartbeatRsp.mp (hright.added _ hmem hadded)).2
    apply Client.mem_removed.mpr
    exact ⟨ids, hids, hid, hcurrent, user, huser, rfl, hmissing,
      (hsince.kept user huser).mpr ⟨hlisted, hstayed⟩⟩
  · intro hcovered
    refine ⟨fun uid hmem hadded => ?_, fun ids hids hcurrent uid hlisted hmissing hadded => ?_,
      fun hother => Client.friends_heartbeatRsp ?_⟩
    · refine Client.mem_friends_heartbeatRsp.mpr ⟨hmem, fun hremoved => ?_⟩
      obtain ⟨ids, hids, -, hcurrent, user, huser, rfl, hmissing, hobject⟩ :=
        Client.mem_removed.mp hremoved
      obtain ⟨hlisted, hstayed⟩ := (hsince.kept user huser).mp hobject
      exact hmissing (hcovered hcurrent ids hids _ hlisted hstayed hadded)
    · intro hmem
      obtain ⟨hmem, hkept⟩ := Client.mem_friends_heartbeatRsp.mp hmem
      obtain ⟨user, huser, rfl⟩ := Client.mem_friends.mp hmem
      apply hkept
      apply Client.mem_removed.mpr
      exact ⟨ids, hids, hid, hcurrent, user, huser, rfl, hmissing,
        hsince.added user huser hadded⟩
    · apply List.eq_nil_iff_forall_not_mem.mpr
      intro uid hremoved
      obtain ⟨ids, hids, -, hcurrent, -⟩ := Client.mem_removed.mp hremoved
      rcases hother with hnone | hold
      · rw [hids] at hnone
        cases hnone
      · exact hold hcurrent

variable {styled : Response → ℕ} {user : ℕ} {response : Response} {frames : List Frame}

/-- In every run an answer is right exactly when it has who was added again and had never left. -/
theorem reconciles_iff (h : (machine styled user).Reachable w)
    (hframes : w.frames = .heartbeat response :: frames)
    (hstep : next styled user w .handle = some w') :
    w.Right response w'.client ↔ w.Covered response := by
  simp only [next, hframes, Option.some.injEq] at hstep
  obtain ⟨i, -, hpos, hle⟩ := ((answers_invariant styled user).reachable h).frames response
    (hframes ▸ List.mem_cons_self)
  have hid : w.client.heartbeatSnapshotId ≠ 0 := by omega
  subst hstep
  exact ((inv_invariant styled user).reachable h).right_iff hid

theorem reachable_of_run (rows : List ℕ) (steps : List Step)
    (h : Machine.runFn (next styled user) { rows } steps = some w) :
    (machine styled user).Reachable w :=
  Machine.Reachable.runFn (.init ⟨rows, rfl⟩) h

/-- A friend whose deletion got lost leaves the list with the next answer. -/
theorem reconciles_lost : ∃ w w', (machine (fun _ => 0) 1).Reachable w ∧ w.client.friends = [5] ∧
    next (fun _ => 0) 1 w .handle = some w' ∧ w'.client.friends = [] := by
  have hsent : ∃ w w', (machine (fun _ => 0) 1).Reachable w ∧ w.client.friends = [5] ∧
      next (fun _ => 0) 1 w .handle = some w' ∧
      w.frames = .heartbeat ⟨0, some 1, some 1, some [], none⟩ :: [] ∧ w.listed = [5] ∧
      w.since = [] ∧ w.client.heartbeatSnapshotId = 1 ∧ ∀ uid ∈ w'.client.friends, uid = 5 :=
    ⟨_, _, reachable_of_run [5]
      [.login, .unfriend 5, .lose 0, .timer, .answer 0 true, .respond 0] rfl,
      by decide, rfl, by decide, by decide, by decide, by decide, by decide⟩
  obtain ⟨w, w', hreach, hfriends, hstep, hframes, hlisted, hsince, hid, hfive⟩ := hsent
  have hright := (reconciles_iff hreach hframes hstep).mpr fun _ _ _ uid _ _ hadded => by
    rw [hsince] at hadded
    cases hadded
  refine ⟨w, w', hreach, hfriends, hstep, List.eq_nil_iff_forall_not_mem.mpr fun uid hmem => ?_⟩
  obtain rfl := hfive uid hmem
  exact hright.missing [] rfl (by simp [Current, hid]) 5 (by simp [hlisted]) (by simp)
    (by simp [hsince]) hmem

/-- A friend is deleted, which the client does not learn, a heartbeat is sent and the rows are
read. Then he becomes a friend again, and his acceptance comes before the answer. -/
def overtaken : List Step :=
  [.login, .unfriend 5, .lose 0, .timer, .answer 0 true, .befriend 5, .send 0, .respond 0, .handle]

theorem overtaken_reaches : ∃ w, (machine (fun _ => 0) 1).Reachable w ∧
    w.frames = [.heartbeat ⟨0, some 1, some 1, some [], none⟩] ∧ w.client.friends = [5] ∧
    w.since = [.added 5] ∧ w.client.removed ⟨0, some 1, some 1, some [], none⟩ = [5] :=
  ⟨_, reachable_of_run [5] overtaken rfl, by decide, by decide, by decide, by decide⟩

/-- The answer then removes the friend. -/
theorem readded_removed : ¬ ∀ (styled : Response → ℕ) (user : ℕ) (w w' : World)
    (response : Response) (frames : List Frame), (machine styled user).Reachable w →
    w.frames = .heartbeat response :: frames → next styled user w .handle = some w' →
    w.Right response w'.client := by
  intro h
  obtain ⟨w, hreach, hframes, hfriends, hsince, hremoved⟩ := overtaken_reaches
  have hstep : next (fun _ => 0) 1 w .handle = some (World.receive { w with frames := [] }
      (.heartbeat ⟨0, some 1, some 1, some [], none⟩)) := by
    simp only [next, hframes]
  have hright := h (fun _ => 0) 1 w _ _ [] hreach hframes hstep
  have hmem := hright.added 5 (by simp [hfriends]) (by simp [hsince])
  exact (Client.mem_friends_heartbeatRsp.mp hmem).2 (by simp [hremoved])

end World
end CppChat.Heartbeat
