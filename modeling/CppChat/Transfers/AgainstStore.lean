import CppChat.Resources.Unfaulted
import CppChat.Transfers.Upload

/-! # Transfers to and from the resource store

The worker of an upload, the store, and the requests and replies between them. No one else writes
to the resource and every operation of the store succeeds; the two sides take turns in any order.
-/
namespace CppChat.Transfers
open Foundation Faults
open Resources (InitRequest Request Meta Disk Progress Resumed Startable)

variable (sha256 : Bytes → String) (uid : ℤ) (member : ℤ → Bool)

/-- A request of the user, all of whose operations succeed. -/
def ask (request : Request) : Resources.Action := ⟨uid, member, request, fun _ => .done⟩

/-- What the client reads from a reply; only the first reply names a window. -/
def readReply (request : Request) : Resources.Reply → UploadReply
  | .error message offset => ⟨false, message, offset.getD 0, 1, false⟩
  | .upload offset complete =>
    ⟨true, "", offset, match request with | .init _ => 4 | _ => 1, complete⟩
  | .download offset _ _ _ complete => ⟨true, "", offset, 1, complete⟩

/-- A client, the store, and what is on its way between them. -/
structure Link where
  client : Upload
  store : Resources.State
  requests : List Request
  replies : List UploadReply
  served : ℕ

inductive LinkEvent
  | send
  | serve
  | receive

namespace Link

/-- The first request is on its way. -/
def start (image : Bytes) (r : InitRequest) (disk : Disk) : Link where
  client := Upload.start image
  store := ⟨disk, []⟩
  requests := [.init r]
  replies := []
  served := 0

def next (s : Link) : LinkEvent → Option Link
  | .send => (s.client.next .send).map fun client => { s with
      client
      requests := s.requests ++ (client.chunks.getLast?.map fun c => .chunk c.1 c.2).toList }
  | .serve => match s.requests with
    | [] => none
    | request :: rest => (s.store.reply sha256 (ask uid member request)).bind fun reply =>
      (s.store.step sha256 (ask uid member request)).map fun store => { s with
        store
        requests := rest
        replies := s.replies ++ [readReply request reply]
        served := s.served + 1 }
  | .receive => match s.replies with
    | [] => none
    | reply :: rest => (s.client.next (.answer (.reply reply))).map fun client => { s with
        client
        replies := rest }

/-- An upload of an image to a store. -/
def machine (image : Bytes) (r : InitRequest) (disk : Disk) : Machine Link LinkEvent :=
  .ofFn (fun s => s = start image r disk) (next sha256 uid member)

end Link

/-! ## The invariant -/

variable {sha256 : Bytes → String} {uid : ℤ} {member : ℤ → Bool} {image : Bytes} {r : InitRequest}
  {disk : Disk} {s : Link}

/-- The upload is one that the store admits. -/
structure Admissible (sha256 : Bytes → String) (uid : ℤ) (member : ℤ → Bool) (image : Bytes)
    (r : InitRequest) : Prop where
  valid : r.valid uid = true
  member : 0 < r.threadId → member r.threadId = true
  size : r.size = image.length
  sha : r.sha256 = sha256 image
  wave : r.mediaType = 3 → Resources.validWave image = true

/-- The replies to the chunks behind an offset. -/
def Answers (image : Bytes) : ℕ → List UploadReply → ℕ → Prop :=
  Strides image.length kChunkSize fun a reply =>
    reply = ⟨true, "", (min (a + kChunkSize) image.length : ℕ), 1,
      min (a + kChunkSize) image.length = image.length⟩

/-- The requests for the chunks behind an offset. -/
def Asked (image : Bytes) : ℕ → List Request → ℕ → Prop :=
  Strides image.length kChunkSize fun a request =>
    request = .chunk (Upload.chunkAt image a).1 (Upload.chunkAt image a).2

/-- What the client has confirmed, what is on its way back, what the store has, what is on its way
there, and what is sent follow each other. -/
structure Linked (image : Bytes) (m : Meta) (s : Link) (sent : ℕ) : Prop where
  link : ∃ a, Answers image s.client.offset s.replies a ∧ Asked image a s.requests sent ∧
    Progress m image s.store.disk a

def Inv (uid : ℤ) (image : Bytes) (r : InitRequest) (disk : Disk) (s : Link) : Prop :=
  Upload.Good image s.client ∧ s.served + s.requests.length = 1 + s.client.chunks.length ∧
    match s.client.stage with
    | .init => (s.requests = [.init r] ∧ s.replies = [] ∧ s.store.disk = disk) ∨
      ∃ n, s.requests = [] ∧ s.replies = [⟨true, "", (n : ℕ), 4, n = image.length⟩] ∧
        Progress (r.meta uid) image s.store.disk n ∧ Resumed image (disk.found (r.meta uid)) n
    | .sending sent _ => Resumed image (disk.found (r.meta uid)) s.client.first ∧
        Linked image (r.meta uid) s sent
    | .receiving expected => Resumed image (disk.found (r.meta uid)) s.client.first ∧
        ∃ sent, Upload.Ends image s.client.offset expected sent ∧
          Linked image (r.meta uid) s sent
    | .finished => Resumed image (disk.found (r.meta uid)) s.client.first ∧
        s.client.error = "" ∧ s.requests = [] ∧ s.replies = [] ∧
        Progress (r.meta uid) image s.store.disk image.length

/-- A request that succeeds is replied to. -/
theorem serve_of_succeeds {request : Request} {reply : Resources.Reply} {disk : Disk}
    (h : (Resources.handle sha256 (ask uid member request)).Succeeds s.store.disk reply disk) :
    s.store.reply sha256 (ask uid member request) = some reply ∧
      ∃ store, s.store.step sha256 (ask uid member request) = some store ∧ store.disk = disk := by
  have hperform : (Resources.perform sha256 (ask uid member request)).Succeeds s.store.disk reply
      disk := h.bind Faulty.succeeds_look
  unfold Resources.State.reply Resources.State.step
  rw [show (Resources.perform sha256 (ask uid member request)) (ask uid member request).plan
    s.store.disk = (.ok reply, disk) from hperform]
  exact ⟨rfl, _, rfl, rfl⟩

theorem serve_linked (hr : Admissible sha256 uid member image r) {sent : ℕ}
    (h : Linked image (r.meta uid) s sent) {request : Request} {rest : List Request}
    (hrequests : s.requests = request :: rest) :
    ∃ reply store, s.store.reply sha256 (ask uid member request) = some reply ∧
      s.store.step sha256 (ask uid member request) = some store ∧
      Linked image (r.meta uid) { s with
        store
        requests := rest
        replies := s.replies ++ [readReply request reply]
        served := s.served + 1 } sent := by
  obtain ⟨a, hanswers, hasked, hprogress⟩ := h
  rw [hrequests] at hasked
  obtain ⟨ha, rfl, hrest⟩ := hasked
  obtain ⟨disk, hchunk, hprogress'⟩ := @Resources.succeeds_uploadChunk sha256 _ _ _
    hr.size hr.sha hr.wave member hr.member _ ((image.drop a).take kChunkSize) hprogress ha rfl
  rw [Upload.chunk_end ha] at hchunk hprogress'
  obtain ⟨hreply, store, hstep, hdisk⟩ := @serve_of_succeeds _ uid member s
    (.chunk (Upload.chunkAt image a).1 (Upload.chunkAt image a).2) _ _ hchunk
  refine ⟨_, store, hreply, hstep, min (a + kChunkSize) image.length, ?_, hrest, hdisk ▸ hprogress'⟩
  exact Strides.snoc hanswers ha rfl

theorem Upload.next_send {s t : Upload} (h : s.next .send = some t) :
    ∃ sent expected, s.stage = .sending sent expected ∧
      t = { s with steps := s.steps + 1 }.sendChunk sent expected := by
  cases hstage : s.stage with
  | sending sent expected =>
    rw [Upload.next_of_stage hstage, Upload.react, Option.some_inj] at h
    exact ⟨sent, expected, rfl, h.symm⟩
  | init => simp [Upload.next, Upload.react, hstage] at h
  | receiving expected => simp [Upload.next, Upload.react, hstage] at h
  | finished => simp [Upload.next, Upload.react, hstage] at h

theorem Inv.send {t : Link} (h : Inv uid image r disk s)
    (hnext : s.next sha256 uid member .send = some t) : Inv uid image r disk t := by
  simp only [Link.next, Option.map_eq_some_iff] at hnext
  obtain ⟨client, hclient, rfl⟩ := hnext
  obtain ⟨sent, expected, hstage, rfl⟩ := Upload.next_send hclient
  obtain ⟨hgood, hserved, h⟩ := h
  rw [hstage] at h
  obtain ⟨hresumed, a, hanswers, hasked, hprogress⟩ := h
  have hgood' := Upload.good_sendChunk hgood hstage
  obtain ⟨himage, -, -, hclient⟩ := hgood
  rw [hstage] at hclient
  obtain ⟨-, -, -, hends, hlt, -, -⟩ := hclient
  have hasked' : Asked image a (s.requests ++ [.chunk (Upload.chunkAt image sent).1
      (Upload.chunkAt image sent).2]) (min (sent + kChunkSize) image.length) :=
    Strides.snoc hasked hlt rfl
  have hends' := Strides.snoc hends hlt rfl
  refine ⟨hgood', ?_, ?_⟩
  · simp only [Upload.sendChunk, List.getLast?_concat, Option.map_some, Option.toList_some,
      List.length_append, List.length_singleton]
    omega
  · simp only [Upload.sendChunk, List.getLast?_concat, Option.map_some, Option.toList_some, himage,
      Upload.chunk_end hlt]
    split
    next stage hinit => split at hinit <;> cases hinit
    next sent' expected' hsending =>
      split at hsending <;> cases hsending
      exact ⟨hresumed, a, hanswers, hasked', hprogress⟩
    next expected' hreceiving =>
      split at hreceiving <;> cases hreceiving
      exact ⟨hresumed, _, hends', a, hanswers, hasked', hprogress⟩
    next hfinished => split at hfinished <;> cases hfinished

theorem Inv.serve {t : Link} (hr : Admissible sha256 uid member image r)
    (hstart : Startable sha256 (r.meta uid) image disk) (h : Inv uid image r disk s)
    (hnext : s.next sha256 uid member .serve = some t) :
    Inv uid image r disk t := by
  simp only [Link.next] at hnext
  split at hnext
  · cases hnext
  next request rest hrequests =>
    simp only [Option.bind_eq_some_iff, Option.map_eq_some_iff] at hnext
    obtain ⟨reply, hreply, store, hstore, rfl⟩ := hnext
    obtain ⟨hgood, hserved, h⟩ := h
    have hserved' : s.served + 1 + rest.length = 1 + s.client.chunks.length := by
      rw [hrequests, List.length_cons] at hserved
      omega
    refine ⟨hgood, hserved', ?_⟩
    have hlinked : ∀ sent, Linked image (r.meta uid) s sent → Linked image (r.meta uid) { s with
        store
        requests := rest
        replies := s.replies ++ [readReply request reply]
        served := s.served + 1 } sent := by
      intro sent h
      obtain ⟨reply', store', hreply', hstore', hlinked⟩ := serve_linked hr h hrequests
      rw [hreply, Option.some_inj] at hreply'
      rw [hstore, Option.some_inj] at hstore'
      exact hreply' ▸ hstore' ▸ hlinked
    cases hstage : s.client.stage with
    | init =>
      rw [hstage] at h
      dsimp only at h ⊢
      rcases h with ⟨hrequest, hreplies, rfl⟩ | ⟨n, hnone, -⟩
      · rw [hrequests, List.cons.injEq] at hrequest
        obtain ⟨rfl, rfl⟩ := hrequest
        obtain ⟨disk, n, hinit, hprogress, hresumed⟩ := Resources.succeeds_uploadInit hr.valid
          hr.member hr.size hr.sha hr.wave hstart
        obtain ⟨hreply', store', hstep, hdisk⟩ := @serve_of_succeeds _ uid member s
          (.init r) _ _ hinit
        rw [hreply, Option.some_inj] at hreply'
        rw [hstore, Option.some_inj] at hstep
        subst hreply' hstep
        refine .inr ⟨n, rfl, ?_, hdisk ▸ hprogress, hresumed⟩
        rw [hreplies]
        rfl
      · rw [hrequests] at hnone
        cases hnone
    | sending sent expected =>
      rw [hstage] at h
      dsimp only at h ⊢
      exact ⟨h.1, hlinked sent h.2⟩
    | receiving expected =>
      rw [hstage] at h
      dsimp only at h ⊢
      obtain ⟨hresumed, sent, hends, h⟩ := h
      exact ⟨hresumed, sent, hends, hlinked sent h⟩
    | finished =>
      rw [hstage] at h
      rw [h.2.2.1] at hrequests
      cases hrequests

/-- The client looks at its loop again when all is confirmed. -/
theorem inv_again {c : Upload} {store : Resources.State} {served : ℕ} (herror : c.error = "")
    (himage : c.image = image) (hgood : Upload.Good image c.again)
    (hserved : served = 1 + c.chunks.length)
    (hcomplete : c.complete = decide (c.offset = image.length))
    (hprogress : Progress (r.meta uid) image store.disk c.offset)
    (hresumed : Resumed image (disk.found (r.meta uid)) c.first) :
    Inv uid image r disk ⟨c.again, store, [], [], served⟩ := by
  by_cases h : c.error = "" ∧ c.offset < c.image.length
  · have hagain : c.again = { c with stage := .sending c.offset [] } := if_pos h
    rw [hagain] at hgood ⊢
    exact ⟨hgood, hserved, hresumed, c.offset, rfl, rfl, hprogress⟩
  · have hall : c.offset = image.length := by
      rw [himage, not_and, not_lt] at h
      exact le_antisymm hprogress.2.1 (h herror)
    have hfinish : c.again = { c with stage := .finished } := by
      refine (if_neg h).trans ?_
      unfold Upload.finish
      rw [if_neg (by simp [hcomplete, hall])]
    rw [hfinish] at hgood ⊢
    exact ⟨hgood, hserved, hresumed, herror, rfl, rfl, hall ▸ hprogress⟩

theorem Inv.receive {t : Link} (h : Inv uid image r disk s)
    (hnext : s.next sha256 uid member .receive = some t) : Inv uid image r disk t := by
  simp only [Link.next] at hnext
  split at hnext
  · cases hnext
  next reply more hreplies =>
    simp only [Option.map_eq_some_iff] at hnext
    obtain ⟨client, hclient, rfl⟩ := hnext
    obtain ⟨hgood, hserved, h⟩ := h
    obtain ⟨himage, -, -, hstate⟩ := id hgood
    cases hstage : s.client.stage with
    | init =>
      rw [hstage] at h hstate
      rw [Upload.next_of_stage hstage, Upload.react, Option.some_inj] at hclient
      rcases h with ⟨-, hnone, -⟩ | ⟨n, hrequests, hreply, hprogress, hresumed⟩
      · rw [hreplies] at hnone
        cases hnone
      · rw [hreplies, List.cons.injEq] at hreply
        obtain ⟨rfl, rfl⟩ := hreply
        have hgood' := Upload.good_initAnswered hgood hstage (a := .reply ⟨true, "", n, 4,
          n = image.length⟩) (by simp)
        have hvalid : ¬ ((n : ℤ) < 0 ∨ (image.length : ℤ) < n) := by
          have := hprogress.2.1
          omega
        simp only [Upload.initAnswered, if_true, himage, if_neg hvalid] at hclient hgood'
        subst hclient
        rw [hrequests] at hserved ⊢
        refine inv_again hstate.1 rfl hgood' hserved ?_ ?_ ?_
        · simp
        · simpa using hprogress
        · simpa using hresumed
    | sending sent expected => simp [Upload.next, Upload.react, hstage] at hclient
    | receiving expected =>
      rw [hstage] at h hstate
      obtain ⟨herror, -, hne, -⟩ := hstate
      obtain ⟨hresumed, sent, hends, a, hanswers, hasked, hprogress⟩ := h
      rw [hreplies] at hanswers
      obtain ⟨-, rfl, hanswers⟩ := hanswers
      cases expected with
      | nil => exact absurd rfl hne
      | cons e rest =>
        obtain ⟨-, rfl, hends⟩ := hends
        rw [Upload.next_of_stage hstage, Upload.react, Option.some_inj] at hclient
        have hgood' := Upload.good_chunkAnswered hgood hstage (a := .reply ⟨true, "",
          (min (s.client.offset + kChunkSize) image.length : ℕ), 1,
          min (s.client.offset + kChunkSize) image.length = image.length⟩) (by simp)
        simp only [Upload.chunkAnswered, if_true, ne_eq, not_true, if_false] at hclient hgood'
        by_cases hlast : rest = []
        · -- all that was sent is confirmed, so nothing is on its way
          rw [if_pos hlast] at hclient hgood'
          subst hclient hlast
          cases hends
          have hle := (Strides.le hanswers (min_le_right _ _)).1
          have hle' := (Strides.le hasked hprogress.2.1).1
          obtain rfl : a = min (s.client.offset + kChunkSize) image.length := le_antisymm hle' hle
          have hmore := Strides.eq_nil hanswers (by decide)
          have hrequests := Strides.eq_nil hasked (by decide)
          rw [hrequests] at hserved ⊢
          rw [hmore]
          exact inv_again herror himage hgood' hserved rfl hprogress hresumed
        · rw [if_neg hlast] at hclient hgood'
          subst hclient
          exact ⟨hgood', hserved, hresumed, sent, hends, a, hanswers, hasked, hprogress⟩
    | finished => simp [Upload.next, Upload.react, hstage] at hclient

theorem inv_invariant (hr : Admissible sha256 uid member image r)
    (hstart : Startable sha256 (r.meta uid) image disk) :
    (Link.machine sha256 uid member image r disk).Invariant (Inv uid image r disk) where
  init s h := by
    cases h
    refine ⟨(Upload.good_invariant image).init _ rfl, rfl, .inl ⟨rfl, rfl, rfl⟩⟩
  step s e t _ h hstep := by
    have hnext : s.next sha256 uid member e = some t := hstep
    cases e with
    | send => exact h.send hnext
    | serve => exact h.serve hr hstart hnext
    | receive => exact h.receive hnext

/-- Until the client has ended, one of the three can go on. -/
theorem Inv.progress (hr : Admissible sha256 uid member image r)
    (hstart : Startable sha256 (r.meta uid) image disk) (h : Inv uid image r disk s)
    (hstage : s.client.stage ≠ .finished) : ∃ e t, s.next sha256 uid member e = some t := by
  have hreceive : ∀ reply more, s.replies = reply :: more →
      (∃ t, s.client.next (.answer (.reply reply)) = some t) →
      ∃ e t, s.next sha256 uid member e = some t := by
    rintro reply more hreplies ⟨t, ht⟩
    exact ⟨.receive, _, by rw [Link.next, hreplies]; simp only [ht]; rfl⟩
  obtain ⟨⟨-, -, -, hclient⟩, -, h⟩ := h
  cases hs : s.client.stage with
  | init =>
    rw [hs] at h
    rcases h with ⟨hrequests, -, rfl⟩ | ⟨n, -, hreplies, -⟩
    · obtain ⟨disk, n, hinit, -⟩ := Resources.succeeds_uploadInit hr.valid hr.member hr.size hr.sha
        hr.wave hstart
      obtain ⟨hreply, store, hstep, -⟩ := @serve_of_succeeds _ uid member s
        (.init r) _ _ hinit
      exact ⟨.serve, _, by rw [Link.next, hrequests]; simp only [hreply, hstep]; rfl⟩
    · exact hreceive _ _ hreplies ⟨_, by rw [Upload.next_of_stage hs]; rfl⟩
  | sending sent expected =>
    have hclient : s.client.next .send =
        some ({ s.client with steps := s.client.steps + 1 }.sendChunk sent expected) := by
      rw [Upload.next_of_stage hs]
      rfl
    exact ⟨.send, _, by rw [Link.next, hclient]; rfl⟩
  | receiving expected =>
    rw [hs] at h
    rw [hs] at hclient
    obtain ⟨-, sent, hends, hlinked⟩ := h
    cases expected with
    | nil => exact absurd rfl hclient.2.2.1
    | cons e rest =>
      cases hreplies : s.replies with
      | cons reply more =>
        exact hreceive _ _ hreplies ⟨_, by rw [Upload.next_of_stage hs]; rfl⟩
      | nil =>
        -- what is expected and not replied to is still on its way
        cases hrequests : s.requests with
        | nil =>
          obtain ⟨a, hanswers, hasked, -⟩ := hlinked
          rw [hreplies] at hanswers
          rw [hrequests] at hasked
          cases hanswers
          cases hasked
          have hnil := Strides.eq_nil hends (by decide)
          cases hnil
        | cons request more =>
          obtain ⟨reply, store, hreply, hstep, -⟩ := serve_linked hr hlinked hrequests
          exact ⟨.serve, _, by rw [Link.next, hrequests]; simp only [hreply, hstep]; rfl⟩
  | finished => exact absurd hs hstage

/-- An upload that the store admits, from any disk that it may start with: it goes on until the
client has ended, after a bounded number of turns, and ends with success and the file in place.
The chunks begin where the store's part ends and carry each missing byte once. -/
theorem upload_succeeds (hr : Admissible sha256 uid member image r)
    (hstart : Startable sha256 (r.meta uid) image disk)
    (hs : (Link.machine sha256 uid member image r disk).Reachable s) :
    (s.client.stage ≠ .finished → ∃ e t, s.next sha256 uid member e = some t) ∧
      s.client.steps + s.served ≤ 3 + 3 * s.client.chunks.length ∧
      kChunkSize * s.client.chunks.length < image.length + kChunkSize ∧
      (s.client.stage = .finished → s.client.error = "" ∧ s.client.complete = true ∧
        Resumed image (disk.found (r.meta uid)) s.client.first ∧
        image.take s.client.first ++ s.client.chunks.flatMap Prod.snd = image ∧
        s.store.disk.parsed = some (r.meta uid) ∧ s.store.disk.here.bin = some image) := by
  have hinv := (inv_invariant hr hstart).reachable hs
  obtain ⟨hbounds, hcount⟩ := hinv.1.bounds
  obtain ⟨-, hserved, h⟩ := id hinv
  refine ⟨hinv.progress hr hstart, by omega, hcount, fun hstage => ?_⟩
  rw [hstage] at h
  obtain ⟨hresumed, herror, -, -, hparsed, -, hbin⟩ := h
  rw [if_pos rfl] at hbin
  obtain ⟨hcomplete, hall⟩ := hinv.1.finished hstage herror
  exact ⟨herror, hcomplete, hresumed, hall, hparsed, hbin⟩

/-! ## The way back -/

/-- What `exchange` makes of a reply. -/
def readData : Resources.Reply → DownloadAnswer
  | .download offset size sha data complete => .data ⟨data, offset, size, sha, complete⟩
  | .error message _ => .failed message
  | .upload _ _ => .failed Loss.malformed.text

/-- The loop of a download against a store, with a bound on its turns. -/
def fetchLoop (sha256 : Bytes → String) (uid : ℤ) (member : ℤ → Bool) (store : Resources.State) :
    ℕ → Download → Download
  | 0, d => d
  | n + 1, d =>
    let answer := match store.reply sha256 (ask uid member (.download d.offset.toNat)) with
      | some reply => readData reply
      | none => .failed Loss.noAnswer.text
    let d := d.turn answer
    if d.looping then fetchLoop sha256 uid member store n d else d

/-- A download that has the first bytes of a finished file, and the loop goes on. -/
structure Fetching (image : Bytes) (d : Download) (offset : ℕ) : Prop where
  bytes : d.image = image.take offset
  place : d.offset = offset
  le : offset ≤ image.length
  error : d.error = ""

theorem fetchLoop_complete {m : Meta} {store : Resources.State} (hne : image ≠ [])
    (hmax : image.length ≤ kMaxImageSize) (hsize : m.size = image.length)
    (haccess : if 0 < m.threadId then member m.threadId = true else m.uid = uid ∨ m.recipient = uid)
    (hfile : Progress m image store.disk image.length) {d : Download} {offset : ℕ}
    (h : Fetching image d offset) {n : ℕ} (hfuel : image.length < offset + kChunkSize * n) :
    (fetchLoop sha256 uid member store n d).looping = false ∧
      (fetchLoop sha256 uid member store n d).error = "" ∧
      (fetchLoop sha256 uid member store n d).image = image ∧
      (fetchLoop sha256 uid member store n d).size = image.length ∧
      (fetchLoop sha256 uid member store n d).checksum = m.sha256 := by
  induction n generalizing d offset with
  | zero =>
    have := h.le
    omega
  | succ n ih =>
    have hpos := List.length_pos_iff.mpr hne
    have hle := h.le
    have hdownload := @Resources.succeeds_download _ _ _ uid member _ hsize haccess
      hfile h.le
    obtain ⟨hreply, -⟩ := @serve_of_succeeds sha256 uid member
      ⟨Upload.start [], store, [], [], 0⟩ (.download offset) _ _ hdownload
    replace hreply : store.reply sha256 (ask uid member (.download offset)) = some (.download
        (offset + ((image.drop offset).take kChunkSize).length) image.length m.sha256
        ((image.drop offset).take kChunkSize)
        (offset + ((image.drop offset).take kChunkSize).length = image.length)) := hreply
    generalize hdata : (image.drop offset).take kChunkSize = data at hreply
    have hlen : data.length = min kChunkSize (image.length - offset) := by
      rw [← hdata, List.length_take, List.length_drop]
    have hmore : d.image ++ data = image.take (offset + data.length) := by
      rw [h.bytes, List.take_add, ← hdata]
      congr 1
      rw [List.take_eq_take_iff, List.length_take, List.length_drop]
      omega
    have hfits : offset + data.length ≤ image.length ∧ data.length ≤ kChunkSize := by omega
    generalize hr : (⟨data, (offset + data.length : ℕ), image.length, m.sha256,
      offset + data.length = image.length⟩ : DataReply) = reply
    have hok : Download.rejected d.offset reply = false := by
      simp only [← hr, Download.rejected, h.place, decide_eq_false_iff_not, not_or, not_le, not_lt,
        not_and, not_not, decide_eq_true_eq]
      refine ⟨by omega, by exact_mod_cast hmax, hfits.2, by simp, by omega, fun hnil => ?_⟩
      rw [hnil, List.length_nil] at hlen ⊢
      unfold kChunkSize at hlen
      omega
    have hturn : d.turn (.data reply) = { d with
        size := image.length
        checksum := m.sha256
        received := d.received ++ [reply]
        image := image.take (offset + data.length)
        offset := (offset + data.length : ℕ)
        looping := !decide (offset + data.length = image.length) } := by
      simp only [Download.turn, hok]
      simp [← hr, hmore]
    rw [fetchLoop]
    simp only [h.place, Int.toNat_natCast, hreply, readData, hr, hturn]
    by_cases hlast : offset + data.length = image.length
    · simp [hlast, h.error]
    · have hnext : Fetching image { d with
          size := image.length
          checksum := m.sha256
          received := d.received ++ [reply]
          image := image.take (offset + data.length)
          offset := (offset + data.length : ℕ)
          looping := !decide (offset + data.length = image.length) } (offset + data.length) :=
        ⟨rfl, rfl, hfits.1, h.error⟩
      have hfull : data.length = kChunkSize := by omega
      have hrest := ih hnext (by rw [hfull, add_assoc, Nat.add_comm kChunkSize]; exact hfuel)
      simp only [hlast, decide_false, Bool.not_false, if_true] at hrest ⊢
      exact hrest

/-- What was uploaded comes back: whoever may read the resource gets the image, from any part of it
that is kept, and the check of the client passes. -/
theorem uploaded_is_downloaded (hr : Admissible sha256 uid member image r)
    (hstart : Startable sha256 (r.meta uid) image disk)
    (hs : (Link.machine sha256 uid member image r disk).Reachable s)
    (hstage : s.client.stage = .finished) {reader : ℤ} {member' : ℤ → Bool}
    (haccess : if 0 < r.threadId then member' r.threadId = true
      else uid = reader ∨ r.recipient = reader)
    {kept : Bytes} (hkept : kept <+: image) {n : ℕ}
    (hfuel : image.length < kept.length + kChunkSize * n) :
    (fetchLoop sha256 reader member' s.store n (Download.start kept)).looping = false ∧
      (fetchLoop sha256 reader member' s.store n (Download.start kept)).report sha256 =
        (image, "") := by
  obtain ⟨-, -, h⟩ := (inv_invariant hr hstart).reachable hs
  rw [hstage] at h
  obtain ⟨-, -, -, -, hprogress⟩ := h
  have hvalid := hr.valid
  simp only [InitRequest.valid, decide_eq_true_eq] at hvalid
  obtain ⟨-, -, -, hpos, hmax, -⟩ := hvalid
  rw [hr.size] at hpos hmax
  have hfetching : Fetching image (Download.start kept) kept.length :=
    ⟨List.prefix_iff_eq_take.mp hkept, rfl, hkept.length_le, rfl⟩
  obtain ⟨hloop, herror, himage, hsize, hsha⟩ := @fetchLoop_complete sha256 reader
    member' _ (r.meta uid) _ (fun hnil => hpos (by rw [hnil]; rfl)) hmax hr.size haccess hprogress
    _ _ hfetching _ hfuel
  refine ⟨hloop, ?_⟩
  unfold Download.report
  rw [if_neg (by simp [himage, hsize, hsha, InitRequest.meta, hr.sha]), himage, herror]

/-! ## A run -/

def sampleDigest : Bytes → String := fun _ => String.ofList (List.replicate 64 '0')

def sampleRequest : InitRequest := ⟨2, 0, 1, 3, String.ofList (List.replicate 64 '0')⟩

theorem sample_admissible : Admissible sampleDigest 1 (fun _ => true) [7, 8, 9] sampleRequest := by
  refine ⟨by decide +kernel, fun _ => rfl, rfl, rfl, fun h => ?_⟩
  cases h

theorem sample_startable : Startable sampleDigest (sampleRequest.meta 1) [7, 8, 9]
    Resources.emptyDisk :=
  ⟨.inl fun _ => rfl, .inr ⟨rfl, by simp [Disk.found, Resources.emptyDisk, Disk.here]⟩⟩

def sampleTurns : List LinkEvent := [.serve, .receive, .send, .serve, .receive]

theorem sample_link : ∃ s, (Link.machine sampleDigest 1 (fun _ => true) [7, 8, 9] sampleRequest
    Resources.emptyDisk).Reachable s ∧ s.client.stage = .finished := by
  have hrun : ((Machine.runFn (Link.next sampleDigest 1 fun _ => true)
      (Link.start [7, 8, 9] sampleRequest Resources.emptyDisk) sampleTurns).map fun s =>
        match s.client.stage with | .finished => true | _ => false) = some true := by
    decide +kernel
  obtain ⟨s, hs, hstage⟩ := Option.map_eq_some_iff.mp hrun
  refine ⟨s, Machine.Reachable.runFn (.init rfl) hs, ?_⟩
  split at hstage
  next h => exact h
  next => cases hstage

theorem sample_upload_succeeds : ∃ s, (Link.machine sampleDigest 1 (fun _ => true) [7, 8, 9]
    sampleRequest Resources.emptyDisk).Reachable s ∧ s.client.error = "" ∧
    s.store.disk.here.bin = some [7, 8, 9] := by
  obtain ⟨s, hs, hstage⟩ := sample_link
  obtain ⟨herror, -, -, -, -, hbin⟩ :=
    (upload_succeeds sample_admissible sample_startable hs).2.2.2 hstage
  exact ⟨s, hs, herror, hbin⟩

theorem sample_round_trip : ∃ s, (Link.machine sampleDigest 1 (fun _ => true) [7, 8, 9]
    sampleRequest Resources.emptyDisk).Reachable s ∧
    (fetchLoop sampleDigest 2 (fun _ => false) s.store 1 (Download.start [7])).report
      sampleDigest = ([7, 8, 9], "") := by
  obtain ⟨s, hs, hstage⟩ := sample_link
  exact ⟨s, hs, (uploaded_is_downloaded sample_admissible sample_startable hs hstage
    (by decide) ⟨[8, 9], rfl⟩ (by decide)).2⟩

end CppChat.Transfers
