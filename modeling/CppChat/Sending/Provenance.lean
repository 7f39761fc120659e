import CppChat.Sending.Order

/-! # Where the packets come from

A message is given to the sender, saved, queued, uploaded if it is a media message, saved again and
sent. No step of this reaches over a reset.
-/
namespace CppChat.Sending
open Foundation.Cbor (Bytes)
open Foundation.Utf16 (Text)
open State

variable {C : Texts.EmojiCatalog} {qt : Attachments.Qt} {allows : State → Event → Prop}
  {w : World} {s t : State}
  {message : Message} {item : OutgoingMessage} {log l : List Entry} {e : Entry} {b : Callback}

/-- The part of a log, newest first, that is younger than the last reset. -/
def recent (log : List Entry) : List Entry := log.takeWhile fun e => e ≠ .reset

/-- The upload of a message was asked for since the last reset. -/
def Uploaded (log : List Entry) (item : OutgoingMessage) : Prop :=
  .uploadMedia item.content.imageData item.chat.otherId item.message.uniqueId
    (if item.chat.isGroup then item.chat.threadId else 0) item.content.mediaType ∈ recent log

/-- The item was queued since the last reset. -/
def Queued (log : List Entry) (item : OutgoingMessage) : Prop :=
  ∃ again, .queued item again ∈ recent log

/-- What must have happened since the last reset before an entry. -/
def Entry.Follows (earlier : List Entry) : Entry → Prop
  | saved message => .given message ∈ recent earlier
  | queued item _ => .saved item.message ∈ recent earlier
  | uploadMedia bytes _ requestId _ _ => ∃ item, Queued earlier item ∧ item.content.isMedia ∧
    item.message.uniqueId = requestId ∧ item.content.imageData = bytes
  | sendData packet => ∃ item, Queued earlier item ∧ item.message.uniqueId = packet.uniqueId ∧
    (item.content.isMedia → ∃ rest, earlier = .saved item.message :: rest ∧ Uploaded rest item)
  | _ => True

def Proper : List Entry → Prop
  | [] => True
  | e :: earlier => e.Follows earlier ∧ Proper earlier

/-! ## Logs -/

theorem recent_append (hl : ∀ e ∈ l, e ≠ .reset) : recent (l ++ log) = l ++ recent log := by
  unfold recent
  rw [List.takeWhile_append_of_pos (by simpa using hl)]

theorem recent_cons (he : e ≠ .reset) : recent (e :: log) = e :: recent log :=
  recent_append (l := [e]) (by simpa using he)

theorem recent_sub (hl : ∀ e ∈ l, e ≠ .reset) : recent log ⊆ recent (l ++ log) := by
  rw [recent_append hl]
  exact List.subset_append_right l _

theorem Proper.follows (h : Proper log) {later earlier : List Entry}
    (hlog : log = later ++ e :: earlier) : e.Follows earlier := by
  induction later generalizing log with
  | nil =>
    subst hlog
    exact h.1
  | cons d later ih =>
    subst hlog
    exact ih h.2 rfl

/-- Entries that ask for nothing. -/
theorem Proper.append (h : Proper log) (hl : ∀ e ∈ l, ∀ earlier, e.Follows earlier) :
    Proper (l ++ log) := by
  induction l with
  | nil => exact h
  | cons e l ih =>
    exact ⟨hl e List.mem_cons_self _, ih fun e he => hl e (List.mem_cons_of_mem _ he)⟩

theorem Proper.saved (h : Proper log) {messages : List Message}
    (hgiven : ∀ message ∈ messages, .given message ∈ recent log) :
    Proper (messages.map .saved ++ log) := by
  induction messages with
  | nil => exact h
  | cons message messages ih =>
    refine ⟨?_, ih fun message hm => hgiven message (List.mem_cons_of_mem _ hm)⟩
    exact recent_sub (by simp) (hgiven message List.mem_cons_self)

theorem Entry.follows_plain (he : e.plain) (earlier : List Entry) : e.Follows earlier := by
  cases e <;> trivial

theorem Entry.ne_reset_of_plain (he : e.plain) : e ≠ .reset := by
  rintro rfl
  cases he

/-- What was queued was saved, and what was saved was given to the sender. -/
theorem Proper.given_of_queued (h : Proper log) (hqueued : Queued log item) :
    .given item.message ∈ recent log := by
  have hgiven (m : Message) (log : List Entry) (h : Proper log) (hsaved : .saved m ∈ recent log) :
      .given m ∈ recent log := by
    induction log with
    | nil => cases hsaved
    | cons e log ih =>
      by_cases he : e = .reset
      · subst he
        simp [recent] at hsaved
      · rw [recent_cons he] at hsaved ⊢
        rcases List.mem_cons.mp hsaved with rfl | hsaved
        · exact List.mem_cons_of_mem _ h.1
        · exact List.mem_cons_of_mem _ (ih h.2 hsaved)
  obtain ⟨again, hqueued⟩ := hqueued
  induction log with
  | nil => cases hqueued
  | cons e log ih =>
    by_cases he : e = .reset
    · subst he
      simp [recent] at hqueued
    · rw [recent_cons he] at hqueued ⊢
      rcases List.mem_cons.mp hqueued with rfl | hqueued
      · exact List.mem_cons_of_mem _ (hgiven _ _ h.2 h.1)
      · exact List.mem_cons_of_mem _ (ih h.2 hqueued)

/-! ## The invariant -/

/-- The messages that a callback is about. -/
def Callback.messages : Callback → List Message
  | sendSaved _ outgoing _ => outgoing.map (·.message)
  | uploadSaved upload => [upload.message]
  | retryLoaded message _ => [message]
  | retrySaved message _ _ _ => [message]

theorem Callback.saves_subset (b : Callback) : b.saves ⊆ b.messages := by
  cases b with
  | retryLoaded message data => exact List.nil_subset _
  | _ => exact fun _ => id

structure State.Traced (s : State) : Prop where
  log : Proper s.log
  queue : ∀ item ∈ s.sendQueue, Queued s.log item
  flies : ∀ item, s.Flies item → Queued s.log item ∧ item.content.isMedia ∧ Uploaded s.log item
  calls : ∀ b, ⟨s.revision, b⟩ ∈ s.calls → ∀ message ∈ b.messages,
    .given message ∈ recent s.log

namespace State.Traced

/-- The log grows by entries without a reset, and nothing new waits. -/
theorem grow (h : s.Traced) (hl : ∀ e ∈ l, e ≠ .reset) (hlog : t.log = l ++ s.log)
    (hproper : Proper t.log) (hqueue : t.sendQueue ⊆ s.sendQueue)
    (huploads : t.imageUploads ⊆ s.imageUploads) (hrevision : t.revision = s.revision)
    (hcalls : t.calls ⊆ s.calls) : t.Traced := by
  have hsub : recent s.log ⊆ recent t.log := by
    rw [hlog]
    exact recent_sub hl
  refine ⟨hproper, fun item hitem => ?_, fun item hitem => ?_, fun b hb message hmessage => ?_⟩
  · obtain ⟨again, hmem⟩ := h.queue item (hqueue hitem)
    exact ⟨again, hsub hmem⟩
  · have hflies : s.Flies item := by
      rcases hitem with ⟨uniqueId, hmem⟩ | hmem
      · exact .inl ⟨uniqueId, huploads hmem⟩
      · rw [hrevision] at hmem
        exact .inr (hcalls hmem)
    obtain ⟨⟨again, hmem⟩, hmedia, huploaded⟩ := h.flies item hflies
    exact ⟨⟨again, hsub hmem⟩, hmedia, hsub huploaded⟩
  · rw [hrevision] at hb
    exact hsub (h.calls b (hcalls hb) message hmessage)

/-- Nothing new is told. -/
theorem shrink (h : s.Traced) (hlog : t.log = s.log) (hqueue : t.sendQueue ⊆ s.sendQueue)
    (huploads : t.imageUploads ⊆ s.imageUploads) (hrevision : t.revision = s.revision)
    (hcalls : t.calls ⊆ s.calls) : t.Traced :=
  h.grow (l := []) (by simp) hlog (hlog ▸ h.log) hqueue huploads hrevision hcalls

theorem quiet (h : s.Traced) (hquiet : Quiet s t) : t.Traced := by
  obtain ⟨l, hlog, hl⟩ := hquiet.log
  refine h.grow (fun e he => Entry.ne_reset_of_plain (hl e he)) hlog ?_ ?_ ?_ hquiet.revision ?_
  · rw [hlog]
    exact h.log.append fun e he => Entry.follows_plain (hl e he)
  · exact fun _ => hquiet.sendQueue ▸ id
  · exact fun _ => hquiet.imageUploads ▸ id
  · exact fun _ => hquiet.calls ▸ id

theorem call (h : s.Traced) (hb : ∀ message ∈ b.messages, .given message ∈ recent s.log)
    (hflies : ∀ item, b = .uploadSaved item → Queued s.log item ∧ item.content.isMedia ∧
      Uploaded s.log item) : (s.call b).Traced := by
  refine ⟨h.log, h.queue, fun item hitem => ?_, fun b' hb' => ?_⟩
  · rcases hitem with hmem | hmem
    · exact h.flies item (.inl hmem)
    · rcases Multiset.mem_cons.mp hmem with heq | hmem
      · exact hflies item (congrArg Call.callback heq).symm
      · exact h.flies item (.inr hmem)
  · rcases Multiset.mem_cons.mp hb' with heq | hmem
    · rw [show b' = b from congrArg Call.callback heq]
      exact hb
    · exact h.calls b' hmem

theorem enqueue (h : s.Traced) {again : Bool} (hsaved : .saved item.message ∈ recent s.log) :
    (s.enqueue item again).Traced := by
  have hsub : recent s.log ⊆ recent (.queued item again :: s.log) :=
    recent_sub (l := [.queued item again]) (by simp)
  have hnew : Queued (.queued item again :: s.log) item := by
    refine ⟨again, ?_⟩
    rw [recent_cons (by simp)]
    exact List.mem_cons_self
  refine ⟨⟨hsaved, h.log⟩, fun other hother => ?_, fun other hother => ?_,
    fun b hb message hm => hsub (h.calls b hb message hm)⟩
  · rcases List.mem_append.mp hother with hother | hother
    · obtain ⟨again', hmem⟩ := h.queue other hother
      exact ⟨again', hsub hmem⟩
    · rw [List.mem_singleton.mp hother]
      exact hnew
  · obtain ⟨⟨again', hmem⟩, hmedia, huploaded⟩ := h.flies other hother
    exact ⟨⟨again', hsub hmem⟩, hmedia, hsub huploaded⟩

theorem accept (h : s.Traced) {outgoing : List OutgoingMessage}
    (hsaved : ∀ item ∈ outgoing, .saved item.message ∈ recent s.log) :
    (outgoing.foldl accept s).Traced := by
  induction outgoing generalizing s with
  | nil => exact h
  | cons item outgoing ih =>
    obtain ⟨r, hr, heq⟩ := accept_cases s item
    obtain ⟨l, hlog, hl⟩ := hr.log
    have hsub : recent s.log ⊆ recent r.log := by
      rw [hlog]
      exact recent_sub fun e he => Entry.ne_reset_of_plain (hl e he)
    rw [List.foldl_cons, heq]
    refine ih ((h.quiet hr).enqueue (hsub (hsaved item List.mem_cons_self))) fun other hother => ?_
    refine recent_sub (l := [.queued item false]) (by simp) (hsub ?_)
    exact hsaved other (List.mem_cons_of_mem _ hother)

theorem mem_recent_of_start (hl : ∀ e ∈ l, e ≠ .reset) (h : l <+: log) :
    ∀ e ∈ l, e ∈ recent log := by
  obtain ⟨rest, rfl⟩ := h
  rw [recent_append hl]
  exact fun e he => List.mem_append_left _ he

theorem reset (h : s.Traced) (hmatched : s.Matched) : s.reset.Traced := by
  refine ⟨⟨trivial, trivial, h.log⟩, fun _ hitem => absurd hitem List.not_mem_nil,
    fun item hitem => ?_, fun b hb => ?_⟩
  · rcases hitem with ⟨uniqueId, hmem⟩ | hmem
    · exact absurd hmem List.not_mem_nil
    · exact absurd (hmatched.revision_le _ hmem) (Nat.not_succ_le_self _)
  · exact absurd (hmatched.revision_le _ hb) (Nat.not_succ_le_self _)

/-! ### The moves -/

/-- A callback is over. -/
theorem forgetCall (h : s.Traced) {c : Call} (hcalls : s.calls = c ::ₘ t.calls)
    (hlog : t.log = s.log) (hqueue : t.sendQueue = s.sendQueue)
    (huploads : t.imageUploads = s.imageUploads) (hrevision : t.revision = s.revision) :
    t.Traced := by
  refine h.shrink hlog (fun _ => hqueue ▸ id) (fun _ => huploads ▸ id) hrevision ?_
  rw [hcalls]
  exact Multiset.subset_cons _ _

theorem startUpload (h : s.Traced) {queue : List OutgoingMessage} (hidle : s.Idle)
    (hqueue : s.sendQueue = item :: queue) (hmedia : item.content.isMedia) :
    (({ s with sendQueue := queue } : State).startUpload item).Traced := by
  have hqueued := h.queue item (hqueue ▸ List.mem_cons_self)
  let asked : Entry := .uploadMedia item.content.imageData item.chat.otherId
    item.message.uniqueId (if item.chat.isGroup then item.chat.threadId else 0)
    item.content.mediaType
  have hasked : recent (asked :: s.log) = asked :: recent s.log := recent_cons (by simp [asked])
  have hsub : recent s.log ⊆ recent (asked :: s.log) := hasked ▸ List.subset_cons_self _ _
  have hnew : Uploaded (asked :: s.log) item := by
    rw [Uploaded, hasked]
    exact List.mem_cons_self
  refine ⟨⟨⟨item, hqueued, hmedia, rfl, rfl⟩, h.log⟩, fun other hother => ?_,
    fun other hother => ?_, fun b hb message hm => hsub (h.calls b hb message hm)⟩
  · obtain ⟨again, hmem⟩ := h.queue other (hqueue ▸ List.mem_cons_of_mem _ hother)
    exact ⟨again, hsub hmem⟩
  · rcases hother with ⟨uniqueId, hmem⟩ | hmem
    · rcases List.mem_cons.mp hmem with heq | hmem
      · cases heq
        obtain ⟨again, hmem⟩ := hqueued
        exact ⟨⟨again, hsub hmem⟩, hmedia, hnew⟩
      · simp [State.forgetUpload, hidle.1] at hmem
    · obtain ⟨⟨again, hmem⟩, hmedia', huploaded⟩ := h.flies other (.inr hmem)
      exact ⟨⟨again, hsub hmem⟩, hmedia', hsub huploaded⟩

theorem asked (h : s.Traced) (data : Chat) (uuid : ℕ → Text) (contents : List MsgInfo)
    (clearDraft : Bool) : (s.asked data (s.create w data uuid contents) clearDraft).Traced := by
  have hgrow : (s.allocate (s.create w data uuid contents)).Traced := by
    refine h.grow (l := (s.create w data uuid contents).map fun item => .given item.message)
      (by simp) rfl ?_ (fun _ => id) (fun _ => id) rfl fun _ => id
    refine h.log.append fun e he earlier => ?_
    obtain ⟨item, -, rfl⟩ := List.mem_map.mp he
    trivial
  have hcall := hgrow.call (b := .sendSaved data (s.create w data uuid contents) clearDraft)
    (fun message hm => ?_) (by simp)
  · exact ⟨hcall.log, hcall.queue, hcall.flies, hcall.calls⟩
  · obtain ⟨item, hitem, rfl⟩ := List.mem_map.mp hm
    exact mem_recent_of_start (l := (s.create w data uuid contents).map fun item =>
      .given item.message) (by simp) (List.prefix_append _ _) _ (List.mem_map_of_mem hitem)

theorem sendOver (h : s.Traced) {data : Chat} {outgoing : List OutgoingMessage}
    {clearDraft : Bool} {m : Multiset Call}
    (hcalls : s.calls = ⟨s.revision, .sendSaved data outgoing clearDraft⟩ ::ₘ m)
    (hsaved : outgoing.map (fun item => Entry.saved item.message) <+: s.log)
    (hquiet : Quiet { s with calls := m, saving := false } t) :
    (outgoing.foldl State.accept t).Traced := by
  have hrefused : ({ s with calls := m, saving := false } : State).Traced :=
    h.forgetCall hcalls rfl rfl rfl rfl
  refine (hrefused.quiet hquiet).accept fun item hitem => ?_
  obtain ⟨l, hlog, hl⟩ := hquiet.log
  rw [hlog]
  refine recent_sub (fun e he => Entry.ne_reset_of_plain (hl e he)) ?_
  exact mem_recent_of_start (by simp) hsaved _ (List.mem_map_of_mem hitem)

theorem commit (h : s.Traced) {requestId : Text} (fileId : Text) {upload : OutgoingMessage}
    (hupload : s.upload requestId = some upload) :
    (({ s with uploading := s.uploading.erase requestId } : State).commit requestId fileId
      upload).Traced := by
  have hflies := h.flies upload (.inl ⟨requestId, upload_mem hupload⟩)
  have hforget : ({ s with
      uploading := s.uploading.erase requestId
      imageUploads := (s.forgetUpload requestId).imageUploads } : State).Traced :=
    h.shrink rfl (fun _ => id) List.filter_sublist.subset rfl fun _ => id
  have hcall := hforget.call (b := .uploadSaved upload) (fun message hm => ?_) ?_
  · exact ⟨hcall.log, hcall.queue, hcall.flies, hcall.calls⟩
  · rw [List.mem_singleton.mp hm]
    exact h.log.given_of_queued hflies.1
  · rintro item ⟨⟩
    exact hflies

/-- A media message is sent right after it was saved with its file. -/
theorem commitSent (h : s.Traced) {upload : OutgoingMessage} {m : Multiset Call}
    (hcalls : s.calls = ⟨s.revision, .uploadSaved upload⟩ ::ₘ m)
    (hsaved : [.saved upload.message] <+: s.log) :
    (({ s with calls := m, uploadCommitting := false } : State).dispatched w upload.message
      upload.chat).Traced := by
  have hflies := h.flies upload (.inr (hcalls ▸ Multiset.mem_cons_self _ _))
  refine h.grow (l := [.sendData _]) (by simp) rfl ⟨⟨upload, hflies.1, rfl, fun _ => ?_⟩, h.log⟩
    (fun _ => id) (fun _ => id) rfl (hcalls ▸ Multiset.subset_cons _ _)
  obtain ⟨rest, hlog⟩ := hsaved
  refine ⟨rest, hlog.symm, ?_⟩
  have huploaded := hflies.2.2
  rw [← hlog, Uploaded, List.singleton_append, recent_cons (by simp)] at huploaded
  exact (List.mem_cons.mp huploaded).resolve_left (by simp)

theorem retrying (h : s.Traced) (message : Message) (data : Chat) :
    ((s.retrying message).call (.retryLoaded message data)).Traced := by
  have hgiven : (s.emit (.given message)).Traced :=
    h.grow (l := [.given message]) (by simp) rfl ⟨trivial, h.log⟩ (fun _ => id) (fun _ => id) rfl
      fun _ => id
  have hcall := hgiven.call (b := .retryLoaded message data) (fun m hm => ?_) (by simp)
  · exact ⟨hcall.log, hcall.queue, hcall.flies, hcall.calls⟩
  · rw [List.mem_singleton.mp hm]
    unfold emit
    rw [recent_cons (by simp)]
    exact List.mem_cons_self

theorem move (h : s.Traced) (hmatched : s.Matched) (hmove : Move C qt allows w s t) : t.Traced := by
  cases hmove with
  | quiet hquiet => exact h.quiet hquiet
  | pass _ hqueue =>
    refine h.shrink rfl ?_ (fun _ => id) rfl fun _ => id
    exact hqueue ▸ List.subset_cons_self _ _
  | upload hidle hqueue hmedia => exact h.startUpload hidle hqueue hmedia
  | @send item queue _ hqueue hmedia =>
    refine h.grow (l := [.sendData _]) (by simp) rfl ⟨⟨item, ?_, rfl, ?_⟩, h.log⟩ ?_
      (fun _ => id) rfl fun _ => id
    · exact h.queue item (hqueue ▸ List.mem_cons_self)
    · intro h'
      rw [hmedia] at h'
      cases h'
    · exact hqueue ▸ List.subset_cons_self _ _
  | forgetThread threadId =>
    exact h.shrink rfl List.filter_sublist.subset List.filter_sublist.subset rfl fun _ => id
  | reset => exact h.reset hmatched
  | ask clearDraft => exact h.asked _ _ _ clearDraft
  | @note b m hcalls =>
    refine h.grow (l := b.saves.map .saved) (by simp) rfl ?_ (fun _ => id) (fun _ => id) rfl
      fun _ => id
    refine h.log.saved fun message hm => h.calls b ?_ message (b.saves_subset hm)
    exact hcalls ▸ Multiset.mem_cons_self _ _
  | stale hcalls | sendRefused hcalls | commitOver hcalls | retryOver hcalls =>
    exact h.forgetCall hcalls rfl rfl rfl rfl
  | sendOver hcalls hsaved hquiet => exact h.sendOver hcalls hsaved hquiet
  | uploadOver =>
    exact h.shrink rfl (fun _ => id) List.filter_sublist.subset rfl fun _ => id
  | commit _ hupload => exact h.commit _ hupload
  | commitSent hcalls hsaved => exact h.commitSent hcalls hsaved
  | retry data => exact h.retrying _ data
  | @retryNext message data image m hcalls =>
    have hloaded : ({ s with calls := m } : State).Traced := h.forgetCall hcalls rfl rfl rfl rfl
    refine hloaded.call (fun m hm => ?_) (by simp)
    exact h.calls (.retryLoaded message data) (hcalls ▸ Multiset.mem_cons_self _ _) m hm
  | @retryQueued message data image needsUpload m hcalls hsaved =>
    have hover : (({ s with calls := m } : State).forgetRetry message.uniqueId).Traced :=
      h.forgetCall hcalls rfl rfl rfl rfl
    exact hover.enqueue (mem_recent_of_start (by simp) hsaved _ List.mem_cons_self)
  | _ => exact h.shrink rfl (fun _ => id) (fun _ => id) rfl fun _ => id

end State.Traced

theorem traced_invariant :
    (machine C qt).Invariant fun s => (s.Uploads ∧ s.Matched) ∧ s.Traced := by
  refine invariant_of_moves (fun contents allocated => ⟨?_, trivial, ?_, ?_, ?_⟩) ?_
  · exact (@matched_invariant C qt).init _ ⟨contents, allocated, rfl⟩
  · exact fun item hitem => absurd hitem List.not_mem_nil
  · rintro item (⟨uniqueId, hmem⟩ | hmem)
    · exact absurd hmem List.not_mem_nil
    · exact absurd hmem (Multiset.notMem_zero _)
  · exact fun b hb => absurd hb (Multiset.notMem_zero _)
  · rintro w s t ⟨⟨huploads, hmatched⟩, htraced⟩ hmove
    exact ⟨⟨huploads.move hmove, hmatched.move huploads hmove⟩, htraced.move hmatched hmove⟩

/-- Every entry of a run follows those that it must: a message is given to the sender before it is
known to be saved, saved before it is queued, queued before it is uploaded or sent, and a media
message is uploaded and saved again before it is sent; all of this since the last reset. -/
theorem sent_after_saved (C : Texts.EmojiCatalog) (qt : Attachments.Qt) {s : State}
    (hs : (machine C qt).Reachable s) {later earlier : List Entry} {e : Entry}
    (hlog : s.log = later ++ e :: earlier) : e.Follows earlier :=
  (traced_invariant.reachable hs).2.log.follows hlog

theorem sample_sent_after_saved : ∃ s later packet earlier,
    (machine ⟨[], by simp⟩ Attachments.sampleQt).Reachable s ∧
      s.log = later ++ .sendData packet :: earlier ∧ packet.content = [0x66] ∧
      (Entry.sendData packet).Follows earlier := by
  have hrun : (sampleRun (sampleSend ++ sampleUploaded)).map (fun s => (s.log.drop 2).head?) =
      some (some (.sendData ⟨[0x66], sampleUuid 0, 5, 9, 7, 1⟩)) := by decide
  obtain ⟨s, hs, hhead⟩ := Option.map_eq_some_iff.mp hrun
  have hreachable := sampleRun_reachable hs
  obtain ⟨earlier, hdrop⟩ := List.head?_eq_some_iff.mp hhead
  have hlog : s.log = s.log.take 2 ++ .sendData ⟨[0x66], sampleUuid 0, 5, 9, 7, 1⟩ :: earlier := by
    rw [← hdrop, List.take_append_drop]
  exact ⟨s, _, _, earlier, hreachable, hlog, rfl, sent_after_saved _ _ hreachable hlog⟩

end CppChat.Sending
