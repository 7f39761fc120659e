import CppChat.Sending.Provenance

/-! # The placeholder of a media message

Until its upload is over a media message has a placeholder for a text. It never leaves the client,
if the uploads end with other ids and others change a message only to confirm it.
-/
namespace CppChat.Sending
open Foundation (Machine)
open Foundation.Cbor (Bytes)
open Foundation.Utf16 (Text)
open State

variable {C : Texts.EmojiCatalog} {qt : Attachments.Qt} {w : World} {s t : State}
  {message : Message} {item : OutgoingMessage} {b : Callback}

/-- What others may do. -/
def Decent (s : State) : Event → Prop
  | .uploadFinished _ fileId _ => ¬ pending <+: fileId
  | .change message contents => 0 < contents.msgId ∨
    contents.msgId = (s.contents message).msgId ∧ contents.content = (s.contents message).content
  | _ => True

instance (s : State) : DecidablePred (Decent s)
  | .uploadFinished _ fileId _ => inferInstanceAs (Decidable (¬ pending <+: fileId))
  | .change message contents => inferInstanceAs (Decidable (0 < contents.msgId ∨
    contents.msgId = (s.contents message).msgId ∧ contents.content = (s.contents message).content))
  | .send _ _ _ _ _ | .retry _ _ | .removeThread _ | .reset | .failPending _ _ _
  | .uploadProgress _ _ _ | .answer _ _ | .timeout _ | .make _ _ => isTrue trivial

/-- A media message with a placeholder is confirmed. -/
def State.Real (s : State) (message : Message) : Prop :=
  message.isMedia → pending <+: (s.contents message).content → 0 < (s.contents message).msgId

/-- The messages that the sender still goes by. -/
def State.Tracks (s : State) (message : Message) : Prop :=
  (∃ item ∈ s.sendQueue, item.message = message) ∨ (∃ e ∈ s.imageUploads, e.2.message = message) ∨
    ∃ c ∈ s.calls, message ∈ c.callback.messages

structure State.Filled (s : State) : Prop where
  packets : ∀ packet, .sendData packet ∈ s.log → packet.messageType ≠ 0 →
    ¬ pending <+: packet.content
  queue : ∀ item ∈ s.sendQueue, item.content.isMedia = false → s.Real item.message
  sends : ∀ revision data outgoing clearDraft,
    ⟨revision, .sendSaved data outgoing clearDraft⟩ ∈ s.calls →
      ∀ item ∈ outgoing, item.content.isMedia = false → item.message.isMedia = false
  commits : ∀ revision upload, ⟨revision, .uploadSaved upload⟩ ∈ s.calls → s.Real upload.message
  retries : ∀ revision message data image,
    ⟨revision, .retrySaved message data image false⟩ ∈ s.calls → s.Real message
  known : ∀ message, s.Tracks message → message.ref < s.allocated

theorem real_congr (hmsgId : (t.contents message).msgId = (s.contents message).msgId)
    (hcontent : (t.contents message).content = (s.contents message).content)
    (h : s.Real message) : t.Real message := by
  unfold State.Real at h ⊢
  rwa [hmsgId, hcontent]

theorem real_of_text (h : message.isMedia = false) : s.Real message := by
  intro hmedia
  rw [h] at hmedia
  cases hmedia

theorem messageType_ne (h : message.msgType.toInt ≠ 0) : message.isMedia := by
  unfold Message.isMedia
  cases hk : message.msgType with
  | text => simp [hk, ChatMsgType.toInt] at h
  | pic | file | audio => rfl

namespace State.Filled

/-- Nothing new is sent or waited for. -/
theorem mono (h : s.Filled) (hlog : ∀ packet, .sendData packet ∈ t.log → .sendData packet ∈ s.log)
    (hqueue : t.sendQueue ⊆ s.sendQueue) (huploads : t.imageUploads ⊆ s.imageUploads)
    (hcalls : t.calls ⊆ s.calls) (hreal : ∀ message, s.Tracks message → s.Real message →
      t.Real message) (hallocated : s.allocated ≤ t.allocated) : t.Filled := by
  refine ⟨fun packet hp => h.packets packet (hlog packet hp), fun item hitem hmedia => ?_,
    fun revision data outgoing clearDraft hc =>
      h.sends revision data outgoing clearDraft (hcalls hc), fun revision upload hc => ?_,
    fun revision message data image hc => ?_, fun message htracks => ?_⟩
  · exact hreal _ (.inl ⟨item, hqueue hitem, rfl⟩) (h.queue item (hqueue hitem) hmedia)
  · exact hreal _ (.inr (.inr ⟨_, hcalls hc, List.mem_cons_self⟩)) (h.commits _ _ (hcalls hc))
  · exact hreal _ (.inr (.inr ⟨_, hcalls hc, List.mem_cons_self⟩)) (h.retries _ _ _ _ (hcalls hc))
  · refine lt_of_lt_of_le (h.known message ?_) hallocated
    rcases htracks with ⟨item, hitem, rfl⟩ | ⟨e, he, rfl⟩ | ⟨c, hc, hm⟩
    · exact .inl ⟨item, hqueue hitem, rfl⟩
    · exact .inr (.inl ⟨e, huploads he, rfl⟩)
    · exact .inr (.inr ⟨c, hcalls hc, hm⟩)

theorem quiet (h : s.Filled) (hquiet : Quiet s t) : t.Filled := by
  obtain ⟨l, hlog, hl⟩ := hquiet.log
  refine h.mono (fun packet hp => ?_) (fun _ => hquiet.sendQueue ▸ id)
    (fun _ => hquiet.imageUploads ▸ id) (fun _ => hquiet.calls ▸ id)
    (fun message _ => real_congr (hquiet.msgId message) (hquiet.content message))
    hquiet.allocated.ge
  rw [hlog] at hp
  exact (List.mem_append.mp hp).resolve_left fun hmem => by cases hl _ hmem

/-- A callback is over. -/
theorem forgetCall (h : s.Filled) {c : Call} (hcalls : s.calls = c ::ₘ t.calls)
    (hlog : t.log = s.log) (hqueue : t.sendQueue = s.sendQueue)
    (huploads : t.imageUploads = s.imageUploads) (hcontents : t.contents = s.contents)
    (hallocated : t.allocated = s.allocated) : t.Filled := by
  refine h.mono (fun _ => hlog ▸ id) (fun _ => hqueue ▸ id) (fun _ => huploads ▸ id) ?_
    (fun m _ => real_congr (by rw [hcontents]) (by rw [hcontents])) hallocated.ge
  rw [hcalls]
  exact Multiset.subset_cons _ _

theorem pop (h : s.Filled) {queue : List OutgoingMessage} (hqueue : s.sendQueue = item :: queue) :
    ({ s with sendQueue := queue } : State).Filled := by
  refine h.mono (fun _ => id) ?_ (fun _ => id) (fun _ => id) (fun _ _ => id) (le_refl _)
  exact hqueue ▸ List.subset_cons_self _ _

theorem startUpload (h : s.Filled) {queue : List OutgoingMessage}
    (hqueue : s.sendQueue = item :: queue) :
    (({ s with sendQueue := queue } : State).startUpload item).Filled := by
  have hpopped := h.pop hqueue
  refine ⟨fun packet hp => ?_, hpopped.queue, hpopped.sends, hpopped.commits, hpopped.retries,
    fun message htracks => ?_⟩
  · exact h.packets packet ((List.mem_cons.mp hp).resolve_left (by simp))
  · rcases htracks with htracks | ⟨e, he, rfl⟩ | htracks
    · exact hpopped.known message (.inl htracks)
    · rcases List.mem_cons.mp he with rfl | he
      · exact h.known _ (.inl ⟨item, hqueue ▸ List.mem_cons_self, rfl⟩)
      · exact hpopped.known _ (.inr (.inl ⟨e, (List.mem_filter.mp he).1, rfl⟩))
    · exact hpopped.known message (.inr (.inr htracks))

/-- A packet is sent of a message that is not confirmed. -/
theorem sent (h : s.Filled) {packet : Packet} (hlog : t.log = .sendData packet :: s.log)
    (hqueue : t.sendQueue ⊆ s.sendQueue) (huploads : t.imageUploads ⊆ s.imageUploads)
    (hcalls : t.calls ⊆ s.calls) (hcontents : t.contents = s.contents)
    (hallocated : s.allocated = t.allocated) (hreal : s.Real message)
    (hcontent : packet.content = (s.contents message).content)
    (htype : packet.messageType = message.msgType.toInt)
    (hmsgId : (s.contents message).msgId ≤ 0) : t.Filled := by
  have hmono : ({ t with log := s.log } : State).Filled :=
    h.mono (fun _ => id) hqueue huploads hcalls
      (fun m _ => real_congr (by rw [hcontents]) (by rw [hcontents])) hallocated.le
  refine ⟨fun p hp htype' => ?_, hmono.queue, hmono.sends, hmono.commits, hmono.retries,
    hmono.known⟩
  rw [hlog] at hp
  rcases List.mem_cons.mp hp with heq | hp
  · cases heq
    rw [htype] at htype'
    rw [hcontent]
    exact fun hpending => absurd (hreal (messageType_ne htype') hpending) hmsgId.not_gt
  · exact h.packets p hp htype'

theorem call (h : s.Filled) (hsends : ∀ data outgoing clearDraft,
      b = .sendSaved data outgoing clearDraft →
        ∀ item ∈ outgoing, item.content.isMedia = false → item.message.isMedia = false)
    (hcommits : ∀ upload, b = .uploadSaved upload → s.Real upload.message)
    (hretries : ∀ message data image, b = .retrySaved message data image false → s.Real message)
    (hknown : ∀ message ∈ b.messages, message.ref < s.allocated) : (s.call b).Filled := by
  refine ⟨h.packets, h.queue, fun revision data outgoing clearDraft hc => ?_,
    fun revision upload hc => ?_, fun revision message data image hc => ?_,
    fun message htracks => ?_⟩
  · rcases Multiset.mem_cons.mp hc with heq | hc
    · exact hsends data outgoing clearDraft (congrArg Call.callback heq).symm
    · exact h.sends revision data outgoing clearDraft hc
  · rcases Multiset.mem_cons.mp hc with heq | hc
    · exact hcommits upload (congrArg Call.callback heq).symm
    · exact h.commits revision upload hc
  · rcases Multiset.mem_cons.mp hc with heq | hc
    · exact hretries message data image (congrArg Call.callback heq).symm
    · exact h.retries revision message data image hc
  · rcases htracks with htracks | htracks | ⟨c, hc, hm⟩
    · exact h.known message (.inl htracks)
    · exact h.known message (.inr (.inl htracks))
    · rcases Multiset.mem_cons.mp hc with rfl | hc
      · exact hknown message hm
      · exact h.known message (.inr (.inr ⟨c, hc, hm⟩))

theorem enqueue (h : s.Filled) {again : Bool}
    (hreal : item.content.isMedia = false → s.Real item.message)
    (hknown : item.message.ref < s.allocated) : (s.enqueue item again).Filled := by
  refine ⟨fun packet hp => ?_, fun other hother => ?_, h.sends, h.commits, h.retries,
    fun message htracks => ?_⟩
  · exact h.packets packet ((List.mem_cons.mp hp).resolve_left (by simp))
  · rcases List.mem_append.mp hother with hother | hother
    · exact h.queue other hother
    · rw [List.mem_singleton.mp hother]
      exact hreal
  · rcases htracks with ⟨other, hother, rfl⟩ | htracks
    · rcases List.mem_append.mp hother with hother | hother
      · exact h.known _ (.inl ⟨other, hother, rfl⟩)
      · rw [List.mem_singleton.mp hother]
        exact hknown
    · exact h.known message (.inr htracks)

theorem accept (h : s.Filled) {outgoing : List OutgoingMessage}
    (htext : ∀ item ∈ outgoing, item.content.isMedia = false → item.message.isMedia = false)
    (hknown : ∀ item ∈ outgoing, item.message.ref < s.allocated) :
    (outgoing.foldl accept s).Filled := by
  induction outgoing generalizing s with
  | nil => exact h
  | cons item outgoing ih =>
    obtain ⟨r, hr, heq⟩ := accept_cases s item
    rw [List.foldl_cons, heq]
    refine ih ((h.quiet hr).enqueue (fun hmedia => ?_) ?_) (fun other hother => ?_)
      fun other hother => ?_
    · exact real_of_text (htext item List.mem_cons_self hmedia)
    · rw [hr.allocated]
      exact hknown item List.mem_cons_self
    · exact htext other (List.mem_cons_of_mem _ hother)
    · change other.message.ref < r.allocated
      rw [hr.allocated]
      exact hknown other (List.mem_cons_of_mem _ hother)

end State.Filled

/-! ## New messages -/

theorem mem_create {data : Chat} {uuid : ℕ → Text} {contents : List MsgInfo}
    (h : item ∈ s.create w data uuid contents) : s.allocated ≤ item.message.ref ∧
      item.message.ref < s.allocated + (s.create w data uuid contents).length ∧
      item.message.msgType = item.content.msgType := by
  unfold create at h ⊢
  obtain ⟨i, hi, rfl⟩ := List.mem_mapIdx.mp h
  rw [List.length_mapIdx]
  exact ⟨Nat.le_add_right _ _, Nat.add_lt_add_left hi _, rfl⟩

theorem create_text {data : Chat} {uuid : ℕ → Text} {contents : List MsgInfo}
    (h : item ∈ s.create w data uuid contents) (hmedia : item.content.isMedia = false) :
    item.message.isMedia = false := by
  have htype := (mem_create h).2.2
  simp only [MsgInfo.isMedia, decide_eq_false_iff_not, not_or] at hmedia
  simp only [Message.isMedia, htype, MsgInfo.msgType, hmedia, if_false]
  rfl

/-- The contents of the messages that were there stay. -/
theorem allocate_contents {outgoing : List OutgoingMessage}
    (h : ∀ item ∈ outgoing, item.message ≠ message) :
    (s.allocate outgoing).contents message = s.contents message := by
  unfold allocate
  dsimp only
  generalize s.contents = contents
  induction outgoing generalizing contents with
  | nil => rfl
  | cons item outgoing ih =>
    rw [List.foldl_cons, ih (fun other hother => h other (List.mem_cons_of_mem _ hother)),
      Function.update_of_ne (h item List.mem_cons_self).symm]

/-! ## The moves -/

namespace State.Filled

theorem asked (h : s.Filled) (data : Chat) (uuid : ℕ → Text) (contents : List MsgInfo)
    (clearDraft : Bool) : (s.asked data (s.create w data uuid contents) clearDraft).Filled := by
  have hgrown : (s.allocate (s.create w data uuid contents)).Filled := by
    refine h.mono (fun packet hp => ?_) (fun _ => id) (fun _ => id) (fun _ => id)
      (fun message htracks => ?_) (Nat.le_add_right _ _)
    · exact (List.mem_append.mp hp).resolve_left (by simp)
    · -- what is tracked was made before
      have hold : (s.allocate (s.create w data uuid contents)).contents message =
          s.contents message := by
        refine allocate_contents fun item hitem heq => ?_
        have hle := (mem_create hitem).1
        rw [heq] at hle
        exact absurd (h.known message htracks) hle.not_gt
      exact real_congr (by rw [hold]) (by rw [hold])
  have hcall := hgrown.call (b := .sendSaved data (s.create w data uuid contents) clearDraft)
    (fun data' outgoing clearDraft' heq item hitem hmedia => ?_) (by simp) (by simp)
    fun message hm => ?_
  · exact ⟨hcall.packets, hcall.queue, hcall.sends, hcall.commits, hcall.retries, hcall.known⟩
  · cases heq
    exact create_text hitem hmedia
  · obtain ⟨item, hitem, rfl⟩ := List.mem_map.mp hm
    exact (mem_create hitem).2.1

theorem sendOver (h : s.Filled) {data : Chat} {outgoing : List OutgoingMessage}
    {clearDraft : Bool} {m : Multiset Call}
    (hcalls : s.calls = ⟨s.revision, .sendSaved data outgoing clearDraft⟩ ::ₘ m)
    (hquiet : Quiet { s with calls := m, saving := false } t) :
    (outgoing.foldl State.accept t).Filled := by
  have hmem : ⟨s.revision, .sendSaved data outgoing clearDraft⟩ ∈ s.calls :=
    hcalls ▸ Multiset.mem_cons_self _ _
  have hover : ({ s with calls := m, saving := false } : State).Filled :=
    h.forgetCall hcalls rfl rfl rfl rfl rfl
  refine (hover.quiet hquiet).accept (h.sends _ data outgoing clearDraft hmem) fun item hitem => ?_
  rw [hquiet.allocated]
  exact h.known _ (.inr (.inr ⟨_, hmem, List.mem_map_of_mem hitem⟩))

theorem commit (h : s.Filled) {requestId fileId : Text} {upload : OutgoingMessage}
    (hfile : ¬ pending <+: fileId) (hupload : s.upload requestId = some upload) :
    (({ s with uploading := s.uploading.erase requestId } : State).commit requestId fileId
      upload).Filled := by
  -- the state that the call is made in
  let r : State := { s with
    uploading := s.uploading.erase requestId
    imageUploads := (s.forgetUpload requestId).imageUploads
    uploadCommitting := true
    contents := Function.update s.contents upload.message
      { s.contents upload.message with content := fileId } }
  have hnew : r.Real upload.message := by
    intro _ hpending
    simp only [r, Function.update_self] at hpending
    exact absurd hpending hfile
  have hforget : r.Filled := by
    refine h.mono (fun _ => id) (fun _ => id) List.filter_sublist.subset (fun _ => id)
      (fun message _ hreal => ?_) (le_refl _)
    by_cases hm : message = upload.message
    · exact hm ▸ hnew
    · exact real_congr (by simp only [r, Function.update_of_ne hm])
        (by simp only [r, Function.update_of_ne hm]) hreal
  refine hforget.call (b := .uploadSaved upload) (by simp) (fun other heq => ?_) (by simp)
    fun message hm => ?_
  · cases heq
    exact hnew
  · rw [List.mem_singleton.mp hm]
    exact h.known _ (.inr (.inl ⟨_, upload_mem hupload, rfl⟩))

theorem retrying (h : s.Filled) (data : Chat) (href : message.ref < s.allocated) :
    ((s.retrying message).call (.retryLoaded message data)).Filled := by
  have hgiven : (s.retrying message).Filled := by
    refine h.mono (fun packet hp => ?_) (fun _ => id) (fun _ => id) (fun _ => id)
      (fun _ _ => id) (le_refl _)
    exact (List.mem_cons.mp hp).resolve_left (by simp)
  refine hgiven.call (by simp) (by simp) (by simp) fun m hm => ?_
  rw [List.mem_singleton.mp hm]
  exact href

/-- A message that keeps its placeholder waits with its bytes. -/
theorem retryNext (h : s.Filled) {data : Chat} {image : Bytes} {m : Multiset Call}
    (hcalls : s.calls = ⟨s.revision, .retryLoaded message data⟩ ::ₘ m)
    (hreadable : ¬ (message.isMedia ∧ pending <+: (s.contents message).content ∧ image = [])) :
    (({ s with calls := m } : State).call
      (.retrySaved message data image (message.isMedia && image ≠ []))).Filled := by
  have hmem : ⟨s.revision, .retryLoaded message data⟩ ∈ s.calls :=
    hcalls ▸ Multiset.mem_cons_self _ _
  have hover : ({ s with calls := m } : State).Filled :=
    h.forgetCall hcalls rfl rfl rfl rfl rfl
  refine hover.call (by simp) (by simp) (fun message' data' image' heq hmedia hpending => ?_)
    fun m hm => ?_
  · simp only [Callback.retrySaved.injEq] at heq
    obtain ⟨rfl, -, -, hneeds⟩ := heq
    rw [hmedia, Bool.true_and, decide_eq_false_iff_not, not_not] at hneeds
    exact absurd ⟨hmedia, hpending, hneeds⟩ hreadable
  · rw [List.mem_singleton.mp hm]
    exact h.known _ (.inr (.inr ⟨_, hmem, List.mem_cons_self⟩))

theorem retryQueued (h : s.Filled) {data : Chat} {image : Bytes} {needsUpload : Bool}
    {m : Multiset Call}
    (hcalls : s.calls = ⟨s.revision, .retrySaved message data image needsUpload⟩ ::ₘ m) :
    ((({ s with calls := m } : State).forgetRetry message.uniqueId).enqueue
      (s.retried message data image needsUpload) true).Filled := by
  have hmem : ⟨s.revision, .retrySaved message data image needsUpload⟩ ∈ s.calls :=
    hcalls ▸ Multiset.mem_cons_self _ _
  have hover : (({ s with calls := m } : State).forgetRetry message.uniqueId).Filled :=
    h.forgetCall hcalls rfl rfl rfl rfl rfl
  refine hover.enqueue (fun hmedia => ?_) ?_
  · cases needsUpload with
    | false => exact h.retries s.revision message data image hmem
    | true =>
      simp only [retried, MsgInfo.isMedia, if_true] at hmedia
      split at hmedia
      · simp at hmedia
      · split at hmedia <;> simp at hmedia
  · exact h.known _ (.inr (.inr ⟨_, hmem, List.mem_cons_self⟩))

theorem make (h : s.Filled) {contents : Contents} (href : message.ref = s.allocated) :
    ({ s with
      allocated := s.allocated + 1
      contents := Function.update s.contents message contents } : State).Filled := by
  refine h.mono (fun _ => id) (fun _ => id) (fun _ => id) (fun _ => id)
    (fun other htracks hreal => ?_) (Nat.le_succ _)
  have hne : other ≠ message := by
    rintro rfl
    exact absurd (h.known other htracks) href.ge.not_gt
  exact real_congr (by simp only [Function.update_of_ne hne])
    (by simp only [Function.update_of_ne hne]) hreal

theorem change (h : s.Filled) {contents : Contents}
    (hdecent : Decent s (.change message contents)) :
    ({ s with contents := Function.update s.contents message contents } : State).Filled := by
  refine h.mono (fun _ => id) (fun _ => id) (fun _ => id) (fun _ => id)
    (fun other _ hreal => ?_) (le_refl _)
  by_cases hm : other = message
  · subst hm
    rcases hdecent with hconfirmed | ⟨hmsgId, hcontent⟩
    · intro _ _
      simpa only [Function.update_self] using hconfirmed
    · exact real_congr (by simpa only [Function.update_self] using hmsgId)
        (by simpa only [Function.update_self] using hcontent) hreal
  · exact real_congr (by simp only [Function.update_of_ne hm])
      (by simp only [Function.update_of_ne hm]) hreal

theorem move (h : s.Filled) (hmove : Move C qt Decent w s t) : t.Filled := by
  cases hmove with
  | quiet hquiet => exact h.quiet hquiet
  | pass _ hqueue => exact h.pop hqueue
  | upload _ hqueue => exact h.startUpload hqueue
  | @send item queue _ hqueue hmedia hmsgId =>
    refine h.sent rfl ?_ (fun _ => id) (fun _ => id) rfl rfl ?_ rfl rfl hmsgId
    · exact hqueue ▸ List.subset_cons_self _ _
    · exact h.queue item (hqueue ▸ List.mem_cons_self) hmedia
  | forgetThread threadId =>
    exact h.mono (fun _ => id) List.filter_sublist.subset List.filter_sublist.subset (fun _ => id)
      (fun _ _ => id) (le_refl _)
  | reset =>
    refine h.mono (fun packet hp => ?_) (List.nil_subset _) (List.nil_subset _) (fun _ => id)
      (fun _ _ => id) (le_refl _)
    simpa [State.reset, emit] using hp
  | ask clearDraft => exact h.asked _ _ _ clearDraft
  | note hcalls =>
    refine h.mono (fun packet hp => ?_) (fun _ => id) (fun _ => id) (fun _ => id) (fun _ _ => id)
      (le_refl _)
    exact (List.mem_append.mp hp).resolve_left (by simp)
  | stale hcalls | sendRefused hcalls | commitOver hcalls | retryOver hcalls =>
    exact h.forgetCall hcalls rfl rfl rfl rfl rfl
  | sendOver hcalls _ hquiet => exact h.sendOver hcalls hquiet
  | uploadOver =>
    exact h.mono (fun _ => id) (fun _ => id) List.filter_sublist.subset (fun _ => id)
      (fun _ _ => id) (le_refl _)
  | commit hfile hupload => exact h.commit hfile hupload
  | @commitSent upload m hcalls _ hmsgId =>
    refine h.sent rfl (fun _ => id) (fun _ => id) ?_ rfl rfl ?_ rfl rfl hmsgId
    · exact hcalls ▸ Multiset.subset_cons _ _
    · exact h.commits s.revision upload (hcalls ▸ Multiset.mem_cons_self _ _)
  | retry data href => exact h.retrying data href
  | retryNext hcalls hreadable => exact h.retryNext hcalls hreadable
  | retryQueued hcalls => exact h.retryQueued hcalls
  | make _ href => exact h.make href
  | change hdecent => exact h.change hdecent
  | _ =>
    exact h.mono (fun _ => id) (fun _ => id) (fun _ => id) (fun _ => id) (fun _ _ => id) (le_refl _)

end State.Filled

theorem filled_invariant :
    ((machine C qt).restrict fun s a => Decent s a.2).Invariant State.Filled := by
  refine invariant_of_allowed_moves (fun contents allocated => ⟨?_, ?_, ?_, ?_, ?_, ?_⟩)
    fun _ _ _ h hmove => h.move hmove
  · exact fun packet hp => absurd hp List.not_mem_nil
  · exact fun item hitem => absurd hitem List.not_mem_nil
  · exact fun _ _ _ _ hc => absurd hc (Multiset.notMem_zero _)
  · exact fun _ _ hc => absurd hc (Multiset.notMem_zero _)
  · exact fun _ _ _ _ hc => absurd hc (Multiset.notMem_zero _)
  · rintro message (⟨item, hitem, -⟩ | ⟨e, he, -⟩ | ⟨c, hc, -⟩)
    · exact absurd hitem List.not_mem_nil
    · exact absurd he List.not_mem_nil
    · exact absurd hc (Multiset.notMem_zero _)

/-- No packet of a picture, a file or a voice message carries a placeholder. -/
theorem placeholder_stays (C : Texts.EmojiCatalog) (qt : Attachments.Qt) {s : State}
    (hs : ((machine C qt).restrict fun s a => Decent s a.2).Reachable s) {packet : Packet}
    (hsent : .sendData packet ∈ s.log) (hmedia : packet.messageType ≠ 0) :
    ¬ pending <+: packet.content :=
  (filled_invariant.reachable hs).packets packet hsent hmedia

theorem sample_placeholder : ∃ s packet,
    ((machine ⟨[], by simp⟩ Attachments.sampleQt).restrict fun s a => Decent s a.2).Reachable s ∧
      .sendData packet ∈ s.log ∧ packet.messageType ≠ 0 ∧ ¬ pending <+: packet.content := by
  have hrun : (Machine.runFn (fun s a => if Decent s a.2 then
        s.next ⟨[], by simp⟩ Attachments.sampleQt a else none) sampleStart
      (sampleSend ++ sampleUploaded)).map (fun s => (s.log.drop 2).head?) =
      some (some (.sendData ⟨[0x66], sampleUuid 0, 5, 9, 7, 1⟩)) := by decide
  obtain ⟨s, hs, hhead⟩ := Option.map_eq_some_iff.mp hrun
  have hreachable : ((machine ⟨[], by simp⟩ Attachments.sampleQt).restrict
      fun s a => Decent s a.2).Reachable s :=
    Machine.Reachable.runFn_restrict (.init ⟨_, _, rfl⟩) hs
  have hsent : .sendData ⟨[0x66], sampleUuid 0, 5, 9, 7, 1⟩ ∈ s.log :=
    List.mem_of_mem_drop (List.mem_of_mem_head? hhead)
  exact ⟨s, _, hreachable, hsent, by decide, placeholder_stays _ _ hreachable hsent (by decide)⟩

end CppChat.Sending
