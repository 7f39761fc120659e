import CppChat.Sending.Service

/-! # What the steps of sending change

Most of what the sender does is told to others and changes nothing that it goes by. What is left
is the loop over the queue: an item is passed over, or sent, or its upload begins.
-/
namespace CppChat.Sending
open Foundation.Cbor (Bytes)
open Foundation.Utf16 (Text)
open State

variable {w : World} {s t u : State} {message : Message} {data : Chat} {item : OutgoingMessage}
  {queue : List OutgoingMessage}

/-- The entries that no property is about. -/
def Entry.plain : Entry → Bool
  | uploadMedia _ _ _ _ _ | sendData _ | given _ | saved _ | queued _ _ | reset => false
  | _ => true

/-! ## Steps that only tell -/

/-- The flags and the callbacks stay. -/
structure Same (s t : State) : Prop where
  revision : t.revision = s.revision
  saving : t.saving = s.saving
  uploadCommitting : t.uploadCommitting = s.uploadCommitting
  retryingIds : t.retryingIds = s.retryingIds
  calls : t.calls = s.calls
  allocated : t.allocated = s.allocated

/-- Only the status of messages may change, and the log by plain entries. -/
structure Quiet (s t : State) : Prop extends Same s t where
  nextAttempt : t.nextAttempt = s.nextAttempt
  attempts : t.attempts = s.attempts
  timers : t.timers = s.timers
  imageUploads : t.imageUploads = s.imageUploads
  sendQueue : t.sendQueue = s.sendQueue
  uploading : t.uploading = s.uploading
  msgId : ∀ m, (t.contents m).msgId = (s.contents m).msgId
  content : ∀ m, (t.contents m).content = (s.contents m).content
  log : ∃ es, t.log = es ++ s.log ∧ ∀ e ∈ es, e.plain

theorem Same.refl (s : State) : Same s s := ⟨rfl, rfl, rfl, rfl, rfl, rfl⟩

theorem Same.trans (h : Same s t) (h' : Same t u) : Same s u :=
  ⟨h'.1.trans h.1, h'.2.trans h.2, h'.3.trans h.3, h'.4.trans h.4, h'.5.trans h.5, h'.6.trans h.6⟩

theorem Quiet.refl (s : State) : Quiet s s :=
  ⟨.refl s, rfl, rfl, rfl, rfl, rfl, rfl, fun _ => rfl, fun _ => rfl, [], rfl, by simp⟩

theorem Quiet.trans (h : Quiet s t) (h' : Quiet t u) : Quiet s u := by
  obtain ⟨es, hlog, hes⟩ := h.log
  obtain ⟨es', hlog', hes'⟩ := h'.log
  refine ⟨h.toSame.trans h'.toSame, h'.nextAttempt.trans h.nextAttempt,
    h'.attempts.trans h.attempts, h'.timers.trans h.timers, h'.imageUploads.trans h.imageUploads,
    h'.sendQueue.trans h.sendQueue, h'.uploading.trans h.uploading,
    fun m => (h'.msgId m).trans (h.msgId m), fun m => (h'.content m).trans (h.content m),
    es' ++ es, ?_, fun e he => ?_⟩
  · rw [hlog', hlog, List.append_assoc]
  · rcases List.mem_append.mp he with he | he
    · exact hes' e he
    · exact hes e he

theorem quiet_emit (s : State) {e : Entry} (he : e.plain) : Quiet s (s.emit e) :=
  ⟨⟨rfl, rfl, rfl, rfl, rfl, rfl⟩, rfl, rfl, rfl, rfl, rfl, rfl, fun _ => rfl, fun _ => rfl,
    [e], rfl, by simpa using he⟩

theorem Quiet.emit (h : Quiet s t) {e : Entry} (he : e.plain) : Quiet s (t.emit e) :=
  h.trans (quiet_emit t he)

theorem setStatus_contents (s : State) (message m : Message) (status : ℤ) :
    ((s.setStatus message status).contents m).msgId = (s.contents m).msgId ∧
      ((s.setStatus message status).contents m).content = (s.contents m).content := by
  unfold setStatus
  by_cases h : m = message
  · subst h
    simp only [Function.update_self, and_self]
  · simp only [Function.update_of_ne h, and_self]

theorem quiet_setStatus (s : State) (message : Message) (status : ℤ) :
    Quiet s (s.setStatus message status) :=
  ⟨⟨rfl, rfl, rfl, rfl, rfl, rfl⟩, rfl, rfl, rfl, rfl, rfl, rfl,
    fun m => (setStatus_contents s message m status).1,
    fun m => (setStatus_contents s message m status).2, [], rfl, by simp⟩

theorem quiet_markOutgoingFailed (s : State) (message : Message) (data : Chat)
    (definitive : Bool) : Quiet s (s.markOutgoingFailed message data definitive) := by
  unfold markOutgoingFailed
  split
  · exact .refl s
  · exact ((quiet_setStatus s message sendFailed).emit rfl).emit rfl

theorem quiet_foldl {β : Type*} {f : State → β → State} (hf : ∀ s b, Quiet s (f s b))
    (bs : List β) (s : State) : Quiet s (bs.foldl f s) := by
  induction bs generalizing s with
  | nil => exact .refl s
  | cons b bs ih => exact (hf s b).trans (ih (f s b))

theorem quiet_failPending (s : State) (w : World) (threadId : ℤ) (message : String)
    (definitive : Bool) : Quiet s (s.failPending w threadId message definitive) :=
  quiet_foldl (fun s data => (quiet_foldl
    (fun s pending => quiet_markOutgoingFailed s pending data definitive) _ s).emit rfl) _ s

theorem quiet_uploadProgress (s : State) (requestId : Text) (done total : ℕ) :
    Quiet s (s.uploadProgress requestId done total) := by
  unfold uploadProgress
  split
  · exact .refl s
  · exact quiet_emit s rfl

/-! ## Sending one message -/

/-- The packet is sent, and its timer set. -/
def State.dispatched (s : State) (w : World) (message : Message) (data : Chat) : State :=
  { s with
    log := .sendData ⟨(s.contents message).content, message.uniqueId, message.sendUid,
      data.otherId, data.threadId, message.msgType.toInt⟩ :: s.log
    nextAttempt := s.nextAttempt + 1
    attempts := Function.update s.attempts message.uniqueId (some (s.nextAttempt + 1))
    timers := ⟨message.uniqueId, data, message, w.generation, s.revision, s.nextAttempt + 1⟩ ::ₘ
      s.timers }

theorem same_dispatched (s : State) (w : World) (message : Message) (data : Chat) :
    Same s (s.dispatched w message data) := ⟨rfl, rfl, rfl, rfl, rfl, rfl⟩

theorem sendStoredMessage_cases (s : State) (w : World) (message : Message) (data : Chat) :
    Quiet s (s.sendStoredMessage w message data) ∨
    (s.contents message).msgId ≤ 0 ∧ w.isCurrent data ∧
      s.sendStoredMessage w message data = s.dispatched w message data := by
  unfold sendStoredMessage
  split
  · exact .inl (.refl s)
  next hmsgId =>
    split
    · exact .inl (quiet_markOutgoingFailed s message data false)
    next hreaches =>
      push Not at hreaches
      exact .inr ⟨not_lt.mp hmsgId, hreaches.2.1, rfl⟩

/-! ## The loop -/

/-- Nothing keeps the loop from going on. -/
def State.Idle (s : State) : Prop := s.imageUploads = [] ∧ s.uploadCommitting = false

theorem Quiet.idle (h : Quiet s t) (hs : s.Idle) : t.Idle :=
  ⟨h.imageUploads.trans hs.1, h.uploadCommitting.trans hs.2⟩

/-- What the loop does, item by item. -/
inductive Serves (w : World) : State → State → Prop
  | done {s : State} (hqueue : s.sendQueue = []) : Serves w s s
  | pass {s t u : State} {item : OutgoingMessage} {queue : List OutgoingMessage} (hidle : s.Idle)
      (hqueue : s.sendQueue = item :: queue) (hquiet : Quiet { s with sendQueue := queue } t)
      (hrest : Serves w t u) : Serves w s u
  | upload {s : State} {item : OutgoingMessage} {queue : List OutgoingMessage} (hidle : s.Idle)
      (hqueue : s.sendQueue = item :: queue) (hmedia : item.content.isMedia)
      (hcurrent : w.isCurrent item.chat) :
      Serves w s ({ s with sendQueue := queue }.startUpload item)
  | send {s u : State} {item : OutgoingMessage} {queue : List OutgoingMessage} (hidle : s.Idle)
      (hqueue : s.sendQueue = item :: queue) (hmedia : item.content.isMedia = false)
      (hmsgId : (s.contents item.message).msgId ≤ 0) (hcurrent : w.isCurrent item.chat)
      (hrest : Serves w ({ s with sendQueue := queue }.dispatched w item.message item.chat) u) :
      Serves w s u

theorem serves_sendLoop (hqueue : s.sendQueue = queue) (hidle : s.Idle) :
    Serves w s (sendLoop w queue s) := by
  induction queue generalizing s with
  | nil => exact .done hqueue
  | cons item queue ih =>
    unfold sendLoop
    dsimp only
    split
    · exact .pass hidle hqueue (.refl _) (ih rfl hidle)
    next hcurrent =>
      rw [not_not] at hcurrent
      split
      · have hquiet := (quiet_markOutgoingFailed { s with sendQueue := queue } item.message
          item.chat false).emit (e := .status item.chat.threadId
            "会话无法发送，消息保留在本机待确认记录中") rfl
        exact .pass hidle hqueue hquiet (ih hquiet.sendQueue (hquiet.idle hidle))
      · split
        next hmedia => exact .upload hidle hqueue hmedia hcurrent
        next hmedia =>
          rcases sendStoredMessage_cases { s with sendQueue := queue } w item.message item.chat
            with hquiet | ⟨hmsgId, -, heq⟩
          · exact .pass hidle hqueue hquiet (ih hquiet.sendQueue (hquiet.idle hidle))
          · rw [heq]
            exact .send hidle hqueue (Bool.not_eq_true _ ▸ hmedia) hmsgId hcurrent (ih rfl hidle)

/-- The queue is served, or stays as it is. -/
theorem sendNextMessage_cases (s : State) (w : World) :
    (¬ s.Idle ∧ s.sendNextMessage w = s) ∨ (s.Idle ∧ Serves w s (s.sendNextMessage w)) := by
  unfold sendNextMessage
  split
  next hbusy =>
    refine .inl ⟨fun hidle => ?_, rfl⟩
    rcases hbusy with huploads | hcommitting
    · exact huploads hidle.1
    · rw [hidle.2] at hcommitting
      exact Bool.false_ne_true hcommitting
  next hbusy =>
    rw [not_or, not_not, Bool.not_eq_true] at hbusy
    exact .inr ⟨hbusy, serves_sendLoop rfl hbusy⟩

theorem same_sendQueue (s : State) (queue : List OutgoingMessage) :
    Same s { s with sendQueue := queue } := ⟨rfl, rfl, rfl, rfl, rfl, rfl⟩

theorem Serves.same (h : Serves w s t) : Same s t := by
  induction h with
  | done => exact .refl _
  | pass _ _ hquiet _ ih => exact (same_sendQueue _ _).trans (hquiet.toSame.trans ih)
  | upload => exact ⟨rfl, rfl, rfl, rfl, rfl, rfl⟩
  | send _ _ _ _ _ _ ih => exact (same_sendQueue _ _).trans ((same_dispatched _ _ _ _).trans ih)

/-- When the loop is over nothing waits, or an upload runs. -/
theorem Serves.rests (h : Serves w s t) : t.sendQueue = [] ∨ t.imageUploads ≠ [] := by
  induction h with
  | done hqueue => exact .inl hqueue
  | pass _ _ _ _ ih => exact ih
  | upload => exact .inr (List.cons_ne_nil _ _)
  | send _ _ _ _ _ _ ih => exact ih

/-! ## Queueing -/

theorem same_enqueue (s : State) (item : OutgoingMessage) (again : Bool) :
    Same s (s.enqueue item again) :=
  ⟨rfl, rfl, rfl, rfl, rfl, rfl⟩

theorem same_accept (s : State) (item : OutgoingMessage) : Same s (s.accept item) := by
  unfold accept enqueue
  dsimp only
  split <;> exact ⟨rfl, rfl, rfl, rfl, rfl, rfl⟩

/-- A saved message is told of, and queued. -/
theorem accept_cases (s : State) (item : OutgoingMessage) :
    ∃ t, Quiet s t ∧ s.accept item = t.enqueue item false := by
  unfold accept
  dsimp only
  split
  · exact ⟨_, (quiet_emit s rfl).emit rfl, rfl⟩
  · exact ⟨_, quiet_emit s rfl, rfl⟩

theorem same_foldl_accept (outgoing : List OutgoingMessage) (s : State) :
    Same s (outgoing.foldl accept s) := by
  induction outgoing generalizing s with
  | nil => exact .refl s
  | cons item outgoing ih => exact (same_accept s item).trans (ih (s.accept item))

/-! ## The events -/

variable (C : Texts.EmojiCatalog) (qt : Attachments.Qt) (result : ChatStoreResult)

theorem quiet_prepared (s : State) (clearDraft success : Bool) :
    Quiet s (if clearDraft then s else s.emit (.sendPrepared success)) := by
  split
  · exact .refl s
  · exact quiet_emit s rfl

/-- The messages are made, and their records on the way to the store. -/
def State.asked (s : State) (data : Chat) (outgoing : List OutgoingMessage) (clearDraft : Bool) :
    State :=
  { s.allocate outgoing with saving := true }.call (.sendSaved data outgoing clearDraft)

/-- The upload is over, and its record on the way to the store. -/
def State.commit (s : State) (requestId fileId : Text) (upload : OutgoingMessage) : State :=
  { s.forgetUpload requestId with
    uploadCommitting := true
    contents := Function.update s.contents upload.message
      { s.contents upload.message with content := fileId } }.call (.uploadSaved upload)

/-- A send is refused, or its messages are made and their records go to the store. -/
theorem send_cases (inputs : List MsgInfo) (data : Chat) (clearDraft : Bool)
    (sampleId : Texts.Uuid) (uuid : ℕ → Text) :
    Quiet s (s.send C qt w inputs data clearDraft sampleId uuid).1 ∨
    ∃ contents, collect C qt w data sampleId (s.sendQueue.length + s.imageUploads.length) inputs []
        = .ok contents ∧ contents ≠ [] ∧ s.saving = false ∧
      media s.sendQueue + media (s.imageUploads.map Prod.snd) +
        media (s.create w data uuid contents) ≤ maxMedia ∧
      Quiet (s.asked data (s.create w data uuid contents) clearDraft)
        (s.send C qt w inputs data clearDraft sampleId uuid).1 := by
  unfold send
  split
  · exact .inl (.refl s)
  next hopen =>
    split
    · exact .inl (quiet_emit s rfl)
    split
    · exact .inl (quiet_emit s rfl)
    split
    · exact .inl (quiet_emit s rfl)
    split
    · exact .inl (quiet_emit s rfl)
    · exact .inl (.refl s)
    next contents hne hcollect =>
      dsimp only
      split
      · exact .inl (quiet_emit s rfl)
      next hmedia =>
        rw [not_or, Bool.not_eq_true] at hopen
        refine .inr ⟨contents, hcollect, hne, hopen.1, not_lt.mp hmedia, ?_⟩
        exact ((Quiet.refl _).emit (e := .savingChanged true) rfl).emit rfl

theorem sendSaved_cases (data : Chat) (outgoing : List OutgoingMessage) (clearDraft : Bool) :
    Quiet { s with saving := false } (s.sendSaved w data outgoing clearDraft result) ∨
    result.error = "" ∧ w.isCurrent data ∧ ∃ r u, Quiet { s with saving := false } r ∧
      Quiet (outgoing.foldl accept r) u ∧
      Quiet (u.sendNextMessage w) (s.sendSaved w data outgoing clearDraft result) := by
  unfold sendSaved
  have hfirst : Quiet { s with saving := false }
      ({ s with saving := false }.emit (.savingChanged false)) := quiet_emit _ rfl
  dsimp only
  split
  · exact .inl (hfirst.trans (quiet_prepared _ _ _))
  next hcurrent =>
    split
    · exact .inl ((hfirst.trans (quiet_prepared _ _ _)).emit rfl)
    next herror =>
      rw [not_not] at hcurrent herror
      refine .inr ⟨herror, hcurrent, _, _, ?_, ((Quiet.refl _).emit rfl).emit rfl,
        quiet_prepared _ _ _⟩
      split
      · exact hfirst.emit rfl
      · exact hfirst

theorem uploadSaved_cases (upload : OutgoingMessage) :
    ∃ r, s.uploadSaved w upload result = r.sendNextMessage w ∧
      (Quiet { s with uploadCommitting := false } r ∨
        result.error = "" ∧ (s.contents upload.message).msgId ≤ 0 ∧ w.isCurrent upload.chat ∧
          Quiet ({ s with uploadCommitting := false }.dispatched w upload.message upload.chat)
            r) := by
  unfold uploadSaved
  dsimp only
  split
  · exact ⟨_, rfl, .inl (.refl _)⟩
  next hcurrent =>
    rw [not_not] at hcurrent
    refine ⟨_, rfl, ?_⟩
    split
    next herror =>
      rcases sendStoredMessage_cases { s with uploadCommitting := false } w upload.message
        upload.chat with hquiet | ⟨hmsgId, -, heq⟩
      · exact .inl (hquiet.emit rfl)
      · rw [heq]
        exact .inr ⟨herror, hmsgId, hcurrent, quiet_emit _ rfl⟩
    · exact .inl ((quiet_markOutgoingFailed _ _ _ _).emit rfl)

theorem retryLoaded_cases (message : Message) (data : Chat) :
    Quiet (s.forgetRetry message.uniqueId) (s.retryLoaded w message data result) ∨
    (s.contents message).msgId ≤ 0 ∧
      ¬ (message.isMedia ∧ pending <+: (s.contents message).content ∧ result.image = []) ∧
      Quiet (s.call (.retrySaved message data result.image
        (message.isMedia && result.image ≠ []))) (s.retryLoaded w message data result) := by
  unfold retryLoaded
  dsimp only
  split
  · exact .inl (.refl _)
  split
  · exact .inl (quiet_emit _ rfl)
  next hreadable =>
    split
    · exact .inl (.refl _)
    next hmsgId =>
      rw [not_or] at hreadable
      refine .inr ⟨not_lt.mp hmsgId, hreadable.2, ?_⟩
      exact (quiet_setStatus (s.call (.retrySaved message data result.image
        (message.isMedia && result.image ≠ []))) message unRead).emit rfl

/-- A retry is accepted. -/
def State.retrying (s : State) (message : Message) : State :=
  { s.emit (.given message) with retryingIds := message.uniqueId :: s.retryingIds }

/-- The item that a retry queues. -/
def State.retried (s : State) (message : Message) (data : Chat) (image : Bytes)
    (needsUpload : Bool) : OutgoingMessage :=
  ⟨⟨if needsUpload then
      if message.msgType = .file then "file"
      else if message.msgType = .audio then "audio" else "image"
    else "text", (s.contents message).content, image⟩, data, message⟩

theorem retrySaved_cases (message : Message) (data : Chat) (image : Bytes) (needsUpload : Bool) :
    Quiet (s.forgetRetry message.uniqueId)
      (s.retrySaved w message data image needsUpload result) ∨
    result.error = "" ∧ w.isCurrent data ∧
      ∃ r, Quiet ((s.forgetRetry message.uniqueId).enqueue
          (s.retried message data image needsUpload) true) r ∧
        s.retrySaved w message data image needsUpload result = r.sendNextMessage w := by
  unfold retrySaved
  dsimp only
  split
  · exact .inl (.refl _)
  next hcurrent =>
    split
    · exact .inl (quiet_markOutgoingFailed _ _ _ _)
    next herror =>
      rw [not_not] at hcurrent herror
      exact .inr ⟨herror, hcurrent, _, quiet_emit _ rfl, rfl⟩

theorem retryMessage_cases (message : Message) (data : Chat) :
    Quiet s (s.retryMessage w message data) ∨
    message.uniqueId ∉ s.retryingIds ∧ w.isCurrent data ∧
      (Quiet ((s.retrying message).call (.retryLoaded message data))
          (s.retryMessage w message data) ∨
        message.isMedia = false ∧ s.retryMessage w message data =
          (s.retrying message).retryLoaded w message data ⟨"", []⟩) := by
  unfold retryMessage
  dsimp only
  split
  · exact .inl (.refl s)
  next hready =>
    split
    · exact .inl (quiet_emit s rfl)
    split
    · exact .inl (quiet_emit s rfl)
    split
    · exact .inl (quiet_emit s rfl)
    push Not at hready
    refine .inr ⟨hready.2.2.2.1, hready.1, ?_⟩
    split
    · exact .inl ((Quiet.refl _).emit rfl)
    next hmedia => exact .inr ⟨Bool.not_eq_true _ ▸ hmedia, rfl⟩

theorem uploadFinished_cases (requestId fileId : Text) (error : String) :
    s.upload requestId = none ∧ s.uploadFinished w requestId fileId error = s ∨
    ∃ upload, s.upload requestId = some upload ∧
      ((∃ r, Quiet (s.forgetUpload requestId) r ∧
          s.uploadFinished w requestId fileId error = r.sendNextMessage w) ∨
        error = "" ∧ w.isCurrent upload.chat ∧
          Quiet (s.commit requestId fileId upload)
            (s.uploadFinished w requestId fileId error)) := by
  unfold uploadFinished
  split
  next hnone => exact .inl ⟨hnone, rfl⟩
  next upload hupload =>
    refine .inr ⟨upload, hupload, ?_⟩
    dsimp only
    split
    · exact .inl ⟨_, (quiet_markOutgoingFailed _ _ _ _).emit rfl, rfl⟩
    next hgood =>
      push Not at hgood
      exact .inr ⟨hgood.1, hgood.2.2, (Quiet.refl _).emit rfl⟩

theorem timeout_cases (timer : Timer) :
    (s.revision ≠ timer.revision ∨ s.attempts timer.uniqueId ≠ some timer.attempt) ∧
      s.timeout w timer = s ∨
    Quiet { s with attempts := Function.update s.attempts timer.uniqueId none }
      (s.timeout w timer) := by
  unfold timeout
  split
  next hstale => exact .inl ⟨hstale, rfl⟩
  · refine .inr ?_
    dsimp only
    split
    · exact .refl _
    · exact (quiet_markOutgoingFailed _ _ _ _).emit rfl

/-- The state in which a callback runs that was told that its records are saved. -/
def State.noted (s : State) (callback : Callback) (result : ChatStoreResult) : State :=
  if result.error = "" then { s with log := callback.saves.map .saved ++ s.log } else s

theorem answer_cases (c : Call) (m : Multiset Call) :
    c.revision ≠ s.revision ∧ ({ s with calls := m } : State).answer w c result =
      { s with calls := m } ∨
    c = ⟨s.revision, c.callback⟩ ∧ ({ s with calls := m } : State).answer w c result =
      ({ s.noted c.callback result with calls := m } : State).run w result c.callback := by
  unfold answer
  split
  next hstale => exact .inl ⟨Ne.symm hstale, rfl⟩
  next hcurrent =>
    rw [not_not] at hcurrent
    refine .inr ⟨?_, ?_⟩
    · rw [show s.revision = c.revision from hcurrent]
    · unfold noted
      dsimp only
      split <;> rfl

end CppChat.Sending
