import CppChat.Sending.Steps

/-! # The moves of sending

Every event is a row of moves, each of which changes one thing that the sender goes by. A property
of all runs that each move keeps is shown once for each of them. What others do may be restricted:
the moves know which events are allowed.
-/
namespace CppChat.Sending
open Foundation.Cbor (Bytes)
open Foundation.Utf16 (Text)
open Relation (ReflTransGen)
open State

section
variable (C : Texts.EmojiCatalog) (qt : Attachments.Qt) (allows : State → Event → Prop) (w : World)

inductive Move : State → State → Prop
  | quiet {s t : State} (h : Quiet s t) : Move s t
  -- the queue
  | pass {s : State} {item : OutgoingMessage} {queue : List OutgoingMessage} (hidle : s.Idle)
      (hqueue : s.sendQueue = item :: queue) : Move s { s with sendQueue := queue }
  | upload {s : State} {item : OutgoingMessage} {queue : List OutgoingMessage} (hidle : s.Idle)
      (hqueue : s.sendQueue = item :: queue) (hmedia : item.content.isMedia) :
      Move s ({ s with sendQueue := queue }.startUpload item)
  | send {s : State} {item : OutgoingMessage} {queue : List OutgoingMessage} (hidle : s.Idle)
      (hqueue : s.sendQueue = item :: queue) (hmedia : item.content.isMedia = false)
      (hmsgId : (s.contents item.message).msgId ≤ 0) :
      Move s ({ s with sendQueue := queue }.dispatched w item.message item.chat)
  | forgetThread {s : State} (threadId : ℤ) : Move s (s.forgetThread threadId)
  | reset {s : State} : Move s s.reset
  -- a send
  | ask {s : State} {data : Chat} {sampleId : Texts.Uuid} {inputs contents : List MsgInfo}
      {uuid : ℕ → Text} (clearDraft : Bool) (hsaving : s.saving = false)
      (hcollect : collect C qt w data sampleId (s.sendQueue.length + s.imageUploads.length) inputs
        [] = .ok contents) (hne : contents ≠ [])
      (hmedia : media s.sendQueue + media (s.imageUploads.map Prod.snd) +
        media (s.create w data uuid contents) ≤ maxMedia) :
      Move s (s.asked data (s.create w data uuid contents) clearDraft)
  | note {s : State} {b : Callback} {m : Multiset Call} (hcalls : s.calls = ⟨s.revision, b⟩ ::ₘ m) :
      Move s { s with log := b.saves.map .saved ++ s.log }
  | stale {s : State} {c : Call} {m : Multiset Call} (hcalls : s.calls = c ::ₘ m)
      (hstale : c.revision ≠ s.revision) : Move s { s with calls := m }
  | sendRefused {s : State} {data : Chat} {outgoing : List OutgoingMessage} {clearDraft : Bool}
      {m : Multiset Call}
      (hcalls : s.calls = ⟨s.revision, .sendSaved data outgoing clearDraft⟩ ::ₘ m) :
      Move s { s with calls := m, saving := false }
  | sendOver {s r : State} {data : Chat} {outgoing : List OutgoingMessage} {clearDraft : Bool}
      {m : Multiset Call}
      (hcalls : s.calls = ⟨s.revision, .sendSaved data outgoing clearDraft⟩ ::ₘ m)
      (hsaved : outgoing.map (fun item => Entry.saved item.message) <+: s.log)
      (hquiet : Quiet { s with calls := m, saving := false } r) :
      Move s (outgoing.foldl accept r)
  -- an upload
  | uploadOver {s : State} {requestId : Text} {upload : OutgoingMessage}
      (hupload : s.upload requestId = some upload) :
      Move s ({ s with uploading := s.uploading.erase requestId }.forgetUpload requestId)
  | uploadUnknown {s : State} {requestId : Text} (hnone : s.upload requestId = none) :
      Move s { s with uploading := s.uploading.erase requestId }
  | commit {s : State} {requestId fileId : Text} {upload : OutgoingMessage}
      (hallows : allows s (.uploadFinished requestId fileId ""))
      (hupload : s.upload requestId = some upload) :
      Move s ({ s with uploading := s.uploading.erase requestId }.commit requestId fileId upload)
  | commitOver {s : State} {upload : OutgoingMessage} {m : Multiset Call}
      (hcalls : s.calls = ⟨s.revision, .uploadSaved upload⟩ ::ₘ m) :
      Move s { s with calls := m, uploadCommitting := false }
  | commitSent {s : State} {upload : OutgoingMessage} {m : Multiset Call}
      (hcalls : s.calls = ⟨s.revision, .uploadSaved upload⟩ ::ₘ m)
      (hsaved : [.saved upload.message] <+: s.log)
      (hmsgId : (s.contents upload.message).msgId ≤ 0) :
      Move s ({ s with calls := m, uploadCommitting := false }.dispatched w upload.message
        upload.chat)
  -- a retry
  | retry {s : State} {message : Message} (data : Chat) (href : message.ref < s.allocated)
      (hnew : message.uniqueId ∉ s.retryingIds) :
      Move s ((s.retrying message).call (.retryLoaded message data))
  | retryNext {s : State} {message : Message} {data : Chat} {image : Bytes} {m : Multiset Call}
      (hcalls : s.calls = ⟨s.revision, .retryLoaded message data⟩ ::ₘ m)
      (hreadable : ¬ (message.isMedia ∧ pending <+: (s.contents message).content ∧ image = [])) :
      Move s ({ s with calls := m }.call
        (.retrySaved message data image (message.isMedia && image ≠ [])))
  | retryOver {s : State} {message : Message} {b : Callback} {m : Multiset Call}
      (hcalls : s.calls = ⟨s.revision, b⟩ ::ₘ m)
      (hb : (∃ data, b = .retryLoaded message data) ∨
        ∃ data image needsUpload, b = .retrySaved message data image needsUpload) :
      Move s ({ s with calls := m }.forgetRetry message.uniqueId)
  | retryQueued {s : State} {message : Message} {data : Chat} {image : Bytes} {needsUpload : Bool}
      {m : Multiset Call}
      (hcalls : s.calls = ⟨s.revision, .retrySaved message data image needsUpload⟩ ::ₘ m)
      (hsaved : [.saved message] <+: s.log) :
      Move s (({ s with calls := m }.forgetRetry message.uniqueId).enqueue
        (s.retried message data image needsUpload) true)
  -- the rest
  | fire {s : State} {timer : Timer}
      (hstale : s.revision ≠ timer.revision ∨ s.attempts timer.uniqueId ≠ some timer.attempt) :
      Move s { s with timers := s.timers.erase timer }
  | expire {s : State} (timer : Timer) : Move s { s with
      timers := s.timers.erase timer
      attempts := Function.update s.attempts timer.uniqueId none }
  | make {s : State} {message : Message} (contents : Contents) (href : message.ref = s.allocated) :
      Move s { s with
        allocated := s.allocated + 1
        contents := Function.update s.contents message contents }
  | change {s : State} {message : Message} {contents : Contents}
      (hallows : allows s (.change message contents)) (href : message.ref < s.allocated) :
      Move s { s with contents := Function.update s.contents message contents }

end

variable {C : Texts.EmojiCatalog} {qt : Attachments.Qt} {allows : State → Event → Prop}
  {w : World} {s t : State} {message : Message} {data : Chat} {b : Callback} {c : Call}
  {m : Multiset Call}
  {result : ChatStoreResult}

abbrev Moves (C : Texts.EmojiCatalog) (qt : Attachments.Qt) (allows : State → Event → Prop)
    (w : World) : State → State → Prop :=
  ReflTransGen (Move C qt allows w)

theorem Serves.moves (h : Serves w s t) : Moves C qt allows w s t := by
  induction h with
  | done => exact .refl
  | pass hidle hqueue hquiet _ ih => exact .head (.pass hidle hqueue) (.head (.quiet hquiet) ih)
  | upload hidle hqueue hmedia => exact .single (.upload hidle hqueue hmedia)
  | send hidle hqueue hmedia hmsgId _ _ ih => exact .head (.send hidle hqueue hmedia hmsgId) ih

theorem moves_sendNextMessage (s : State) (w : World) :
    Moves C qt allows w s (s.sendNextMessage w) := by
  rcases sendNextMessage_cases s w with ⟨-, heq⟩ | ⟨-, h⟩
  · rw [heq]
  · exact h.moves

theorem moves_retryLoaded (hcalls : s.calls = ⟨s.revision, .retryLoaded message data⟩ ::ₘ m) :
    Moves C qt allows w s (({ s with calls := m } : State).retryLoaded w message data result) := by
  rcases retryLoaded_cases result (s := { s with calls := m }) (w := w) message data
    with hquiet | ⟨-, hreadable, hquiet⟩
  · exact .head (.retryOver hcalls (.inl ⟨data, rfl⟩)) (.single (.quiet hquiet))
  · exact .head (.retryNext hcalls hreadable) (.single (.quiet hquiet))

/-- A callback of this revision runs, told that its records are saved where there is no error. -/
theorem moves_run (hcalls : s.calls = ⟨s.revision, b⟩ ::ₘ m)
    (hsaved : result.error = "" → b.saves.map .saved <+: s.log) :
    Moves C qt allows w s (({ s with calls := m } : State).run w result b) := by
  cases b with
  | sendSaved data outgoing clearDraft =>
    rcases sendSaved_cases result (s := { s with calls := m }) (w := w) data outgoing
      clearDraft with hquiet | ⟨herror, -, r, u, hr, hu, hquiet⟩
    · exact .head (.sendRefused hcalls) (.single (.quiet hquiet))
    · refine .head (.sendOver hcalls ?_ hr) (.head (.quiet hu)
        ((moves_sendNextMessage u w).tail (.quiet hquiet)))
      have h := hsaved herror
      rwa [Callback.saves, List.map_map] at h
  | uploadSaved upload =>
    obtain ⟨r, heq, hr⟩ := uploadSaved_cases result (s := { s with calls := m }) (w := w) upload
    change Moves C qt allows w s (State.uploadSaved _ w upload result)
    rw [heq]
    rcases hr with hquiet | ⟨herror, hmsgId, -, hquiet⟩
    · exact .head (.commitOver hcalls) (.head (.quiet hquiet) (moves_sendNextMessage r w))
    · exact .head (.commitSent hcalls (hsaved herror) hmsgId)
        (.head (.quiet hquiet) (moves_sendNextMessage r w))
  | retryLoaded message data => exact moves_retryLoaded hcalls
  | retrySaved message data image needsUpload =>
    rcases retrySaved_cases result (s := { s with calls := m }) (w := w) message data
      image needsUpload with hquiet | ⟨herror, -, r, hr, heq⟩
    · exact .head (.retryOver hcalls (.inr ⟨data, image, needsUpload, rfl⟩))
        (.single (.quiet hquiet))
    · change Moves C qt allows w s (State.retrySaved _ w message data image needsUpload result)
      rw [heq]
      exact .head (.retryQueued hcalls (hsaved herror))
        (.head (.quiet hr) (moves_sendNextMessage r w))

theorem moves_answer (hcalls : s.calls = c ::ₘ m) :
    Moves C qt allows w s (({ s with calls := m } : State).answer w c result) := by
  rcases answer_cases result (s := s) (w := w) c m with
    ⟨hstale, heq⟩ | ⟨hcurrent, heq⟩
  · rw [heq]
    exact .single (.stale hcalls hstale)
  · rw [heq]
    rw [hcurrent] at hcalls
    unfold noted
    split
    next herror =>
      exact .head (.note hcalls) (moves_run hcalls fun _ => List.prefix_append _ _)
    next herror => exact moves_run hcalls fun h => absurd h herror

/-- Every event is a row of moves. -/
theorem moves_next {e : Event} (hallows : allows s e) (hstep : s.next C qt (w, e) = some t) :
    Moves C qt allows w s t := by
  cases e with
  | send inputs data clearDraft sampleId uuid =>
    cases hstep
    rcases send_cases C qt (s := s) (w := w) inputs data clearDraft sampleId uuid
      with hquiet | ⟨contents, hcollect, hne, hsaving, hmedia, hquiet⟩
    · exact .single (.quiet hquiet)
    · exact .head (.ask clearDraft hsaving hcollect hne hmedia) (.single (.quiet hquiet))
  | retry message data =>
    simp only [State.next, Option.ite_none_right_eq_some] at hstep
    obtain ⟨href, hstep⟩ := hstep
    cases hstep
    rcases retryMessage_cases (s := s) (w := w) message data with
      hquiet | ⟨hnew, -, hquiet | ⟨-, heq⟩⟩
    · exact .single (.quiet hquiet)
    · exact .head (.retry data href hnew) (.single (.quiet hquiet))
    · -- the callback runs at once, as if it had been asked for
      rw [heq]
      exact .head (.retry data href hnew)
        (moves_retryLoaded (s := (s.retrying message).call (.retryLoaded message data)) rfl)
  | removeThread threadId =>
    cases hstep
    exact .head (.forgetThread threadId) (moves_sendNextMessage _ w)
  | reset =>
    cases hstep
    exact .single .reset
  | failPending threadId message definitive =>
    cases hstep
    exact .single (.quiet (quiet_failPending s w threadId message definitive))
  | uploadProgress requestId done total =>
    cases hstep
    exact .single (.quiet (quiet_uploadProgress s requestId done total))
  | uploadFinished requestId fileId error =>
    simp only [State.next, Option.ite_none_right_eq_some, Option.some.injEq] at hstep
    obtain ⟨-, rfl⟩ := hstep
    rcases uploadFinished_cases (s := { s with uploading := s.uploading.erase requestId }) (w := w)
      requestId fileId error with ⟨hnone, heq⟩ | ⟨upload, hupload, ⟨r, hr, heq⟩ | ⟨rfl, -, hquiet⟩⟩
    · rw [heq]
      exact .single (.uploadUnknown hnone)
    · rw [heq]
      exact .head (.uploadOver hupload) (.head (.quiet hr) (moves_sendNextMessage r w))
    · exact .head (.commit hallows hupload) (.single (.quiet hquiet))
  | answer c result =>
    simp only [State.next, Option.ite_none_right_eq_some, Option.some.injEq] at hstep
    obtain ⟨hc, rfl⟩ := hstep
    exact moves_answer (Multiset.cons_erase hc).symm
  | timeout timer =>
    simp only [State.next, Option.ite_none_right_eq_some, Option.some.injEq] at hstep
    obtain ⟨-, rfl⟩ := hstep
    rcases timeout_cases (s := { s with timers := s.timers.erase timer }) (w := w) timer with
      ⟨hstale, heq⟩ | hquiet
    · rw [heq]
      exact .single (.fire hstale)
    · exact .head (.expire timer) (.single (.quiet hquiet))
  | make message contents =>
    simp only [State.next, Option.ite_none_right_eq_some] at hstep
    cases hstep.2
    exact .single (.make contents hstep.1)
  | change message contents =>
    simp only [State.next, Option.ite_none_right_eq_some] at hstep
    cases hstep.2
    exact .single (.change hallows hstep.1)

theorem Moves.keep {I : State → Prop} (hmove : ∀ s t, I s → Move C qt allows w s t → I t)
    (h : Moves C qt allows w s t) (hs : I s) : I t := by
  induction h with
  | refl => exact hs
  | tail _ h ih => exact hmove _ _ ih h

/-- What every move keeps holds in every state of a run. -/
theorem invariant_of_moves {I : State → Prop}
    (hinit : ∀ contents allocated, I (.initial contents allocated))
    (hmove : ∀ w s t, I s → Move C qt (fun _ _ => True) w s t → I t) :
    (machine C qt).Invariant I := by
  refine ⟨?_, fun s a t _ hs hstep => ?_⟩
  · rintro _ ⟨contents, allocated, rfl⟩
    exact hinit contents allocated
  · exact (moves_next trivial hstep).keep (hmove a.1) hs

/-- The same for runs in which others do only what they may. -/
theorem invariant_of_allowed_moves {I : State → Prop}
    (hinit : ∀ contents allocated, I (.initial contents allocated))
    (hmove : ∀ w s t, I s → Move C qt allows w s t → I t) :
    ((machine C qt).restrict fun s a => allows s a.2).Invariant I := by
  refine ⟨?_, fun s a t _ hs hstep => ?_⟩
  · rintro _ ⟨contents, allocated, rfl⟩
    exact hinit contents allocated
  · exact (moves_next hstep.1 hstep.2).keep (hmove a.1) hs

end CppChat.Sending
