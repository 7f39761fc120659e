import Mathlib.Data.Multiset.Filter
import CppChat.Foundation.Flags
import CppChat.Sending.Moves

/-! # What the sender waits for

Four things hold the sender up: a save that was asked for, an upload, its commit and the retry of a
message. For each of them there is one answer that is still to come, and no message waits in the
queue unless an upload or its commit is to be answered.
-/
namespace CppChat.Sending
open Foundation (Flagged)
open Foundation.Utf16 (Text)
open State

variable {w : World} {s t : State} {message : Message} {data : Chat} {item : OutgoingMessage}
  {b : Callback} {c : Call} {m : Multiset Call} {C : Texts.EmojiCatalog} {qt : Attachments.Qt}
  {allows : State → Event → Prop}
  {result : ChatStoreResult}

/-! ## Uploads -/

/-- One upload runs at most, and none while another is committed. -/
structure State.Uploads (s : State) : Prop where
  one : s.imageUploads.length + s.uploadCommitting.toNat ≤ 1
  key : ∀ e ∈ s.imageUploads, e.1 = e.2.message.uniqueId
  runs : ∀ e ∈ s.imageUploads, e.1 ∈ s.uploading

theorem upload_eq_none {requestId : Text} (h : s.upload requestId = none) :
    ∀ e ∈ s.imageUploads, e.1 ≠ requestId := by
  simpa [State.upload] using h

theorem upload_mem {requestId : Text} (h : s.upload requestId = some item) :
    (requestId, item) ∈ s.imageUploads := by
  obtain ⟨⟨key, item'⟩, hfind, rfl⟩ := Option.map_eq_some_iff.mp h
  have hkey : key = requestId := by simpa using List.find?_some hfind
  exact hkey ▸ List.mem_of_find?_eq_some hfind

namespace State.Uploads

/-- The upload that is known is the only one. -/
theorem upload_eq_some (h : s.Uploads) {requestId : Text}
    (hupload : s.upload requestId = some item) :
    s.imageUploads = [(requestId, item)] ∧ s.uploadCommitting = false := by
  have hone := h.one
  have hmem := upload_mem hupload
  cases huploads : s.imageUploads with
  | nil => simp [huploads] at hmem
  | cons e rest =>
    rw [huploads, List.length_cons] at hone
    have hrest : rest = [] := List.length_eq_zero_iff.mp (by omega)
    have hcommit : s.uploadCommitting.toNat = 0 := by omega
    subst hrest
    rw [huploads, List.mem_singleton] at hmem
    exact ⟨by rw [← hmem], by simpa using hcommit⟩

theorem forgetUpload (h : s.Uploads) {requestId : Text}
    (hupload : s.upload requestId = some item) : (s.forgetUpload requestId).Idle := by
  obtain ⟨huploads, hcommit⟩ := h.upload_eq_some hupload
  refine ⟨?_, hcommit⟩
  simp [State.forgetUpload, huploads]

theorem of_idle (h : s.Idle) : s.Uploads := by
  obtain ⟨huploads, hcommit⟩ := h
  exact ⟨by simp [huploads, hcommit], by simp [huploads], by simp [huploads]⟩

/-- Uploads may be forgotten. -/
theorem sublist (h : s.Uploads) (huploads : t.imageUploads.Sublist s.imageUploads)
    (hcommit : t.uploadCommitting = s.uploadCommitting) (huploading : t.uploading = s.uploading) :
    t.Uploads := by
  refine ⟨?_, fun e he => h.key e (huploads.subset he), fun e he => ?_⟩
  · have hlength := huploads.length_le
    have hone := h.one
    rw [hcommit]
    omega
  · rw [huploading]
    exact h.runs e (huploads.subset he)

theorem congr (h : s.Uploads) (huploads : t.imageUploads = s.imageUploads)
    (hcommit : t.uploadCommitting = s.uploadCommitting) (huploading : t.uploading = s.uploading) :
    t.Uploads := h.sublist (huploads ▸ List.Sublist.refl _) hcommit huploading

theorem quiet (h : s.Uploads) (hquiet : Quiet s t) : t.Uploads :=
  h.congr hquiet.imageUploads hquiet.uploadCommitting hquiet.uploading

theorem foldl_accept (h : s.Uploads) (outgoing : List OutgoingMessage) :
    (outgoing.foldl accept s).Uploads := by
  induction outgoing generalizing s with
  | nil => exact h
  | cons item outgoing ih =>
    obtain ⟨r, hr, heq⟩ := accept_cases s item
    rw [List.foldl_cons, heq]
    exact ih ((h.quiet hr).congr rfl rfl rfl)

theorem move (h : s.Uploads) (hmove : Move C qt allows w s t) : t.Uploads := by
  cases hmove with
  | quiet hquiet => exact h.quiet hquiet
  | @upload item queue hidle =>
    refine ⟨?_, ?_, ?_⟩
    all_goals simp [startUpload, State.forgetUpload, emit, hidle.1, hidle.2]
  | forgetThread threadId => exact h.sublist List.filter_sublist rfl rfl
  | reset => exact .of_idle ⟨rfl, rfl⟩
  | sendOver _ _ hquiet =>
    refine Uploads.foldl_accept (Uploads.quiet ?_ hquiet) _
    exact h.congr rfl rfl rfl
  | uploadOver hupload => exact .of_idle (h.forgetUpload hupload)
  | @uploadUnknown requestId hnone =>
    refine ⟨h.one, h.key, fun e he => ?_⟩
    exact (Multiset.mem_erase_of_ne (upload_eq_none hnone e he)).mpr (h.runs e he)
  | @commit requestId fileId upload _ hupload =>
    have hidle := h.forgetUpload hupload
    refine ⟨?_, ?_, ?_⟩
    all_goals simp [State.commit, State.forgetUpload, call, (h.upload_eq_some hupload).1]
  | commitOver =>
    have hone := h.one
    refine ⟨?_, h.key, h.runs⟩
    dsimp only [Bool.toNat_false]
    omega
  | commitSent =>
    have hone := h.one
    refine ⟨?_, h.key, h.runs⟩
    dsimp only [dispatched, Bool.toNat_false]
    omega
  | _ => exact h.congr rfl rfl rfl

end State.Uploads

/-! ## The flags -/

inductive Kind
  | send
  | commit
  | retry (uniqueId : Text)
  deriving DecidableEq

def Callback.kind : Callback → Kind
  | sendSaved _ _ _ => .send
  | uploadSaved _ => .commit
  | retryLoaded message _ => .retry message.uniqueId
  | retrySaved message _ _ _ => .retry message.uniqueId

def State.flag (s : State) : Kind → Bool
  | .send => s.saving
  | .commit => s.uploadCommitting
  | .retry uniqueId => s.retryingIds.contains uniqueId

@[simp] theorem State.flag_retry (uniqueId : Text) :
    s.flag (.retry uniqueId) = s.retryingIds.contains uniqueId := rfl

/-- The callbacks that were not given up by a reset. -/
def State.current (s : State) : Multiset Callback :=
  (s.calls.filter fun c => c.revision = s.revision).map Call.callback

structure State.Matched (s : State) : Prop where
  flags : Flagged Callback.kind s.flag s.current
  revision_le : ∀ c ∈ s.calls, c.revision ≤ s.revision

theorem current_eq (hrevision : t.revision = s.revision) (hcalls : t.calls = s.calls) :
    t.current = s.current := by
  unfold State.current
  rw [hrevision, hcalls]

theorem current_cons (hrevision : t.revision = s.revision)
    (hcalls : t.calls = ⟨s.revision, b⟩ ::ₘ s.calls) :
    t.current = b ::ₘ s.current := by
  unfold State.current
  rw [hrevision, hcalls,
    Multiset.filter_cons_of_pos (p := fun c : Call => c.revision = s.revision) _ rfl,
    Multiset.map_cons]

theorem current_stale (hrevision : t.revision = s.revision) (hcalls : t.calls = c ::ₘ s.calls)
    (hstale : c.revision ≠ s.revision) : t.current = s.current := by
  unfold State.current
  rw [hrevision, hcalls, Multiset.filter_cons_of_neg s.calls hstale]

theorem mem_current : b ∈ s.current ↔ ⟨s.revision, b⟩ ∈ s.calls := by
  unfold State.current
  rw [Multiset.mem_map]
  constructor
  · rintro ⟨⟨revision, callback⟩, hc, rfl⟩
    obtain ⟨hc, rfl⟩ := Multiset.mem_filter.mp hc
    exact hc
  · exact fun hc => ⟨_, Multiset.mem_filter.mpr ⟨hc, rfl⟩, rfl⟩

theorem Same.flag (h : Same s t) : t.flag = s.flag := by
  funext k
  cases k with
  | send => exact h.saving
  | commit => exact h.uploadCommitting
  | retry uniqueId => rw [State.flag_retry, State.flag_retry, h.retryingIds]

/-- A save touches no other flag. -/
theorem flag_of_ne_send (hcommit : t.uploadCommitting = s.uploadCommitting)
    (hretry : t.retryingIds = s.retryingIds) : ∀ k, k ≠ .send → t.flag k = s.flag k := by
  rintro (_ | _ | uniqueId) hk
  · exact absurd rfl hk
  · exact hcommit
  · rw [State.flag_retry, State.flag_retry, hretry]

theorem flag_of_ne_commit (hsaving : t.saving = s.saving)
    (hretry : t.retryingIds = s.retryingIds) : ∀ k, k ≠ .commit → t.flag k = s.flag k := by
  rintro (_ | _ | uniqueId) hk
  · exact hsaving
  · exact absurd rfl hk
  · rw [State.flag_retry, State.flag_retry, hretry]

namespace State.Matched

theorem same (h : s.Matched) (hsame : Same s t) : t.Matched := by
  refine ⟨?_, ?_⟩
  · rw [hsame.flag, current_eq hsame.revision hsame.calls]
    exact h.flags
  · rw [hsame.calls, hsame.revision]
    exact h.revision_le

/-- The sender asks, and raises the flag. -/
theorem raise (h : s.Matched) (hflag : s.flag b.kind = false)
    (hrevision : t.revision = s.revision)
    (hcalls : t.calls = ⟨s.revision, b⟩ ::ₘ s.calls) (hself : t.flag b.kind = true)
    (hother : ∀ k, k ≠ b.kind → t.flag k = s.flag k) : t.Matched := by
  refine ⟨?_, fun d hd => ?_⟩
  · rw [current_cons hrevision hcalls]
    exact h.flags.raise hflag hself hother
  · rw [hcalls] at hd
    rw [hrevision]
    rcases Multiset.mem_cons.mp hd with rfl | hd
    · exact le_refl _
    · exact h.revision_le d hd

/-- The callback runs, and lowers the flag. -/
theorem lower (h : s.Matched) (hrevision : t.revision = s.revision)
    (hcalls : s.calls = ⟨s.revision, b⟩ ::ₘ t.calls) (hself : t.flag b.kind = false)
    (hother : ∀ k, k ≠ b.kind → t.flag k = s.flag k) : t.Matched := by
  refine ⟨?_, fun d hd => ?_⟩
  · have hflags := h.flags
    rw [current_cons hrevision.symm (hrevision ▸ hcalls)] at hflags
    exact hflags.lower hself hother
  · rw [hrevision]
    exact h.revision_le d (hcalls ▸ Multiset.mem_cons_of_mem hd)

/-- A callback that asks again. -/
theorem replace (h : s.Matched) {d : Callback} (hcalls : s.calls = ⟨s.revision, b⟩ ::ₘ m)
    (hkind : d.kind = b.kind)
    (hsame : Same ({ s with calls := m }.call d) t) : t.Matched := by
  refine Matched.same ⟨?_, fun c hc => ?_⟩ hsame
  · have hflags := h.flags
    rw [current_cons (s := { s with calls := m }) (t := s) rfl hcalls] at hflags
    have hcurrent : ({ s with calls := m }.call d).current =
        d ::ₘ ({ s with calls := m } : State).current := current_cons rfl rfl
    rw [hcurrent]
    exact hflags.replace hkind
  · rcases Multiset.mem_cons.mp hc with rfl | hc
    · exact le_refl _
    · exact h.revision_le c (hcalls ▸ Multiset.mem_cons_of_mem hc)

theorem stale (h : s.Matched) (hcalls : s.calls = c ::ₘ m) (hstale : c.revision ≠ s.revision) :
    ({ s with calls := m } : State).Matched := by
  refine ⟨?_, fun d hd => h.revision_le d (hcalls ▸ Multiset.mem_cons_of_mem hd)⟩
  have hflags := h.flags
  rw [current_stale (s := { s with calls := m }) (t := s) rfl hcalls hstale] at hflags
  exact hflags

theorem reset (h : s.Matched) : s.reset.Matched := by
  refine ⟨?_, fun c hc => (h.revision_le c hc).trans (Nat.le_succ _)⟩
  have hcurrent : s.reset.current = 0 := by
    unfold State.current
    have hnone : s.reset.calls.filter (fun c => c.revision = s.reset.revision) = 0 := by
      rw [Multiset.filter_eq_nil]
      intro c hc heq
      have hle := h.revision_le c hc
      rw [heq] at hle
      exact Nat.not_succ_le_self _ hle
    rw [hnone, Multiset.map_zero]
  have hflag : s.reset.flag = fun _ => false := by
    funext k
    cases k <;> rfl
  rw [hcurrent, hflag]
  exact Flagged.none _

theorem forgetRetry (h : s.Matched) (hcalls : s.calls = ⟨s.revision, b⟩ ::ₘ m)
    (hkind : b.kind = .retry message.uniqueId) :
    (({ s with calls := m } : State).forgetRetry message.uniqueId).Matched := by
  refine h.lower (t := ({ s with calls := m } : State).forgetRetry message.uniqueId) rfl hcalls
    ?_ ?_
  · rw [hkind]
    simp [State.forgetRetry]
  · rintro (_ | _ | uniqueId) hk
    · rfl
    · rfl
    · have hne : uniqueId ≠ message.uniqueId := fun heq => hk (heq ▸ hkind.symm)
      simp [State.forgetRetry, hne]

theorem move (h : s.Matched) (huploads : s.Uploads) (hmove : Move C qt allows w s t) :
    t.Matched := by
  cases hmove with
  | quiet hquiet => exact h.same hquiet.toSame
  | reset => exact h.reset
  | @ask data sampleId inputs contents uuid clearDraft hsaving =>
    exact h.raise (b := .sendSaved data (s.create w data uuid contents) clearDraft) hsaving rfl rfl
      rfl (flag_of_ne_send rfl rfl)
  | stale hcalls hstale => exact h.stale hcalls hstale
  | sendRefused hcalls => exact h.lower rfl hcalls rfl (flag_of_ne_send rfl rfl)
  | @sendOver r data outgoing clearDraft m hcalls _ hquiet =>
    have hlower : ({ s with calls := m, saving := false } : State).Matched :=
      h.lower rfl hcalls rfl (flag_of_ne_send rfl rfl)
    exact hlower.same (hquiet.toSame.trans (same_foldl_accept outgoing r))
  | @commit requestId fileId upload _ hupload =>
    exact h.raise (b := .uploadSaved upload) (huploads.upload_eq_some hupload).2 rfl rfl rfl
      (flag_of_ne_commit rfl rfl)
  | commitOver hcalls => exact h.lower rfl hcalls rfl (flag_of_ne_commit rfl rfl)
  | commitSent hcalls => exact h.lower rfl hcalls rfl (flag_of_ne_commit rfl rfl)
  | @retry message data _ hnew =>
    refine h.raise (b := .retryLoaded message data) ?_ rfl rfl ?_ ?_
    · simpa [Callback.kind] using hnew
    · simp [Callback.kind, retrying, call]
    · rintro (_ | _ | uniqueId) hk
      · rfl
      · rfl
      · have hne : uniqueId ≠ message.uniqueId := fun heq => hk (heq ▸ rfl)
        simp [retrying, emit, call, hne]
  | retryNext hcalls => exact h.replace (d := .retrySaved _ _ _ _) hcalls rfl (.refl _)
  | retryOver hcalls hb =>
    refine h.forgetRetry hcalls ?_
    rcases hb with ⟨data, rfl⟩ | ⟨data, image, needsUpload, rfl⟩ <;> rfl
  | retryQueued hcalls => exact (h.forgetRetry hcalls rfl).same (same_enqueue _ _ _)
  | make => exact ⟨h.flags, h.revision_le⟩
  | _ => exact h.same ⟨rfl, rfl, rfl, rfl, rfl, rfl⟩

end State.Matched

/-! ## The attempts -/

/-- Every attempt that is known has its own timer. -/
structure State.Timed (s : State) : Prop where
  timer : ∀ uniqueId attempt, s.attempts uniqueId = some attempt →
    ∃ timer ∈ s.timers, timer.uniqueId = uniqueId ∧ timer.attempt = attempt ∧
      timer.revision = s.revision
  attempt_le : ∀ timer ∈ s.timers, timer.attempt ≤ s.nextAttempt
  nodup : (s.timers.map Timer.attempt).Nodup

namespace State.Timed

theorem congr (h : s.Timed) (hrevision : t.revision = s.revision)
    (hattempts : t.attempts = s.attempts) (htimers : t.timers = s.timers)
    (hnext : t.nextAttempt = s.nextAttempt) : t.Timed := by
  refine ⟨?_, ?_, ?_⟩
  · rw [hattempts, htimers, hrevision]
    exact h.timer
  · rw [htimers, hnext]
    exact h.attempt_le
  · rw [htimers]
    exact h.nodup

theorem quiet (h : s.Timed) (hquiet : Quiet s t) : t.Timed :=
  h.congr hquiet.revision hquiet.attempts hquiet.timers hquiet.nextAttempt

theorem dispatched (h : s.Timed) : (s.dispatched w message data).Timed := by
  refine ⟨fun uniqueId attempt hattempt => ?_, fun timer htimer => ?_, ?_⟩
  · by_cases hid : uniqueId = message.uniqueId
    · subst hid
      simp only [State.dispatched, Function.update_self, Option.some_inj] at hattempt
      exact ⟨_, Multiset.mem_cons_self _ _, rfl, hattempt, rfl⟩
    · simp only [State.dispatched, Function.update_of_ne hid] at hattempt
      obtain ⟨timer, htimer, h⟩ := h.timer uniqueId attempt hattempt
      exact ⟨timer, Multiset.mem_cons_of_mem htimer, h⟩
  · rcases Multiset.mem_cons.mp htimer with rfl | htimer
    · exact le_refl _
    · exact (h.attempt_le timer htimer).trans (Nat.le_succ _)
  · change (Multiset.map Timer.attempt (_ ::ₘ s.timers)).Nodup
    rw [Multiset.map_cons, Multiset.nodup_cons]
    refine ⟨fun hmem => ?_, h.nodup⟩
    obtain ⟨timer, htimer, heq⟩ := Multiset.mem_map.mp hmem
    have hle := h.attempt_le timer htimer
    rw [heq] at hle
    exact Nat.not_succ_le_self _ hle

theorem erase (h : s.Timed) (timer : Timer) :
    (∀ t ∈ s.timers.erase timer, t.attempt ≤ s.nextAttempt) ∧
      ((s.timers.erase timer).map Timer.attempt).Nodup :=
  ⟨fun t ht => h.attempt_le t (Multiset.mem_of_mem_erase ht),
    Multiset.nodup_of_le (Multiset.map_le_map (Multiset.erase_le timer s.timers)) h.nodup⟩

theorem foldl_accept (h : s.Timed) (outgoing : List OutgoingMessage) :
    (outgoing.foldl accept s).Timed := by
  induction outgoing generalizing s with
  | nil => exact h
  | cons item outgoing ih =>
    obtain ⟨r, hr, heq⟩ := accept_cases s item
    rw [List.foldl_cons, heq]
    exact ih ((h.quiet hr).congr rfl rfl rfl rfl)

theorem move (h : s.Timed) (hmove : Move C qt allows w s t) : t.Timed := by
  cases hmove with
  | quiet hquiet => exact h.quiet hquiet
  | send => exact Timed.dispatched (h.congr rfl rfl rfl rfl)
  | commitSent => exact Timed.dispatched (h.congr rfl rfl rfl rfl)
  | reset =>
    refine ⟨?_, h.attempt_le, h.nodup⟩
    rintro _ _ ⟨⟩
  | sendOver _ _ hquiet =>
    refine Timed.foldl_accept (Timed.quiet ?_ hquiet) _
    exact h.congr rfl rfl rfl rfl
  | @fire timer hstale =>
    refine ⟨fun uniqueId attempt hattempt => ?_, (h.erase timer).1, (h.erase timer).2⟩
    obtain ⟨other, hother, hid, hcount, hrevision⟩ := h.timer uniqueId attempt hattempt
    refine ⟨other, (Multiset.mem_erase_of_ne fun heq => ?_).mpr hother, hid, hcount, hrevision⟩
    -- the timer of an attempt that is known is not stale
    subst heq
    rcases hstale with hne | hne
    · exact hne hrevision.symm
    · rw [hid, hcount] at hne
      exact hne hattempt
  | expire timer =>
    refine ⟨fun uniqueId attempt hattempt => ?_, (h.erase timer).1, (h.erase timer).2⟩
    have hid : uniqueId ≠ timer.uniqueId := by
      rintro rfl
      simp only [Function.update_self] at hattempt
      cases hattempt
    simp only [Function.update_of_ne hid] at hattempt
    obtain ⟨other, hother, hid', hcount, hrevision⟩ := h.timer uniqueId attempt hattempt
    refine ⟨other, (Multiset.mem_erase_of_ne fun heq => ?_).mpr hother, hid', hcount, hrevision⟩
    exact hid (hid'.symm.trans (congrArg Timer.uniqueId heq))
  | _ => exact h.congr rfl rfl rfl rfl

end State.Timed

/-! ## Between the events -/

/-- What waits in the queue waits for an upload or for its commit. -/
def State.Rested (s : State) : Prop := s.Idle → s.sendQueue = []

theorem Quiet.rested (h : Quiet s t) (hs : s.Rested) : t.Rested := by
  rintro ⟨huploads, hcommit⟩
  rw [h.sendQueue]
  exact hs ⟨h.imageUploads ▸ huploads, h.uploadCommitting ▸ hcommit⟩

theorem rested_sendNextMessage (s : State) (w : World) : (s.sendNextMessage w).Rested := by
  intro hidle
  rcases sendNextMessage_cases s w with ⟨hbusy, heq⟩ | ⟨-, hserves⟩
  · rw [heq] at hidle
    exact absurd hidle hbusy
  · exact hserves.rests.resolve_right fun hne => hne hidle.1

theorem rested_retryLoaded (hs : s.Rested) :
    (s.retryLoaded w message data result).Rested := by
  rcases retryLoaded_cases result (s := s) (w := w) message data with
    hquiet | ⟨-, -, hquiet⟩
  · exact hquiet.rested hs
  · exact hquiet.rested hs

theorem rested_run (hs : s.Rested) : (s.run w result b).Rested := by
  cases b with
  | sendSaved data outgoing clearDraft =>
    rcases sendSaved_cases result (s := s) (w := w) data outgoing clearDraft with
      hquiet | ⟨-, -, r, u, -, -, hquiet⟩
    · exact hquiet.rested hs
    · exact hquiet.rested (rested_sendNextMessage u w)
  | uploadSaved upload =>
    obtain ⟨r, heq, -⟩ := uploadSaved_cases result (s := s) (w := w) upload
    change (s.uploadSaved w upload result).Rested
    rw [heq]
    exact rested_sendNextMessage r w
  | retryLoaded message data => exact rested_retryLoaded hs
  | retrySaved message data image needsUpload =>
    rcases retrySaved_cases result (s := s) (w := w) message data image needsUpload
      with hquiet | ⟨-, -, r, -, heq⟩
    · exact hquiet.rested hs
    · change (s.retrySaved w message data image needsUpload result).Rested
      rw [heq]
      exact rested_sendNextMessage r w

/-- After every event the queue was served as far as it can be. -/
theorem rested_next {e : Event} (hs : s.Rested) (hstep : s.next C qt (w, e) = some t) :
    t.Rested := by
  cases e with
  | send inputs data clearDraft sampleId uuid =>
    cases hstep
    rcases send_cases C qt (s := s) (w := w) inputs data clearDraft sampleId uuid
      with hquiet | ⟨contents, -, -, -, -, hquiet⟩
    · exact hquiet.rested hs
    · exact hquiet.rested hs
  | retry message data =>
    simp only [State.next, Option.ite_none_right_eq_some] at hstep
    cases hstep.2
    rcases retryMessage_cases (s := s) (w := w) message data with
      hquiet | ⟨-, -, hquiet | ⟨-, heq⟩⟩
    · exact hquiet.rested hs
    · exact hquiet.rested hs
    · rw [heq]
      exact rested_retryLoaded hs
  | removeThread threadId =>
    cases hstep
    exact rested_sendNextMessage _ w
  | reset =>
    cases hstep
    exact fun _ => rfl
  | failPending threadId message definitive =>
    cases hstep
    exact (quiet_failPending s w threadId message definitive).rested hs
  | uploadProgress requestId done total =>
    cases hstep
    exact (quiet_uploadProgress s requestId done total).rested hs
  | uploadFinished requestId fileId error =>
    simp only [State.next, Option.ite_none_right_eq_some, Option.some.injEq] at hstep
    obtain ⟨-, rfl⟩ := hstep
    rcases uploadFinished_cases (s := { s with uploading := s.uploading.erase requestId }) (w := w)
      requestId fileId error with ⟨-, heq⟩ | ⟨upload, -, ⟨r, -, heq⟩ | ⟨-, -, hquiet⟩⟩
    · rw [heq]
      exact hs
    · rw [heq]
      exact rested_sendNextMessage r w
    · refine hquiet.rested fun hidle => ?_
      cases hidle.2
  | answer c result =>
    simp only [State.next, Option.ite_none_right_eq_some, Option.some.injEq] at hstep
    obtain ⟨-, rfl⟩ := hstep
    rcases answer_cases result (s := s) (w := w) c (s.calls.erase c) with
      ⟨-, heq⟩ | ⟨-, heq⟩
    · rw [heq]
      exact hs
    · rw [heq]
      refine rested_run ?_
      unfold State.noted
      split <;> exact hs
  | timeout timer =>
    simp only [State.next, Option.ite_none_right_eq_some, Option.some.injEq] at hstep
    obtain ⟨-, rfl⟩ := hstep
    rcases timeout_cases (s := { s with timers := s.timers.erase timer }) (w := w) timer with
      ⟨-, heq⟩ | hquiet
    · rw [heq]
      exact hs
    · exact hquiet.rested hs
  | make message contents =>
    simp only [State.next, Option.ite_none_right_eq_some] at hstep
    cases hstep.2
    exact hs
  | change message contents =>
    simp only [State.next, Option.ite_none_right_eq_some] at hstep
    cases hstep.2
    exact hs

/-! ## Every run -/

theorem matched_invariant : (machine C qt).Invariant fun s => s.Uploads ∧ s.Matched := by
  refine invariant_of_moves (fun _ _ => ⟨.of_idle ⟨rfl, rfl⟩, ?_, ?_⟩)
    fun _ _ _ hs h => ⟨hs.1.move h, hs.2.move hs.1 h⟩
  · refine fun k => ?_
    cases k <;> rfl
  · exact fun c hc => absurd hc (Multiset.notMem_zero c)

theorem timed_invariant : (machine C qt).Invariant State.Timed := by
  refine invariant_of_moves (fun _ _ => ⟨?_, ?_, ?_⟩) fun _ _ _ hs h => hs.move h
  · rintro _ _ ⟨⟩
  · exact fun timer htimer => absurd htimer (Multiset.notMem_zero timer)
  · exact Multiset.nodup_zero

theorem rested_invariant : (machine C qt).Invariant State.Rested := by
  refine ⟨?_, fun s e t _ hs hstep => rested_next hs hstep⟩
  rintro _ ⟨contents, allocated, rfl⟩
  exact fun _ => rfl

end CppChat.Sending
