import CppChat.Sending.Waiting

/-! # Sending makes progress

The answers that the queue waits for come while it is not empty, and each of them brings it nearer
to its end.
-/
namespace CppChat.Sending
open Foundation (Machine)
open State

variable {C : Texts.EmojiCatalog} {qt : Attachments.Qt} {w : World} {s t : State}

/-- How many answers the queue can take. -/
def State.load (s : State) : ℕ :=
  2 * s.sendQueue.length + 2 * s.imageUploads.length + s.uploadCommitting.toNat

/-- The answers that the queue waits for. -/
def State.Settles (s : State) : World × Event → Prop
  | (_, .uploadFinished requestId _ _) => (s.upload requestId).isSome
  | (_, .answer c _) => c.revision = s.revision ∧ c.callback.kind = .commit
  | _ => False

/-- A run of such answers, with their number. -/
inductive Settling (C : Texts.EmojiCatalog) (qt : Attachments.Qt) (s : State) : ℕ → State → Prop
  | none : Settling C qt s 0 s
  | more {n : ℕ} {t u : State} {a : World × Event} (h : Settling C qt s n t) (ha : t.Settles a)
      (hstep : t.next C qt a = some u) : Settling C qt s (n + 1) u

theorem Quiet.load (h : Quiet s t) : t.load = s.load := by
  unfold State.load
  rw [h.sendQueue, h.imageUploads, h.uploadCommitting]

theorem Serves.load (h : Serves w s t) : t.load ≤ s.load := by
  induction h with
  | done => exact le_refl _
  | @pass s t u item queue _ hqueue hquiet _ ih =>
    refine ih.trans ?_
    rw [hquiet.load]
    simp only [State.load, hqueue, List.length_cons]
    omega
  | upload hidle hqueue =>
    simp [State.load, startUpload, State.forgetUpload, emit, hidle.1, hidle.2, hqueue]
    omega
  | send _ hqueue _ _ _ _ ih =>
    refine ih.trans ?_
    simp only [State.load, dispatched, hqueue, List.length_cons]
    omega

theorem load_sendNextMessage (s : State) (w : World) : (s.sendNextMessage w).load ≤ s.load := by
  rcases sendNextMessage_cases s w with ⟨-, heq⟩ | ⟨-, h⟩
  · rw [heq]
  · exact h.load

theorem load_settles (huploads : s.Uploads) (hmatched : s.Matched) {a : World × Event}
    (ha : s.Settles a) (hstep : s.next C qt a = some t) : t.load < s.load := by
  obtain ⟨w, e⟩ := a
  cases e with
  | uploadFinished requestId fileId error =>
    simp only [State.next, Option.ite_none_right_eq_some, Option.some.injEq] at hstep
    obtain ⟨-, rfl⟩ := hstep
    obtain ⟨upload, hupload⟩ := Option.isSome_iff_exists.mp ha
    obtain ⟨heq, hcommit⟩ := huploads.upload_eq_some hupload
    rcases uploadFinished_cases (s := { s with uploading := s.uploading.erase requestId }) (w := w)
      requestId fileId error with ⟨hnone, -⟩ | ⟨upload, -, ⟨r, hr, hnext⟩ | ⟨-, -, hquiet⟩⟩
    · rw [show s.upload requestId = none from hnone] at hupload
      cases hupload
    · rw [hnext]
      refine (load_sendNextMessage r w).trans_lt ?_
      rw [hr.load]
      simp [State.load, State.forgetUpload, heq, hcommit]
    · rw [hquiet.load]
      simp [State.load, State.commit, call, State.forgetUpload, heq, hcommit]
  | answer c result =>
    simp only [State.next, Option.ite_none_right_eq_some, Option.some.injEq] at hstep
    obtain ⟨hc, rfl⟩ := hstep
    obtain ⟨hrevision, hkind⟩ := ha
    have hcommit : s.uploadCommitting = true := by
      have hmem : ⟨s.revision, c.callback⟩ ∈ s.calls := hrevision ▸ hc
      have hflag := hmatched.flags.flag_of_mem (mem_current.mpr hmem)
      rwa [hkind] at hflag
    rcases answer_cases result (s := s) (w := w) c (s.calls.erase c) with
      ⟨hstale, -⟩ | ⟨-, heq⟩
    · exact absurd hrevision hstale
    · rw [heq]
      obtain ⟨_, callback⟩ := c
      cases callback with
      | uploadSaved upload =>
        obtain ⟨r, hnext, hr⟩ := uploadSaved_cases result (w := w) upload
          (s := { s.noted (.uploadSaved upload) result with calls := s.calls.erase ⟨_, _⟩ })
        change (State.uploadSaved _ w upload result).load < _
        rw [hnext]
        refine (load_sendNextMessage r w).trans_lt ?_
        have hload : r.load = 2 * s.sendQueue.length + 2 * s.imageUploads.length := by
          rcases hr with hquiet | ⟨-, -, -, hquiet⟩
          all_goals
            rw [hquiet.load]
            unfold State.noted
            split <;> rfl
        rw [hload, State.load, hcommit, Bool.toNat_true]
        omega
      | sendSaved | retryLoaded | retrySaved => cases hkind
  | _ => exact ha.elim

theorem Settling.reachable {n : ℕ} (h : Settling C qt s n t) (hs : (machine C qt).Reachable s) :
    (machine C qt).Reachable t := by
  induction h with
  | none => exact hs
  | more _ _ hstep ih => exact ih.step hstep

theorem Settling.load {n : ℕ} (h : Settling C qt s n t) (hs : (machine C qt).Reachable s) :
    n + t.load ≤ s.load := by
  induction h with
  | none => exact (Nat.zero_add _).le
  | more h ha hstep ih =>
    obtain ⟨huploads, hmatched⟩ := matched_invariant.reachable (h.reachable hs)
    have hlt := load_settles huploads hmatched ha hstep
    omega

/-- Whatever holds the sender up is waited for, by one callback or timer each. One upload runs at
most and none during a commit. A message waits in the queue only while the upload or the commit
is to be answered, and with so many such answers as the load is, at the latest, the queue is
empty. -/
theorem nothing_stalls (C : Texts.EmojiCatalog) (qt : Attachments.Qt) {s : State}
    (hs : (machine C qt).Reachable s) :
    (∀ k, s.current.countP (fun b => b.kind = k) = (s.flag k).toNat) ∧
    s.imageUploads.length + s.uploadCommitting.toNat ≤ 1 ∧
    (∀ uniqueId attempt, s.attempts uniqueId = some attempt → ∃ timer ∈ s.timers,
      timer.uniqueId = uniqueId ∧ timer.attempt = attempt ∧ timer.revision = s.revision ∧
        ∀ other ∈ s.timers.erase timer, other.attempt ≠ attempt) ∧
    (s.sendQueue ≠ [] → (∃ upload, s.imageUploads = [upload] ∧ upload.1 ∈ s.uploading) ∨
      ∃ upload, ⟨s.revision, .uploadSaved upload⟩ ∈ s.calls) ∧
    ∀ n t, Settling C qt s n t → n + t.load ≤ s.load := by
  obtain ⟨huploads, hmatched⟩ := matched_invariant.reachable hs
  have htimed := timed_invariant.reachable hs
  refine ⟨hmatched.flags, huploads.one, fun uniqueId attempt hattempt => ?_, fun hqueue => ?_,
    fun n t h => h.load hs⟩
  · obtain ⟨timer, htimer, hid, hcount, hrevision⟩ := htimed.timer uniqueId attempt hattempt
    refine ⟨timer, htimer, hid, hcount, hrevision, fun other hother heq => ?_⟩
    have hnodup := htimed.nodup
    rw [← Multiset.cons_erase htimer, Multiset.map_cons, Multiset.nodup_cons] at hnodup
    exact hnodup.1 (Multiset.mem_map.mpr ⟨other, hother, heq.trans hcount.symm⟩)
  · by_cases hcommit : s.uploadCommitting = true
    · have hflag : s.flag .commit = true := hcommit
      obtain ⟨b, rest, hcurrent, hkind, -⟩ := hmatched.flags.callback hflag
      have hmem := mem_current.mp (hcurrent ▸ Multiset.mem_cons_self b rest)
      cases b with
      | uploadSaved upload => exact .inr ⟨upload, hmem⟩
      | sendSaved | retryLoaded | retrySaved => cases hkind
    · rw [Bool.not_eq_true] at hcommit
      have hone := huploads.one
      cases hlist : s.imageUploads with
      | nil => exact absurd (rested_invariant.reachable hs ⟨hlist, hcommit⟩) hqueue
      | cons e rest =>
        rw [hlist, List.length_cons] at hone
        have hrest : rest = [] := List.length_eq_zero_iff.mp (by omega)
        subst hrest
        exact .inl ⟨e, rfl, huploads.runs e (by rw [hlist]; exact List.mem_cons_self)⟩

/-! A run with two pictures, the first of which is uploaded. -/

def sampleChat : Chat := ⟨1, 7, 9, false, by decide, by decide⟩

theorem sampleUid_isInt : Wire.IsInt 5 := by decide

def sampleWorld : World where
  uid := 5
  uid_isInt := sampleUid_isInt
  threads := fun thread => if thread = 7 then some 1 else none
  chatThreads := [sampleChat]
  msgUnRsp := fun _ => []
  isFriend := fun _ => true
  connected := true
  storeReady := true
  generation := 0
  messageDedup := true
  groupImages := true
  voiceMessages := true
  fileMessages := true

def samplePicture (byte : UInt8) : MsgInfo := ⟨"image", [], [byte]⟩

/-- The uuids that the sample draws. -/
def sampleUuid (n : ℕ) : Foundation.Utf16.Text := [UInt16.ofNat (0x61 + n)]

theorem sampleSampleId_size :
    String.utf8ByteSize "00000000-0000-0000-0000-000000000000" = 36 := by decide

def sampleSampleId : Texts.Uuid :=
  ⟨"00000000-0000-0000-0000-000000000000", sampleSampleId_size⟩

def sampleMessages : List OutgoingMessage :=
  [⟨samplePicture 1, sampleChat, ⟨0, sampleUuid 0, 7, .pic, 5⟩⟩,
    ⟨samplePicture 2, sampleChat, ⟨1, sampleUuid 1, 7, .pic, 5⟩⟩]

/-- The records of two pictures are saved, and the first of them is uploaded. -/
def sampleSend : List (World × Event) :=
  [(sampleWorld, .send [samplePicture 1, samplePicture 2] sampleChat true sampleSampleId
      sampleUuid),
    (sampleWorld, .answer ⟨0, .sendSaved sampleChat sampleMessages true⟩ ⟨"", []⟩)]

def sampleStart : State := .initial (fun _ => ⟨0, [], 0⟩) 0

def sampleRun (as : List (World × Event)) : Option State :=
  Machine.runFn (State.next ⟨[], by simp⟩ Attachments.sampleQt) sampleStart as

theorem sampleRun_reachable {as : List (World × Event)} (h : sampleRun as = some s) :
    (machine ⟨[], by simp⟩ Attachments.sampleQt).Reachable s :=
  Machine.Reachable.runFn (.init ⟨_, _, rfl⟩) h

theorem sample_stalls : ∃ s, (machine ⟨[], by simp⟩ Attachments.sampleQt).Reachable s ∧
    s.sendQueue.length = 1 ∧ ((∃ upload, s.imageUploads = [upload] ∧ upload.1 ∈ s.uploading) ∨
      ∃ upload, ⟨s.revision, .uploadSaved upload⟩ ∈ s.calls) := by
  have hrun : (sampleRun sampleSend).map (fun s => s.sendQueue.length) = some 1 := by decide
  obtain ⟨s, hs, hlength⟩ := Option.map_eq_some_iff.mp hrun
  have hne : s.sendQueue ≠ [] := List.ne_nil_of_length_eq_add_one hlength
  have hreachable := sampleRun_reachable hs
  exact ⟨s, hreachable, hlength, (nothing_stalls _ _ hreachable).2.2.2.1 hne⟩

end CppChat.Sending
