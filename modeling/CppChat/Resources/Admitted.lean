import CppChat.Resources.Safety

/-! # What metadata and ready records can say

Whatever fails, every metadata file holds the metadata of an upload that passed its checks,
and so does the ready record.
-/
namespace CppChat.Resources
open Foundation Faults

/-- The metadata of a request that passed its checks. -/
def Meta.Admitted (m : Meta) : Prop := ∃ r : InitRequest, r.valid m.uid ∧ m = r.meta m.uid

structure Recorded (d : Disk) : Prop where
  json : ∀ dir m, (d.folder dir).json = some (.whole m) → m.Admitted
  ready : ∀ text, d.ready = some text → ∃ m : Meta, m.Admitted ∧ text = m.ready

variable {sha256 : Bytes → String} {d : Disk} {m : Meta}

theorem recorded_emptyDisk : Recorded emptyDisk := ⟨by simp [emptyDisk], by simp [emptyDisk]⟩

theorem Recorded.parsed (h : Recorded d) (hm : d.parsed = some m) : m.Admitted :=
  h.json _ m (Disk.parsed_eq_some.mp hm)

theorem Recorded.setFolder (h : Recorded d) {dir : Dir} {f : Folder}
    (hjson : ∀ m, f.json = some (.whole m) → m.Admitted) : Recorded (d.setFolder dir f) := by
  refine ⟨fun dir' m hm => ?_, h.ready⟩
  by_cases hdir : dir' = dir
  · subst hdir
    rw [Disk.setFolder_self] at hm
    exact hjson m hm
  · rw [Disk.setFolder_of_ne hdir] at hm
    exact h.json dir' m hm

theorem Recorded.setHere (h : Recorded d) {f : Folder} (hjson : f.json = d.here.json) :
    Recorded (d.setHere f) :=
  h.setFolder fun m hm => h.json _ m (hjson ▸ hm)

theorem Recorded.setReady (h : Recorded d) (hm : m.Admitted) :
    Recorded { d with ready := some m.ready } := by
  refine ⟨h.json, ?_⟩
  rintro _ ⟨⟩
  exact ⟨m, hm, rfl⟩

/-! ## Operations -/

theorem keeps_fileExists {i : Site} {get : Folder → Option Bytes} :
    (fileExists i get).Keeps Recorded := Faulty.keeps_look

theorem keeps_fileSize {i : Site} {get : Folder → Option Bytes} :
    (fileSize i get).Keeps Recorded := Faulty.keeps_look

theorem keeps_removePart : removePart.Keeps Recorded := Faulty.keeps_act fun _ h => h.setHere rfl

theorem keeps_renamePart : renamePart.Keeps Recorded := by
  refine Faulty.keeps_act fun d h => ?_
  dsimp only
  split
  · exact h.setHere rfl
  · exact h

theorem keeps_openPart : openPart.Keeps Recorded := by
  refine Faulty.keeps_op fun fate d h => ?_
  split
  · exact h.setHere rfl
  · exact h
  · exact h
  · exact h

theorem keeps_writePart {bytes : Bytes} : (writePart bytes).Keeps Recorded := by
  have happend : ∀ d more, Recorded d → Recorded (appendPart d more) := fun d more h =>
    h.setHere rfl
  refine Faulty.keeps_op fun fate d h => ?_
  split
  · exact happend _ _ h
  · exact happend _ _ h
  · exact happend _ _ h

theorem keeps_markReady (hm : m.Admitted) : (markReady m.ready).Keeps Recorded := by
  refine Faulty.keeps_op fun fate d h => ?_
  split
  · exact h.setReady hm
  · exact h
  · exact h.setReady hm
  · exact h
  · exact h.setReady hm

theorem keeps_publish (hm : m.Admitted) : (publish m).Keeps Recorded :=
  (keeps_markReady hm).bind fun _ => .ite (fun _ => Faulty.keeps_pure) fun _ => Faulty.keeps_pure

theorem keeps_writeMeta (hm : m.Admitted) : (writeMeta m).Keeps Recorded := by
  refine .bind (Faulty.keeps_act fun d h => h.setFolder ?_) fun _ =>
    Faulty.keeps_op fun fate d h => ?_
  · rintro _ ⟨⟩
  · split
    · refine h.setFolder ?_
      rintro _ ⟨⟩
      exact hm
    · exact h
    · exact h
    · exact h

/-! ## Requests -/

theorem keeps_partComplete : (partComplete sha256 m).Keeps Recorded :=
  keeps_fileSize.bind fun _ => .ite (fun _ => Faulty.keeps_pure) fun _ =>
    .bind Faulty.keeps_tryLook fun _ => .ite (fun _ => Faulty.keeps_pure) fun _ =>
      .ite (fun _ => Faulty.keeps_pure) fun _ => Faulty.keeps_tryLook

theorem keeps_settle : (settle sha256 m).Keeps Recorded := by
  refine keeps_fileExists.bind fun _ => .ite (fun _ => Faulty.keeps_pure) fun _ => ?_
  refine keeps_fileExists.bind fun _ => .ite (fun _ => ?_) fun _ => Faulty.keeps_pure
  refine keeps_fileSize.bind fun _ => .ite (fun _ => ?_) fun _ => Faulty.keeps_pure
  refine keeps_partComplete.bind fun _ => .ite (fun _ => ?_) fun _ => ?_
  · exact keeps_renamePart.bind fun _ => Faulty.keeps_pure
  · exact keeps_removePart.bind fun _ => Faulty.keeps_pure

theorem keeps_partOffset : partOffset.Keeps Recorded :=
  keeps_fileExists.bind fun _ => .ite (fun _ => keeps_fileSize) fun _ => Faulty.keeps_pure

theorem keeps_waveIn {i : Site} {get : Folder → Option Bytes} : (waveIn i get m).Keeps Recorded :=
  .ite (fun _ => Faulty.keeps_tryLook) fun _ => Faulty.keeps_pure

theorem keeps_resumeUpload (hm : m.Admitted) : (resumeUpload sha256 m).Keeps Recorded := by
  refine keeps_settle.bind fun _ => .ite (fun _ => ?_) fun _ => ?_
  · exact keeps_waveIn.bind fun _ => .ite (fun _ => Faulty.keeps_pure) fun _ => keeps_publish hm
  · exact keeps_partOffset.bind fun _ => Faulty.keeps_pure

theorem keeps_finishPart (hm : m.Admitted) : (finishPart sha256 m).Keeps Recorded := by
  refine .bind Faulty.keeps_tryLook fun _ => .ite (fun _ => ?_) fun _ => ?_
  · exact keeps_removePart.bind fun _ => Faulty.keeps_pure
  · refine keeps_waveIn.bind fun _ => .ite (fun _ => ?_) fun _ => ?_
    · exact keeps_removePart.bind fun _ => Faulty.keeps_pure
    · exact keeps_renamePart.bind fun _ => keeps_publish hm

/-- Metadata that was read is admitted. -/
theorem keeps_readMeta {α : Type} {f : Option Meta → Io α}
    (hsome : ∀ m : Meta, m.Admitted → (f (some m)).Keeps Recorded)
    (hnone : (f none).Keeps Recorded) : (readMeta >>= f).Keeps Recorded := by
  intro plan d h
  rw [Faulty.wp_bind]
  exact wp_readMeta (fun m hm => hsome m (h.parsed hm) plan d h) (fun _ => hnone plan d h)
    fun _ => h

theorem keeps_uploadInit {uid : ℤ} {member : ℤ → Bool} {r : InitRequest} :
    (uploadInit sha256 uid member r).Keeps Recorded := by
  refine .ite (fun _ => Faulty.keeps_pure) fun hvalid =>
    .ite (fun _ => Faulty.keeps_pure) fun _ => ?_
  have hm : (r.meta uid).Admitted := ⟨r, not_not.mp hvalid, rfl⟩
  refine keeps_readMeta (fun m hadmitted => ?_) ?_
  · exact .ite (fun _ => Faulty.keeps_pure) fun _ => keeps_resumeUpload hadmitted
  · exact (keeps_writeMeta hm).bind fun _ => keeps_resumeUpload hm

theorem keeps_uploadChunk {uid : ℤ} {member : ℤ → Bool} {requested : ℕ} {bytes : Bytes} :
    (uploadChunk sha256 uid member requested bytes).Keeps Recorded := by
  refine keeps_readMeta (fun m hm => ?_) Faulty.keeps_pure
  refine .ite (fun _ => Faulty.keeps_pure) fun _ => .ite (fun _ => Faulty.keeps_pure) fun _ => ?_
  refine keeps_fileExists.bind fun _ => .ite (fun _ => keeps_publish hm) fun _ => ?_
  refine keeps_partOffset.bind fun _ => .ite (fun _ => Faulty.keeps_pure) fun _ =>
    .ite (fun _ => Faulty.keeps_pure) fun _ => ?_
  refine keeps_openPart.bind fun _ => .ite (fun _ => Faulty.keeps_pure) fun _ => ?_
  refine keeps_writePart.bind fun _ => .ite (fun _ => Faulty.keeps_pure) fun _ => ?_
  exact .ite (fun _ => keeps_finishPart hm) fun _ => Faulty.keeps_pure

theorem keeps_download {uid : ℤ} {member : ℤ → Bool} {offset : ℕ} :
    (download uid member offset).Keeps Recorded := by
  refine keeps_readMeta (fun m _ => ?_) Faulty.keeps_pure
  refine .ite (fun _ => Faulty.keeps_pure) fun _ => keeps_fileExists.bind fun _ =>
    .ite (fun _ => Faulty.keeps_pure) fun _ => .ite (fun _ => Faulty.keeps_pure) fun _ => ?_
  refine .bind Faulty.keeps_tryLook fun _ => .ite (fun _ => Faulty.keeps_pure) fun _ => ?_
  refine .bind (Faulty.keeps_op fun fate d h => ?_) fun _ => Faulty.keeps_pure
  split
  · exact h
  · exact h
  · exact h

theorem keeps_handle (a : Action) : (handle sha256 a).Keeps Recorded := by
  unfold handle
  split
  · exact keeps_uploadInit
  · exact keeps_uploadChunk
  · exact keeps_download

/-- In every run, whatever fails. -/
theorem recorded_reachable {s : State} (hs : (store sha256).Reachable s) : Recorded s.disk := by
  have hinv : (store sha256).Invariant fun s => Recorded s.disk := by
    refine ⟨fun s h => ?_, fun s a t _ h hstep => ?_⟩
    · cases h
      exact recorded_emptyDisk
    · obtain ⟨hreply, hnone⟩ := step_of_wp
        (((keeps_handle a).bind fun _ => Faulty.keeps_look) a.plan s.disk h) hstep
      match hr : s.reply sha256 a with
      | some reply => exact hreply reply hr
      | none =>
        obtain ⟨_, h⟩ := hnone hr
        exact h
  exact hinv.reachable hs

end CppChat.Resources
