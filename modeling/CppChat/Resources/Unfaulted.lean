import Mathlib.Algebra.Order.Group.Nat
import CppChat.Resources.Invariant

/-! # Requests whose operations all succeed

One uploader sends a content to the store and every file operation and every answer of the other
services is a success. What the store has of the content is then a prefix of it, until it is all.
-/
namespace CppChat.Resources
open Foundation Faults

variable {sha256 : Bytes → String} {d : Disk} {m : Meta} {content : Bytes}

/-- The first `n` bytes of a content are there, and the file when these are all. -/
def Progress (m : Meta) (content : Bytes) (d : Disk) (n : ℕ) : Prop :=
  d.parsed = some m ∧ n ≤ content.length ∧
    if n = content.length then d.here.bin = some content
    else d.here.bin = none ∧ d.here.part.getD [] = content.take n

theorem Disk.current_of_only {dir : Dir} (h : ∀ dir', dir' ≠ dir → (d.folder dir').json = none)
    (hdir : (d.folder dir).json.isSome = true) : d.current = dir := by
  unfold Disk.current
  cases dir with
  | files => simp [hdir]
  | audio => simp [hdir, h .files (by decide)]
  | groups => simp [hdir, h .files (by decide), h .audio (by decide)]
  | root => simp [h .files (by decide), h .audio (by decide), h .groups (by decide)]

theorem succeeds_readMeta_some (h : d.parsed = some m) : readMeta.Succeeds d (some m) d := by
  have hjson := Disk.parsed_eq_some.mp h
  unfold readMeta
  refine .bind Faulty.succeeds_look (.bind Faulty.succeeds_tryLook ?_)
  rw [hjson]
  unfold parseMeta Faulty.op
  simp [Faulty.Succeeds, hjson]

theorem succeeds_readMeta_none (h : d.here.json = none) : readMeta.Succeeds d none d := by
  unfold readMeta
  refine .bind Faulty.succeeds_look (.bind Faulty.succeeds_tryLook ?_)
  rw [h]
  exact Faulty.succeeds_pure

theorem succeeds_markReady (text : String) :
    (markReady text).Succeeds d true { d with ready := some text } := rfl

theorem succeeds_publish (m : Meta) :
    (publish m).Succeeds d (.upload m.size true) { d with ready := some m.ready } := by
  unfold publish
  exact .bind (succeeds_markReady _) Faulty.succeeds_pure

/-- The ready record is beside the files. -/
theorem Progress.setReady {n : ℕ} (h : Progress m content d n) (ready : Option String) :
    Progress m content { d with ready } n := h

theorem succeeds_renamePart {bytes : Bytes} (h : d.here.part = some bytes) :
    renamePart.Succeeds d () (d.setHere { d.here with part := none, bin := some bytes }) := by
  have hact : renamePart.Succeeds d () _ := Faulty.succeeds_act
  rwa [h] at hact

theorem succeeds_partOffset : partOffset.Succeeds d (d.here.part.getD []).length d := by
  unfold partOffset
  refine .bind Faulty.succeeds_look ?_
  cases hpart : d.here.part with
  | none => exact Faulty.succeeds_pure
  | some bytes =>
    have hsize : (fileSize .offsetSize Folder.part).Succeeds d
        (((d.here.part).map List.length).getD 0) d := Faulty.succeeds_look
    rw [hpart] at hsize
    exact hsize

theorem succeeds_waveIn {i : Site} {get : Folder → Option Bytes} (hget : get d.here = some content)
    (hwave : m.mediaType = 3 → validWave content = true) : (waveIn i get m).Succeeds d true d := by
  unfold waveIn
  split
  next h =>
    have hlook : (validWaveOf i get).Succeeds d (((get d.here).map validWave).getD false) d :=
      Faulty.succeeds_tryLook
    rw [hget, Option.map_some, Option.getD_some, hwave h] at hlook
    exact hlook
  next => exact Faulty.succeeds_pure

theorem succeeds_partComplete {bytes : Bytes} (hpart : d.here.part = some bytes) :
    (partComplete sha256 m).Succeeds d
      (bytes.length = m.size ∧ sha256 bytes = m.sha256 ∧
        (m.mediaType = 3 → validWave bytes = true)) d := by
  have hsizeOf : (fileSize .partSizeAgain Folder.part).Succeeds d
      (((d.here.part).map List.length).getD 0) d := Faulty.succeeds_look
  have hdigest : (sha256Of sha256 .partSha Folder.part).Succeeds d
      (((d.here.part).map sha256).getD "") d := Faulty.succeeds_tryLook
  have hwaveOf : (validWaveOf .partWave Folder.part).Succeeds d
      (((d.here.part).map validWave).getD false) d := Faulty.succeeds_tryLook
  rw [hpart] at hsizeOf hdigest hwaveOf
  simp only [Option.map_some, Option.getD_some] at hsizeOf hdigest hwaveOf
  unfold partComplete
  refine .bind hsizeOf ?_
  split
  next hne =>
    simp only [hne, false_and, decide_false]
    exact Faulty.succeeds_pure
  next hsize =>
    rw [not_not] at hsize
    refine .bind hdigest ?_
    split
    next hne =>
      simp only [hne, false_and, and_false, decide_false]
      exact Faulty.succeeds_pure
    next hsha =>
      rw [not_not] at hsha
      split
      next himage =>
        simp only [hsize, hsha, himage, true_and, false_implies, decide_true]
        exact Faulty.succeeds_pure
      next haudio =>
        rw [not_not] at haudio
        simpa [hsize, hsha, haudio] using hwaveOf

/-- What an upload of a content can start from: the file, a prefix, or a part that is dropped. -/
def Usable (sha256 : Bytes → String) (content : Bytes) (f : Folder) : Prop :=
  f.bin = some content ∨ f.bin = none ∧ ∀ bytes, f.part = some bytes → bytes <+: content ∨
    content.length ≤ bytes.length ∧
      (bytes.length ≠ content.length ∨ sha256 bytes ≠ sha256 content)

/-- Where an upload goes on: at the end of what is there of the content. -/
def Resumed (content : Bytes) (f : Folder) (n : ℕ) : Prop :=
  (f.bin = some content → n = content.length) ∧
    (f.bin = none → ∀ bytes, f.part = some bytes → bytes <+: content → n = bytes.length)

section
variable (hsize : m.size = content.length) (hsha : m.sha256 = sha256 content)
  (hwave : m.mediaType = 3 → validWave content = true)
include hsize hsha hwave

/-- The last chunk. -/
theorem succeeds_finishPart (hparsed : d.parsed = some m) (hpart : d.here.part = some content) :
    ∃ d', (finishPart sha256 m).Succeeds d (.upload content.length true) d' ∧
      Progress m content d' content.length := by
  have hjson := Disk.parsed_eq_some.mp hparsed
  generalize hmoved : d.setHere { d.here with part := none, bin := some content } = moved
  have hhere : moved.here = { d.here with part := none, bin := some content } :=
    hmoved ▸ Disk.setHere_here rfl
  refine ⟨{ moved with ready := some m.ready }, ?_, ?_⟩
  · have hdigest : (sha256Of sha256 .partSha Folder.part).Succeeds d (sha256 content) d := by
      have hlook : (sha256Of sha256 .partSha Folder.part).Succeeds d
          (((d.here.part).map sha256).getD "") d := Faulty.succeeds_tryLook
      rw [hpart] at hlook
      exact hlook
    unfold finishPart
    refine .bind hdigest ?_
    rw [if_neg (by simp [hsha])]
    refine .bind (succeeds_waveIn (m := m) hpart hwave) ?_
    rw [if_neg (by simp)]
    refine .bind (hmoved ▸ succeeds_renamePart hpart) ?_
    rw [← hsize]
    exact succeeds_publish m
  · refine Progress.setReady (d := moved) ⟨?_, le_rfl, ?_⟩ _
    · exact Disk.parsed_eq_some.mpr (by rw [hhere]; exact hjson)
    · rw [if_pos rfl, hhere]

/-- A chunk for the place where the part ends. -/
theorem succeeds_uploadChunk {member : ℤ → Bool}
    (hmember : 0 < m.threadId → member m.threadId = true) {n : ℕ} {bytes : Bytes}
    (h : Progress m content d n) (hn : n < content.length)
    (hbytes : bytes = (content.drop n).take chunkSize) :
    ∃ d', (uploadChunk sha256 m.uid member n bytes).Succeeds d
        (.upload (n + bytes.length) (n + bytes.length = content.length)) d' ∧
      Progress m content d' (n + bytes.length) := by
  obtain ⟨hparsed, -, h⟩ := h
  rw [if_neg hn.ne] at h
  obtain ⟨hbin, hpart⟩ := h
  have hjson := Disk.parsed_eq_some.mp hparsed
  have hlen : (d.here.part.getD []).length = n := by
    rw [hpart, List.length_take]
    omega
  have hpos : 0 < bytes.length ∧ bytes.length ≤ chunkSize ∧ n + bytes.length ≤ content.length := by
    rw [hbytes]
    simp only [List.length_take, List.length_drop, chunkSize]
    omega
  have hmore : d.here.part.getD [] ++ bytes = content.take (n + bytes.length) := by
    rw [hpart, hbytes, List.length_take, List.length_drop, List.take_add]
    congr 1
    rw [List.take_eq_take_iff, List.length_drop]
    omega
  generalize hopened : d.setHere { d.here with part := some (d.here.part.getD []) } = opened
  have hopen : openPart.Succeeds d true opened := hopened ▸ rfl
  have hohere : opened.here = { d.here with part := some (d.here.part.getD []) } :=
    hopened ▸ Disk.setHere_here rfl
  generalize hwritten : appendPart opened bytes = written
  have hwrite : (writePart bytes).Succeeds opened true written := hwritten ▸ rfl
  have hwhere : written.here = { d.here with part := some (content.take (n + bytes.length)) } := by
    have happended : (appendPart opened bytes).here =
        { opened.here with part := some (opened.here.part.getD [] ++ bytes) } :=
      Disk.setHere_here (d := opened) (f := { opened.here with part := some _ }) rfl
    rw [← hwritten, happended, hohere, ← hmore]
    rfl
  have hwparsed : written.parsed = some m := Disk.parsed_eq_some.mpr (by rw [hwhere]; exact hjson)
  have hexists : (fileExists .doneExists Folder.bin).Succeeds d (d.here.bin.isSome) d :=
    Faulty.succeeds_look
  rw [hbin] at hexists
  have hthread : ¬ (0 < m.threadId ∧ ¬ member m.threadId = true) := by
    rintro ⟨hpos, hnot⟩
    exact hnot (hmember hpos)
  have hstart : ∀ d' reply, (if n + bytes.length = m.size then finishPart sha256 m
      else pure (.upload (n + bytes.length) false)).Succeeds written reply d' →
      (uploadChunk sha256 m.uid member n bytes).Succeeds d reply d' := by
    intro d' reply hrest
    unfold uploadChunk
    refine .bind (succeeds_readMeta_some hparsed) ?_
    dsimp only
    rw [if_neg (by simp), if_neg hthread]
    refine .bind hexists ?_
    refine .bind succeeds_partOffset ?_
    rw [hlen, if_neg (by simp), if_neg ?_]
    · refine .bind hopen ?_
      rw [if_neg (by simp)]
      refine .bind hwrite ?_
      rw [if_neg (by simp)]
      exact hrest
    · rw [← List.length_eq_zero_iff]
      omega
  by_cases hlast : n + bytes.length = content.length
  · have hwpart : written.here.part = some content := by
      rw [hwhere, hlast, List.take_length]
    obtain ⟨d', hfinish, hprogress⟩ := succeeds_finishPart hsize hsha hwave hwparsed hwpart
    refine ⟨d', hstart d' _ ?_, hlast ▸ hprogress⟩
    rw [if_pos (hlast.trans hsize.symm)]
    simpa [hlast] using hfinish
  · refine ⟨written, hstart written _ ?_, hwparsed, hpos.2.2, ?_⟩
    · rw [if_neg (by rw [hsize]; exact hlast)]
      simp only [hlast, decide_false]
      exact Faulty.succeeds_pure
    · rw [if_neg hlast, hwhere]
      exact ⟨hbin, rfl⟩

/-- A part that is as long as the content becomes the file or goes, a shorter one stays. -/
theorem succeeds_settlePart (hne : content ≠ []) (hparsed : d.parsed = some m)
    (hbin : d.here.bin = none)
    (hpart : ∀ bytes, d.here.part = some bytes → bytes <+: content ∨
      content.length ≤ bytes.length ∧
        (bytes.length ≠ content.length ∨ sha256 bytes ≠ sha256 content)) :
    ∃ d' n, (settlePart sha256 m).Succeeds d (n = content.length) d' ∧
      Progress m content d' n ∧ Resumed content d.here n := by
  have hjson := Disk.parsed_eq_some.mp hparsed
  have hpos := List.length_pos_iff.mpr hne
  have hexists : (fileExists .partExists Folder.part).Succeeds d (d.here.part.isSome) d :=
    Faulty.succeeds_look
  have hsizeOf : (fileSize .partSize Folder.part).Succeeds d
      (((d.here.part).map List.length).getD 0) d := Faulty.succeeds_look
  unfold settlePart
  cases hp : d.here.part with
  | none =>
    rw [hp] at hexists
    refine ⟨d, 0, .bind hexists ?_, ⟨hparsed, Nat.zero_le _, ?_⟩, by simp [hbin], by simp [hp]⟩
    · simp only [hpos.ne, decide_false]
      exact Faulty.succeeds_pure
    · rw [if_neg hpos.ne, hp]
      exact ⟨hbin, rfl⟩
  | some bytes =>
    rw [hp] at hexists hsizeOf
    simp only [Option.map_some, Option.getD_some] at hsizeOf
    by_cases hlong : m.size ≤ bytes.length
    · by_cases hcomplete : bytes.length = m.size ∧ sha256 bytes = m.sha256
      · -- only the content itself has both its size and its digest
        have heq : bytes = content := by
          rcases hpart bytes hp with hprefix | ⟨-, hdiffers | hdiffers⟩
          · exact hprefix.eq_of_length (hcomplete.1.trans hsize)
          · exact absurd (hcomplete.1.trans hsize) hdiffers
          · exact absurd (hcomplete.2.trans hsha) hdiffers
        subst heq
        have hok := @succeeds_partComplete sha256 d m bytes hp
        rw [decide_eq_true ⟨hcomplete.1, hcomplete.2, hwave⟩] at hok
        generalize hmoved : d.setHere { d.here with part := none, bin := some bytes } = moved
        have hhere : moved.here = { d.here with part := none, bin := some bytes } :=
          hmoved ▸ Disk.setHere_here rfl
        refine ⟨moved, bytes.length, .bind hexists (.bind hsizeOf ?_), ?_, by simp, by simp [hp]⟩
        · rw [if_pos hlong, decide_eq_true rfl]
          exact .bind hok (.bind (hmoved ▸ succeeds_renamePart hp) Faulty.succeeds_pure)
        · refine ⟨Disk.parsed_eq_some.mpr (by rw [hhere]; exact hjson), le_rfl, ?_⟩
          rw [if_pos rfl, hhere]
      · have hok := @succeeds_partComplete sha256 d m bytes hp
        have hbad : ¬ (bytes.length = m.size ∧ sha256 bytes = m.sha256 ∧
            (m.mediaType = 3 → validWave bytes = true)) := fun h => hcomplete ⟨h.1, h.2.1⟩
        simp only [hbad, decide_false] at hok
        generalize hremoved : d.setHere { d.here with part := none } = removed
        have hremove : removePart.Succeeds d () removed := hremoved ▸ rfl
        have hhere : removed.here = { d.here with part := none } :=
          hremoved ▸ Disk.setHere_here rfl
        refine ⟨removed, 0, .bind hexists (.bind hsizeOf ?_), ?_, by simp [hbin],
          fun _ part hpart' hprefix => ?_⟩
        · rw [if_pos hlong]
          refine .bind hok (.bind hremove ?_)
          simp only [hpos.ne, decide_false]
          exact Faulty.succeeds_pure
        · refine ⟨Disk.parsed_eq_some.mpr (by rw [hhere]; exact hjson), Nat.zero_le _, ?_⟩
          rw [if_neg hpos.ne, hhere]
          exact ⟨hbin, rfl⟩
        · -- a prefix that is long enough would have been complete
          rw [hp, Option.some_inj] at hpart'
          subst hpart'
          have heq : bytes = content := hprefix.eq_of_length_le (hsize ▸ hlong)
          exact absurd ⟨heq ▸ hsize.symm, heq ▸ hsha.symm⟩ hcomplete
    · have hshort : bytes.length < content.length := by omega
      refine ⟨d, bytes.length, .bind hexists (.bind hsizeOf ?_), ⟨hparsed, hshort.le, ?_⟩,
        by simp [hbin], by simp [hp]⟩
      · rw [if_neg hlong]
        simp only [hshort.ne, decide_false]
        exact Faulty.succeeds_pure
      · rw [if_neg hshort.ne, hp]
        refine ⟨hbin, ?_⟩
        rcases hpart bytes hp with hprefix | ⟨hlen, -⟩
        · exact List.prefix_iff_eq_take.mp hprefix
        · omega

/-- The rest of `UploadInit`: the reply names the bytes that are there. -/
theorem succeeds_resumeUpload (hne : content ≠ []) (hparsed : d.parsed = some m)
    (husable : Usable sha256 content d.here) :
    ∃ d' n, (resumeUpload sha256 m).Succeeds d (.upload n (n = content.length)) d' ∧
      Progress m content d' n ∧ Resumed content d.here n := by
  have hexists : (fileExists .doneExists Folder.bin).Succeeds d (d.here.bin.isSome) d :=
    Faulty.succeeds_look
  -- what the file and the part come to
  have hsettle : ∃ d' n, (settle sha256 m).Succeeds d (n = content.length) d' ∧
      Progress m content d' n ∧ Resumed content d.here n := by
    unfold settle
    rcases husable with hbin | ⟨hbin, hpart⟩
    · rw [hbin] at hexists
      refine ⟨d, content.length, .bind hexists ?_, ⟨hparsed, le_rfl, ?_⟩, by simp, by simp [hbin]⟩
      · rw [decide_eq_true rfl]
        exact Faulty.succeeds_pure
      · rw [if_pos rfl, hbin]
    · rw [hbin] at hexists
      obtain ⟨d', n, hpartSettled, hprogress⟩ :=
        succeeds_settlePart hsize hsha hwave hne hparsed hbin hpart
      exact ⟨d', n, .bind hexists hpartSettled, hprogress⟩
  obtain ⟨d', n, hsettled, hprogress, hresumed⟩ := hsettle
  obtain ⟨-, hle, hfiles⟩ := id hprogress
  unfold resumeUpload
  by_cases hall : n = content.length
  · rw [if_pos hall] at hfiles
    refine ⟨{ d' with ready := some m.ready }, n, .bind hsettled ?_, hprogress.setReady _, hresumed⟩
    rw [decide_eq_true hall, if_pos rfl]
    refine .bind (succeeds_waveIn (m := m) hfiles hwave) ?_
    rw [if_neg (by simp), hall, ← hsize]
    exact succeeds_publish m
  · rw [if_neg hall] at hfiles
    have hlen : (d'.here.part.getD []).length = n := by
      rw [hfiles.2, List.length_take]
      omega
    refine ⟨d', n, .bind hsettled ?_, hprogress, hresumed⟩
    rw [decide_eq_false hall, if_neg (by simp)]
    have hoffset := succeeds_partOffset (d := d')
    rw [hlen] at hoffset
    exact .bind hoffset Faulty.succeeds_pure

end

/-- The folder that an upload finds, or makes. -/
def Disk.found (d : Disk) (m : Meta) : Folder :=
  if d.here.json.isSome then d.here else d.folder m.dir

/-- What an upload may start with: no metadata anywhere, or its own, and usable files beside it. -/
def Startable (sha256 : Bytes → String) (m : Meta) (content : Bytes) (d : Disk) : Prop :=
  ((∀ dir, (d.folder dir).json = none) ∨ d.parsed = some m) ∧ Usable sha256 content (d.found m)

theorem succeeds_uploadInit {r : InitRequest} {uid : ℤ} {member : ℤ → Bool}
    (hvalid : r.valid uid = true) (hmember : 0 < r.threadId → member r.threadId = true)
    (hsize : r.size = content.length) (hsha : r.sha256 = sha256 content)
    (hwave : r.mediaType = 3 → validWave content = true)
    (hstart : Startable sha256 (r.meta uid) content d) :
    ∃ d' n, (uploadInit sha256 uid member r).Succeeds d (.upload n (n = content.length)) d' ∧
      Progress (r.meta uid) content d' n ∧ Resumed content (d.found (r.meta uid)) n := by
  have hne : content ≠ [] := by
    intro hnil
    simp only [InitRequest.valid, decide_eq_true_eq] at hvalid
    have hpos := hvalid.2.2.2.1
    rw [hsize, hnil] at hpos
    exact hpos rfl
  have hthread : ¬ (0 < r.threadId ∧ ¬ member r.threadId = true) := by
    rintro ⟨hpos, hnot⟩
    exact hnot (hmember hpos)
  unfold uploadInit
  rw [if_neg (by simp [hvalid]), if_neg hthread]
  obtain ⟨hfresh | hparsed, husable⟩ := hstart
  · have hnone : d.here.json = none := hfresh _
    have hfound : d.found (r.meta uid) = d.folder (r.meta uid).dir := by simp [Disk.found, hnone]
    rw [hfound] at husable ⊢
    generalize hcut : d.setFolder (r.meta uid).dir
      { d.folder (r.meta uid).dir with json := some .cut } = cut
    generalize hfull : cut.setFolder (r.meta uid).dir
      { cut.folder (r.meta uid).dir with json := some (.whole (r.meta uid)) } = full
    have hfolder : full.folder (r.meta uid).dir =
        { d.folder (r.meta uid).dir with json := some (.whole (r.meta uid)) } := by
      rw [← hfull, Disk.setFolder_self, ← hcut, Disk.setFolder_self]
    have hcurrent : full.current = (r.meta uid).dir := by
      refine Disk.current_of_only (fun dir hdir => ?_) (by rw [hfolder]; rfl)
      rw [← hfull, Disk.setFolder_of_ne hdir, ← hcut, Disk.setFolder_of_ne hdir, hfresh]
    have hhere : full.here =
        { d.folder (r.meta uid).dir with json := some (.whole (r.meta uid)) } := by
      rw [Disk.here, hcurrent, hfolder]
    have hwrite : (writeMeta (r.meta uid)).Succeeds d () full := by
      have hcreate : (createMeta (r.meta uid).dir).Succeeds d () cut := hcut ▸ rfl
      have hfill : (fillMeta (r.meta uid).dir (r.meta uid)).Succeeds cut () full := hfull ▸ rfl
      exact hcreate.bind hfill
    have husable' : Usable sha256 content full.here := by
      rw [hhere]
      exact husable
    obtain ⟨d', n, hresume, hprogress, hresumed⟩ := succeeds_resumeUpload (d := full) hsize hsha
      hwave hne (Disk.parsed_eq_some.mpr (by rw [hhere])) husable'
    rw [hhere] at hresumed
    exact ⟨d', n, .bind (succeeds_readMeta_none hnone) (.bind hwrite hresume), hprogress, hresumed⟩
  · have hfound : d.found (r.meta uid) = d.here := by
      simp [Disk.found, Disk.parsed_eq_some.mp hparsed]
    rw [hfound] at husable ⊢
    obtain ⟨d', n, hresume, hprogress, hresumed⟩ :=
      succeeds_resumeUpload hsize hsha hwave hne hparsed husable
    refine ⟨d', n, .bind (succeeds_readMeta_some hparsed) ?_, hprogress, hresumed⟩
    dsimp only
    rw [if_neg (by simp)]
    exact hresume

/-- A download of a finished file takes the bytes from its offset on. -/
theorem succeeds_download {uid : ℤ} {member : ℤ → Bool} {offset : ℕ}
    (hsize : m.size = content.length)
    (haccess : if 0 < m.threadId then member m.threadId = true else m.uid = uid ∨ m.recipient = uid)
    (h : Progress m content d content.length) (hoffset : offset ≤ content.length) :
    (download uid member offset).Succeeds d (.download
      (offset + ((content.drop offset).take chunkSize).length) content.length m.sha256
      ((content.drop offset).take chunkSize)
      (offset + ((content.drop offset).take chunkSize).length = content.length)) d := by
  obtain ⟨hparsed, -, hbin⟩ := h
  rw [if_pos rfl] at hbin
  have hexists : (fileExists .doneExists Folder.bin).Succeeds d (d.here.bin.isSome) d :=
    Faulty.succeeds_look
  have hopen : openDone.Succeeds d (d.here.bin.isSome) d := Faulty.succeeds_tryLook
  have hread : (readDone offset (min chunkSize (m.size - offset))).Succeeds d
      (((d.here.bin.getD []).drop offset).take (min chunkSize (m.size - offset))) d := rfl
  rw [hbin] at hexists hopen hread
  have htake : (content.drop offset).take (min chunkSize (m.size - offset)) =
      (content.drop offset).take chunkSize := by
    rw [List.take_eq_take_iff, List.length_drop]
    omega
  rw [Option.getD_some, htake] at hread
  unfold download
  refine .bind (succeeds_readMeta_some hparsed) ?_
  dsimp only
  have hallowed : ¬ (if 0 < m.threadId then ¬ member m.threadId = true
      else m.uid ≠ uid ∧ m.recipient ≠ uid) := by
    split at haccess
    next hgroup => simp [hgroup, haccess]
    next hprivate =>
      rw [if_neg hprivate, not_and_or, not_not, not_not]
      exact haccess
  rw [if_neg hallowed]
  refine .bind hexists ?_
  rw [if_neg (by simp), if_neg (by omega)]
  refine .bind hopen ?_
  rw [if_neg (by simp), ← hsize]
  exact .bind hread Faulty.succeeds_pure

end CppChat.Resources
