import CppChat.Resources.Invariant

/-! # What the requests keep

Every request keeps the invariant and the finished file, however it ends, and reports a
complete upload for a finished file only.
-/
namespace CppChat.Resources
open Foundation Faults

/-- The disk after a request that found the disk `start`. -/
structure Good (sha256 : Bytes → String) (chunks : List Chunk) (start d : Disk) : Prop where
  sound : Sound sha256 chunks d
  kept : Kept start d

/-- A reply that calls the upload complete. -/
def Reported (sha256 : Bytes → String) (reply : Reply) (d : Disk) : Prop :=
  ∀ offset, reply = .upload offset true →
    ∃ m bytes, d.parsed = some m ∧ d.here.bin = some bytes ∧ Complete sha256 m bytes ∧
      offset = m.size

variable {sha256 : Bytes → String} {chunks : List Chunk} {start d : Disk} {m : Meta}
  {plan : Site → Fate} {Q : Reply → Disk → Prop} {uid : ℤ} {member : ℤ → Bool}

theorem Reported.error {message : String} {offset : Option ℕ} :
    Reported sha256 (.error message offset) d := nofun

theorem Reported.unfinished {offset : ℕ} : Reported sha256 (.upload offset false) d := nofun

theorem Good.reported (h : Good sha256 chunks start d) (hm : d.parsed = some m)
    (hbin : d.here.bin ≠ none) : Reported sha256 (.upload m.size true) d := by
  rintro _ ⟨⟩
  obtain ⟨bytes, hb⟩ := Option.ne_none_iff_exists'.mp hbin
  exact ⟨m, bytes, hm, hb, h.sound.bin m bytes hm hb, rfl⟩

/-! ## Parts of the requests -/

theorem wp_publish (h : Good sha256 chunks start d) (hm : d.parsed = some m)
    (hbin : d.here.bin ≠ none) :
    (publish m).wp plan (fun reply d' => Good sha256 chunks start d' ∧ Reported sha256 reply d')
      (fun _ d' => Good sha256 chunks start d') d := by
  have hset : Good sha256 chunks start { d with ready := some m.ready } :=
    ⟨h.sound.setReady hm hbin, h.kept.trans ⟨fun _ h => h, fun _ _ _ h => h⟩⟩
  rw [publish, Faulty.wp_bind, markReady, Faulty.wp_op]
  match plan .markReady with
  | .done => exact ⟨hset, hset.reported hm hbin⟩
  | .fails 0 => exact ⟨h, .error⟩
  | .fails (_ + 1) => exact ⟨hset, .error⟩
  | .crashes 0 => exact h
  | .crashes (_ + 1) => exact hset

theorem wp_removePart (h : Good sha256 chunks start d) (hm : d.parsed = some m)
    {Q : Unit → Disk → Prop}
    (hQ : ∀ d', Good sha256 chunks start d' → d'.parsed = some m → Q () d') :
    removePart.wp plan Q (fun _ d' => Good sha256 chunks start d') d := by
  have hjson : ({ d.here with part := none } : Folder).json = d.here.json := rfl
  refine Faulty.wp_act (hQ _ ⟨?_, ?_⟩ ((Disk.setHere_parsed hjson).trans hm)) fun _ => h
  · exact h.sound.setHere hm hjson (fun bytes hb => h.sound.bin m bytes hm hb) nofun id
  · exact h.kept.trans (Kept.setHere hjson fun _ hb => hb)

/-- A part that has passed the checks becomes the file. -/
theorem wp_renamePart {bytes : Bytes} (h : Good sha256 chunks start d) (hm : d.parsed = some m)
    (hpart : d.here.part = some bytes) (hbin : d.here.bin = none)
    (hcomplete : Complete sha256 m bytes) {Q : Unit → Disk → Prop}
    (hQ : ∀ d', Good sha256 chunks start d' → d'.parsed = some m → d'.here.bin ≠ none → Q () d') :
    renamePart.wp plan Q (fun _ d' => Good sha256 chunks start d') d := by
  have hjson : ({ d.here with part := none, bin := some bytes } : Folder).json = d.here.json :=
    rfl
  refine Faulty.wp_act ?_ fun _ => h
  simp only [hpart]
  refine hQ _ ⟨?_, ?_⟩ ((Disk.setHere_parsed hjson).trans hm) ?_
  · refine h.sound.setHere hm hjson ?_ nofun fun _ => nofun
    rintro _ ⟨⟩
    exact hcomplete
  · refine h.kept.trans (Kept.setHere hjson fun _ hb => ?_)
    rw [hbin] at hb
    cases hb
  · rw [Disk.setHere_here hjson]
    nofun

theorem wp_partComplete {bytes : Bytes} (hdigest : m.sha256 ≠ "")
    (hpart : d.here.part = some bytes) {Q : Bool → Disk → Prop} {E : Stop → Disk → Prop}
    (hQ : ∀ complete, (complete = true → Complete sha256 m bytes) → Q complete d)
    (hE : ∀ e, E e d) : (partComplete sha256 m).wp plan Q E d := by
  have hfalse : Q false d := hQ false nofun
  rw [partComplete, Faulty.wp_bind]
  refine Faulty.wp_look ?_ hE
  rw [hpart, Option.map_some, Option.getD_some, Faulty.wp_ite]
  split
  · exact hfalse
  next hsize =>
    rw [Faulty.wp_bind]
    refine Faulty.wp_tryLook ?_ ?_ hE
    · rw [hpart, Option.map_some, Option.getD_some, Faulty.wp_ite, Faulty.wp_ite]
      split
      · exact hfalse
      next hsha =>
        have hcomplete : ∀ wave, (m.mediaType = 3 → validWave bytes = wave) → wave = true →
            Complete sha256 m bytes := fun wave hwave htrue =>
          ⟨not_not.mp hsize, not_not.mp hsha, fun htype => (hwave htype).trans htrue⟩
        split
        next htype => exact hQ true (hcomplete true fun h => absurd h htype)
        next =>
          refine Faulty.wp_tryLook (hQ _ (hcomplete _ fun _ => ?_)) hfalse hE
          rw [hpart, Option.map_some, Option.getD_some]
    · rw [if_pos (Ne.symm hdigest)]
      exact hfalse

theorem wp_settlePart (h : Good sha256 chunks start d) (hm : d.parsed = some m)
    (hbin : d.here.bin = none) {Q : Bool → Disk → Prop}
    (hQ : ∀ complete d', Good sha256 chunks start d' → d'.parsed = some m →
      (complete = true → d'.here.bin ≠ none) → Q complete d') :
    (settlePart sha256 m).wp plan Q (fun _ d' => Good sha256 chunks start d') d := by
  have hfalse : Q false d := hQ false d h hm nofun
  rw [settlePart, Faulty.wp_bind]
  refine Faulty.wp_look ?_ fun _ => h
  rw [Faulty.wp_ite]
  split
  next hexists =>
    obtain ⟨bytes, hpart⟩ := Option.isSome_iff_exists.mp hexists
    rw [Faulty.wp_bind]
    refine Faulty.wp_look ?_ fun _ => h
    rw [Faulty.wp_ite]
    split
    next =>
      rw [Faulty.wp_bind]
      refine wp_partComplete (h.sound.digest m hm) hpart (fun complete hcomplete => ?_) fun _ => h
      rw [Faulty.wp_ite]
      split
      next htrue =>
        rw [Faulty.wp_bind]
        exact wp_renamePart h hm hpart hbin (hcomplete htrue) fun d' h' hm' hbin' =>
          hQ true d' h' hm' fun _ => hbin'
      next =>
        rw [Faulty.wp_bind]
        exact wp_removePart h hm fun d' h' hm' => hQ false d' h' hm' nofun
    next => exact hfalse
  next => exact hfalse

theorem wp_partOffset {Q : ℕ → Disk → Prop} {E : Stop → Disk → Prop}
    (hQ : Q (d.here.part.getD []).length d) (hE : ∀ e, E e d) : partOffset.wp plan Q E d := by
  rw [partOffset, Faulty.wp_bind]
  refine Faulty.wp_look ?_ hE
  rw [Faulty.wp_ite]
  split
  next hexists =>
    obtain ⟨bytes, hpart⟩ := Option.isSome_iff_exists.mp hexists
    refine Faulty.wp_look ?_ hE
    rwa [hpart, Option.map_some, Option.getD_some, ← Option.getD_some (a := bytes), ← hpart]
  next hexists =>
    have hpart : d.here.part = none := by simpa using hexists
    rw [hpart] at hQ
    exact hQ

theorem wp_settle (h : Good sha256 chunks start d) (hm : d.parsed = some m)
    {Q : Bool → Disk → Prop}
    (hQ : ∀ complete d', Good sha256 chunks start d' → d'.parsed = some m →
      (complete = true → d'.here.bin ≠ none) → Q complete d') :
    (settle sha256 m).wp plan Q (fun _ d' => Good sha256 chunks start d') d := by
  rw [settle, Faulty.wp_bind]
  refine Faulty.wp_look ?_ fun _ => h
  rw [Faulty.wp_ite]
  split
  next hfound =>
    refine hQ true d h hm fun _ hbin => ?_
    rw [hbin] at hfound
    cases hfound
  next hfound => exact wp_settlePart h hm (by simpa using hfound) hQ

/-- Nothing stands beside metadata that cannot be read. -/
theorem wp_settle_none (h : Good sha256 chunks start d) (hnone : d.parsed = none)
    {Q : Bool → Disk → Prop} (hQ : Q false d) :
    (settle sha256 m).wp plan Q (fun _ d' => Good sha256 chunks start d') d := by
  obtain ⟨hpart, hbin⟩ := h.sound.nothing hnone d.current
  rw [settle, Faulty.wp_bind]
  refine Faulty.wp_look ?_ fun _ => h
  rw [Faulty.wp_ite, if_neg (by simp [Disk.here, hbin]), settlePart, Faulty.wp_bind]
  refine Faulty.wp_look ?_ fun _ => h
  rwa [Faulty.wp_ite, if_neg (by simp [Disk.here, hpart])]

theorem wp_waveIn {i : Site} {get : Folder → Option Bytes} {Q : Bool → Disk → Prop}
    {E : Stop → Disk → Prop} {bytes : Bytes} (hget : get d.here = some bytes)
    (hQ : ∀ wave, (wave = true → m.mediaType = 3 → validWave bytes = true) → Q wave d)
    (hE : ∀ e, E e d) : (waveIn i get m).wp plan Q E d := by
  rw [waveIn, Faulty.wp_ite]
  split
  next =>
    refine Faulty.wp_tryLook (hQ _ fun hwave _ => ?_) (hQ _ nofun) hE
    rwa [hget] at hwave
  next htype => exact hQ _ fun _ h => absurd h htype

/-! ## The requests -/

/-- With the metadata that was read, or with new metadata, that can be read or not. -/
theorem wp_resumeUpload (h : Good sha256 chunks start d)
    (hm : d.parsed = some m ∨ d.parsed = none) :
    (resumeUpload sha256 m).wp plan
      (fun reply d' => Good sha256 chunks start d' ∧ Reported sha256 reply d')
      (fun _ d' => Good sha256 chunks start d') d := by
  rw [resumeUpload, Faulty.wp_bind]
  rcases hm with hm | hnone
  · refine wp_settle h hm fun complete d' h' hm' hcomplete => ?_
    rw [Faulty.wp_ite]
    split
    next htrue =>
      obtain ⟨bytes, hbytes⟩ := Option.ne_none_iff_exists'.mp (hcomplete htrue)
      rw [Faulty.wp_bind]
      refine wp_waveIn hbytes (fun wave _ => ?_) fun _ => h'
      rw [Faulty.wp_ite]
      split
      · exact ⟨h', .error⟩
      · exact wp_publish h' hm' (hcomplete htrue)
    next =>
      rw [Faulty.wp_bind]
      exact wp_partOffset ⟨h', .unfinished⟩ fun _ => h'
  · refine wp_settle_none h hnone ?_
    rw [Faulty.wp_ite, if_neg nofun, Faulty.wp_bind]
    exact wp_partOffset ⟨h, .unfinished⟩ fun _ => h

/-- Metadata is written where none could be read. -/
theorem wp_writeMeta (h : Good sha256 chunks start d) (hstart : start.parsed = none)
    (hnone : d.parsed = none) (hdigest : m.sha256 ≠ "") {Q : Unit → Disk → Prop}
    (hQ : ∀ d', Good sha256 chunks start d' → d'.parsed = some m ∨ d'.parsed = none → Q () d') :
    (writeMeta m).wp plan Q (fun _ d' => Good sha256 chunks start d') d := by
  have hkept : ∀ d', Kept start d' := fun d' => .of_none hstart
  rw [writeMeta, Faulty.wp_bind]
  refine Faulty.wp_act ?_ fun _ => h
  generalize hcut : d.setFolder m.dir { d.folder m.dir with json := some .cut } = cut
  have hsound : Sound sha256 chunks cut := hcut ▸ h.sound.setFolder hnone nofun
  have hcutnone : cut.parsed = none := by
    rcases Disk.parsed_setFolder .cut hnone with hparsed | ⟨_, ⟨⟩, -⟩
    exact hcut ▸ hparsed
  have hgood : Good sha256 chunks start cut := ⟨hsound, hkept _⟩
  rw [fillMeta, Faulty.wp_op]
  match plan .fillMeta with
  | .done =>
    refine hQ _ ⟨hsound.setFolder hcutnone ?_, hkept _⟩ ?_
    · rintro _ ⟨⟩
      exact hdigest
    · rcases Disk.parsed_setFolder (.whole m) hcutnone with hparsed | ⟨_, ⟨⟩, hparsed⟩
      · exact .inr hparsed
      · exact .inl hparsed
  | .fails 0 => exact hgood
  | .fails (_ + 1) => exact hQ _ hgood (.inr hcutnone)
  | .crashes _ => exact hgood

theorem wp_readMeta {Q : Option Meta → Disk → Prop} {E : Stop → Disk → Prop}
    (hsome : ∀ m, d.parsed = some m → Q (some m) d)
    (hnone : (d.parsed ≠ none → plan .openMeta = .fails 0) → Q none d) (hE : ∀ e, E e d) :
    readMeta.wp plan Q E d := by
  rw [readMeta, Faulty.wp_bind]
  refine Faulty.wp_look ?_ hE
  rw [Faulty.wp_bind, openMeta, Faulty.tryLook, Faulty.wp_op]
  rcases hopen : plan .openMeta with _ | (_ | _) | _
  · dsimp only
    rw [Faulty.wp_ite]
    split
    next hexists =>
      rw [parseMeta, Faulty.wp_op]
      rcases plan .parseMeta with _ | _ | _
      · rcases hjson : d.here.json with _ | (_ | m)
        · rw [hjson] at hexists
          cases hexists
        · simp only [hjson]
          exact hE _
        · simp only [hjson]
          exact hsome m (Disk.parsed_eq_some.mpr hjson)
      · exact hE _
      · exact hE _
    next hexists =>
      have hjson : d.here.json = none := by simpa using hexists
      refine hnone fun hparsed => absurd ?_ hparsed
      rw [Disk.parsed, hjson]
  · exact hnone fun _ => hopen
  · exact hE _
  · exact hE _

theorem InitRequest.valid_digest {r : InitRequest} (h : r.valid uid) : r.sha256.length = 64 := by
  simp only [valid, decide_eq_true_eq] at h
  obtain ⟨-, -, -, -, -, -, hlength, -⟩ := h
  exact hlength

/-- A request that would write metadata does not miss the metadata that is there. -/
theorem wp_uploadInit {r : InitRequest} (h : Good sha256 chunks d d)
    (hreadable : r.valid uid → (0 < r.threadId → member r.threadId) → d.parsed ≠ none →
      plan .openMeta ≠ .fails 0) :
    (uploadInit sha256 uid member r).wp plan
      (fun reply d' => Good sha256 chunks d d' ∧ Reported sha256 reply d')
      (fun _ d' => Good sha256 chunks d d') d := by
  rw [uploadInit, Faulty.wp_ite]
  split
  · exact ⟨h, .error⟩
  next hvalid =>
    have hvalid : r.valid uid := not_not.mp hvalid
    rw [Faulty.wp_ite]
    split
    · exact ⟨h, .error⟩
    next hmember =>
      have hmember : 0 < r.threadId → member r.threadId := fun hthread =>
        not_not.mp fun hnot => hmember ⟨hthread, hnot⟩
      rw [Faulty.wp_bind]
      refine wp_readMeta (fun m hm => ?_) (fun hnone => ?_) fun _ => h
      · rw [Faulty.wp_ite]
        split
        · exact ⟨h, .error⟩
        · exact wp_resumeUpload h (.inl hm)
      · have hnone : d.parsed = none := by
          by_contra hparsed
          exact hreadable hvalid hmember hparsed (hnone hparsed)
        have hdigest : (r.meta uid).sha256 ≠ "" := by
          intro hempty
          have hlength := InitRequest.valid_digest hvalid
          rw [show r.sha256 = "" from hempty] at hlength
          cases hlength
        rw [Faulty.wp_bind]
        exact wp_writeMeta h hnone hnone hdigest fun d' h' hm' => wp_resumeUpload h' hm'

/-- The part has its full length. -/
theorem wp_finishPart {bytes : Bytes} (h : Good sha256 chunks start d) (hm : d.parsed = some m)
    (hpart : d.here.part = some bytes) (hbin : d.here.bin = none) (hsize : bytes.length = m.size) :
    (finishPart sha256 m).wp plan
      (fun reply d' => Good sha256 chunks start d' ∧ Reported sha256 reply d')
      (fun _ d' => Good sha256 chunks start d') d := by
  have hremove : ∀ message, (do
      removePart
      pure (.error message none) : Io Reply).wp plan
      (fun reply d' => Good sha256 chunks start d' ∧ Reported sha256 reply d')
      (fun _ d' => Good sha256 chunks start d') d := by
    intro message
    rw [Faulty.wp_bind]
    exact wp_removePart h hm fun d' h' _ => ⟨h', .error⟩
  rw [finishPart, Faulty.wp_bind]
  refine Faulty.wp_tryLook ?_ ?_ fun _ => h
  · rw [hpart, Option.map_some, Option.getD_some, Faulty.wp_ite]
    split
    · exact hremove _
    next hsha =>
      rw [Faulty.wp_bind]
      refine wp_waveIn hpart (fun wave hwave => ?_) fun _ => h
      rw [Faulty.wp_ite]
      split
      · exact hremove _
      next htrue =>
        have hcomplete : Complete sha256 m bytes :=
          ⟨hsize, not_not.mp hsha, hwave (not_not.mp htrue)⟩
        rw [Faulty.wp_bind]
        exact wp_renamePart h hm hpart hbin hcomplete fun d' h' hm' hbin' =>
          wp_publish h' hm' hbin'
  · rw [if_pos (Ne.symm (h.sound.digest m hm))]
    exact hremove _

/-- The first bytes of a chunk for the end of the part. -/
theorem Good.append {bytes more : Bytes} {c : Chunk} {n : ℕ} (h : Good sha256 chunks start d)
    (hm : d.parsed = some m) (hpart : d.here.part = some bytes) (hbin : d.here.bin = none)
    (hc : c ∈ chunks) (hcu : c.uid = m.uid) (hco : c.offset = bytes.length)
    (hcb : more = c.bytes.take n) (hsize : bytes.length + c.bytes.length ≤ m.size) :
    Good sha256 chunks start (appendPart d more) := by
  have hjson : ({ d.here with part := some (d.here.part.getD [] ++ more) } : Folder).json =
    d.here.json := rfl
  refine ⟨h.sound.setHere hm hjson (fun _ hb => ?_) ?_ id,
    h.kept.trans (Kept.setHere hjson fun _ hb => hb)⟩
  · rw [hbin] at hb
    cases hb
  · rintro _ ⟨⟩
    rw [hpart, Option.getD_some]
    refine ⟨?_, (h.sound.part m bytes hm hpart).2.append hc hcu hco
      (hcb ▸ (List.take_append_drop n c.bytes).symm)⟩
    rw [List.length_append, hcb, List.length_take]
    omega

theorem wp_uploadChunk {requested : ℕ} {bytes : Bytes} (h : Good sha256 chunks d d)
    (hc : ⟨uid, requested, bytes⟩ ∈ chunks) :
    (uploadChunk sha256 uid member requested bytes).wp plan
      (fun reply d' => Good sha256 chunks d d' ∧ Reported sha256 reply d')
      (fun _ d' => Good sha256 chunks d d') d := by
  rw [uploadChunk, Faulty.wp_bind]
  refine wp_readMeta (fun m hm => ?_) (fun _ => ⟨h, .error⟩) fun _ => h
  rw [Faulty.wp_ite]
  split
  · exact ⟨h, .error⟩
  next hu =>
  have hu : m.uid = uid := not_not.mp hu
  rw [Faulty.wp_ite]
  split
  · exact ⟨h, .error⟩
  rw [Faulty.wp_bind]
  refine Faulty.wp_look ?_ fun _ => h
  rw [Faulty.wp_ite]
  split
  next hbin => exact wp_publish h hm (Option.isSome_iff_ne_none.mp hbin)
  next hbin =>
  have hbin : d.here.bin = none := by simpa using hbin
  rw [Faulty.wp_bind]
  refine wp_partOffset ?_ fun _ => h
  rw [Faulty.wp_ite]
  split
  · exact ⟨h, .error⟩
  next hrequested =>
  have hrequested : requested = (d.here.part.getD []).length := not_not.mp hrequested
  rw [Faulty.wp_ite]
  split
  · exact ⟨h, .error⟩
  next hchunk =>
  rw [not_or, not_or, Nat.not_lt, Nat.not_lt] at hchunk
  obtain ⟨-, -, hsize⟩ := hchunk
  -- The part is there now, with the bytes that it had.
  let opened := d.setHere { d.here with part := some (d.here.part.getD []) }
  have hjson : ({ d.here with part := some (d.here.part.getD []) } : Folder).json = d.here.json :=
    rfl
  have hopened : Good sha256 chunks d opened := by
    refine ⟨h.sound.setHere hm hjson (fun b hb => h.sound.bin m b hm hb) ?_ id,
      Kept.setHere hjson fun _ hb => hb⟩
    rintro _ ⟨⟩
    match hpart : d.here.part with
    | some old => exact h.sound.part m old hm hpart
    | none => exact ⟨Nat.zero_le _, .nil⟩
  have hhere : opened.here = { d.here with part := some (d.here.part.getD []) } :=
    Disk.setHere_here hjson
  have hpart : opened.here.part = some (d.here.part.getD []) := by rw [hhere]
  have hbin' : opened.here.bin = none := by rw [hhere, hbin]
  have hm' : opened.parsed = some m := (Disk.setHere_parsed hjson).trans hm
  have happend : ∀ n more, more = bytes.take n →
      Good sha256 chunks d (appendPart opened more) := fun n more hmore =>
    hopened.append hm' hpart hbin' hc hu.symm hrequested hmore hsize
  rw [Faulty.wp_bind, openPart, Faulty.wp_op]
  match plan .openPart with
  | .fails 0 => exact ⟨h, .error⟩
  | .fails (_ + 1) => exact h
  | .crashes _ => exact h
  | .done =>
  simp only [not_true, if_false]
  rw [Faulty.wp_bind, writePart, Faulty.wp_op]
  match plan .writePart with
  | .fails n => exact ⟨happend n _ rfl, .error⟩
  | .crashes n => exact happend n _ rfl
  | .done =>
  have hwritten := happend bytes.length bytes (List.take_length).symm
  simp only [not_true, if_false]
  rw [Faulty.wp_ite]
  split
  next hend =>
    have hjson' : ({ opened.here with part := some (opened.here.part.getD [] ++ bytes) } :
      Folder).json = opened.here.json := rfl
    have hhere' := Disk.setHere_here hjson'
    refine wp_finishPart hwritten ((Disk.setHere_parsed hjson').trans hm')
      (congrArg Folder.part hhere') ((congrArg Folder.bin hhere').trans hbin') ?_
    rw [hpart, Option.getD_some, List.length_append, hend]
  next => exact ⟨hwritten, .unfinished⟩

/-- A chunk for another place than the end of the part changes no file, and nothing at all
while the upload goes on. -/
theorem wp_uploadChunk_elsewhere {requested : ℕ} {bytes : Bytes}
    (hrequested : requested ≠ (d.here.part.getD []).length) :
    (uploadChunk sha256 uid member requested bytes).wp plan
      (fun _ d' => d'.folder = d.folder ∧ (d.here.bin = none → d' = d))
      (fun _ d' => d'.folder = d.folder ∧ (d.here.bin = none → d' = d)) d := by
  have hsame : d.folder = d.folder ∧ (d.here.bin = none → d = d) := ⟨rfl, fun _ => rfl⟩
  rw [uploadChunk, Faulty.wp_bind]
  refine wp_readMeta (fun m hm => ?_) (fun _ => hsame) fun _ => hsame
  rw [Faulty.wp_ite]
  split
  · exact hsame
  rw [Faulty.wp_ite]
  split
  · exact hsame
  rw [Faulty.wp_bind]
  refine Faulty.wp_look ?_ fun _ => hsame
  rw [Faulty.wp_ite]
  split
  next hbin =>
    have hset : ∀ ready : Option String,
        ({ d with ready := ready } : Disk).folder = d.folder ∧
          (d.here.bin = none → ({ d with ready := ready } : Disk) = d) := by
      refine fun _ => ⟨rfl, fun hnone => ?_⟩
      rw [hnone] at hbin
      cases hbin
    rw [publish, Faulty.wp_bind, markReady, Faulty.wp_op]
    match plan .markReady with
    | .done => exact hset _
    | .fails 0 => exact hsame
    | .fails (_ + 1) => exact hset _
    | .crashes 0 => exact hsame
    | .crashes (_ + 1) => exact hset _
  next =>
    rw [Faulty.wp_bind]
    refine wp_partOffset ?_ fun _ => hsame
    rw [Faulty.wp_ite, if_pos hrequested]
    exact hsame

/-- Who may see a file. -/
def Meta.Readable (m : Meta) (uid : ℤ) (member : ℤ → Bool) : Prop :=
  if 0 < m.threadId then member m.threadId = true else uid = m.uid ∨ uid = m.recipient

/-- A download changes nothing, and has bytes of the file from its offset on. -/
theorem wp_download (d : Disk) (plan : Site → Fate) (uid : ℤ) (member : ℤ → Bool) (offset : ℕ) :
    (download uid member offset).wp plan
      (fun reply d' => d' = d ∧ (∀ offset' complete, reply ≠ .upload offset' complete) ∧
        ∀ offset' size sha data complete, reply = .download offset' size sha data complete →
          ∃ m bytes, d.parsed = some m ∧ d.here.bin = some bytes ∧ m.Readable uid member ∧
            offset ≤ m.size ∧ size = m.size ∧ sha = m.sha256 ∧ offset' = offset + data.length ∧
            data <+: bytes.drop offset ∧ (complete = true ↔ offset' = m.size))
      (fun _ d' => d' = d) d := by
  rw [download, Faulty.wp_bind]
  refine wp_readMeta (fun m hm => ?_) (fun _ => ⟨rfl, nofun, nofun⟩) fun _ => rfl
  rw [Faulty.wp_ite]
  by_cases haccess : if 0 < m.threadId then ¬ member m.threadId
    else m.uid ≠ uid ∧ m.recipient ≠ uid
  · rw [if_pos haccess]
    exact ⟨rfl, nofun, nofun⟩
  rw [if_neg haccess]
  have hreadable : m.Readable uid member := by
    unfold Meta.Readable
    split
    next hthread =>
      rw [if_pos hthread] at haccess
      exact not_not.mp haccess
    next hthread =>
      rw [if_neg hthread, not_and_or, not_not, not_not] at haccess
      exact haccess.imp Eq.symm Eq.symm
  rw [Faulty.wp_bind]
  refine Faulty.wp_look ?_ fun _ => rfl
  rw [Faulty.wp_ite]
  split
  · exact ⟨rfl, nofun, nofun⟩
  next hbin =>
  obtain ⟨bytes, hbytes⟩ := Option.isSome_iff_exists.mp (not_not.mp hbin)
  rw [Faulty.wp_ite]
  split
  · exact ⟨rfl, nofun, nofun⟩
  next hoffset =>
  have hoffset : offset ≤ m.size := Nat.le_of_not_lt hoffset
  rw [Faulty.wp_bind, openDone]
  refine Faulty.wp_tryLook ?_ ⟨rfl, nofun, nofun⟩ fun _ => rfl
  rw [if_neg hbin, Faulty.wp_bind, readDone, Faulty.wp_op]
  have hreply : ∀ data, data <+: bytes.drop offset → d = d ∧
      (∀ offset' complete, Reply.download (offset + data.length) m.size m.sha256 data
        (offset + data.length = m.size) ≠ .upload offset' complete) ∧
      ∀ offset' size sha data' complete,
        Reply.download (offset + data.length) m.size m.sha256 data
          (offset + data.length = m.size) = .download offset' size sha data' complete →
        ∃ m bytes, d.parsed = some m ∧ d.here.bin = some bytes ∧ m.Readable uid member ∧
          offset ≤ m.size ∧ size = m.size ∧ sha = m.sha256 ∧ offset' = offset + data'.length ∧
          data' <+: bytes.drop offset ∧ (complete = true ↔ offset' = m.size) := by
    refine fun data hdata => ⟨rfl, nofun, ?_⟩
    rintro _ _ _ _ _ ⟨⟩
    exact ⟨m, bytes, hm, hbytes, hreadable, hoffset, rfl, rfl, rfl, hdata, by simp⟩
  have hbegins : ∀ n, ((d.here.bin.getD []).drop offset).take n <+: bytes.drop offset := by
    rw [hbytes]
    exact fun _ => List.take_prefix _ _
  match plan .readDone with
  | .done => exact hreply _ (hbegins _)
  | .fails _ => exact hreply _ ((List.take_prefix _ _).trans (hbegins _))
  | .crashes _ => rfl

end CppChat.Resources
