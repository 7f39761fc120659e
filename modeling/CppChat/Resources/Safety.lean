import CppChat.Resources.Requests

/-! # The store is safe

In every run in which no upload misses readable metadata, whatever fails and wherever the
process is lost, the files are sound, and downloads give the bytes of the finished file.
-/
namespace CppChat.Resources
open Foundation Faults

/-! ## Steps -/

/-- An upload that passes its checks does not miss metadata that can be read. -/
def MetaReadable (s : State) (a : Action) : Prop :=
  match a.request with
  | .init r => r.valid a.uid → (0 < r.threadId → a.member r.threadId) → s.disk.parsed ≠ none →
      a.plan .openMeta ≠ .fails 0
  | _ => True

instance (s : State) (a : Action) : Decidable (MetaReadable s a) := by
  unfold MetaReadable
  split <;> infer_instance

def readableStore (sha256 : Bytes → String) : Machine State Action :=
  (store sha256).restrict MetaReadable

variable {sha256 : Bytes → String} {s t u : State} {a : Action}

theorem step_of_wp {Q : Reply → Disk → Prop} {E : Stop → Disk → Prop}
    (h : (perform sha256 a).wp a.plan Q E s.disk) (hstep : (store sha256).step s a t) :
    (∀ reply, s.reply sha256 a = some reply → Q reply t.disk) ∧
      (s.reply sha256 a = none → ∃ e, E e t.disk) := by
  cases hstep
  unfold Faulty.wp at h
  simp only [State.reply]
  split at h
  next reply d hrun =>
    rw [hrun]
    refine ⟨?_, nofun⟩
    rintro _ ⟨⟩
    exact h
  next e d hrun =>
    rw [hrun]
    exact ⟨nofun, fun _ => ⟨e, h⟩⟩

theorem wp_perform {Q : Reply → Disk → Prop} {E : Stop → Disk → Prop} {d : Disk}
    (h : (handle sha256 a).wp a.plan Q E d) (hE : ∀ e reply d', Q reply d' → E e d') :
    (perform sha256 a).wp a.plan Q E d := by
  rw [perform, Faulty.wp_bind]
  exact Faulty.wp_mono h (fun reply d' hQ => Faulty.wp_look hQ fun e => hE e reply d' hQ)
    fun _ _ h => h

theorem step_good (hs : Sound sha256 s.chunks s.disk) (hok : MetaReadable s a)
    (hstep : (store sha256).step s a t) :
    Good sha256 t.chunks s.disk t.disk ∧
      ∀ reply, s.reply sha256 a = some reply → Reported sha256 reply t.disk := by
  have hchunks : ∀ c ∈ s.chunks, c ∈ t.chunks := by
    cases hstep
    intro c hc
    dsimp only
    split
    · exact List.mem_cons_of_mem _ hc
    · exact hc
  have hgood : Good sha256 t.chunks s.disk s.disk := ⟨hs.mono hchunks, .refl _⟩
  have hwp : (handle sha256 a).wp a.plan
      (fun reply d' => Good sha256 t.chunks s.disk d' ∧ Reported sha256 reply d')
      (fun _ d' => Good sha256 t.chunks s.disk d') s.disk := by
    unfold MetaReadable at hok
    unfold handle
    match hrequest : a.request with
    | .init r =>
      rw [hrequest] at hok
      exact wp_uploadInit hgood hok
    | .chunk requested bytes =>
      refine wp_uploadChunk hgood ?_
      cases hstep
      simp only [hrequest]
      exact List.mem_cons_self
    | .download offset =>
      refine Faulty.wp_mono (wp_download _ _ _ _ _) ?_ ?_
      · rintro reply _ ⟨rfl, hreply, -⟩
        exact ⟨hgood, fun offset' h => absurd h (hreply offset' true)⟩
      · rintro _ _ rfl
        exact hgood
  obtain ⟨hreply, hnone⟩ := step_of_wp (wp_perform hwp fun _ _ _ h => h.1) hstep
  match hr : s.reply sha256 a with
  | some reply =>
    refine ⟨(hreply reply hr).1, ?_⟩
    rintro _ ⟨⟩
    exact (hreply reply hr).2
  | none =>
    obtain ⟨_, h⟩ := hnone hr
    exact ⟨h, nofun⟩

/-- A chunk for another place changes no file. -/
theorem step_elsewhere {requested : ℕ} {bytes : Bytes}
    (hrequest : a.request = .chunk requested bytes)
    (hrequested : requested ≠ (s.disk.here.part.getD []).length)
    (hstep : (store sha256).step s a t) :
    t.disk.folder = s.disk.folder ∧ (s.disk.here.bin = none → t.disk = s.disk) := by
  have hwp : (handle sha256 a).wp a.plan
      (fun _ d' => d'.folder = s.disk.folder ∧ (s.disk.here.bin = none → d' = s.disk))
      (fun _ d' => d'.folder = s.disk.folder ∧ (s.disk.here.bin = none → d' = s.disk)) s.disk := by
    rw [handle, hrequest]
    exact wp_uploadChunk_elsewhere hrequested
  obtain ⟨hreply, hnone⟩ := step_of_wp (wp_perform hwp fun _ _ _ h => h) hstep
  match hr : s.reply sha256 a with
  | some reply => exact hreply reply hr
  | none =>
    obtain ⟨_, h⟩ := hnone hr
    exact h

/-- What a download that was answered has. -/
theorem step_download {offset offset' size : ℕ} {sha : String} {data : Bytes} {complete : Bool}
    (hrequest : a.request = .download offset) (hstep : (store sha256).step s a t)
    (hreply : s.reply sha256 a = some (.download offset' size sha data complete)) :
    t.disk = s.disk ∧ ∃ m bytes, s.disk.parsed = some m ∧ s.disk.here.bin = some bytes ∧
      m.Readable a.uid a.member ∧ offset ≤ m.size ∧ size = m.size ∧ sha = m.sha256 ∧
      offset' = offset + data.length ∧ data <+: bytes.drop offset ∧
      (complete = true ↔ offset' = m.size) := by
  have hwp := wp_download s.disk a.plan a.uid a.member offset
  rw [show download a.uid a.member offset = handle sha256 a by rw [handle, hrequest]] at hwp
  obtain ⟨hdone, -⟩ := step_of_wp (wp_perform hwp fun _ _ _ h => h.1) hstep
  obtain ⟨hsame, -, h⟩ := hdone _ hreply
  exact ⟨hsame, h _ _ _ _ _ rfl⟩

/-! ## Runs -/

theorem sound_reachable (hs : (readableStore sha256).Reachable s) :
    Sound sha256 s.chunks s.disk := by
  have hinv : (readableStore sha256).Invariant fun s => Sound sha256 s.chunks s.disk := by
    refine ⟨fun s h => ?_, fun s a t _ hs hstep => (step_good hs hstep.1 hstep.2).1.sound⟩
    cases h
    exact sound_emptyDisk
  exact hinv.reachable hs

theorem run_kept (hs : (readableStore sha256).Reachable s) (h : (readableStore sha256).Run s t) :
    Kept s.disk t.disk := by
  refine Machine.Run.relates (R := fun s t => Kept s.disk t.disk) (fun _ => .refl _)
    (fun _ _ _ => .trans) (fun s a t hs hstep => ?_) hs h
  exact (step_good (sound_reachable hs) hstep.1 hstep.2).1.kept

/-- Downloads, each from the offset that the one before it returned, with anything between
them: their data, the next offset, and whether the last of them was complete. -/
inductive Fetched (sha256 : Bytes → String) : State → ℕ → Bytes → ℕ → Bool → State → Prop
  | start {s : State} {offset : ℕ} : Fetched sha256 s offset [] offset false s
  | other {s t u : State} {a : Action} {offset next : ℕ} {data : Bytes} {complete : Bool}
      (h : Fetched sha256 s offset data next complete t)
      (hstep : (readableStore sha256).step t a u) : Fetched sha256 s offset data next complete u
  | more {s t u : State} {a : Action} {offset next next' size : ℕ} {data bytes : Bytes}
      {sha : String} {complete : Bool} (h : Fetched sha256 s offset data next false t)
      (hrequest : a.request = .download next) (hstep : (readableStore sha256).step t a u)
      (hreply : t.reply sha256 a = some (.download next' size sha bytes complete)) :
      Fetched sha256 s offset (data ++ bytes) next' complete u

theorem Fetched.run {offset next : ℕ} {data : Bytes} {complete : Bool}
    (h : Fetched sha256 s offset data next complete t) : (readableStore sha256).Run s t := by
  induction h with
  | start => exact .refl
  | other _ hstep ih => exact ih.tail ⟨_, hstep⟩
  | more _ _ hstep _ ih => exact ih.tail ⟨_, hstep⟩

/-- The data so far is a beginning of the file from the first offset on, and is all of it once
a download was complete. -/
theorem Fetched.begins {offset next : ℕ} {data : Bytes} {complete : Bool}
    (hs : (readableStore sha256).Reachable s)
    (h : Fetched sha256 s offset data next complete t) :
    next = offset + data.length ∧ (data = [] ∧ complete = false ∨
      ∃ m bytes, t.disk.parsed = some m ∧ t.disk.here.bin = some bytes ∧ offset ≤ m.size ∧
        data <+: bytes.drop offset ∧ (complete = true → next = m.size)) := by
  induction h with
  | start => exact ⟨rfl, .inl ⟨rfl, rfl⟩⟩
  | @other t u a offset next data complete h hstep ih =>
    obtain ⟨hnext, hdata⟩ := ih
    refine ⟨hnext, hdata.imp_right ?_⟩
    rintro ⟨m, bytes, hm, hbin, hrest⟩
    have hkept := (step_good (sound_reachable (hs.run h.run)) hstep.1 hstep.2).1.kept
    exact ⟨m, bytes, hkept.parsed m hm, hkept.bin m bytes hm hbin, hrest⟩
  | @more t u a offset next next' size data bytes sha complete h hrequest hstep hreply ih =>
    obtain ⟨hnext, hdata⟩ := ih
    obtain ⟨hsame, m, content, hm, hbin, -, hle, -, -, hnext', ⟨rest, hrest⟩, hcomplete⟩ :=
      step_download hrequest hstep.2 hreply
    rw [hsame]
    refine ⟨by rw [hnext', hnext, List.length_append, Nat.add_assoc], .inr ⟨m, content, hm, hbin,
      by omega, ?_, hcomplete.mp⟩⟩
    have hbegin : data <+: content.drop offset := by
      rcases hdata with ⟨rfl, -⟩ | ⟨m', content', hm', hbin', -, hbegin, -⟩
      · exact List.nil_prefix
      · rw [hbin] at hbin'
        cases hbin'
        exact hbegin
    obtain ⟨rest', hrest'⟩ := hbegin
    -- What follows the data so far is what stands from the next offset on.
    have hfollows : rest' = content.drop next := by
      rw [hnext, ← List.drop_drop, ← hrest', List.drop_left]
    rw [← hrest', hfollows, ← hrest, ← List.append_assoc]
    exact List.prefix_append _ _

/-- What holds of a step. -/
structure Lawful (sha256 : Bytes → String) (s : State) (a : Action) (t : State) : Prop where
  /-- An upload that is reported complete has its file. -/
  reported : ∀ offset, s.reply sha256 a = some (.upload offset true) →
    ∃ m bytes, t.disk.parsed = some m ∧ t.disk.here.bin = some bytes ∧ Complete sha256 m bytes ∧
      offset = m.size
  /-- A chunk for another place changes no file, and nothing before the upload is complete. -/
  elsewhere : ∀ requested bytes, a.request = .chunk requested bytes →
    requested ≠ (s.disk.here.part.getD []).length →
    t.disk.folder = s.disk.folder ∧ (s.disk.here.bin = none → t.disk = s.disk)
  /-- Bytes of the file go to those who may see it. -/
  access : ∀ offset offset' size sha data complete, a.request = .download offset →
    s.reply sha256 a = some (.download offset' size sha data complete) →
    ∃ m bytes, s.disk.parsed = some m ∧ s.disk.here.bin = some bytes ∧
      Complete sha256 m bytes ∧ m.Readable a.uid a.member ∧ data <+: bytes.drop offset ∧
      offset' = offset + data.length

theorem lawful (hs : (readableStore sha256).Reachable s) (hstep : (readableStore sha256).step s a t) :
    Lawful sha256 s a t := by
  have hsound := sound_reachable hs
  refine ⟨fun offset hreply => (step_good hsound hstep.1 hstep.2).2 _ hreply offset rfl,
    fun requested bytes hrequest hne => step_elsewhere hrequest hne hstep.2,
    fun offset offset' size sha data complete hrequest hreply => ?_⟩
  obtain ⟨-, m, bytes, hm, hbin, hreadable, -, -, -, hnext, hdata, -⟩ :=
    step_download hrequest hstep.2 hreply
  exact ⟨m, bytes, hm, hbin, hsound.bin m bytes hm hbin, hreadable, hdata, hnext⟩

/-- In every run in which no upload misses metadata that can be read. -/
theorem resources_safe (s : State) (hs : (readableStore sha256).Reachable s) :
    (∀ dir bytes, (s.disk.folder dir).bin = some bytes → ∃ m, s.disk.parsed = some m ∧
      Complete sha256 m bytes ∧ (m.mediaType = 3 →
        1000 ≤ waveDurationMs (bytes.take waveHeaderBytes) bytes.length ∧
        waveDurationMs (bytes.take waveHeaderBytes) bytes.length ≤ 60000)) ∧
    (∀ dir bytes, (s.disk.folder dir).part = some bytes → ∃ m, s.disk.parsed = some m ∧
      SentBytes s.chunks m bytes) ∧
    (∀ text, s.disk.ready = some text → ∃ m bytes, s.disk.parsed = some m ∧
      s.disk.here.bin = some bytes ∧ Complete sha256 m bytes ∧ text = m.ready) ∧
    (∀ t m, (readableStore sha256).Run s t → s.disk.parsed = some m → t.disk.parsed = some m) ∧
    (∀ a t, (readableStore sha256).step s a t → Lawful sha256 s a t) ∧
    ∀ t offset data next, Fetched sha256 s offset data next true t →
      ∃ m bytes, t.disk.parsed = some m ∧ t.disk.here.bin = some bytes ∧
        data = bytes.drop offset := by
  have hsound := sound_reachable hs
  refine ⟨fun dir bytes hbin => ?_, fun dir bytes hpart => ?_, fun text htext => ?_,
    fun t m hrun hm => (run_kept hs hrun).parsed m hm, fun a t hstep => lawful hs hstep,
    fun t offset data next h => ?_⟩
  · obtain ⟨rfl, hparsed⟩ := hsound.beside dir (.inr (hbin ▸ nofun))
    obtain ⟨m, hm⟩ := Option.ne_none_iff_exists'.mp hparsed
    have hcomplete := hsound.bin m bytes hm hbin
    exact ⟨m, hm, hcomplete, fun htype => validWave_duration (hcomplete.2.2 htype)⟩
  · obtain ⟨rfl, hparsed⟩ := hsound.beside dir (.inl (hpart ▸ nofun))
    obtain ⟨m, hm⟩ := Option.ne_none_iff_exists'.mp hparsed
    exact ⟨m, hm, (hsound.part m bytes hm hpart).2⟩
  · obtain ⟨m, hm, hbin, rfl⟩ := hsound.ready text htext
    obtain ⟨bytes, hbytes⟩ := Option.ne_none_iff_exists'.mp hbin
    exact ⟨m, bytes, hm, hbytes, hsound.bin m bytes hm hbytes, rfl⟩
  · obtain ⟨hnext, ⟨-, ⟨⟩⟩ | ⟨m, bytes, hm, hbin, -, ⟨rest, hrest⟩, hend⟩⟩ := h.begins hs
    have ht := sound_reachable (hs.run h.run)
    have hlength := congrArg List.length hrest
    rw [List.length_append, List.length_drop, (ht.bin m bytes hm hbin).1] at hlength
    have hnil : rest = [] := List.eq_nil_of_length_eq_zero (by have := hend rfl; omega)
    exact ⟨m, bytes, hm, hbin, by rw [← hrest, hnil, List.append_nil]⟩

/-! ## Runs of one file -/

def abcDigest : String := "ba7816bf8f01cfea414140de5dae2223b00361a396177a9cb410ff61f20015ad"

/-- The digest of the only text that the runs below digest. -/
def sampleDigest (bytes : Bytes) : String := if bytes = ascii "abc" then abcDigest else ""

def good : Site → Fate := fun _ => .done

def failing (site : Site) (fate : Fate) : Site → Fate := fun i => if i = site then fate else .done

def initAbc (plan : Site → Fate) : Action := ⟨1, fun _ => true, .init ⟨2, 0, 1, 3, abcDigest⟩, plan⟩

def sendChunk (offset : ℕ) (text : String) (plan : Site → Fate) : Action :=
  ⟨1, fun _ => true, .chunk offset (ascii text), plan⟩

def fetch (uid : ℤ) (offset : ℕ) (plan : Site → Fate) : Action :=
  ⟨uid, fun _ => true, .download offset, plan⟩

/-- The second chunk is cut short by a crash, and the file is not renamed at once. -/
def interrupted : List Action :=
  [initAbc good, sendChunk 0 "a" good, sendChunk 1 "bc" (failing .writePart (.crashes 1)),
    sendChunk 1 "bc" good, sendChunk 2 "c" (failing .renamePart (.crashes 0)), initAbc good,
    fetch 2 1 (failing .readDone (.fails 1))]

theorem resources_safe_sample : ∃ s, Machine.runFn (fun s a =>
      if MetaReadable s a then s.step sampleDigest a else none) ⟨emptyDisk, []⟩ interrupted =
        some s ∧
    s.disk.here.bin = some (ascii "abc") ∧ s.disk.ready = some "1:2:3" ∧
    s.reply sampleDigest (fetch 2 2 good) =
      some (.download 3 3 abcDigest (ascii "c") true) ∧
    s.reply sampleDigest (fetch 3 2 good) = some (.error "access denied" none) ∧
    ∀ a t, (readableStore sampleDigest).step s a t → Lawful sampleDigest s a t := by
  have hrun : (Machine.runFn (fun s a => if MetaReadable s a then s.step sampleDigest a else none)
      ⟨emptyDisk, []⟩ interrupted).map (fun s => (s.disk.here.bin, s.disk.ready,
        s.reply sampleDigest (fetch 2 2 good), s.reply sampleDigest (fetch 3 2 good))) =
      some (some (ascii "abc"), some "1:2:3", some (.download 3 3 abcDigest (ascii "c") true),
        some (.error "access denied" none)) := by
    decide +kernel
  obtain ⟨s, hs, hstate⟩ := Option.map_eq_some_iff.mp hrun
  simp only [Prod.mk.injEq] at hstate
  obtain ⟨hbin, hready, hfetch, hdenied⟩ := hstate
  have hreachable : (readableStore sampleDigest).Reachable s :=
    Machine.Reachable.runFn_restrict (.init rfl) hs
  exact ⟨s, hs, hbin, hready, hfetch, hdenied, (resources_safe s hreachable).2.2.2.2.1⟩

/-- Another user's upload, that cannot open the metadata. -/
def takeOver : Action :=
  ⟨3, fun _ => true, .init ⟨4, 0, 1, 5, abcDigest⟩, failing .openMeta (.fails 0)⟩

/-- The file of the first upload becomes the file of another user, whose metadata it does
not fit. -/
theorem unopened_metadata_replaced : ∃ s t, (store sampleDigest).Reachable s ∧
    (store sampleDigest).step s takeOver t ∧ s.disk.parsed ≠ t.disk.parsed ∧
    s.disk.parsed ≠ none ∧ ¬ Lawful sampleDigest s takeOver t := by
  have hrun : (Machine.runFn (State.step sampleDigest) ⟨emptyDisk, []⟩
      [initAbc good, sendChunk 0 "abc" good]).bind (fun s => (s.step sampleDigest takeOver).map
        fun t => (s.disk.parsed, s.reply sampleDigest takeOver, t.disk.parsed,
          t.disk.here.bin)) =
      some (some ⟨1, 2, 0, 1, 3, abcDigest⟩, some (.upload 5 true),
        some ⟨3, 4, 0, 1, 5, abcDigest⟩, some (ascii "abc")) := by
    decide +kernel
  obtain ⟨s, hs, hnext⟩ := Option.bind_eq_some_iff.mp hrun
  obtain ⟨t, ht, hstate⟩ := Option.map_eq_some_iff.mp hnext
  simp only [Prod.mk.injEq] at hstate
  obtain ⟨hbefore, hreply, hafter, hbin⟩ := hstate
  have hreachable : (store sampleDigest).Reachable s := Machine.Reachable.runFn (.init rfl) hs
  refine ⟨s, t, hreachable, ht, ?_, ?_, fun hlawful => ?_⟩
  · rw [hbefore, hafter]
    decide
  · rw [hbefore]
    nofun
  · obtain ⟨m, bytes, hm, hbytes, hcomplete, -⟩ := hlawful.reported 5 hreply
    rw [hafter] at hm
    rw [hbin] at hbytes
    cases hm
    cases hbytes
    exact absurd hcomplete.1 (by decide)

end CppChat.Resources
