import CppChat.Resources.Store

/-! # What holds of every disk

Parts and files stand beside the metadata that was read, a finished file has passed its
checks, and every byte of a part was sent for its place.
-/
namespace CppChat.Resources
open Foundation Faults

/-! ## Folders -/

namespace Disk
variable {d : Disk} {dir : Dir} {f : Folder} {m : Meta}

theorem setFolder_self : (d.setFolder dir f).folder dir = f := Function.update_self _ _ _

theorem setFolder_of_ne {dir' : Dir} (h : dir' ≠ dir) :
    (d.setFolder dir f).folder dir' = d.folder dir' := Function.update_of_ne h _ _

theorem current_congr {d' : Disk}
    (h : ∀ dir, (d'.folder dir).json.isSome = (d.folder dir).json.isSome) :
    d'.current = d.current := by
  unfold current
  rw [h, h, h]

/-- A new metadata file is found, or one that was found before it. -/
theorem current_setFolder (d : Disk) (dir : Dir) (hjson : f.json.isSome = true) :
    (d.setFolder dir f).current = dir ∨
      (d.setFolder dir f).current = d.current ∧ d.current ≠ dir := by
  have hsame : ∀ dir', dir' ≠ dir →
      ((d.setFolder dir f).folder dir').json.isSome = (d.folder dir').json.isSome := fun _ hne => by
    rw [setFolder_of_ne hne]
  have hself : ((d.setFolder dir f).folder dir).json.isSome = true := by
    rw [setFolder_self, hjson]
  unfold current
  cases dir with
  | files => simp [hself]
  | audio =>
    rw [hself, hsame .files (by decide)]
    by_cases h : (d.folder .files).json.isSome = true <;> simp [h]
  | groups =>
    rw [hself, hsame .files (by decide), hsame .audio (by decide)]
    by_cases h : (d.folder .files).json.isSome = true
    · simp [h]
    · by_cases h' : (d.folder .audio).json.isSome = true <;> simp [h, h']
  | root =>
    rw [hsame .files (by decide), hsame .audio (by decide), hsame .groups (by decide)]
    by_cases h : (d.folder .files).json.isSome = true
    · simp [h]
    · by_cases h' : (d.folder .audio).json.isSome = true
      · simp [h, h']
      · by_cases h'' : (d.folder .groups).json.isSome = true <;> simp [h, h', h'']

theorem setHere_current (hjson : f.json = d.here.json) : (d.setHere f).current = d.current := by
  refine current_congr fun dir => ?_
  by_cases hdir : dir = d.current
  · subst hdir
    rw [setHere, setFolder_self, hjson, here]
  · rw [setHere, setFolder_of_ne hdir]

theorem setHere_here (hjson : f.json = d.here.json) : (d.setHere f).here = f := by
  rw [here, setHere_current hjson, setHere, setFolder_self]

theorem parsed_congr {d' : Disk} (h : d'.here.json = d.here.json) : d'.parsed = d.parsed := by
  rw [parsed, h, parsed]

theorem setHere_parsed (hjson : f.json = d.here.json) : (d.setHere f).parsed = d.parsed :=
  parsed_congr (by rw [setHere_here hjson, hjson])

theorem parsed_eq_some : d.parsed = some m ↔ d.here.json = some (.whole m) := by
  unfold parsed
  split
  next h => simp [h]
  next h =>
    constructor
    · nofun
    · exact fun hm => absurd hm (h m)

/-- Writing metadata when none can be read: it may be found then, or not. -/
theorem parsed_setFolder (doc : Doc) (hnone : d.parsed = none) :
    (d.setFolder dir { d.folder dir with json := some doc }).parsed = none ∨
      ∃ m, doc = .whole m ∧
        (d.setFolder dir { d.folder dir with json := some doc }).parsed = some m := by
  rcases current_setFolder d dir (f := { d.folder dir with json := some doc }) rfl with
    hcurrent | ⟨hcurrent, hne⟩
  · have hjson : (d.setFolder dir { d.folder dir with json := some doc }).here.json = some doc := by
      rw [here, hcurrent, setFolder_self]
    cases doc with
    | cut =>
      left
      rw [parsed, hjson]
    | whole m => exact .inr ⟨m, rfl, parsed_eq_some.mpr hjson⟩
  · left
    rw [parsed_congr (d := d), hnone]
    rw [here, hcurrent, setFolder_of_ne hne, here]

end Disk
/-! ## The invariant -/

/-- What a file has to be: its metadata describes it. -/
def Complete (sha256 : Bytes → String) (m : Meta) (bytes : Bytes) : Prop :=
  bytes.length = m.size ∧ sha256 bytes = m.sha256 ∧ (m.mediaType = 3 → validWave bytes = true)

/-- A wave file that is accepted lasts from one second to a minute. -/
theorem validWave_duration {content : Bytes} (h : validWave content = true) :
    1000 ≤ waveDurationMs (content.take waveHeaderBytes) content.length ∧
      waveDurationMs (content.take waveHeaderBytes) content.length ≤ 60000 := by
  simp only [validWave, decide_eq_true_eq] at h
  obtain ⟨-, hpos⟩ := h
  unfold waveDurationMs at hpos ⊢
  split at hpos
  · omega
  next hsize =>
    rw [if_neg hsize]
    split at hpos
    · omega
    next hheader =>
      rw [if_neg hheader]
      simp only [waveHeaderBytes, minPcmBytes, maxPcmBytes, pcmBytesPerSecond] at hsize ⊢
      omega

/-- Every byte was sent by the owner in a chunk for its place. -/
def SentBytes (chunks : List Chunk) (m : Meta) (bytes : Bytes) : Prop :=
  ∀ i b, bytes[i]? = some b →
    ∃ c ∈ chunks, c.uid = m.uid ∧ c.offset ≤ i ∧ c.bytes[i - c.offset]? = some b

structure Sound (sha256 : Bytes → String) (chunks : List Chunk) (d : Disk) : Prop where
  digest : ∀ m, d.parsed = some m → m.sha256 ≠ ""
  beside : ∀ dir, (d.folder dir).part ≠ none ∨ (d.folder dir).bin ≠ none →
    dir = d.current ∧ d.parsed ≠ none
  bin : ∀ m bytes, d.parsed = some m → d.here.bin = some bytes → Complete sha256 m bytes
  part : ∀ m bytes, d.parsed = some m → d.here.part = some bytes →
    bytes.length ≤ m.size ∧ SentBytes chunks m bytes
  ready : ∀ text, d.ready = some text →
    ∃ m, d.parsed = some m ∧ d.here.bin ≠ none ∧ text = m.ready

/-- What no request takes back. -/
structure Kept (d d' : Disk) : Prop where
  parsed : ∀ m, d.parsed = some m → d'.parsed = some m
  bin : ∀ m bytes, d.parsed = some m → d.here.bin = some bytes → d'.here.bin = some bytes

theorem Kept.refl (d : Disk) : Kept d d := ⟨fun _ h => h, fun _ _ _ h => h⟩

theorem Kept.trans {d d' d'' : Disk} (h : Kept d d') (h' : Kept d' d'') : Kept d d'' :=
  ⟨fun m hm => h'.parsed m (h.parsed m hm),
    fun m bytes hm hb => h'.bin m bytes (h.parsed m hm) (h.bin m bytes hm hb)⟩

theorem Kept.of_none {d d' : Disk} (h : d.parsed = none) : Kept d d' := by
  constructor <;> simp [h]

theorem SentBytes.mono {chunks chunks' : List Chunk} {m : Meta} {bytes : Bytes}
    (h : SentBytes chunks m bytes) (hsub : ∀ c ∈ chunks, c ∈ chunks') :
    SentBytes chunks' m bytes := fun i b hb =>
  have ⟨c, hc, hrest⟩ := h i b hb
  ⟨c, hsub c hc, hrest⟩

theorem SentBytes.nil {chunks : List Chunk} {m : Meta} : SentBytes chunks m [] := nofun

/-- A chunk for the end of the part, or the first bytes of it. -/
theorem SentBytes.append {chunks : List Chunk} {m : Meta} {bytes more rest : Bytes} {c : Chunk}
    (h : SentBytes chunks m bytes) (hc : c ∈ chunks) (hcu : c.uid = m.uid)
    (hco : c.offset = bytes.length) (hcb : c.bytes = more ++ rest) :
    SentBytes chunks m (bytes ++ more) := by
  intro i b hb
  by_cases hi : i < bytes.length
  · rw [List.getElem?_append_left hi] at hb
    exact h i b hb
  · rw [List.getElem?_append_right (Nat.le_of_not_lt hi)] at hb
    refine ⟨c, hc, hcu, by omega, ?_⟩
    rw [hco, hcb]
    have hlt := (List.getElem?_eq_some_iff.mp hb).1
    rw [List.getElem?_append_left hlt, hb]

variable {sha256 : Bytes → String} {chunks chunks' : List Chunk} {d d' : Disk} {m : Meta}
  {f : Folder}

theorem Sound.mono (h : Sound sha256 chunks d) (hsub : ∀ c ∈ chunks, c ∈ chunks') :
    Sound sha256 chunks' d :=
  ⟨h.digest, h.beside, h.bin, fun m bytes hm hb => (h.part m bytes hm hb).imp_right fun hs => hs.mono hsub,
    h.ready⟩

theorem Sound.setHere (h : Sound sha256 chunks d) (hm : d.parsed = some m)
    (hjson : f.json = d.here.json)
    (hbin : ∀ bytes, f.bin = some bytes → Complete sha256 m bytes)
    (hpart : ∀ bytes, f.part = some bytes → bytes.length ≤ m.size ∧ SentBytes chunks m bytes)
    (hkept : d.here.bin ≠ none → f.bin ≠ none) : Sound sha256 chunks (d.setHere f) := by
  have hparsed : (d.setHere f).parsed = some m := (Disk.setHere_parsed hjson).trans hm
  refine ⟨fun m' hm' => ?_, fun dir hdir => ?_, fun m' bytes hm' hb => ?_,
    fun m' bytes hm' hb => ?_, fun text htext => ?_⟩
  · rw [hparsed] at hm'
    cases hm'
    exact h.digest m hm
  · rw [Disk.setHere_current hjson, hparsed]
    refine ⟨?_, nofun⟩
    by_contra hne
    rw [Disk.setHere, Disk.setFolder_of_ne hne] at hdir
    exact hne (h.beside dir hdir).1
  · rw [hparsed] at hm'
    cases hm'
    rw [Disk.setHere_here hjson] at hb
    exact hbin bytes hb
  · rw [hparsed] at hm'
    cases hm'
    rw [Disk.setHere_here hjson] at hb
    exact hpart bytes hb
  · obtain ⟨m', hm', hbin', rfl⟩ := h.ready text htext
    rw [hm] at hm'
    cases hm'
    refine ⟨m, hparsed, ?_, rfl⟩
    rw [Disk.setHere_here hjson]
    exact hkept hbin'

theorem Kept.setHere (hjson : f.json = d.here.json)
    (hbin : ∀ bytes, d.here.bin = some bytes → f.bin = some bytes) : Kept d (d.setHere f) := by
  refine ⟨fun m hm => (Disk.setHere_parsed hjson).trans hm, fun m bytes _ hb => ?_⟩
  rw [Disk.setHere_here hjson]
  exact hbin bytes hb

/-- The ready record of a file that is there. -/
theorem Sound.setReady (h : Sound sha256 chunks d) (hm : d.parsed = some m)
    (hbin : d.here.bin ≠ none) : Sound sha256 chunks { d with ready := some m.ready } := by
  refine ⟨h.digest, h.beside, h.bin, h.part, fun text htext => ?_⟩
  cases htext
  exact ⟨m, hm, hbin, rfl⟩

theorem sound_emptyDisk : Sound sha256 [] emptyDisk := by
  refine ⟨nofun, fun dir h => ?_, nofun, nofun, nofun⟩
  simp [emptyDisk] at h

/-- Without readable metadata there is nothing beside it. -/
theorem Sound.nothing (h : Sound sha256 chunks d) (hnone : d.parsed = none) (dir : Dir) :
    (d.folder dir).part = none ∧ (d.folder dir).bin = none := by
  by_contra hne
  rw [not_and_or] at hne
  exact (h.beside dir hne).2 hnone

theorem Sound.setFolder (h : Sound sha256 chunks d) (hnone : d.parsed = none) {dir : Dir}
    {doc : Doc} (hdoc : ∀ m, doc = .whole m → m.sha256 ≠ "") :
    Sound sha256 chunks (d.setFolder dir { d.folder dir with json := some doc }) := by
  have hnothing : ∀ dir',
      ((d.setFolder dir { d.folder dir with json := some doc }).folder dir').part = none ∧
      ((d.setFolder dir { d.folder dir with json := some doc }).folder dir').bin = none := by
    intro dir'
    by_cases hdir : dir' = dir
    · subst hdir
      rw [Disk.setFolder_self]
      exact h.nothing hnone dir'
    · rw [Disk.setFolder_of_ne hdir]
      exact h.nothing hnone dir'
  refine ⟨fun m hm => ?_, fun dir' hne => ?_, fun m bytes _ hb => ?_, fun m bytes _ hb => ?_,
    fun text htext => ?_⟩
  · rcases Disk.parsed_setFolder doc hnone with hnone' | ⟨m', hm', hparsed⟩
    · rw [hnone'] at hm
      cases hm
    · rw [hparsed] at hm
      cases hm
      exact hdoc m hm'
  · rw [(hnothing dir').1, (hnothing dir').2] at hne
    simp at hne
  · rw [Disk.here, (hnothing _).2] at hb
    cases hb
  · rw [Disk.here, (hnothing _).1] at hb
    cases hb
  · obtain ⟨m, hm, -⟩ := h.ready text htext
    rw [hnone] at hm
    cases hm

end CppChat.Resources
