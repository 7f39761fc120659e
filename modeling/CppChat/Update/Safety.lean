import CppChat.Update.Service

/-! # Update safety

Beside the service stands a record of every byte its download replies delivered, with the
request and the head it came under. The partial file only ever holds bytes that an accepted
reply for the current manifest entry delivered for their offset.
-/
namespace CppChat.Update
open Foundation

/-- One byte of the body of a download reply. -/
structure Delivery where
  entry : ClientUpdateInfo
  reply : Reply
  position : ℕ
  byte : UInt8

/-- The reply is one whose body may be used: the whole file, or the range it was asked for. -/
def Acceptable (cfg : Config) (entry : ClientUpdateInfo) (reply : Reply) : Prop :=
  ∃ h, reply.headers = some h ∧ SameOrigin cfg.manifestUrl h.url ∧
    (h.status = 200 ∨ (h.status = 206 ∧ 0 < reply.rangeFrom ∧
      h.contentRange = rangeText reply.rangeFrom entry.size))

/-- The byte belongs at an offset of the entry's file. -/
def Delivery.Gives (cfg : Config) (entry : ClientUpdateInfo) (d : Delivery) (offset : ℕ)
    (byte : UInt8) : Prop :=
  d.entry = entry ∧ d.byte = byte ∧ ∃ h, d.reply.headers = some h ∧
    SameOrigin cfg.manifestUrl h.url ∧
      ((h.status = 200 ∧ d.position = offset) ∨
        (h.status = 206 ∧ 0 < d.reply.rangeFrom ∧
          h.contentRange = rangeText d.reply.rangeFrom entry.size ∧
          d.reply.rangeFrom + d.position = offset))

def Delivered (cfg : Config) (entry : ClientUpdateInfo) (ds : List Delivery) (content : Bytes) :
    Prop :=
  ∀ offset byte, content[offset]? = some byte → ∃ d ∈ ds, d.Gives cfg entry offset byte

theorem Delivered.mono {cfg : Config} {entry : ClientUpdateInfo} {ds ds' : List Delivery}
    {content : Bytes} (h : Delivered cfg entry ds content) (hsub : ds ⊆ ds') :
    Delivered cfg entry ds' content := by
  intro offset byte hbyte
  obtain ⟨d, hd, hgives⟩ := h offset byte hbyte
  exact ⟨d, hsub hd, hgives⟩

/-- The service, what was delivered, and how much of the current reply was read. -/
structure Run where
  service : Service := {}
  deliveries : List Delivery := []
  position : ℕ := 0

def bytes (chunks : List Service.Chunk) : Bytes := (chunks.map Prod.fst).flatten

def deliver (entry : ClientUpdateInfo) (reply : Reply) (position : ℕ) (content : Bytes) :
    List Delivery :=
  (content.zipIdx position).map fun p => ⟨entry, reply, p.2, p.1⟩

/-- What an event of a download reply adds to the record. -/
def Run.read (r : Run) (chunks : List Service.Chunk) : List Delivery × ℕ :=
  match r.service.reply with
  | some reply =>
    if reply.download then
      (deliver r.service.info reply r.position (bytes chunks) ++ r.deliveries,
        r.position + (bytes chunks).length)
    else (r.deliveries, r.position)
  | none => (r.deliveries, r.position)

/-- The record after an input. -/
def Run.record (r : Run) : Input → List Delivery × ℕ
  | .data chunks _ | .finished chunks _ _ _ => r.read chunks
  | .download .. => (r.deliveries, if r.service.state = .available then 0 else r.position)
  | _ => (r.deliveries, r.position)

def Run.next (qt : Qt) (cfg : Config) (r : Run) (input : Input) : Option Run :=
  (r.service.handle qt cfg input).map fun s => ⟨s, (r.record input).1, (r.record input).2⟩

def machine (qt : Qt) (cfg : Config) : Machine Run Input := .ofFn (fun r => r = {}) (Run.next qt cfg)

namespace Service
variable {qt : Qt} {cfg : Config} {s t : Service} {ds ds' : List Delivery} {position n : ℕ}
  {chunks : List Chunk} {content : Bytes} {reply : Reply}

/-! ## The invariant -/

/-- The open file holds what was received, as the replies delivered it. -/
structure HoldsPrefix (cfg : Config) (ds : List Delivery) (s : Service) (content : Bytes) : Prop where
  received : s.received = content.length
  hashed : s.hashed = content
  size : content.length ≤ s.info.size
  path : s.readyPath = installerName cfg.android s.info.version
  delivered : Delivered cfg s.info ds content

/-- The running download: what was read of the reply continues what was received before. -/
structure Downloads (cfg : Config) (position : ℕ) (s : Service) (reply : Reply) : Prop where
  current : s.reply = some reply
  download : reply.download = true
  file : s.file.isSome
  received : s.received = s.resumeOffset + position
  offset : s.resumeOffset = reply.rangeFrom ∨
    (s.resumeOffset = 0 ∧ ∃ h, reply.headers = some h ∧ h.status = 200)
  accepted : 0 < position → s.responseAccepted cfg = true

structure Sound (qt : Qt) (cfg : Config) (ds : List Delivery) (position : ℕ) (s : Service) :
    Prop where
  newer : s.state = .available ∨ s.state = .downloading ∨ s.state = .ready →
    Newer s.info.version cfg.currentVersion
  file : ∀ content, s.file = some content →
    (s.state = .available ∨ s.state = .downloading) ∧ HoldsPrefix cfg ds s content
  ready : s.state = .ready → ∃ content, s.committed = some content ∧
    content.length = s.info.size ∧ qt.sha256 content = s.info.sha256 ∧
    s.readyPath = installerName cfg.android s.info.version
  downloads : s.state = .downloading → ∃ reply, Downloads cfg position s reply
  committed : s.committed.isSome → s.state = .ready
  replies : ∀ reply, s.reply = some reply →
    (s.state = .checking ∧ reply.download = false) ∨ (s.state = .downloading ∧ reply.download = true)

theorem sound_start (qt : Qt) (cfg : Config) : Sound qt cfg [] 0 {} where
  newer := by
    rintro (h | h | h) <;> cases h
  file := by
    intro content h
    cases h
  ready := by
    intro h
    cases h
  downloads := by
    intro h
    cases h
  committed := by
    intro h
    cases h
  replies := by
    intro reply h
    cases h

/-- A state with nothing of a package, and no request. -/
theorem sound_discarded (hfile : s.file = none) (hcommitted : s.committed = none) (hreply : s.reply = none)
    (hstate : s.state = .idle ∨ (s.state = .available ∧ Newer s.info.version cfg.currentVersion)) :
    Sound qt cfg ds position s where
  newer h := by
    rcases hstate with hs | ⟨-, hnewer⟩
    · rw [hs] at h
      rcases h with h | h | h <;> cases h
    · exact hnewer
  file content h := by
    rw [hfile] at h
    cases h
  ready h := by
    rcases hstate with hs | ⟨hs, -⟩ <;> (rw [hs] at h; cases h)
  downloads h := by
    rcases hstate with hs | ⟨hs, -⟩ <;> (rw [hs] at h; cases h)
  committed h := by
    rw [hcommitted] at h
    cases h
  replies reply h := by
    rw [hreply] at h
    cases h

theorem Sound.mono (h : Sound qt cfg ds position s) (hsub : ds ⊆ ds') :
    Sound qt cfg ds' position s where
  newer := h.newer
  file content hc := by
    obtain ⟨hstate, hprefix⟩ := h.file content hc
    exact ⟨hstate, hprefix.received, hprefix.hashed, hprefix.size, hprefix.path,
      hprefix.delivered.mono hsub⟩
  ready := h.ready
  downloads := h.downloads
  committed := h.committed
  replies := h.replies

theorem fail_false_eq (s : Service) : s.fail false = { s.stopReply.discard with
    state := if s.state = .downloading then .available else .idle } := by
  have hdrop : ¬ (s.state = .downloading ∧ false = true ∧ s.HasPartial) := by
    rintro ⟨-, h, -⟩
    cases h
  unfold fail
  dsimp only
  rw [if_neg hdrop]

theorem fail_cases (s : Service) (retain : Bool) :
    s.fail retain = s.fail false ∨
      (s.state = .downloading ∧ s.HasPartial ∧ s.fail retain = { s.stopReply with state := .available }) := by
  cases retain with
  | false => exact .inl rfl
  | true =>
    by_cases h : s.state = .downloading ∧ s.HasPartial
    · refine .inr ⟨h.1, h.2, ?_⟩
      have hkeep : s.state = .downloading ∧ true = true ∧ s.HasPartial := ⟨h.1, rfl, h.2⟩
      unfold fail
      dsimp only
      rw [if_pos hkeep, if_pos h.1]
    · refine .inl ?_
      have hdrop : ¬ (s.state = .downloading ∧ true = true ∧ s.HasPartial) :=
        fun hc => h ⟨hc.1, hc.2.2⟩
      rw [fail_false_eq]
      unfold fail
      dsimp only
      rw [if_neg hdrop]

/-- A failure drops what was kept of the package. -/
theorem fail_false_discards (s : Service) :
    (s.fail false).file = none ∧ (s.fail false).committed = none ∧ (s.fail false).reply = none := by
  rw [fail_false_eq]
  exact ⟨rfl, rfl, rfl⟩

theorem Sound.fail_false (h : Sound qt cfg ds position s) : Sound qt cfg ds' n (s.fail false) := by
  obtain ⟨hfile, hcommitted, hreply⟩ := fail_false_discards s
  refine sound_discarded hfile hcommitted hreply ?_
  rw [fail_false_eq]
  by_cases hs : s.state = .downloading
  · exact .inr ⟨if_pos hs, h.newer (.inr (.inl hs))⟩
  · exact .inl (if_neg hs)

/-- Leaving a download with its partial file. -/
theorem Sound.pause (h : Sound qt cfg ds position s) (hs : s.state = .downloading) :
    Sound qt cfg ds n { s.stopReply with state := .available } where
  newer _ := h.newer (.inr (.inl hs))
  file content hc := by
    obtain ⟨-, hprefix⟩ := h.file content hc
    exact ⟨.inl rfl, hprefix.received, hprefix.hashed, hprefix.size, hprefix.path,
      hprefix.delivered⟩
  ready hr := by cases hr
  downloads hd := by cases hd
  committed hc := by
    have hr := h.committed hc
    rw [hs] at hr
    cases hr
  replies reply hr := by cases hr

theorem Sound.fail (h : Sound qt cfg ds position s) (retain : Bool) :
    Sound qt cfg ds n (s.fail retain) := by
  rcases s.fail_cases retain with he | ⟨hs, -, he⟩
  · rw [he]
    exact h.fail_false
  · rw [he]
    exact h.pause hs

/-! ## Reading a download -/

theorem bytes_cons (chunk : Bytes) (written : Bool) (chunks : List Chunk) :
    bytes ((chunk, written) :: chunks) = chunk ++ bytes chunks := rfl

/-- Reading fails and drops everything, or appends all that was there. -/
theorem readChunks_cases (chunks : List Chunk) (hfile : s.file = some content) :
    s.readChunks chunks = s.fail false ∨
      (s.readChunks chunks = { s with
          received := s.received + (bytes chunks).length
          file := some (content ++ bytes chunks)
          hashed := s.hashed ++ bytes chunks } ∧
        (chunks = [] ∨ s.received + (bytes chunks).length ≤ s.info.size)) := by
  induction chunks generalizing s content with
  | nil =>
    refine .inr ⟨?_, .inl rfl⟩
    show s = _
    rw [show bytes ([] : List Chunk) = [] from rfl, List.append_nil, List.append_nil, ← hfile]
    rfl
  | cons c chunks ih =>
    obtain ⟨chunk, written⟩ := c
    unfold readChunks
    rw [hfile]
    dsimp only
    split
    next =>
      refine .inl ?_
      rw [fail_false_eq, fail_false_eq]
      rfl
    next hfits =>
      rcases ih (s := { s with
          received := s.received + chunk.length
          file := some (content ++ chunk)
          hashed := s.hashed ++ chunk }) rfl with h | ⟨h, hle⟩
      · refine .inl (h.trans ?_)
        rw [fail_false_eq, fail_false_eq]
        rfl
      · refine .inr ⟨h.trans ?_, .inr ?_⟩
        · rw [bytes_cons, List.length_append]
          simp only [Nat.add_assoc, List.append_assoc]
        · rw [bytes_cons, List.length_append, ← Nat.add_assoc]
          rcases hle with rfl | hle
          · have hlt : s.received + chunk.length ≤ s.info.size := by
              by_contra hlt
              exact hfits (.inl (not_le.mp hlt))
            simpa [bytes] using hlt
          · exact hle

theorem deliver_gives {offset : ℕ} {byte : UInt8} (entry : ClientUpdateInfo) (reply : Reply)
    (hbyte : content[offset]? = some byte) :
    (⟨entry, reply, position + offset, byte⟩ : Delivery) ∈ deliver entry reply position content := by
  refine List.mem_map.mpr ⟨(byte, position + offset), ?_, rfl⟩
  exact List.mk_add_mem_zipIdx_iff_getElem?.mpr hbyte

theorem responseAccepted_eq (hreply : s.reply = some reply) (hstate : s.state = .downloading) :
    s.responseAccepted cfg = true ↔ ∃ h, reply.headers = some h ∧ SameOrigin cfg.manifestUrl h.url ∧
      if 0 < s.resumeOffset then h.status = 206 ∧ h.contentRange = rangeText s.resumeOffset s.info.size
      else h.status = 200 := by
  unfold responseAccepted
  rw [hreply]
  simp only [Option.bind_some]
  cases hh : reply.headers with
  | none => simp
  | some h =>
    by_cases horigin : SameOrigin cfg.manifestUrl h.url
    · by_cases hoffset : 0 < s.resumeOffset <;> simp [horigin, hoffset, hstate]
    · simp [horigin]

theorem Sound.downloads_reply (h : Sound qt cfg ds position s) (hs : s.state = .downloading)
    (hreply : s.reply = some reply) : Downloads cfg position s reply := by
  obtain ⟨reply', hd⟩ := h.downloads hs
  obtain rfl : reply' = reply := Option.some_inj.mp (hd.current.symm.trans hreply)
  exact hd

/-- A whole file in place of a range is taken from its first byte. -/
theorem Sound.restart (h : Sound qt cfg ds position s) (hs : s.state = .downloading)
    (hrestarts : s.Restarts cfg) :
    Sound qt cfg ds position { s with
      file := some [], received := 0, resumeOffset := 0, hashed := [] } := by
  obtain ⟨reply, hd⟩ := h.downloads hs
  obtain ⟨hoffset, head, hhead, -, hstatus⟩ := hrestarts
  have hhead' : reply.headers = some head := by
    rw [hd.current] at hhead
    exact hhead
  have hposition : position = 0 := by
    by_contra hne
    obtain ⟨head', hhead'', -, haccepted⟩ :=
      (responseAccepted_eq hd.current hs).mp (hd.accepted (Nat.pos_of_ne_zero hne))
    obtain rfl : head' = head := Option.some_inj.mp (hhead''.symm.trans hhead')
    rw [if_pos hoffset, hstatus] at haccepted
    exact absurd haccepted.1 (by decide)
  exact {
    newer := h.newer
    file := by
      intro content hc
      obtain rfl : [] = content := Option.some_inj.mp hc
      obtain ⟨content, hcontent⟩ := Option.isSome_iff_exists.mp hd.file
      exact ⟨.inr hs, rfl, rfl, Nat.zero_le _, (h.file _ hcontent).2.path,
        fun offset byte hbyte => by cases hbyte⟩
    ready := h.ready
    downloads := fun _ => ⟨reply, {
      current := hd.current
      download := hd.download
      file := rfl
      received := by
        show 0 = 0 + position
        rw [hposition]
      offset := .inr ⟨rfl, head, hhead', hstatus⟩
      accepted := fun hp => absurd hposition hp.ne' }⟩
    committed := h.committed
    replies := h.replies }

/-- The bytes of an accepted reply belong right behind what was received. -/
theorem delivered_append (hd : Downloads cfg position s reply) (hs : s.state = .downloading)
    (hholds : HoldsPrefix cfg ds s content) (haccepted : s.responseAccepted cfg = true)
    (more : Bytes) :
    Delivered cfg s.info (deliver s.info reply position more ++ ds) (content ++ more) := by
  intro offset byte hbyte
  rcases lt_or_ge offset content.length with hlt | hge
  · rw [List.getElem?_append_left hlt] at hbyte
    obtain ⟨d, hmem, hgives⟩ := hholds.delivered offset byte hbyte
    exact ⟨d, List.mem_append_right _ hmem, hgives⟩
  · rw [List.getElem?_append_right hge] at hbyte
    refine ⟨_, List.mem_append_left _ (deliver_gives s.info reply hbyte), rfl, rfl, ?_⟩
    obtain ⟨head, hhead, horigin, hstatus⟩ := (responseAccepted_eq hd.current hs).mp haccepted
    have hoffset : s.resumeOffset + (position + (offset - content.length)) = offset := by
      rw [← Nat.add_assoc, ← hd.received, hholds.received]
      omega
    refine ⟨head, hhead, horigin, ?_⟩
    by_cases hresume : 0 < s.resumeOffset
    · rw [if_pos hresume] at hstatus
      rcases hd.offset with hfrom | ⟨hzero, -⟩
      · rw [hfrom] at hstatus hresume hoffset
        exact .inr ⟨hstatus.1, hresume, hstatus.2, hoffset⟩
      · exact absurd hzero hresume.ne'
    · rw [if_neg hresume] at hstatus
      refine .inl ⟨hstatus, ?_⟩
      show position + (offset - content.length) = offset
      omega

theorem Sound.append (h : Sound qt cfg ds position s) (hs : s.state = .downloading)
    (hreply : s.reply = some reply) (hfile : s.file = some content)
    (haccepted : s.responseAccepted cfg = true) (more : Bytes)
    (hfits : s.received + more.length ≤ s.info.size) :
    Sound qt cfg (deliver s.info reply position more ++ ds) (position + more.length) { s with
      received := s.received + more.length
      file := some (content ++ more)
      hashed := s.hashed ++ more } := by
  have hd := h.downloads_reply hs hreply
  obtain ⟨-, hholds⟩ := h.file content hfile
  exact {
    newer := h.newer
    file := by
      intro content' hc
      obtain rfl : content ++ more = content' := Option.some_inj.mp hc
      refine ⟨.inr hs, ?_, ?_, ?_, hholds.path, delivered_append hd hs hholds haccepted more⟩
      · rw [List.length_append, ← hholds.received]
      · rw [← hholds.hashed]
      · rw [List.length_append, ← hholds.received]
        exact hfits
    ready := h.ready
    downloads := fun _ => ⟨reply, {
      current := hd.current
      download := hd.download
      file := rfl
      received := by
        show s.received + more.length = _
        rw [hd.received, Nat.add_assoc]
      offset := hd.offset
      accepted := fun _ => haccepted }⟩
    committed := h.committed
    replies := h.replies }

/-- Reading the rest of a reply after its head was found good. -/
theorem Sound.readChunks (h : Sound qt cfg ds position s) (hs : s.state = .downloading)
    (hreply : s.reply = some reply) (haccepted : s.responseAccepted cfg = true)
    (hsome : chunks ≠ []) :
    Sound qt cfg (deliver s.info reply position (bytes chunks) ++ ds)
      (position + (bytes chunks).length) (s.readChunks chunks) := by
  obtain ⟨content, hfile⟩ := Option.isSome_iff_exists.mp (h.downloads_reply hs hreply).file
  rcases readChunks_cases chunks hfile with he | ⟨he, hnil | hfits⟩
  · rw [he]
    exact h.fail_false
  · exact absurd hnil hsome
  · rw [he]
    exact h.append hs hreply hfile haccepted _ hfits

/-- The service after the part of `readDownload` that looks at the head. -/
def aligned (cfg : Config) (s : Service) : Service :=
  if s.Restarts cfg then { s with file := some [], received := 0, resumeOffset := 0, hashed := [] }
  else s

@[simp] theorem aligned_state (cfg : Config) (s : Service) : (s.aligned cfg).state = s.state := by
  unfold aligned
  split <;> rfl

@[simp] theorem aligned_reply (cfg : Config) (s : Service) : (s.aligned cfg).reply = s.reply := by
  unfold aligned
  split <;> rfl

@[simp] theorem aligned_info (cfg : Config) (s : Service) : (s.aligned cfg).info = s.info := by
  unfold aligned
  split <;> rfl

theorem aligned_file (cfg : Config) (hfile : s.file.isSome) : (s.aligned cfg).file.isSome := by
  unfold aligned
  split
  · rfl
  · exact hfile

theorem Sound.aligned (h : Sound qt cfg ds position s) (hs : s.state = .downloading) :
    Sound qt cfg ds position (s.aligned cfg) := by
  unfold Service.aligned
  split
  next hrestarts => exact h.restart hs hrestarts
  next => exact h

/-- What a read does when there is something to read. -/
theorem readDownload_cases (cfg : Config) (hfile : s.file.isSome) (hreply : s.reply = some reply)
    (hsome : chunks ≠ []) (truncates : Bool) :
    s.readDownload cfg chunks truncates = s.fail false ∨
      s.readDownload cfg chunks truncates = (s.aligned cfg).fail false ∨
      ((s.aligned cfg).responseAccepted cfg = true ∧
        s.readDownload cfg chunks truncates = (s.aligned cfg).readChunks chunks) := by
  unfold readDownload
  rw [if_neg]
  · split
    · exact .inl rfl
    · refine .inr ?_
      dsimp only
      by_cases haccepted : (s.aligned cfg).responseAccepted cfg = true
      · exact .inr ⟨haccepted, if_neg fun hc => hc haccepted⟩
      · exact .inl (if_pos haccepted)
  · rintro (hc | hc | hc)
    · rw [hreply] at hc
      cases hc
    · rw [hc] at hfile
      cases hfile
    · exact hsome hc

theorem Sound.readDownload (h : Sound qt cfg ds position s) (hs : s.state = .downloading)
    (hreply : s.reply = some reply) (chunks : List Chunk) (truncates : Bool) :
    Sound qt cfg (deliver s.info reply position (bytes chunks) ++ ds)
      (position + (bytes chunks).length) (s.readDownload cfg chunks truncates) := by
  by_cases hsome : chunks = []
  · subst hsome
    unfold Service.readDownload
    rw [if_pos (.inr (.inr rfl))]
    exact h
  · have halign := h.aligned hs
    rcases readDownload_cases cfg (h.downloads_reply hs hreply).file hreply hsome
      truncates with he | he | ⟨haccepted, he⟩
    · rw [he]
      exact h.fail_false
    · rw [he]
      exact halign.fail_false
    · rw [he, ← aligned_info cfg s]
      exact halign.readChunks (by rw [aligned_state, hs]) (by rw [aligned_reply, hreply]) haccepted
        hsome

/-! ## The other inputs -/

theorem Sound.headers (h : Sound qt cfg ds position s) {download : Bool} {rangeFrom : ℕ}
    (hreply : s.reply = some ⟨download, rangeFrom, none⟩) (head : Headers) :
    Sound qt cfg ds position { s with reply := some ⟨download, rangeFrom, some head⟩ } where
  newer := h.newer
  file content hc := by
    obtain ⟨hstate, hholds⟩ := h.file content hc
    exact ⟨hstate, hholds.received, hholds.hashed, hholds.size, hholds.path, hholds.delivered⟩
  ready := h.ready
  downloads hs := by
    have hd := h.downloads_reply hs hreply
    refine ⟨_, rfl, hd.download, hd.file, hd.received, ?_, fun hposition => ?_⟩
    · rcases hd.offset with hfrom | ⟨-, _, hnone, -⟩
      · exact .inl hfrom
      · cases hnone
    · -- nothing was read before the head was there
      obtain ⟨_, hnone, -⟩ := (responseAccepted_eq hd.current hs).mp (hd.accepted hposition)
      cases hnone
  committed := h.committed
  replies reply hr := by
    obtain rfl := Option.some_inj.mp hr
    have hbefore := h.replies _ hreply
    exact hbefore

theorem Sound.check (h : Sound qt cfg ds position s) : Sound qt cfg ds position (s.check cfg) := by
  unfold Service.check
  split
  · exact h
  · next hidle =>
    dsimp only
    split
    · rw [fail_false_eq]
      exact sound_discarded rfl rfl rfl (.inl (if_neg fun hs => hidle (.inr hs)))
    · exact {
        newer := by rintro (hs | hs | hs) <;> cases hs
        file := fun _ hc => by cases hc
        ready := fun hs => by cases hs
        downloads := fun hs => by cases hs
        committed := fun hc => by cases hc
        replies := by
          intro reply hr
          obtain rfl := Option.some_inj.mp hr
          exact .inl ⟨rfl, rfl⟩ }

/-- A new file, with nothing in it. -/
theorem Sound.create (h : Sound qt cfg ds position s) (hs : s.state = .available) :
    Sound qt cfg ds position { s with
      committed := none, readyPath := installerName cfg.android s.info.version, file := some []
      received := 0, hashed := [] } where
  newer := h.newer
  file content hc := by
    obtain rfl : [] = content := Option.some_inj.mp hc
    exact ⟨.inl hs, rfl, rfl, Nat.zero_le _, rfl, fun offset byte hbyte => by cases hbyte⟩
  ready hr := by
    rw [show s.state = .ready from hr] at hs
    cases hs
  downloads hr := by
    rw [show s.state = .downloading from hr] at hs
    cases hs
  committed hc := by cases hc
  replies := h.replies

/-- The request asks for what is missing. -/
theorem Sound.request (h : Sound qt cfg ds position s) (hs : s.state = .available)
    (hfile : s.file.isSome) :
    Sound qt cfg ds 0 { s with
      resumeOffset := s.received, state := .downloading
      reply := some ⟨true, s.received, none⟩, deadline := true } where
  newer _ := h.newer (.inl hs)
  file content hc := by
    obtain ⟨-, hholds⟩ := h.file content hc
    exact ⟨.inr rfl, hholds.received, hholds.hashed, hholds.size, hholds.path, hholds.delivered⟩
  ready hr := by cases hr
  downloads _ := ⟨_, rfl, rfl, hfile, rfl, .inl rfl, fun hp => absurd hp (lt_irrefl 0)⟩
  committed hc := by
    rw [h.committed hc] at hs
    cases hs
  replies reply hr := by
    obtain rfl := Option.some_inj.mp hr
    exact .inr ⟨rfl, rfl⟩

theorem Sound.download (h : Sound qt cfg ds position s) (cacheReady fileOpens : Bool) :
    Sound qt cfg ds (if s.state = .available then 0 else position)
      (s.download cfg cacheReady fileOpens) := by
  unfold Service.download
  by_cases hs : s.state = .available
  · rw [if_neg (not_not.mpr hs), if_pos hs]
    split
    · exact h.fail_false
    · split
      · exact h.fail_false
      · dsimp only
        split
        next => exact (h.create hs).request hs rfl
        next hfile => exact h.request hs (Option.isSome_iff_ne_none.mpr hfile)
  · rw [if_pos hs, if_neg hs]
    exact h

theorem Sound.cancel (h : Sound qt cfg ds position s) : Sound qt cfg ds position s.cancel := by
  unfold Service.cancel
  dsimp only
  split
  next hpartial => exact h.pause hpartial.1
  next =>
    refine sound_discarded rfl rfl rfl ?_
    dsimp only
    split
    next hs => exact .inr ⟨rfl, h.newer (.inr hs)⟩
    next => exact .inl rfl

theorem Sound.readManifest (h : Sound qt cfg ds position s) (chunks : List Chunk) :
    Sound qt cfg ds position (s.readManifest chunks) where
  newer := h.newer
  file content hc := by
    obtain ⟨hstate, hholds⟩ := h.file content hc
    exact ⟨hstate, hholds.received, hholds.hashed, hholds.size, hholds.path, hholds.delivered⟩
  ready := h.ready
  downloads hs := by
    obtain ⟨reply, hd⟩ := h.downloads hs
    exact ⟨reply, hd.current, hd.download, hd.file, hd.received, hd.offset, hd.accepted⟩
  committed := h.committed
  replies := h.replies

theorem Sound.manifestData (h : Sound qt cfg ds position s) (chunks : List Chunk) :
    Sound qt cfg ds position (s.manifestData chunks) := by
  unfold Service.manifestData
  dsimp only
  split
  · exact (h.readManifest chunks).fail_false
  · exact h.readManifest chunks

/-- While the manifest is fetched there is no package. -/
theorem Sound.checking (h : Sound qt cfg ds position s) (hs : s.state = .checking) :
    s.file = none ∧ s.committed = none := by
  constructor
  · by_contra hfile
    obtain ⟨content, hcontent⟩ := Option.ne_none_iff_exists'.mp hfile
    rcases (h.file content hcontent).1 with hs' | hs' <;> (rw [hs] at hs'; cases hs')
  · by_contra hcommitted
    have hs' := h.committed (Option.isSome_iff_ne_none.mpr hcommitted)
    rw [hs] at hs'
    cases hs'

theorem Sound.manifestFinished (h : Sound qt cfg ds position s) (hs : s.state = .checking)
    (chunks : List Chunk) (error : Bool) :
    Sound qt cfg ds position (s.manifestFinished qt cfg chunks error) := by
  have hread := h.readManifest chunks
  obtain ⟨hfile, hcommitted⟩ := h.checking hs
  unfold Service.manifestFinished
  dsimp only
  split
  · exact hread.fail_false
  · split
    next => exact hread.fail_false
    next info _ =>
      refine sound_discarded hfile hcommitted rfl ?_
      dsimp only
      split
      next hnewer => exact .inr ⟨rfl, hnewer⟩
      next => exact .inl rfl

/-- The file that is committed is the one that was checked. -/
theorem Sound.commit (h : Sound qt cfg ds position s) (hs : s.state = .downloading)
    (hreceived : s.received = s.info.size) (hsha : qt.sha256 s.hashed = s.info.sha256) :
    Sound qt cfg ds position
      { { s with committed := s.file, file := none }.stopReply with state := .ready } where
  newer _ := h.newer (.inr (.inl hs))
  file content hc := by cases hc
  ready _ := by
    obtain ⟨reply, hd⟩ := h.downloads hs
    obtain ⟨content, hcontent⟩ := Option.isSome_iff_exists.mp hd.file
    obtain ⟨-, hholds⟩ := h.file content hcontent
    refine ⟨content, hcontent, ?_, ?_, hholds.path⟩
    · exact hholds.received.symm.trans hreceived
    · rw [← hholds.hashed]
      exact hsha
  downloads hr := by cases hr
  committed _ := rfl
  replies reply hr := by cases hr

/-- A read that keeps the reply is one that did not fail. -/
theorem readDownload_state (hfile : s.file.isSome) (hreply : s.reply = some reply)
    (chunks : List Chunk) (truncates : Bool)
    (hopen : (s.readDownload cfg chunks truncates).reply ≠ none) :
    (s.readDownload cfg chunks truncates).state = s.state := by
  by_cases hsome : chunks = []
  · subst hsome
    unfold readDownload
    rw [if_pos (.inr (.inr rfl))]
  · rcases readDownload_cases cfg hfile hreply hsome truncates with he | he | ⟨-, he⟩
    · rw [he] at hopen
      exact absurd (fail_false_discards s).2.2 hopen
    · rw [he] at hopen
      exact absurd (fail_false_discards _).2.2 hopen
    · rw [he] at hopen ⊢
      obtain ⟨content, hcontent⟩ := Option.isSome_iff_exists.mp (aligned_file cfg hfile)
      rcases readChunks_cases chunks hcontent with he | ⟨he, -⟩
      · rw [he] at hopen
        exact absurd (fail_false_discards _).2.2 hopen
      · rw [he]
        exact aligned_state cfg s

theorem Sound.downloadFinished (h : Sound qt cfg ds position s) (hs : s.state = .downloading)
    (hreply : s.reply = some reply) (chunks : List Chunk) (truncates error commits : Bool) :
    Sound qt cfg (deliver s.info reply position (bytes chunks) ++ ds)
      (position + (bytes chunks).length)
      (s.downloadFinished qt cfg chunks truncates error commits) := by
  have hread := h.readDownload hs hreply chunks truncates
  unfold Service.downloadFinished
  dsimp only
  split
  next => exact hread
  next hsome =>
    split
    next => exact hread.fail error
    next =>
      split
      next => exact hread.fail_false
      next hchecked =>
        obtain ⟨hreceived, hsha⟩ := not_or.mp hchecked
        split
        next => exact hread.fail_false
        next =>
          have hs' := readDownload_state (h.downloads_reply hs hreply).file hreply chunks truncates hsome
          exact hread.commit (hs'.trans hs) (not_not.mp hreceived) (not_not.mp hsha)

end Service

/-! ## Runs -/

section
variable {qt : Qt} {cfg : Config}

def Run.Sound (qt : Qt) (cfg : Config) (r : Run) : Prop :=
  r.service.Sound qt cfg r.deliveries r.position

theorem read_download {r : Run} {reply : Reply} (hreply : r.service.reply = some reply)
    (hdownload : reply.download = true) (chunks : List Service.Chunk) :
    r.read chunks = (deliver r.service.info reply r.position (bytes chunks) ++ r.deliveries,
      r.position + (bytes chunks).length) := by
  unfold Run.read
  rw [hreply]
  exact if_pos hdownload

theorem read_manifest {r : Run} {reply : Reply} (hreply : r.service.reply = some reply)
    (hdownload : ¬ reply.download = true) (chunks : List Service.Chunk) :
    r.read chunks = (r.deliveries, r.position) := by
  unfold Run.read
  rw [hreply]
  exact if_neg hdownload

/-- One input: the reply says which of the two requests is running. -/
theorem Run.Sound.next {r r' : Run} {input : Input} (h : r.Sound qt cfg)
    (hstep : r.next qt cfg input = some r') : r'.Sound qt cfg := by
  obtain ⟨t, ht, rfl⟩ := Option.map_eq_some_iff.mp hstep
  cases input with
  | check =>
    obtain rfl := Option.some_inj.mp ht
    exact h.check
  | download cacheReady fileOpens =>
    obtain rfl := Option.some_inj.mp ht
    exact h.download cacheReady fileOpens
  | cancel =>
    obtain rfl := Option.some_inj.mp ht
    exact h.cancel
  | deadline =>
    simp only [Service.handle, Option.ite_none_right_eq_some, Option.some_inj] at ht
    obtain ⟨-, rfl⟩ := ht
    exact h.fail _
  | headers head =>
    unfold Service.handle at ht
    dsimp only at ht
    split at ht
    next hreply =>
      obtain rfl := Option.some_inj.mp ht
      exact h.headers hreply head
    next => cases ht
  | data chunks truncates =>
    simp only [Service.handle, Option.ite_none_left_eq_some, Option.map_eq_some_iff] at ht
    obtain ⟨-, reply, hreply, rfl⟩ := ht
    show Service.Sound qt cfg (r.read chunks).1 (r.read chunks).2 _
    rcases h.replies reply hreply with ⟨hs, hkind⟩ | ⟨hs, hkind⟩
    · rw [read_manifest hreply (by rw [hkind]; decide), if_neg (by rw [hkind]; decide)]
      exact h.manifestData chunks
    · rw [read_download hreply hkind, if_pos hkind]
      exact h.readDownload hs hreply chunks truncates
  | finished chunks truncates error commits =>
    simp only [Service.handle, Option.ite_none_left_eq_some, Option.map_eq_some_iff] at ht
    obtain ⟨-, reply, hreply, rfl⟩ := ht
    show Service.Sound qt cfg (r.read chunks).1 (r.read chunks).2 _
    rcases h.replies reply hreply with ⟨hs, hkind⟩ | ⟨hs, hkind⟩
    · rw [read_manifest hreply (by rw [hkind]; decide), if_neg (by rw [hkind]; decide)]
      exact h.manifestFinished hs chunks error
    · rw [read_download hreply hkind, if_pos hkind]
      exact h.downloadFinished hs hreply chunks truncates error commits

theorem sound_invariant (qt : Qt) (cfg : Config) :
    (machine qt cfg).Invariant (Run.Sound qt cfg) where
  init := by
    rintro r rfl
    exact Service.sound_start qt cfg
  step _ _ _ _ h hstep := h.next hstep

/-! ## What discards a package -/

/-- The body that an input brings. -/
def Input.body : Input → List Service.Chunk
  | .data chunks _ | .finished chunks _ _ _ => chunks
  | _ => []

def Discarded (s : Service) : Prop := s.file = none ∧ s.committed = none

namespace Service
variable {s t : Service} {ds : List Delivery} {position : ℕ} {reply : Reply}

theorem discarded_fail (s : Service) : Discarded (s.fail false) :=
  ⟨(fail_false_discards s).1, (fail_false_discards s).2.1⟩

theorem acceptable_of_accepted (hd : Downloads cfg position s reply) (hs : s.state = .downloading)
    (haccepted : (s.aligned cfg).responseAccepted cfg = true) : Acceptable cfg s.info reply := by
  obtain ⟨head, hhead, horigin, hstatus⟩ := (responseAccepted_eq (s := s.aligned cfg)
    ((aligned_reply cfg s).trans hd.current) ((aligned_state cfg s).trans hs)).mp haccepted
  refine ⟨head, hhead, horigin, ?_⟩
  by_cases hoffset : 0 < (s.aligned cfg).resumeOffset
  · rw [if_pos hoffset, aligned_info] at hstatus
    have hkept : s.aligned cfg = s := by
      unfold aligned at hoffset ⊢
      split at hoffset
      · cases hoffset
      · next h => exact if_neg h
    rw [hkept] at hstatus hoffset
    rcases hd.offset with hfrom | ⟨hzero, -⟩
    · rw [hfrom] at hstatus hoffset
      exact .inr ⟨hstatus.1, hoffset, hstatus.2⟩
    · exact absurd hzero hoffset.ne'
  · rw [if_neg hoffset] at hstatus
    exact .inl hstatus

theorem aligned_received (s : Service) :
    (s.aligned cfg).received = if s.Restarts cfg then 0 else s.received := by
  unfold aligned
  split <;> rfl

/-- A body that may not be used, or is more than there should be, is not kept. -/
theorem readDownload_discards (h : Sound qt cfg ds position s) (hs : s.state = .downloading)
    (hreply : s.reply = some reply) {chunks : List Chunk} (hsome : chunks ≠ []) (truncates : Bool)
    (hbad : ¬ Acceptable cfg s.info reply ∨
      s.info.size < (if s.Restarts cfg then 0 else s.received) + (bytes chunks).length) :
    ∃ u : Service, s.readDownload cfg chunks truncates = u.fail false := by
  have hd := h.downloads_reply hs hreply
  rcases readDownload_cases cfg hd.file hreply hsome truncates with
    he | he | ⟨haccepted, he⟩
  · exact ⟨_, he⟩
  · exact ⟨_, he⟩
  · obtain ⟨content, hcontent⟩ := Option.isSome_iff_exists.mp (aligned_file cfg hd.file)
    rcases readChunks_cases chunks hcontent with hr | ⟨-, hnil | hfits⟩
    · exact ⟨_, he.trans hr⟩
    · exact absurd hnil hsome
    · rcases hbad with hrejected | hover
      · exact absurd (acceptable_of_accepted hd hs haccepted) hrejected
      · rw [aligned_received, aligned_info] at hfits
        exact absurd hover (not_lt.mpr hfits)

theorem downloadFinished_of_failed {u : Service} {chunks : List Chunk} {truncates : Bool}
    (hfail : s.readDownload cfg chunks truncates = u.fail false) (error commits : Bool) :
    s.downloadFinished qt cfg chunks truncates error commits = u.fail false := by
  unfold downloadFinished
  rw [hfail]
  exact if_pos (fail_false_discards u).2.2

/-- The end of a transfer without an error leaves a checked package or none. -/
theorem downloadFinished_checked (qt : Qt) (s : Service) (chunks : List Chunk)
    (truncates commits : Bool) (hfile : s.file.isSome) (hreply : s.reply = some reply) :
    (s.downloadFinished qt cfg chunks truncates false commits).state = .ready ∨
      Discarded (s.downloadFinished qt cfg chunks truncates false commits) := by
  unfold downloadFinished
  dsimp only
  split
  next hnone =>
    by_cases hsome : chunks = []
    · subst hsome
      unfold readDownload at hnone
      rw [if_pos (.inr (.inr rfl)), hreply] at hnone
      cases hnone
    · rcases readDownload_cases cfg hfile hreply hsome truncates with he | he | ⟨-, he⟩
      · exact .inr (he ▸ discarded_fail s)
      · exact .inr (he ▸ discarded_fail _)
      · obtain ⟨content, hcontent⟩ := Option.isSome_iff_exists.mp (aligned_file cfg hfile)
        rcases readChunks_cases chunks hcontent with hr | ⟨hr, -⟩
        · exact .inr (he.trans hr ▸ discarded_fail _)
        · rw [he, hr, show (s.aligned cfg).reply = some reply from (aligned_reply cfg s).trans hreply]
            at hnone
          cases hnone
  next =>
    split
    next => exact .inr (discarded_fail _)
    next =>
      split
      next => exact .inr (discarded_fail _)
      next =>
        split
        next => exact .inr (discarded_fail _)
        next => exact .inl rfl

theorem check_discards (hidle : s.state ≠ .checking) (hstop : s.state ≠ .downloading) :
    Discarded (s.check cfg) := by
  unfold check
  rw [if_neg (not_or.mpr ⟨hidle, hstop⟩)]
  dsimp only
  split
  · exact discarded_fail _
  · exact ⟨rfl, rfl⟩

end Service

/-- What holds of the service after every run. -/
structure UpdateSafe (qt : Qt) (cfg : Config) (r : Run) : Prop where
  newer : r.service.state = .available ∨ r.service.state = .downloading ∨
    r.service.state = .ready → Newer r.service.info.version cfg.currentVersion
  ready : r.service.state = .ready → ∃ content, r.service.committed = some content ∧
    content.length = r.service.info.size ∧ qt.sha256 content = r.service.info.sha256 ∧
    r.service.readyPath = installerName cfg.android r.service.info.version
  partialFile : ∀ content, r.service.file = some content →
    r.service.received = content.length ∧ r.service.hashed = content ∧
      content.length ≤ r.service.info.size ∧
      Delivered cfg r.service.info r.deliveries content
  rejected : ∀ input t reply, r.service.handle qt cfg input = some t →
    r.service.reply = some reply → reply.download = true → input.body ≠ [] →
      ¬ Acceptable cfg r.service.info reply → Discarded t
  overflow : ∀ input t reply, r.service.handle qt cfg input = some t →
    r.service.reply = some reply → reply.download = true → input.body ≠ [] →
      r.service.info.size < (if r.service.Restarts cfg then 0 else r.service.received) +
        (bytes input.body).length → Discarded t
  checked : ∀ chunks truncates commits t reply,
    r.service.handle qt cfg (.finished chunks truncates false commits) = some t →
      r.service.reply = some reply → reply.download = true → t.state = .ready ∨ Discarded t
  renewed : r.service.state ≠ .checking → r.service.state ≠ .downloading → ∀ t,
    r.service.handle qt cfg .check = some t → Discarded t

/-- A bad body is dropped with everything before it, whichever event brings it. -/
theorem Run.Sound.discards {r : Run} (h : r.Sound qt cfg) {input : Input} {t : Service}
    {reply : Reply} (ht : r.service.handle qt cfg input = some t)
    (hreply : r.service.reply = some reply) (hdownload : reply.download = true)
    (hbody : input.body ≠ [])
    (hbad : ¬ Acceptable cfg r.service.info reply ∨
      r.service.info.size < (if r.service.Restarts cfg then 0 else r.service.received) +
        (bytes input.body).length) : Discarded t := by
  have hs : r.service.state = .downloading := by
    rcases h.replies reply hreply with ⟨-, hkind⟩ | ⟨hs, -⟩
    · rw [hdownload] at hkind
      cases hkind
    · exact hs
  cases input with
  | check | download | cancel | deadline | headers => exact absurd rfl hbody
  | data chunks truncates =>
    simp only [Service.handle, Option.ite_none_left_eq_some, hreply, Option.map_some,
      if_pos hdownload, Option.some_inj] at ht
    obtain ⟨-, rfl⟩ := ht
    obtain ⟨u, hu⟩ : ∃ u : Service, r.service.readDownload cfg chunks truncates = u.fail false :=
      Service.readDownload_discards h hs hreply hbody truncates hbad
    rw [hu]
    exact Service.discarded_fail u
  | finished chunks truncates error commits =>
    simp only [Service.handle, Option.ite_none_left_eq_some, hreply, Option.map_some,
      if_pos hdownload, Option.some_inj] at ht
    obtain ⟨-, rfl⟩ := ht
    obtain ⟨u, hu⟩ : ∃ u : Service, r.service.readDownload cfg chunks truncates = u.fail false :=
      Service.readDownload_discards h hs hreply hbody truncates hbad
    rw [Service.downloadFinished_of_failed hu]
    exact Service.discarded_fail u

theorem update_safe (qt : Qt) (cfg : Config) {r : Run} (hr : (machine qt cfg).Reachable r) :
    UpdateSafe qt cfg r := by
  have h : r.Sound qt cfg := (sound_invariant qt cfg).reachable hr
  refine {
    newer := h.newer
    ready := h.ready
    partialFile := fun content hc => ?_
    rejected := fun input t reply ht hreply hkind hbody hbad =>
      h.discards ht hreply hkind hbody (.inl hbad)
    overflow := fun input t reply ht hreply hkind hbody hbad =>
      h.discards ht hreply hkind hbody (.inr hbad)
    checked := fun chunks truncates commits t reply ht hreply hkind => ?_
    renewed := fun hidle hstop t ht => ?_ }
  · obtain ⟨-, hholds⟩ := h.file content hc
    exact ⟨hholds.received, hholds.hashed, hholds.size, hholds.delivered⟩
  · have hfile : r.service.file.isSome := by
      rcases h.replies reply hreply with ⟨-, hno⟩ | ⟨hs, -⟩
      · rw [hkind] at hno
        cases hno
      · exact (h.downloads_reply hs hreply).file
    simp only [Service.handle, Option.ite_none_left_eq_some, hreply, Option.map_some,
      if_pos hkind, Option.some_inj] at ht
    obtain ⟨-, rfl⟩ := ht
    exact Service.downloadFinished_checked qt r.service chunks truncates commits hfile hreply
  · obtain rfl := Option.some_inj.mp ht
    exact Service.check_discards hidle hstop

end

/-! ## An interrupted download that is continued -/

def sampleManifestUrl : Url :=
  ⟨true, "https", "chat.example", none, "", "/updates/windows/latest.json", false, false⟩

def samplePackageUrl : Url :=
  ⟨true, "https", "chat.example", none, "", "/updates/windows/CppChat.exe", false, false⟩

def sampleSha256 : String := "6951bbd9c2178b2a9d01714687307afda1eb6161ff8c398486a76683e7b42925"

def sampleJson : Bytes :=
  ("\x7b\"version\":\"1.2.0\",\"downloadUrl\":\"CppChat.exe\",\"size\":3,\"sha256\":\"" ++
    sampleSha256 ++ "\"\x7d").toList.map fun c => UInt8.ofNat c.toNat

/-- Qt on the texts of the run. -/
def sampleQt : Qt where
  fromJson json := if json = sampleJson then
    .object [("version", .str "1.2.0"), ("downloadUrl", .str "CppChat.exe"), ("size", .num 3),
      ("sha256", .str sampleSha256)]
    else .malformed
  resolved base path := if path = "CppChat.exe" then samplePackageUrl else base
  size := String.length
  trimmedEmpty text := text.toList.all Char.isWhitespace
  latin1Lower := id
  endsWith path suffix := suffix.toList.isSuffixOf path.toList
  sha256 content := if content = [10, 20, 30] then sampleSha256 else ""

def sampleConfig : Config := ⟨sampleManifestUrl, "1.1.9", false⟩

def sampleInputs : List Input :=
  [.check, .headers ⟨sampleManifestUrl, 200, ""⟩, .finished [(sampleJson, true)] true false true,
    .download true true, .headers ⟨samplePackageUrl, 200, ""⟩, .data [([10], true)] true, .cancel,
    .download true true, .headers ⟨samplePackageUrl, 206, "bytes 1-2/3"⟩,
    .finished [([20, 30], true)] true false true]

theorem update_safe_sample :
    ((Machine.runFn (Run.next sampleQt sampleConfig) {} sampleInputs).map fun r =>
      (r.service.state, r.service.committed)) = some (.ready, some [10, 20, 30]) ∧
    ∀ r, Machine.runFn (Run.next sampleQt sampleConfig) {} sampleInputs = some r →
      UpdateSafe sampleQt sampleConfig r :=
  ⟨by decide +kernel, fun _ hr => update_safe _ _ (Machine.Reachable.runFn (.init rfl) hr)⟩

end CppChat.Update
