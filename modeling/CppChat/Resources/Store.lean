import CppChat.Foundation.Transition
import CppChat.Resources.Files

/-! # The resource store

The three requests of `ResourceStore.cpp` for one file id, which its lock takes one after
another. The digest is a parameter; the group member check answers for the user who asks.
-/
namespace CppChat.Resources
open Foundation Faults

def chunkSize : ℕ := 32 * 1024
def maximumImageSize : ℕ := 20 * 1024 * 1024

inductive Reply
  | error (message : String) (offset : Option ℕ)
  | upload (offset : ℕ) (complete : Bool)
  | download (offset size : ℕ) (sha256 : String) (data : Bytes) (complete : Bool)
  deriving DecidableEq

structure InitRequest where
  recipient : ℤ
  threadId : ℤ
  mediaType : ℤ
  size : ℕ
  sha256 : String
  deriving DecidableEq

def hexDigit (c : Char) : Bool :=
  '0' ≤ c ∧ c ≤ '9' ∨ 'a' ≤ c ∧ c ≤ 'f' ∨ 'A' ≤ c ∧ c ≤ 'F'

namespace InitRequest

/-- The checks before anything is read. -/
def valid (r : InitRequest) (uid : ℤ) : Bool :=
  ¬ (r.threadId < 0) ∧
    (if 0 < r.threadId then r.recipient = 0 else ¬ (r.recipient ≤ 0) ∧ r.recipient ≠ uid) ∧
    (r.mediaType = 1 ∨ r.mediaType = 2 ∨ r.mediaType = 3) ∧ r.size ≠ 0 ∧
    r.size ≤ maximumImageSize ∧
    (r.mediaType = 3 → waveHeaderBytes + minPcmBytes ≤ r.size ∧
      r.size ≤ waveHeaderBytes + maxPcmBytes) ∧
    r.sha256.length = 64 ∧ r.sha256.toList.all hexDigit

def «meta» (r : InitRequest) (uid : ℤ) : Meta :=
  ⟨uid, r.recipient, r.threadId, r.mediaType, r.size, r.sha256⟩

end InitRequest

variable (sha256 : Bytes → String)

/-- The part is as long as the file, has its digest and is a wave if it is to be one. -/
def partComplete (m : Meta) : Io Bool := do
  if (← fileSize .partSizeAgain Folder.part) ≠ m.size then pure false
  else if (← sha256Of sha256 .partSha Folder.part) ≠ m.sha256 then pure false
  else if m.mediaType ≠ 3 then pure true
  else validWaveOf .partWave Folder.part

/-- A part that is long enough becomes the file, or goes. -/
def settlePart (m : Meta) : Io Bool := do
  if ← fileExists .partExists Folder.part then
    if m.size ≤ (← fileSize .partSize Folder.part) then
      if ← partComplete sha256 m then
        renamePart
        pure true
      else
        removePart
        pure false
    else pure false
  else pure false

def partOffset : Io ℕ := do
  if ← fileExists .offsetExists Folder.part then fileSize .offsetSize Folder.part else pure 0

/-- Audio has to be a wave. -/
def waveIn (i : Site) (get : Folder → Option Bytes) (m : Meta) : Io Bool :=
  if m.mediaType = 3 then validWaveOf i get else pure true

def publish (m : Meta) : Io Reply := do
  if ¬ (← markReady m.ready) then pure (.error "Redis is unavailable" none)
  else pure (.upload m.size true)

/-- The finished file is there, or the part is and becomes it. -/
def settle (m : Meta) : Io Bool := do
  if ← fileExists .doneExists Folder.bin then pure true else settlePart sha256 m

/-- The rest of `UploadInit`, once there is metadata. -/
def resumeUpload (m : Meta) : Io Reply := do
  if ← settle sha256 m then
    if ¬ (← waveIn .doneWave Folder.bin m) then pure (.error "invalid PCM wave" none)
    else publish m
  else pure (.upload (← partOffset) false)

def uploadInit (uid : ℤ) (member : ℤ → Bool) (r : InitRequest) : Io Reply :=
  if ¬ r.valid uid then pure (.error "invalid image metadata" none)
  else if 0 < r.threadId ∧ ¬ member r.threadId then pure (.error "group access denied" none)
  else do
    match ← readMeta with
    | none =>
      writeMeta (r.meta uid)
      resumeUpload sha256 (r.meta uid)
    | some m =>
      if m ≠ r.meta uid then pure (.error "file id belongs to another upload" none)
      else resumeUpload sha256 m

/-- The file is there in full: its checks, the new name and the ready record. -/
def finishPart (m : Meta) : Io Reply := do
  if (← sha256Of sha256 .partSha Folder.part) ≠ m.sha256 then
    removePart
    pure (.error "image checksum mismatch" none)
  else if ¬ (← waveIn .partWave Folder.part m) then
    removePart
    pure (.error "invalid PCM wave" none)
  else
    renamePart
    publish m

/-- `bytes` is what the Base64 text decodes to, nothing when it is malformed. -/
def uploadChunk (uid : ℤ) (member : ℤ → Bool) (requested : ℕ) (bytes : Bytes) : Io Reply := do
  match ← readMeta with
  | none => pure (.error "upload not initialized" none)
  | some m =>
    if m.uid ≠ uid then pure (.error "upload not initialized" none)
    else if 0 < m.threadId ∧ ¬ member m.threadId then pure (.error "group access denied" none)
    else if ← fileExists .doneExists Folder.bin then publish m
    else
      let offset ← partOffset
      if requested ≠ offset then pure (.error "offset mismatch" (some offset))
      else if bytes = [] ∨ chunkSize < bytes.length ∨ m.size < offset + bytes.length then
        pure (.error "invalid chunk" none)
      else if ¬ (← openPart) then pure (.error "cannot open upload file" none)
      else if ¬ (← writePart bytes) then pure (.error "upload write failed" none)
      else if offset + bytes.length = m.size then finishPart sha256 m
      else pure (.upload (offset + bytes.length) false)

/-- Fewer bytes when the read fails. -/
def readDone (offset count : ℕ) : Io Bytes := .op .readDone fun
  | .done, d => (.ok (((d.here.bin.getD []).drop offset).take count), d)
  | .fails n, d => (.ok ((((d.here.bin.getD []).drop offset).take count).take n), d)
  | .crashes _, d => (.error .crashed, d)

def openDone : Io Bool := .tryLook .openDone (fun d => d.here.bin.isSome) false

def download (uid : ℤ) (member : ℤ → Bool) (offset : ℕ) : Io Reply := do
  match ← readMeta with
  | none => pure (.error "access denied" none)
  | some m =>
    if (if 0 < m.threadId then ¬ member m.threadId else m.uid ≠ uid ∧ m.recipient ≠ uid) then
      pure (.error "access denied" none)
    else if ¬ (← fileExists .doneExists Folder.bin) then pure (.error "image is not ready" none)
    else if m.size < offset then pure (.error "invalid download offset" none)
    else if ¬ (← openDone) then pure (.error "cannot read image" none)
    else
      let bytes ← readDone offset (min chunkSize (m.size - offset))
      pure (.download (offset + bytes.length) m.size m.sha256 bytes
        (offset + bytes.length = m.size))

/-! ## Runs -/

inductive Request
  | init (r : InitRequest)
  | chunk (offset : ℕ) (bytes : Bytes)
  | download (offset : ℕ)

/-- A request of an authenticated user, with the answers about groups and the fates of its
operations. -/
structure Action where
  uid : ℤ
  member : ℤ → Bool
  request : Request
  plan : Site → Fate

/-- A chunk that was sent. -/
structure Chunk where
  uid : ℤ
  offset : ℕ
  bytes : Bytes
  deriving DecidableEq

structure State where
  disk : Disk
  chunks : List Chunk

def handle (a : Action) : Io Reply :=
  match a.request with
  | .init r => uploadInit sha256 a.uid a.member r
  | .chunk offset bytes => uploadChunk sha256 a.uid a.member offset bytes
  | .download offset => download a.uid a.member offset

def perform (a : Action) : Io Reply := do
  let reply ← handle sha256 a
  Faulty.look .send fun _ => reply

/-- The reply of an action, unless an exception or a crash took it away. -/
def State.reply (s : State) (a : Action) : Option Reply :=
  ((perform sha256 a) a.plan s.disk).1.toOption

def State.step (s : State) (a : Action) : Option State := some {
  disk := ((perform sha256 a) a.plan s.disk).2
  chunks := match a.request with
    | .chunk offset bytes => ⟨a.uid, offset, bytes⟩ :: s.chunks
    | _ => s.chunks }

def emptyDisk : Disk := ⟨fun _ => ⟨none, none, none⟩, none⟩

/-- All runs of requests for the id, in any order, by any users, with any faults. -/
def store : Machine State Action :=
  .ofFn (fun s => s = ⟨emptyDisk, []⟩) (State.step sha256)

end CppChat.Resources
