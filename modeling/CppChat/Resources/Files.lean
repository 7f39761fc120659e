import Mathlib.Data.Int.Order.Basic
import Mathlib.Logic.Function.Basic
import CppChat.Foundation.Faults

/-! # The files of one resource

A resource has at most three files in one of four folders: its metadata, the part that was
uploaded so far, and the finished file. Beside them stands the ready record.
-/
namespace CppChat.Resources
open Foundation Faults

abbrev Bytes := List UInt8

/-! ## Wave files -/

def waveHeaderBytes : ℕ := 44
def pcmBytesPerSecond : ℕ := 32000
def minPcmBytes : ℕ := pcmBytesPerSecond
def maxPcmBytes : ℕ := pcmBytesPerSecond * 60

def ascii (text : String) : Bytes := text.toList.map fun c => UInt8.ofNat c.toNat

def readLittle (bytes : Bytes) (offset count : ℕ) : ℕ :=
  ((bytes.drop offset).take count).foldr (fun b value => b.toNat + 256 * value) 0

def waveDurationMs (header : Bytes) (totalBytes : ℕ) : ℕ :=
  if header.length < waveHeaderBytes ∨ totalBytes < waveHeaderBytes + minPcmBytes ∨
      waveHeaderBytes + maxPcmBytes < totalBytes ∨ (totalBytes - waveHeaderBytes) % 2 ≠ 0 then 0
  else if header.take 4 ≠ ascii "RIFF" ∨ readLittle header 4 4 ≠ totalBytes - 8 ∨
      (header.drop 8).take 8 ≠ ascii "WAVEfmt " ∨ readLittle header 16 4 ≠ 16 ∨
      readLittle header 20 2 ≠ 1 ∨ readLittle header 22 2 ≠ 1 ∨ readLittle header 24 4 ≠ 16000 ∨
      readLittle header 28 4 ≠ pcmBytesPerSecond ∨ readLittle header 32 2 ≠ 2 ∨
      readLittle header 34 2 ≠ 16 ∨ (header.drop 36).take 4 ≠ ascii "data" ∨
      readLittle header 40 4 ≠ totalBytes - waveHeaderBytes then 0
  else (totalBytes - waveHeaderBytes) * 1000 / pcmBytesPerSecond

def validWave (content : Bytes) : Bool :=
  waveHeaderBytes ≤ content.length ∧ 0 < waveDurationMs (content.take waveHeaderBytes) content.length

/-! ## Files and folders -/

/-- `mediaType` is 1 for an image, 2 for a document and 3 for audio; a group has a
`threadId` above 0. -/
structure Meta where
  uid : ℤ
  recipient : ℤ
  threadId : ℤ
  mediaType : ℤ
  size : ℕ
  sha256 : String
  deriving DecidableEq

/-- A metadata file as the JSON reader sees it: a text cut short is no JSON. -/
inductive Doc
  | cut
  | whole (content : Meta)
  deriving DecidableEq

inductive Dir
  | root
  | groups
  | audio
  | files
  deriving DecidableEq

structure Folder where
  json : Option Doc
  part : Option Bytes
  bin : Option Bytes

structure Disk where
  folder : Dir → Folder
  ready : Option String

def Meta.dir (m : Meta) : Dir :=
  if m.mediaType = 2 then .files
  else if m.mediaType = 3 then .audio
  else if 0 < m.threadId then .groups
  else .root

namespace Disk

/-- The folder that `MetaPath` finds. -/
def current (d : Disk) : Dir :=
  if (d.folder .files).json.isSome then .files
  else if (d.folder .audio).json.isSome then .audio
  else if (d.folder .groups).json.isSome then .groups
  else .root

def here (d : Disk) : Folder := d.folder d.current

/-- The metadata, when there is a file of it and it can be read. -/
def parsed (d : Disk) : Option Meta :=
  match d.here.json with
  | some (.whole m) => some m
  | _ => none

def setFolder (d : Disk) (dir : Dir) (f : Folder) : Disk :=
  { d with folder := Function.update d.folder dir f }

def setHere (d : Disk) (f : Folder) : Disk := d.setFolder d.current f

end Disk

/-! ## The ready record -/

/-- The value that `MarkReady` sets. -/
def readyText (sender recipient : ℤ) (size : ℕ) (thread mediaType : ℤ) : String :=
  let scope :=
    if 0 < thread then "group:" ++ toString sender ++ ":" ++ toString thread ++ ":" ++ toString size
    else toString sender ++ ":" ++ toString recipient ++ ":" ++ toString size
  (if mediaType = 3 then "audio:" else if mediaType = 2 then "file:" else "") ++ scope

def Meta.ready (m : Meta) : String :=
  readyText m.uid m.recipient m.size m.threadId m.mediaType

/-! ## File operations -/

/-- The operations of a request, in the order of the source. -/
inductive Site
  | metaPath
  | openMeta
  | parseMeta
  | createMeta
  | fillMeta
  | doneExists
  | partExists
  | partSize
  | partSizeAgain
  | openPart
  | writePart
  | partSha
  | partWave
  | renamePart
  | removePart
  | doneWave
  | markReady
  | offsetExists
  | offsetSize
  | openDone
  | readDone
  | send
  deriving DecidableEq

abbrev Io := Faulty Site Disk

variable (sha256 : Bytes → String)

def fileExists (i : Site) (get : Folder → Option Bytes) : Io Bool :=
  .look i fun d => (get d.here).isSome

def fileSize (i : Site) (get : Folder → Option Bytes) : Io ℕ :=
  .look i fun d => ((get d.here).map List.length).getD 0

/-- Empty when the file cannot be read. -/
def sha256Of (i : Site) (get : Folder → Option Bytes) : Io String :=
  .tryLook i (fun d => ((get d.here).map sha256).getD "") ""

def validWaveOf (i : Site) (get : Folder → Option Bytes) : Io Bool :=
  .tryLook i (fun d => ((get d.here).map validWave).getD false) false

/-- An `ifstream` that cannot be opened is the same as one whose file is not there. -/
def openMeta : Io Bool :=
  .tryLook .openMeta (fun d => d.here.json.isSome) false

def parseMeta : Io (Option Meta) := .op .parseMeta fun
  | .done, d => (match d.here.json with
    | some (.whole m) => .ok (some m)
    | some .cut => .error .thrown
    | none => .ok none, d)
  | .fails _, d => (.error .thrown, d)
  | .crashes _, d => (.error .crashed, d)

def readMeta : Io (Option Meta) := do
  Faulty.look .metaPath fun _ => ()
  if ← openMeta then parseMeta else pure none

/-- `trunc`: an empty file is left. -/
def createMeta (dir : Dir) : Io Unit :=
  .act .createMeta fun d => d.setFolder dir { d.folder dir with json := some .cut }

/-- A failed write is noticed, unless it happens when the stream is closed. -/
def fillMeta (dir : Dir) (m : Meta) : Io Unit := .op .fillMeta fun
  | .done, d => (.ok (), d.setFolder dir { d.folder dir with json := some (.whole m) })
  | .fails 0, d => (.error .thrown, d)
  | .fails (_ + 1), d => (.ok (), d)
  | .crashes _, d => (.error .crashed, d)

def writeMeta (m : Meta) : Io Unit := do
  createMeta m.dir
  fillMeta m.dir m

def renamePart : Io Unit := .act .renamePart fun d =>
  match d.here.part with
  | some bytes => d.setHere { d.here with part := none, bin := some bytes }
  | none => d

def removePart : Io Unit := .act .removePart fun d => d.setHere { d.here with part := none }

/-- `false` when the file cannot be opened. -/
def openPart : Io Bool := .op .openPart fun
  | .done, d => (.ok true, d.setHere { d.here with part := some (d.here.part.getD []) })
  | .fails 0, d => (.ok false, d)
  | .fails (_ + 1), d => (.error .thrown, d)
  | .crashes _, d => (.error .crashed, d)

def appendPart (d : Disk) (bytes : Bytes) : Disk :=
  d.setHere { d.here with part := some (d.here.part.getD [] ++ bytes) }

/-- `write` and `close`. -/
def writePart (bytes : Bytes) : Io Bool := .op .writePart fun
  | .done, d => (.ok true, appendPart d bytes)
  | .fails n, d => (.ok false, appendPart d (bytes.take n))
  | .crashes n, d => (.error .crashed, appendPart d (bytes.take n))

def markReady (text : String) : Io Bool := .op .markReady fun
  | .done, d => (.ok true, { d with ready := some text })
  | .fails 0, d => (.ok false, d)
  | .fails (_ + 1), d => (.ok false, { d with ready := some text })
  | .crashes 0, d => (.error .crashed, d)
  | .crashes (_ + 1), d => (.error .crashed, { d with ready := some text })

end CppChat.Resources
