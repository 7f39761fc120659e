import Mathlib.Data.List.SplitOn
import CppChat.Foundation.QJson
import CppChat.Foundation.Transition

/-! # The client's update service

`ClientUpdateService` reads a manifest, downloads the package it names and keeps a partial
file to resume. Every input is a call of its functions, the expiry of its deadline, or what
the current network reply does.
-/
namespace CppChat.Update
open Foundation

abbrev Bytes := List UInt8

def kManifestLimit : ℕ := 64 * 1024
def kInstallerLimit : ℕ := 512 * 1024 * 1024

/-! ## Origins and versions -/

/-- The parts of a `QUrl` that are read; `port` is `none` when the text has none. -/
structure Url where
  valid : Bool
  scheme : String
  host : String
  port : Option ℕ
  userInfo : String
  path : String
  hasQuery : Bool
  hasFragment : Bool
  deriving DecidableEq

def SecureUrl (u : Url) : Prop :=
  u.valid = true ∧ u.scheme = "https" ∧ u.host ≠ "" ∧ u.userInfo = "" ∧ u.hasFragment = false ∧
    u.hasQuery = false

instance : DecidablePred SecureUrl := fun _ => inferInstanceAs (Decidable (_ ∧ _ ∧ _ ∧ _ ∧ _ ∧ _))

def SameOrigin (left right : Url) : Prop :=
  SecureUrl left ∧ SecureUrl right ∧ left.host = right.host ∧
    left.port.getD 443 = right.port.getD 443

instance (left right : Url) : Decidable (SameOrigin left right) :=
  inferInstanceAs (Decidable (_ ∧ _ ∧ _ ∧ _))

def isDigit (c : Char) : Bool := '0' ≤ c && c ≤ '9'

/-- `0|[1-9][0-9]{0,4}`. -/
def isVersionPart : List Char → Bool
  | [] => false
  | ['0'] => true
  | c :: rest => '1' ≤ c && c ≤ '9' && rest.length ≤ 4 && rest.all isDigit

/-- The anchor `$` of a pattern also stands before a final line feed. -/
def dropLineFeed (l : List Char) : List Char := if l.getLast? = some '\n' then l.dropLast else l

def validVersion (version : String) : Bool :=
  match (dropLineFeed version.toList).splitOn '.' with
  | [major, minor, patch] => isVersionPart major && isVersionPart minor && isVersionPart patch
  | _ => false

/-- `QVersionNumber::fromString`, which stops at what is no number. -/
def versionNumber (version : String) : List ℕ :=
  (version.toList.splitOn '.').map fun part =>
    (part.takeWhile isDigit).foldl (fun n c => 10 * n + (c.toNat - '0'.toNat)) 0

/-- The version is newer than the current one; numbers compare segment by segment. -/
def Newer (version current : String) : Prop := versionNumber current < versionNumber version

instance (version current : String) : Decidable (Newer version current) :=
  inferInstanceAs (Decidable (_ < _))

/-- `^[0-9a-f]{64}$`. -/
def isSha256 (text : String) : Bool :=
  let l := dropLineFeed text.toList
  l.length == 64 && l.all fun c => isDigit c || ('a' ≤ c && c ≤ 'f')

structure ClientUpdateInfo where
  version : String := ""
  notes : String := ""
  history : List (String × String) := []
  downloadUrl : Option Url := none
  sha256 : String := ""
  size : ℕ := 0
  deriving DecidableEq

/-- The parts of Qt the service rests on: `QJsonDocument::fromJson`, `QUrl::resolved`,
`QString::size`, `QString::trimmed` of a text with something left, `toLatin1().toLower()`,
`endsWith` without case, and the SHA-256 digest as hexadecimal text. -/
structure Qt where
  fromJson : Bytes → Document
  resolved : Url → String → Url
  size : String → ℕ
  trimmedEmpty : String → Bool
  latin1Lower : String → String
  endsWith : String → String → Bool
  sha256 : Bytes → String

/-- One entry of the release history. -/
def parseEntry (qt : Qt) (latest : String) (history : List (String × String)) (entry : QJson) :
    Except String (List (String × String)) :=
  let item := match entry with
    | .object o => o
    | _ => []
  let version := QJson.toString (QJsonObject.value item "version")
  let notes := QJson.toString (QJsonObject.value item "notes")
  if ¬ validVersion version ∨ qt.trimmedEmpty notes ∨ 8000 < qt.size notes ∨
      (history.lookup version).isSome ∨ Newer version latest then .error "更新历史格式错误"
  else .ok ((version, notes) :: history)

def parseHistory (qt : Qt) (latest : String) (object : QJsonObject) :
    Except String (List (String × String)) :=
  match object.value "history" with
  | none => .ok []
  | some (.array entries) =>
    if 200 < entries.length then .error "更新历史格式错误"
    else do
      let history ← entries.foldlM (parseEntry qt latest) []
      if (history.lookup latest).isSome then .ok history else .error "更新历史缺少当前版本"
  | some _ => .error "更新历史格式错误"

/-- `toDouble(-1)`. -/
def sizeField (object : QJsonObject) : ℚ :=
  match object.value "size" with
  | some (.num q) => q
  | _ => -1

def parseManifest (qt : Qt) (android : Bool) (json : Bytes) (manifestUrl : Url) :
    Except String ClientUpdateInfo :=
  match qt.fromJson json with
  | .object object =>
    if kManifestLimit < json.length ∨ ¬ SecureUrl manifestUrl then .error "更新信息格式错误"
    else
      let version := QJson.toString (object.value "version")
      let notes := QJson.toString (object.value "notes")
      let download := QJson.toString (object.value "downloadUrl")
      let downloadUrl := qt.resolved manifestUrl download
      let sha256 := qt.latin1Lower (QJson.toString (object.value "sha256"))
      let size := sizeField object
      if ¬ validVersion version ∨ 8000 < qt.size notes ∨ download = "" ∨
          ¬ SameOrigin manifestUrl downloadUrl ∨
          ¬ qt.endsWith downloadUrl.path (if android then ".apk" else ".exe") ∨
          ¬ isSha256 sha256 ∨ size.den ≠ 1 ∨ size.num < 1 ∨ (kInstallerLimit : Int) < size.num then
        .error "更新信息不完整或下载地址不可信"
      else do
        let history ← parseHistory qt version object
        .ok ⟨version, notes, history, some downloadUrl, sha256, size.num.toNat⟩
  | _ => .error "更新信息格式错误"

/-! ## The service -/

inductive State
  | idle
  | checking
  | available
  | downloading
  | ready
  deriving DecidableEq

/-- What the head of a reply tells. -/
structure Headers where
  url : Url
  status : ℕ
  contentRange : String
  deriving DecidableEq

/-- The running request: which handlers it is connected to, the offset of its `Range`
header (0 for none), and the head of the reply once it is there. -/
structure Reply where
  download : Bool
  rangeFrom : ℕ
  headers : Option Headers
  deriving DecidableEq

structure Service where
  state : State := .idle
  info : ClientUpdateInfo := {}
  manifest : Bytes := []
  /-- The bytes of the open `QSaveFile`. -/
  file : Option Bytes := none
  /-- The committed file at the ready path; it goes with its temporary directory. -/
  committed : Option Bytes := none
  readyPath : String := ""
  /-- What the running digest was fed. -/
  hashed : Bytes := []
  received : ℕ := 0
  resumeOffset : ℕ := 0
  reply : Option Reply := none
  deadline : Bool := false

/-- The parameters of the constructor. -/
structure Config where
  manifestUrl : Url
  currentVersion : String
  android : Bool

def rangeText (first size : ℕ) : String :=
  "bytes " ++ toString first ++ "-" ++ toString (size - 1) ++ "/" ++ toString size

def installerName (android : Bool) (version : String) : String :=
  if android then "CppChat-" ++ version ++ "-android-arm64.apk"
  else "CppChat-Setup-" ++ version ++ "-x64.exe"

namespace Service

/-- `_file.reset()`, `_directory.reset()` and the resets beside them. -/
def discard (s : Service) : Service :=
  { s with
    file := none, committed := none, readyPath := "", received := 0, resumeOffset := 0, hashed := [] }

def stopReply (s : Service) : Service := { s with reply := none, deadline := false }

/-- A partial file that a later download may continue. -/
def HasPartial (s : Service) : Prop := s.file.isSome ∧ 0 < s.received ∧ s.received < s.info.size

instance (s : Service) : Decidable s.HasPartial := inferInstanceAs (Decidable (_ ∧ _ ∧ _))

def fail (s : Service) (retainPartial : Bool) : Service :=
  let t := s.stopReply
  let t := if s.state = .downloading ∧ retainPartial ∧ s.HasPartial then t else t.discard
  { t with state := if s.state = .downloading then .available else .idle }

def responseAccepted (cfg : Config) (s : Service) : Bool :=
  match s.reply.bind Reply.headers with
  | none => false
  | some h =>
    if ¬ SameOrigin cfg.manifestUrl h.url then false
    else if s.state = .downloading ∧ 0 < s.resumeOffset then
      h.status = 206 ∧ h.contentRange = rangeText s.resumeOffset s.info.size
    else h.status = 200

def check (cfg : Config) (s : Service) : Service :=
  if s.state = .checking ∨ s.state = .downloading then s
  else
    let s := { s.discard with info := {}, manifest := [] }
    if ¬ SecureUrl cfg.manifestUrl ∨ ¬ validVersion cfg.currentVersion then s.fail false
    else { s with state := .checking, reply := some ⟨false, 0, none⟩, deadline := true }

/-- `cacheReady` and `fileOpens`: the directories and the file could be made. -/
def download (cfg : Config) (s : Service) (cacheReady fileOpens : Bool) : Service :=
  if s.state ≠ .available then s
  else if ¬ cacheReady then s.fail false
  else if s.file = none ∧ ¬ fileOpens then s.fail false
  else
    let s := if s.file = none then
      { s with
        committed := none, readyPath := installerName cfg.android s.info.version, file := some []
        received := 0, hashed := [] }
    else s
    { s with
      resumeOffset := s.received, state := .downloading
      reply := some ⟨true, s.received, none⟩, deadline := true }

/-- A chunk that was read, and whether the file took it. -/
abbrev Chunk := Bytes × Bool

/-- The reading loop of `readDownload`. -/
def readChunks : Service → List Chunk → Service
  | s, [] => s
  | s, (chunk, written) :: chunks =>
    match s.file with
    | none => s
    | some content =>
      if s.info.size < s.received + chunk.length ∨ ¬ written then
        { s with received := s.received + chunk.length }.fail false
      else readChunks { s with
        received := s.received + chunk.length
        file := some (content ++ chunk)
        hashed := s.hashed ++ chunk } chunks

/-- A server without ranges sends the whole file: it is written from the start again. -/
def Restarts (cfg : Config) (s : Service) : Prop :=
  0 < s.resumeOffset ∧ ∃ h ∈ s.reply.bind Reply.headers, SameOrigin cfg.manifestUrl h.url ∧ h.status = 200

instance (cfg : Config) (s : Service) : Decidable (s.Restarts cfg) :=
  inferInstanceAs (Decidable (_ ∧ ∃ h ∈ s.reply.bind Reply.headers, _ ∧ _))

/-- `chunks` is what the reply has to read; `truncates` tells whether the file could be emptied. -/
def readDownload (cfg : Config) (s : Service) (chunks : List Chunk) (truncates : Bool) : Service :=
  if s.reply = none ∨ s.file = none ∨ chunks = [] then s
  else if s.Restarts cfg ∧ ¬ truncates then s.fail false
  else
    let s := if s.Restarts cfg then
      { s with file := some [], received := 0, resumeOffset := 0, hashed := [] } else s
    if ¬ s.responseAccepted cfg then s.fail false else s.readChunks chunks

/-- The bytes that arrive with an event of the manifest's reply. -/
def readManifest (s : Service) (chunks : List Chunk) : Service :=
  { s with manifest := s.manifest ++ (chunks.map Prod.fst).flatten }

def manifestData (s : Service) (chunks : List Chunk) : Service :=
  let s := s.readManifest chunks
  if kManifestLimit < s.manifest.length then s.fail false else s

def manifestFinished (qt : Qt) (cfg : Config) (s : Service) (chunks : List Chunk) (error : Bool) :
    Service :=
  let s := s.readManifest chunks
  if error ∨ ¬ s.responseAccepted cfg then s.fail false
  else match parseManifest qt cfg.android s.manifest cfg.manifestUrl with
    | .error _ => s.fail false
    | .ok info =>
      let s := { s with info }.stopReply
      { s with state := if Newer info.version cfg.currentVersion then .available else .idle }

def downloadFinished (qt : Qt) (cfg : Config) (s : Service) (chunks : List Chunk)
    (truncates error commits : Bool) : Service :=
  let s := s.readDownload cfg chunks truncates
  if s.reply = none then s
  else if error ∨ ¬ s.responseAccepted cfg then s.fail error
  else if s.received ≠ s.info.size ∨ qt.sha256 s.hashed ≠ s.info.sha256 then s.fail false
  else if ¬ commits then s.fail false
  else { { s with committed := s.file, file := none }.stopReply with state := .ready }

def cancel (s : Service) : Service :=
  let t := s.stopReply
  if s.state = .downloading ∧ s.HasPartial then { t with state := .available }
  else { t.discard with
    state := if s.state = .downloading ∨ s.state = .ready then .available else .idle }

end Service

/-- What the caller asks, and what the network does with the current reply. The flags tell
how the file system and the connection behave. -/
inductive Input
  | check
  | download (cacheReady fileOpens : Bool)
  | cancel
  | deadline
  | headers (h : Headers)
  | data (chunks : List Service.Chunk) (truncates : Bool)
  | finished (chunks : List Service.Chunk) (truncates error commits : Bool)

/-- One input. The head of a reply comes once, and a read returns some bytes. -/
def Service.handle (qt : Qt) (cfg : Config) (s : Service) : Input → Option Service
  | .check => some (s.check cfg)
  | .download cacheReady fileOpens => some (s.download cfg cacheReady fileOpens)
  | .cancel => some s.cancel
  | .deadline => if s.deadline then some (s.fail (s.state = .downloading)) else none
  | .headers h =>
    match s.reply with
    | some ⟨download, rangeFrom, none⟩ => some { s with reply := some ⟨download, rangeFrom, some h⟩ }
    | _ => none
  | .data chunks truncates =>
    if ∃ c ∈ chunks, c.1 = [] then none
    else s.reply.map fun reply =>
      if reply.download then s.readDownload cfg chunks truncates else s.manifestData chunks
  | .finished chunks truncates error commits =>
    if ∃ c ∈ chunks, c.1 = [] then none
    else s.reply.map fun reply =>
      if reply.download then s.downloadFinished qt cfg chunks truncates error commits
      else s.manifestFinished qt cfg chunks error

end CppChat.Update
