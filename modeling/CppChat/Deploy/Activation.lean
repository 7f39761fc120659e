import Mathlib.Algebra.Order.Group.Nat
import Mathlib.Data.List.Lex
import Mathlib.Logic.Function.Basic

/-! # Activating a release

`activate` checks a release, makes a backup and then swaps the programs, the source export, the Node
modules and the update feed in one `try` block. A failure at any step runs the rollback, which puts
the backup back. What is tracked are the files that the steps replace; every other step is a command
that may fail.
-/
namespace CppChat.Deploy

/-! ## Files -/

/-- A file of `runtime`, its name apart from its suffix. -/
structure RuntimeFile where
  folder : String
  stem : String
  suffix : String
  deriving DecidableEq

/-- `node_modules`. -/
inductive Modules (β : Type)
  | directory (tree : β)
  | link (target : String)
  deriving DecidableEq

/-- `source-version.json`: what `activate` reads of it, or a text that is no object. -/
inductive SourceVersion (β : Type)
  | record (releaseVersion runtimeCommit : Option String) (text : β)
  | unreadable (text : β)
  deriving DecidableEq

/-- `latest.json`. -/
structure Manifest (β : Type) where
  version : Option String
  text : β
  deriving DecidableEq

/-- What a deployment replaces under `/opt/cppchat`; `β` is what a file or a tree holds. -/
structure Files (β : Type) where
  bin : String → Option β
  runtime : RuntimeFile → Option β
  source : β
  modules : Option (Modules β)
  sourceVersion : Option (SourceVersion β)
  latest : Option (Manifest β)

def binaries : List String :=
  ["GateServer", "StatusServer", "ChatServer", "ChatServer2", "ResourceServer"]

def services : List String := binaries ++ ["VerifyServer", "GatewayGuard"]

/-- The runtime files that a release brings. -/
def replaced : List RuntimeFile :=
  [⟨"VerifyServer", "server", ".js"⟩, ⟨"VerifyServer", "config", ".js"⟩,
    ⟨"VerifyServer", "redis", ".js"⟩, ⟨"VerifyServer", "const", ".js"⟩,
    ⟨"VerifyServer", "proto", ".js"⟩, ⟨"VerifyServer", "message", ".proto"⟩,
    ⟨"VerifyServer", "package", ".json"⟩, ⟨"VerifyServer", "package-lock", ".json"⟩,
    ⟨"GatewayGuard", "server", ".js"⟩]

structure Release where
  version : String
  commit : String

/-- What an upload holds, once it is verified. -/
structure Payload (β : Type) where
  bin : String → β
  runtime : RuntimeFile → β
  source : β
  modules : String
  manifest : Manifest β
  record : β

/-! ## The checks -/

inductive Answer
  | unreadable
  | differentCommit
  | alreadyDeployed
  | notAdvancing
  deriving DecidableEq

/-- `tuple(map(int, version.split(".")))`. -/
def versionKey (version : String) : Option (List ℕ) := (version.splitOn ".").mapM String.toNat?

variable {β : Type}

/-- What `activate` says at once, if it does not go on. -/
def check (fs : Files β) (release : Release) : Option Answer :=
  let feed : Option Answer :=
    match fs.latest with
    | none => none
    | some manifest =>
      match manifest.version.bind versionKey, versionKey release.version with
      | some old, some new => if new ≤ old then some .notAdvancing else none
      | _, _ => some .unreadable
  match fs.sourceVersion with
  | none => feed
  | some (.unreadable _) => some .unreadable
  | some (.record releaseVersion runtimeCommit _) =>
    if releaseVersion = some release.version then
      if runtimeCommit ≠ some release.commit then some .differentCommit else some .alreadyDeployed
    else feed

/-! ## The steps -/

/-- A step of the `try` block; `publishing` is one of the inner block of `publish`, whose own
handler puts the feed back. -/
inductive Op
  | command (what : String)
  | publishing (what : String)
  | syncSource
  | renameModules
  | linkModules
  | copyRuntime (file : RuntimeFile)
  | replaceBinary (name : String)
  | publishLatest
  | writeSourceVersion
  deriving DecidableEq

def installOrder : List String :=
  ["StatusServer", "ChatServer", "ChatServer2", "ResourceServer", "GateServer"]

/-- `publish` of the update feed. -/
def publish : List Op :=
  [.command "check artifacts", .command "mkdir windows", .command "backup feed",
    .publishing "write snippet", .publishing "write site", .publishing "nginx -t",
    .publishing "place installer", .publishLatest, .publishing "reload nginx",
    .command "print", .command "rmtree incoming"]

def beforeModules : List Op :=
  [.command "git merge --ff-only", .syncSource, .command "stop VerifyServer GatewayGuard"]

def afterModules : List Op :=
  replaced.flatMap (fun file => [.copyRuntime file, .command "chown", .command "chmod"]) ++
  [.command "start VerifyServer GatewayGuard"] ++
  installOrder.flatMap (fun name =>
    [.command "copy candidate", .command "chmod", .command "stop", .replaceBinary name,
      .command "start", .command "is-active"]) ++
  [.command "health", .command "private configuration", .command "mkdir feed",
    .command "copy installer", .command "copy manifest", .command "load publisher"] ++
  publish ++
  [.writeSourceVersion, .command "deployment.json", .command "rename incoming", .command "print"]

def program : List Op := beforeModules ++ [.renameModules, .linkModules] ++ afterModules

/-- The files, the modules in the backup and the flag of the `try` block. -/
structure Progress (β : Type) where
  files : Files β
  previousModules : Option (Modules β) := none
  moduleSwapped : Bool := false

section Steps
variable (payload : Payload β) (release : Release)

def newRecord : SourceVersion β :=
  .record (some release.version) (some release.commit) payload.record

def exec (p : Progress β) : Op → Progress β
  | .command _ | .publishing _ => p
  | .syncSource => { p with files.source := payload.source }
  | .renameModules =>
    match p.files.modules with
    | none => p
    | some modules => { p with files.modules := none, previousModules := some modules }
  | .linkModules =>
    { p with files.modules := some (.link payload.modules), moduleSwapped := true }
  | .copyRuntime file =>
    { p with files.runtime := Function.update p.files.runtime file (some (payload.runtime file)) }
  | .replaceBinary name =>
    { p with files.bin := Function.update p.files.bin name (some (payload.bin name)) }
  | .publishLatest => { p with files.latest := some payload.manifest }
  | .writeSourceVersion => { p with files.sourceVersion := some (newRecord payload release) }

/-- What a step leaves that fails: it may have written a part. -/
def tear (p : Progress β) (left : Option β) : Op → Progress β
  | .syncSource => { p with files.source := left.getD p.files.source }
  | .copyRuntime file =>
    { p with
      files.runtime := Function.update p.files.runtime file (left.or (p.files.runtime file)) }
  | .publishLatest =>
    { p with files.latest := (left.map fun _ => payload.manifest).or p.files.latest }
  | .writeSourceVersion =>
    { p with files.sourceVersion := (left.map .unreadable).or p.files.sourceVersion }
  | _ => p

/-- The inner block of `publish`. -/
def Op.guarded : Op → Bool
  | .publishing _ | .publishLatest => true
  | _ => false

/-- Which step fails, what it leaves, and whether the handler of `publish`, where it runs, gets as
far as the feed. -/
structure Failure (β : Type) where
  step : ℕ
  left : Option β
  handled : Bool

/-- The state in which the rollback starts. -/
def failed (fs : Files β) (failure : Failure β) (op : Op) : Progress β :=
  let p := tear payload
    ((program.take failure.step).foldl (exec payload release) { files := fs }) failure.left op
  if op.guarded ∧ failure.handled then { p with files.latest := fs.latest } else p

end Steps

/-! ## The rollback -/

structure Backup (β : Type) where
  bin : String → Option β
  runtime : RuntimeFile → Option β
  source : β
  sourceVersion : Option (SourceVersion β)
  previousFeed : Option (Manifest β)

def suffixes : List String := [".js", ".json", ".ini", ".proto"]

def backup (fs : Files β) : Backup β where
  bin name := if name ∈ binaries then fs.bin name else none
  runtime file := if file.folder ∈ services ∧ file.suffix ∈ suffixes then fs.runtime file else none
  source := fs.source
  sourceVersion := fs.sourceVersion
  previousFeed := fs.latest

def Modules.isLink : Modules β → Bool
  | .directory _ => false
  | .link _ => true

/-- The modules after the two steps of the rollback. -/
def restoreModules (p : Progress β) : Option (Modules β) :=
  let modules := if p.moduleSwapped ∧ p.files.modules.any Modules.isLink then none
    else p.files.modules
  p.previousModules.or modules

/-- The handler: what was backed up is put back. -/
def rollback (b : Backup β) (p : Progress β) : Files β where
  bin name := (b.bin name).or (p.files.bin name)
  runtime file := (b.runtime file).or (p.files.runtime file)
  source := b.source
  modules := restoreModules p
  sourceVersion := b.sourceVersion.or p.files.sourceVersion
  latest := b.previousFeed.or p.files.latest

/-! ## Activation -/

inductive Outcome
  | answered (answer : Answer)
  | refused
  | deployed
  | rolledBack
  deriving DecidableEq

/-- The backup needs the programs and the private mail settings. -/
def Ready (fs : Files β) : Prop :=
  (∀ name ∈ binaries, (fs.bin name).isSome) ∧
    (fs.runtime ⟨"VerifyServer", "email", ".js"⟩).isSome

instance (fs : Files β) : Decidable (Ready fs) := inferInstanceAs (Decidable (_ ∧ _))

/-- `activate`; `payload` is `none` when the upload does not pass the checks. -/
def activate (release : Release) (payload : Option (Payload β)) (failure : Option (Failure β))
    (fs : Files β) : Files β × Outcome :=
  match check fs release with
  | some answer => (fs, .answered answer)
  | none =>
    match payload with
    | none => (fs, .refused)
    | some payload =>
      if Ready fs then
        match failure.bind fun failure => (program[failure.step]?).map (failure, ·) with
        | none => ((program.foldl (exec payload release) { files := fs }).files, .deployed)
        | some (failure, op) =>
          (rollback (backup fs) (failed payload release fs failure op), .rolledBack)
      else (fs, .refused)

end CppChat.Deploy
