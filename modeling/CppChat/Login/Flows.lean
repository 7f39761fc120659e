import CppChat.Session.SlotSafety

/-! # Login, close, cleanup and sweep of a connection

Each flow of a connection is a program counter, and a step runs one access to Redis, to
`UserMgr` or to the connection. The account lock is a lease that may run out, so it
excludes nothing here. Connections are named by their session id, which is unique.
-/
namespace CppChat.Login
open Foundation Session

structure Request where
  uid : ℕ
  token : String
  device : Device
  deriving DecidableEq

/-- Where `SessionService::Login` stands. -/
inductive LoginFlow
  | idle
  | status (q : Request)
  | credential (q : Request)
  | route (q : Request)
  | retire (q : Request) (old : String)
  | remove (q : Request) (old : String)
  | kick (q : Request) (server : String)
  | offline (q : Request) (old : String)
  | register (q : Request)
  | bind (q : Request)
  | publish (q : Request)
  | revoke (q : Request) (devices : List Device)
  deriving DecidableEq

/-- Where `DealExceptionSession` and the `CleanupSession` it calls stand. -/
inductive CleanupFlow
  | idle
  | remove (uid : ℕ)
  | release (uid : ℕ) (devices : List Device)
  | clear
  | clearUser (uid : ℕ)
  | done
  deriving DecidableEq

/-- Where `MaintainSessions` stands for this connection. -/
inductive SweepFlow
  | idle
  | refresh (uid : ℕ) (devices : List Device)
  | close
  deriving DecidableEq

/-- A `CSession`; `listed` says that `sessions_` owns it. -/
structure Connection where
  node : String
  closed : Bool
  retiring : Bool
  closeAfterWrite : Bool
  listed : Bool
  userId : ℕ
  device : Device
  login : LoginFlow
  cleanup : CleanupFlow
  sweep : SweepFlow
  deriving DecidableEq

namespace Connection

def accepted (node : String) : Connection :=
  ⟨node, false, false, false, true, 0, .desktop, .idle, .idle, .idle⟩

/-- `IsClosed`: a retiring connection may still write, but starts no work. -/
def isClosed (c : Connection) : Bool := c.closed || c.retiring

/-- `cleanup_started_`, which the exchange that starts the flow sets. -/
def cleanupStarted (c : Connection) : Bool := c.cleanup ≠ .idle

/-- `login_mutex_` is held from the checks of `BindAuthenticatedUser` to its publication. -/
def loginLocked (c : Connection) : Bool :=
  match c.login with
  | .publish _ => true
  | _ => false

/-- `NotifyOffline`: the notice and the close marker are queued together, unless the queue
is full. -/
def notifyOffline (c : Connection) (overloaded : Bool) : Connection :=
  if c.closed ∨ c.closeAfterWrite then c
  else if overloaded then { c with closed := true }
  else { c with retiring := true, closeAfterWrite := true }

/-- `DrainAndClose`, until the queue is empty. -/
def drain (c : Connection) : Connection :=
  if c.closed then c else { c with retiring := true, closeAfterWrite := true }

end Connection

/-- `_uid_to_session` of one node. -/
abbrev UserMgr := ℕ → Device → Option String

namespace UserMgr

def setUserSession (m : UserMgr) (uid : ℕ) (device : Device) (id : String) : UserMgr :=
  fun u d => if u = uid ∧ d = device then some id else m u d

def erase (m : UserMgr) (uid : ℕ) (device : Device) : UserMgr :=
  fun u d => if u = uid ∧ d = device then none else m u d

/-- Erases the first device of the user that names the session. -/
def rmvUserSession (m : UserMgr) (uid : ℕ) (id : String) : UserMgr :=
  if m uid .desktop = some id then m.erase uid .desktop
  else if m uid .android = some id then m.erase uid .android
  else m

end UserMgr

structure State where
  redis : Session.State
  connections : String → Option Connection
  users : String → UserMgr

/-- The devices `RefreshSession` and `ReleaseSession` visit. -/
def devices : List Device := [.desktop, .android]

namespace State

def put (s : State) (id : String) (c : Connection) : State :=
  { s with connections := Function.update s.connections id (some c) }

/-- Applies a call on a connection, if the connection is there. -/
def call (s : State) (id : String) (f : Connection → Connection) : State :=
  { s with connections := Function.update s.connections id ((s.connections id).map f) }

def onUsers (s : State) (node : String) (f : UserMgr → UserMgr) : State :=
  { s with users := Function.update s.users node (f (s.users node)) }

def onRedis (s : State) (redis : Session.State) : State := { s with redis := redis }

/-- `StatusServiceImpl::Login` finds the token pending, or active on a device. -/
def StatusAccepts (s : State) (q : Request) : Prop :=
  0 < q.uid ∧ (s.redis.Grants (.pendingToken q.uid q.token) q.token ∨
    s.redis.Grants (.pendingUser q.uid) q.token ∨
    s.redis.Grants (.resource q.uid .desktop) q.token ∨
    s.redis.Grants (.resource q.uid .android) q.token)

instance (s : State) (q : Request) : Decidable (s.StatusAccepts q) :=
  inferInstanceAs (Decidable (_ ∧ _))

/-- Under the account lock, an active credential counts for its own device only. -/
def CredentialMatches (s : State) (q : Request) : Prop :=
  s.redis.Grants (.pendingToken q.uid q.token) q.token ∨
    s.redis.Grants (.pendingUser q.uid) q.token ∨
    s.redis.Grants (.resource q.uid q.device) q.token

instance (s : State) (q : Request) : Decidable (s.CredentialMatches q) :=
  inferInstanceAs (Decidable (_ ∨ _))

/-- What follows from the previous route of the slot; `healthy` is the health lease of the
previous node. -/
def afterRoute (s : State) (id : String) (c : Connection) (q : Request) (healthy : Bool) :
    LoginFlow :=
  let previous := (s.redis.text? (.node q.uid q.device)).getD ""
  if previous = c.node then
    match s.users c.node q.uid q.device with
    | some old => if old ≠ id then .retire q old else .register q
    | none => .register q
  else if previous ≠ "" ∧ healthy then .kick q previous
  else .register q

/-- What a login passes to `RegisterSession`. -/
def registration (id : String) (c : Connection) (q : Request) : Registration :=
  ⟨q.uid, q.device, id, q.token, c.node⟩

/-- The next access of a login. `flag` is the outcome no state here decides: the health of
the previous node, or an overloaded send queue. -/
def loginStep (s : State) (id : String) (c : Connection) (flag : Bool) : Option State :=
  let go flow := { c with login := flow }
  match c.login with
  | .idle => none
  | .status q => some (s.put id (go (if s.StatusAccepts q then .credential q else .idle)))
  | .credential q => some (s.put id (go (if s.CredentialMatches q then .route q else .idle)))
  | .route q => some (s.put id (go (s.afterRoute id c q flag)))
  | .retire q old => some ((s.put id (go (.remove q old))).call old (·.notifyOffline flag))
  | .remove q old =>
    some ((s.put id (go (.register q))).onUsers c.node (·.rmvUserSession q.uid old))
  | .kick q server =>
    -- `NotifyKickUser` on the previous node
    match s.users server q.uid q.device with
    | some old => some (s.put id (go (.offline q old)))
    | none => some (s.put id (go (.register q)))
  | .offline q old => some ((s.put id (go (.register q))).call old (·.notifyOffline flag))
  | .register q =>
    let (registered, redis) := s.redis.register (registration id c q)
    some ((s.put id (go (if registered = 1 then .bind q else .idle))).onRedis redis)
  | .bind q =>
    if q.uid = 0 ∨ c.isClosed ∨ c.cleanupStarted ∨ c.userId ≠ 0 then
      some (s.put id (go (.revoke q devices)))
    else some (s.put id { c with login := .publish q, device := q.device, userId := q.uid })
  | .publish q =>
    some ((s.put id (go .idle)).onUsers c.node (·.setUserSession q.uid c.device id))
  | .revoke _ [] => some (s.put id (go .idle))
  | .revoke q (d :: ds) =>
    some ((s.put id (go (.revoke q ds))).onRedis (s.redis.release q.uid id d).2)

/-- A login gives up when the status service, the database, the lock or the kick fails. -/
def abortLogin (s : State) (id : String) (c : Connection) : Option State :=
  match c.login with
  | .status _ | .credential _ | .kick _ _ => some (s.put id { c with login := .idle })
  | _ => none

/-- `CloseOnExecutor` of a closed connection, up to the snapshot of its user. -/
def closeOnExecutor (s : State) (id : String) (c : Connection) : Option State :=
  if ¬ c.closed ∨ c.loginLocked then none
  else if c.cleanupStarted then some s
  else some (s.put id { c with cleanup := .remove c.userId })

/-- The next access of `CleanupSession`, then of the queued release and `ClearSession`. -/
def cleanupStep (s : State) (id : String) (c : Connection) : Option State :=
  let go flow := { c with cleanup := flow }
  match c.cleanup with
  | .idle | .done => none
  | .remove uid =>
    if 0 < uid then
      some ((s.put id (go (.release uid devices))).onUsers c.node (·.rmvUserSession uid id))
    else some (s.put id (go .clear))
  | .release _ [] => some (s.put id (go .clear))
  | .release uid (d :: ds) =>
    some ((s.put id (go (.release uid ds))).onRedis (s.redis.release uid id d).2)
  | .clear =>
    let flow := if c.listed ∧ 0 < c.userId then .clearUser c.userId else .done
    some (s.put id { c with listed := false, cleanup := flow })
  | .clearUser uid => some ((s.put id (go .done)).onUsers c.node (·.rmvUserSession uid id))

/-- The next access of the sweep: a session that owns no slot any more is closed. -/
def sweepStep (s : State) (id : String) (c : Connection) : Option State :=
  let go flow := { c with sweep := flow }
  match c.sweep with
  | .idle =>
    if c.isClosed ∨ c.userId = 0 then none else some (s.put id (go (.refresh c.userId devices)))
  | .refresh _ [] => some (s.put id (go .close))
  | .refresh uid (d :: ds) =>
    let (refreshed, redis) := s.redis.refresh uid id d
    some ((s.put id (go (if refreshed = 1 then .idle else .refresh uid ds))).onRedis redis)
  | .close => some (s.put id { c with closed := true, sweep := .idle })

end State

inductive Action
  | issueToken (uid : ℕ) (token : String)
  | issueUserToken (uid : ℕ) (token : String)
  | tick (ms : ℕ)
  | accept (id node : String)
  | login (id : String) (q : Request)
  | loginStep (id : String) (flag : Bool)
  | abortLogin (id : String)
  | close (id : String)
  | drain (id : String)
  | closeOnExecutor (id : String)
  | cleanupStep (id : String)
  | sweepStep (id : String)
  deriving DecidableEq

/-- Requests of one connection run one after the other, so a login starts when none runs. -/
def State.step (s : State) : Action → Option State
  | .issueToken uid token => (s.redis.step (.issueToken uid token)).map s.onRedis
  | .issueUserToken uid token => (s.redis.step (.issueUserToken uid token)).map s.onRedis
  | .tick ms => (s.redis.step (.tick ms)).map s.onRedis
  | .accept id node =>
    match s.connections id with
    | some _ => none
    | none => some (s.put id (.accepted node))
  | .login id q => do
    let c ← s.connections id
    if c.login ≠ .idle ∨ c.isClosed ∨ 0 < c.userId then none
    else some (s.put id { c with login := .status q })
  | .loginStep id flag => do s.loginStep id (← s.connections id) flag
  | .abortLogin id => do s.abortLogin id (← s.connections id)
  | .close id => do return s.put id { (← s.connections id) with closed := true }
  | .drain id => do return s.put id (← s.connections id).drain
  | .closeOnExecutor id => do s.closeOnExecutor id (← s.connections id)
  | .cleanupStep id => do s.cleanupStep id (← s.connections id)
  | .sweepStep id => do s.sweepStep id (← s.connections id)

/-- All runs of any number of connections and nodes, from an empty system. -/
def login : Machine State Action :=
  .ofFn (fun s => ((∀ k, s.redis.keys k = none) ∧ s.redis.issued = [] ∧ s.redis.registrations = []) ∧
    (∀ id, s.connections id = none) ∧ ∀ node u d, s.users node u d = none) State.step

end CppChat.Login
