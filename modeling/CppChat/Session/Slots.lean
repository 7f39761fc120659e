import CppChat.Foundation.Expiring
import CppChat.Foundation.Transition

/-! # Device session slots

A login publishes three keys for its user and device: session, resource token and node.
Redis scripts of any node register, refresh and release them; each script is atomic, the
calls that run one script per device are not. Values carry the registration that wrote
them, which no script reads.
-/
namespace CppChat.Session
open Foundation

inductive Device
  | desktop
  | android
  deriving DecidableEq

/-- The keys of one user: credentials not used yet, and the slot of a device. -/
inductive Key
  | pendingUser (uid : ℕ)
  | pendingToken (uid : ℕ) (token : String)
  | session (uid : ℕ) (device : Device)
  | resource (uid : ℕ) (device : Device)
  | node (uid : ℕ) (device : Device)
  deriving DecidableEq

structure Value where
  text : String
  writer : ℕ
  deriving DecidableEq

/-- The arguments of a `RegisterSession` that succeeded. -/
structure Registration where
  uid : ℕ
  device : Device
  session : String
  token : String
  node : String
  deriving DecidableEq

/-- `ServicePolicy`, in milliseconds. -/
def pendingTokenMs : ℕ := 300000
def activeSessionMs : ℕ := 3600000

/-- Redis, and the history of what was issued and registered; `clock` is in milliseconds. -/
structure State where
  clock : ℕ
  keys : Keyspace Key Value
  issued : List (String × ℕ)
  registrations : List Registration

namespace State

def text? (s : State) (k : Key) : Option String := (s.keys.get s.clock k).map Value.text

/-- `get(key)==token and ttl(key)>0`. -/
def Grants (s : State) (k : Key) (token : String) : Prop :=
  s.text? k = some token ∧ 0 < s.keys.ttl s.clock k

instance (s : State) (k : Key) (token : String) : Decidable (s.Grants k token) :=
  inferInstanceAs (Decidable (_ ∧ _))

/-- `GetChatServer` issues a credential for one login. -/
def issueToken (s : State) (uid : ℕ) (token : String) : State :=
  { s with
    keys := s.keys.set (.pendingToken uid token) ⟨token, 0⟩ (s.clock + pendingTokenMs)
    issued := (token, uid) :: s.issued }

/-- A credential under the user's single pending key, which older servers issue. -/
def issueUserToken (s : State) (uid : ℕ) (token : String) : State :=
  { s with
    keys := s.keys.set (.pendingUser uid) ⟨token, 0⟩ (s.clock + pendingTokenMs)
    issued := (token, uid) :: s.issued }

/-- The three keys of a slot, published together. -/
def publish (s : State) (r : Registration) : State :=
  let writer := s.registrations.length
  let deadline := s.clock + activeSessionMs
  { s with
    keys := ((s.keys.set (.resource r.uid r.device) ⟨r.token, writer⟩ deadline).set
      (.session r.uid r.device) ⟨r.session, writer⟩ deadline).set
      (.node r.uid r.device) ⟨r.node, writer⟩ deadline
    registrations := s.registrations ++ [r] }

/-- Deletes the credential a registration was made with, wherever it is pending. -/
def consume (s : State) (uid : ℕ) (token : String) : State :=
  let keys := if s.text? (.pendingUser uid) = some token then s.keys.del (.pendingUser uid) else s.keys
  { s with keys := keys.del (.pendingToken uid token) }

/-- A credential that may open the slot: pending, or active in this very slot. -/
def Accepts (s : State) (r : Registration) : Prop :=
  s.Grants (.pendingUser r.uid) r.token ∨ s.Grants (.pendingToken r.uid r.token) r.token ∨
    s.Grants (.resource r.uid r.device) r.token

instance (s : State) (r : Registration) : Decidable (s.Accepts r) :=
  inferInstanceAs (Decidable (_ ∨ _ ∨ _))

/-- The script of `RegisterSession`: 1 when the session is published. -/
def register (s : State) (r : Registration) : ℕ × State :=
  if s.Accepts r then (1, (s.publish r).consume r.uid r.token) else (0, s)

/-- The script `RefreshSession` runs for one device after the other. -/
def refresh (s : State) (uid : ℕ) (session : String) (device : Device) : ℕ × State :=
  if s.text? (.session uid device) ≠ some session ∨ s.text? (.resource uid device) = none then (0, s)
  else
    let deadline := s.clock + activeSessionMs
    (1, { s with
      keys := ((s.keys.expire s.clock (.session uid device) deadline).expire s.clock
        (.resource uid device) deadline).expire s.clock (.node uid device) deadline })

/-- The compare-and-delete `ReleaseSession` runs for both devices. -/
def release (s : State) (uid : ℕ) (session : String) (device : Device) : ℕ × State :=
  if s.text? (.session uid device) ≠ some session then (0, s)
  else
    (1, { s with
      keys := ((s.keys.del (.session uid device)).del (.resource uid device)).del (.node uid device) })

end State

inductive Action
  | issueToken (uid : ℕ) (token : String)
  | issueUserToken (uid : ℕ) (token : String)
  | register (r : Registration)
  | refresh (uid : ℕ) (session : String) (device : Device)
  | release (uid : ℕ) (session : String) (device : Device)
  | tick (ms : ℕ)
  deriving DecidableEq

/-- Issued tokens are fresh, and so is the session id of a connection that logs in. -/
def State.step (s : State) : Action → Option State
  | .issueToken uid token =>
    if token ∈ s.issued.map Prod.fst then none else some (s.issueToken uid token)
  | .issueUserToken uid token =>
    if token ∈ s.issued.map Prod.fst then none else some (s.issueUserToken uid token)
  | .register r =>
    if r.session ∈ s.registrations.map Registration.session then none else some (s.register r).2
  | .refresh uid session device => some (s.refresh uid session device).2
  | .release uid session device => some (s.release uid session device).2
  | .tick ms => some { s with clock := s.clock + ms }

/-- All runs of the scripts, from any nodes, on an empty Redis. -/
def slots : Machine State Action :=
  .ofFn (fun s => (∀ k, s.keys k = none) ∧ s.issued = [] ∧ s.registrations = []) State.step

end CppChat.Session
