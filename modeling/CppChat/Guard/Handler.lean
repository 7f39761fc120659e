import Mathlib.Algebra.GroupWithZero.Nat
import CppChat.Foundation.Counter
import CppChat.Foundation.Transition

/-! # The guard before the gate

The request handler of `GatewayGuard/server.js`: it counts a request by its address and by a
hash of its email, forwards it to the gate, and counts the failures the gate reports. Every
Redis command is one step; times are in milliseconds.
-/
namespace CppChat.Guard
open Foundation

inductive Route
  | getVerifycode
  | userLogin
  | userRegister
  | resetPwd
  deriving DecidableEq

def routes (url : String) : Option Route :=
  match url with
  | "/get_verifycode" => some .getVerifycode
  | "/user_login" => some .userLogin
  | "/user_register" => some .userRegister
  | "/reset_pwd" => some .resetPwd
  | _ => none

/-- The keys, behind the prefix; accounts and addresses are hashes. -/
inductive Key
  | requests (address : String)
  | mailCooldown (account : String)
  | mailHour (account : String)
  | mailGlobal
  | loginAttempts (account : String)
  | verifyAttempts (account : String)
  | loginFailure (account : String)
  | verifyFailure (account : String)
  deriving DecidableEq

/-- A key with its limit and its life in seconds. -/
structure Rule where
  key : Key
  limit : ℕ
  seconds : ℕ

def Rule.ttl (r : Rule) : ℕ := 1000 * r.seconds

def rules (route : Route) (address account : String) : List Rule :=
  ⟨.requests address, 120, 60⟩ ::
    match route with
    | .getVerifycode =>
      [⟨.mailCooldown account, 1, 60⟩, ⟨.mailHour account, 5, 3600⟩, ⟨.mailGlobal, 20, 3600⟩]
    | .userLogin => [⟨.loginAttempts account, 10, 300⟩]
    | .userRegister | .resetPwd => [⟨.verifyAttempts account, 5, 180⟩]

def failureKey (route : Route) (account : String) : Key :=
  if route = .userLogin then .loginFailure account else .verifyFailure account

/-- The first loop of the script: the wait in seconds when a rule is used up. -/
def blockedFor (counters : Keyspace Key ℕ) (now : ℕ) (rules : List Rule) : Option ℕ :=
  rules.findSome? fun r =>
    if r.limit ≤ counters.count now r.key then some (max (counters.ttl now r.key) 1) else none

/-- The second loop. -/
def countAll (counters : Keyspace Key ℕ) (now : ℕ) (rules : List Rule) : Keyspace Key ℕ :=
  rules.foldl (fun c r => c.incr now r.key r.ttl) counters

structure Reply where
  status : ℕ
  error : Int
  message : String
  retryAfter : Option ℕ
  deriving DecidableEq

def unavailable : Reply := ⟨503, 1016, "Request unavailable", none⟩

/-! ## Requests -/

/-- What the gate reads out of a body; `none` when missing or no string. -/
structure LoginForm where
  email : Option String
  passwd : Option String

/-- The bytes of a body as each side reads them: `parsed` and `email` are the guard's, and
`login` is what the parser of the gate makes of the same bytes. -/
structure Body where
  size : ℕ
  parsed : Bool
  email : Option String
  login : Option LoginForm

/-- The address is the one `clientAddress` returns. -/
structure Request where
  method : String
  url : String
  address : String
  body : Body

def jsSpace (c : Char) : Bool :=
  c.toNat ∈ [0x09, 0x0A, 0x0B, 0x0C, 0x0D, 0x20, 0xA0, 0x1680, 0x2028, 0x2029, 0x202F, 0x205F,
    0x3000, 0xFEFF] ∨ 0x2000 ≤ c.toNat ∧ c.toNat ≤ 0x200A

def utf16Length (text : String) : ℕ :=
  (text.toList.map fun c => if c.toNat < 0x10000 then 1 else 2).sum

/-- `/^[^\s@]+@[^\s@]+\.[^\s@]+$/`. -/
def validEmail (email : String) : Bool :=
  let part := email.toList.takeWhile (· ≠ '@')
  let domain := email.toList.drop (part.length + 1)
  part ≠ [] ∧ part.length < email.toList.length ∧ '@' ∉ domain ∧
    email.toList.all (! jsSpace ·) ∧ '.' ∈ (domain.drop 1).dropLast

def trim (text : String) : String :=
  .ofList ((text.toList.dropWhile jsSpace).reverse.dropWhile jsSpace).reverse

/-! ## The gate -/

/-- A row of `users`; the password stands for its hash and salt. -/
structure User where
  uid : ℕ
  email : String
  password : String
  deriving DecidableEq

variable {W : Type} [DecidableEq W] (weight : String → W)

/-- `/user_login` of the gate: the error it reports, and the account whose password it
checked. `status` is the answer of the status service. -/
def userLogin (users : List User) (form : Option LoginForm) (dbFailed : Bool) (status : Int) :
    Int × Option ℕ :=
  let email := (form.bind LoginForm.email).getD ""
  let passwd := (form.bind LoginForm.passwd).getD ""
  if email = "" ∨ passwd = "" ∨ 255 < email.utf8ByteSize ∨ 128 < passwd.utf8ByteSize then
    (1001, none)
  else if dbFailed then (1014, none)
  else match users.find? fun u => weight u.email = weight email with
    | none => (1009, none)
    | some u => (if u.password = passwd then status else 1009, some u.uid)

/-! ## The handler -/

inductive Stage
  | reading
  | counting
  | forwarding (counted : ℕ)
  | finishing (error : Int)
  | answered (error : Int)
  | replied (reply : Reply)
  deriving DecidableEq

structure Call where
  route : Route
  address : String
  account : String
  login : Option LoginForm
  stage : Stage

/-- What took effect, newest first: the start of a life of a key, a request counted by a key,
and a password checked for a request that was counted at a time. -/
inductive Event
  | born (key : Key) (time : ℕ)
  | counted (call : ℕ) (key : Key) (time : ℕ)
  | checked (call uid counted : ℕ)
  deriving DecidableEq

structure State where
  now : ℕ
  counters : Keyspace Key ℕ
  users : List User
  calls : ℕ → Option (Call ⊕ Reply)
  log : List Event

inductive Action
  | tick (milliseconds : ℕ)
  | setUsers (users : List User)
  | receive (k : ℕ) (request : Request)
  | readFailures (k : ℕ) (failed : Bool)
  | count (k : ℕ) (outcome : Outcome)
  | forward (k : ℕ) (dbFailed answered : Bool) (status : Int)
  | finish (k : ℕ) (outcome : Outcome)

variable (hash : String → String) (toLowerCase : String → String)

/-- The checks before any command. -/
def receive (request : Request) : Except Reply Call :=
  match routes request.url with
  | none => .error ⟨404, 1001, "Unknown endpoint", none⟩
  | some route =>
    if request.method ≠ "POST" then .error ⟨404, 1001, "Unknown endpoint", none⟩
    else if 32768 < request.body.size then .error ⟨413, 1001, "Request unavailable", none⟩
    else if ¬ request.body.parsed then .error ⟨400, 1001, "Invalid JSON", none⟩
    else match request.body.email with
      | none => .error ⟨400, 1001, "Invalid email", none⟩
      | some email =>
        if 255 < utf16Length email ∨ ¬ validEmail email then
          .error ⟨400, 1001, "Invalid email", none⟩
        else .ok
          { route
            address := hash request.address
            account := hash (toLowerCase (trim email))
            login := request.body.login
            stage := if route = .getVerifycode then .counting else .reading }

namespace State

def setCall (s : State) (k : ℕ) (c : Call) (stage : Stage) : State :=
  { s with calls := Function.update s.calls k (some (.inl { c with stage })) }

def call? (s : State) (k : ℕ) : Option Call :=
  match s.calls k with
  | some (.inl c) => some c
  | _ => none

def readFailures (s : State) (k : ℕ) (c : Call) (failed : Bool) : State :=
  let key := failureKey c.route c.account
  s.setCall k c <|
    if failed then .replied unavailable
    else if 5 ≤ s.counters.count s.now key then
      .replied ⟨429, 1016, "Too many failed attempts", some (max (s.counters.ttl s.now key) 1)⟩
    else .counting

/-- The events of one pass of the script. -/
def countEvents (s : State) (k : ℕ) (rules : List Rule) : List Event :=
  rules.flatMap fun r =>
    .counted k r.key s.now ::
      if s.counters.count s.now r.key = 0 then [.born r.key s.now] else []

def count (s : State) (k : ℕ) (c : Call) (outcome : Outcome) : State :=
  let rules := rules c.route c.address c.account
  if outcome = .failed then s.setCall k c (.replied unavailable)
  else match blockedFor s.counters s.now rules with
    | some wait =>
      s.setCall k c (.replied
        (if outcome = .ok then ⟨429, 1016, "Too many requests", some wait⟩ else unavailable))
    | none =>
      let s := { s with
        counters := countAll s.counters s.now rules
        log := s.countEvents k rules ++ s.log }
      s.setCall k c (if outcome = .ok then .forwarding s.now else .replied unavailable)

/-- The gate works on the request, whether its answer arrives or not. Only logins check
a password; the other routes answer `status`. -/
def forward (s : State) (k : ℕ) (c : Call) (counted : ℕ) (dbFailed answered : Bool)
    (status : Int) : State :=
  let (error, uid) :=
    if c.route = .userLogin then userLogin weight s.users c.login dbFailed status
    else (status, none)
  let s := { s with log := (uid.map (Event.checked k · counted)).toList ++ s.log }
  s.setCall k c (if answered then .finishing error else .replied unavailable)

def finish (s : State) (k : ℕ) (c : Call) (error : Int) (outcome : Outcome) : State :=
  let key := failureKey c.route c.account
  if c.route = .userLogin ∧ error = 1009 ∨ c.route ≠ .getVerifycode ∧ error ∈ [1003, 1004] then
    let ttl := 1000 * if c.route = .userLogin then 300 else 180
    let s := if outcome.tookEffect then { s with counters := s.counters.incr s.now key ttl } else s
    s.setCall k c (if outcome = .ok then .answered error else .replied unavailable)
  else if c.route ≠ .getVerifycode ∧ error = 0 then
    let s := if outcome.tookEffect then { s with counters := s.counters.del key } else s
    s.setCall k c (if outcome = .ok then .answered error else .replied unavailable)
  else s.setCall k c (.answered error)

def step (s : State) : Action → Option State
  | .tick milliseconds => some { s with now := s.now + milliseconds }
  | .setUsers users => some { s with users }
  | .receive k request =>
    if s.calls k ≠ none then none
    else match receive hash toLowerCase request with
      | .error reply => some { s with calls := Function.update s.calls k (some (.inr reply)) }
      | .ok c => some (s.setCall k c c.stage)
  | .readFailures k failed =>
    match s.call? k with
    | some c => if c.stage = .reading then some (s.readFailures k c failed) else none
    | none => none
  | .count k outcome =>
    match s.call? k with
    | some c => if c.stage = .counting then some (s.count k c outcome) else none
    | none => none
  | .forward k dbFailed answered status =>
    match s.call? k with
    | some c =>
      match c.stage with
      | .forwarding counted => some (s.forward weight k c counted dbFailed answered status)
      | _ => none
    | none => none
  | .finish k outcome =>
    match s.call? k with
    | some c =>
      match c.stage with
      | .finishing error => some (s.finish k c error outcome)
      | _ => none
    | none => none

end State

/-- All runs of the guard, with no counter at the start. -/
def guard : Machine State Action :=
  .ofFn (fun s => s.counters = (fun _ => none) ∧ s.calls = (fun _ => none) ∧ s.log = [])
    (State.step weight hash toLowerCase)

end CppChat.Guard
