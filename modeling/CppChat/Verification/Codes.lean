import Mathlib.Data.List.Basic
import CppChat.Foundation.Expiring
import CppChat.Foundation.Transition

/-! # Verification codes by mail

`GetVerifyCode` of the verify service stores a code and mails it; the gate's register and
reset requests check it under a lease, change the account and delete the code. Every call
runs one Redis command, one mail or one SQL statement a step. Times are in seconds.
-/
namespace CppChat.Verification
open Foundation

namespace ErrorCodes

def success : Int := 0
def errorJson : Int := 1001
def verifyExpired : Int := 1003
def verifyCodeErr : Int := 1004
def userExist : Int := 1005
def passwdErr : Int := 1006
def emailNotMatch : Int := 1007
def passwdUpFailed : Int := 1008
def databaseError : Int := 1014
def redisError : Int := 1015
def internalError : Int := 1016

end ErrorCodes

/-- A row of `users`; the password stands for its hash and salt. -/
structure User where
  uid : ℕ
  username : String
  email : String
  password : String
  deriving DecidableEq

/-! ## `GetVerifyCode` -/

def verifyCodeTtlSeconds : ℕ := 180

/-- Where a call stands; the deadline is that of the code it stored or read. -/
inductive CallStage
  | reading
  | storing (code : String)
  | mailing (code : String) (deadline : ℕ)
  | mailed (code : String) (deadline : ℕ)
  | failed (error : Int)
  deriving DecidableEq

structure VerifyCall where
  email : String
  stage : CallStage
  deriving DecidableEq

/-! ## `/user_register` and `/reset_pwd` -/

inductive Kind
  | register
  | reset
  deriving DecidableEq

/-- The fields of a request; `none` when missing or no string. -/
structure Form where
  user : Option String
  email : Option String
  passwd : Option String
  confirm : Option String
  verifycode : Option String

inductive Stage
  | locking
  | checking
  | changing
  | updating (uid : ℕ)
  | deleting
  | releasing (error : Int)
  | finished (error : Int)
  deriving DecidableEq

/-- A request past its validation. `checked` is the deadline of the code it found to match,
and `changed` says that it changed an account. -/
structure Request where
  kind : Kind
  name : String
  email : String
  password : String
  code : String
  stage : Stage
  checked : Option ℕ
  changed : Bool
  deriving DecidableEq

def Request.at (r : Request) (stage : Stage) : Request := { r with stage }

def Form.required (f : Form) : Kind → List (Option String)
  | .register => [f.user, f.email, f.passwd, f.confirm, f.verifycode]
  | .reset => [f.user, f.email, f.passwd, f.verifycode]

/-- The checks before the lease is taken. -/
def validate (kind : Kind) (f : Form) : Except Int Request :=
  if ∃ field ∈ f.required kind, field.getD "" = "" then .error ErrorCodes.errorJson
  else
    let name := f.user.getD ""
    let email := f.email.getD ""
    let password := f.passwd.getD ""
    if 64 < name.utf8ByteSize ∨ 255 < email.utf8ByteSize ∨ 128 < password.utf8ByteSize then
      .error ErrorCodes.errorJson
    else if kind = .register ∧ password ≠ f.confirm.getD "" then .error ErrorCodes.passwdErr
    else .ok ⟨kind, name, email, password, f.verifycode.getD "", .locking, none, false⟩

/-- What took effect, newest first. -/
inductive Event
  | codeSet (email code : String)
  | mail (email code : String)
  | passwordSet (uid : ℕ) (rowEmail email code : String)
  | codeDeleted (request : ℕ) (email : String)
  deriving DecidableEq

/-- `codes` and `locks` are the Redis keys `code_…` and `verification_lock_code_…` by their
email; a lock names the request that owns it. `generated` lists every code ever drawn. -/
structure State where
  now : ℕ
  codes : Keyspace String String
  locks : Keyspace String ℕ
  users : List User
  calls : ℕ → Option VerifyCall
  requests : ℕ → Option (Request ⊕ Int)
  generated : List (String × String)
  log : List Event

inductive Action
  | tick (seconds : ℕ)
  | getVerifyCode (k : ℕ) (email : String)
  | readCode (k : ℕ) (failed : Bool) (n : ℕ)
  | storeCode (k : ℕ) (outcome : Outcome)
  | mailCode (k : ℕ) (outcome : Outcome)
  | submit (k : ℕ) (kind : Kind) (form : Form)
  | acquire (k : ℕ) (outcome : Outcome)
  | check (k : ℕ) (failed : Bool)
  | change (k uid : ℕ) (outcome : Outcome)
  | update (k : ℕ) (outcome : Outcome)
  | delete (k : ℕ) (outcome : Outcome)
  | release (k : ℕ) (outcome : Outcome)

namespace State

def setCall (s : State) (k : ℕ) (c : VerifyCall) : State :=
  { s with calls := Function.update s.calls k (some c) }

def setRequest (s : State) (k : ℕ) (r : Request) : State :=
  { s with requests := Function.update s.requests k (some (.inl r)) }

def request? (s : State) (k : ℕ) : Option Request :=
  match s.requests k with
  | some (.inl r) => some r
  | _ => none

/-- A failed read counts as no code. -/
def readCode (s : State) (k : ℕ) (c : VerifyCall) (failed : Bool) (n : ℕ) : Option State :=
  match if failed then none else s.codes.get s.now c.email, s.codes c.email with
  | some code, some cell => some (s.setCall k { c with stage := .mailing code cell.deadline })
  | _, _ =>
    if 100000 ≤ n ∧ n < 1000000 then
      some ({ s with generated := (c.email, toString n) :: s.generated }.setCall k
        { c with stage := .storing (toString n) })
    else none

def storeCode (s : State) (k : ℕ) (c : VerifyCall) (code : String) (outcome : Outcome) : State :=
  let deadline := s.now + verifyCodeTtlSeconds
  let s := if outcome.tookEffect then
    { s with
      codes := s.codes.set c.email code deadline
      log := .codeSet c.email code :: s.log }
    else s
  s.setCall k { c with
    stage := if outcome = .ok then .mailing code deadline else .failed ErrorCodes.redisError }

def mailCode (s : State) (k : ℕ) (c : VerifyCall) (code : String) (deadline : ℕ)
    (outcome : Outcome) : State :=
  let s := if outcome.tookEffect then { s with log := .mail c.email code :: s.log } else s
  s.setCall k { c with
    stage := if outcome = .ok then .mailed code deadline else .failed ErrorCodes.internalError }

/-- `SET … NX EX 60`. -/
def acquire (s : State) (k : ℕ) (r : Request) (outcome : Outcome) : State :=
  if s.locks.get s.now r.email ≠ none then
    s.setRequest k (r.at (.finished
      (if outcome = .ok then ErrorCodes.verifyExpired else ErrorCodes.redisError)))
  else
    let s := if outcome.tookEffect then { s with locks := s.locks.set r.email k (s.now + 60) } else s
    s.setRequest k (r.at (if outcome = .ok then .checking else .finished ErrorCodes.redisError))

def check (s : State) (k : ℕ) (r : Request) (failed : Bool) : State :=
  match if failed then none else s.codes.get s.now r.email with
  | none => s.setRequest k (r.at (.releasing ErrorCodes.verifyExpired))
  | some code =>
    if code ≠ r.code then s.setRequest k (r.at (.releasing ErrorCodes.verifyCodeErr))
    else
      let r : Request := { r with checked := (s.codes r.email).map Cell.deadline }
      s.setRequest k (r.at .changing)

end State

variable {W : Type} [DecidableEq W] (weight : String → W)

/-- The columns of `users` compare by the weight of a string. -/
def User.Named (u : User) (name : String) : Prop := weight u.username = weight name
def User.Addressed (u : User) (email : String) : Prop := weight u.email = weight email

instance (u : User) (name : String) : Decidable (u.Named weight name) :=
  inferInstanceAs (Decidable (_ = _))

instance (u : User) (email : String) : Decidable (u.Addressed weight email) :=
  inferInstanceAs (Decidable (_ = _))

namespace State

/-- `RegUser`: both columns are unique. -/
def regUser (s : State) (k uid : ℕ) (r : Request) (outcome : Outcome) : Option State :=
  if outcome = .failed then
    some (s.setRequest k (r.at (.releasing ErrorCodes.databaseError)))
  else if ∃ u ∈ s.users, u.Named weight r.name ∨ u.Addressed weight r.email then
    some (s.setRequest k (r.at (.releasing ErrorCodes.userExist)))
  else if uid = 0 ∨ ∃ u ∈ s.users, u.uid = uid then none
  else
    let r : Request := { r with changed := true }
    let s : State := { s with users := s.users ++ [⟨uid, r.name, r.email, r.password⟩] }
    some (s.setRequest k
      (r.at (if outcome = .ok then .deleting else .releasing ErrorCodes.databaseError)))

/-- `CheckEmail`. -/
def checkEmail (s : State) (k : ℕ) (r : Request) (outcome : Outcome) : State :=
  if outcome ≠ .ok then s.setRequest k (r.at (.releasing ErrorCodes.databaseError))
  else match s.users.find? fun u => u.Named weight r.name ∧ u.Addressed weight r.email with
    | none => s.setRequest k (r.at (.releasing ErrorCodes.emailNotMatch))
    | some u => s.setRequest k (r.at (.updating u.uid))

/-- `UpdatePwd`: the `UPDATE` matches the account by its id and its email. -/
def updatePwd (s : State) (k uid : ℕ) (r : Request) (outcome : Outcome) : State :=
  if outcome = .failed then
    s.setRequest k (r.at (.releasing ErrorCodes.databaseError))
  else match s.users.filter fun u => u.uid = uid ∧ u.Addressed weight r.email with
    | [u] =>
      let r : Request := { r with changed := true }
      let s : State := { s with
        users := s.users.map fun u =>
          if u.uid = uid ∧ u.Addressed weight r.email then { u with password := r.password } else u
        log := .passwordSet uid u.email r.email r.code :: s.log }
      s.setRequest k
        (r.at (if outcome = .ok then .deleting else .releasing ErrorCodes.databaseError))
    | _ => s.setRequest k (r.at (.releasing ErrorCodes.passwdUpFailed))

def deleteCode (s : State) (k : ℕ) (r : Request) (outcome : Outcome) : State :=
  let s := if outcome.tookEffect then
    { s with
      codes := s.codes.del r.email
      log := .codeDeleted k r.email :: s.log }
    else s
  s.setRequest k (r.at (.releasing
    (if outcome = .ok then ErrorCodes.success else ErrorCodes.redisError)))

/-- The destructor of the lease: deletes the lock only while it is its own. -/
def release (s : State) (k : ℕ) (r : Request) (error : Int) (outcome : Outcome) : State :=
  let s := if outcome.tookEffect ∧ s.locks.get s.now r.email = some k then
    { s with locks := s.locks.del r.email } else s
  s.setRequest k (r.at (.finished error))

def step (s : State) : Action → Option State
  | .tick seconds => some { s with now := s.now + seconds }
  | .getVerifyCode k email => if s.calls k = none then some (s.setCall k ⟨email, .reading⟩) else none
  | .readCode k failed n =>
    match s.calls k with
    | some c => if c.stage = .reading then s.readCode k c failed n else none
    | none => none
  | .storeCode k outcome =>
    match s.calls k with
    | some ⟨email, .storing code⟩ => some (s.storeCode k ⟨email, .storing code⟩ code outcome)
    | _ => none
  | .mailCode k outcome =>
    match s.calls k with
    | some ⟨email, .mailing code deadline⟩ =>
      some (s.mailCode k ⟨email, .mailing code deadline⟩ code deadline outcome)
    | _ => none
  | .submit k kind form =>
    if s.requests k ≠ none then none
    else match validate kind form with
      | .error e => some { s with requests := Function.update s.requests k (some (.inr e)) }
      | .ok r => some (s.setRequest k r)
  | .acquire k outcome =>
    match s.request? k with
    | some r => if r.stage = .locking then some (s.acquire k r outcome) else none
    | none => none
  | .check k failed =>
    match s.request? k with
    | some r => if r.stage = .checking then some (s.check k r failed) else none
    | none => none
  | .change k uid outcome =>
    match s.request? k with
    | some r =>
      if r.stage ≠ .changing then none
      else match r.kind with
        | .register => s.regUser weight k uid r outcome
        | .reset => some (s.checkEmail weight k r outcome)
    | none => none
  | .update k outcome =>
    match s.request? k with
    | some r =>
      match r.stage with
      | .updating uid => some (s.updatePwd weight k uid r outcome)
      | _ => none
    | none => none
  | .delete k outcome =>
    match s.request? k with
    | some r => if r.stage = .deleting then some (s.deleteCode k r outcome) else none
    | none => none
  | .release k outcome =>
    match s.request? k with
    | some r =>
      match r.stage with
      | .releasing error => some (s.release k r error outcome)
      | _ => none
    | none => none

end State

/-- All runs from any table of users, with no code stored. -/
def service : Machine State Action :=
  .ofFn (fun s => s.codes = (fun _ => none) ∧ s.locks = (fun _ => none) ∧
    s.calls = (fun _ => none) ∧ s.requests = (fun _ => none) ∧ s.generated = [] ∧ s.log = [])
    (State.step weight)

end CppChat.Verification
