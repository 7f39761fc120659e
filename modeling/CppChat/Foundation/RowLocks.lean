import CppChat.Foundation.Expiring
import CppChat.Foundation.Transition

/-! # Transactions over locked rows

A program is the statements of a transaction: locking reads, plain reads, changes of a row
and fresh keys. The engine interleaves the statements of any number of transactions: a
locking read waits for the row and sees its last committed value, plain reads see the
snapshot that the first of them takes, and changes become visible with the commit, all at
once. A row that is not there is locked like a gap: the lock keeps inserts out, not other
readers.
-/
namespace CppChat.Foundation.RowLocks

variable {R : Type} {V : R → Type} {A Op : Type}

/-- The rows of a database, by their keys. -/
abbrev Db (V : R → Type) := ∀ r, Option (V r)

/-- The changes of a transaction; a row changed to `none` is deleted. -/
abbrev Writes (V : R → Type) := ∀ r, Option (Option (V r))

def overlay (writes : Writes V) (db : Db V) : Db V := fun r => (writes r).getD (db r)

inductive Mode
  | share
  | update

/-- Whether a locking read holds the row alone: a gap is never held alone. -/
def Mode.alone : Mode → (present : Bool) → Bool
  | .share, _ => false
  | .update, present => present

/-- The statements of a transaction. A change that yields `none` is an SQL error. -/
inductive Prog (V : R → Type) (A : Type) : Type
  | finish (commit : Bool) (result : A)
  | lock (mode : Mode) (r : R) (next : Option (V r) → Prog V A)
  | select (rows : R → Prop) (next : (∀ r, rows r → Option (V r)) → Prog V A)
  | modify (r : R) (change : Option (V r) → Option (Option (V r))) (next : Prog V A)
  | fresh (row : ℕ → R) (next : ℕ → Prog V A)

namespace Prog

/-- A plain read of one row. -/
def read (r : R) (next : Option (V r) → Prog V A) : Prog V A :=
  .select (fun q => q = r) fun view => next (view r rfl)

/-- `INSERT`: an error when the key is there. -/
def insert (r : R) (v : V r) (next : Prog V A) : Prog V A :=
  .modify r (fun old => if old.isSome then none else some (some v)) next

/-- `UPDATE` of one row: nothing when it is not there. -/
def update (r : R) (f : V r → V r) (next : Prog V A) : Prog V A :=
  .modify r (fun old => some (old.map f)) next

def delete (r : R) (next : Prog V A) : Prog V A := .modify r (fun _ => some none) next

def finished : Prog V A → Bool
  | .finish .. => true
  | _ => false

end Prog

/-! ## The engine -/

/-- The operations of a service: how often each is tried, and what it reports when an SQL
error ends it. -/
structure Service (V : R → Type) (A Op : Type) where
  program : Op → Prog V A
  attempts : Op → ℕ
  failed : Op → A

structure Txn (V : R → Type) (A : Type) where
  prog : Prog V A
  writes : Writes V
  snapshot : Option (Db V)
  drawn : List R

def Txn.start (prog : Prog V A) : Txn V A := ⟨prog, fun _ => none, none, []⟩

inductive Stage (V : R → Type) (A : Type)
  | running (attempt : ℕ) (txn : Txn V A)
  | finished (result : A)

structure Call (V : R → Type) (A Op : Type) where
  op : Op
  stage : Stage V A

/-- What the call has reported. -/
def Call.result : Call V A Op → Option A
  | ⟨_, .finished result⟩ => some result
  | ⟨_, .running ..⟩ => none

/-- `used` lists the keys ever drawn or present, `locks` the calls that hold a row, with
whether they hold it alone, and `log` the operations in the order of their commits. -/
structure State (V : R → Type) (A Op : Type) where
  db : Db V
  used : List R
  locks : R → List (ℕ × Bool)
  calls : ℕ → Option (Call V A Op)
  log : List (Op × A)

inductive Action (Op : Type)
  | begin (k : ℕ) (op : Op)
  | statement (k n : ℕ)
  | fail (k : ℕ) (retryable : Bool)
  | rollback (k : ℕ)
  | commit (k : ℕ) (outcome : Outcome)

namespace State

def setCall (s : State V A Op) (k : ℕ) (op : Op) (stage : Stage V A) : State V A Op :=
  { s with calls := Function.update s.calls k (some ⟨op, stage⟩) }

/-- The call may take the row. -/
def Free (s : State V A Op) (k : ℕ) (r : R) (alone : Bool) : Prop :=
  ∀ holder ∈ s.locks r, holder.1 = k ∨ alone = false ∧ holder.2 = false

instance (s : State V A Op) (k : ℕ) (r : R) (alone : Bool) : Decidable (s.Free k r alone) :=
  inferInstanceAs (Decidable (∀ holder ∈ s.locks r, _))

variable [DecidableEq R]

def take (s : State V A Op) (k : ℕ) (r : R) (alone : Bool) : State V A Op :=
  { s with locks := Function.update s.locks r ((k, alone) :: s.locks r) }

/-- The call ends: its locks are gone. -/
def release (s : State V A Op) (k : ℕ) (op : Op) (stage : Stage V A) : State V A Op :=
  setCall { s with locks := fun r => (s.locks r).filter fun holder => holder.1 ≠ k } k op stage

/-- The next statement of a running call; a call that has to wait takes none. -/
def statement (s : State V A Op) (k : ℕ) (op : Op) (attempt : ℕ) (t : Txn V A) (n : ℕ) :
    Option (State V A Op) :=
  match t.prog with
  | .finish .. => none
  | .lock mode r next =>
    let row := overlay t.writes s.db r
    let alone := mode.alone row.isSome
    if s.Free k r alone then
      some ((s.take k r alone).setCall k op (.running attempt { t with prog := next row }))
    else none
  | .select _ next =>
    let snapshot := t.snapshot.getD s.db
    some (s.setCall k op (.running attempt { t with
      prog := next fun r _ => overlay t.writes snapshot r
      snapshot := some snapshot }))
  | .modify r change next =>
    if s.Free k r true then
      (change (overlay t.writes s.db r)).map fun row =>
        (s.take k r true).setCall k op (.running attempt { t with
          prog := next
          writes := Function.update t.writes r (some row) })
    else none
  | .fresh row next =>
    if n ≠ 0 ∧ row n ∉ s.used then
      some (setCall { s with used := row n :: s.used } k op (.running attempt { t with
        prog := next n
        drawn := row n :: t.drawn }))
    else none

/-- An SQL error before the commit rolls back, and may be tried again. -/
def fail (svc : Service V A Op) (s : State V A Op) (k : ℕ) (op : Op) (attempt : ℕ)
    (retryable : Bool) : State V A Op :=
  s.release k op <|
    if retryable ∧ attempt + 1 < svc.attempts op then
      .running (attempt + 1) (Txn.start (svc.program op))
    else .finished (svc.failed op)

/-- The commit of a transaction that has come to its end. -/
def commit (svc : Service V A Op) (s : State V A Op) (k : ℕ) (op : Op) (t : Txn V A)
    (result : A) (outcome : Outcome) : State V A Op :=
  let s := if outcome.tookEffect then
    { s with db := overlay t.writes s.db, log := (op, result) :: s.log } else s
  s.release k op (.finished (if outcome = .ok then result else svc.failed op))

def step (svc : Service V A Op) (s : State V A Op) : Action Op → Option (State V A Op)
  | .begin k op =>
    match s.calls k with
    | none => some (s.setCall k op (.running 0 (Txn.start (svc.program op))))
    | some _ => none
  | .statement k n =>
    match s.calls k with
    | some ⟨op, .running attempt t⟩ => s.statement k op attempt t n
    | _ => none
  | .fail k retryable =>
    match s.calls k with
    | some ⟨op, .running attempt t⟩ =>
      if t.prog.finished then none else some (s.fail svc k op attempt retryable)
    | _ => none
  | .rollback k =>
    match s.calls k with
    | some ⟨op, .running _ t⟩ =>
      match t.prog with
      | .finish false result => some (s.release k op (.finished result))
      | _ => none
    | _ => none
  | .commit k outcome =>
    match s.calls k with
    | some ⟨op, .running _ t⟩ =>
      match t.prog with
      | .finish true result => some (s.commit svc k op t result outcome)
      | _ => none
    | _ => none

end State

/-- All interleavings of the operations of a service, from the databases it may start with. -/
def engine [DecidableEq R] (svc : Service V A Op) (init : Db V → Prop) :
    Machine (State V A Op) (Action Op) :=
  .ofFn (fun s => init s.db ∧ (∀ r, (s.db r).isSome → r ∈ s.used) ∧ s.locks = (fun _ => []) ∧
    s.calls = (fun _ => none) ∧ s.log = []) (State.step svc)

/-! ## Operations one after another -/

/-- What a program does when it runs alone: how it ends, and the rows and drawn keys then. -/
def Prog.Ends [DecidableEq R] : Prog V A → Db V → List R → Bool → A → Db V → List R → Prop
  | .finish commit result, db, ns, commit', result', db', ns' =>
    commit' = commit ∧ result' = result ∧ db' = db ∧ ns' = ns
  | .lock _ r next, db, ns, commit', result', db', ns' =>
    (next (db r)).Ends db ns commit' result' db' ns'
  | .select _ next, db, ns, commit', result', db', ns' =>
    (next fun r _ => db r).Ends db ns commit' result' db' ns'
  | .modify r change next, db, ns, commit', result', db', ns' =>
    ∃ row, change (db r) = some row ∧
      next.Ends (Function.update db r row) ns commit' result' db' ns'
  | .fresh row next, db, ns, commit', result', db', ns' =>
    ∃ n, n ≠ 0 ∧ (next n).Ends db (row n :: ns) commit' result' db' ns'

section
variable [DecidableEq R] {db db' : Db V} {ns ns' : List R} {commit commit' : Bool}
  {result result' : A} {r : R}

theorem Prog.ends_lock {mode : Mode} {next : Option (V r) → Prog V A} :
    (Prog.lock mode r next).Ends db ns commit result db' ns' ↔
      (next (db r)).Ends db ns commit result db' ns' := Iff.rfl

theorem Prog.ends_read {next : Option (V r) → Prog V A} :
    (Prog.read r next).Ends db ns commit result db' ns' ↔
      (next (db r)).Ends db ns commit result db' ns' := Iff.rfl

theorem Prog.ends_insert {v : V r} {next : Prog V A} :
    (Prog.insert r v next).Ends db ns commit result db' ns' ↔
      db r = none ∧ next.Ends (Function.update db r (some v)) ns commit result db' ns' := by
  constructor
  · rintro ⟨row, hrow, h⟩
    dsimp only at hrow
    split at hrow
    · cases hrow
    next hnone =>
      cases hrow
      exact ⟨Option.not_isSome_iff_eq_none.mp hnone, h⟩
  · rintro ⟨hnone, h⟩
    exact ⟨some v, by simp [hnone], h⟩

theorem Prog.ends_update {f : V r → V r} {next : Prog V A} :
    (Prog.update r f next).Ends db ns commit result db' ns' ↔
      next.Ends (Function.update db r ((db r).map f)) ns commit result db' ns' := by
  constructor
  · rintro ⟨_, ⟨⟩, h⟩
    exact h
  · exact fun h => ⟨_, rfl, h⟩

theorem Prog.ends_delete {next : Prog V A} :
    (Prog.delete r next).Ends db ns commit result db' ns' ↔
      next.Ends (Function.update db r none) ns commit result db' ns' := by
  constructor
  · rintro ⟨_, ⟨⟩, h⟩
    exact h
  · exact fun h => ⟨_, rfl, h⟩

end

/-- The rows that a program may change. -/
def Prog.Touches (rows : R → Prop) : Prog V A → Prop
  | .finish .. => True
  | .lock _ r next => ∀ row : Option (V r), (next row).Touches rows
  | .select _ next => ∀ view, (next view).Touches rows
  | .modify r _ next => rows r ∧ next.Touches rows
  | .fresh _ next => ∀ n, (next n).Touches rows

/-- The frame of a program: all other rows stay. -/
theorem Prog.Touches.frame [DecidableEq R] {rows : R → Prop} {p : Prog V A} {db db' : Db V}
    {ns ns' : List R} {commit : Bool} {result : A} (h : p.Touches rows)
    (hends : p.Ends db ns commit result db' ns') {r : R} (hr : ¬ rows r) : db' r = db r := by
  induction p generalizing db ns with
  | finish =>
    obtain ⟨-, -, rfl, -⟩ := hends
    rfl
  | lock mode q next ih => exact ih _ (h _) hends
  | select q next ih => exact ih _ (h _) hends
  | modify q change next ih =>
    obtain ⟨row, -, hends⟩ := hends
    have hne : r ≠ q := by
      rintro rfl
      exact hr h.1
    rw [ih h.2 hends, Function.update_of_ne hne]
  | fresh row next ih =>
    obtain ⟨n, -, hends⟩ := hends
    exact ih n (h n) hends

/-- A store that operations change one after another. -/
structure Store (V : R → Type) (A Op : Type) where
  db : Db V
  used : List R
  log : List (Op × A)

/-- One committed operation, whose drawn keys are new. -/
def Store.Commits [DecidableEq R] (svc : Service V A Op) (t : Store V A Op) (op : Op) (result : A)
    (ns : List R) (t' : Store V A Op) : Prop :=
  (svc.program op).Ends t.db [] true result t'.db ns ∧ ns.Nodup ∧ (∀ r ∈ ns, r ∉ t.used) ∧
    t'.used = ns ++ t.used ∧ t'.log = (op, result) :: t.log

def atomic [DecidableEq R] (svc : Service V A Op) (init : Db V → Prop) :
    Machine (Store V A Op) Op where
  init t := init t.db ∧ (∀ r, (t.db r).isSome → r ∈ t.used) ∧ t.log = []
  step t op t' := ∃ result ns, t.Commits svc op result ns t'

end CppChat.Foundation.RowLocks
