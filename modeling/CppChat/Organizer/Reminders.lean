import Mathlib.Algebra.GroupWithZero.Nat
import Mathlib.Data.Int.Order.Basic
import Mathlib.Data.List.Sort
import CppChat.Foundation.Table
import CppChat.Foundation.Transition
import CppChat.Organizer.Notes

/-! # Reminders of the account database and the service that announces them

Every call of `ChatStore` is a task of one worker thread, and its result comes back to the main
thread as an event; both keep their order. `ReminderService` lives on the main thread. It checks
at each tick of its timer and after every change of the reminders.
-/
namespace CppChat.Organizer
open Foundation

/-- A reminder as the callers have it; a new one has the id 0. -/
structure LocalReminder where
  id : Int
  threadId : Int
  serverId : Int
  subject : String
  excerpt : Option String
  dueMs : Int
  createdMs : Int
  due : Bool
  deriving DecidableEq

/-- A row of `local_reminders`. -/
structure ReminderRow where
  id : Int
  threadId : Int
  serverId : Int
  subject : String
  excerpt : String
  dueMs : Int
  createdMs : Int
  due : Bool
  deriving DecidableEq

/-- The table with its `AUTOINCREMENT` counter. -/
structure ReminderTable where
  reminders : Keyed ReminderRow ReminderRow.id
  sequence : Int

/-! ## Statements -/

namespace ReminderTable

def readReminder (r : ReminderRow) : LocalReminder :=
  ⟨r.id, r.threadId, r.serverId, r.subject, some r.excerpt, r.dueMs, r.createdMs, r.due⟩

def nextId (t : ReminderTable) : Int :=
  t.reminders.rows.foldl (fun m r => max m r.id) t.sequence + 1

/-- `INSERT … SELECT … WHERE (SELECT COUNT(*) …)<500 AND EXISTS(… messages …) RETURNING …`. -/
def insertReminder (t : ReminderTable) (messages : Int → Int → Bool) (reminder : LocalReminder)
    (now : Int) : Option (ReminderRow × ReminderTable) :=
  if 500 ≤ t.reminders.rows.length ∨ messages reminder.threadId reminder.serverId = false ∨
      (NoteTable.maxRowId : Int) < t.nextId then none
  else
    let row : ReminderRow := ⟨t.nextId, reminder.threadId, reminder.serverId, reminder.subject,
      reminder.excerpt.getD "", reminder.dueMs, now, false⟩
    (t.reminders.insert row).map fun reminders => (row, ⟨reminders, t.nextId⟩)

/-- `UPDATE local_reminders SET due_ms=?,due=0 WHERE id=? RETURNING …`. -/
def reschedule (t : ReminderTable) (id dueMs : Int) : Option (ReminderRow × ReminderTable) :=
  match Keyed.lookup t.reminders id with
  | none => none
  | some row =>
    let change (r : ReminderRow) : ReminderRow := { r with dueMs, due := false }
    some (change row,
      { t with reminders := Keyed.modify t.reminders id change fun _ => rfl })

def reminderMissing : String :=
  "Reminder missing, message deleted, or 500-reminder limit reached"

def saveReminder (t : ReminderTable) (messages : Int → Int → Bool) (now : Int)
    (reminder : LocalReminder) : Except String (List LocalReminder × ReminderTable) :=
  if ¬ (0 ≤ reminder.id ∧ now < reminder.dueMs ∧ reminder.dueMs ≤ now + 366 * 86400000) then
    .error "Choose a future reminder time within one year"
  else if reminder.id = 0 then
    if ¬ (0 < reminder.threadId ∧ 0 < reminder.serverId ∧ trimmed reminder.subject ≠ "" ∧
        utf16Size reminder.subject ≤ 128 ∧ utf16Size (reminder.excerpt.getD "") ≤ 512) then
      .error "Invalid message reminder"
    else match t.insertReminder messages reminder now with
      | none => .error reminderMissing
      | some (row, t) => .ok ([readReminder row], t)
  else match t.reschedule reminder.id reminder.dueMs with
    | none => .error reminderMissing
    | some (row, t) => .ok ([readReminder row], t)

/-- `UPDATE local_reminders SET due=1 WHERE due=0 AND due_ms<=?`, on one row. -/
def mark (now : Int) (r : ReminderRow) : ReminderRow :=
  if r.due = false ∧ r.dueMs ≤ now then { r with due := true } else r

@[simp] theorem mark_id (now : Int) (r : ReminderRow) : (mark now r).id = r.id := by
  unfold mark
  split <;> rfl

@[simp] theorem mark_dueMs (now : Int) (r : ReminderRow) : (mark now r).dueMs = r.dueMs := by
  unfold mark
  split <;> rfl

def markDue (t : ReminderTable) (now : Int) : ReminderTable :=
  { t with reminders := t.reminders.map (mark now) fun a b h => by simpa using h }

/-- `SELECT … WHERE due=1 ORDER BY due_ms,id`. -/
def dueReminders (t : ReminderTable) : List LocalReminder :=
  ((t.reminders.rows.filter fun r => r.due).insertionSort fun a b =>
    a.dueMs < b.dueMs ∨ a.dueMs = b.dueMs ∧ a.id ≤ b.id).map readReminder

def checkDueReminders (t : ReminderTable) (now : Int) :
    Except String (List LocalReminder × ReminderTable) :=
  if ¬ 0 < now then .error "Invalid reminder clock"
  else .ok ((t.markDue now).dueReminders, t.markDue now)

def removeReminder (t : ReminderTable) (id : Int) :
    Except String (List LocalReminder × ReminderTable) :=
  if ¬ 0 < id then .error "Invalid reminder"
  else .ok ([], { t with reminders := t.reminders.delete fun r => r.id = id })

/-- The ids and the due times of the stored reminders. -/
def pairs (t : ReminderTable) : List (Int × Int) := t.reminders.rows.map fun r => (r.id, r.dueMs)

end ReminderTable

/-! ## The worker -/

namespace Reminders

/-- What the engine or the disk may do to a call: nothing, fail it before its write, or fail it
behind its write. -/
inductive Fault
  | never
  | before
  | after
  deriving DecidableEq

/-- A call of the store, as the worker runs it. A check has the revision of the service that
its callback holds. -/
inductive Operation
  | openAccount (directory : String)
  | closeAccount
  | save (reminder : LocalReminder)
  | remove (id : Int)
  | check (now : Int) (revision : ℕ)

namespace Operation

/-- The tasks that change which database is open. -/
def boundary : Operation → Bool
  | .openAccount _ | .closeAccount => true
  | _ => false

def isCheck : Operation → Bool
  | .check _ _ => true
  | _ => false

end Operation

/-- The account databases on the disk, and which of them is open. -/
structure Worker where
  databases : String → ReminderTable
  opened : Option String

namespace Worker

def databaseError : String := "Local database failed"

def write (w : Worker) (directory : String) (t : ReminderTable) : Worker :=
  { w with databases := Function.update w.databases directory t }

/-- An operation on the open database. -/
def onDatabase (w : Worker) (fault : Fault)
    (operation : ReminderTable → Except String (List LocalReminder × ReminderTable)) :
    Except String (List LocalReminder) × Worker :=
  match w.opened with
  | none => (.error databaseError, w)
  | some directory =>
    match operation (w.databases directory) with
    | .error e => (.error e, w)
    | .ok (reminders, t) =>
      match fault with
      | .never => (.ok reminders, w.write directory t)
      | .before => (.error databaseError, w)
      | .after => (.error databaseError, w.write directory t)

/-- `OpenAccount` closes the database that was open and opens the other; a late failure leaves
it open. -/
def perform (w : Worker) (clock : ℕ) (fault : Fault) (messages : Int → Int → Bool) :
    Operation → Except String (List LocalReminder) × Worker
  | .openAccount directory =>
    match fault with
    | .never => (.ok [], { w with opened := some directory })
    | .before => (.error databaseError, { w with opened := none })
    | .after => (.error databaseError, { w with opened := some directory })
  | .closeAccount => (.ok [], { w with opened := none })
  | .save reminder => w.onDatabase fault fun t => t.saveReminder messages clock reminder
  | .remove id => w.onDatabase fault fun t => t.removeReminder id
  | .check now _ => w.onDatabase fault fun t => t.checkDueReminders now

/-- The reminders in the open database. -/
def existing (w : Worker) : List (Int × Int) := w.opened.elim [] fun d => (w.databases d).pairs

end Worker

/-! ## The store and the service on the main thread -/

/-- A task of the worker with the `_generation` it was queued in. -/
structure Task where
  generation : ℕ
  operation : Operation

/-- The result of a task on its way back. For a check the history has where it ran and which
reminders existed there. -/
structure Reply where
  task : Task
  result : Except String (List LocalReminder)
  ranOn : Option String
  existing : List (Int × Int)

/-- History of a successful check at its callback: the session it was delivered in, the account
shown then, and what it announced. -/
structure Delivery where
  session : ℕ
  now : Int
  ranOn : Option String
  shownTo : Option String
  existing : List (Int × Int)
  fresh : List (Int × Int)

/-- The clock in milliseconds since 1970, the worker, the two queues, the fields of `ChatStore`
and those of `ReminderService`. The last three are history: requests for a check, how many of them
the newest check was made for or after, and the deliveries, newest first. -/
structure Client where
  clock : ℕ
  worker : Worker
  queue : List Task
  replies : List Reply
  generation : ℕ
  ready : Bool
  directory : Option String
  alive : Bool
  timer : Bool
  notified : Int → Option Int
  busy : Bool
  again : Bool
  revision : ℕ
  nextNow : Int
  shots : List Int
  asked : ℕ
  covered : ℕ
  log : List Delivery

namespace Client

def start (clock : ℕ) (databases : String → ReminderTable) : Client where
  clock := clock
  worker := ⟨databases, none⟩
  queue := []
  replies := []
  generation := 0
  ready := false
  directory := none
  alive := false
  timer := false
  notified := fun _ => none
  busy := false
  again := false
  revision := 0
  nextNow := 0
  shots := []
  asked := 0
  covered := 0
  log := []

/-- `Execute`. -/
def execute (s : Client) (operation : Operation) : Client :=
  { s with queue := s.queue ++ [⟨s.generation, operation⟩] }

/-- `ReminderService::CheckNow`. -/
def checkNow (s : Client) (now : Int) : Client :=
  if s.ready = false then s
  else if s.busy then { s with again := true, nextNow := max s.nextNow now, asked := s.asked + 1 }
  else execute { s with busy := true, asked := s.asked + 1, covered := s.asked + 1 }
    (.check (if 0 < now then now else s.clock) s.revision)

/-- `remindersChanged`. -/
def remindersChanged (s : Client) : Client := if s.alive then s.checkNow 0 else s

/-- `accountReady`. -/
def accountReady (s : Client) : Client :=
  if s.alive then { s with timer := true }.checkNow 0 else s

/-- `ReminderService::Reset`. -/
def reset (s : Client) : Client :=
  { s with
    revision := s.revision + 1
    timer := false
    busy := false
    again := false
    notified := fun _ => none
    nextNow := 0
    covered := s.asked }

/-- `accountChanged`. -/
def accountChanged (s : Client) : Client := if s.alive then s.reset else s

/-- The constructor of `ReminderService`. -/
def construct (s : Client) : Client :=
  let s := { s with alive := true }
  if s.ready then { s with timer := true }.checkNow 0 else s

/-- What `OpenAccount` and `CloseAccount` do on the main thread. -/
def changeAccount (s : Client) (directory : Option String) (operation : Operation) : Client :=
  let s := { s with generation := s.generation + 1, ready := false }
  execute { s.accountChanged with directory } operation

def openAccount (s : Client) (directory : String) : Client :=
  s.changeAccount (some directory) (.openAccount directory)

def closeAccount (s : Client) : Client := s.changeAccount none .closeAccount

/-! ### The callback of a check -/

/-- The loop over the reminders: what `_notified` becomes and what is fresh. -/
def collect (notified : Int → Option Int) : List LocalReminder →
    (Int → Option Int) × List LocalReminder
  | [] => (notified, [])
  | r :: rest =>
    if (notified r.id).getD 0 ≠ r.dueMs then
      let p := collect (Function.update notified r.id (some r.dueMs)) rest
      (p.1, r :: p.2)
    else collect notified rest

/-- The loop that erases what is no longer due. -/
def retain (notified : Int → Option Int) (active : List Int) : Int → Option Int :=
  fun id => if id ∈ active then notified id else none

def announce (s : Client) (reply : Reply) (now : Int) (reminders : List LocalReminder) : Client :=
  let p := collect s.notified reminders
  { s with
    notified := retain p.1 (reminders.map fun r => r.id)
    log := ⟨s.revision, now, reply.ranOn, s.directory, reply.existing,
      p.2.map fun r => (r.id, r.dueMs)⟩ :: s.log }

/-- `QTimer::singleShot(0, …)` for a check that was asked for meanwhile. -/
def postAgain (s : Client) : Client :=
  if s.again then { s with again := false, nextNow := 0, shots := s.shots ++ [s.nextNow] } else s

def checked (s : Client) (reply : Reply) (now : Int) (revision : ℕ) : Client :=
  if s.alive = false ∨ s.revision ≠ revision then s
  else
    let s := { s with busy := false }
    match reply.result with
    | .error _ => s.postAgain
    | .ok reminders => (s.announce reply now reminders).postAgain

/-! ### Events -/

/-- The event that brings a result back; one of an earlier generation is dropped. -/
def deliver (s : Client) (reply : Reply) : Client :=
  if s.generation ≠ reply.task.generation then s
  else
    let succeeded := reply.result.isOk
    match reply.task.operation with
    | .openAccount _ =>
      let s := { s with ready := succeeded }
      if succeeded then s.accountReady else s
    | .closeAccount => s
    | .save _ | .remove _ => if succeeded then s.remindersChanged else s
    | .check now revision => s.checked reply now revision

/-- The worker takes its first task. `CloseAccount` has no callback. -/
def runTask (s : Client) (task : Task) (fault : Fault) (messages : Int → Int → Bool) : Client :=
  let p := s.worker.perform s.clock fault messages task.operation
  match task.operation with
  | .closeAccount => { s with worker := p.2 }
  | _ =>
    { s with
      worker := p.2
      replies := s.replies ++ [⟨task, p.1, s.worker.opened, s.worker.existing⟩] }

end Client

/-- What may happen next, in any order. A run of the worker comes with its fault and with the
messages that are stored then. -/
inductive Event
  | advance (by_ms : ℕ)
  | construct
  | tick
  | fire
  | save (reminder : LocalReminder)
  | remove (id : Int)
  | openAccount (directory : String)
  | closeAccount
  | work (fault : Fault) (messages : Int → Int → Bool)
  | deliver

namespace Client

def next (s : Client) : Event → Option Client
  | .advance ms => some { s with clock := s.clock + ms }
  | .construct => if s.alive then none else some s.construct
  | .tick => if s.alive ∧ s.timer then some (s.checkNow 0) else none
  | .fire => match s.shots with
    | [] => none
    | now :: rest => some ({ s with shots := rest }.checkNow now)
  | .save reminder => some (s.execute (.save reminder))
  | .remove id => some (s.execute (.remove id))
  | .openAccount directory => some (s.openAccount directory)
  | .closeAccount => some s.closeAccount
  | .work fault messages => match s.queue with
    | [] => none
    | task :: rest => some ({ s with queue := rest }.runTask task fault messages)
  | .deliver => match s.replies with
    | [] => none
    | reply :: rest => some ({ s with replies := rest }.deliver reply)

end Client

namespace Client

/-- The tasks whose result was not delivered yet, oldest first. -/
def flight (s : Client) : List Task := s.replies.map (fun r => r.task) ++ s.queue

/-- The checks in flight. -/
def checks (s : Client) : List Task := s.flight.filter fun t => t.operation.isCheck

end Client

namespace Client

/-- Nothing is left that the event loops could run. -/
def Settled (s : Client) : Prop := s.queue = [] ∧ s.replies = [] ∧ s.shots = []

/-- Bounds the steps of the event loops before the state is settled. -/
def pending (s : Client) : ℕ :=
  2 * s.flight.length + 3 * (s.flight.filter fun t => !t.operation.isCheck).length +
    s.queue.length + 4 * s.shots.length + if s.again then 3 else 0

end Client

/-- The events of the two event loops; the other ones come from outside. -/
def Event.internal : Event → Bool
  | .fire | .work _ _ | .deliver => true
  | _ => false

/-- What a delivery has to be, behind the older ones: it announces, in the account it ran on, each
reminder that existed and was due then, except those that existed and were due at an older delivery
of the same session. -/
structure Delivery.Exact (x : Delivery) (older : List Delivery) : Prop where
  here : x.shownTo = x.ranOn ∧ x.ranOn ≠ none
  nodup : x.fresh.Nodup
  fresh : ∀ p, p ∈ x.fresh ↔ p ∈ x.existing ∧ p.2 ≤ x.now ∧
    ∀ y ∈ older, y.session = x.session → p ∈ y.existing → ¬ p.2 ≤ y.now

/-- A reminder is flagged only when it was due. -/
def Lawful (clock : ℕ) (t : ReminderTable) : Prop :=
  ∀ r ∈ t.reminders.rows, 0 < r.dueMs ∧ (r.due = true → r.dueMs ≤ clock)

/-- One life of the service, over any account databases. -/
def client : Machine Client Event :=
  .ofFn (fun s => ∃ clock databases, (∀ d, Lawful clock (databases d)) ∧
    s = Client.start clock databases) Client.next

end Reminders
end CppChat.Organizer
