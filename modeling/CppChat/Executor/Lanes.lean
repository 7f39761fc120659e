import Mathlib.Algebra.BigOperators.Fin
import CppChat.Foundation.Transition

/-! # The keyed executor

The lanes of `BusinessExecutor.cpp`: a key selects a lane, a lane has a queue and one worker.
Each locked section is one step; notifications, spurious wake-ups and joins are steps of their
own. Beside the counters stands the history of the tasks.
-/
namespace CppChat.Executor
open Foundation

/-- The values of `std::size_t`. -/
def sizeBound : ℕ := 2 ^ 64

def increment (x : ℕ) : ℕ := if x + 1 < sizeBound then x + 1 else 0
def subtract (x y : ℕ) : ℕ := if y ≤ x then x - y else x + sizeBound - y

/-- What the constructor admits. -/
structure Limits where
  workers : ℕ
  queueLimit : ℕ
  workers_pos : 0 < workers
  workers_le : workers ≤ 16
  queueLimit_pos : 0 < queueLimit
  queueLimit_lt : queueLimit < sizeBound

/-- A task that was accepted, with the number of its acceptance. -/
structure Task where
  number : ℕ
  key : String
  deriving DecidableEq

/-- A worker waits for its lane, is about to look at it, runs a task, or has returned. -/
inductive Worker
  | waiting
  | looking
  | running (task : Task)
  | returned
  deriving DecidableEq

structure Lane where
  tasks : List Task
  worker : Worker

structure Metrics where
  queued : ℕ
  active : ℕ
  highWater : ℕ
  completed : ℕ
  rejected : ℕ
  failed : ℕ

/-- What has become of the tasks. -/
structure History where
  accepted : List Task
  started : List Task
  ended : List Task
  discarded : List Task
  deriving DecidableEq

/-- `notices` are the notifications of stop calls that are still to come; `stopping` is what
the call of `Stop` that joins the workers will return. -/
structure State (n : ℕ) where
  lanes : Fin n → Lane
  accepting : Bool
  metrics : Metrics
  notices : List (Fin n)
  stopping : Option ℕ
  history : History

def Worker.wake : Worker → Worker
  | .waiting => .looking
  | w => w

variable (l : Limits) (hash : String → ℕ)

def laneOf (key : String) : Fin l.workers := ⟨hash key % l.workers, Nat.mod_lt _ l.workers_pos⟩

variable {l}

namespace State

def setLane (s : State l.workers) (i : Fin l.workers) (lane : Lane) : State l.workers :=
  { s with lanes := Function.update s.lanes i lane }

/-- `task` says whether the function is not empty. -/
def submit (s : State l.workers) (key : String) (task : Bool) : Bool × State l.workers :=
  if ¬ task ∨ ¬ s.accepting ∨ l.queueLimit ≤ s.metrics.queued then
    (false, { s with metrics := { s.metrics with rejected := increment s.metrics.rejected } })
  else
    let i := laneOf l hash key
    let new : Task := ⟨s.history.accepted.length, key⟩
    let queued := increment s.metrics.queued
    (true, { s with
      lanes := Function.update s.lanes i ⟨(s.lanes i).tasks ++ [new], (s.lanes i).worker.wake⟩
      metrics := { s.metrics with queued, highWater := max s.metrics.highWater queued }
      history := { s.history with accepted := s.history.accepted ++ [new] } })

/-- The first locked section of a worker's turn: it waits, returns or takes a task. -/
def take (s : State l.workers) (i : Fin l.workers) : Option (State l.workers) :=
  if (s.lanes i).worker ≠ .looking then none
  else
    match (s.lanes i).tasks with
    | [] => some (s.setLane i ⟨[], if s.accepting then .waiting else .returned⟩)
    | task :: tasks => some { s with
        lanes := Function.update s.lanes i ⟨tasks, .running task⟩
        metrics := { s.metrics with
          queued := subtract s.metrics.queued 1, active := increment s.metrics.active }
        history := { s.history with started := s.history.started ++ [task] } }

/-- The second locked section, after the task has returned or thrown. -/
def finish (s : State l.workers) (i : Fin l.workers) (failed : Bool) :
    Option (State l.workers) :=
  match (s.lanes i).worker with
  | .running task => some { s with
      lanes := Function.update s.lanes i ⟨(s.lanes i).tasks, .looking⟩
      metrics := { s.metrics with
        active := subtract s.metrics.active 1
        completed := increment s.metrics.completed
        failed := if failed then increment s.metrics.failed else s.metrics.failed }
      history := { s.history with ended := s.history.ended ++ [task] } }
  | _ => none

/-- A notification, or a wake-up without one. -/
def wake (s : State l.workers) (i : Fin l.workers) : State l.workers :=
  s.setLane i ⟨(s.lanes i).tasks, (s.lanes i).worker.wake⟩

def waitingTasks (s : State l.workers) : List Task :=
  (List.finRange l.workers).flatMap fun i => (s.lanes i).tasks

/-- The admission ends; every lane will be notified. -/
def beginStop (s : State l.workers) : State l.workers :=
  { s with accepting := false, notices := s.notices ++ List.finRange l.workers }

/-- The locked section of `Stop`. -/
def stop (s : State l.workers) (drain : Bool) : State l.workers :=
  if drain then { s.beginStop with stopping := some 0 }
  else { s.beginStop with
    lanes := fun i => ⟨[], (s.lanes i).worker⟩
    metrics := { s.metrics with
      queued := subtract s.metrics.queued (s.waitingTasks.length % sizeBound) }
    stopping := some (s.waitingTasks.length % sizeBound)
    history := { s.history with discarded := s.history.discarded ++ s.waitingTasks } }

/-- The predicate of `WaitIdleUntil`, which is also what it returns. -/
def reportsIdle (s : State l.workers) : Bool := s.metrics.queued = 0 ∧ s.metrics.active = 0

end State

/-- The steps of callers and workers; a task that submits another is a caller. Calls of `Stop`
exclude each other until the first has joined the workers. -/
inductive Action (n : ℕ)
  | submit (key : String) (task : Bool)
  | take (i : Fin n)
  | finish (i : Fin n) (failed : Bool)
  | wake (i : Fin n)
  | notify (i : Fin n)
  | beginStop
  | stop (drain : Bool)
  | join (discarded : ℕ)

def State.step (s : State l.workers) : Action l.workers → Option (State l.workers)
  | .submit key task => some (s.submit hash key task).2
  | .take i => s.take i
  | .finish i failed => s.finish i failed
  | .wake i => some (s.wake i)
  | .notify i =>
    if i ∈ s.notices then some { s.wake i with notices := s.notices.erase i } else none
  | .beginStop => some s.beginStop
  | .stop drain => if s.stopping = none then some (s.stop drain) else none
  | .join discarded =>
    if s.stopping = some discarded ∧ ∀ i, (s.lanes i).worker = .returned then
      some { s with stopping := none }
    else none

def initial (n : ℕ) : State n where
  lanes := fun _ => ⟨[], .looking⟩
  accepting := true
  metrics := ⟨0, 0, 0, 0, 0, 0⟩
  notices := []
  stopping := none
  history := ⟨[], [], [], []⟩

variable (l) in
/-- All interleavings of callers, workers and stop calls. -/
def executor : Machine (State l.workers) (Action l.workers) :=
  .ofFn (fun s => s = initial l.workers) (State.step hash)

end CppChat.Executor
