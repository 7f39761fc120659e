import Mathlib.Algebra.BigOperators.Group.Finset.Piecewise
import Mathlib.Algebra.BigOperators.Ring.Finset
import Mathlib.Data.List.FinRange
import Mathlib.Algebra.Order.BigOperators.Group.Finset
import CppChat.Executor.Lanes

/-! # The executor keeps its promises

Every lane runs its tasks in the order of their acceptance, one at a time; no accepted task is
lost, the counters count, and no worker sleeps over a task.
-/
namespace CppChat.Executor
open Foundation

/-! ## Lists over lanes -/

section Lists
variable {α β : Type*} [DecidableEq α]

theorem flatMap_ite_eq {is : List α} (hnodup : is.Nodup) {i : α} (hi : i ∈ is) (xs : List β) :
    is.flatMap (fun j => if j = i then xs else []) = xs := by
  have hnone : ∀ js : List α, i ∉ js → js.flatMap (fun j => if j = i then xs else []) = [] := by
    intro js hjs
    rw [List.flatMap_eq_nil_iff]
    intro j hj
    rw [if_neg (ne_of_mem_of_not_mem hj hjs)]
  induction is with
  | nil => cases hi
  | cons j js ih =>
    obtain ⟨hj, hjs⟩ := List.nodup_cons.mp hnodup
    rw [List.flatMap_cons]
    by_cases hij : j = i
    · subst hij
      rw [if_pos rfl, hnone js hj, List.append_nil]
    · rw [if_neg hij, List.nil_append]
      exact ih hjs ((List.mem_cons.mp hi).resolve_left (Ne.symm hij))

/-- Lists that agree on the elements of each class are permutations of each other. -/
theorem perm_of_filter {f : β → α} [DecidableEq β] {xs ys : List β}
    (h : ∀ a, xs.filter (f · = a) = ys.filter (f · = a)) : xs.Perm ys := by
  rw [List.perm_iff_count]
  intro x
  have hcount : ∀ zs : List β, zs.count x = (zs.filter (f · = f x)).count x := fun zs =>
    (List.count_filter (by simp)).symm
  rw [hcount, hcount ys, h]

end Lists

theorem increment_eq {x : ℕ} (h : x + 1 < sizeBound) : increment x = x + 1 := if_pos h

theorem subtract_eq {x y : ℕ} (hle : y ≤ x) : subtract x y = x - y := if_pos hle

/-! ## The invariant -/

variable {l : Limits} {hash : String → ℕ} {s t : State l.workers} {i : Fin l.workers}

def Worker.task? : Worker → Option Task
  | .running task => some task
  | _ => none

@[simp]
theorem Worker.task?_running (task : Task) : (Worker.running task).task? = some task := rfl

@[simp]
theorem Worker.task?_looking : Worker.looking.task? = none := rfl

@[simp]
theorem Worker.wake_task? (w : Worker) : w.wake.task? = w.task? := by cases w <;> rfl

theorem Worker.wake_ne_waiting (w : Worker) : w.wake ≠ .waiting := by
  cases w <;> simp [Worker.wake]

theorem Worker.of_wake_returned {w : Worker} (h : w.wake = .returned) : w = .returned := by
  cases w <;> simp [Worker.wake] at h ⊢

variable (l hash) in
/-- The tasks of a lane. -/
def ofLane (i : Fin l.workers) (tasks : List Task) : List Task :=
  tasks.filter fun task => laneOf l hash task.key = i

structure State.Inv (hash : String → ℕ) (s : State l.workers) : Prop where
  lane : ∀ i, ofLane l hash i s.history.accepted = ofLane l hash i s.history.started ++
    (ofLane l hash i s.history.discarded ++ (s.lanes i).tasks)
  run : ∀ i, ofLane l hash i s.history.started =
    ofLane l hash i s.history.ended ++ (s.lanes i).worker.task?.toList
  discarded : s.history.discarded ≠ [] → s.accepting = false ∧ ∀ i, (s.lanes i).tasks = []
  numbers : s.history.accepted.map Task.number = List.range s.history.accepted.length
  queued : s.metrics.queued = ∑ i, (s.lanes i).tasks.length
  limit : s.metrics.queued ≤ l.queueLimit
  active : s.metrics.active = ∑ i, (s.lanes i).worker.task?.toList.length
  waiting : ∀ i, (s.lanes i).worker = .waiting →
    (s.lanes i).tasks = [] ∧ (s.accepting = true ∨ i ∈ s.notices)
  returned : ∀ i, (s.lanes i).worker = .returned → (s.lanes i).tasks = [] ∧ s.accepting = false

theorem sum_update_lane (f : Lane → ℕ) (lanes : Fin l.workers → Lane) (i : Fin l.workers)
    (lane : Lane) :
    ∑ j, f (Function.update lanes i lane j) + f (lanes i) = ∑ j, f (lanes j) + f lane := by
  have hupdate : (fun j => f (Function.update lanes i lane j)) =
      Function.update (fun j => f (lanes j)) i (f lane) := by
    funext j
    by_cases hj : j = i
    · subst hj
      simp
    · simp [hj]
  rw [hupdate, Finset.sum_update_of_mem (Finset.mem_univ i),
    ← Finset.add_sum_erase _ _ (Finset.mem_univ i), Finset.sdiff_singleton_eq_erase]
  omega

theorem ofLane_append (xs ys : List Task) :
    ofLane l hash i (xs ++ ys) = ofLane l hash i xs ++ ofLane l hash i ys :=
  List.filter_append ..

theorem ofLane_singleton (task : Task) :
    ofLane l hash i [task] = if laneOf l hash task.key = i then [task] else [] := by
  by_cases h : laneOf l hash task.key = i <;> simp [ofLane, h]

namespace State

/-- What waits in a lane belongs there. -/
theorem Inv.ofLane_tasks (hs : s.Inv hash) (i j : Fin l.workers) :
    ofLane l hash i (s.lanes j).tasks = if j = i then (s.lanes j).tasks else [] := by
  have hj : ∀ task ∈ (s.lanes j).tasks, laneOf l hash task.key = j := by
    intro task htask
    have hmem : task ∈ ofLane l hash j s.history.accepted := by
      rw [hs.lane j]
      exact List.mem_append_right _ (List.mem_append_right _ htask)
    simpa using (List.mem_filter.mp hmem).2
  split
  next hji =>
    exact List.filter_eq_self.mpr fun task htask => by simp [hj task htask, hji]
  next hji =>
    exact List.filter_eq_nil_iff.mpr fun task htask => by simp [hj task htask, hji]

theorem Inv.ofLane_waitingTasks (hs : s.Inv hash) (i : Fin l.workers) :
    ofLane l hash i s.waitingTasks = (s.lanes i).tasks := by
  have hfilter : ofLane l hash i s.waitingTasks = (List.finRange l.workers).flatMap
      fun j => if j = i then (s.lanes i).tasks else [] := by
    rw [waitingTasks, ofLane, List.filter_flatMap]
    refine List.flatMap_congr fun j _ => ?_
    rw [← ofLane, hs.ofLane_tasks]
    split
    next hji => rw [hji]
    next => rfl
  rw [hfilter, flatMap_ite_eq (List.nodup_finRange _) (List.mem_finRange i)]

theorem length_waitingTasks : s.waitingTasks.length = ∑ i, (s.lanes i).tasks.length := by
  rw [waitingTasks, List.length_flatMap, ← List.ofFn_eq_map, List.sum_ofFn]

/-- Every accepted task was started, was discarded, or waits. -/
theorem Inv.accounted (hs : s.Inv hash) :
    s.history.accepted.Perm (s.history.started ++ (s.history.discarded ++ s.waitingTasks)) := by
  refine perm_of_filter (f := fun task => laneOf l hash task.key) fun i => ?_
  have hlane := hs.lane i
  rw [← hs.ofLane_waitingTasks i, ← ofLane_append, ← ofLane_append] at hlane
  exact hlane

/-! ## Steps -/

theorem inv_initial : (initial l.workers).Inv hash where
  lane _ := rfl
  run _ := rfl
  discarded h := absurd rfl h
  numbers := rfl
  queued := by simp [initial]
  limit := Nat.zero_le _
  active := by simp [initial, Worker.task?]
  waiting _ h := by simp [initial] at h
  returned _ h := by simp [initial] at h

theorem wake_lanes_self : (s.wake i).lanes i = ⟨(s.lanes i).tasks, (s.lanes i).worker.wake⟩ :=
  Function.update_self ..

theorem wake_lanes_of_ne {j : Fin l.workers} (hj : j ≠ i) : (s.wake i).lanes j = s.lanes j :=
  Function.update_of_ne hj ..

theorem wake_tasks (j : Fin l.workers) : ((s.wake i).lanes j).tasks = (s.lanes j).tasks := by
  by_cases hj : j = i
  · rw [hj, wake_lanes_self]
  · rw [wake_lanes_of_ne hj]

theorem wake_task? (j : Fin l.workers) :
    ((s.wake i).lanes j).worker.task? = (s.lanes j).worker.task? := by
  by_cases hj : j = i
  · rw [hj, wake_lanes_self, Worker.wake_task?]
  · rw [wake_lanes_of_ne hj]

theorem waiting_of_wake {j : Fin l.workers} (h : ((s.wake i).lanes j).worker = .waiting) :
    j ≠ i ∧ (s.lanes j).worker = .waiting := by
  by_cases hj : j = i
  · rw [hj, wake_lanes_self] at h
    exact absurd h (Worker.wake_ne_waiting _)
  · rw [wake_lanes_of_ne hj] at h
    exact ⟨hj, h⟩

theorem returned_of_wake {j : Fin l.workers} (h : ((s.wake i).lanes j).worker = .returned) :
    (s.lanes j).worker = .returned := by
  by_cases hj : j = i
  · rw [hj, wake_lanes_self] at h
    rw [hj]
    exact Worker.of_wake_returned h
  · rwa [wake_lanes_of_ne hj] at h

/-- A worker that is woken up may have used up a notice. -/
theorem Inv.wake (hs : s.Inv hash) {notices : List (Fin l.workers)}
    (hnotices : ∀ j ∈ s.notices, j ≠ i → j ∈ notices) :
    ({ s.wake i with notices } : State l.workers).Inv hash where
  lane j := (hs.lane j).trans (by rw [wake_tasks]; rfl)
  run j := (hs.run j).trans (by rw [wake_task?]; rfl)
  discarded h := ⟨(hs.discarded h).1, fun j => (wake_tasks j).trans ((hs.discarded h).2 j)⟩
  numbers := hs.numbers
  queued := hs.queued.trans (Finset.sum_congr rfl fun j _ => by rw [wake_tasks])
  limit := hs.limit
  active := hs.active.trans (Finset.sum_congr rfl fun j _ => by rw [wake_task?])
  waiting j h := by
    obtain ⟨hji, hw⟩ := waiting_of_wake h
    obtain ⟨htasks, hnotice⟩ := hs.waiting j hw
    exact ⟨(wake_tasks j).trans htasks, hnotice.imp_right fun h => hnotices j h hji⟩
  returned j h := by
    obtain ⟨htasks, haccepting⟩ := hs.returned j (returned_of_wake h)
    exact ⟨(wake_tasks j).trans htasks, haccepting⟩

theorem Inv.beginStop (hs : s.Inv hash) {stopping : Option ℕ} :
    ({ s.beginStop with stopping } : State l.workers).Inv hash where
  lane := hs.lane
  run := hs.run
  discarded h := ⟨rfl, (hs.discarded h).2⟩
  numbers := hs.numbers
  queued := hs.queued
  limit := hs.limit
  active := hs.active
  waiting j h := ⟨(hs.waiting j h).1, .inr (List.mem_append_right _ (List.mem_finRange j))⟩
  returned j h := ⟨(hs.returned j h).1, rfl⟩

theorem Inv.queued_lt (hs : s.Inv hash) : s.metrics.queued < sizeBound :=
  hs.limit.trans_lt l.queueLimit_lt

theorem Inv.stop (hs : s.Inv hash) (drain : Bool) : (s.stop drain).Inv hash := by
  cases drain with
  | true => exact hs.beginStop
  | false =>
    have hlength : s.waitingTasks.length = s.metrics.queued :=
      length_waitingTasks.trans hs.queued.symm
    have hzero : subtract s.metrics.queued (s.waitingTasks.length % sizeBound) = 0 := by
      rw [hlength, Nat.mod_eq_of_lt hs.queued_lt, subtract_eq le_rfl, Nat.sub_self]
    exact {
      lane := fun j => by
        show _ = _ ++ (ofLane l hash j (s.history.discarded ++ s.waitingTasks) ++ [])
        rw [ofLane_append, hs.ofLane_waitingTasks, List.append_nil]
        exact hs.lane j
      run := hs.run
      discarded := fun _ => ⟨rfl, fun _ => rfl⟩
      numbers := hs.numbers
      queued := hzero.trans (Finset.sum_eq_zero fun _ _ => rfl).symm
      limit := hzero.trans_le (Nat.zero_le _)
      active := hs.active
      waiting := fun j _ => ⟨rfl, .inr (List.mem_append_right _ (List.mem_finRange j))⟩
      returned := fun _ _ => ⟨rfl, rfl⟩ }

theorem Inv.submit (hs : s.Inv hash) (key : String) (task : Bool) :
    (s.submit hash key task).2.Inv hash := by
  unfold State.submit
  split
  next => exact ⟨hs.lane, hs.run, hs.discarded, hs.numbers, hs.queued, hs.limit, hs.active,
    hs.waiting, hs.returned⟩
  next haccept =>
    simp only [not_or, not_not, Nat.not_le] at haccept
    obtain ⟨-, haccepting, hlt⟩ := haccept
    have hqueued : increment s.metrics.queued = s.metrics.queued + 1 :=
      increment_eq (by have := l.queueLimit_lt; omega)
    have hnone : s.history.discarded = [] := by
      by_contra hne
      rw [(hs.discarded hne).1] at haccepting
      cases haccepting
    generalize hnew : (⟨s.history.accepted.length, key⟩ : Task) = new
    have hkey : new.key = key := by rw [← hnew]
    have hnumber : new.number = s.history.accepted.length := by rw [← hnew]
    generalize hi : laneOf l hash key = i
    dsimp only
    have htask? : (s.lanes i).worker.wake.task? = (s.lanes i).worker.task? :=
      Worker.wake_task? _
    exact {
      lane := fun j => by
        show ofLane l hash j (s.history.accepted ++ [new]) = _
        rw [ofLane_append, ofLane_singleton, hkey, hi, hs.lane j]
        by_cases hj : j = i
        · subst hj
          simp
        · simp [Ne.symm hj, hj]
      run := fun j => by
        refine (hs.run j).trans ?_
        by_cases hj : j = i
        · subst hj
          simp
        · simp [hj]
      discarded := fun hne => absurd hnone hne
      numbers := by
        show (s.history.accepted ++ [new]).map Task.number = _
        rw [List.map_append, hs.numbers, List.map_singleton, hnumber, List.length_append,
          List.length_singleton, List.range_succ]
      queued := by
        have hsum := sum_update_lane (fun lane => lane.tasks.length) s.lanes i
          ⟨(s.lanes i).tasks ++ [new], (s.lanes i).worker.wake⟩
        have hold := hs.queued
        simp only [List.length_append, List.length_singleton] at hsum
        dsimp only
        omega
      limit := by
        dsimp only
        omega
      active := by
        have hsum := sum_update_lane (fun lane => lane.worker.task?.toList.length) s.lanes i
          ⟨(s.lanes i).tasks ++ [new], (s.lanes i).worker.wake⟩
        have hold := hs.active
        simp only [htask?] at hsum
        dsimp only
        omega
      waiting := fun j h => by
        by_cases hj : j = i
        · subst hj
          dsimp only at h
          rw [Function.update_self] at h
          exact absurd h (Worker.wake_ne_waiting _)
        · dsimp only at h ⊢
          rw [Function.update_of_ne hj] at h ⊢
          exact hs.waiting j h
      returned := fun j h => by
        by_cases hj : j = i
        · subst hj
          dsimp only at h
          rw [Function.update_self] at h
          rw [(hs.returned j (Worker.of_wake_returned h)).2] at haccepting
          cases haccepting
        · dsimp only at h ⊢
          rw [Function.update_of_ne hj] at h ⊢
          exact hs.returned j h }

theorem Inv.active_lt (hs : s.Inv hash) : s.metrics.active + 1 < sizeBound := by
  have hle : s.metrics.active ≤ l.workers := by
    rw [hs.active]
    refine (Finset.sum_le_card_nsmul Finset.univ _ 1 fun j _ => ?_).trans (by simp)
    cases (s.lanes j).worker <;> simp [Worker.task?]
  have := l.workers_le
  unfold sizeBound
  omega

theorem setLane_lanes_self (lane : Lane) : (s.setLane i lane).lanes i = lane :=
  Function.update_self ..

theorem setLane_lanes_of_ne {lane : Lane} {j : Fin l.workers} (hj : j ≠ i) :
    (s.setLane i lane).lanes j = s.lanes j := Function.update_of_ne hj ..

/-- The lane is empty: the worker waits for a task, or returns after the end. -/
theorem Inv.rest (hs : s.Inv hash) (hw : (s.lanes i).worker = .looking)
    (htasks : (s.lanes i).tasks = []) {w : Worker} (htask? : w.task? = none)
    (hwaiting : w = .waiting → s.accepting = true)
    (hreturned : w = .returned → s.accepting = false) : (s.setLane i ⟨[], w⟩).Inv hash := by
  have hlane : ∀ j, ((s.setLane i ⟨[], w⟩).lanes j).tasks = (s.lanes j).tasks ∧
      ((s.setLane i ⟨[], w⟩).lanes j).worker.task? = (s.lanes j).worker.task? := by
    intro j
    by_cases hj : j = i
    · rw [hj, setLane_lanes_self, htasks, hw]
      exact ⟨rfl, htask?⟩
    · rw [setLane_lanes_of_ne hj]
      exact ⟨rfl, rfl⟩
  exact {
    lane := fun j => (hs.lane j).trans (by rw [(hlane j).1]; rfl)
    run := fun j => (hs.run j).trans (by rw [(hlane j).2]; rfl)
    discarded := fun h => ⟨(hs.discarded h).1, fun j => (hlane j).1.trans ((hs.discarded h).2 j)⟩
    numbers := hs.numbers
    queued := hs.queued.trans (Finset.sum_congr rfl fun j _ => by rw [(hlane j).1])
    limit := hs.limit
    active := hs.active.trans (Finset.sum_congr rfl fun j _ => by rw [(hlane j).2])
    waiting := fun j h => by
      rw [(hlane j).1]
      by_cases hj : j = i
      · rw [hj, setLane_lanes_self] at h
        exact ⟨hj ▸ htasks, .inl (hwaiting h)⟩
      · rw [setLane_lanes_of_ne hj] at h
        exact hs.waiting j h
    returned := fun j h => by
      rw [(hlane j).1]
      by_cases hj : j = i
      · rw [hj, setLane_lanes_self] at h
        exact ⟨hj ▸ htasks, hreturned h⟩
      · rw [setLane_lanes_of_ne hj] at h
        exact hs.returned j h }

theorem Inv.start (hs : s.Inv hash) {task : Task} {tasks : List Task}
    (hw : (s.lanes i).worker = .looking) (htasks : (s.lanes i).tasks = task :: tasks)
    {queued active : ℕ} (hq : queued = subtract s.metrics.queued 1)
    (ha : active = increment s.metrics.active) :
    ({ s with
      lanes := Function.update s.lanes i ⟨tasks, .running task⟩
      metrics := { s.metrics with queued, active }
      history := { s.history with started := s.history.started ++ [task] } } :
      State l.workers).Inv hash := by
  have hnone : s.history.discarded = [] := by
    by_contra hne
    rw [(hs.discarded hne).2 i] at htasks
    cases htasks
  have hof : laneOf l hash task.key = i := by
    have hself := hs.ofLane_tasks i i
    rw [if_pos rfl, htasks, ofLane, List.filter_eq_self] at hself
    simpa using hself task List.mem_cons_self
  have hqueue := sum_update_lane (fun lane => lane.tasks.length) s.lanes i ⟨tasks, .running task⟩
  have hrun := sum_update_lane (fun lane => lane.worker.task?.toList.length) s.lanes i
    ⟨tasks, .running task⟩
  rw [← hs.queued, htasks, List.length_cons] at hqueue
  rw [← hs.active, hw] at hrun
  dsimp only at hqueue
  simp only [Worker.task?_looking, Worker.task?_running, Option.toList_none, Option.toList_some,
    List.length_nil, List.length_singleton] at hrun
  have hqueued : queued = s.metrics.queued - 1 := hq.trans (subtract_eq (by omega))
  have hactive : active = s.metrics.active + 1 := ha.trans (increment_eq hs.active_lt)
  exact {
    lane := fun j => by
      show ofLane l hash j s.history.accepted = ofLane l hash j (s.history.started ++ [task]) ++
        (ofLane l hash j s.history.discarded ++ (Function.update s.lanes i _ j).tasks)
      rw [hs.lane j, ofLane_append, ofLane_singleton, hof, hnone]
      by_cases hj : j = i
      · subst hj
        simp [htasks, ofLane]
      · simp [Ne.symm hj, hj]
    run := fun j => by
      show ofLane l hash j (s.history.started ++ [task]) = ofLane l hash j s.history.ended ++
        (Function.update s.lanes i _ j).worker.task?.toList
      rw [ofLane_append, ofLane_singleton, hof, hs.run j]
      by_cases hj : j = i
      · subst hj
        simp [hw, Worker.task?]
      · simp [Ne.symm hj, hj]
    discarded := fun hne => absurd hnone hne
    numbers := hs.numbers
    queued := by
      dsimp only
      omega
    limit := by
      have := hs.limit
      dsimp only
      omega
    active := by
      dsimp only
      omega
    waiting := fun j h => by
      by_cases hj : j = i
      · subst hj
        simp at h
      · dsimp only at h ⊢
        rw [Function.update_of_ne hj] at h ⊢
        exact hs.waiting j h
    returned := fun j h => by
      by_cases hj : j = i
      · subst hj
        simp at h
      · dsimp only at h ⊢
        rw [Function.update_of_ne hj] at h ⊢
        exact hs.returned j h }

theorem Inv.finish (hs : s.Inv hash) {task : Task} (hw : (s.lanes i).worker = .running task)
    (completed failed : ℕ) {active : ℕ} (ha : active = subtract s.metrics.active 1) :
    ({ s with
      lanes := Function.update s.lanes i ⟨(s.lanes i).tasks, .looking⟩
      metrics := { s.metrics with active, completed, failed }
      history := { s.history with ended := s.history.ended ++ [task] } } :
      State l.workers).Inv hash := by
  have hof : laneOf l hash task.key = i := by
    have hmem : task ∈ ofLane l hash i s.history.started := by
      rw [hs.run i, hw]
      exact List.mem_append_right _ List.mem_cons_self
    simpa using (List.mem_filter.mp hmem).2
  have hqueue := sum_update_lane (fun lane => lane.tasks.length) s.lanes i
    ⟨(s.lanes i).tasks, .looking⟩
  have hrun := sum_update_lane (fun lane => lane.worker.task?.toList.length) s.lanes i
    ⟨(s.lanes i).tasks, .looking⟩
  rw [← hs.queued] at hqueue
  rw [← hs.active, hw] at hrun
  dsimp only at hqueue
  simp only [Worker.task?_looking, Worker.task?_running, Option.toList_none, Option.toList_some,
    List.length_nil, List.length_singleton] at hrun
  have hactive : active = s.metrics.active - 1 := ha.trans (subtract_eq (by omega))
  exact {
    lane := fun j => by
      refine (hs.lane j).trans ?_
      by_cases hj : j = i
      · subst hj
        simp
      · simp [hj]
    run := fun j => by
      show ofLane l hash j s.history.started = ofLane l hash j (s.history.ended ++ [task]) ++
        (Function.update s.lanes i _ j).worker.task?.toList
      rw [ofLane_append, ofLane_singleton, hof, hs.run j]
      by_cases hj : j = i
      · subst hj
        simp [hw, Worker.task?]
      · simp [Ne.symm hj, hj]
    discarded := fun h => by
      refine ⟨(hs.discarded h).1, fun j => ?_⟩
      by_cases hj : j = i
      · subst hj
        simpa using (hs.discarded h).2 j
      · simpa [hj] using (hs.discarded h).2 j
    numbers := hs.numbers
    queued := by
      dsimp only
      omega
    limit := hs.limit
    active := by
      dsimp only
      omega
    waiting := fun j h => by
      by_cases hj : j = i
      · subst hj
        simp at h
      · dsimp only at h ⊢
        rw [Function.update_of_ne hj] at h ⊢
        exact hs.waiting j h
    returned := fun j h => by
      by_cases hj : j = i
      · subst hj
        simp at h
      · dsimp only at h ⊢
        rw [Function.update_of_ne hj] at h ⊢
        exact hs.returned j h }

theorem inv_step {a : Action l.workers} (hs : s.Inv hash) (h : s.step hash a = some t) :
    t.Inv hash := by
  cases a with
  | submit key task =>
    cases h
    exact hs.submit key task
  | take i =>
    simp only [step, take] at h
    split at h
    · cases h
    next hw =>
      rw [not_not] at hw
      split at h
      next htasks =>
        cases h
        by_cases haccepting : s.accepting = true
        · rw [if_pos haccepting]
          exact hs.rest hw htasks rfl (fun _ => haccepting) (by simp)
        · rw [if_neg haccepting]
          exact hs.rest hw htasks rfl (by simp) fun _ => by simpa using haccepting
      next task tasks htasks =>
        cases h
        exact hs.start hw htasks rfl rfl
  | finish i failed =>
    simp only [step, State.finish] at h
    split at h
    next task hw =>
      cases h
      exact hs.finish hw _ _ rfl
    next => cases h
  | wake i =>
    cases h
    exact hs.wake fun j hj _ => hj
  | notify i =>
    simp only [step] at h
    split at h
    next =>
      cases h
      exact hs.wake fun j hj hne => (List.mem_erase_of_ne hne).mpr hj
    next => cases h
  | beginStop =>
    cases h
    exact hs.beginStop
  | stop drain =>
    simp only [step] at h
    split at h
    next =>
      cases h
      exact hs.stop drain
    next => cases h
  | join discarded =>
    simp only [step] at h
    split at h
    next =>
      cases h
      exact ⟨hs.lane, hs.run, hs.discarded, hs.numbers, hs.queued, hs.limit, hs.active,
        hs.waiting, hs.returned⟩
    next => cases h

end State

theorem inv_executor : (executor l hash).Invariant (State.Inv hash) where
  init _ h := h ▸ State.inv_initial
  step _ _ _ _ hs h := State.inv_step hs h

/-! ## Progress -/

namespace State

def runningTasks (s : State l.workers) : List Task :=
  (List.finRange l.workers).flatMap fun i => (s.lanes i).worker.task?.toList

theorem length_runningTasks :
    s.runningTasks.length = ∑ i, (s.lanes i).worker.task?.toList.length := by
  rw [runningTasks, List.length_flatMap, ← List.ofFn_eq_map, List.sum_ofFn]

theorem Inv.reportsIdle_iff (hs : s.Inv hash) :
    s.reportsIdle = true ↔ s.waitingTasks = [] ∧ s.runningTasks = [] := by
  rw [reportsIdle, decide_eq_true_eq, hs.queued, hs.active, ← length_waitingTasks,
    ← length_runningTasks, List.length_eq_zero_iff, List.length_eq_zero_iff]

/-- While a task waits or runs, a worker can go on. -/
theorem Inv.work (hs : s.Inv hash) (hbusy : s.reportsIdle ≠ true) :
    ∃ a t, s.step hash a = some t ∧
      2 * t.metrics.queued + t.metrics.active < 2 * s.metrics.queued + s.metrics.active ∧
      t.history.accepted = s.history.accepted ∧ t.history.discarded = s.history.discarded := by
  rw [Ne, hs.reportsIdle_iff, not_and_or] at hbusy
  have hworker : ∃ i, (s.lanes i).tasks ≠ [] ∨ (s.lanes i).worker.task? ≠ none := by
    by_contra hnone
    push Not at hnone
    rcases hbusy with hbusy | hbusy
    · exact hbusy (List.flatMap_eq_nil_iff.mpr fun i _ => (hnone i).1)
    · exact hbusy (List.flatMap_eq_nil_iff.mpr fun i _ => by rw [(hnone i).2]; rfl)
  obtain ⟨i, hi⟩ := hworker
  cases hw : (s.lanes i).worker with
  | running task =>
    have hpos : 0 < s.metrics.active := by
      rw [hs.active]
      refine Finset.sum_pos' (fun _ _ => Nat.zero_le _) ⟨i, Finset.mem_univ i, ?_⟩
      simp [hw]
    have hstep : ∃ t, s.step hash (.finish i false) = some t ∧
        t.metrics.queued = s.metrics.queued ∧ t.metrics.active = subtract s.metrics.active 1 ∧
        t.history.accepted = s.history.accepted ∧ t.history.discarded = s.history.discarded := by
      simp only [step, State.finish, hw]
      exact ⟨_, rfl, rfl, rfl, rfl, rfl⟩
    obtain ⟨t, ht, htqueued, htactive, hrest⟩ := hstep
    rw [subtract_eq hpos] at htactive
    exact ⟨_, t, ht, by omega, hrest⟩
  | looking =>
    cases htasks : (s.lanes i).tasks with
    | nil => simp [hw, htasks, Worker.task?] at hi
    | cons task tasks =>
      have hpos : 0 < s.metrics.queued := by
        rw [hs.queued]
        refine Finset.sum_pos' (fun _ _ => Nat.zero_le _) ⟨i, Finset.mem_univ i, ?_⟩
        simp [htasks]
      have hstep : ∃ t, s.step hash (.take i) = some t ∧
          t.metrics.queued = subtract s.metrics.queued 1 ∧
          t.metrics.active = increment s.metrics.active ∧
          t.history.accepted = s.history.accepted ∧
          t.history.discarded = s.history.discarded := by
        simp only [step, take, hw, htasks, ne_eq, not_true, if_false]
        exact ⟨_, rfl, rfl, rfl, rfl, rfl⟩
      obtain ⟨t, ht, htqueued, htactive, hrest⟩ := hstep
      rw [subtract_eq hpos] at htqueued
      rw [increment_eq hs.active_lt] at htactive
      exact ⟨_, t, ht, by omega, hrest⟩
  | waiting => simp [hw, (hs.waiting i hw).1, Worker.task?] at hi
  | returned => simp [hw, (hs.returned i hw).1, Worker.task?] at hi

/-- The workers alone can finish everything that was accepted. -/
theorem Inv.drains (hs : s.Inv hash) : ∃ t, (executor l hash).Run s t ∧ t.reportsIdle = true ∧
    t.history.accepted = s.history.accepted ∧ t.history.discarded = s.history.discarded := by
  induction hn : 2 * s.metrics.queued + s.metrics.active using Nat.strong_induction_on
    generalizing s with
  | _ n ih =>
    by_cases hidle : s.reportsIdle = true
    · exact ⟨s, .refl, hidle, rfl, rfl⟩
    · obtain ⟨a, t, hstep, hless, haccepted, hdiscarded⟩ := hs.work hidle
      obtain ⟨u, hrun, hidle', haccepted', hdiscarded'⟩ :=
        ih _ (hn ▸ hless) (inv_step hs hstep) rfl
      exact ⟨u, .head ⟨a, hstep⟩ hrun, hidle', haccepted'.trans haccepted,
        hdiscarded'.trans hdiscarded⟩

end State

/-! ## What holds of every run -/

/-- The tasks with a key. -/
def ofKey (key : String) (tasks : List Task) : List Task := tasks.filter fun task => task.key = key

variable (l hash) in
theorem ofKey_ofLane (key : String) (tasks : List Task) :
    ofKey key (ofLane l hash (laneOf l hash key) tasks) = ofKey key tasks := by
  rw [ofKey, ofLane, List.filter_filter]
  refine List.filter_congr fun task _ => ?_
  by_cases h : task.key = key <;> simp [h]

/-- What holds of a step. -/
structure Lawful (hash : String → ℕ) (s : State l.workers) (a : Action l.workers)
    (t : State l.workers) : Prop where
  rejected : ∀ key task, a = .submit key task → (s.submit hash key task).1 = false →
    t.lanes = s.lanes ∧ t.history = s.history ∧ t.metrics.queued = s.metrics.queued ∧
      t.metrics.active = s.metrics.active
  accepted : ∀ key task, a = .submit key task → (s.submit hash key task).1 = true →
    s.accepting = true ∧
      t.history.accepted = s.history.accepted ++ [⟨s.history.accepted.length, key⟩]
  /-- A stop that does not drain discards what waits, and counts it. -/
  discards : ∀ drain, a = .stop drain →
    t.history.discarded = s.history.discarded ++ (if drain then [] else s.waitingTasks) ∧
      t.stopping = some (if drain then 0 else s.waitingTasks.length)
  /-- Nothing else discards a task, and the count is what the stop returns. -/
  keeps : (∀ drain, a ≠ .stop drain) → t.history.discarded = s.history.discarded ∧
    ((∀ discarded, a ≠ .join discarded) → t.stopping = s.stopping)
  joins : ∀ discarded, a = .join discarded → s.stopping = some discarded ∧
    s.waitingTasks = [] ∧ s.runningTasks = []

theorem State.Inv.lawful {a : Action l.workers} (hs : s.Inv hash)
    (h : (executor l hash).step s a t) : Lawful hash s a t := by
  have hstep : s.step hash a = some t := h
  refine ⟨?_, ?_, ?_, fun hstop => ?_, ?_⟩
  · rintro key task rfl hrejected
    cases hstep
    unfold State.submit at hrejected ⊢
    split at hrejected
    next hc =>
      rw [if_pos hc]
      exact ⟨rfl, rfl, rfl, rfl⟩
    next => cases hrejected
  · rintro key task rfl haccepted
    cases hstep
    unfold State.submit at haccepted ⊢
    split at haccepted
    next => cases haccepted
    next hc =>
      rw [if_neg hc]
      simp only [not_or, not_not] at hc
      exact ⟨hc.2.1, rfl⟩
  · rintro drain rfl
    simp only [State.step] at hstep
    split at hstep
    next =>
      cases hstep
      cases drain with
      | true => exact ⟨(List.append_nil _).symm, rfl⟩
      | false =>
        have hlt : s.waitingTasks.length < sizeBound := by
          rw [State.length_waitingTasks, ← hs.queued]
          exact hs.queued_lt
        refine ⟨rfl, ?_⟩
        show some (s.waitingTasks.length % sizeBound) = some s.waitingTasks.length
        rw [Nat.mod_eq_of_lt hlt]
    next => cases hstep
  · cases a with
    | submit key task =>
      cases hstep
      unfold State.submit
      split <;> exact ⟨rfl, fun _ => rfl⟩
    | take i =>
      simp only [State.step, State.take] at hstep
      split at hstep
      · cases hstep
      · split at hstep <;> cases hstep <;> exact ⟨rfl, fun _ => rfl⟩
    | finish i failed =>
      simp only [State.step, State.finish] at hstep
      split at hstep <;> cases hstep
      exact ⟨rfl, fun _ => rfl⟩
    | wake i =>
      cases hstep
      exact ⟨rfl, fun _ => rfl⟩
    | notify i =>
      simp only [State.step] at hstep
      split at hstep <;> cases hstep
      exact ⟨rfl, fun _ => rfl⟩
    | beginStop =>
      cases hstep
      exact ⟨rfl, fun _ => rfl⟩
    | stop drain => exact absurd rfl (hstop drain)
    | join discarded =>
      simp only [State.step] at hstep
      split at hstep <;> cases hstep
      exact ⟨rfl, fun hjoin => absurd rfl (hjoin discarded)⟩
  · rintro discarded rfl
    simp only [State.step] at hstep
    split at hstep
    next hjoin =>
      refine ⟨hjoin.1, List.flatMap_eq_nil_iff.mpr fun i _ => ?_,
        List.flatMap_eq_nil_iff.mpr fun i _ => ?_⟩
      · exact (hs.returned i (hjoin.2 i)).1
      · rw [hjoin.2 i]
        rfl
    next => cases hstep

/-- In every reachable state, for any limits and any hash of the keys. -/
theorem executor_safe (hs : (executor l hash).Reachable s) :
    (s.history.accepted.Nodup ∧
      s.history.accepted.Perm (s.history.started ++ (s.history.discarded ++ s.waitingTasks)) ∧
      s.history.started.Perm (s.history.ended ++ s.runningTasks)) ∧
    (∀ key, ofKey key s.history.started <+: ofKey key s.history.accepted ∧
      ∃ current : Option Task,
        ofKey key s.history.started = ofKey key s.history.ended ++ current.toList) ∧
    (∀ i j task other, (s.lanes i).worker = .running task → (s.lanes j).worker = .running other →
      task.key = other.key → i = j) ∧
    (s.metrics.queued = s.waitingTasks.length ∧ s.metrics.queued ≤ l.queueLimit ∧
      s.metrics.active = s.runningTasks.length) ∧
    (s.reportsIdle = true ↔ s.waitingTasks = [] ∧ s.runningTasks = []) ∧
    (∃ t, (executor l hash).Run s t ∧ t.reportsIdle = true ∧
      t.history.accepted = s.history.accepted ∧ t.history.discarded = s.history.discarded) ∧
    ∀ a t, (executor l hash).step s a t → Lawful hash s a t := by
  have hinv : s.Inv hash := inv_executor.reachable hs
  have hrunning : ∀ i task, (s.lanes i).worker = .running task → laneOf l hash task.key = i := by
    intro i task hw
    have hmem : task ∈ ofLane l hash i s.history.started := by
      rw [hinv.run i, hw]
      exact List.mem_append_right _ List.mem_cons_self
    simpa using (List.mem_filter.mp hmem).2
  have hofLane_running : ∀ i, ofLane l hash i s.runningTasks =
      (s.lanes i).worker.task?.toList := by
    intro i
    have hfilter : ofLane l hash i s.runningTasks = (List.finRange l.workers).flatMap
        fun j => if j = i then (s.lanes i).worker.task?.toList else [] := by
      rw [State.runningTasks, ofLane, List.filter_flatMap]
      refine List.flatMap_congr fun j _ => ?_
      cases hw : (s.lanes j).worker with
      | running task =>
        have hof := hrunning j task hw
        by_cases hj : j = i
        · subst hj
          simp [hw, hof]
        · simp [hof, hj]
      | waiting | looking | returned =>
        split
        next hj => rw [← hj, hw]; rfl
        next => rfl
    rw [hfilter, flatMap_ite_eq (List.nodup_finRange _) (List.mem_finRange i)]
  refine ⟨⟨?_, hinv.accounted, ?_⟩, fun key => ⟨?_, ?_⟩, ?_, ⟨?_, hinv.limit, ?_⟩,
    hinv.reportsIdle_iff, hinv.drains, fun a t => hinv.lawful⟩
  · refine List.Nodup.of_map Task.number ?_
    rw [hinv.numbers]
    exact List.nodup_range
  · refine perm_of_filter (f := fun task => laneOf l hash task.key) fun i => ?_
    have hrun := hinv.run i
    rw [← hofLane_running i, ← ofLane_append] at hrun
    exact hrun
  · rw [← ofKey_ofLane l hash key s.history.started,
      ← ofKey_ofLane l hash key s.history.accepted, hinv.lane]
    exact (List.prefix_append _ _).filter _
  · refine ⟨(s.lanes (laneOf l hash key)).worker.task?.filter (·.key = key), ?_⟩
    rw [← ofKey_ofLane l hash key s.history.started, hinv.run, ofKey, List.filter_append]
    congr 1
    · exact ofKey_ofLane l hash key s.history.ended
    · cases (s.lanes (laneOf l hash key)).worker.task? with
      | none => rfl
      | some task => by_cases h : task.key = key <;> simp [Option.filter, h]
  · intro i j task other hi hj hkey
    rw [← hrunning i task hi, ← hrunning j other hj, hkey]
  · rw [State.length_waitingTasks, hinv.queued]
  · rw [State.length_runningTasks, hinv.active]

/-- Two lanes, and three waiting tasks at most. -/
def sampleLimits : Limits := ⟨2, 3, by decide, by decide, by decide, by unfold sizeBound; omega⟩

/-- A fourth task is turned away, the first task of a key throws, and the stop discards the
second one. -/
def stopWhileBusy : List (Action 2) :=
  [.submit "a" true, .submit "a" true, .submit "bb" true, .submit "c" true, .take 1, .take 0,
    .finish 1 true, .stop false, .submit "a" true, .finish 0 false, .notify 1, .take 0, .take 1,
    .join 1]

theorem executor_safe_sample : ∃ s : State sampleLimits.workers,
    Machine.runFn (State.step String.length) (initial 2) stopWhileBusy = some s ∧
    s.history = ⟨[⟨0, "a"⟩, ⟨1, "a"⟩, ⟨2, "bb"⟩], [⟨0, "a"⟩, ⟨2, "bb"⟩], [⟨0, "a"⟩, ⟨2, "bb"⟩],
      [⟨1, "a"⟩]⟩ ∧
    (s.reportsIdle = true ↔ s.waitingTasks = [] ∧ s.runningTasks = []) ∧
    ∀ a t, (executor sampleLimits String.length).step s a t → Lawful String.length s a t := by
  have hrun : (Machine.runFn (State.step (l := sampleLimits) String.length) (initial 2)
      stopWhileBusy).map State.history =
      some ⟨[⟨0, "a"⟩, ⟨1, "a"⟩, ⟨2, "bb"⟩], [⟨0, "a"⟩, ⟨2, "bb"⟩], [⟨0, "a"⟩, ⟨2, "bb"⟩],
        [⟨1, "a"⟩]⟩ := by
    decide +kernel
  obtain ⟨s, hs, hhistory⟩ := Option.map_eq_some_iff.mp hrun
  have hreachable : (executor sampleLimits String.length).Reachable s :=
    Machine.Reachable.runFn (.init rfl) hs
  obtain ⟨-, -, -, -, hidle, -, hlawful⟩ := executor_safe hreachable
  exact ⟨s, hs, hhistory, hidle, hlawful⟩

end CppChat.Executor
