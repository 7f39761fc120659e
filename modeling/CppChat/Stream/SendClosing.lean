import CppChat.Stream.SendQueue

/-! # How a server session stops sending

No queued packet is left behind while the session is open, a session that takes no more packets has
a deadline, and closing happens once, with every callback made behind the socket's end.
-/
namespace CppChat.Stream
open Foundation

/-- The callback that a task carries. -/
def Task.callbacks : Task → List ℕ
  | .closeOnExecutor onClosed => onClosed.toList
  | .drainAndClose _ onClosed => [onClosed]
  | _ => []

namespace Outgoing

variable {s t : Outgoing}

/-! ## Nothing queued is forgotten -/

/-- A write will be started, or the session closed. -/
def StartDue (s : Outgoing) : Prop :=
  (∃ c, .post c ∈ s.callers) ∨ (∃ c, .startWrite c ∈ s.tasks) ∨ .startWrite ∈ s.running ∨
    ∃ cause, .close cause ∈ s.running

def Started (s : Outgoing) : Prop :=
  s.closed = false → s.sendQueue ≠ [] → s.writeActive = true ∨ s.StartDue

theorem StartDue.mono (h : s.StartDue) (hcallers : ∀ c, .post c ∈ s.callers → .post c ∈ t.callers)
    (htasks : ∀ c, .startWrite c ∈ s.tasks → .startWrite c ∈ t.tasks)
    (hrunning : ∀ a, (∀ timeout, a ≠ .armDrainDeadline timeout) → a ∈ s.running → a ∈ t.running) :
    t.StartDue := by
  rcases h with ⟨c, hc⟩ | ⟨c, hc⟩ | hr | ⟨cause, hr⟩
  · exact .inl ⟨c, hcallers c hc⟩
  · exact .inr (.inl ⟨c, htasks c hc⟩)
  · exact .inr (.inr (.inl (hrunning _ (by simp) hr)))
  · exact .inr (.inr (.inr ⟨cause, hrunning _ (by simp) hr⟩))

@[simp] theorem closed_closeOnExecutor (onClosed : Option ℕ) :
    (s.closeOnExecutor onClosed).closed = s.closed := by
  unfold closeOnExecutor dealExceptionSession
  split <;> rfl

@[simp] theorem sendQueue_closeOnExecutor (onClosed : Option ℕ) :
    (s.closeOnExecutor onClosed).sendQueue = [] := by
  unfold closeOnExecutor dealExceptionSession
  split <;> rfl

@[simp] theorem closed_close (cause : Cause) : (s.close cause).closed = true := by
  unfold close
  split
  next h => exact h
  next => simp

@[simp] theorem closed_closeElsewhere (onClosed : Option ℕ) :
    (s.closeElsewhere onClosed).closed = true := by
  unfold closeElsewhere
  split
  next h => exact h.1
  next => rfl

theorem Started.of_closed (h : s.closed = true) : s.Started := by
  intro hopen
  rw [h] at hopen
  cases hopen

theorem Started.queueSend (h : s.Started) (message : Packet) (closeAfterWrite realtime : Bool) :
    (s.queueSend message closeAfterWrite realtime).Started := by
  unfold Outgoing.queueSend
  split
  · exact h
  · split
    · exact h
    · split
      · intro hopen hqueue
        exact (h hopen hqueue).imp_right fun hdue =>
          hdue.mono (fun c hc => List.mem_cons_of_mem _ hc) (fun c hc => hc) fun a _ ha => ha
      · intro hopen _
        by_cases hempty : s.sendQueue = []
        · refine .inr (.inl ⟨closeAfterWrite, ?_⟩)
          simp [hempty]
        · refine (h hopen hempty).imp_right fun hdue =>
            hdue.mono (fun c hc => ?_) (fun c hc => hc) fun a _ ha => ha
          dsimp only
          split
          · exact List.mem_cons_of_mem _ hc
          · exact hc

theorem Started.startWrite (s : Outgoing) : s.startWrite.Started := by
  unfold Outgoing.startWrite
  split
  next h =>
    intro hopen _
    rcases h with h | h
    · rw [h] at hopen
      cases hopen
    · exact .inl h
  next =>
    split
    next hqueue => exact fun _ hne => absurd hqueue hne
    next => exact fun _ _ => .inl rfl

theorem Started.handleWrite (s : Outgoing) (message : Packet) (error : Bool) :
    (s.handleWrite message error).Started := by
  unfold Outgoing.handleWrite
  dsimp only
  split
  next h => exact .of_closed h
  next =>
    split
    · exact .of_closed (closed_close _)
    · intro _ _
      right
      dsimp only [StartDue]
      split
      · exact .inr (.inr (.inr ⟨.drained, by simp⟩))
      · exact .inr (.inr (.inl (by simp)))

theorem Started.drainAndClose (s : Outgoing) (timeout onClosed : ℕ) :
    (s.drainAndClose timeout onClosed).Started := by
  unfold Outgoing.drainAndClose
  split
  next h => exact .of_closed (by simpa using h)
  next =>
    intro _ _
    right
    dsimp only [StartDue]
    split
    · exact .inr (.inr (.inr ⟨.drained, by simp⟩))
    · exact .inr (.inr (.inl (by simp)))

theorem Started.next (h : s.Started) {e : OutgoingEvent} (hstep : s.next e = some t) :
    t.Started := by
  cases e with
  | send id message =>
    cases hstep
    unfold Outgoing.send
    split
    · exact h
    · exact h.queueSend _ _ _
  | notifyOffline message =>
    simp only [Outgoing.next, Option.ite_none_right_eq_some] at hstep
    cases hstep.2
    exact h.queueSend _ _ _
  | close onClosed =>
    cases hstep
    exact .of_closed (closed_closeElsewhere _)
  | drainAndClose timeout onClosed =>
    cases hstep
    intro hopen hqueue
    exact (h hopen hqueue).imp_right fun hdue =>
      hdue.mono (fun c hc => hc) (fun c hc => List.mem_cons_of_mem _ hc) fun a _ ha => ha
  | goOn caller =>
    simp only [Outgoing.next, Option.ite_none_right_eq_some] at hstep
    cases hstep.2
    cases caller with
    | post c => exact fun _ _ => .inr (.inr (.inl ⟨c, List.mem_cons_self⟩))
    | close => exact .of_closed (closed_closeElsewhere _)
  | run task =>
    simp only [Outgoing.next, Option.ite_none_right_eq_some] at hstep
    cases hstep.2
    cases task with
    | startWrite c =>
      refine fun _ _ => .inr (.inr (.inr (.inl ?_)))
      cases c <;> simp [Outgoing.run]
    | closeOnExecutor onClosed => exact fun _ hqueue => absurd (sendQueue_closeOnExecutor _) hqueue
    | drainAndClose timeout onClosed => exact Started.drainAndClose _ _ _
    | expired => exact .of_closed (closed_close _)
  | act =>
    simp only [Outgoing.next] at hstep
    split at hstep
    · cases hstep
    next action rest hrunning =>
      cases hstep
      cases action with
      | armDrainDeadline timeout =>
        have h' : ({ s with running := rest } : Outgoing).Started := fun hopen hqueue =>
          (h hopen hqueue).imp_right fun hdue =>
            hdue.mono (fun c hc => hc) (fun c hc => hc) fun a hne ha => by
              rw [hrunning, List.mem_cons] at ha
              exact ha.resolve_left (hne timeout)
        dsimp only [Outgoing.act, Outgoing.armDrainDeadline]
        split
        · exact h'
        · split
          · exact h'
          · exact h'
      | startWrite => exact Started.startWrite _
      | close cause => exact .of_closed (closed_close _)
  | transfer index count =>
    simp only [Outgoing.next] at hstep
    split at hstep
    · cases hstep
    · simp only [Option.ite_none_right_eq_some] at hstep
      cases hstep.2
      exact h
  | complete index error =>
    simp only [Outgoing.next] at hstep
    split at hstep
    · cases hstep
    · simp only [Option.ite_none_right_eq_some] at hstep
      cases hstep.2
      exact h
  | handle message error =>
    simp only [Outgoing.next, Option.ite_none_right_eq_some] at hstep
    cases hstep.2
    exact Started.handleWrite _ _ _
  | due deadline =>
    simp only [Outgoing.next, Option.ite_none_right_eq_some] at hstep
    cases hstep.2
    intro hopen hqueue
    exact (h hopen hqueue).imp_right fun hdue =>
      hdue.mono (fun c hc => hc) (fun c hc => List.mem_cons_of_mem _ hc) fun a _ ha => ha
  | tick =>
    cases hstep
    exact h

/-! ## One end -/

/-- Callbacks that are kept for the end of the session. -/
def waiting (s : Outgoing) (onClosed : ℕ) : ℕ :=
  s.closeHandlers.count onClosed + (s.tasks.flatMap Task.callbacks).count onClosed

structure Closing (s : Outgoing) : Prop where
  posted : ∀ onClosed, .closeOnExecutor onClosed ∈ s.tasks → s.closed = true
  finish : s.closed = true →
    (s.socketOpen = false ∧ s.closeHandlers = [] ∧ s.sendQueue = [] ∧ s.cleanupStarted = true) ∨
      ∃ onClosed, .closeOnExecutor onClosed ∈ s.tasks
  unclosed : s.closed = false → s.called = [] ∧ s.cleanups = 0
  once : s.cleanups = if s.cleanupStarted then 1 else 0
  called : s.called ≠ [] → s.socketOpen = false
  callbacks : ∀ onClosed, s.asked.count onClosed = s.called.count onClosed + s.waiting onClosed

theorem callbacks_erase {tasks : List Task} {task : Task} (h : task ∈ tasks) (c : ℕ) :
    (tasks.flatMap Task.callbacks).count c =
      task.callbacks.count c + ((tasks.erase task).flatMap Task.callbacks).count c := by
  have hperm := (List.perm_cons_erase h).flatMap_right Task.callbacks
  rw [hperm.count_eq, List.flatMap_cons, List.count_append]

theorem Closing.closeOnExecutor (hclosed : s.closed = true) {onClosed : Option ℕ}
    (honce : s.cleanups = if s.cleanupStarted then 1 else 0)
    (hcount : ∀ c, s.asked.count c =
      s.called.count c + s.waiting c + onClosed.toList.count c) :
    (s.closeOnExecutor onClosed).Closing := by
  have hcalled : ∀ c, s.asked.count c =
      (s.called ++ s.closeHandlers ++ onClosed.toList).count c +
        (s.tasks.flatMap Task.callbacks).count c := by
    intro c
    rw [hcount, List.count_append, List.count_append, waiting]
    omega
  unfold Outgoing.closeOnExecutor dealExceptionSession
  split
  next hstarted =>
    refine ⟨fun _ _ => hclosed, fun _ => .inl ⟨rfl, rfl, rfl, hstarted⟩, fun hopen => ?_, honce,
      fun _ => rfl, ?_⟩
    · rw [show s.closed = false from hopen] at hclosed
      cases hclosed
    · simpa [waiting] using hcalled
  next hstarted =>
    refine ⟨fun _ _ => hclosed, fun _ => .inl ⟨rfl, rfl, rfl, rfl⟩, fun hopen => ?_, ?_,
      fun _ => rfl, ?_⟩
    · rw [show s.closed = false from hopen] at hclosed
      cases hclosed
    · have hstarted : s.cleanupStarted = false := by simpa using hstarted
      simp [honce, hstarted]
    · simpa [waiting] using hcalled

theorem Closing.start : Closing start := by
  refine ⟨?_, ?_, ?_, rfl, ?_, fun _ => rfl⟩ <;> simp [Outgoing.start]

theorem Closing.close (h : s.Closing) (cause : Cause) : (s.close cause).Closing := by
  unfold Outgoing.close
  split
  · exact h
  · exact Closing.closeOnExecutor rfl h.once fun c => by simpa [waiting] using h.callbacks c

theorem Closing.closeElsewhere (h : s.Closing) (onClosed : Option ℕ) :
    (s.closeElsewhere onClosed).Closing := by
  unfold Outgoing.closeElsewhere
  split
  · exact h
  · refine ⟨fun _ _ => rfl, fun _ => .inr ⟨onClosed, List.mem_cons_self⟩, by simp, h.once,
      h.called, fun c => ?_⟩
    have hc := h.callbacks c
    simp only [waiting, List.count_append, List.flatMap_cons, Task.callbacks] at hc ⊢
    omega

theorem Closing.queueSend (h : s.Closing) (message : Packet) (closeAfterWrite realtime : Bool) :
    (s.queueSend message closeAfterWrite realtime).Closing := by
  unfold Outgoing.queueSend
  split
  · exact h
  next hopen =>
    have hclosed : s.closed ≠ true := fun hc => hopen (.inl hc)
    split
    · exact h
    · split
      · exact ⟨h.posted, h.finish, h.unclosed, h.once, h.called, h.callbacks⟩
      · exact ⟨h.posted, fun hc => absurd hc hclosed, h.unclosed, h.once, h.called, h.callbacks⟩

theorem Closing.startWrite (h : s.Closing) : s.startWrite.Closing := by
  unfold Outgoing.startWrite
  split
  · exact h
  · split
    · exact h
    · exact ⟨h.posted, h.finish, h.unclosed, h.once, h.called, h.callbacks⟩

theorem Closing.armDrainDeadline (h : s.Closing) (timeout : ℕ) :
    (s.armDrainDeadline timeout).Closing := by
  unfold Outgoing.armDrainDeadline
  split
  · exact h
  · split
    · exact h
    · exact ⟨h.posted, h.finish, h.unclosed, h.once, h.called, h.callbacks⟩

theorem Closing.handleWrite (h : s.Closing) (message : Packet) (error : Bool) :
    (s.handleWrite message error).Closing := by
  have h' : ({ s with writeActive := false } : Outgoing).Closing :=
    ⟨h.posted, h.finish, h.unclosed, h.once, h.called, h.callbacks⟩
  unfold Outgoing.handleWrite
  dsimp only
  split
  · exact h'
  next hopen =>
    split
    · exact h'.close _
    · exact ⟨h.posted, fun hc => absurd hc hopen, h.unclosed, h.once, h.called, h.callbacks⟩

/-- The strand takes a task off its list. -/
theorem Closing.run (h : s.Closing) {task : Task} (hmem : task ∈ s.tasks) :
    ({ s with tasks := s.tasks.erase task }.run task).Closing := by
  have hposted : ∀ c, .closeOnExecutor c ∈ s.tasks.erase task → s.closed = true := fun c hc =>
    h.posted c (List.mem_of_mem_erase hc)
  have hcount : ∀ c, s.asked.count c = s.called.count c +
      ({ s with tasks := s.tasks.erase task } : Outgoing).waiting c + task.callbacks.count c := by
    intro c
    have hc := h.callbacks c
    have herase := callbacks_erase hmem c
    simp only [waiting] at hc ⊢
    omega
  have hfinish : (∀ c, task ≠ .closeOnExecutor c) → s.closed = true →
      (s.socketOpen = false ∧ s.closeHandlers = [] ∧ s.sendQueue = [] ∧ s.cleanupStarted = true) ∨
        ∃ onClosed, .closeOnExecutor onClosed ∈ s.tasks.erase task := by
    intro hne hclosed
    refine (h.finish hclosed).imp_right fun ⟨c, hc⟩ => ⟨c, ?_⟩
    exact (List.mem_erase_of_ne (hne c).symm).mpr hc
  cases task with
  | startWrite c => exact ⟨hposted, hfinish (by simp), h.unclosed, h.once, h.called, hcount⟩
  | closeOnExecutor onClosed =>
    exact Closing.closeOnExecutor (s := { s with tasks := s.tasks.erase _ })
      (h.posted onClosed hmem) h.once hcount
  | drainAndClose timeout onClosed =>
    dsimp only [Outgoing.run, Outgoing.drainAndClose]
    split
    next hclosed =>
      exact Closing.closeOnExecutor (s := { s with tasks := s.tasks.erase _ }) hclosed h.once hcount
    next hopen =>
      refine ⟨hposted, fun hc => absurd hc hopen, h.unclosed, h.once, h.called, fun c => ?_⟩
      have hc := hcount c
      simp only [waiting, List.count_append, Task.callbacks] at hc ⊢
      omega
  | expired =>
    have h' : ({ s with tasks := s.tasks.erase .expired } : Outgoing).Closing :=
      ⟨hposted, hfinish (by simp), h.unclosed, h.once, h.called, hcount⟩
    exact h'.close _

theorem Closing.next (h : s.Closing) {e : OutgoingEvent} (hstep : s.next e = some t) :
    t.Closing := by
  cases e with
  | send id message =>
    cases hstep
    unfold Outgoing.send
    split
    · exact h
    · exact h.queueSend _ _ _
  | notifyOffline message =>
    simp only [Outgoing.next, Option.ite_none_right_eq_some] at hstep
    cases hstep.2
    exact h.queueSend _ _ _
  | close onClosed =>
    cases hstep
    exact h.closeElsewhere onClosed
  | drainAndClose timeout onClosed =>
    cases hstep
    refine ⟨fun c hc => h.posted c ?_, fun hc => ?_, h.unclosed, h.once, h.called, fun c => ?_⟩
    · simpa using hc
    · rcases h.finish hc with hstarted | ⟨c, hmem⟩
      · exact .inl hstarted
      · exact .inr ⟨c, List.mem_cons_of_mem _ hmem⟩
    · have hc := h.callbacks c
      simp only [waiting, List.count_append, List.flatMap_cons, Task.callbacks] at hc ⊢
      omega
  | goOn caller =>
    simp only [Outgoing.next, Option.ite_none_right_eq_some] at hstep
    cases hstep.2
    cases caller with
    | post c =>
      refine ⟨fun c hc => h.posted c ?_, fun hc => ?_, h.unclosed, h.once, h.called, h.callbacks⟩
      · simpa [Outgoing.goOn] using hc
      · rcases h.finish hc with hstarted | ⟨c, hmem⟩
        · exact .inl hstarted
        · exact .inr ⟨c, List.mem_cons_of_mem _ hmem⟩
    | close =>
      have h' : ({ s with callers := s.callers.erase .close } : Outgoing).Closing :=
        ⟨h.posted, h.finish, h.unclosed, h.once, h.called, h.callbacks⟩
      exact h'.closeElsewhere none
  | run task =>
    simp only [Outgoing.next, Option.ite_none_right_eq_some] at hstep
    cases hstep.2
    exact h.run hstep.1.2
  | act =>
    simp only [Outgoing.next] at hstep
    split at hstep
    · cases hstep
    next action rest hrunning =>
      cases hstep
      have h' : ({ s with running := rest } : Outgoing).Closing :=
        ⟨h.posted, h.finish, h.unclosed, h.once, h.called, h.callbacks⟩
      cases action with
      | armDrainDeadline timeout => exact h'.armDrainDeadline timeout
      | startWrite => exact h'.startWrite
      | close cause => exact h'.close cause
  | transfer index count =>
    simp only [Outgoing.next] at hstep
    split at hstep
    · cases hstep
    · simp only [Option.ite_none_right_eq_some] at hstep
      cases hstep.2
      exact ⟨h.posted, h.finish, h.unclosed, h.once, h.called, h.callbacks⟩
  | complete index error =>
    simp only [Outgoing.next] at hstep
    split at hstep
    · cases hstep
    · simp only [Option.ite_none_right_eq_some] at hstep
      cases hstep.2
      exact ⟨h.posted, h.finish, h.unclosed, h.once, h.called, h.callbacks⟩
  | handle message error =>
    simp only [Outgoing.next, Option.ite_none_right_eq_some] at hstep
    cases hstep.2
    have h' : ({ s with completed := s.completed.erase (message, error) } : Outgoing).Closing :=
      ⟨h.posted, h.finish, h.unclosed, h.once, h.called, h.callbacks⟩
    exact h'.handleWrite message error
  | due deadline =>
    simp only [Outgoing.next, Option.ite_none_right_eq_some] at hstep
    cases hstep.2
    refine ⟨fun c hc => h.posted c ?_, fun hc => ?_, h.unclosed, h.once, h.called, h.callbacks⟩
    · simpa using hc
    · rcases h.finish hc with hstarted | ⟨c, hmem⟩
      · exact .inl hstarted
      · exact .inr ⟨c, List.mem_cons_of_mem _ hmem⟩
  | tick =>
    cases hstep
    exact ⟨h.posted, h.finish, h.unclosed, h.once, h.called, h.callbacks⟩

/-! ## The deadline -/

/-- The drain timer will be armed, or the session closed. -/
def ArmDue (s : Outgoing) : Prop :=
  .post true ∈ s.callers ∨ .startWrite true ∈ s.tasks ∨
    (∃ timeout, .armDrainDeadline timeout ∈ s.running) ∨ ∃ cause, .close cause ∈ s.running

structure Timed (s : Outgoing) : Prop where
  ends : s.closed = false → s.closeAfterWrite = true → s.drainTimerActive = true ∨ s.ArmDue
  deadline : s.closed = false → s.drainTimerActive = true → s.expiry ∈ s.waits ∨ .expired ∈ s.tasks
  retires : s.closeAfterWrite = true → s.retiring = true

theorem ArmDue.mono (h : s.ArmDue) (hcallers : .post true ∈ s.callers → .post true ∈ t.callers)
    (htasks : .startWrite true ∈ s.tasks → .startWrite true ∈ t.tasks)
    (hrunning : ∀ a, a ≠ .startWrite → a ∈ s.running → a ∈ t.running) : t.ArmDue := by
  rcases h with hc | hc | ⟨timeout, hr⟩ | ⟨cause, hr⟩
  · exact .inl (hcallers hc)
  · exact .inr (.inl (htasks hc))
  · exact .inr (.inr (.inl ⟨timeout, hrunning _ (by simp) hr⟩))
  · exact .inr (.inr (.inr ⟨cause, hrunning _ (by simp) hr⟩))

theorem Timed.of_closed (h : s.closed = true)
    (hretires : s.closeAfterWrite = true → s.retiring = true) : s.Timed := by
  refine ⟨fun hopen => ?_, fun hopen => ?_, hretires⟩ <;>
  · rw [h] at hopen
    cases hopen

theorem Timed.start : Timed start := by
  refine ⟨?_, ?_, ?_⟩ <;> simp [Outgoing.start]

theorem Timed.queueSend (h : s.Timed) (message : Packet) (closeAfterWrite realtime : Bool) :
    (s.queueSend message closeAfterWrite realtime).Timed := by
  unfold Outgoing.queueSend
  split
  · exact h
  · split
    · exact h
    · split
      · refine ⟨fun hopen hends => (h.ends hopen hends).imp_right fun hdue => ?_, h.deadline,
          h.retires⟩
        exact hdue.mono (fun hc => List.mem_cons_of_mem _ hc) (fun hc => hc) fun a _ ha => ha
      · refine ⟨fun hopen hends => .inr (.inl ?_), h.deadline, fun hends => ?_⟩
        · have hends : closeAfterWrite = true := hends
          simp [hends]
        · have hends : closeAfterWrite = true := hends
          simp [hends]

@[simp] theorem closeAfterWrite_closeOnExecutor (onClosed : Option ℕ) :
    (s.closeOnExecutor onClosed).closeAfterWrite = s.closeAfterWrite := by
  unfold Outgoing.closeOnExecutor dealExceptionSession
  split <;> rfl

@[simp] theorem retiring_closeOnExecutor (onClosed : Option ℕ) :
    (s.closeOnExecutor onClosed).retiring = s.retiring := by
  unfold Outgoing.closeOnExecutor dealExceptionSession
  split <;> rfl

theorem Timed.close (h : s.closeAfterWrite = true → s.retiring = true) (cause : Cause) :
    (s.close cause).Timed := by
  refine .of_closed (closed_close _) ?_
  unfold Outgoing.close
  split
  · exact h
  · simpa using h

theorem Timed.closeElsewhere (h : s.closeAfterWrite = true → s.retiring = true)
    (onClosed : Option ℕ) : (s.closeElsewhere onClosed).Timed := by
  refine .of_closed (closed_closeElsewhere _) ?_
  unfold Outgoing.closeElsewhere
  split <;> exact h

theorem Timed.startWrite (h : s.Timed) : s.startWrite.Timed := by
  unfold Outgoing.startWrite
  split
  · exact h
  · split
    · exact h
    · exact ⟨h.ends, h.deadline, h.retires⟩

/-- The deadline is set behind this, and stays what it was when that is sooner. -/
theorem Timed.armDrainDeadline (hretires : s.closeAfterWrite = true → s.retiring = true)
    (hdeadline : s.closed = false → s.drainTimerActive = true →
      s.expiry ∈ s.waits ∨ .expired ∈ s.tasks) (timeout : ℕ) :
    (s.armDrainDeadline timeout).Timed := by
  unfold Outgoing.armDrainDeadline
  split
  next hclosed => exact .of_closed hclosed hretires
  next =>
    split
    next harmed => exact ⟨fun _ _ => .inl harmed.1, hdeadline, hretires⟩
    next => exact ⟨fun _ _ => .inl rfl, fun _ _ => .inl List.mem_cons_self, hretires⟩

theorem Timed.handleWrite (h : s.Timed) (hrunning : s.running = []) (message : Packet)
    (error : Bool) : (s.handleWrite message error).Timed := by
  unfold Outgoing.handleWrite
  dsimp only
  split
  next hclosed => exact .of_closed hclosed h.retires
  next =>
    split
    · exact Timed.close (s := { s with writeActive := false }) h.retires _
    · refine ⟨fun hopen hends => (h.ends hopen hends).imp_right fun hdue => ?_, h.deadline,
        h.retires⟩
      exact hdue.mono (fun hc => hc) (fun hc => hc) fun a _ ha => by simp [hrunning] at ha

theorem Timed.run (h : s.Timed) (hrunning : s.running = []) {task : Task}
    (hmem : task ∈ s.tasks)
    (hposted : ∀ onClosed, .closeOnExecutor onClosed ∈ s.tasks → s.closed = true) :
    ({ s with tasks := s.tasks.erase task }.run task).Timed := by
  have hdeadline : task ≠ .expired → s.closed = false → s.drainTimerActive = true →
      s.expiry ∈ s.waits ∨ .expired ∈ s.tasks.erase task := by
    intro hne hopen hactive
    exact (h.deadline hopen hactive).imp_right (List.mem_erase_of_ne hne.symm).mpr
  cases task with
  | startWrite c =>
    refine ⟨fun hopen hends => ?_, hdeadline (by simp), h.retires⟩
    cases c with
    | true => exact .inr (.inr (.inr (.inl ⟨3, List.mem_cons_self⟩)))
    | false =>
      refine (h.ends hopen hends).imp_right fun hdue => ?_
      exact hdue.mono (fun hc => hc) (fun hc => (List.mem_erase_of_ne (by simp)).mpr hc)
        fun a _ ha => by simp [hrunning] at ha
  | closeOnExecutor onClosed =>
    exact .of_closed ((closed_closeOnExecutor _).trans (hposted onClosed hmem))
      (by simpa [Outgoing.run] using h.retires)
  | drainAndClose timeout onClosed =>
    dsimp only [Outgoing.run, Outgoing.drainAndClose]
    split
    next hclosed =>
      exact .of_closed ((closed_closeOnExecutor _).trans hclosed)
        (by simpa using h.retires)
    next =>
      refine ⟨fun _ _ => .inr (.inr (.inr ?_)), hdeadline (by simp), fun _ => rfl⟩
      dsimp only
      split
      · exact .inr ⟨.drained, List.mem_cons_self⟩
      · exact .inl ⟨timeout, List.mem_cons_self⟩
  | expired => exact Timed.close (s := { s with tasks := s.tasks.erase .expired }) h.retires _

theorem Timed.next (h : s.Timed)
    (hposted : ∀ onClosed, .closeOnExecutor onClosed ∈ s.tasks → s.closed = true)
    {e : OutgoingEvent} (hstep : s.next e = some t) : t.Timed := by
  cases e with
  | send id message =>
    cases hstep
    unfold Outgoing.send
    split
    · exact h
    · exact h.queueSend _ _ _
  | notifyOffline message =>
    simp only [Outgoing.next, Option.ite_none_right_eq_some] at hstep
    cases hstep.2
    exact h.queueSend _ _ _
  | close onClosed =>
    cases hstep
    exact .closeElsewhere h.retires _
  | drainAndClose timeout onClosed =>
    cases hstep
    refine ⟨fun hopen hends => (h.ends hopen hends).imp_right fun hdue => ?_,
      fun hopen hactive => (h.deadline hopen hactive).imp_right (List.mem_cons_of_mem _),
      h.retires⟩
    exact hdue.mono (fun hc => hc) (List.mem_cons_of_mem _) fun a _ ha => ha
  | goOn caller =>
    simp only [Outgoing.next, Option.ite_none_right_eq_some] at hstep
    cases hstep.2
    cases caller with
    | post c =>
      refine ⟨fun hopen hends => (h.ends hopen hends).imp_right fun hdue => ?_,
        fun hopen hactive => (h.deadline hopen hactive).imp_right (List.mem_cons_of_mem _),
        h.retires⟩
      cases c with
      | true => exact .inr (.inl List.mem_cons_self)
      | false =>
        exact hdue.mono (fun hc => (List.mem_erase_of_ne (by simp)).mpr hc)
          (List.mem_cons_of_mem _) fun a _ ha => ha
    | close =>
      exact Timed.closeElsewhere (s := { s with callers := s.callers.erase .close }) h.retires _
  | run task =>
    simp only [Outgoing.next, Option.ite_none_right_eq_some] at hstep
    cases hstep.2
    exact h.run hstep.1.1 hstep.1.2 hposted
  | act =>
    simp only [Outgoing.next] at hstep
    split at hstep
    · cases hstep
    next action rest hrunning =>
      cases hstep
      cases action with
      | armDrainDeadline timeout =>
        exact Timed.armDrainDeadline (s := { s with running := rest }) h.retires h.deadline timeout
      | startWrite =>
        refine Timed.startWrite ⟨fun hopen hends => ?_, h.deadline, h.retires⟩
        refine (h.ends hopen hends).imp_right fun hdue => ?_
        refine hdue.mono (fun hc => hc) (fun hc => hc) fun a hne ha => ?_
        rw [hrunning, List.mem_cons] at ha
        exact ha.resolve_left hne
      | close cause => exact Timed.close (s := { s with running := rest }) h.retires _
  | transfer index count =>
    simp only [Outgoing.next] at hstep
    split at hstep
    · cases hstep
    · simp only [Option.ite_none_right_eq_some] at hstep
      cases hstep.2
      exact ⟨h.ends, h.deadline, h.retires⟩
  | complete index error =>
    simp only [Outgoing.next] at hstep
    split at hstep
    · cases hstep
    · simp only [Option.ite_none_right_eq_some] at hstep
      cases hstep.2
      exact ⟨h.ends, h.deadline, h.retires⟩
  | handle message error =>
    simp only [Outgoing.next, Option.ite_none_right_eq_some] at hstep
    cases hstep.2
    have h' : ({ s with completed := s.completed.erase (message, error) } : Outgoing).Timed :=
      ⟨h.ends, h.deadline, h.retires⟩
    exact h'.handleWrite hstep.1.1 message error
  | due deadline =>
    simp only [Outgoing.next, Option.ite_none_right_eq_some] at hstep
    cases hstep.2
    refine ⟨fun hopen hends => (h.ends hopen hends).imp_right fun hdue => ?_,
      fun _ _ => .inr List.mem_cons_self, h.retires⟩
    exact hdue.mono (fun hc => hc) (List.mem_cons_of_mem _) fun a _ ha => ha
  | tick =>
    cases hstep
    exact ⟨h.ends, h.deadline, h.retires⟩

/-! ## What a run keeps -/

/-- A deadline is only brought forward; a session that takes no more packets takes none again, a
closed one begins no write and a closed socket takes no byte. -/
structure Kept (s t : Outgoing) : Prop where
  deadline : s.drainTimerActive = true → t.drainTimerActive = true ∧ t.expiry ≤ s.expiry
  ending : s.closed = true ∨ s.closeAfterWrite = true →
    (t.closed = true ∨ t.closeAfterWrite = true) ∧ t.queued = s.queued
  closed : s.closed = true → t.closed = true ∧ t.handed = s.handed
  socket : s.socketOpen = false → t.socketOpen = false ∧ t.wire = s.wire

/-- A step that touches none of these fields. -/
theorem Kept.of_eq (h : (t.drainTimerActive, t.expiry, t.closed, t.closeAfterWrite, t.queued,
    t.handed, t.socketOpen, t.wire) = (s.drainTimerActive, s.expiry, s.closed, s.closeAfterWrite,
    s.queued, s.handed, s.socketOpen, s.wire)) : Kept s t := by
  simp only [Prod.mk.injEq] at h
  obtain ⟨hactive, hexpiry, hclosed, hending, hqueued, hhanded, hsocket, hwire⟩ := h
  refine ⟨fun h => ?_, fun h => ?_, fun h => ?_, fun h => ?_⟩
  · exact ⟨hactive.trans h, hexpiry.le⟩
  · rw [hclosed, hending]
    exact ⟨h, hqueued⟩
  · exact ⟨hclosed.trans h, hhanded⟩
  · exact ⟨hsocket.trans h, hwire⟩

theorem Kept.refl (s : Outgoing) : Kept s s := .of_eq rfl

theorem Kept.trans {u : Outgoing} (h : Kept s t) (h' : Kept t u) : Kept s u := by
  refine ⟨fun hactive => ?_, fun hending => ?_, fun hclosed => ?_, fun hsocket => ?_⟩
  · obtain ⟨ht, hle⟩ := h.deadline hactive
    obtain ⟨hu, hle'⟩ := h'.deadline ht
    exact ⟨hu, hle'.trans hle⟩
  · obtain ⟨ht, hqueued⟩ := h.ending hending
    obtain ⟨hu, hqueued'⟩ := h'.ending ht
    exact ⟨hu, hqueued'.trans hqueued⟩
  · obtain ⟨ht, hhanded⟩ := h.closed hclosed
    obtain ⟨hu, hhanded'⟩ := h'.closed ht
    exact ⟨hu, hhanded'.trans hhanded⟩
  · obtain ⟨ht, hwire⟩ := h.socket hsocket
    obtain ⟨hu, hwire'⟩ := h'.socket ht
    exact ⟨hu, hwire'.trans hwire⟩

theorem Kept.queueSend (s : Outgoing) (message : Packet) (closeAfterWrite realtime : Bool) :
    Kept s (s.queueSend message closeAfterWrite realtime) := by
  unfold Outgoing.queueSend
  split
  · exact .refl s
  next hopen =>
    split
    · exact .refl s
    · split
      · exact .of_eq rfl
      · exact ⟨fun h => ⟨h, le_rfl⟩, fun h => absurd h hopen, fun h => ⟨h, rfl⟩, fun h => ⟨h, rfl⟩⟩

theorem Kept.closeOnExecutor (s : Outgoing) (onClosed : Option ℕ) :
    Kept s (s.closeOnExecutor onClosed) := by
  unfold Outgoing.closeOnExecutor dealExceptionSession
  split <;> exact ⟨fun h => ⟨h, le_rfl⟩, fun h => ⟨h, rfl⟩, fun h => ⟨h, rfl⟩, fun _ => ⟨rfl, rfl⟩⟩

theorem Kept.close (s : Outgoing) (cause : Cause) : Kept s (s.close cause) := by
  unfold Outgoing.close
  split
  · exact .refl s
  · refine Kept.trans ?_ (.closeOnExecutor _ _)
    exact ⟨fun h => ⟨h, le_rfl⟩, fun _ => ⟨.inl rfl, rfl⟩, fun _ => ⟨rfl, rfl⟩, fun h => ⟨h, rfl⟩⟩

theorem Kept.closeElsewhere (s : Outgoing) (onClosed : Option ℕ) :
    Kept s (s.closeElsewhere onClosed) := by
  unfold Outgoing.closeElsewhere
  split
  · exact .refl s
  · exact ⟨fun h => ⟨h, le_rfl⟩, fun _ => ⟨.inl rfl, rfl⟩, fun _ => ⟨rfl, rfl⟩, fun h => ⟨h, rfl⟩⟩

theorem Kept.startWrite (s : Outgoing) : Kept s s.startWrite := by
  unfold Outgoing.startWrite
  split
  · exact .refl s
  next hopen =>
    split
    · exact .refl s
    · exact ⟨fun h => ⟨h, le_rfl⟩, fun h => ⟨h, rfl⟩, fun h => absurd (.inl h) hopen,
        fun h => ⟨h, rfl⟩⟩

theorem Kept.armDrainDeadline (s : Outgoing) (timeout : ℕ) :
    Kept s (s.armDrainDeadline timeout) := by
  unfold Outgoing.armDrainDeadline
  split
  · exact .refl s
  · split
    · exact .refl s
    next harmed =>
      refine ⟨fun h => ⟨rfl, ?_⟩, fun h => ⟨h, rfl⟩, fun h => ⟨h, rfl⟩, fun h => ⟨h, rfl⟩⟩
      rw [not_and, not_le] at harmed
      exact (harmed h).le

theorem Kept.drainAndClose (s : Outgoing) (timeout onClosed : ℕ) :
    Kept s (s.drainAndClose timeout onClosed) := by
  unfold Outgoing.drainAndClose
  split
  · exact .closeOnExecutor s _
  · exact ⟨fun h => ⟨h, le_rfl⟩, fun _ => ⟨.inr rfl, rfl⟩, fun h => ⟨h, rfl⟩, fun h => ⟨h, rfl⟩⟩

theorem Kept.handleWrite (s : Outgoing) (message : Packet) (error : Bool) :
    Kept s (s.handleWrite message error) := by
  have h' : Kept s { s with writeActive := false } := .of_eq rfl
  unfold Outgoing.handleWrite
  dsimp only
  split
  · exact h'
  · split
    · exact h'.trans (.close _ _)
    · exact .of_eq rfl

theorem Kept.next {e : OutgoingEvent} (hstep : s.next e = some t) : Kept s t := by
  cases e with
  | send id message =>
    cases hstep
    unfold Outgoing.send
    split
    · exact .refl s
    · exact .queueSend _ _ _ _
  | notifyOffline message =>
    simp only [Outgoing.next, Option.ite_none_right_eq_some] at hstep
    cases hstep.2
    exact .queueSend _ _ _ _
  | close onClosed =>
    cases hstep
    exact .closeElsewhere _ _
  | drainAndClose timeout onClosed =>
    cases hstep
    exact .of_eq rfl
  | goOn caller =>
    simp only [Outgoing.next, Option.ite_none_right_eq_some] at hstep
    cases hstep.2
    have h' : Kept s { s with callers := s.callers.erase caller } := .of_eq rfl
    cases caller with
    | post c => exact .of_eq rfl
    | close => exact h'.trans (.closeElsewhere _ _)
  | run task =>
    simp only [Outgoing.next, Option.ite_none_right_eq_some] at hstep
    cases hstep.2
    have h' : Kept s { s with tasks := s.tasks.erase task } := .of_eq rfl
    cases task with
    | startWrite c => exact .of_eq rfl
    | closeOnExecutor onClosed => exact h'.trans (.closeOnExecutor _ _)
    | drainAndClose timeout onClosed => exact h'.trans (.drainAndClose _ _ _)
    | expired => exact h'.trans (.close _ _)
  | act =>
    simp only [Outgoing.next] at hstep
    split at hstep
    · cases hstep
    next action rest hrunning =>
      cases hstep
      have h' : Kept s { s with running := rest } :=
        .of_eq rfl
      cases action with
      | armDrainDeadline timeout => exact h'.trans (.armDrainDeadline _ _)
      | startWrite => exact h'.trans (.startWrite _)
      | close cause => exact h'.trans (.close _ _)
  | transfer index count =>
    simp only [Outgoing.next] at hstep
    split at hstep
    · cases hstep
    · simp only [Option.ite_none_right_eq_some] at hstep
      obtain ⟨⟨hopen, -⟩, hstep⟩ := hstep
      cases hstep
      refine ⟨fun h => ⟨h, le_rfl⟩, fun h => ⟨h, rfl⟩, fun h => ⟨h, rfl⟩, fun h => ?_⟩
      rw [h] at hopen
      cases hopen
  | complete index error =>
    simp only [Outgoing.next] at hstep
    split at hstep
    · cases hstep
    · simp only [Option.ite_none_right_eq_some] at hstep
      cases hstep.2
      exact .of_eq rfl
  | handle message error =>
    simp only [Outgoing.next, Option.ite_none_right_eq_some] at hstep
    cases hstep.2
    have h' : Kept s { s with completed := s.completed.erase (message, error) } := .of_eq rfl
    exact h'.trans (.handleWrite _ _ _)
  | due deadline =>
    simp only [Outgoing.next, Option.ite_none_right_eq_some] at hstep
    cases hstep.2
    exact .of_eq rfl
  | tick =>
    cases hstep
    exact .of_eq rfl

/-! ## Every run -/

theorem inv_invariant :
    machine.Invariant fun s => s.Ordered ∧ s.Started ∧ s.Closing ∧ s.Timed where
  init s h := by
    cases h
    exact ⟨.start, by simp [Started, start], .start, .start⟩
  step s e t _ h hstep := by
    obtain ⟨hordered, hstarted, hclosing, htimed⟩ := h
    have hstep : s.next e = some t := hstep
    exact ⟨hordered.next hclosing.posted hstep, hstarted.next hstep, hclosing.next hstep,
      htimed.next hclosing.posted hstep⟩

/-- What is on the wire is the start of what was queued; all of it is there when the session has
nothing more to write, or has closed because its queue was drained. -/
theorem sent_in_order (hs : machine.Reachable s) :
    s.sendQueue.length ≤ maxSendque ∧ s.writes.length + s.completed.length ≤ 1 ∧
      s.wire <+: s.queued.flatMap Packet.bytes ∧
      (∀ message error, (message, error) ∈ s.completed → s.closed = false →
        s.sendQueue.head? = some message) ∧
      (s.closed = false → s.sendQueue ≠ [] → s.writeActive = true ∨ s.StartDue) ∧
      (s.closed = false → s.writeActive = false → ¬ s.StartDue →
        s.wire = s.queued.flatMap Packet.bytes) ∧
      (s.cause = some .drained → s.wire = s.queued.flatMap Packet.bytes) := by
  obtain ⟨hordered, hstarted, -, -⟩ := inv_invariant.reachable hs
  refine ⟨hordered.full, hordered.phase.single, hordered.wire_prefix,
    fun message error hmem hopen => ?_, hstarted, fun hopen hactive hdue => ?_,
    fun hcause => (hordered.drained hcause).2.2⟩
  · cases hordered.phase with
    | idle _ _ hcompleted => simp [hcompleted] at hmem
    | writing _ _ _ _ _ hcompleted => simp [hcompleted] at hmem
    | written first _ _ _ _ hcompleted _ _ hhead =>
      rw [hcompleted, List.mem_singleton, Prod.mk.injEq] at hmem
      rw [hmem.1]
      exact (hhead hopen).2
  · have hempty : s.sendQueue = [] := by
      by_contra hne
      rcases hstarted hopen hne with h | h
      · rw [hactive] at h
        cases h
      · exact hdue h
    have hqueued := hordered.rest hopen
    rw [hempty, List.append_nil] at hqueued
    cases hordered.phase with
    | idle _ _ _ hsent => rw [hqueued, (hsent hopen).2]
    | writing _ _ _ hactive' => simp [hactive] at hactive'
    | written _ _ _ hactive' => simp [hactive] at hactive'

/-- A session that takes no more packets has a deadline or is about to set one, and neither is taken
back. It closes once and sends nothing behind that; each callback is made once, and none before the
socket is closed. -/
theorem closes_once (hs : machine.Reachable s) (hrun : machine.Run s t) :
    (s.closed = false → s.closeAfterWrite = true → s.retiring = true ∧
      (s.ArmDue ∨ s.drainTimerActive = true ∧ (s.expiry ∈ s.waits ∨ .expired ∈ s.tasks))) ∧
      (s.drainTimerActive = true → t.drainTimerActive = true ∧ t.expiry ≤ s.expiry) ∧
      (s.closed = true ∨ s.closeAfterWrite = true → t.queued = s.queued) ∧
      (s.closed = true → t.closed = true ∧ t.handed = s.handed) ∧
      (s.socketOpen = false → t.socketOpen = false ∧ t.wire = s.wire) ∧
      s.cleanups ≤ 1 ∧ (s.called ≠ [] → s.socketOpen = false) ∧
      (∀ c, s.asked.count c = s.called.count c + s.waiting c) ∧
      (s.closed = true → s.tasks = [] →
        s.socketOpen = false ∧ s.sendQueue = [] ∧ s.cleanups = 1 ∧ s.called.Perm s.asked) := by
  obtain ⟨-, -, hclosing, htimed⟩ := inv_invariant.reachable hs
  have hkept : Kept s t := Machine.Run.relates Kept.refl (fun _ _ _ => Kept.trans)
    (fun _ _ _ _ hstep => Kept.next hstep) hs hrun
  refine ⟨fun hopen hends => ⟨htimed.retires hends, ?_⟩, hkept.deadline,
    fun hending => (hkept.ending hending).2, hkept.closed, hkept.socket, ?_, hclosing.called,
    hclosing.callbacks,
    fun hclosed htasks => ?_⟩
  · rcases htimed.ends hopen hends with hactive | hdue
    · exact .inr ⟨hactive, htimed.deadline hopen hactive⟩
    · exact .inl hdue
  · rw [hclosing.once]
    split <;> omega
  · rcases hclosing.finish hclosed with ⟨hsocket, hhandlers, hqueue, hstarted⟩ | ⟨c, hc⟩
    · refine ⟨hsocket, hqueue, ?_, List.perm_iff_count.mpr fun c => ?_⟩
      · rw [hclosing.once, if_pos hstarted]
      · simp [hclosing.callbacks, waiting, hhandlers, htasks]
    · simp [htasks] at hc

/-! ## A run -/

/-- Two packets, the notice that ends the session, and both ends of each write. -/
def sampleEvents : List OutgoingEvent :=
  let first : Packet := ⟨1017, [1]⟩
  let notice : Packet := ⟨idNotifyOffLineReq, [2, 3]⟩
  [.send 1017 [1], .notifyOffline [2, 3], .send 1017 [4], .goOn (.post true),
    .run (.startWrite true), .act, .act, .goOn (.post false), .transfer 0 5, .complete 0 false,
    .handle first false, .act, .drainAndClose 1 7, .transfer 0 6, .complete 0 false,
    .run (.drainAndClose 1 7), .act, .act, .handle notice false, .act, .run (.startWrite false),
    .act]

theorem sample_reaches : ∃ s, Machine.runFn next start sampleEvents = some s ∧
    s.cause = some .drained ∧ s.wire = [3, 249, 0, 1, 1, 3, 253, 0, 2, 2, 3] ∧ s.called = [7] ∧
    s.tasks = [] ∧ s.closed = true := by
  have hrun : (Machine.runFn next start sampleEvents).isSome = true := by decide
  exact ⟨_, (Option.some_get hrun).symm, rfl, rfl, rfl, rfl, rfl⟩

theorem sample_sent : ∃ s, machine.Reachable s ∧ s.cause = some .drained ∧
    s.wire = [3, 249, 0, 1, 1, 3, 253, 0, 2, 2, 3] ∧
    s.wire = s.queued.flatMap Packet.bytes := by
  obtain ⟨s, hrun, hcause, hwire, -⟩ := sample_reaches
  have hs : machine.Reachable s := Machine.Reachable.runFn (.init rfl) hrun
  exact ⟨s, hs, hcause, hwire, (sent_in_order hs).2.2.2.2.2.2 hcause⟩

theorem sample_closed : ∃ s, machine.Reachable s ∧ s.called = [7] ∧ s.cleanups = 1 ∧
    s.called.Perm s.asked := by
  obtain ⟨s, hrun, -, -, hcalled, htasks, hclosed⟩ := sample_reaches
  have hs : machine.Reachable s := Machine.Reachable.runFn (.init rfl) hrun
  obtain ⟨-, -, hcleanups, hperm⟩ := (closes_once hs .refl).2.2.2.2.2.2.2.2 hclosed htasks
  exact ⟨s, hs, hcalled, hcleanups, hperm⟩

end Outgoing
end CppChat.Stream
