import CppChat.Foundation.Transition
import CppChat.Stream.Packets

/-! # The send queue of a server session

Any thread queues packets under a mutex and leaves the rest to the strand of the session, which
keeps one write at a time. A thread may be stopped between its locked section and its post, and a
session may be closed between any two parts of a handler.
-/
namespace CppChat.Stream
open Foundation

def maxSendque : ℕ := 1000

/-- The two ids whose packets are dropped rather than queued late. -/
def idVoiceAudio : ℕ := 1073
def idVideoImage : ℕ := 1075
def idNotifyOffLineReq : ℕ := 1021

/-- What a thread still has to do behind the locked section of `QueueSend`. -/
inductive Caller
  | post (closeAfterWrite : Bool)
  | close
  deriving DecidableEq

/-- Who closed the session first. -/
inductive Cause
  | asked
  | failed
  | drained
  | late
  deriving DecidableEq

/-- What waits for the strand. -/
inductive Task
  | startWrite (closeAfterWrite : Bool)
  | closeOnExecutor (onClosed : Option ℕ)
  | drainAndClose (timeout : ℕ) (onClosed : ℕ)
  | expired
  deriving DecidableEq

/-- What the handler on the strand does next. -/
inductive Action
  | armDrainDeadline (timeout : ℕ)
  | startWrite
  | close (cause : Cause)
  deriving DecidableEq

/-- An `async_write` and how much of it is out. -/
structure Write where
  packet : Packet
  out : ℕ

/-- The fields of `CSession` that sending uses. `waits` are the pending waits of the drain timer,
`completed` the finished writes whose handlers have not run, each with its error. The last block is
history: who closed first, the packets that were queued, given to a write and popped, the bytes on
the wire, and the callbacks that were asked for and made. -/
structure Outgoing where
  closed : Bool
  retiring : Bool
  closeAfterWrite : Bool
  sendQueue : List Packet
  writeActive : Bool
  cleanupStarted : Bool
  drainTimerActive : Bool
  expiry : ℕ
  closeHandlers : List ℕ
  socketOpen : Bool
  now : ℕ
  callers : List Caller
  tasks : List Task
  running : List Action
  writes : List Write
  completed : List (Packet × Bool)
  waits : List ℕ
  cause : Option Cause
  queued : List Packet
  handed : List Packet
  popped : List Packet
  wire : Bytes
  asked : List ℕ
  called : List ℕ
  cleanups : ℕ

namespace Outgoing

def start : Outgoing where
  closed := false
  retiring := false
  closeAfterWrite := false
  sendQueue := []
  writeActive := false
  cleanupStarted := false
  drainTimerActive := false
  expiry := 0
  closeHandlers := []
  socketOpen := true
  now := 0
  callers := []
  tasks := []
  running := []
  writes := []
  completed := []
  waits := []
  cause := none
  queued := []
  handed := []
  popped := []
  wire := []
  asked := []
  called := []
  cleanups := 0

/-- The locked section of `QueueSend`. It reads `closed_` once, which `Close` sets without the
mutex: a `Close` between this read and the push is one after the section. -/
def queueSend (s : Outgoing) (message : Packet) (closeAfterWrite realtime : Bool) : Outgoing :=
  if s.closed ∨ s.closeAfterWrite then s
  else if realtime ∧ 10 ≤ s.sendQueue.length then s
  else if maxSendque ≤ s.sendQueue.length then { s with callers := .close :: s.callers }
  else
    { s with
      sendQueue := s.sendQueue ++ [message]
      closeAfterWrite
      retiring := s.retiring || closeAfterWrite
      queued := s.queued ++ [message]
      callers :=
        if s.sendQueue.isEmpty ∨ closeAfterWrite then .post closeAfterWrite :: s.callers
        else s.callers }

/-- `Send`. -/
def send (s : Outgoing) (id : ℕ) (message : Bytes) : Outgoing :=
  if message.length = 0 ∨ maxLength < message.length then s
  else s.queueSend ⟨id, message⟩ false (id = idVoiceAudio ∨ id = idVideoImage)

/-- `NotifyOffline`, with the text of the notice. -/
def notifyOffline (s : Outgoing) (message : Bytes) : Outgoing :=
  s.queueSend ⟨idNotifyOffLineReq, message⟩ true false

/-- `closed_` is read once here too. What empties the queue and closes the socket runs on the
strand, so a `Close` between the read and the write is one after the handler. -/
def startWrite (s : Outgoing) : Outgoing :=
  if s.closed ∨ s.writeActive then s
  else match s.sendQueue with
    | [] => s
    | message :: _ => { s with
        writeActive := true
        writes := ⟨message, 0⟩ :: s.writes
        handed := s.handed ++ [message] }

/-- `DealExceptionSession`. -/
def dealExceptionSession (s : Outgoing) : Outgoing :=
  if s.cleanupStarted then s else { s with cleanupStarted := true, cleanups := s.cleanups + 1 }

def closeOnExecutor (s : Outgoing) (onClosed : Option ℕ) : Outgoing :=
  let s := { s with waits := [], socketOpen := false, sendQueue := [] }.dealExceptionSession
  { s with closeHandlers := [], called := s.called ++ s.closeHandlers ++ onClosed.toList }

/-- `Close` on the strand. -/
def close (s : Outgoing) (cause : Cause) : Outgoing :=
  if s.closed then s else { s with closed := true, cause := some cause }.closeOnExecutor none

/-- `Close` on another thread. -/
def closeElsewhere (s : Outgoing) (onClosed : Option ℕ) : Outgoing :=
  if s.closed ∧ onClosed = none then s
  else
    { s with
      closed := true
      cause := if s.closed then s.cause else some .asked
      tasks := .closeOnExecutor onClosed :: s.tasks
      asked := s.asked ++ onClosed.toList }

/-- `expires_at` drops the wait that was there. -/
def armDrainDeadline (s : Outgoing) (timeout : ℕ) : Outgoing :=
  if s.closed then s
  else if s.drainTimerActive ∧ s.expiry ≤ s.now + timeout then s
  else
    { s with
      drainTimerActive := true
      expiry := s.now + timeout
      waits := [s.now + timeout] }

/-- The handler of `DrainAndClose` up to the end of its locked section. -/
def drainAndClose (s : Outgoing) (timeout onClosed : ℕ) : Outgoing :=
  if s.closed then s.closeOnExecutor (some onClosed)
  else
    { s with
      closeHandlers := s.closeHandlers ++ [onClosed]
      retiring := true
      closeAfterWrite := true
      running :=
        if s.sendQueue.isEmpty then [.close .drained]
        else [.armDrainDeadline timeout, .startWrite] }

/-- `HandleWrite` up to the end of its locked section. -/
def handleWrite (s : Outgoing) (message : Packet) (error : Bool) : Outgoing :=
  let s := { s with writeActive := false }
  if s.closed then s
  else if error then s.close .failed
  else
    { s with
      sendQueue := s.sendQueue.tail
      popped := s.popped ++ [message]
      running :=
        if s.sendQueue.tail.isEmpty ∧ s.closeAfterWrite then [.close .drained] else [.startWrite] }

/-- The thread goes on. -/
def goOn (s : Outgoing) : Caller → Outgoing
  | .post closeAfterWrite => { s with tasks := .startWrite closeAfterWrite :: s.tasks }
  | .close => s.closeElsewhere none

def run (s : Outgoing) : Task → Outgoing
  | .startWrite closeAfterWrite =>
    { s with running := if closeAfterWrite then [.armDrainDeadline 3, .startWrite]
                        else [.startWrite] }
  | .closeOnExecutor onClosed => s.closeOnExecutor onClosed
  | .drainAndClose timeout onClosed => s.drainAndClose timeout onClosed
  | .expired => s.close .late

def act (s : Outgoing) : Action → Outgoing
  | .armDrainDeadline timeout => s.armDrainDeadline timeout
  | .startWrite => s.startWrite
  | .close cause => s.close cause

end Outgoing

/-- What may happen next, in any order. -/
inductive OutgoingEvent
  | send (id : Fin (2 ^ 16)) (message : Bytes)
  | notifyOffline (message : Bytes)
  | close (onClosed : Option ℕ)
  | drainAndClose (timeout onClosed : ℕ)
  | goOn (caller : Caller)
  | run (task : Task)
  | act
  | transfer (index count : ℕ)
  | complete (index : ℕ) (error : Bool)
  | handle (message : Packet) (error : Bool)
  | due (deadline : ℕ)
  | tick

namespace Outgoing

/-- A step takes what it runs off its list. The strand begins a handler when none is running; a
write ends without an error only with all its bytes out. -/
def next (s : Outgoing) : OutgoingEvent → Option Outgoing
  | .send id message => some (s.send id message)
  | .notifyOffline message =>
    if 0 < message.length ∧ message.length ≤ maxLength then some (s.notifyOffline message) else none
  | .close onClosed => some (s.closeElsewhere onClosed)
  | .drainAndClose timeout onClosed => some { s with
      tasks := .drainAndClose timeout onClosed :: s.tasks
      asked := s.asked ++ [onClosed] }
  | .goOn caller =>
    if caller ∈ s.callers then some ({ s with callers := s.callers.erase caller }.goOn caller)
    else none
  | .run task =>
    if s.running = [] ∧ task ∈ s.tasks then some ({ s with tasks := s.tasks.erase task }.run task)
    else none
  | .act => match s.running with
    | [] => none
    | action :: rest => some ({ s with running := rest }.act action)
  | .transfer index count => match s.writes[index]? with
    | none => none
    | some ⟨packet, out⟩ =>
      if s.socketOpen ∧ out + count ≤ packet.bytes.length then some { s with
        writes := s.writes.set index ⟨packet, out + count⟩
        wire := s.wire ++ (packet.bytes.drop out).take count }
      else none
  | .complete index error => match s.writes[index]? with
    | none => none
    | some ⟨packet, out⟩ =>
      if error = true ∨ out = packet.bytes.length then some { s with
        writes := s.writes.eraseIdx index
        completed := (packet, error) :: s.completed }
      else none
  | .handle message error =>
    if s.running = [] ∧ (message, error) ∈ s.completed then
      some ({ s with completed := s.completed.erase (message, error) }.handleWrite message error)
    else none
  | .due deadline =>
    if deadline ∈ s.waits ∧ deadline ≤ s.now then some { s with
      waits := s.waits.erase deadline
      tasks := .expired :: s.tasks }
    else none
  | .tick => some { s with now := s.now + 1 }

/-- Any use of a session by any threads. -/
def machine : Machine Outgoing OutgoingEvent := .ofFn (fun s => s = start) next

/-! ## Order -/

variable {s : Outgoing}

/-- At most one write is on its way, and while the session is open it writes the front of the
queue. -/
inductive Phase (closed : Bool) (popped sendQueue : List Packet) (writeActive : Bool)
    (writes : List Write) (completed : List (Packet × Bool)) (handed : List Packet)
    (wire : Bytes) : Prop
  | idle (hactive : writeActive = false) (hwrites : writes = []) (hcompleted : completed = [])
      (hsent : closed = false → handed = popped ∧ wire = popped.flatMap Packet.bytes)
  | writing (message : Packet) (out : ℕ) (front : List Packet) (hactive : writeActive = true)
      (hwrites : writes = [⟨message, out⟩]) (hcompleted : completed = [])
      (hhanded : handed = front ++ [message])
      (hwire : wire = front.flatMap Packet.bytes ++ message.bytes.take out)
      (hout : out ≤ message.bytes.length)
      (hhead : closed = false → front = popped ∧ sendQueue.head? = some message)
  | written (message : Packet) (error : Bool) (front : List Packet) (hactive : writeActive = true)
      (hwrites : writes = []) (hcompleted : completed = [(message, error)])
      (hhanded : handed = front ++ [message])
      (hwire : error = false → wire = handed.flatMap Packet.bytes)
      (hhead : closed = false → front = popped ∧ sendQueue.head? = some message)

structure Ordered (s : Outgoing) : Prop where
  handed : s.handed <+: s.queued
  wire : s.wire <+: s.handed.flatMap Packet.bytes
  rest : s.closed = false → s.queued = s.popped ++ s.sendQueue
  full : s.sendQueue.length ≤ maxSendque
  phase : Phase s.closed s.popped s.sendQueue s.writeActive s.writes s.completed s.handed s.wire
  draining : .close .drained ∈ s.running → s.closed = false →
    s.writeActive = false ∧ s.sendQueue = [] ∧ s.closeAfterWrite = true
  drained : s.cause = some .drained → s.closed = true ∧ s.writes = [] ∧
    s.wire = s.queued.flatMap Packet.bytes
  fits : ∀ p ∈ s.queued, p.Fits

variable {closed writeActive : Bool} {popped sendQueue handed : List Packet} {writes : List Write}
  {completed : List (Packet × Bool)} {wire : Bytes}

/-- What a closed session knows. -/
theorem Phase.close (h : Phase closed popped sendQueue writeActive writes completed handed wire)
    (popped' sendQueue' : List Packet) :
    Phase true popped' sendQueue' writeActive writes completed handed wire := by
  cases h with
  | idle hactive hwrites hcompleted _ => exact .idle hactive hwrites hcompleted (by simp)
  | writing message out front hactive hwrites hcompleted hhanded hwire hout _ =>
    exact .writing message out front hactive hwrites hcompleted hhanded hwire hout (by simp)
  | written message error front hactive hwrites hcompleted hhanded hwire _ =>
    exact .written message error front hactive hwrites hcompleted hhanded hwire (by simp)

/-- A packet behind the queue. -/
theorem Phase.push (h : Phase closed popped sendQueue writeActive writes completed handed wire)
    (message : Packet) :
    Phase closed popped (sendQueue ++ [message]) writeActive writes completed handed wire := by
  cases h with
  | idle hactive hwrites hcompleted hsent => exact .idle hactive hwrites hcompleted hsent
  | writing first out front hactive hwrites hcompleted hhanded hwire hout hhead =>
    refine .writing first out front hactive hwrites hcompleted hhanded hwire hout fun hopen => ?_
    obtain ⟨hfront, hfirst⟩ := hhead hopen
    exact ⟨hfront, by simp [List.head?_append, hfirst]⟩
  | written first error front hactive hwrites hcompleted hhanded hwire hhead =>
    refine .written first error front hactive hwrites hcompleted hhanded hwire fun hopen => ?_
    obtain ⟨hfront, hfirst⟩ := hhead hopen
    exact ⟨hfront, by simp [List.head?_append, hfirst]⟩

/-- A write on its way is the only one. -/
theorem Phase.of_get
    (h : Phase closed popped sendQueue writeActive writes completed handed wire) {index out : ℕ}
    {message : Packet} (hget : writes[index]? = some ⟨message, out⟩) :
    ∃ front, index = 0 ∧ writeActive = true ∧ writes = [⟨message, out⟩] ∧ completed = [] ∧
      handed = front ++ [message] ∧
      wire = front.flatMap Packet.bytes ++ message.bytes.take out ∧
      (closed = false → front = popped ∧ sendQueue.head? = some message) := by
  cases h with
  | idle _ hwrites => simp [hwrites] at hget
  | writing message' out' front hactive hwrites hcompleted hhanded hwire _ hhead =>
    cases index with
    | zero =>
      rw [hwrites, List.getElem?_cons_zero, Option.some_inj] at hget
      cases hget
      exact ⟨front, rfl, hactive, hwrites, hcompleted, hhanded, hwire, hhead⟩
    | succ index => simp [hwrites] at hget
  | written _ _ _ _ hwrites => simp [hwrites] at hget

theorem Phase.single (h : Phase closed popped sendQueue writeActive writes completed handed wire) :
    writes.length + completed.length ≤ 1 := by
  cases h with
  | idle _ hwrites hcompleted => simp [hwrites, hcompleted]
  | writing _ _ _ _ hwrites hcompleted => simp [hwrites, hcompleted]
  | written _ _ _ _ hwrites hcompleted => simp [hwrites, hcompleted]

theorem Ordered.wire_prefix (h : s.Ordered) : s.wire <+: s.queued.flatMap Packet.bytes := by
  obtain ⟨rest, hrest⟩ := h.handed
  refine h.wire.trans ?_
  rw [← hrest, List.flatMap_append]
  exact List.prefix_append _ _

theorem fits_of_le {id : ℕ} {message : Bytes} (hid : id < 2 ^ 16)
    (hlen : message.length ≤ maxLength) : Packet.Fits ⟨id, message⟩ := by
  refine ⟨hid, ?_⟩
  unfold maxLength at hlen
  dsimp only
  omega

theorem Ordered.start : Ordered start := by
  refine ⟨List.prefix_rfl, List.prefix_rfl, fun _ => rfl, ?_, ?_, ?_, ?_, ?_⟩
  · simp [Outgoing.start]
  · exact .idle rfl rfl rfl fun _ => ⟨rfl, rfl⟩
  · simp [Outgoing.start]
  · simp [Outgoing.start]
  · simp [Outgoing.start]

theorem Ordered.queueSend (h : s.Ordered) {message : Packet} (hfits : message.Fits)
    (closeAfterWrite realtime : Bool) :
    (s.queueSend message closeAfterWrite realtime).Ordered := by
  unfold Outgoing.queueSend
  split
  · exact h
  next hopen =>
    rw [not_or, Bool.not_eq_true, Bool.not_eq_true] at hopen
    split
    · exact h
    · split
      · exact ⟨h.handed, h.wire, h.rest, h.full, h.phase, h.draining, h.drained, h.fits⟩
      next hroom =>
        refine ⟨h.handed.trans (List.prefix_append _ _), h.wire, fun _ => ?_, ?_,
          h.phase.push message, fun hrunning _ => ?_, fun hcause => ?_, ?_⟩
        · change s.queued ++ [message] = s.popped ++ (s.sendQueue ++ [message])
          rw [h.rest hopen.1, List.append_assoc]
        · rw [List.length_append, List.length_singleton]
          omega
        · have hclosing := (h.draining hrunning hopen.1).2.2
          rw [hopen.2] at hclosing
          cases hclosing
        · have hclosed := (h.drained hcause).1
          rw [hopen.1] at hclosed
          cases hclosed
        · rw [List.forall_mem_append, List.forall_mem_singleton]
          exact ⟨h.fits, hfits⟩

theorem Ordered.startWrite (h : s.Ordered) : s.startWrite.Ordered := by
  unfold Outgoing.startWrite
  split
  · exact h
  next hopen =>
    rw [not_or, Bool.not_eq_true, Bool.not_eq_true] at hopen
    split
    · exact h
    next message rest hqueue =>
      have hidle : s.writes = [] ∧ s.completed = [] ∧ s.handed = s.popped ∧
          s.wire = s.popped.flatMap Packet.bytes := by
        cases h.phase with
        | idle _ hwrites hcompleted hsent => exact ⟨hwrites, hcompleted, hsent hopen.1⟩
        | writing _ _ _ hactive => simp [hopen.2] at hactive
        | written _ _ _ hactive => simp [hopen.2] at hactive
      obtain ⟨hwrites, hcompleted, hhanded, hwire⟩ := hidle
      have hqueued := h.rest hopen.1
      rw [hqueue] at hqueued
      refine ⟨?_, h.wire.trans ?_, h.rest, h.full, ?_, fun hrunning _ => ?_, fun hcause => ?_,
        h.fits⟩
      · rw [hqueued, hhanded]
        exact ⟨rest, by simp⟩
      · rw [List.flatMap_append]
        exact List.prefix_append _ _
      · refine .writing message 0 s.popped rfl ?_ hcompleted ?_ ?_ (Nat.zero_le _) fun _ => ?_
        · rw [hwrites]
        · rw [hhanded]
        · simp [hwire]
        · simp [hqueue]
      · have hempty := (h.draining hrunning hopen.1).2.1
        rw [hqueue] at hempty
        cases hempty
      · have hclosed := (h.drained hcause).1
        rw [hopen.1] at hclosed
        cases hclosed

theorem Ordered.closeOnExecutor (h : s.Ordered) (hclosed : s.closed = true)
    (onClosed : Option ℕ) : (s.closeOnExecutor onClosed).Ordered := by
  have hphase := hclosed ▸ h.phase.close s.popped []
  unfold Outgoing.closeOnExecutor dealExceptionSession
  split <;>
  · refine ⟨h.handed, h.wire, fun hopen => ?_, Nat.zero_le _, hphase, fun _ hopen => ?_,
      h.drained, h.fits⟩
    · rw [show s.closed = false from hopen] at hclosed
      cases hclosed
    · rw [show s.closed = false from hopen] at hclosed
      cases hclosed

/-- Closing for any reason but that all is written. -/
theorem Ordered.setClosed (h : s.Ordered) {cause : Option Cause}
    (hcause : cause = some .drained → s.writes = [] ∧ s.wire = s.queued.flatMap Packet.bytes) :
    ({ s with closed := true, cause } : Outgoing).Ordered :=
  ⟨h.handed, h.wire, by simp, h.full, h.phase.close _ _, by simp,
    fun hdrained => ⟨rfl, hcause hdrained⟩, h.fits⟩

theorem Ordered.close (h : s.Ordered) {cause : Cause}
    (hcause : cause = .drained → s.closed = false → s.writeActive = false ∧ s.sendQueue = []) :
    (s.close cause).Ordered := by
  unfold Outgoing.close
  split
  · exact h
  next hopen =>
    rw [Bool.not_eq_true] at hopen
    refine (@Ordered.setClosed s h (some cause) fun hdrained => ?_).closeOnExecutor rfl none
    obtain ⟨hactive, hqueue⟩ := hcause (by simpa using hdrained) hopen
    have hqueued := h.rest hopen
    rw [hqueue, List.append_nil] at hqueued
    cases h.phase with
    | idle _ hwrites _ hsent => exact ⟨hwrites, by rw [hqueued, (hsent hopen).2]⟩
    | writing _ _ _ hactive' => simp [hactive] at hactive'
    | written _ _ _ hactive' => simp [hactive] at hactive'

theorem Ordered.closeElsewhere (h : s.Ordered) (onClosed : Option ℕ) :
    (s.closeElsewhere onClosed).Ordered := by
  unfold Outgoing.closeElsewhere
  split
  · exact h
  · have hs := @Ordered.setClosed s h (if s.closed then s.cause else some .asked) fun hdrained => by
      split at hdrained
      · exact (h.drained hdrained).2
      · cases hdrained
    exact ⟨hs.handed, hs.wire, hs.rest, hs.full, hs.phase, hs.draining, hs.drained, hs.fits⟩

theorem Ordered.armDrainDeadline (h : s.Ordered) (timeout : ℕ) :
    (s.armDrainDeadline timeout).Ordered := by
  unfold Outgoing.armDrainDeadline
  split
  · exact h
  · split
    · exact h
    · exact ⟨h.handed, h.wire, h.rest, h.full, h.phase, h.draining, h.drained, h.fits⟩

theorem Ordered.drainAndClose (h : s.Ordered) (timeout onClosed : ℕ) :
    (s.drainAndClose timeout onClosed).Ordered := by
  unfold Outgoing.drainAndClose
  split
  next hclosed => exact h.closeOnExecutor hclosed _
  next hopen =>
    refine ⟨h.handed, h.wire, h.rest, h.full, h.phase, fun hrunning hopen' => ?_, h.drained,
      h.fits⟩
    split at hrunning
    next hempty =>
      rw [List.isEmpty_iff] at hempty
      refine ⟨?_, hempty, rfl⟩
      cases h.phase with
      | idle hactive => exact hactive
      | writing _ _ _ _ _ _ _ _ _ hhead => simp [hempty] at hhead; simp [hhead] at hopen
      | written _ _ _ _ _ _ _ _ hhead => simp [hempty] at hhead; simp [hhead] at hopen
    next => simp at hrunning

theorem Ordered.handleWrite (h : s.Ordered) (hrunning : s.running = []) {message : Packet}
    {error : Bool} (hmem : (message, error) ∈ s.completed) :
    ({ s with completed := s.completed.erase (message, error) }.handleWrite
      message error).Ordered := by
  obtain ⟨front, hwrites, hcompleted, hhanded, hwire, hhead⟩ : ∃ front, s.writes = [] ∧
      s.completed = [(message, error)] ∧ s.handed = front ++ [message] ∧
      (error = false → s.wire = s.handed.flatMap Packet.bytes) ∧
      (s.closed = false → front = s.popped ∧ s.sendQueue.head? = some message) := by
    cases h.phase with
    | idle _ _ hcompleted => simp [hcompleted] at hmem
    | writing _ _ _ _ _ hcompleted => simp [hcompleted] at hmem
    | written message' error' front _ hwrites hcompleted hhanded hwire hhead =>
      rw [hcompleted, List.mem_singleton, Prod.mk.injEq] at hmem
      obtain ⟨rfl, rfl⟩ := hmem
      exact ⟨front, hwrites, hcompleted, hhanded, hwire, hhead⟩
  have herase : s.completed.erase (message, error) = [] := by simp [hcompleted]
  have hnone : Action.close .drained ∉ s.running := by simp [hrunning]
  unfold Outgoing.handleWrite
  dsimp only
  rw [herase]
  split
  next hclosed =>
    refine ⟨h.handed, h.wire, h.rest, h.full, .idle rfl hwrites rfl fun hopen => ?_,
      fun hr => absurd hr hnone, h.drained, h.fits⟩
    rw [hclosed] at hopen
    cases hopen
  next hopen =>
    rw [Bool.not_eq_true] at hopen
    obtain ⟨rfl, hfirst⟩ := hhead hopen
    split
    next =>
      unfold Outgoing.close
      rw [if_neg (by simp [hopen])]
      have hclosed : ({ s with
          completed := []
          writeActive := false
          closed := true
          cause := some .failed } : Outgoing).Ordered :=
        ⟨h.handed, h.wire, by simp, h.full, .idle rfl hwrites rfl (by simp), by simp, by simp,
          h.fits⟩
      exact hclosed.closeOnExecutor rfl none
    next hok =>
      have hwire := hwire (Bool.not_eq_true _ ▸ hok)
      obtain ⟨rest, hqueue⟩ := List.head?_eq_some_iff.mp hfirst
      have hqueued : s.queued = (s.popped ++ [message]) ++ rest := by
        rw [h.rest hopen, hqueue, List.append_assoc, List.singleton_append]
      have hfull := h.full
      rw [hqueue, List.length_cons] at hfull
      refine ⟨h.handed, h.wire, fun _ => ?_, ?_, .idle rfl hwrites rfl fun _ => ⟨hhanded, ?_⟩,
        fun hr _ => ?_, h.drained, h.fits⟩
      · simpa [hqueue] using hqueued
      · simp only [hqueue, List.tail_cons]
        omega
      · rw [← hhanded, ← hwire]
      · simp only [hqueue, List.tail_cons] at hr ⊢
        split at hr
        next hlast => exact ⟨trivial, List.isEmpty_iff.mp hlast.1, hlast.2⟩
        next => simp at hr

theorem Ordered.transfer (h : s.Ordered) {index count out : ℕ} {packet : Packet}
    (hget : s.writes[index]? = some ⟨packet, out⟩) (hfits : out + count ≤ packet.bytes.length) :
    ({ s with
      writes := s.writes.set index ⟨packet, out + count⟩
      wire := s.wire ++ (packet.bytes.drop out).take count } : Outgoing).Ordered := by
  obtain ⟨front, rfl, hactive, hwrites, hcompleted, hhanded, hwire, hhead⟩ := h.phase.of_get hget
  have hwire' : s.wire ++ (packet.bytes.drop out).take count =
      front.flatMap Packet.bytes ++ packet.bytes.take (out + count) := by
    rw [hwire, List.append_assoc, List.take_add]
  refine ⟨h.handed, ?_, h.rest, h.full, .writing packet (out + count) front hactive ?_
    hcompleted hhanded hwire' hfits hhead, h.draining, fun hcause => ?_, h.fits⟩
  · rw [hwire', hhanded, List.flatMap_append, List.prefix_append_right_inj]
    simpa using List.take_prefix _ _
  · rw [hwrites]
    rfl
  · have hempty := (h.drained hcause).2.1
    rw [hwrites] at hempty
    cases hempty

theorem Ordered.complete (h : s.Ordered) {index out : ℕ} {packet : Packet} {error : Bool}
    (hget : s.writes[index]? = some ⟨packet, out⟩)
    (hdone : error = true ∨ out = packet.bytes.length) :
    ({ s with
      writes := s.writes.eraseIdx index
      completed := (packet, error) :: s.completed } : Outgoing).Ordered := by
  obtain ⟨front, rfl, hactive, hwrites, hcompleted, hhanded, hwire, hhead⟩ := h.phase.of_get hget
  refine ⟨h.handed, h.wire, h.rest, h.full, .written packet error front hactive ?_ ?_ hhanded
    (fun herror => ?_) hhead, h.draining, fun hcause => ?_, h.fits⟩
  · rw [hwrites]
    rfl
  · rw [hcompleted]
  · rcases hdone with hfailed | hout
    · rw [herror] at hfailed
      cases hfailed
    · rw [hwire, hhanded, hout, List.take_length, List.flatMap_append, List.flatMap_singleton]
  · have hempty := (h.drained hcause).2.1
    rw [hwrites] at hempty
    cases hempty

theorem Ordered.next (h : s.Ordered)
    (hclosing : ∀ onClosed, .closeOnExecutor onClosed ∈ s.tasks → s.closed = true)
    {e : OutgoingEvent} {t : Outgoing} (hstep : s.next e = some t) : t.Ordered := by
  cases e with
  | send id message =>
    cases hstep
    unfold Outgoing.send
    split
    · exact h
    next hlen =>
      rw [not_or, not_lt] at hlen
      exact h.queueSend (fits_of_le id.2 hlen.2) false _
  | notifyOffline message =>
    simp only [Outgoing.next, Option.ite_none_right_eq_some] at hstep
    obtain ⟨⟨-, hlen⟩, hstep⟩ := hstep
    cases hstep
    exact h.queueSend (fits_of_le (by decide) hlen) true false
  | close onClosed =>
    cases hstep
    exact h.closeElsewhere onClosed
  | drainAndClose timeout onClosed =>
    cases hstep
    exact ⟨h.handed, h.wire, h.rest, h.full, h.phase, h.draining, h.drained, h.fits⟩
  | goOn caller =>
    simp only [Outgoing.next, Option.ite_none_right_eq_some] at hstep
    cases hstep.2
    have h' : ({ s with callers := s.callers.erase caller } : Outgoing).Ordered :=
      ⟨h.handed, h.wire, h.rest, h.full, h.phase, h.draining, h.drained, h.fits⟩
    cases caller with
    | post closeAfterWrite =>
      exact ⟨h.handed, h.wire, h.rest, h.full, h.phase, h.draining, h.drained, h.fits⟩
    | close => exact h'.closeElsewhere none
  | run task =>
    simp only [Outgoing.next, Option.ite_none_right_eq_some] at hstep
    obtain ⟨⟨hrunning, hmem⟩, hstep⟩ := hstep
    cases hstep
    have h' : ({ s with tasks := s.tasks.erase task } : Outgoing).Ordered :=
      ⟨h.handed, h.wire, h.rest, h.full, h.phase, h.draining, h.drained, h.fits⟩
    cases task with
    | startWrite closeAfterWrite =>
      refine ⟨h.handed, h.wire, h.rest, h.full, h.phase, fun hr _ => ?_, h.drained, h.fits⟩
      cases closeAfterWrite <;> simp [Outgoing.run] at hr
    | closeOnExecutor onClosed => exact h'.closeOnExecutor (hclosing onClosed hmem) onClosed
    | drainAndClose timeout onClosed => exact h'.drainAndClose timeout onClosed
    | expired => exact h'.close (by simp)
  | act =>
    simp only [Outgoing.next] at hstep
    split at hstep
    · cases hstep
    next action rest hrunning =>
      cases hstep
      have h' : ({ s with running := rest } : Outgoing).Ordered :=
        ⟨h.handed, h.wire, h.rest, h.full, h.phase, fun hr => h.draining (by simp [hrunning, hr]),
          h.drained, h.fits⟩
      cases action with
      | armDrainDeadline timeout => exact h'.armDrainDeadline timeout
      | startWrite => exact h'.startWrite
      | close cause =>
        refine h'.close fun hcause hopen => ?_
        obtain ⟨hactive, hqueue, -⟩ := h.draining (by simp [hrunning, hcause]) hopen
        exact ⟨hactive, hqueue⟩
  | transfer index count =>
    simp only [Outgoing.next] at hstep
    split at hstep
    · cases hstep
    next packet out hget =>
      split at hstep
      next hok =>
        cases hstep
        exact h.transfer hget hok.2
      next => cases hstep
  | complete index error =>
    simp only [Outgoing.next] at hstep
    split at hstep
    · cases hstep
    next packet out hget =>
      split at hstep
      next hok =>
        cases hstep
        exact h.complete hget hok
      next => cases hstep
  | handle message error =>
    simp only [Outgoing.next, Option.ite_none_right_eq_some] at hstep
    obtain ⟨⟨hrunning, hmem⟩, hstep⟩ := hstep
    cases hstep
    exact h.handleWrite hrunning hmem
  | due deadline =>
    simp only [Outgoing.next, Option.ite_none_right_eq_some] at hstep
    cases hstep.2
    exact ⟨h.handed, h.wire, h.rest, h.full, h.phase, h.draining, h.drained, h.fits⟩
  | tick =>
    cases hstep
    exact ⟨h.handed, h.wire, h.rest, h.full, h.phase, h.draining, h.drained, h.fits⟩

end Outgoing
end CppChat.Stream
