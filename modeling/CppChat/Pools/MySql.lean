import Mathlib.Algebra.Order.BigOperators.Group.Multiset
import Mathlib.Algebra.Order.Group.Nat
import Mathlib.Data.Multiset.Bind
import CppChat.Foundation.Calls

/-! # The MySQL connection pool

`MySqlPool.cpp` and the scopes of `MysqlDaoSupport.h`. A slot of the pool stays when its
connection is lost. A statement that fails may have taken effect all the same; on a connection
that was closed all statements fail.
-/
namespace CppChat.Pools.MySql
open Foundation Component

/-- Whether the session commits each statement. The code opens a transaction by switching that
off, never by a statement of its own. -/
inductive Mode
  | auto
  | manual (transaction : Bool)
  deriving DecidableEq

structure Connection where
  id : ℕ
  closed : Bool
  mode : Mode
  deriving DecidableEq

inductive Outcome
  | ok
  | failed (effect : Bool)
  deriving DecidableEq

namespace Connection

/-- Sends a statement that changes the mode; the flag says whether it returned. -/
def send (c : Connection) (f : Mode → Mode) (o : Outcome) : Connection × Bool :=
  if c.closed then (c, false)
  else match o with
    | .ok => ({ c with mode := f c.mode }, true)
    | .failed true => ({ c with mode := f c.mode }, false)
    | .failed false => (c, false)

def close (c : Connection) : Connection := { c with closed := true }

/-- Switching back to automatic commits also commits what is open. -/
def setAutoCommit (c : Connection) (on : Bool) : Outcome → Connection × Bool :=
  c.send fun mode => if on then .auto else if mode = .auto then .manual false else mode

def endTransaction : Mode → Mode
  | .auto => .auto
  | .manual _ => .manual false

def commit (c : Connection) : Outcome → Connection × Bool := c.send endTransaction
def rollback (c : Connection) : Outcome → Connection × Bool := c.send endTransaction

def execute (c : Connection) : Outcome → Connection × Bool :=
  c.send fun mode => if mode = .auto then .auto else .manual true

/-- `SELECT 1` -/
def probe (c : Connection) : Outcome → Connection × Bool := c.send fun mode => mode

end Connection

namespace MySqlTransaction

/-- The constructor; on an exception there is no transaction. -/
def construct (c : Connection) (o : Outcome) : Connection × Bool :=
  match c.setAutoCommit false o with
  | (c, true) => (c, true)
  | (c, false) => (c.close, false)

def destroy (c : Connection) (finished : Bool) (rollback restore : Outcome) : Connection :=
  match if finished then (c, true) else c.rollback rollback with
  | (c, false) => c.close
  | (c, true) =>
    match c.setAutoCommit true restore with
    | (c, true) => c
    | (c, false) => c.close

/-- The second part of the result is `_finished`. -/
def commit (c : Connection) (finished : Bool) (commit restore : Outcome) : Connection × Bool :=
  match c.commit commit with
  | (c, false) => (c, finished)
  | (c, true) => ((c.setAutoCommit true restore).1, true)

def rollback (c : Connection) (finished : Bool) (rollback restore : Outcome) :
    Connection × Bool :=
  match c.rollback rollback with
  | (c, false) => (c.close, finished)
  | (c, true) =>
    match c.setAutoCommit true restore with
    | (c, true) => (c, true)
    | (c, false) => (c.close, true)

end MySqlTransaction

/-- `fresh` numbers the connections. -/
structure Pool where
  connections : List (Option Connection)
  stopped : Bool
  fresh : ℕ
  deriving DecidableEq

/-- Where a thread is in `GetConnection` or in the scopes of its guard and its transaction. -/
inductive Call
  | waiting
  | probing (slot : Option Connection)
  | connecting
  | restoring
  | handing (c : Connection)
  | borrowed (c : Connection)
  | transaction (c : Connection) (finished : Bool)
  | closing
  deriving DecidableEq

/-- A call goes on, its wait ends, or it sends statements with these outcomes; `row` says
whether the probe found its row. The scopes may be left after any statement. -/
inductive Event
  | go
  | timeout
  | probe (row : Bool) (o : Outcome)
  | connect (ok : Bool)
  | begins (o : Outcome)
  | execute (o : Outcome)
  | commit (commit restore : Outcome)
  | rollback (rollback restore : Outcome)
  | leave (rollback restore : Outcome)
  deriving DecidableEq

def newConnection (id : ℕ) : Connection := ⟨id, false, .auto⟩

/-- The loop of the constructor, given which of the connections succeed. -/
def construct : List Bool → Pool → Pool
  | [], s => s
  | false :: outcomes, s => construct outcomes { s with connections := s.connections ++ [none] }
  | true :: outcomes, s => construct outcomes { s with
      connections := s.connections ++ [some (newConnection s.fresh)]
      fresh := s.fresh + 1 }

def act (s : Pool) : Call → Event → Option (Pool × Option Call)
  | .waiting, .go =>
    if s.stopped then some (s, none)
    else match s.connections with
      | [] => none
      | slot :: rest => some ({ s with connections := rest }, some (.probing slot))
  | .waiting, .timeout => if ¬ s.stopped ∧ s.connections = [] then some (s, none) else none
  | .probing none, .go => some (s, some .connecting)
  | .probing (some c), .probe row o =>
    some (s, some (if (c.probe o).2 ∧ row then .handing (c.probe o).1 else .connecting))
  | .connecting, .connect true =>
    some ({ s with fresh := s.fresh + 1 }, some (.handing (newConnection s.fresh)))
  | .connecting, .connect false => some (s, some .restoring)
  | .restoring, .go =>
    some (if s.stopped then s else { s with connections := s.connections ++ [none] }, none)
  | .handing c, .go => some (s, if s.stopped then none else some (.borrowed c))
  | .borrowed c, .execute o => some (s, some (.borrowed (c.execute o).1))
  | .borrowed c, .begins o =>
    match MySqlTransaction.construct c o with
    | (c, true) => some (s, some (.transaction c false))
    | (c, false) => some (s, some (.borrowed c))
  | .borrowed c, .go =>
    some (if s.stopped then s else { s with connections := s.connections ++ [some c] }, none)
  | .transaction c finished, .execute o => some (s, some (.transaction (c.execute o).1 finished))
  | .transaction c finished, .commit o o' =>
    let r := MySqlTransaction.commit c finished o o'
    some (s, some (.transaction r.1 r.2))
  | .transaction c finished, .rollback o o' =>
    let r := MySqlTransaction.rollback c finished o o'
    some (s, some (.transaction r.1 r.2))
  | .transaction c finished, .leave o o' =>
    some (s, some (.borrowed (MySqlTransaction.destroy c finished o o')))
  | .closing, .go => some ({ s with stopped := true, connections := [] }, none)
  | _, _ => none

def pool : Component Pool Call Event where
  entry c := c = .waiting ∨ c = .closing
  act := act

/-- Any number of threads on a pool made by the constructor. -/
def machine (outcomes : List Bool) : Machine (State Pool Call) (Action Call Event) :=
  pool.machine fun s => s = construct outcomes ⟨[], false, 0⟩

namespace Connection

/-- A later borrower finds the connection closed, or without traces of an earlier one. -/
def Clean (c : Connection) : Prop := c.closed = true ∨ c.mode = .auto

variable {c : Connection} {f : Mode → Mode} {o : Outcome} {on : Bool}

theorem send_id : (c.send f o).1.id = c.id := by
  unfold send
  split
  · rfl
  · split <;> rfl

theorem send_closed : (c.send f o).1.closed = c.closed := by
  unfold send
  split
  · rfl
  · split <;> rfl

theorem send_mode : (c.send f o).1.mode = f c.mode ∨ (c.send f o).1.mode = c.mode := by
  unfold send
  split
  · exact .inr rfl
  · split
    · exact .inl rfl
    · exact .inl rfl
    · exact .inr rfl

theorem send_ok (h : (c.send f o).2 = true) :
    c.closed = false ∧ (c.send f o).1.mode = f c.mode := by
  unfold send at *
  split at h
  · cases h
  · refine ⟨Bool.eq_false_iff.mpr ‹_›, ?_⟩
    rw [if_neg ‹_›]
    split at h
    · rfl
    · cases h
    · cases h

theorem Clean.send (h : c.Clean) (hf : f .auto = .auto) : (c.send f o).1.Clean := by
  rcases h with h | h
  · exact .inl (send_closed.trans h)
  · refine .inr ?_
    rcases c.send_mode (f := f) (o := o) with hmode | hmode
    · rw [hmode, h, hf]
    · rw [hmode, h]

theorem close_clean : c.close.Clean := .inl rfl

theorem Clean.execute (h : c.Clean) : (c.execute o).1.Clean := h.send rfl

end Connection

namespace MySqlTransaction

variable {c : Connection} {finished : Bool} {o o' : Outcome}

theorem construct_spec :
    (construct c o).1.id = c.id ∧ ((construct c o).2 = false → (construct c o).1.Clean) := by
  have hid : (c.setAutoCommit false o).1.id = c.id := Connection.send_id
  unfold construct
  split
  · rename_i d heq
    rw [heq] at hid
    exact ⟨hid, nofun⟩
  · rename_i d heq
    rw [heq] at hid
    exact ⟨hid, fun _ => Connection.close_clean⟩

/-- The destructor leaves automatic commits, or closes the connection. -/
theorem destroy_spec :
    (destroy c finished o o').id = c.id ∧ (destroy c finished o o').Clean := by
  have hid : (if finished then (c, true) else c.rollback o).1.id = c.id := by
    split
    · rfl
    · exact Connection.send_id
  unfold destroy
  split
  · rename_i d heq
    rw [heq] at hid
    exact ⟨hid, Connection.close_clean⟩
  · rename_i d heq
    rw [heq] at hid
    have hid' : (d.setAutoCommit true o').1.id = d.id := Connection.send_id
    split
    · rename_i e heq'
      have hok := Connection.send_ok (congrArg Prod.snd heq')
      rw [heq'] at hid'
      refine ⟨hid'.trans hid, .inr ?_⟩
      exact (congrArg (fun r => r.1.mode) heq').symm.trans hok.2
    · rename_i e heq'
      rw [heq'] at hid'
      exact ⟨hid'.trans hid, Connection.close_clean⟩

theorem commit_id : (commit c finished o o').1.id = c.id := by
  have hid : (c.commit o).1.id = c.id := Connection.send_id
  unfold commit
  split
  · rename_i d heq
    rwa [heq] at hid
  · rename_i d heq
    rw [heq] at hid
    exact Connection.send_id.trans hid

theorem rollback_id : (rollback c finished o o').1.id = c.id := by
  have hid : (c.rollback o).1.id = c.id := Connection.send_id
  unfold rollback
  split
  · rename_i d heq
    rwa [heq] at hid
  · rename_i d heq
    rw [heq] at hid
    have hid' : (d.setAutoCommit true o').1.id = d.id := Connection.send_id
    split
    · rename_i e heq'
      rw [heq'] at hid'
      exact hid'.trans hid
    · rename_i e heq'
      rw [heq'] at hid'
      exact hid'.trans hid

end MySqlTransaction

variable {n : ℕ} {s t : Pool} {m : Multiset Call} {d : Call} {e : Event} {r : Option Call}

/-- What one step of a call can be. -/
inductive Step (s : Pool) : Call → Pool → Option Call → Prop
  | refused (h : s.stopped = true) : Step s .waiting s none
  | timeout (h : s.connections = []) : Step s .waiting s none
  | taken {slot : Option Connection} {rest : List (Option Connection)}
      (h : s.connections = slot :: rest) (hopen : s.stopped = false) :
      Step s .waiting { s with connections := rest } (some (.probing slot))
  | absent : Step s (.probing none) s (some .connecting)
  | alive {c : Connection} {o : Outcome} (h : (c.probe o).2 = true) :
      Step s (.probing (some c)) s (some (.handing (c.probe o).1))
  | dead {c : Connection} : Step s (.probing (some c)) s (some .connecting)
  | connected : Step s .connecting { s with fresh := s.fresh + 1 }
      (some (.handing (newConnection s.fresh)))
  | unavailable : Step s .connecting s (some .restoring)
  | restored (h : s.stopped = false) :
      Step s .restoring { s with connections := s.connections ++ [none] } none
  | dropped {d : Call} (hd : d = .restoring ∨ (∃ c, d = .handing c) ∨ ∃ c, d = .borrowed c)
      (h : s.stopped = true) : Step s d s none
  | handed {c : Connection} (h : s.stopped = false) :
      Step s (.handing c) s (some (.borrowed c))
  | executed {c : Connection} {o : Outcome} :
      Step s (.borrowed c) s (some (.borrowed (c.execute o).1))
  | begun {c : Connection} {o : Outcome} :
      Step s (.borrowed c) s (some (.transaction (MySqlTransaction.construct c o).1 false))
  | failed {c : Connection} {o : Outcome} (h : (MySqlTransaction.construct c o).2 = false) :
      Step s (.borrowed c) s (some (.borrowed (MySqlTransaction.construct c o).1))
  | given {c : Connection} (h : s.stopped = false) :
      Step s (.borrowed c) { s with connections := s.connections ++ [some c] } none
  | used {c c' : Connection} {finished finished' : Bool} (h : c'.id = c.id) :
      Step s (.transaction c finished) s (some (.transaction c' finished'))
  | left {c : Connection} {finished : Bool} {o o' : Outcome} :
      Step s (.transaction c finished) s
        (some (.borrowed (MySqlTransaction.destroy c finished o o')))
  | closed : Step s .closing { s with stopped := true, connections := [] } none

theorem act_step (h : act s d e = some (t, r)) : Step s d t r := by
  unfold act at h
  split at h
  case h_1 =>
    split at h
    · cases h
      exact .refused ‹_›
    · split at h
      · cases h
      · cases h
        exact .taken ‹_› (Bool.eq_false_iff.mpr ‹_›)
  case h_2 =>
    split at h
    · cases h
      exact .timeout (And.right ‹_›)
    · cases h
  case h_4 =>
    cases h
    split
    · exact .alive (And.left ‹_›)
    · exact .dead
  case h_7 =>
    cases h
    split
    · exact .dropped (.inl rfl) ‹_›
    · exact .restored (Bool.eq_false_iff.mpr ‹_›)
  case h_8 =>
    cases h
    split
    · exact .dropped (.inr (.inl ⟨_, rfl⟩)) ‹_›
    · exact .handed (Bool.eq_false_iff.mpr ‹_›)
  case h_10 c o =>
    split at h
    · rename_i c' heq
      obtain rfl : (MySqlTransaction.construct c o).1 = c' := congrArg Prod.fst heq
      cases h
      exact .begun
    · rename_i c' heq
      obtain rfl : (MySqlTransaction.construct c o).1 = c' := congrArg Prod.fst heq
      cases h
      exact .failed (congrArg Prod.snd heq)
  case h_11 =>
    cases h
    split
    · exact .dropped (.inr (.inr ⟨_, rfl⟩)) ‹_›
    · exact .given (Bool.eq_false_iff.mpr ‹_›)
  case h_12 =>
    cases h
    exact .used Connection.send_id
  case h_13 =>
    cases h
    exact .used MySqlTransaction.commit_id
  case h_14 =>
    cases h
    exact .used MySqlTransaction.rollback_id
  all_goals first
    | cases h; constructor
    | cases h

def slotIds (slot : Option Connection) : Multiset ℕ := slot.elim 0 fun c => {c.id}

namespace Call

/-- The connection a call has. -/
def ids : Call → Multiset ℕ
  | probing slot => slotIds slot
  | handing c | borrowed c | transaction c _ => {c.id}
  | _ => 0

/-- Whether a call has a slot of the pool. -/
def slots : Call → ℕ
  | probing _ | connecting | restoring | handing _ | borrowed _ | transaction .. => 1
  | _ => 0

/-- Whether a call has the connection that `GetConnection` returned to it. -/
def lent : Call → ℕ
  | borrowed _ | transaction .. => 1
  | _ => 0

/-- What is known of the connection of a call outside of a transaction. -/
def Holds : Call → Prop
  | probing (some c) | borrowed c => c.Clean
  | handing c => c.closed = false ∧ c.mode = .auto
  | _ => True

end Call

/-- The connections of the pool and those of the calls. -/
def ids (s : Pool) (m : Multiset Call) : Multiset ℕ :=
  (s.connections : Multiset (Option Connection)).bind slotIds + m.bind Call.ids

/-- The slots, idle or with a call. -/
def slots (s : Pool) (m : Multiset Call) : ℕ := s.connections.length + (m.map Call.slots).sum

/-- The connections that borrowers have. -/
def lent (m : Multiset Call) : ℕ := (m.map Call.lent).sum

/-- `n` is the size of the pool. -/
structure Inv (n : ℕ) (s : Pool) (m : Multiset Call) : Prop where
  apart : (ids s m).Nodup
  below : ∀ x ∈ ids s m, x < s.fresh
  slots : s.stopped = false → MySql.slots s m = n
  idle : ∀ c, some c ∈ s.connections → c.Clean
  holds : ∀ d ∈ m, d.Holds
  stopped : s.stopped = true → s.connections = []

theorem coe_push (l : List (Option Connection)) (x : Option Connection) :
    ((l ++ [x] : List (Option Connection)) : Multiset (Option Connection)) = x ::ₘ l :=
  Multiset.coe_eq_coe.mpr (List.perm_append_singleton x l)

/-- A step keeps connections, drops some, or makes one. -/
theorem Step.ids (h : Step s d t r) :
    (ids t (resume m r) ≤ ids s (d ::ₘ m) ∧ t.fresh = s.fresh) ∨
    (MySql.ids t (resume m r) = s.fresh ::ₘ MySql.ids s (d ::ₘ m) ∧ t.fresh = s.fresh + 1) := by
  cases h
  case taken slot rest hs _ =>
    have hpop : (s.connections : Multiset (Option Connection)) = slot ::ₘ rest := by
      rw [hs, Multiset.cons_coe]
    refine .inl ⟨le_of_eq ?_, rfl⟩
    simp only [MySql.ids, resume_some, hpop, Multiset.cons_bind, Call.ids, zero_add]
    rw [add_left_comm, add_assoc]
  case restored =>
    refine .inl ⟨le_of_eq ?_, rfl⟩
    simp only [MySql.ids, resume_none, coe_push, Multiset.cons_bind, Call.ids, slotIds,
      Option.elim_none, zero_add]
  case given c _ =>
    refine .inl ⟨le_of_eq ?_, rfl⟩
    simp only [MySql.ids, resume_none, coe_push, Multiset.cons_bind, Call.ids, slotIds,
      Option.elim_some]
    rw [add_left_comm, add_assoc]
  case dropped _ hd =>
    refine .inl ⟨?_, rfl⟩
    rcases hd with rfl | ⟨c, rfl⟩ | ⟨c, rfl⟩ <;>
      simp [MySql.ids, Call.ids, Multiset.le_cons_self]
  case closed =>
    refine .inl ⟨?_, rfl⟩
    simp only [MySql.ids, resume_none, Multiset.cons_bind, Call.ids, Multiset.coe_nil,
      Multiset.zero_bind, zero_add]
    exact Multiset.le_add_left _ _
  case used c c' finished finished' hid => simp [MySql.ids, Call.ids, hid]
  case connected => simp [MySql.ids, Call.ids, newConnection]
  all_goals simp [MySql.ids, Call.ids, slotIds, Multiset.le_cons_self,
    MySqlTransaction.construct_spec.1, MySqlTransaction.destroy_spec.1, Connection.execute,
    Connection.probe, Connection.send_id]

theorem Step.slots (h : Step s d t r) (hopen : t.stopped = false) :
    slots t (resume m r) = slots s (d ::ₘ m) := by
  cases h
  all_goals
    simp_all [MySql.slots, Call.slots]
    try omega

theorem Step.open_of_open (h : Step s d t r) (hopen : t.stopped = false) : s.stopped = false := by
  cases h <;> simp_all

theorem Step.idle (h : Step s d t r) (hidle : ∀ c, some c ∈ s.connections → c.Clean)
    (hholds : d.Holds) : ∀ c, some c ∈ t.connections → c.Clean := by
  cases h
  case given c _ =>
    intro c' hc'
    rcases List.mem_append.mp hc' with hc' | hc'
    · exact hidle c' hc'
    · rw [Option.some_inj.mp (List.mem_singleton.mp hc')]
      exact hholds
  all_goals simp_all

theorem Step.holds {d' : Call} (h : Step s d t r) (hd : d.Holds)
    (hidle : ∀ c, some c ∈ s.connections → c.Clean) (hr : r = some d') : d'.Holds := by
  cases h <;> cases hr
  case taken slot rest hs _ =>
    cases slot with
    | none => trivial
    | some c => exact hidle c (by rw [hs]; exact List.mem_cons_self)
  case alive c o hok =>
    obtain ⟨hopen, hmode⟩ := Connection.send_ok hok
    rcases hd with hd | hd
    · rw [hd] at hopen
      cases hopen
    · exact ⟨Connection.send_closed.trans hopen, hmode.trans hd⟩
  case connected => exact ⟨rfl, rfl⟩
  case handed c _ => exact .inr hd.2
  case executed c o => exact Connection.Clean.execute hd
  case failed c o hfailed => exact MySqlTransaction.construct_spec.2 hfailed
  case left c finished o o' => exact MySqlTransaction.destroy_spec.2
  all_goals trivial

theorem Step.stopped (h : Step s d t r) (hs : s.stopped = true → s.connections = []) :
    t.stopped = true → t.connections = [] := by
  cases h <;> simp_all

theorem Inv.step (h : Inv n s (d ::ₘ m)) (hstep : Step s d t r) : Inv n t (resume m r) := by
  have hctx := hstep.ids (m := m)
  have hd := h.holds d (Multiset.mem_cons_self d m)
  refine ⟨?_, ?_, fun hopen => ?_, hstep.idle h.idle hd, fun d' hd' => ?_,
    hstep.stopped h.stopped⟩
  · rcases hctx with ⟨hle, -⟩ | ⟨heq, -⟩
    · exact Multiset.nodup_of_le hle h.apart
    · rw [heq, Multiset.nodup_cons]
      exact ⟨fun hmem => (h.below _ hmem).ne rfl, h.apart⟩
  · intro x hx
    rcases hctx with ⟨hle, hf⟩ | ⟨heq, hf⟩
    · rw [hf]
      exact h.below x (Multiset.mem_of_le hle hx)
    · rw [heq, Multiset.mem_cons] at hx
      rw [hf]
      rcases hx with rfl | hx
      · exact Nat.lt_succ_self _
      · exact (h.below x hx).trans (Nat.lt_succ_self _)
  · rw [hstep.slots hopen]
    exact h.slots (hstep.open_of_open hopen)
  · rcases mem_resume.mp hd' with hr | hd'
    · exact hstep.holds hd h.idle hr
    · exact h.holds d' (Multiset.mem_cons_of_mem hd')

theorem Inv.enter (h : Inv n s m) (hd : d = .waiting ∨ d = .closing) : Inv n s (d ::ₘ m) := by
  obtain ⟨hapart, hbelow, hslots, hidle, hholds, hstopped⟩ := h
  rcases hd with rfl | rfl
  all_goals
    refine ⟨?_, ?_, ?_, hidle, ?_, hstopped⟩
    · simpa [ids, Call.ids] using hapart
    · simpa [ids, Call.ids] using hbelow
    · simpa [MySql.slots, Call.slots] using hslots
    · intro d hd
      rcases Multiset.mem_cons.mp hd with rfl | hd
      · trivial
      · exact hholds d hd

theorem ids_push (s : Pool) (slot : Option Connection) (fresh : ℕ) :
    ids ⟨s.connections ++ [slot], s.stopped, fresh⟩ m = slotIds slot + ids s m := by
  simp only [ids, coe_push, Multiset.cons_bind, add_assoc]

theorem slots_push (s : Pool) (slot : Option Connection) (fresh : ℕ) :
    MySql.slots ⟨s.connections ++ [slot], s.stopped, fresh⟩ m = MySql.slots s m + 1 := by
  simp only [MySql.slots, List.length_append, List.length_singleton]
  omega

/-- The constructor adds a slot, with a connection or without. -/
theorem Inv.push {slot : Option Connection} (h : Inv n s 0) (hopen : s.stopped = false)
    (hslot : slot = none ∨ slot = some (newConnection s.fresh)) :
    Inv (n + 1) ⟨s.connections ++ [slot], s.stopped, s.fresh + (slotIds slot).card⟩ 0 := by
  have hids := ids_push (m := 0) s slot (s.fresh + (slotIds slot).card)
  refine ⟨?_, ?_, fun _ => ?_, fun c hc => ?_, h.holds, fun hs => ?_⟩
  · rw [hids]
    rcases hslot with rfl | rfl
    · exact (zero_add (ids s 0)).symm ▸ h.apart
    · exact Multiset.nodup_cons.mpr ⟨fun hx => (h.below _ hx).ne rfl, h.apart⟩
  · intro x hx
    rw [hids] at hx
    rcases hslot with rfl | rfl
    · exact h.below x (zero_add (ids s 0) ▸ hx)
    · rcases Multiset.mem_cons.mp hx with rfl | hx
      · exact Nat.lt_succ_self _
      · exact (h.below x hx).trans (Nat.lt_succ_self _)
  · rw [slots_push, h.slots hopen]
  · rcases List.mem_append.mp hc with hc | hc
    · exact h.idle c hc
    · rcases hslot with rfl | rfl
      · exact absurd (List.mem_singleton.mp hc) nofun
      · rw [Option.some_inj.mp (List.mem_singleton.mp hc)]
        exact .inr rfl
  · exact absurd (hs.symm.trans hopen) nofun

theorem Inv.construct (outcomes : List Bool) (h : Inv n s 0) (hopen : s.stopped = false) :
    Inv (n + outcomes.length) (construct outcomes s) 0 := by
  induction outcomes generalizing n s with
  | nil => exact h
  | cons o outcomes ih =>
    rw [List.length_cons, Nat.add_comm outcomes.length, ← Nat.add_assoc]
    cases o with
    | false => exact ih (h.push hopen (.inl rfl)) hopen
    | true => exact ih (h.push hopen (.inr rfl)) hopen

theorem inv (outcomes : List Bool) :
    (machine outcomes).Invariant fun s => Inv outcomes.length s.shared s.calls := by
  refine Component.invariant (fun u hu => ?_) (fun u m d hd h => ?_)
    fun u m d a v r h hact => h.step (act_step hact)
  · have hempty : Inv 0 ⟨[], false, 0⟩ 0 :=
      ⟨by simp [ids], by simp [ids], fun _ => by simp [MySql.slots], nofun, by simp, fun _ => rfl⟩
    rw [hu, ← Nat.zero_add outcomes.length]
    exact hempty.construct outcomes rfl
  · exact h.enter (by simpa [pool] using hd)

/-- What borrowers can rely on: `n` is the size of the pool. -/
structure Returned (n : ℕ) (s : State Pool Call) : Prop where
  slots : s.shared.stopped = false → MySql.slots s.shared s.calls = n
  apart : (ids s.shared s.calls).Nodup
  /-- Only `GetConnection` lends a connection, while the pool is open, and a clean one. -/
  lends : ∀ e t, pool.next s e = some t → lent s.calls < lent t.calls →
    ∃ c, e = .act (.handing c) .go ∧ s.shared.stopped = false ∧ c.closed = false ∧ c.mode = .auto
  /-- `Close` stops the pool and empties it, whoever has its connections. -/
  closes : .closing ∈ s.calls → pool.next s (.act .closing .go) = some
    ⟨{ s.shared with stopped := true, connections := [] }, s.calls.erase .closing⟩
  /-- Nothing else stops the pool, and nothing opens it again. -/
  stays : ∀ e t, pool.next s e = some t →
    t.shared.stopped = s.shared.stopped ∨ e = .act .closing .go
  /-- After `Close` the pool is empty, whatever is returned. -/
  closed : s.shared.stopped = true → s.shared.connections = [] ∧ ∀ e t, pool.next s e = some t →
    t.shared.stopped = true ∧ t.shared.connections = [] ∧ lent t.calls ≤ lent s.calls
  /-- Whoever waits then is sent away, and a connection that comes back is discarded. -/
  refused : s.shared.stopped = true → ∀ d ∈ s.calls,
    (d = .waiting ∨ (∃ c, d = .handing c) ∨ ∃ c, d = .borrowed c) →
    pool.next s (.act d .go) = some ⟨s.shared, s.calls.erase d⟩

theorem Step.lent (h : Step s d t r) (hlent : lent (d ::ₘ m) < lent (resume m r)) :
    ∃ c, d = .handing c ∧ s.stopped = false := by
  cases h
  case handed c hopen => exact ⟨c, rfl, hopen⟩
  all_goals simp [MySql.lent, Call.lent] at hlent

theorem act_handing {c : Connection} (h : act s (.handing c) e = some (t, r)) : e = .go := by
  cases e <;> first | rfl | cases h

theorem act_closing (h : act s .closing e = some (t, r)) : e = .go := by
  cases e <;> first | rfl | cases h

theorem Step.stays (h : Step s d t r) : t.stopped = s.stopped ∨ d = .closing := by
  cases h
  case closed => exact .inr rfl
  all_goals exact .inl rfl

theorem next_stays {s t : State Pool Call} {e : Action Call Event} (h : pool.next s e = some t) :
    t.shared.stopped = s.shared.stopped ∨ e = .act .closing .go := by
  rcases next_cases h with ⟨d, -, -, rfl⟩ | ⟨d, a, m, r, rfl, -, hact, -⟩
  · exact .inl rfl
  · rcases (act_step hact).stays with hstopped | rfl
    · exact .inl hstopped
    · rw [act_closing hact]
      exact .inr rfl

/-- Only `GetConnection` lends, and what it lends is clean. -/
theorem next_lends {s t : State Pool Call} {e : Action Call Event} (hinv : Inv n s.shared s.calls)
    (h : pool.next s e = some t) (hlent : lent s.calls < lent t.calls) :
    ∃ c, e = .act (.handing c) .go ∧ s.shared.stopped = false ∧ c.closed = false ∧
      c.mode = .auto := by
  rcases next_cases h with ⟨d, -, hd, rfl⟩ | ⟨d, a, m, r, rfl, hm, hact, ht⟩
  · rcases (by simpa [pool] using hd : d = .waiting ∨ d = .closing) with rfl | rfl <;>
      simp [lent, Call.lent] at hlent
  · rw [hm, ht] at hlent
    obtain ⟨c, rfl, hopen⟩ := (act_step hact).lent hlent
    obtain ⟨hclosed, hmode⟩ :=
      hinv.holds (.handing c) (by rw [hm]; exact Multiset.mem_cons_self _ m)
    exact ⟨c, by rw [act_handing hact], hopen, hclosed, hmode⟩

theorem next_closing {s : State Pool Call} (h : .closing ∈ s.calls) :
    pool.next s (.act .closing .go) = some
      ⟨{ s.shared with stopped := true, connections := [] }, s.calls.erase .closing⟩ :=
  next_act (C := pool) (r := none) h rfl

theorem next_closing_stopped {s t : State Pool Call}
    (h : pool.next s (.act .closing .go) = some t) : t.shared.stopped = true := by
  rcases next_cases h with ⟨d, hd, -, -⟩ | ⟨d, a, m, r, hd, hm, -, -⟩
  · cases hd
  · cases hd
    rw [next_closing (by rw [hm]; exact Multiset.mem_cons_self _ m)] at h
    cases h
    rfl

theorem next_refused {s : State Pool Call} {d : Call} (hstopped : s.shared.stopped = true)
    (hd : d ∈ s.calls) (hcall : d = .waiting ∨ (∃ c, d = .handing c) ∨ ∃ c, d = .borrowed c) :
    pool.next s (.act d .go) = some ⟨s.shared, s.calls.erase d⟩ := by
  have hact : pool.act s.shared d .go = some (s.shared, none) := by
    rcases hcall with rfl | ⟨c, rfl⟩ | ⟨c, rfl⟩ <;> simp only [pool, act, hstopped, if_true]
  exact next_act hd hact

theorem returned_clean (outcomes : List Bool) {s : State Pool Call}
    (hs : (machine outcomes).Reachable s) : Returned outcomes.length s where
  slots := ((inv outcomes).reachable hs).slots
  apart := ((inv outcomes).reachable hs).apart
  lends _ _ := next_lends ((inv outcomes).reachable hs)
  closes hclosing := next_closing hclosing
  stays _ _ := next_stays
  closed hstopped := by
    have h := (inv outcomes).reachable hs
    refine ⟨h.stopped hstopped, fun e t hstep => ?_⟩
    have ht : t.shared.stopped = true := by
      rcases next_stays hstep with hsame | rfl
      · exact hsame.trans hstopped
      · exact next_closing_stopped hstep
    refine ⟨ht, ((inv outcomes).reachable (hs.step hstep)).stopped ht, ?_⟩
    by_contra hlent
    obtain ⟨-, -, hopen, -⟩ := next_lends h hstep (Nat.lt_of_not_le hlent)
    rw [hstopped] at hopen
    cases hopen
  refused hstopped _ hd := next_refused hstopped hd

/-- The restoration after a commit fails, then so does the one of the destructor. -/
def poisoned : List (Action Call Event) :=
  [.enter .waiting, .act .waiting .go,
    .act (.probing (some (newConnection 0))) (.probe true .ok),
    .act (.handing (newConnection 0)) .go, .act (.borrowed (newConnection 0)) (.begins .ok),
    .act (.transaction ⟨0, false, .manual false⟩ false) (.execute .ok),
    .act (.transaction ⟨0, false, .manual true⟩ false) (.commit .ok (.failed false)),
    .act (.transaction ⟨0, false, .manual false⟩ true) (.leave .ok (.failed false)),
    .act (.borrowed ⟨0, true, .manual false⟩) .go]

/-- The pool is closed while a connection is out, which then comes back. -/
def closedMeanwhile : List (Action Call Event) :=
  [.enter .waiting, .act .waiting .go,
    .act (.probing (some (newConnection 1))) (.probe true .ok),
    .act (.handing (newConnection 1)) .go, .enter .closing, .act .closing .go, .enter .waiting]

theorem returned_sample :
    Returned 2 ⟨⟨[some (newConnection 1), some ⟨0, true, .manual false⟩], false, 2⟩, 0⟩ ∧
    Returned 2 ⟨⟨[], true, 2⟩, {.waiting, .borrowed (newConnection 1)}⟩ ∧
    pool.next ⟨⟨[], true, 2⟩, {.waiting, .borrowed (newConnection 1)}⟩
      (.act (.borrowed (newConnection 1)) .go) = some ⟨⟨[], true, 2⟩, {.waiting}⟩ := by
  have hstart : (machine [true, true]).Reachable ⟨construct [true, true] ⟨[], false, 0⟩, 0⟩ :=
    .init ⟨rfl, rfl⟩
  have hclosed := returned_clean [true, true]
    (@Machine.Reachable.runFn _ _ _ _ (poisoned ++ closedMeanwhile) _
      ⟨⟨[], true, 2⟩, {.waiting, .borrowed (newConnection 1)}⟩ hstart rfl)
  refine ⟨returned_clean [true, true]
    (@Machine.Reachable.runFn _ _ _ _ poisoned _ _ hstart rfl), hclosed, ?_⟩
  exact hclosed.refused rfl _ (by decide) (.inr (.inr ⟨_, rfl⟩))

end CppChat.Pools.MySql
