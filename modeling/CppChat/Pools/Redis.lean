import Mathlib.Algebra.Order.BigOperators.Group.Multiset
import Mathlib.Algebra.Order.Group.Nat
import Mathlib.Data.Multiset.Bind
import CppChat.Foundation.Calls

/-! # The Redis connection pool

`RedisConPool.cpp`: a context that broke is freed where it is returned, and another is connected
in its place. A locked section is one step, as is each access to `_stopped` and
`_live_connections` outside of one.
-/
namespace CppChat.Pools.Redis
open Foundation Component

/-- `fresh` numbers the contexts; `lost` counts the reconnects that failed; `closed` says whether
`Close` was called. -/
structure Pool where
  connections : List ℕ
  stopped : Bool
  liveConnections : ℕ
  fresh : ℕ
  lost : ℕ
  closed : Bool
  deriving DecidableEq

/-- Where a thread is in `GetConnection`, between it and `ReturnConnection`, in
`ReturnConnection` or in `Close`. -/
inductive Call
  | waiting
  | holding (context : ℕ) (err : Bool)
  | discarding (context : ℕ)
  | retiring (context : ℕ)
  | reconnecting
  | created (context : ℕ)
  | failed
  | stopping
  | pushing (context : ℕ)
  | closing
  | draining
  deriving DecidableEq

/-- A call goes on, its wait ends, a command breaks its context, or it connects. -/
inductive Event
  | go
  | timeout
  | fault
  | connect (ok : Bool)
  deriving DecidableEq

/-- The loop of the constructor, given which of the connections succeed. -/
def connectAll : List Bool → Pool → Pool
  | [], s => s
  | false :: outcomes, s => connectAll outcomes s
  | true :: outcomes, s => connectAll outcomes { s with
      connections := s.connections ++ [s.fresh]
      liveConnections := s.liveConnections + 1
      fresh := s.fresh + 1 }

def construct (outcomes : List Bool) : Pool :=
  let s := connectAll outcomes ⟨[], false, 0, 0, 0, false⟩
  { s with stopped := s.connections.isEmpty }

def act (s : Pool) : Call → Event → Option (Pool × Option Call)
  | .waiting, .go =>
    if s.stopped then some (s, none)
    else match s.connections with
      | [] => none
      | context :: rest => some ({ s with connections := rest }, some (.holding context false))
  | .waiting, .timeout => if ¬ s.stopped ∧ s.connections = [] then some (s, none) else none
  | .holding context _, .fault => some (s, some (.holding context true))
  | .holding context err, .go =>
    some (s, some (if s.stopped then .discarding context
      else if err then .retiring context else .pushing context))
  | .discarding _, .go => some ({ s with liveConnections := s.liveConnections - 1 }, none)
  | .retiring _, .go =>
    some ({ s with liveConnections := s.liveConnections - 1 }, some .reconnecting)
  | .reconnecting, .connect true =>
    some ({ s with fresh := s.fresh + 1 }, some (.created s.fresh))
  | .reconnecting, .connect false => some ({ s with lost := s.lost + 1 }, some .failed)
  | .created context, .go =>
    some ({ s with liveConnections := s.liveConnections + 1 }, some (.pushing context))
  | .failed, .go => some (s, if s.liveConnections = 0 then some .stopping else none)
  | .stopping, .go => some ({ s with stopped := true }, none)
  | .pushing context, .go =>
    if s.stopped then some (s, some (.discarding context))
    else some ({ s with connections := s.connections ++ [context] }, none)
  | .closing, .go =>
    some ({ s with stopped := true, closed := true }, if s.stopped then none else some .draining)
  | .draining, .go =>
    some ({ s with
      connections := []
      liveConnections := s.liveConnections - s.connections.length }, none)
  | _, _ => none

def pool : Component Pool Call Event where
  entry c := c = .waiting ∨ c = .closing
  act := act

/-- Any number of threads on a pool made by the constructor. -/
def machine (outcomes : List Bool) :
    Machine (Component.State Pool Call) (Component.Action Call Event) :=
  pool.machine fun s => s = construct outcomes

namespace Call

/-- The context a call has. -/
def contexts : Call → Multiset ℕ
  | holding c _ | discarding c | retiring c | created c | pushing c => {c}
  | _ => 0

/-- Whether `_live_connections` counts the context of a call. -/
def counted : Call → ℕ
  | holding .. | discarding _ | retiring _ | pushing _ => 1
  | _ => 0

/-- Whether a call has a slot of the pool, be it without a context while it reconnects. -/
def slots : Call → ℕ
  | holding .. | discarding _ | retiring _ | reconnecting | created _ | pushing _ => 1
  | _ => 0

/-- Whether a call is at the reconnect of a context that is not counted any more. -/
def Restores : Call → Prop
  | reconnecting | created _ | failed | stopping => True
  | _ => False

/-- Whether a call frees contexts because the pool was stopped. -/
def Frees : Call → Prop
  | discarding _ | draining => True
  | _ => False

end Call

/-- The contexts in the pool and those of the calls. -/
def contexts (s : Pool) (m : Multiset Call) : Multiset ℕ := s.connections + m.bind Call.contexts

/-- The contexts that `_live_connections` counts. -/
def counted (s : Pool) (m : Multiset Call) : ℕ := s.connections.length + (m.map Call.counted).sum

/-- The slots, idle or with a call. -/
def slots (s : Pool) (m : Multiset Call) : ℕ := s.connections.length + (m.map Call.slots).sum

theorem connectAll_spec (outcomes : List Bool) (s : Pool) :
    connectAll outcomes s = { s with
      connections := s.connections ++ List.range' s.fresh (outcomes.count true)
      liveConnections := s.liveConnections + outcomes.count true
      fresh := s.fresh + outcomes.count true } := by
  induction outcomes generalizing s with
  | nil => simp [connectAll]
  | cons o outcomes ih =>
    cases o with
    | false => simp [connectAll, ih]
    | true =>
      simp only [connectAll, ih, List.count_cons_self, List.append_assoc, List.singleton_append,
        ← List.range'_succ]
      congr 1 <;> omega

theorem construct_eq (outcomes : List Bool) :
    construct outcomes =
      ⟨List.range (outcomes.count true), outcomes.count true = 0, outcomes.count true,
        outcomes.count true, 0, false⟩ := by
  simp only [construct, connectAll_spec, List.nil_append, Nat.zero_add, ← List.range_eq_range']
  congr 1
  rw [Bool.eq_iff_iff, List.isEmpty_iff, List.range_eq_nil, decide_eq_true_eq]

/-- `n` is how many contexts the constructor connected. -/
structure Inv (n : ℕ) (s : Pool) (m : Multiset Call) : Prop where
  apart : (contexts s m).Nodup
  below : ∀ c ∈ contexts s m, c < s.fresh
  live : s.liveConnections = counted s m
  slots : s.stopped = false → Redis.slots s m + s.lost = n
  frees : ∀ c ∈ m, c.Frees → s.stopped = true
  restores : s.stopped = false → s.liveConnections = 0 → ∃ c ∈ m, c.Restores
  lost : .failed ∈ m ∨ .stopping ∈ m → 0 < s.lost
  stopped : s.stopped = true → s.closed = true ∨ n = 0 ∨ 0 < s.lost

variable {n : ℕ} {s t : Pool} {m : Multiset Call} {c : Call} {e : Event} {r : Option Call}

/-- What one step of a call can be. -/
inductive Step (s : Pool) : Call → Pool → Option Call → Prop
  | refused (h : s.stopped = true) : Step s .waiting s none
  | timeout (h : s.connections = []) : Step s .waiting s none
  | taken {x : ℕ} {rest : List ℕ} (h : s.connections = x :: rest) (hopen : s.stopped = false) :
      Step s .waiting { s with connections := rest } (some (.holding x false))
  | fault {x : ℕ} {err : Bool} : Step s (.holding x err) s (some (.holding x true))
  | late {x : ℕ} {err : Bool} (h : s.stopped = true) :
      Step s (.holding x err) s (some (.discarding x))
  | broken {x : ℕ} : Step s (.holding x true) s (some (.retiring x))
  | healthy {x : ℕ} : Step s (.holding x false) s (some (.pushing x))
  | discarded {x : ℕ} :
      Step s (.discarding x) { s with liveConnections := s.liveConnections - 1 } none
  | retired {x : ℕ} :
      Step s (.retiring x) { s with liveConnections := s.liveConnections - 1 } (some .reconnecting)
  | connected :
      Step s .reconnecting { s with fresh := s.fresh + 1 } (some (.created s.fresh))
  | failed : Step s .reconnecting { s with lost := s.lost + 1 } (some .failed)
  | adopted {x : ℕ} :
      Step s (.created x) { s with liveConnections := s.liveConnections + 1 } (some (.pushing x))
  | drained (h : s.liveConnections = 0) : Step s .failed s (some .stopping)
  | smaller (h : s.liveConnections ≠ 0) : Step s .failed s none
  | stopped : Step s .stopping { s with stopped := true } none
  | rejected {x : ℕ} (h : s.stopped = true) : Step s (.pushing x) s (some (.discarding x))
  | pushed {x : ℕ} (h : s.stopped = false) :
      Step s (.pushing x) { s with connections := s.connections ++ [x] } none
  | closed {r : Option Call} (h : r = none ∨ r = some .draining) :
      Step s .closing { s with stopped := true, closed := true } r
  | emptied : Step s .draining { s with
      connections := []
      liveConnections := s.liveConnections - s.connections.length } none

theorem act_step (h : act s c e = some (t, r)) : Step s c t r := by
  unfold act at h
  split at h
  case h_1 =>
    split at h
    · cases h
      exact .refused ‹_›
    · split at h
      · cases h
      · cases h
        exact .taken ‹_› (Bool.eq_false_iff.mpr ‹_›)
  case h_2 =>
    split at h
    · cases h
      exact .timeout (And.right ‹_›)
    · cases h
  case h_4 context err =>
    cases h
    split
    · exact .late ‹_›
    · cases err with
      | false => exact .healthy
      | true => exact .broken
  case h_10 =>
    cases h
    split
    · exact .drained ‹_›
    · exact .smaller ‹_›
  case h_12 =>
    split at h
    · cases h
      exact .rejected ‹_›
    · cases h
      exact .pushed (Bool.eq_false_iff.mpr ‹_›)
  case h_13 =>
    cases h
    exact .closed (by split <;> simp)
  all_goals first
    | cases h; constructor
    | cases h

/-- A step keeps contexts, frees some, or connects one. -/
theorem Step.contexts (h : Step s c t r) :
    (contexts t (resume m r) ≤ contexts s (c ::ₘ m) ∧ t.fresh = s.fresh) ∨
    (Redis.contexts t (resume m r) = s.fresh ::ₘ Redis.contexts s (c ::ₘ m) ∧
      t.fresh = s.fresh + 1) := by
  cases h
  case closed hr => rcases hr with rfl | rfl <;> simp [Redis.contexts, Call.contexts]
  case taken x rest hs _ =>
    have hpop : (s.connections : Multiset ℕ) = x ::ₘ rest := by rw [hs, Multiset.cons_coe]
    refine .inl ⟨le_of_eq ?_, rfl⟩
    simp only [Redis.contexts, resume_some, hpop, Multiset.cons_bind, Call.contexts,
      Multiset.singleton_add, Multiset.add_cons, Multiset.cons_add, zero_add]
  case pushed x _ =>
    have hpush : ((s.connections ++ [x] : List ℕ) : Multiset ℕ) = x ::ₘ s.connections :=
      Multiset.coe_eq_coe.mpr (List.perm_append_singleton x _)
    refine .inl ⟨le_of_eq ?_, rfl⟩
    simp only [Redis.contexts, resume_none, hpush, Multiset.cons_bind, Call.contexts,
      Multiset.singleton_add, Multiset.add_cons, Multiset.cons_add]
  case emptied =>
    refine .inl ⟨?_, rfl⟩
    simp only [Redis.contexts, resume_none, Multiset.cons_bind, Call.contexts, Multiset.coe_nil,
      zero_add]
    exact Multiset.le_add_left _ _
  all_goals simp [Redis.contexts, Call.contexts, Multiset.le_cons_self]

/-- The counter follows the contexts. -/
theorem Step.live (h : Step s c t r) (hlive : s.liveConnections = counted s (c ::ₘ m)) :
    t.liveConnections = counted t (resume m r) := by
  cases h
  case closed hr => rcases hr with rfl | rfl <;> simpa [counted, Call.counted] using hlive
  all_goals
    simp_all [counted, Call.counted]
    try omega

/-- Until the pool is stopped, a slot is given up by a failed reconnect only. -/
theorem Step.slots (h : Step s c t r) (hopen : t.stopped = false)
    (hfrees : c.Frees → s.stopped = true) :
    slots t (resume m r) + t.lost = slots s (c ::ₘ m) + s.lost := by
  cases h
  all_goals
    simp_all [Redis.slots, Call.slots, Call.Frees]
    try omega

/-- A pool without counted contexts has a call that reconnects, or is stopped. -/
theorem Step.restores (h : Step s c t r)
    (hrestores : s.stopped = false → s.liveConnections = 0 → ∃ d ∈ c ::ₘ m, d.Restores)
    (hfrees : c.Frees → s.stopped = true) (hopen : t.stopped = false)
    (hlive : t.liveConnections = 0) : ∃ d ∈ resume m r, d.Restores := by
  cases h
  all_goals
    simp_all [Call.Restores, Call.Frees]

theorem Step.open_of_open (h : Step s c t r) (hopen : t.stopped = false) : s.stopped = false := by
  cases h <;> simp_all

theorem Step.frees (h : Step s c t r) (hr : ∀ d, r = some d → d.Frees → t.stopped = true)
    (hfrees : ∀ d ∈ c ::ₘ m, d.Frees → s.stopped = true) :
    ∀ d ∈ resume m r, d.Frees → t.stopped = true := by
  intro d hd hdf
  rcases mem_resume.mp hd with hd | hd
  · exact hr d hd hdf
  · by_contra hopen
    have hs := h.open_of_open (Bool.eq_false_iff.mpr hopen)
    rw [hfrees d (Multiset.mem_cons_of_mem hd) hdf] at hs
    cases hs

theorem Step.frees_resumed {d : Call} (h : Step s c t r) (hr : r = some d) (hd : d.Frees) :
    t.stopped = true := by
  cases h <;> cases hr <;> simp_all [Call.Frees]

theorem Step.lost (h : Step s c t r)
    (hlost : .failed ∈ c ::ₘ m ∨ .stopping ∈ c ::ₘ m → 0 < s.lost) :
    .failed ∈ resume m r ∨ .stopping ∈ resume m r → 0 < t.lost := by
  cases h
  case closed hr => rcases hr with rfl | rfl <;> simp_all
  all_goals
    simp_all

theorem Step.stopped_of (h : Step s c t r)
    (hstopped : s.stopped = true → s.closed = true ∨ n = 0 ∨ 0 < s.lost)
    (hlost : .failed = c ∨ .stopping = c → 0 < s.lost) :
    t.stopped = true → t.closed = true ∨ n = 0 ∨ 0 < t.lost := by
  cases h
  all_goals
    simp_all

theorem Inv.step (h : Inv n s (c ::ₘ m)) (hstep : Step s c t r) : Inv n t (resume m r) := by
  have hctx := hstep.contexts (m := m)
  refine ⟨?_, ?_, hstep.live h.live, fun hopen => ?_, hstep.frees (fun _ => hstep.frees_resumed) h.frees, fun hopen hlive => ?_,
    hstep.lost h.lost, hstep.stopped_of h.stopped fun hc => h.lost ?_⟩
  · rcases hctx with ⟨hle, -⟩ | ⟨heq, -⟩
    · exact Multiset.nodup_of_le hle h.apart
    · rw [heq, Multiset.nodup_cons]
      exact ⟨fun hmem => (h.below _ hmem).ne rfl, h.apart⟩
  · intro x hx
    rcases hctx with ⟨hle, hf⟩ | ⟨heq, hf⟩
    · rw [hf]
      exact h.below x (Multiset.mem_of_le hle hx)
    · rw [heq, Multiset.mem_cons] at hx
      rw [hf]
      rcases hx with rfl | hx
      · exact Nat.lt_succ_self _
      · exact (h.below x hx).trans (Nat.lt_succ_self _)
  · rw [hstep.slots hopen (h.frees c (Multiset.mem_cons_self c m))]
    exact h.slots (hstep.open_of_open hopen)
  · exact hstep.restores h.restores (h.frees c (Multiset.mem_cons_self c m)) hopen hlive
  · rcases hc with rfl | rfl
    · exact .inl (Multiset.mem_cons_self _ m)
    · exact .inr (Multiset.mem_cons_self _ m)

theorem Inv.construct (outcomes : List Bool) :
    Inv (outcomes.count true) (construct outcomes) 0 := by
  rw [construct_eq]
  refine ⟨?_, ?_, ?_, ?_, ?_, ?_, ?_, ?_⟩
  · simpa [contexts] using List.nodup_range
  · simp [contexts]
  · simp [counted]
  · simp [Redis.slots]
  · simp
  · simp
  · simp
  · simp

theorem Inv.enter (h : Inv n s m) (hc : c = .waiting ∨ c = .closing) : Inv n s (c ::ₘ m) := by
  obtain ⟨hapart, hbelow, hlive, hslots, hfrees, hrestores, hlost, hstopped⟩ := h
  rcases hc with rfl | rfl
  all_goals
    refine ⟨?_, ?_, ?_, ?_, ?_, ?_, ?_, hstopped⟩
    · simpa [contexts, Call.contexts] using hapart
    · simpa [contexts, Call.contexts] using hbelow
    · simpa [counted, Call.counted] using hlive
    · simpa [Redis.slots, Call.slots] using hslots
    · simpa [Call.Frees] using hfrees
    · simpa [Call.Restores] using hrestores
    · simpa using hlost

theorem inv (outcomes : List Bool) :
    (machine outcomes).Invariant fun s => Inv (outcomes.count true) s.shared s.calls := by
  refine Component.invariant (fun u hu => hu ▸ .construct outcomes) (fun u m c hc h => ?_)
    fun u m c a v r h hact => h.step (act_step hact)
  exact h.enter (by simpa [pool] using hc)

/-- What the pool keeps while it loses contexts: `n` is how many it started with. -/
structure Recovers (n : ℕ) (s : State Pool Call) : Prop where
  apart : (contexts s.shared s.calls).Nodup
  slots : s.shared.stopped = false → Redis.slots s.shared s.calls + s.shared.lost = n
  stopped : s.shared.stopped = true → s.shared.closed = true ∨ n = 0 ∨ 0 < s.shared.lost
  /-- Only a return that found no context stops the pool. -/
  stops : ∀ e t, pool.next s e = some t → s.shared.stopped = false → t.shared.stopped = true →
    t.shared.closed = true ∨ e = .act .stopping .go
  /-- It found no context in the pool and none with a call, but for those just connected. -/
  drained : ∀ e t, pool.next s e = some t → s.calls.count .stopping < t.calls.count .stopping →
    s.shared.connections = [] ∧ ∀ c ∈ s.calls, c.contexts = 0 ∨ ∃ x, c = .created x
  returned : s.shared.stopped = false → (∀ c ∈ s.calls, c = .waiting) →
    0 < s.shared.connections.length ∧ s.shared.connections.length + s.shared.lost = n
  borrows : ∀ x rest, s.shared.stopped = false → s.shared.connections = x :: rest →
    .waiting ∈ s.calls → pool.next s (.act .waiting .go) = some
      ⟨{ s.shared with connections := rest }, .holding x false ::ₘ s.calls.erase .waiting⟩

theorem Step.stops (h : Step s c t r) (hopen : s.stopped = false) (hstop : t.stopped = true) :
    t.closed = true ∨ (c = .stopping ∧ r = none) := by
  cases h <;> simp_all

theorem Step.stopping (h : Step s c t r) (hr : r = some .stopping) :
    s.liveConnections = 0 := by
  cases h <;> simp_all

theorem act_stopping {e : Event} (h : act s .stopping e = some (t, r)) : e = .go := by
  cases e <;> first | rfl | cases h

/-- A context is counted but for the time between its connection and the increment. -/
theorem Call.contexts_of_counted (h : c.counted = 0) : c.contexts = 0 ∨ ∃ x, c = .created x := by
  cases c with
  | holding | discarding | retiring | pushing => cases h
  | created x => exact .inr ⟨x, rfl⟩
  | _ => exact .inl rfl

theorem Inv.empty (h : Inv n s m) (hlive : s.liveConnections = 0) :
    s.connections = [] ∧ ∀ c ∈ m, c.contexts = 0 ∨ ∃ x, c = .created x := by
  have hsum := h.live.symm.trans hlive
  obtain ⟨hidle, hcalls⟩ := Nat.add_eq_zero_iff.mp hsum
  refine ⟨List.eq_nil_of_length_eq_zero hidle, fun c hc => Call.contexts_of_counted ?_⟩
  exact Multiset.sum_eq_zero_iff.mp hcalls _ (Multiset.mem_map_of_mem _ hc)

theorem Inv.returned (h : Inv n s m) (hopen : s.stopped = false) (hm : ∀ c ∈ m, c = .waiting) :
    0 < s.connections.length ∧ s.connections.length + s.lost = n := by
  have hzero : (m.map Call.slots).sum = 0 := by
    refine Multiset.sum_eq_zero fun x hx => ?_
    obtain ⟨c, hc, rfl⟩ := Multiset.mem_map.mp hx
    rw [hm c hc]
    rfl
  have hcounted : (m.map Call.counted).sum = 0 := by
    refine Multiset.sum_eq_zero fun x hx => ?_
    obtain ⟨c, hc, rfl⟩ := Multiset.mem_map.mp hx
    rw [hm c hc]
    rfl
  have hslots := h.slots hopen
  rw [Redis.slots, hzero, Nat.add_zero] at hslots
  refine ⟨Nat.pos_of_ne_zero fun hidle => ?_, hslots⟩
  have hlive := h.live
  rw [counted, hcounted, hidle] at hlive
  obtain ⟨c, hc, hrestores⟩ := h.restores hopen hlive
  rw [hm c hc] at hrestores
  exact hrestores

theorem recovers (outcomes : List Bool) {s : State Pool Call}
    (hs : (machine outcomes).Reachable s) : Recovers (outcomes.count true) s := by
  have h := (inv outcomes).reachable hs
  refine ⟨h.apart, h.slots, h.stopped, fun e t hstep hopen hstop => ?_,
    fun e t hstep hcount => ?_, h.returned, fun x rest hopen hx hw => ?_⟩
  · rcases next_cases hstep with ⟨c, -, -, rfl⟩ | ⟨c, a, m, r, rfl, -, hact, -⟩
    · rw [hopen] at hstop
      cases hstop
    · refine ((act_step hact).stops hopen hstop).imp_right ?_
      rintro ⟨rfl, rfl⟩
      rw [act_stopping hact]
  · refine h.empty ?_
    rcases next_cases hstep with ⟨c, -, hc, rfl⟩ | ⟨c, a, m, r, rfl, hm, hact, ht⟩
    · rcases (by simpa [pool] using hc : c = .waiting ∨ c = .closing) with rfl | rfl <;>
        simp at hcount
    · refine (act_step hact).stopping ?_
      rw [hm, ht] at hcount
      cases r with
      | none => exact absurd hcount (Nat.not_lt.mpr (Multiset.count_le_count_cons _ _ _))
      | some d =>
        by_contra hd
        have hne : Call.stopping ≠ d := fun heq => hd (congrArg some heq.symm)
        rw [resume_some, Multiset.count_cons_of_ne hne] at hcount
        exact absurd hcount (Nat.not_lt.mpr (Multiset.count_le_count_cons _ _ _))
  · have hact : pool.act s.shared .waiting .go =
        some ({ s.shared with connections := rest }, some (.holding x false)) := by
      simp only [pool, act, hopen, hx, Bool.false_eq_true, if_false]
    exact next_act hw hact

/-- A thread borrows the first context, which breaks, and no other can be connected. -/
def breaks : List (Action Call Event) :=
  [.enter .waiting, .act .waiting .go, .act (.holding 0 false) .fault, .act (.holding 0 true) .go,
    .act (.retiring 0) .go, .act .reconnecting (.connect false), .act .failed .go]

theorem breaks_two : (machine [true, true]).Reachable ⟨⟨[1], false, 1, 2, 1, false⟩, 0⟩ :=
  @Machine.Reachable.runFn _ _ _ _ breaks ⟨construct [true, true], 0⟩ _ (.init ⟨rfl, rfl⟩) rfl

theorem breaks_one : (machine [true]).Reachable ⟨⟨[], true, 0, 1, 1, false⟩, 0⟩ :=
  @Machine.Reachable.runFn _ _ _ _ (breaks ++ [.act .stopping .go]) ⟨construct [true], 0⟩ _
    (.init ⟨rfl, rfl⟩) rfl

theorem recovers_two : Recovers 2 ⟨⟨[1], false, 1, 2, 1, false⟩, 0⟩ :=
  recovers [true, true] breaks_two

/-- One reconnect fails: a pool of two has one slot from then on, a pool of one is stopped. -/
theorem reconnect_failure_is_final :
    (∃ s, (machine [true, true]).Reachable s ∧ s.calls = 0 ∧ s.shared.closed = false ∧
      s.shared.stopped = false ∧ s.shared.connections.length = 1) ∧
    ∃ s, (machine [true]).Reachable s ∧ s.calls = 0 ∧ s.shared.closed = false ∧
      s.shared.stopped = true :=
  ⟨⟨_, breaks_two, rfl, rfl, rfl, rfl⟩, ⟨_, breaks_one, rfl, rfl, rfl⟩⟩

end CppChat.Pools.Redis
