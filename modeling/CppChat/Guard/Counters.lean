import Mathlib.Data.List.Pairwise
import CppChat.Foundation.Commands
import CppChat.Guard.Bound

/-! # The counters of the guard are exact

A request that reaches the script is counted by all of its keys or by none. A counter gets its
expiry when it is created and keeps it, so every life of it admits at most its limit.
-/
namespace CppChat.Guard
open Foundation

variable {W : Type} {weight : String → W} {hash : String → String} {toLowerCase : String → String}

/-! ## The scripts as commands -/

/-- `counterScript`. -/
def counterScript (store : Store Key) (now : ℕ) (rules : List Rule) : Int × Store Key :=
  match rules.find? fun r => r.limit ≤ store.get now r.key with
  | some r => (max (store.ttl now r.key) 1, store)
  | none => (0, rules.foldl (fun store r => (store.hit now r.key r.seconds).2) store)

/-- `failureScript`. -/
def failureScript (store : Store Key) (now : ℕ) (key : Key) (seconds : ℕ) : ℕ × Store Key :=
  store.hit now key seconds

theorem countAll_ofCounters (c : Keyspace Key ℕ) (now : ℕ) (rs : List Rule) :
    rs.foldl (fun store r => (store.hit now r.key r.seconds).2) (.ofCounters c) =
      Store.ofCounters (countAll c now rs) := by
  induction rs generalizing c with
  | nil => rfl
  | cons r rs ih =>
    rw [List.foldl_cons, Store.hit_ofCounters, ih]
    rfl

theorem blockedFor_none_iff {c : Keyspace Key ℕ} {now : ℕ} {rs : List Rule} :
    blockedFor c now rs = none ↔ ∀ r ∈ rs, c.count now r.key < r.limit := by
  refine ⟨blockedFor_eq_none, fun h => List.findSome?_eq_none_iff.mpr fun r hr => ?_⟩
  rw [if_neg (Nat.not_le.mpr (h r hr))]

theorem pos_of_blockedFor {c : Keyspace Key ℕ} {now wait : ℕ} {rs : List Rule}
    (h : blockedFor c now rs = some wait) : 0 < wait := by
  obtain ⟨r, -, hr⟩ := List.exists_of_findSome?_eq_some h
  split at hr
  · cases hr
    omega
  · cases hr

/-- On counters that all have an expiry the script does what the model of the handler says. -/
theorem counterScript_eq (c : Keyspace Key ℕ) (now : ℕ) {rs : List Rule}
    (hlimit : ∀ r ∈ rs, 0 < r.limit) :
    counterScript (.ofCounters c) now rs =
      match blockedFor c now rs with
      | some wait => ((wait : Int), .ofCounters c)
      | none => (0, .ofCounters (countAll c now rs)) := by
  unfold counterScript
  simp only [Store.get_ofCounters, countAll_ofCounters]
  cases hfind : rs.find? fun r => r.limit ≤ c.count now r.key with
  | none =>
    have hroom : blockedFor c now rs = none := blockedFor_none_iff.mpr fun r hr => by
      simpa using List.find?_eq_none.mp hfind r hr
    rw [hroom]
  | some r =>
    have hblocked : blockedFor c now rs = some (max (c.ttl now r.key) 1) := by
      obtain ⟨hfull, before, after, rfl, hbefore⟩ := List.find?_eq_some_iff_append.mp hfind
      simp only [decide_eq_true_eq] at hfull
      unfold blockedFor
      rw [List.findSome?_append, List.findSome?_eq_none_iff.mpr]
      · simp [hfull]
      · intro q hq
        have := hbefore q hq
        simp only [Bool.not_eq_true', decide_eq_false_iff_not] at this
        rw [if_neg this]
    have hpos : 0 < c.count now r.key := by
      have hfull := List.find?_some hfind
      simp only [decide_eq_true_eq] at hfull
      have := hlimit r (List.mem_of_find?_eq_some hfind)
      omega
    simp only [hblocked, Store.ttl_ofCounters hpos]
    rw [Prod.mk.injEq]
    exact ⟨by omega, rfl⟩

/-! ## The rule of a key -/

/-- The limit and the life of a key that the script counts. -/
def Key.rule : Key → Option Rule
  | .requests address => some ⟨.requests address, 120, 60⟩
  | .mailCooldown account => some ⟨.mailCooldown account, 1, 60⟩
  | .mailHour account => some ⟨.mailHour account, 5, 3600⟩
  | .mailGlobal => some ⟨.mailGlobal, 20, 3600⟩
  | .loginAttempts account => some ⟨.loginAttempts account, 10, 300⟩
  | .verifyAttempts account => some ⟨.verifyAttempts account, 5, 180⟩
  | .loginFailure _ | .verifyFailure _ => none

theorem rule_of_mem {route : Route} {address account : String} {r : Rule}
    (hr : r ∈ rules route address account) : r.key.rule = some r ∧ 0 < r.limit := by
  cases route <;> simp only [rules, List.mem_cons, List.not_mem_nil, or_false] at hr <;>
    rcases hr with rfl | rfl | rfl | rfl <;> exact ⟨rfl, Nat.succ_pos _⟩

theorem rule_key {key : Key} {r : Rule} (h : key.rule = some r) : r.key = key := by
  cases key <;> cases h <;> rfl

theorem failureKey_rule (route : Route) (account : String) :
    (failureKey route account).rule = none := by
  unfold failureKey
  split <;> rfl

theorem filter_of_mem {rs : List Rule} (hnodup : (rs.map Rule.key).Nodup) {r : Rule}
    (hr : r ∈ rs) : (rs.filter fun q => q.key = r.key) = [r] := by
  induction rs with
  | nil => cases hr
  | cons q rs ih =>
    obtain ⟨hq, hnodup⟩ := List.nodup_cons.mp hnodup
    rcases List.mem_cons.mp hr with rfl | hr
    · have hrest : (rs.filter fun p => p.key = r.key) = [] := by
        simp only [List.filter_eq_nil_iff, decide_eq_true_eq]
        exact fun p hp hkey => hq (hkey ▸ List.mem_map_of_mem hp)
      simp [hrest]
    · have hne : q.key ≠ r.key := fun hkey => hq (hkey ▸ List.mem_map_of_mem hr)
      simp [hne, ih hnodup hr]

theorem filter_of_not_mem {rs : List Rule} {key : Key} (h : ∀ r ∈ rs, r.key ≠ key) :
    (rs.filter fun q => q.key = key) = [] := by
  simpa [List.filter_eq_nil_iff] using h

/-! ## What a step does to the counters -/

namespace State
variable {s s' : State} {k : ℕ}

/-- A step either leaves the counted keys and their events alone, or counts one request. -/
inductive Counts (s : State) : Action → State → Prop
  | quiet {a : Action} {s' : State} (hnow : s.now ≤ s'.now)
      (hcounters : ∀ key r, key.rule = some r → s'.counters key = s.counters key)
      (hbirths : ∀ key, births key s'.log = births key s.log)
      (hhits : ∀ key, hits key s'.log = hits key s.log) : Counts s a s'
  | counted {k : ℕ} {c : Call} {outcome : Outcome} {stage : Stage} (hc : s.call? k = some c)
      (hfree : blockedFor s.counters s.now (rules c.route c.address c.account) = none) :
      Counts s (.count k outcome) (setCall { s with
        counters := countAll s.counters s.now (rules c.route c.address c.account)
        log := s.countEvents k (rules c.route c.address c.account) ++ s.log } k c stage)

theorem Counts.of_same {a : Action} (hnow : s.now ≤ s'.now) (hcounters : s'.counters = s.counters)
    (hlog : s'.log = s.log) : Counts s a s' :=
  .quiet hnow (fun _ _ _ => by rw [hcounters]) (fun _ => by rw [hlog]) fun _ => by rw [hlog]

theorem counts_count {c : Call} {outcome : Outcome} (hc : s.call? k = some c) :
    Counts s (.count k outcome) (s.count k c outcome) := by
  unfold count
  dsimp only
  split
  · exact .of_same (Nat.le_refl _) rfl rfl
  · split
    · exact .of_same (Nat.le_refl _) rfl rfl
    next hfree => exact .counted hc hfree

theorem counts_finish {a : Action} {c : Call} {error : Int} {outcome : Outcome} :
    Counts s a (s.finish k c error outcome) := by
  have hother : ∀ key r, key.rule = some r → key ≠ failureKey c.route c.account := by
    rintro key r hkey rfl
    rw [failureKey_rule] at hkey
    cases hkey
  unfold finish
  dsimp only
  split
  · refine .quiet ?_ (fun key r hkey => ?_) (fun _ => ?_) fun _ => ?_
    · split <;> exact Nat.le_refl _
    · split
      · exact Keyspace.incr_of_ne (hother key r hkey)
      · rfl
    · split <;> rfl
    · split <;> rfl
  · split
    · refine .quiet ?_ (fun key r hkey => ?_) (fun _ => ?_) fun _ => ?_
      · split <;> exact Nat.le_refl _
      · split
        · exact Keyspace.del_of_ne (hother key r hkey)
        · rfl
      · split <;> rfl
      · split <;> rfl
    · exact .of_same (Nat.le_refl _) rfl rfl

variable [DecidableEq W]

theorem counts_forward {a : Action} {c : Call} {counted : ℕ} {dbFailed answered : Bool}
    {status : Int} :
    Counts s a (s.forward weight k c counted dbFailed answered status) := by
  unfold forward
  split
  next error uid _ =>
    cases uid with
    | none => exact .of_same (Nat.le_refl _) rfl rfl
    | some uid => exact .quiet (Nat.le_refl _) (fun _ _ _ => rfl) (fun _ => rfl) fun _ => rfl

theorem counts_of_step {a : Action} (h : s.step weight hash toLowerCase a = some s') :
    Counts s a s' := by
  cases a with
  | tick milliseconds =>
    cases h
    exact .of_same (Nat.le_add_right _ _) rfl rfl
  | setUsers users =>
    cases h
    exact .of_same (Nat.le_refl _) rfl rfl
  | receive k request =>
    simp only [step] at h
    split at h
    · cases h
    · split at h <;> cases h <;> exact .of_same (Nat.le_refl _) rfl rfl
  | readFailures k failed =>
    simp only [step] at h
    split at h
    · split at h
      · cases h
        exact .of_same (Nat.le_refl _) rfl rfl
      · cases h
    · cases h
  | count k outcome =>
    simp only [step] at h
    split at h
    next c hc =>
      split at h
      · cases h
        exact counts_count hc
      · cases h
    · cases h
  | forward k dbFailed answered status =>
    simp only [step] at h
    split at h
    · split at h
      · cases h
        exact counts_forward
      · cases h
    · cases h
  | finish k outcome =>
    simp only [step] at h
    split at h
    · split at h
      · cases h
        exact counts_finish
      · cases h
    · cases h

end State

/-! ## The invariant -/

/-- Every counted key was only raised below its limit, in lives that do not overlap. -/
structure State.Exact (s : State) : Prop where
  window : ∀ key r, key.rule = some r →
    Window r.limit r.ttl s.now (s.counters key) (births key s.log) (hits key s.log)
  lives : ∀ key r, key.rule = some r → Lives r.limit r.ttl (births key s.log) (hits key s.log)

namespace State
variable {s s' : State}

theorem Exact.step (h : s.Exact) {a : Action} (hstep : Counts s a s') : s'.Exact := by
  cases hstep with
  | quiet hnow hcounters hbirths hhits =>
    constructor
    · intro key r hkey
      rw [hcounters key r hkey, hbirths, hhits]
      exact (h.window key r hkey).later hnow
    · intro key r hkey
      rw [hbirths, hhits]
      exact h.lives key r hkey
  | @counted k c outcome stage hc hfree =>
    -- a key of the request is raised below its limit, another one is left alone
    let rs := rules c.route c.address c.account
    have hnodup := rules_nodup c.route c.address c.account
    have happend : ∀ key, births key (s.countEvents k rs ++ s.log) =
        births key (s.countEvents k rs) ++ births key s.log := fun key => List.filterMap_append
    have happend' : ∀ key, hits key (s.countEvents k rs ++ s.log) =
        hits key (s.countEvents k rs) ++ hits key s.log := fun key => List.filterMap_append
    have hboth : ∀ key r, key.rule = some r →
        Window r.limit r.ttl s.now (countAll s.counters s.now rs key)
            (births key (s.countEvents k rs ++ s.log)) (hits key (s.countEvents k rs ++ s.log)) ∧
          Lives r.limit r.ttl (births key (s.countEvents k rs ++ s.log))
            (hits key (s.countEvents k rs ++ s.log)) := by
      intro key r hkey
      obtain rfl := rule_key hkey
      have hw := h.window _ r hkey
      have hl := h.lives _ r hkey
      rw [happend, happend', hits_countEvents, births_countEvents]
      by_cases hr : r ∈ rs
      · have hlimit := blockedFor_eq_none hfree r hr
        rw [filter_of_mem hnodup hr, countAll_of_mem hnodup hr]
        have hwindow := hw.incr hlimit
        have hlives := hl.incr hw hlimit
        by_cases hzero : s.counters.count s.now r.key = 0
        · simpa [hzero] using And.intro hwindow hlives
        · simpa [hzero] using And.intro hwindow hlives
      · have hnot : ∀ q ∈ rs, q.key ≠ r.key := by
          intro q hq hqr
          have hrule := (rule_of_mem hq).1
          rw [hqr, hkey] at hrule
          exact hr (Option.some_inj.mp hrule ▸ hq)
        rw [filter_of_not_mem hnot, countAll_of_not_mem hnot]
        exact ⟨hw, hl⟩
    exact ⟨fun key r hkey => (hboth key r hkey).1, fun key r hkey => (hboth key r hkey).2⟩

theorem exact_invariant [DecidableEq W] :
    (guard weight hash toLowerCase).Invariant State.Exact where
  init := by
    rintro s ⟨hcounters, -, hlog⟩
    constructor
    · intro key r _
      rw [hcounters, hlog]
      exact .nil _ _ _
    · intro key r _
      rw [hlog]
      exact .nil _ _
  step s a s' _ h hstep := h.step (counts_of_step hstep)

end State

/-! ## What the script promises -/

/-- The rules that a request of a route is counted by all have room. -/
def Room (store : Store Key) (now : ℕ) (rs : List Rule) : Prop :=
  ∀ r ∈ rs, store.get now r.key < r.limit

/-- One evaluation of the script: whether it admits, and what it changes. -/
structure Evaluated (store : Store Key) (now : ℕ) (rs : List Rule) (wait : Int)
    (store' : Store Key) : Prop where
  admits : wait = 0 ↔ Room store now rs
  rejects : wait ≠ 0 → 0 < wait ∧ store' = store
  adds : wait = 0 → ∀ r ∈ rs, store'.get now r.key = store.get now r.key + 1
  begins : wait = 0 → ∀ r ∈ rs, store.get now r.key = 0 →
    store' r.key = some ⟨1, some (now + r.ttl)⟩
  goes_on : wait = 0 → ∀ r ∈ rs, 0 < store.get now r.key →
    ∃ e, store r.key = some e ∧ store' r.key = some { e with value := e.value + 1 }
  others : ∀ key, (∀ r ∈ rs, r.key ≠ key) → store' key = store key

theorem evaluated (c : Keyspace Key ℕ) (now : ℕ) (route : Route) (address account : String) :
    Evaluated (.ofCounters c) now (rules route address account)
      (counterScript (.ofCounters c) now (rules route address account)).1
      (counterScript (.ofCounters c) now (rules route address account)).2 := by
  have hrules := fun r (hr : r ∈ rules route address account) => rule_of_mem hr
  have hnodup := rules_nodup route address account
  generalize rules route address account = rs at hrules hnodup
  rw [counterScript_eq c now fun r hr => (hrules r hr).2]
  have hroom : Room (.ofCounters c) now rs ↔ blockedFor c now rs = none := by
    simp only [Room, Store.get_ofCounters, blockedFor_none_iff]
  cases hblocked : blockedFor c now rs with
  | some wait =>
    have hpos := pos_of_blockedFor hblocked
    have hne : (wait : Int) ≠ 0 := by omega
    dsimp only
    refine ⟨?_, fun _ => ⟨by omega, rfl⟩, fun h => absurd h hne, fun h => absurd h hne,
      fun h => absurd h hne, fun _ _ => rfl⟩
    rw [hroom, hblocked]
    exact iff_of_false hne nofun
  | none =>
    dsimp only
    refine ⟨by simp [hroom, hblocked], fun h => absurd rfl h, fun _ r hr => ?_,
      fun _ r hr hzero => ?_, fun _ r hr hpos => ?_, fun key hkey => ?_⟩
    · simp only [Store.get_ofCounters]
      rw [Keyspace.count_congr (countAll_of_mem hnodup hr), Keyspace.count_incr]
    · rw [Store.get_ofCounters] at hzero
      simp only [Store.ofCounters, countAll_of_mem hnodup hr, Keyspace.incr_new hzero,
        Option.map_some]
    · rw [Store.get_ofCounters] at hpos
      obtain ⟨cell, hcell, hle, hvalue⟩ := Keyspace.cell_of_count hpos
      refine ⟨⟨cell.value, some cell.deadline⟩, by simp [Store.ofCounters, hcell], ?_⟩
      simp only [Store.ofCounters, countAll_of_mem hnodup hr,
        Keyspace.incr_live hcell hle (hvalue ▸ hpos), Option.map_some]
    · simp only [Store.ofCounters, countAll_of_not_mem hkey]

/-- What holds of the counters in a state and of the next request that reaches the script. -/
structure State.CountersExact (s : State) : Prop where
  script : ∀ route address account,
    Evaluated (.ofCounters s.counters) s.now (rules route address account)
      (counterScript (.ofCounters s.counters) s.now (rules route address account)).1
      (counterScript (.ofCounters s.counters) s.now (rules route address account)).2
  counts : ∀ k c outcome,
    let rs := rules c.route c.address c.account
    let (wait, store) := counterScript (.ofCounters s.counters) s.now rs
    (outcome ≠ .failed → Store.ofCounters (s.count k c outcome).counters = store) ∧
      (outcome = .failed → (s.count k c outcome).counters = s.counters) ∧
      (outcome = .ok → ((s.count k c outcome).call? k = some { c with stage := .forwarding s.now } ↔
        wait = 0)) ∧
      (s.count k c outcome).log =
        (if outcome ≠ .failed ∧ wait = 0 then s.countEvents k rs else []) ++ s.log
  failures : ∀ key seconds, (failureScript (.ofCounters s.counters) s.now key seconds).2 =
    .ofCounters (s.counters.incr s.now key (1000 * seconds))
  expiry : Store.HasExpiry (.ofCounters s.counters)
  set_once : ∀ key r cell, key.rule = some r → s.counters key = some cell →
    ∃ b ∈ births key s.log, cell.deadline = b + r.ttl
  bounded : ∀ key r, key.rule = some r →
    (∀ t ∈ hits key s.log, ∃ b ∈ births key s.log, b ≤ t ∧ t ≤ b + r.ttl) ∧
      ∀ b ∈ births key s.log, hitsWithin r.ttl b (hits key s.log) ≤ r.limit
  opens : ∀ key cell later, s.counters key = some cell → cell.deadline < later →
    s.counters.count later key = 0
  cooldown : ∀ account j k t u, j ≠ k → .counted j (.mailCooldown account) t ∈ s.log →
    .counted k (.mailCooldown account) u ∈ s.log → t + 60000 < u ∨ u + 60000 < t
  hourly : ∀ account, ∀ b ∈ births (.mailHour account) s.log,
    hitsWithin 3600000 b (hits (.mailHour account) s.log) ≤ 5
  overall : ∀ b ∈ births .mailGlobal s.log, hitsWithin 3600000 b (hits .mailGlobal s.log) ≤ 20

theorem State.Exact.cooldown {s : State} (h : s.Exact) {account : String} {j k t u : ℕ}
    (hjk : j ≠ k) (hj : .counted j (.mailCooldown account) t ∈ s.log)
    (hk : .counted k (.mailCooldown account) u ∈ s.log) : t + 60000 < u ∨ u + 60000 < t := by
  have hlives := h.lives (.mailCooldown account) _ rfl
  have hspaced := hlives.spaced
  rw [← hlives.single rfl, hits, List.pairwise_filterMap] at hspaced
  -- of two different events one is the newer
  let mine (e : Event) (x : ℕ) : Prop :=
    e = .counted j (.mailCooldown account) x ∨ e = .counted k (.mailCooldown account) x
  let apart (a b : Event) : Prop :=
    ∀ x y, mine a x → mine b y → y + 60000 < x ∨ x + 60000 < y
  have hapart : s.log.Pairwise apart := by
    refine hspaced.imp fun {a b} hab x y ha hb => .inl (hab x ?_ y ?_)
    · rcases ha with rfl | rfl <;> simp
    · rcases hb with rfl | rfl <;> simp
  have : Std.Symm apart := ⟨fun a b hab x y hx hy => (hab y x hy hx).symm⟩
  have hne : (Event.counted j (.mailCooldown account) t) ≠ .counted k (.mailCooldown account) u :=
    fun heq => hjk (Event.counted.inj heq).1
  exact (hapart.forall hj hk hne t u (.inl rfl) (.inr rfl)).symm

theorem counters_exact [DecidableEq W] {s : State}
    (hs : (guard weight hash toLowerCase).Reachable s) : s.CountersExact := by
  have h : s.Exact := State.exact_invariant.reachable hs
  constructor
  · exact evaluated s.counters s.now
  · intro k c outcome
    dsimp only
    rw [counterScript_eq _ _ fun r hr => (rule_of_mem hr).2]
    unfold State.count
    dsimp only
    by_cases hfailed : outcome = .failed
    · simp [hfailed, State.setCall]
    · cases hblocked : blockedFor s.counters s.now (rules c.route c.address c.account) with
      | some wait =>
        have hpos := pos_of_blockedFor hblocked
        have hne : (wait : Int) ≠ 0 := by omega
        rw [if_neg hfailed]
        dsimp only
        refine ⟨fun _ => rfl, fun h => absurd h hfailed, fun hok => ?_, ?_⟩
        · rw [State.setCall_call?, if_pos rfl]
          exact iff_of_false (fun h => by simp at h) hne
        · simp [State.setCall, Nat.ne_of_gt hpos]
      | none =>
        rw [if_neg hfailed]
        dsimp only
        refine ⟨fun _ => rfl, fun h => absurd h hfailed, fun hok => ?_, ?_⟩
        · rw [State.setCall_call?, if_pos rfl, if_pos hok]
          exact iff_of_true rfl rfl
        · simp [State.setCall, hfailed]
  · exact fun key seconds => Store.hit_ofCounters _ _ _ _
  · exact Store.hasExpiry_ofCounters _
  · intro key r cell hkey hcell
    obtain ⟨start, hlife⟩ := (h.window key r hkey).life cell hcell
    exact ⟨start, hlife.mem, hlife.deadline⟩
  · exact fun key r hkey => ⟨(h.lives key r hkey).covered, (h.window key r hkey).bounded⟩
  · intro key cell later hcell hlater
    simp [Keyspace.count, Keyspace.get, hcell, Nat.not_le.mpr hlater]
  · exact fun account j k t u => h.cooldown
  · exact fun account => (h.window (.mailHour account) _ rfl).bounded
  · exact (h.window .mailGlobal _ rfl).bounded

/-- Asking for a code. -/
def mailRequest (k : ℕ) (email : String) : List Action :=
  [.receive k ⟨"POST", "/get_verifycode", "host", ⟨40, true, some email, none⟩⟩, .count k .ok]

/-- The second request of an account comes within a minute. -/
def mailRequests : List Action :=
  mailRequest 0 "a@b.com" ++ .tick 59000 :: mailRequest 1 "a@b.com"

theorem counters_exact_sample : ∃ s, (guard fold id id).Reachable s ∧
    s.CountersExact ∧ hits (.mailCooldown "a@b.com") s.log = [0] ∧
    (s.call? 1).map Call.stage = some (.replied ⟨429, 1016, "Too many requests", some 1⟩) := by
  have hrun : (Machine.runFn (State.step fold id id) beforeLogins mailRequests).map
      (fun s => (hits (.mailCooldown "a@b.com") s.log, (s.call? 1).map Call.stage)) =
      some ([0], some (.replied ⟨429, 1016, "Too many requests", some 1⟩)) := by
    decide +kernel
  obtain ⟨s, hs, hstate⟩ := Option.map_eq_some_iff.mp hrun
  obtain ⟨hhits, hstage⟩ := Prod.mk.inj hstate
  have hinit : (guard fold id id).Reachable beforeLogins := .init ⟨rfl, rfl, rfl⟩
  have hreachable := hinit.runFn hs
  exact ⟨s, hreachable, counters_exact hreachable, hhits, hstage⟩

end CppChat.Guard
