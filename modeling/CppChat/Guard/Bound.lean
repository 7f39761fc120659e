import CppChat.Guard.Handler

/-! # Password checks of one account are bounded

Every request that the gate checks was counted by the key of its spelling. While all
spellings that reach a row share one key, a life of that key sees at most ten of them.
-/
namespace CppChat.Guard
open Foundation

variable {W : Type} {weight : String → W} {hash : String → String} {toLowerCase : String → String}

/-! ## The script -/

def births (key : Key) (log : List Event) : List ℕ :=
  log.filterMap fun
    | .born k t => if k = key then some t else none
    | _ => none

def hits (key : Key) (log : List Event) : List ℕ :=
  log.filterMap fun
    | .counted _ k t => if k = key then some t else none
    | _ => none

/-- The requests that had a password checked. -/
def checkers (log : List Event) : List ℕ :=
  log.filterMap fun
    | .checked k _ _ => some k
    | _ => none

theorem mem_checkers {k : ℕ} {log : List Event} :
    k ∈ checkers log ↔ ∃ uid t, .checked k uid t ∈ log := by
  rw [checkers, List.mem_filterMap]
  constructor
  · rintro ⟨event, hmem, hevent⟩
    cases event with
    | checked j uid t =>
      cases hevent
      exact ⟨uid, t, hmem⟩
    | _ => cases hevent
  · rintro ⟨uid, t, hmem⟩
    exact ⟨_, hmem, rfl⟩

theorem rules_nodup (route : Route) (address account : String) :
    ((rules route address account).map Rule.key).Nodup := by
  cases route <;> simp [rules]

theorem loginRule {route : Route} {address account acct : String} {r : Rule}
    (hr : r ∈ rules route address account) (hkey : r.key = .loginAttempts acct) :
    r = ⟨.loginAttempts acct, 10, 300⟩ ∧ route = .userLogin ∧ acct = account := by
  cases route <;> simp only [rules, List.mem_cons, List.not_mem_nil, or_false] at hr <;>
    rcases hr with rfl | rfl | rfl | rfl <;> simp_all

theorem mem_loginRule {route : Route} {address account : String} (h : route = .userLogin) :
    ⟨.loginAttempts account, 10, 300⟩ ∈ rules route address account := by
  subst h
  simp [rules]

/-- A key of no rule is left alone. -/
theorem countAll_of_not_mem {counters : Keyspace Key ℕ} {now : ℕ} {rs : List Rule} {key : Key}
    (h : ∀ r ∈ rs, r.key ≠ key) : countAll counters now rs key = counters key := by
  induction rs generalizing counters with
  | nil => rfl
  | cons r rs ih =>
    have hne : key ≠ r.key := (h r List.mem_cons_self).symm
    rw [countAll, List.foldl_cons, ← countAll, ih fun q hq => h q (List.mem_cons_of_mem _ hq)]
    exact Keyspace.incr_of_ne hne

/-- A key of one rule is raised once. -/
theorem countAll_of_mem {counters : Keyspace Key ℕ} {now : ℕ} {rs : List Rule} {r : Rule}
    (hnodup : (rs.map Rule.key).Nodup) (hr : r ∈ rs) :
    countAll counters now rs r.key = counters.incr now r.key r.ttl r.key := by
  induction rs generalizing counters with
  | nil => cases hr
  | cons q rs ih =>
    rw [List.map_cons, List.nodup_cons] at hnodup
    obtain ⟨hq, hnodup⟩ := hnodup
    rw [countAll, List.foldl_cons, ← countAll]
    rcases List.mem_cons.mp hr with rfl | hr
    · refine countAll_of_not_mem fun p hp hkey => hq ?_
      rw [← hkey]
      exact List.mem_map_of_mem hp
    · have hne : r.key ≠ q.key := by
        intro heq
        rw [← heq] at hq
        exact hq (List.mem_map_of_mem hr)
      rw [ih hnodup hr]
      exact Keyspace.incr_congr (Keyspace.incr_of_ne hne)

theorem blockedFor_eq_none {counters : Keyspace Key ℕ} {now : ℕ} {rs : List Rule}
    (h : blockedFor counters now rs = none) :
    ∀ r ∈ rs, counters.count now r.key < r.limit := by
  intro r hr
  have := List.findSome?_eq_none_iff.mp h r hr
  split at this
  · cases this
  · omega

/-- The call may still have its password checked. -/
def Call.Unchecked (c : Call) : Prop :=
  c.stage = .reading ∨ c.stage = .counting ∨ ∃ t, c.stage = .forwarding t

namespace State

variable {s s' : State} {k : ℕ}

theorem call?_eq_some {c : Call} : s.call? k = some c ↔ s.calls k = some (.inl c) := by
  unfold call?
  split
  next q h => simp [h]
  next h =>
    refine ⟨fun hc => (by cases hc), fun hc => absurd hc (h c)⟩

theorem setCall_call? (s : State) (k j : ℕ) (c : Call) (stage : Stage) :
    (s.setCall k c stage).call? j = if j = k then some { c with stage } else s.call? j := by
  by_cases h : j = k
  · subst h
    simp [call?, setCall]
  · simp [call?, setCall, h]

/-- The calls go on: none is lost, and no new one was forwarded. -/
structure Moves (s s' : State) : Prop where
  forth : ∀ k c, s.call? k = some c → ∃ c', s'.call? k = some c' ∧ c'.account = c.account
  back : ∀ k c', s'.call? k = some c' → c'.Unchecked →
    (s.call? k = none ∧ ∀ t, c'.stage ≠ .forwarding t) ∨
      ∃ c, s.call? k = some c ∧ c.Unchecked ∧ c.account = c'.account ∧ c.route = c'.route ∧
        ∀ t, c'.stage = .forwarding t → c.stage = .forwarding t

theorem Moves.refl (hcalls : s'.calls = s.calls) : Moves s s' := by
  have hcall : ∀ k, s'.call? k = s.call? k := by
    intro k
    rw [call?, call?, hcalls]
  exact ⟨fun k c hc => ⟨c, (hcall k).trans hc, rfl⟩,
    fun k c hc h => .inr ⟨c, (hcall k).symm.trans hc, h, rfl, rfl, fun _ ht => ht⟩⟩

/-- One call changes its stage, but not to a later one that may still check. -/
theorem Moves.of_call {t : State} {c : Call} {stage : Stage} (hc : s.call? k = some c)
    (hcalls : t.calls = s.calls)
    (hstage : Call.Unchecked { c with stage } → c.Unchecked ∧ ∀ t, stage ≠ .forwarding t) :
    Moves s (t.setCall k c stage) := by
  have hcall : ∀ j, t.call? j = s.call? j := by
    intro j
    rw [call?, call?, hcalls]
  constructor
  · intro j d hd
    rw [setCall_call?, hcall]
    by_cases hjk : j = k
    · subst hjk
      obtain rfl := Option.some_inj.mp (hc.symm.trans hd)
      exact ⟨_, if_pos rfl, rfl⟩
    · exact ⟨d, (if_neg hjk).trans hd, rfl⟩
  · intro j d hd hunchecked
    rw [setCall_call?, hcall] at hd
    split at hd
    next hjk =>
      subst hjk
      cases hd
      obtain ⟨hold, hnot⟩ := hstage hunchecked
      exact .inr ⟨c, hc, hold, rfl, rfl, fun t ht => absurd ht (hnot t)⟩
    next => exact .inr ⟨d, hd, hunchecked, rfl, rfl, fun _ ht => ht⟩

/-- Everything a step can do to the login counters and the calls. -/
inductive Did (weight : String → W) [DecidableEq W] (s : State) : Action → State → Prop
  | quiet {a : Action} {s' : State} (hnow : s.now ≤ s'.now)
      (hcounters : ∀ account, s'.counters (.loginAttempts account) =
        s.counters (.loginAttempts account))
      (hlog : s'.log = s.log) (hmoves : Moves s s') : Did weight s a s'
  | counted {k : ℕ} {c : Call} {outcome : Outcome} {stage : Stage} (hc : s.call? k = some c)
      (hstage : c.stage = .counting)
      (hfree : blockedFor s.counters s.now (rules c.route c.address c.account) = none)
      (hnext : ∀ t, stage = .forwarding t → t = s.now) :
      Did weight s (.count k outcome) (setCall { s with
        counters := countAll s.counters s.now (rules c.route c.address c.account)
        log := s.countEvents k (rules c.route c.address c.account) ++ s.log } k c stage)
  | checked {k uid counted : ℕ} {c : Call} {stage : Stage} {dbFailed answered : Bool}
      {status : Int} (hc : s.call? k = some c) (hstage : c.stage = .forwarding counted)
      (hroute : c.route = .userLogin)
      (huid : (userLogin weight s.users c.login dbFailed status).2 = some uid)
      (hnext : ¬ Call.Unchecked { c with stage }) :
      Did weight s (.forward k dbFailed answered status)
        (setCall { s with log := .checked k uid counted :: s.log } k c stage)

theorem failureKey_ne (route : Route) (account acct : String) :
    Key.loginAttempts acct ≠ failureKey route account := by
  unfold failureKey
  split <;> nofun

theorem not_unchecked {c : Call} {stage : Stage}
    (h : (∃ error, stage = .finishing error) ∨ (∃ error, stage = .answered error) ∨
      ∃ reply, stage = .replied reply) : ¬ Call.Unchecked { c with stage } := by
  rcases h with ⟨_, rfl⟩ | ⟨_, rfl⟩ | ⟨_, rfl⟩ <;> simp [Call.Unchecked]

variable [DecidableEq W]

/-- A step that only moves one call to a stage past the check. -/
theorem Did.of_stage {a : Action} {t : State} {c : Call} {stage : Stage}
    (hc : s.call? k = some c) (hnow : t.now = s.now) (hcalls : t.calls = s.calls)
    (hlog : t.log = s.log)
    (hcounters : ∀ account, t.counters (.loginAttempts account) =
      s.counters (.loginAttempts account))
    (hstage : Call.Unchecked { c with stage } → c.Unchecked ∧ ∀ t, stage ≠ .forwarding t) :
    Did weight s a (t.setCall k c stage) :=
  .quiet (Nat.le_of_eq hnow.symm) hcounters hlog (.of_call hc hcalls hstage)

theorem did_finish {a : Action} {c : Call} {error : Int} {outcome : Outcome}
    (hc : s.call? k = some c) : Did weight s a (s.finish k c error outcome) := by
  have hend : ∀ stage, stage = .answered error ∨ stage = .replied unavailable →
      Call.Unchecked { c with stage } → c.Unchecked ∧ ∀ t, stage ≠ .forwarding t := by
    rintro stage (rfl | rfl) h
    · exact absurd h (not_unchecked (.inr (.inl ⟨_, rfl⟩)))
    · exact absurd h (not_unchecked (.inr (.inr ⟨_, rfl⟩)))
  have hanswer : (if outcome = .ok then Stage.answered error else .replied unavailable) =
      .answered error ∨ (if outcome = .ok then Stage.answered error else .replied unavailable) =
      .replied unavailable := by
    split
    · exact .inl rfl
    · exact .inr rfl
  unfold finish
  dsimp only
  split
  · refine .of_stage hc ?_ ?_ ?_ (fun account => ?_) (hend _ hanswer)
    any_goals split <;> rfl
    split
    · exact Keyspace.incr_of_ne (failureKey_ne _ _ _)
    · rfl
  · split
    · refine .of_stage hc ?_ ?_ ?_ (fun account => ?_) (hend _ hanswer)
      any_goals split <;> rfl
      split
      · exact Keyspace.del_of_ne (failureKey_ne _ _ _)
      · rfl
    · exact .of_stage hc rfl rfl rfl (fun _ => rfl) (hend _ (.inl rfl))

theorem did_count {c : Call} {outcome : Outcome} (hc : s.call? k = some c)
    (hstage : c.stage = .counting) : Did weight s (.count k outcome) (s.count k c outcome) := by
  have hend : ∀ reply, Call.Unchecked { c with stage := .replied reply } →
      c.Unchecked ∧ ∀ t, Stage.replied reply ≠ .forwarding t :=
    fun reply h => absurd h (not_unchecked (.inr (.inr ⟨_, rfl⟩)))
  unfold count
  dsimp only
  split
  · exact .of_stage hc rfl rfl rfl (fun _ => rfl) (hend _)
  · split
    · split <;> exact .of_stage hc rfl rfl rfl (fun _ => rfl) (hend _)
    next hfree =>
      refine .counted hc hstage hfree fun t ht => ?_
      split at ht
      · cases ht
        rfl
      · cases ht

theorem did_forward {c : Call} {counted : ℕ} {dbFailed answered : Bool} {status : Int}
    (hc : s.call? k = some c) (hstage : c.stage = .forwarding counted) :
    Did weight s (.forward k dbFailed answered status)
      (s.forward weight k c counted dbFailed answered status) := by
  have hend : ∀ error, ¬ Call.Unchecked { c with
      stage := if answered then .finishing error else .replied unavailable } := by
    intro error
    split
    · exact not_unchecked (.inl ⟨_, rfl⟩)
    · exact not_unchecked (.inr (.inr ⟨_, rfl⟩))
  unfold forward
  split
  next error uid hresult =>
    split at hresult
    next hroute =>
      cases uid with
      | none => exact .of_stage hc rfl rfl rfl (fun _ => rfl) fun h => absurd h (hend error)
      | some uid => exact .checked hc hstage hroute (by rw [hresult]) (hend error)
    next =>
      cases hresult
      exact .of_stage hc rfl rfl rfl (fun _ => rfl) fun h => absurd h (hend status)

theorem moves_of_new {r : Call ⊕ Reply} (hnew : s.calls k = none)
    (hstage : ∀ c, r = .inl c → ∀ t, c.stage ≠ .forwarding t) :
    Moves s { s with calls := Function.update s.calls k (some r) } := by
  constructor
  · intro j c hc
    refine ⟨c, ?_, rfl⟩
    rw [call?_eq_some] at hc ⊢
    have hjk : j ≠ k := by
      rintro rfl
      rw [hnew] at hc
      cases hc
    simpa [hjk] using hc
  · intro j c hc hunchecked
    rw [call?_eq_some] at hc
    by_cases hjk : j = k
    · subst hjk
      simp only [Function.update_self, Option.some_inj] at hc
      exact .inl ⟨by rw [call?, hnew], hstage c hc⟩
    · refine .inr ⟨c, ?_, hunchecked, rfl, rfl, fun _ ht => ht⟩
      rw [call?_eq_some]
      simpa [hjk] using hc

theorem receive_stage {request : Request} {c : Call}
    (h : receive hash toLowerCase request = .ok c) (t : ℕ) : c.stage ≠ .forwarding t := by
  unfold receive at h
  repeat' split at h
  all_goals cases h
  all_goals nofun

theorem did_of_step {a : Action} (h : s.step weight hash toLowerCase a = some s') :
    Did weight s a s' := by
  cases a with
  | tick milliseconds =>
    cases h
    exact .quiet (Nat.le_add_right _ _) (fun _ => rfl) rfl (.refl rfl)
  | setUsers users =>
    cases h
    exact .quiet (Nat.le_refl _) (fun _ => rfl) rfl (.refl rfl)
  | receive k request =>
    simp only [step] at h
    split at h
    · cases h
    next hnew =>
      split at h
      next reply _ =>
        cases h
        exact .quiet (Nat.le_refl _) (fun _ => rfl) rfl (moves_of_new (not_not.mp hnew) nofun)
      next c hc =>
        cases h
        refine .quiet (Nat.le_refl _) (fun _ => rfl) rfl (moves_of_new (not_not.mp hnew) ?_)
        rintro d hd t
        cases hd
        exact receive_stage hc t
  | readFailures k failed =>
    simp only [step] at h
    split at h
    next c hc =>
      split at h
      next hstage =>
        cases h
        refine .of_stage hc rfl rfl rfl (fun _ => rfl) fun _ => ⟨.inl hstage, fun t => ?_⟩
        split
        · nofun
        · split <;> nofun
      next => cases h
    next => cases h
  | count k outcome =>
    simp only [step] at h
    split at h
    next c hc =>
      split at h
      next hstage =>
        cases h
        exact did_count hc hstage
      next => cases h
    next => cases h
  | forward k dbFailed answered status =>
    simp only [step] at h
    split at h
    next c hc =>
      split at h
      next counted hstage =>
        cases h
        exact did_forward hc hstage
      next => cases h
    next => cases h
  | finish k outcome =>
    simp only [step] at h
    split at h
    next c hc =>
      split at h
      next error hstage =>
        cases h
        exact did_finish hc
      next => cases h
    next => cases h

omit [DecidableEq W] in
theorem hits_countEvents (s : State) (k : ℕ) (rs : List Rule) (key : Key) :
    hits key (s.countEvents k rs) = (rs.filter fun r => r.key = key).map fun _ => s.now := by
  induction rs with
  | nil => rfl
  | cons r rs ih =>
    have hhead : ∀ (p : Prop) [Decidable p],
        hits key (if p then [.born r.key s.now] else []) = [] := by
      intro p _
      by_cases hp : p <;> simp [hits, hp]
    have hcons : s.countEvents k (r :: rs) = .counted k r.key s.now ::
        ((if s.counters.count s.now r.key = 0 then [.born r.key s.now] else []) ++
          s.countEvents k rs) := by
      simp [countEvents]
    have happend : ∀ a b, hits key (a ++ b) = hits key a ++ hits key b :=
      fun a b => List.filterMap_append
    by_cases hk : r.key = key
    · rw [hcons, hits, List.filterMap_cons_some (by simp [hk]; rfl), ← hits, happend, hhead, ih]
      simp [hk]
    · rw [hcons, hits, List.filterMap_cons_none (by simp [hk]), ← hits, happend, hhead, ih]
      simp [hk]

omit [DecidableEq W] in
theorem births_countEvents (s : State) (k : ℕ) (rs : List Rule) (key : Key) :
    births key (s.countEvents k rs) = (rs.filter fun r => r.key = key).flatMap fun _ =>
      if s.counters.count s.now key = 0 then [s.now] else [] := by
  induction rs with
  | nil => rfl
  | cons r rs ih =>
    have hhead : ∀ (p : Prop) [Decidable p],
        births key (if p then [.born r.key s.now] else []) =
          if r.key = key then if p then [s.now] else [] else [] := by
      intro p _
      by_cases hp : p <;> by_cases hk : r.key = key <;> simp [births, hp, hk]
    have hcons : s.countEvents k (r :: rs) = .counted k r.key s.now ::
        ((if s.counters.count s.now r.key = 0 then [.born r.key s.now] else []) ++
          s.countEvents k rs) := by
      simp [countEvents]
    have happend : ∀ a b, births key (a ++ b) = births key a ++ births key b :=
      fun a b => List.filterMap_append
    rw [hcons, births, List.filterMap_cons_none rfl, ← births, happend, hhead, ih]
    by_cases hk : r.key = key
    · subst hk
      simp
    · simp [hk]

omit [DecidableEq W] in
theorem login_rules (route : Route) (address account acct : String) :
    ((rules route address account).filter fun r => r.key = .loginAttempts acct) =
      if route = .userLogin ∧ acct = account then [⟨.loginAttempts acct, 10, 300⟩] else [] := by
  cases route with
  | userLogin =>
    by_cases h : acct = account
    · subst h
      simp [rules]
    · have h' : account ≠ acct := fun heq => h heq.symm
      simp [rules, h, h']
  | _ => simp [rules]

/-- Attempts of one account in a life of its key. -/
def loginLife : ℕ := 300000

structure Inv (s : State) : Prop where
  window : ∀ account, Window 10 loginLife s.now (s.counters (.loginAttempts account))
    (births (.loginAttempts account) s.log) (hits (.loginAttempts account) s.log)
  unchecked : ∀ k c, s.call? k = some c → c.Unchecked → ∀ uid t, .checked k uid t ∉ s.log
  forwarding : ∀ k c t, s.call? k = some c → c.stage = .forwarding t → c.route = .userLogin →
    .counted k (.loginAttempts c.account) t ∈ s.log
  checked : ∀ k uid t, .checked k uid t ∈ s.log →
    ∃ c, s.call? k = some c ∧ .counted k (.loginAttempts c.account) t ∈ s.log
  shared : ∀ uid k t j u c d, .checked k uid t ∈ s.log → .checked j uid u ∈ s.log →
    s.call? k = some c → s.call? j = some d → c.account = d.account
  once : (checkers s.log).Nodup

/-- The gate checks a password only for requests of one spelling: those checked before for
the same account have the same hash. Two spellings in different lives of their counters would do
no harm; they are left out too. -/
def Uniform (weight : String → W) (s : State) : Action → Prop
  | .forward k dbFailed _ status => ∀ c, s.call? k = some c → c.route = .userLogin →
      ∀ uid, (userLogin weight s.users c.login dbFailed status).2 = some uid →
      ∀ j t d, .checked j uid t ∈ s.log → s.call? j = some d → d.account = c.account
  | _ => True

omit [DecidableEq W] in
theorem Inv.quiet (hs : s.Inv) (hnow : s.now ≤ s'.now)
    (hcounters : ∀ account, s'.counters (.loginAttempts account) =
      s.counters (.loginAttempts account))
    (hlog : s'.log = s.log) (hmoves : Moves s s') : s'.Inv where
  window account := by
    rw [hcounters, hlog]
    exact (hs.window account).later hnow
  unchecked k c hc hunchecked uid t hmem := by
    rw [hlog] at hmem
    rcases hmoves.back k c hc hunchecked with ⟨hnew, -⟩ | ⟨d, hd, hold, -⟩
    · obtain ⟨d, hd, -⟩ := hs.checked k uid t hmem
      rw [hnew] at hd
      cases hd
    · exact hs.unchecked k d hd hold uid t hmem
  forwarding k c t hc hstage hroute := by
    rw [hlog]
    rcases hmoves.back k c hc (.inr (.inr ⟨t, hstage⟩)) with ⟨-, hnot⟩ | ⟨d, hd, -, hacc, hr, hst⟩
    · exact absurd hstage (hnot t)
    · rw [← hacc]
      exact hs.forwarding k d t hd (hst t hstage) (hr.trans hroute)
  checked k uid t hmem := by
    rw [hlog] at hmem ⊢
    obtain ⟨c, hc, hcounted⟩ := hs.checked k uid t hmem
    obtain ⟨d, hd, hacc⟩ := hmoves.forth k c hc
    exact ⟨d, hd, hacc ▸ hcounted⟩
  shared uid k t j u c d hk hj hc hd := by
    rw [hlog] at hk hj
    obtain ⟨c₀, hc₀, -⟩ := hs.checked k uid t hk
    obtain ⟨d₀, hd₀, -⟩ := hs.checked j uid u hj
    obtain ⟨c₁, hc₁, hcacc⟩ := hmoves.forth k c₀ hc₀
    obtain ⟨d₁, hd₁, hdacc⟩ := hmoves.forth j d₀ hd₀
    obtain rfl := Option.some_inj.mp (hc.symm.trans hc₁)
    obtain rfl := Option.some_inj.mp (hd.symm.trans hd₁)
    rw [hcacc, hdacc]
    exact hs.shared uid k t j u c₀ d₀ hk hj hc₀ hd₀
  once := hlog ▸ hs.once

/-- The account of a call does not change with its stage. -/
theorem account_of_setCall {t : State} {c d : Call} {stage : Stage} {j : ℕ}
    (hcalls : t.calls = s.calls) (hc : s.call? k = some c)
    (hd : (t.setCall k c stage).call? j = some d) :
    ∃ d₀, s.call? j = some d₀ ∧ d₀.account = d.account ∧ (j ≠ k → d₀ = d) ∧
      (j = k → d = { c with stage }) := by
  rw [setCall_call?] at hd
  split at hd
  next hjk =>
    subst hjk
    cases hd
    exact ⟨c, hc, rfl, fun h => absurd rfl h, fun _ => rfl⟩
  next hjk =>
    refine ⟨d, ?_, rfl, fun _ => rfl, fun h => absurd h hjk⟩
    rw [call?_eq_some] at hd ⊢
    rwa [← hcalls]

theorem call_of_setCall {t : State} {c d : Call} (stage : Stage) {j : ℕ}
    (hcalls : t.calls = s.calls) (hc : s.call? k = some c) (hd : s.call? j = some d) :
    ∃ d', (t.setCall k c stage).call? j = some d' ∧ d'.account = d.account := by
  by_cases hjk : j = k
  · subst hjk
    obtain rfl := Option.some_inj.mp (hc.symm.trans hd)
    exact ⟨_, (setCall_call? _ _ _ _ _).trans (if_pos rfl), rfl⟩
  · refine ⟨d, ?_, rfl⟩
    rw [setCall_call?, if_neg hjk, call?_eq_some, hcalls]
    exact call?_eq_some.mp hd

theorem not_checked_of_countEvents {rs : List Rule} {j uid t : ℕ} :
    .checked j uid t ∉ s.countEvents k rs := by
  intro h
  obtain ⟨r, -, h⟩ := List.mem_flatMap.mp h
  rcases List.mem_cons.mp h with h | h
  · cases h
  · split at h
    · rcases List.mem_singleton.mp h with h
      cases h
    · cases h

theorem checkers_countEvents (rs : List Rule) (log : List Event) :
    checkers (s.countEvents k rs ++ log) = checkers log := by
  have hnone : checkers (s.countEvents k rs) = [] := by
    refine List.eq_nil_iff_forall_not_mem.mpr fun j hj => ?_
    obtain ⟨uid, t, h⟩ := mem_checkers.mp hj
    exact not_checked_of_countEvents h
  rw [checkers, List.filterMap_append, ← checkers, ← checkers, hnone, List.nil_append]

omit [DecidableEq W] in
theorem Inv.counted {c : Call} {stage : Stage} (hs : s.Inv) (hc : s.call? k = some c)
    (hstage : c.stage = .counting)
    (hfree : blockedFor s.counters s.now (rules c.route c.address c.account) = none)
    (hnext : ∀ t, stage = .forwarding t → t = s.now) :
    (setCall { s with
      counters := countAll s.counters s.now (rules c.route c.address c.account)
      log := s.countEvents k (rules c.route c.address c.account) ++ s.log } k c stage).Inv := by
  have hmem : ∀ j uid t, .checked j uid t ∈
      s.countEvents k (rules c.route c.address c.account) ++ s.log → .checked j uid t ∈ s.log :=
    fun j uid t h => (List.mem_append.mp h).resolve_left not_checked_of_countEvents
  refine ⟨fun acct => ?_, fun j d hd hunchecked uid t h => ?_, fun j d t hd ht hroute => ?_,
    fun j uid t h => ?_, fun uid j t i u d e hj hi hd he => ?_, ?_⟩
  · have hhits := hits_countEvents s k (rules c.route c.address c.account) (.loginAttempts acct)
    have hbirths := births_countEvents s k (rules c.route c.address c.account) (.loginAttempts acct)
    have hrules := login_rules c.route c.address c.account acct
    rw [hrules] at hhits hbirths
    have hw := hs.window acct
    change Window 10 loginLife s.now
      (countAll s.counters s.now (rules c.route c.address c.account) (.loginAttempts acct))
      (births _ (_ ++ s.log)) (hits _ (_ ++ s.log))
    rw [births, List.filterMap_append, ← births, ← births, hits, List.filterMap_append, ← hits,
      ← hits, hhits, hbirths]
    by_cases hown : c.route = .userLogin ∧ acct = c.account
    · have hrule : (⟨.loginAttempts acct, 10, 300⟩ : Rule) ∈ rules c.route c.address c.account :=
        hown.2 ▸ mem_loginRule hown.1
      have hraised : countAll s.counters s.now (rules c.route c.address c.account)
          (.loginAttempts acct) =
          s.counters.incr s.now (.loginAttempts acct) loginLife (.loginAttempts acct) :=
        countAll_of_mem (rules_nodup c.route c.address c.account) hrule
      have hlimit := blockedFor_eq_none hfree _ hrule
      simp only [if_pos hown, List.map_cons, List.map_nil, List.flatMap_cons, List.flatMap_nil,
        List.append_nil]
      rw [hraised]
      have hincr := hw.incr hlimit
      by_cases hzero : s.counters.count s.now (.loginAttempts acct) = 0
      · simpa [hzero] using hincr
      · simpa [hzero] using hincr
    · have hsame : countAll s.counters s.now (rules c.route c.address c.account)
          (.loginAttempts acct) = s.counters (.loginAttempts acct) := by
        refine countAll_of_not_mem fun r hr hkey => ?_
        obtain ⟨-, hroute, hacct⟩ := loginRule hr hkey
        exact hown ⟨hroute, hacct⟩
      rw [hsame, if_neg hown]
      exact hw
  · obtain ⟨d₀, hd₀, -, hother, hself⟩ := account_of_setCall (s := s) rfl hc hd
    by_cases hjk : j = k
    · subst hjk
      exact hs.unchecked j c hc (.inr (.inl hstage)) uid t (hmem _ _ _ h)
    · obtain rfl := hother hjk
      exact hs.unchecked j d₀ hd₀ hunchecked uid t (hmem _ _ _ h)
  · obtain ⟨d₀, hd₀, -, hother, hself⟩ := account_of_setCall (s := s) rfl hc hd
    by_cases hjk : j = k
    · subst hjk
      obtain rfl := hself rfl
      obtain rfl := hnext t ht
      refine List.mem_append_left _ (List.mem_flatMap.mpr ?_)
      exact ⟨⟨.loginAttempts c.account, 10, 300⟩, mem_loginRule hroute, List.mem_cons_self⟩
    · obtain rfl := hother hjk
      exact List.mem_append_right _ (hs.forwarding j d₀ t hd₀ ht hroute)
  · obtain ⟨d, hd, hcounted⟩ := hs.checked j uid t (hmem _ _ _ h)
    obtain ⟨d', hd', hacc⟩ := call_of_setCall (s := s) stage rfl hc hd
    exact ⟨d', hd', List.mem_append_right _ (hacc ▸ hcounted)⟩
  · obtain ⟨d₀, hd₀, hdacc, -⟩ := account_of_setCall (s := s) rfl hc hd
    obtain ⟨e₀, he₀, heacc, -⟩ := account_of_setCall (s := s) rfl hc he
    rw [← hdacc, ← heacc]
    exact hs.shared uid j t i u d₀ e₀ (hmem _ _ _ hj) (hmem _ _ _ hi) hd₀ he₀
  · exact (checkers_countEvents _ _).symm ▸ hs.once

omit [DecidableEq W] in
theorem Inv.checking {c : Call} {stage : Stage} {uid counted : ℕ} (hs : s.Inv)
    (hc : s.call? k = some c) (hstage : c.stage = .forwarding counted)
    (hroute : c.route = .userLogin) (hnext : ¬ Call.Unchecked { c with stage })
    (huniform : ∀ j t d, .checked j uid t ∈ s.log → s.call? j = some d →
      d.account = c.account) :
    (setCall { s with log := .checked k uid counted :: s.log } k c stage).Inv := by
  have hold : c.Unchecked := .inr (.inr ⟨counted, hstage⟩)
  refine ⟨fun acct => ?_, fun j d hd hunchecked uid' t h => ?_, fun j d t hd ht hdroute => ?_,
    fun j uid' t h => ?_, fun uid' j t i u d e hj hi hd he => ?_, ?_⟩
  · exact hs.window acct
  · obtain ⟨d₀, hd₀, -, hother, hself⟩ := account_of_setCall (s := s) rfl hc hd
    by_cases hjk : j = k
    · rw [hself hjk] at hunchecked
      exact hnext hunchecked
    · obtain rfl := hother hjk
      rcases List.mem_cons.mp h with h | h
      · cases h
        exact hjk rfl
      · exact hs.unchecked j d₀ hd₀ hunchecked uid' t h
  · obtain ⟨d₀, hd₀, -, hother, hself⟩ := account_of_setCall (s := s) rfl hc hd
    by_cases hjk : j = k
    · rw [hself hjk] at ht
      exact absurd (Or.inr (Or.inr ⟨t, ht⟩)) hnext
    · obtain rfl := hother hjk
      exact List.mem_cons_of_mem _ (hs.forwarding j d₀ t hd₀ ht hdroute)
  · have hbefore : ∃ d, s.call? j = some d ∧ .counted j (.loginAttempts d.account) t ∈ s.log := by
      rcases List.mem_cons.mp h with h | h
      · cases h
        exact ⟨c, hc, hs.forwarding _ c _ hc hstage hroute⟩
      · exact hs.checked j uid' t h
    obtain ⟨d, hd, hcounted⟩ := hbefore
    obtain ⟨d', hd', hacc⟩ := call_of_setCall (s := s) stage rfl hc hd
    exact ⟨d', hd', List.mem_cons_of_mem _ (hacc ▸ hcounted)⟩
  · obtain ⟨d₀, hd₀, hdacc, -⟩ := account_of_setCall (s := s) rfl hc hd
    obtain ⟨e₀, he₀, heacc, -⟩ := account_of_setCall (s := s) rfl hc he
    rw [← hdacc, ← heacc]
    rcases List.mem_cons.mp hj with hj | hj <;> rcases List.mem_cons.mp hi with hi | hi
    · cases hj
      cases hi
      rw [Option.some_inj.mp (hd₀.symm.trans he₀)]
    · cases hj
      obtain rfl := Option.some_inj.mp (hc.symm.trans hd₀)
      exact (huniform i u e₀ hi he₀).symm
    · cases hi
      obtain rfl := Option.some_inj.mp (hc.symm.trans he₀)
      exact huniform j t d₀ hj hd₀
    · exact hs.shared uid' j t i u d₀ e₀ hj hi hd₀ he₀
  · refine List.nodup_cons.mpr ⟨fun h => ?_, hs.once⟩
    obtain ⟨uid', t, h⟩ := mem_checkers.mp h
    exact hs.unchecked k c hc hold uid' t h

theorem inv_step {a : Action} (hs : s.Inv) (huniform : s.Uniform weight a)
    (h : Did weight s a s') : s'.Inv := by
  cases h with
  | quiet hnow hcounters hlog hmoves => exact hs.quiet hnow hcounters hlog hmoves
  | counted hc hstage hfree hnext => exact hs.counted hc hstage hfree hnext
  | checked hc hstage hroute huid hnext =>
    exact hs.checking hc hstage hroute hnext fun j t d hj hd =>
      huniform _ hc hroute _ huid j t d hj hd

/-! ## The attempts on one account -/

def isAttempt (uid start : ℕ) : Event → Bool
  | .checked _ u t => u = uid ∧ start ≤ t ∧ t ≤ start + loginLife
  | _ => false

/-- The requests counted in a life that had the password of the account checked. -/
def attempts (s : State) (uid start : ℕ) : List ℕ :=
  checkers (s.log.filter (isAttempt uid start))

/-- In no life of a counter of the account are more than ten of its requests forwarded. -/
def AttemptsBounded (s : State) : Prop :=
  ∀ uid k t c start, .checked k uid t ∈ s.log → s.call? k = some c →
    .born (.loginAttempts c.account) start ∈ s.log → (s.attempts uid start).length ≤ 10

def isHit (key : Key) (start : ℕ) : Event → Bool
  | .counted _ k t => k = key ∧ start ≤ t ∧ t ≤ start + loginLife
  | _ => false

def countedCall : Event → Option ℕ
  | .counted k _ _ => some k
  | _ => none

theorem hitsWithin_hits (key : Key) (start : ℕ) (log : List Event) :
    hitsWithin loginLife start (hits key log) = (log.filter (isHit key start)).length := by
  rw [hitsWithin, hits, List.countP_filterMap, ← List.countP_eq_length_filter]
  refine List.countP_congr fun event _ => ?_
  cases event with
  | counted k key' t => by_cases hk : key' = key <;> simp [isHit, hk]
  | _ => simp [isHit]

omit [DecidableEq W] in
theorem Inv.attemptsBounded (hs : s.Inv) : s.AttemptsBounded := by
  intro uid k t c start hk hc hborn
  have hmem : start ∈ births (.loginAttempts c.account) s.log :=
    List.mem_filterMap.mpr ⟨_, hborn, if_pos rfl⟩
  have hbound := (hs.window c.account).bounded start hmem
  rw [hitsWithin_hits] at hbound
  -- every attempt is one of the requests that the key counted
  have hsub : s.attempts uid start ⊆
      (s.log.filter (isHit (.loginAttempts c.account) start)).filterMap countedCall := by
    intro j hj
    obtain ⟨u, t', hj⟩ := mem_checkers.mp hj
    obtain ⟨hlog, hattempt⟩ := List.mem_filter.mp hj
    simp only [isAttempt, decide_eq_true_eq] at hattempt
    obtain ⟨rfl, hwithin⟩ := hattempt
    obtain ⟨d, hd, hcounted⟩ := hs.checked j u t' hlog
    have hacc : d.account = c.account := hs.shared u j t' k t d c hlog hk hd hc
    rw [hacc] at hcounted
    refine List.mem_filterMap.mpr ⟨_, List.mem_filter.mpr ⟨hcounted, ?_⟩, rfl⟩
    simp [isHit, hwithin]
  have hnodup : (s.attempts uid start).Nodup :=
    hs.once.sublist (List.filter_sublist.filterMap _)
  calc (s.attempts uid start).length
      ≤ ((s.log.filter (isHit (.loginAttempts c.account) start)).filterMap countedCall).length :=
        (List.subperm_of_subset hnodup hsub).length_le
    _ ≤ (s.log.filter (isHit (.loginAttempts c.account) start)).length :=
        List.length_filterMap_le _ _
    _ ≤ 10 := hbound

end State

variable [DecidableEq W]

/-- The runs in which all spellings checked for an account share one counter. -/
def uniform (weight : String → W) (hash toLowerCase : String → String) : Machine State Action :=
  (guard weight hash toLowerCase).restrict (State.Uniform weight)

theorem inv_uniform : (uniform weight hash toLowerCase).Invariant State.Inv where
  init s h := by
    obtain ⟨hcounters, hcalls, hlog⟩ := h
    have hcall : ∀ k, s.call? k = none := by
      intro k
      rw [State.call?, hcalls]
    refine ⟨fun account => ?_, fun k c hc => ?_, fun k c t hc => ?_, fun k uid t h => ?_,
      fun uid k t j u c d h => ?_, ?_⟩
    · rw [hcounters, hlog]
      exact (Window.nil 10 _ _)
    · rw [hcall] at hc
      cases hc
    · rw [hcall] at hc
      cases hc
    · rw [hlog] at h
      cases h
    · rw [hlog] at h
      cases h
    · rw [hlog]
      exact List.nodup_nil
  step _ _ _ _ hs h := State.inv_step hs h.1 (State.did_of_step h.2)

/-- In every such run, for any hash and any two ways to compare and to lower a text. -/
theorem login_attempts_bounded (s : State) (h : (uniform weight hash toLowerCase).Reachable s) :
    s.AttemptsBounded := (inv_uniform.reachable h).attemptsBounded

/-- A collation that ignores case and the accents of one letter. -/
def fold (text : String) : List Char :=
  text.toLower.toList.map fun c => if c = 'á' ∨ c = 'à' then 'a' else c

def beforeLogins : State :=
  ⟨0, fun _ => none, [⟨7, "a@b.com", "secret"⟩], fun _ => none, []⟩

/-- A whole login. -/
def guess (passwd : String) (k : ℕ) (email : String) : List Action :=
  [.receive k ⟨"POST", "/user_login", "host",
      ⟨40, true, some email, some ⟨some email, some passwd⟩⟩⟩,
    .readFailures k false, .count k .ok, .forward k false true 0, .finish k .ok]

/-- Logins one after another. -/
def guesses (passwd : String) (emails : List String) : List Action :=
  (emails.zipIdx.map fun (email, k) => guess passwd k email).flatten

/-- Each spelling stays below the limits of its own counters. -/
def threeSpellings : List String :=
  List.replicate 5 "a@b.com" ++ List.replicate 5 "á@b.com" ++ ["à@b.com"]

theorem spellings_evade_bound :
    ∃ s, (guard fold id String.toLower).Reachable s ∧ ¬ s.AttemptsBounded := by
  have hrun : (Machine.runFn (State.step fold id String.toLower) beforeLogins
      (guesses "x" threeSpellings)).map (fun s => ((s.attempts 7 0).length,
        (s.call? 0).map Call.account, decide (Event.checked 0 7 0 ∈ s.log),
        decide (Event.born (.loginAttempts "a@b.com") 0 ∈ s.log))) =
      some (11, some "a@b.com", true, true) := by
    decide +kernel
  obtain ⟨s, hs, hstate⟩ := Option.map_eq_some_iff.mp hrun
  simp only [Prod.mk.injEq, decide_eq_true_eq, Option.map_eq_some_iff] at hstate
  obtain ⟨hlength, ⟨c, hc, haccount⟩, hchecked, hborn⟩ := hstate
  have hinit : (guard fold id String.toLower).Reachable beforeLogins := .init ⟨rfl, rfl, rfl⟩
  refine ⟨s, hinit.runFn hs, fun hbounded => ?_⟩
  have hle := hbounded 7 0 0 c 0 hchecked hc (haccount ▸ hborn)
  rw [hlength] at hle
  exact absurd hle (by decide)

/-- Whatever account it is for, a check is for the spelling of all checks before. -/
def State.OneSpelling (s : State) : Action → Prop
  | .forward k .. => ∀ c ∈ s.call? k, ∀ j ∈ checkers s.log, ∀ d ∈ s.call? j,
      d.account = c.account
  | _ => True

instance (s : State) : (a : Action) → Decidable (s.OneSpelling a)
  | .forward k .. => inferInstanceAs
      (Decidable (∀ c ∈ s.call? k, ∀ j ∈ checkers s.log, ∀ d ∈ s.call? j, d.account = c.account))
  | .tick .. | .setUsers .. | .receive .. | .readFailures .. | .count .. | .finish .. =>
    inferInstanceAs (Decidable True)

theorem State.OneSpelling.uniform {s : State} {a : Action} (h : s.OneSpelling a) :
    s.Uniform weight a := by
  cases a with
  | forward k dbFailed answered status =>
    intro c hc _ uid _ j t d hj hd
    exact h c hc j (mem_checkers.mpr ⟨uid, t, hj⟩) d hd
  | _ => trivial

/-- Eleven right passwords: the last login is turned away. -/
theorem login_attempts_bounded_sample :
    ∃ s, Machine.runFn
        (fun s a => if s.OneSpelling a then s.step fold id String.toLower a else none)
        beforeLogins (guesses "secret" (List.replicate 10 "A@b.com") ++
          (guess "secret" 10 "a@b.com").take 3) = some s ∧
      (s.attempts 7 0).length = 10 ∧ (s.call? 10).map Call.stage =
        some (.replied ⟨429, 1016, "Too many requests", some 300⟩) ∧ s.AttemptsBounded := by
  have hrun : (Machine.runFn
      (fun s a => if s.OneSpelling a then s.step fold id String.toLower a else none)
      beforeLogins (guesses "secret" (List.replicate 10 "A@b.com") ++
        (guess "secret" 10 "a@b.com").take 3)).map
      (fun s => ((s.attempts 7 0).length, (s.call? 10).map Call.stage)) =
      some (10, some (.replied ⟨429, 1016, "Too many requests", some 300⟩)) := by
    decide +kernel
  obtain ⟨s, hs, hstate⟩ := Option.map_eq_some_iff.mp hrun
  simp only [Prod.mk.injEq] at hstate
  have hinit : ((guard fold id String.toLower).restrict State.OneSpelling).Reachable
      beforeLogins := .init ⟨rfl, rfl, rfl⟩
  have hreach : (uniform fold id String.toLower).Reachable s :=
    .restrict_mono (fun _ _ => State.OneSpelling.uniform) (hinit.runFn_restrict hs)
  exact ⟨s, hs, hstate.1, hstate.2, login_attempts_bounded s hreach⟩

end CppChat.Guard
