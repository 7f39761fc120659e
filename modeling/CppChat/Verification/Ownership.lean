import CppChat.Verification.Steps

/-! # A reset proves ownership of an address

The mail goes to the address of the request, byte by byte, and the account is found by the
weights of the columns. Where the two agree up to ASCII case, whoever resets a password has
read a mail sent to the address of the account.
-/
namespace CppChat.Verification
open Foundation

variable {W : Type} {weight : String → W}

namespace State

/-- Whenever a password was set, the code had been mailed to the address of the row. -/
def ProvesOwnership (s : State) : Prop :=
  ∀ newer older uid rowEmail email code,
    s.log = newer ++ .passwordSet uid rowEmail email code :: older →
    ∃ address, .mail address code ∈ older ∧ address.toLower = rowEmail.toLower

/-- Every stored code is mailed, none is presented before, and the row that a reset updates
has the address of the request up to ASCII case. A first mail that fails and is repeated before
the code is presented would do no harm; it is left out too. -/
def Faithful (weight : String → W) (s : State) : Action → Prop
  | .storeCode _ outcome => outcome ≠ .lost
  | .mailCode k outcome => outcome = .failed → ∀ email code deadline,
      s.calls k = some ⟨email, .mailing code deadline⟩ → .mail email code ∈ s.log
  | .check k _ => ∀ r, s.request? k = some r → ∀ j deadline,
      s.calls j = some ⟨r.email, .mailing r.code deadline⟩ → .mail r.email r.code ∈ s.log
  | .update k _ => ∀ r uid, s.request? k = some r → r.stage = .updating uid →
      ∀ u ∈ s.users, u.uid = uid → u.Addressed weight r.email →
      u.email.toLower = r.email.toLower
  | _ => True

/-- A stored code was mailed or is on its way, and an accepted one was mailed. -/
structure Traced (s : State) : Prop where
  cell : ∀ email cell, s.codes email = some cell → .mail email cell.value ∈ s.log ∨
    ∃ k deadline, s.calls k = some ⟨email, .mailing cell.value deadline⟩
  request : ∀ k r, s.request? k = some r → r.Passed → .mail r.email r.code ∈ s.log
  owned : s.ProvesOwnership

variable {s s' : State} {k : ℕ}

theorem ProvesOwnership.of_cons {event : Event} (h : s.ProvesOwnership)
    (hlog : s'.log = event :: s.log)
    (hevent : ∀ uid rowEmail email code, event = .passwordSet uid rowEmail email code →
      ∃ address, .mail address code ∈ s.log ∧ address.toLower = rowEmail.toLower) :
    s'.ProvesOwnership := by
  intro newer older uid rowEmail email code hsplit
  rw [hlog] at hsplit
  cases newer with
  | nil =>
    obtain ⟨rfl, rfl⟩ := List.cons_eq_cons.mp hsplit
    exact hevent uid rowEmail email code rfl
  | cons e newer =>
    obtain ⟨-, htail⟩ := List.cons_eq_cons.mp hsplit
    exact h newer older uid rowEmail email code htail

/-- The step logs at most one event, that sets no password. -/
def LogsNoReset (s t : State) : Prop :=
  t.log = s.log ∨ ∃ event, (∀ uid row e c, event ≠ Event.passwordSet uid row e c) ∧
    t.log = event :: s.log

theorem LogsNoReset.mem {event : Event} (h : LogsNoReset s s') (hmem : event ∈ s.log) :
    event ∈ s'.log := by
  rcases h with h | ⟨_, -, h⟩
  · rwa [h]
  · rw [h]
    exact List.mem_cons_of_mem _ hmem

theorem LogsNoReset.owned (h : LogsNoReset s s') (hs : s.ProvesOwnership) :
    s'.ProvesOwnership := by
  rcases h with h | ⟨event, hevent, h⟩
  · intro newer older uid rowEmail email code hsplit
    exact hs newer older uid rowEmail email code (h ▸ hsplit)
  · refine hs.of_cons h fun uid row e c heq => ?_
    exact absurd heq (hevent uid row e c)

/-- A step of a call that was not on its way to mail. -/
theorem Traced.of_call {t : State} {email : String} {stage : CallStage} (hs : s.Traced)
    (hidle : ∀ e c d, s.calls k ≠ some ⟨e, .mailing c d⟩)
    (hcells : ∀ e cell, t.codes e = some cell → s.codes e = some cell ∨
      e = email ∧ ∃ d, stage = .mailing cell.value d)
    (hcalls : t.calls = s.calls) (hrequests : t.requests = s.requests)
    (hlog : LogsNoReset s t) :
    (t.setCall k ⟨email, stage⟩).Traced := by
  refine ⟨fun e cell hcell => ?_, fun j r hr hpassed => ?_, hlog.owned hs.owned⟩
  · rcases hcells e cell hcell with hcell | ⟨rfl, d, rfl⟩
    · refine (hs.cell e cell hcell).imp hlog.mem ?_
      rintro ⟨j, d, hj⟩
      have hjk : j ≠ k := by
        rintro rfl
        exact hidle _ _ _ hj
      refine ⟨j, d, ?_⟩
      rw [setCall_calls, Function.update_of_ne hjk, hcalls]
      exact hj
    · refine .inr ⟨k, d, ?_⟩
      rw [setCall_calls, Function.update_self]
  · rw [setCall_request?, request?_eq_some, hrequests] at hr
    exact hlog.mem (hs.request j r (request?_eq_some.mpr hr) hpassed)
/-- A step of a request that sets no password. -/
theorem Traced.of_request {t : State} {r' : Request} (hs : s.Traced)
    (hcells : ∀ e cell, t.codes e = some cell → s.codes e = some cell)
    (hcalls : t.calls = s.calls) (hrequests : t.requests = s.requests)
    (hlog : LogsNoReset s t)
    (hpassed : r'.Passed → .mail r'.email r'.code ∈ s.log) : (t.setRequest k r').Traced := by
  refine ⟨fun e cell hcell => ?_, fun j r hr hrpassed => ?_, hlog.owned hs.owned⟩
  · refine (hs.cell e cell (hcells e cell hcell)).imp hlog.mem fun ⟨j, d, hj⟩ => ?_
    exact ⟨j, d, hcalls ▸ hj⟩
  · rw [setRequest_request?] at hr
    split at hr
    next =>
      cases hr
      exact hlog.mem (hpassed hrpassed)
    next =>
      rw [request?_eq_some, hrequests] at hr
      exact hlog.mem (hs.request j r (request?_eq_some.mpr hr) hrpassed)
/-- The call that mailed may leave its stage: the mail is in the log. -/
theorem Traced.mailed {t : State} {email code : String} {deadline : ℕ} {stage : CallStage}
    (hs : s.Traced) (hcall : s.calls k = some ⟨email, .mailing code deadline⟩)
    (hcodes : t.codes = s.codes) (hcalls : t.calls = s.calls) (hrequests : t.requests = s.requests)
    (hlog : LogsNoReset s t) (hmail : .mail email code ∈ t.log) :
    (t.setCall k ⟨email, stage⟩).Traced := by
  refine ⟨fun e cell hcell => ?_, fun j r hr hpassed => ?_, hlog.owned hs.owned⟩
  · rw [setCall_codes, hcodes] at hcell
    rcases hs.cell e cell hcell with hm | ⟨j, d, hj⟩
    · exact .inl (hlog.mem hm)
    · by_cases hjk : j = k
      · subst hjk
        rw [hcall] at hj
        cases hj
        exact .inl hmail
      · refine .inr ⟨j, d, ?_⟩
        rw [setCall_calls, Function.update_of_ne hjk, hcalls]
        exact hj
  · rw [setCall_request?, request?_eq_some, hrequests] at hr
    exact hlog.mem (hs.request j r (request?_eq_some.mpr hr) hpassed)

theorem traced_step {a : Action} (hs : s.Traced) (hfaithful : s.Faithful weight a)
    (h : Did weight s a s') : s'.Traced := by
  cases h with
  | tick => exact ⟨hs.cell, hs.request, hs.owned⟩
  | began hnew =>
    exact hs.of_call (by simp [hnew]) (fun _ _ => .inl) rfl rfl (.inl rfl)
  | read hcall hcell hlive =>
    exact hs.of_call (by simp [hcall]) (fun _ _ => .inl) rfl rfl (.inl rfl)
  | drew hcall hnone =>
    exact hs.of_call (by simp [hcall]) (fun _ _ => .inl) rfl rfl (.inl rfl)
  | @stored k email code outcome hcall =>
    cases outcome with
    | lost => exact absurd rfl hfaithful
    | failed => exact hs.of_call (by simp [hcall]) (fun _ _ => .inl) rfl rfl (.inl rfl)
    | ok =>
      refine hs.of_call (by simp [hcall]) (fun e cell hcell => ?_) rfl rfl
        (.inr ⟨.codeSet email code, by simp, rfl⟩)
      rcases Keyspace.of_set hcell with ⟨rfl, rfl⟩ | hcell
      · exact .inr ⟨rfl, s.now + verifyCodeTtlSeconds, rfl⟩
      · exact .inl hcell
  | @mailed k deadline email code outcome hcall =>
    have hnoReset : LogsNoReset s { s with log := .mail email code :: s.log } :=
      .inr ⟨.mail email code, by simp, rfl⟩
    cases outcome with
    | failed => exact hs.mailed hcall rfl rfl rfl (.inl rfl) (hfaithful rfl email code deadline hcall)
    | ok => exact hs.mailed hcall rfl rfl rfl hnoReset List.mem_cons_self
    | lost => exact hs.mailed hcall rfl rfl rfl hnoReset List.mem_cons_self
  | @refused k kind form error hnew =>
    refine ⟨hs.cell, fun j r hr hpassed => ?_, hs.owned⟩
    rw [request?_eq_some] at hr
    by_cases hjk : j = k
    · subst hjk
      simp at hr
    · exact hs.request j r (request?_eq_some.mpr (by simpa [hjk] using hr)) hpassed
  | submitted hnew hstage hchecked =>
    exact hs.of_request (fun _ _ h => h) rfl rfl (.inl rfl) fun h => by
      simp [Request.Passed, hstage] at h
  | acquired hreq hstage hfree hok =>
    refine hs.of_request (fun _ _ h => h) rfl rfl (.inl rfl) fun h => ?_
    split at h <;> exact h.elim
  | turnedAway hreq hstage herror =>
    exact hs.of_request (fun _ _ h => h) rfl rfl (.inl rfl) fun h => h.elim
  | @matched k r cell hreq hstage hcell hlive hcode =>
    refine hs.of_request (fun _ _ h => h) rfl rfl (.inl rfl) fun _ => ?_
    rcases hs.cell r.email cell hcell with hmail | ⟨j, d, hj⟩
    · rwa [hcode] at hmail
    · rw [hcode] at hj
      exact hfaithful r hreq j d hj
  | gaveUp hreq hactor hwork herror =>
    exact hs.of_request (fun _ _ h => h) rfl rfl (.inl rfl) fun h => h.elim
  | @registered k uid outcome r hreq hstage hok =>
    exact hs.of_request (fun _ _ h => h) rfl rfl (.inl rfl) fun _ =>
      hs.request k r hreq (Request.passed_of_changing hstage)
  | @located k uid r u hreq hstage hu hnamed haddressed =>
    exact hs.of_request (fun _ _ h => h) rfl rfl (.inl rfl) fun _ =>
      hs.request k r hreq (Request.passed_of_changing hstage)
  | @updated k uid outcome r u users hreq hstage hok hu huid haddressed =>
    have hmail := hs.request k r hreq (Request.passed_of_updating hstage)
    have hrow := hfaithful r uid hreq hstage u hu huid haddressed
    refine ⟨fun e cell hcell => ?_, fun j q hq hpassed => ?_, hs.owned.of_cons rfl ?_⟩
    · exact (hs.cell e cell hcell).imp_left (List.mem_cons_of_mem _)
    · refine List.mem_cons_of_mem _ ?_
      rw [setRequest_request?] at hq
      split at hq
      next =>
        cases hq
        exact hmail
      next => exact hs.request j q hq hpassed
    · intro uid' row e c heq
      cases heq
      exact ⟨r.email, hmail, hrow.symm⟩
  | @deleted k outcome r hreq hstage =>
    unfold deleteCode
    split
    · exact hs.of_request (fun _ _ => Keyspace.of_del) rfl rfl
        (.inr ⟨.codeDeleted k r.email, by simp, rfl⟩) fun h => h.elim
    · exact hs.of_request (fun _ _ h => h) rfl rfl (.inl rfl) fun h => h.elim
  | @released k outcome r error hreq hstage =>
    unfold release
    split <;> exact hs.of_request (fun _ _ h => h) rfl rfl (.inl rfl) fun h => h.elim

end State

variable [DecidableEq W]

def faithful (weight : String → W) : Machine State Action :=
  (service weight).restrict (State.Faithful weight)

theorem traced_inv : (faithful weight).Invariant State.Traced where
  init s h := by
    obtain ⟨hcodes, -, -, hrequests, -, hlog⟩ := h
    refine ⟨fun email cell hcell => ?_, fun k r hr => ?_, fun newer older uid row e c hsplit => ?_⟩
    · simp [hcodes] at hcell
    · simp [State.request?_eq_some, hrequests] at hr
    · simp [hlog] at hsplit
  step _ _ _ _ hs h := State.traced_step hs h.1 (State.did_of_step h.2)

/-- In every interleaving of such steps, over any table of users and any collation. -/
theorem reset_proves_ownership (s : State) (h : (faithful weight).Reachable s) :
    s.ProvesOwnership := (traced_inv.reachable h).owned

/-- A collation that ignores case and the accent of one letter. -/
def fold (text : String) : List Char :=
  text.toLower.toList.map fun c => if c = 'á' then 'a' else c

def withUsers (users : List User) : State :=
  ⟨0, fun _ => none, fun _ => none, users, fun _ => none, fun _ => none, [], []⟩

/-- A request for the email resets the password of the account with a mailed code. -/
def resetThrough (email : String) : List Action :=
  [.getVerifyCode 0 email, .readCode 0 false 123456, .storeCode 0 .ok, .mailCode 0 .ok,
    .submit 1 .reset ⟨some "a", some email, some "new", none, some "123456"⟩, .acquire 1 .ok,
    .check 1 false, .change 1 0 .ok, .update 1 .ok]

theorem lookalike_resets : ∃ s, (service fold).Reachable s ∧ ¬ s.ProvesOwnership := by
  have hrun : (Machine.runFn (State.step fold) (withUsers [⟨1, "a", "a@b.com", "old"⟩])
      (resetThrough "á@b.com")).map State.log =
      some [.passwordSet 1 "a@b.com" "á@b.com" "123456", .mail "á@b.com" "123456",
        .codeSet "á@b.com" "123456"] := by
    decide +kernel
  obtain ⟨s, hs, hlog⟩ := Option.map_eq_some_iff.mp hrun
  have hinit : (service fold).Reachable (withUsers [⟨1, "a", "a@b.com", "old"⟩]) :=
    .init ⟨rfl, rfl, rfl, rfl, rfl, rfl⟩
  refine ⟨s, hinit.runFn hs, fun howned => ?_⟩
  obtain ⟨address, hmail, hsame⟩ := howned [] _ _ _ _ _ hlog
  simp only [List.mem_cons, Event.mail.injEq, reduceCtorEq, List.not_mem_nil, or_false] at hmail
  obtain ⟨rfl, -⟩ := hmail
  revert hsame
  decide +kernel

/-- A code is presented once it was mailed, for a row that has the address of the request. -/
def State.Honest (s : State) : Action → Prop
  | .storeCode _ outcome => outcome = .ok
  | .mailCode _ outcome => outcome = .ok
  | .check k _ => ∀ r ∈ s.request? k, .mail r.email r.code ∈ s.log
  | .update k _ => ∀ r ∈ s.request? k, ∀ u ∈ s.users, u.email.toLower = r.email.toLower
  | _ => True

instance (s : State) : (a : Action) → Decidable (s.Honest a)
  | .storeCode _ outcome | .mailCode _ outcome => inferInstanceAs (Decidable (outcome = .ok))
  | .check k _ => inferInstanceAs (Decidable (∀ r ∈ s.request? k, .mail r.email r.code ∈ s.log))
  | .update k _ => inferInstanceAs
      (Decidable (∀ r ∈ s.request? k, ∀ u ∈ s.users, u.email.toLower = r.email.toLower))
  | .tick .. | .getVerifyCode .. | .readCode .. | .submit .. | .acquire .. | .change ..
  | .delete .. | .release .. => inferInstanceAs (Decidable True)

omit [DecidableEq W] in
theorem State.Honest.faithful {s : State} {a : Action} (h : s.Honest a) : s.Faithful weight a := by
  cases a with
  | storeCode k outcome =>
    rintro rfl
    cases h
  | mailCode k outcome =>
    rintro rfl
    cases h
  | check k failed => exact fun r hr _ _ _ => h r hr
  | update k outcome => exact fun r _ hr _ u hu _ _ => h r hr u hu
  | _ => trivial

theorem reset_proves_ownership_sample :
    ∃ s, Machine.runFn (fun s a => if s.Honest a then s.step fold a else none)
        (withUsers [⟨1, "a", "A@b.com", "old"⟩]) (resetThrough "a@b.com") = some s ∧
      s.users = [⟨1, "a", "A@b.com", "new"⟩] ∧ s.ProvesOwnership := by
  have hrun : (Machine.runFn (fun s a => if s.Honest a then s.step fold a else none)
      (withUsers [⟨1, "a", "A@b.com", "old"⟩]) (resetThrough "a@b.com")).map State.users =
      some [⟨1, "a", "A@b.com", "new"⟩] := by
    decide +kernel
  obtain ⟨s, hs, husers⟩ := Option.map_eq_some_iff.mp hrun
  have hinit : ((service fold).restrict State.Honest).Reachable
      (withUsers [⟨1, "a", "A@b.com", "old"⟩]) := .init ⟨rfl, rfl, rfl, rfl, rfl, rfl⟩
  have hreach : (faithful fold).Reachable s :=
    .restrict_mono (fun _ _ => State.Honest.faithful) (hinit.runFn_restrict hs)
  exact ⟨s, hs, husers, reset_proves_ownership s hreach⟩

end CppChat.Verification
