import CppChat.Verification.Steps

/-! # A mailed code stays valid

The service stores a new code without looking again, and the gate deletes the key whatever
it holds by then. While neither hits a code that is promised to somebody, every mailed code
is accepted until it expires or is used.
-/
namespace CppChat.Verification
open Foundation

variable {W : Type} {weight : String → W}

/-- The call mailed the code, or is about to. -/
def VerifyCall.Promises (c : VerifyCall) (code : String) (deadline : ℕ) : Prop :=
  c.stage = .mailing code deadline ∨ c.stage = .mailed code deadline

namespace State

def Promised (s : State) (email : String) (cell : Cell String) : Prop :=
  ∃ k c, s.calls k = some c ∧ c.email = email ∧ c.Promises cell.value cell.deadline

/-- A request succeeded with this very code. -/
def Spent (s : State) (email : String) (cell : Cell String) : Prop :=
  ∃ k r, s.request? k = some r ∧ r.email = email ∧ r.code = cell.value ∧
    r.checked = some cell.deadline ∧ r.Succeeded

/-- No step writes over a promised code, and none deletes one without succeeding with it. -/
def Undisturbed (s : State) : Action → Prop
  | .storeCode k outcome => outcome.tookEffect → ∀ email code,
      s.calls k = some ⟨email, .storing code⟩ → ∀ cell, s.codes email = some cell →
      s.now ≤ cell.deadline → ¬ s.Promised email cell
  | .delete k outcome => outcome.tookEffect → ∀ r, s.request? k = some r →
      ∀ cell, s.codes r.email = some cell → s.now ≤ cell.deadline → s.Promised r.email cell →
      r.code = cell.value ∧ r.checked = some cell.deadline ∧ outcome = .ok
  | _ => True

/-- Every code that a successful call mailed is the one the gate accepts, until it expires or
a request succeeds with it. -/
def MailedCodesValid (s : State) : Prop :=
  ∀ k email code deadline, s.calls k = some ⟨email, .mailed code deadline⟩ → s.now ≤ deadline →
    s.codes.get s.now email = some code ∨ s.Spent email ⟨code, deadline⟩

/-- Every promised code is in the store, or was used. -/
def Kept (s : State) : Prop :=
  ∀ email cell, s.Promised email cell → s.now ≤ cell.deadline →
    s.codes email = some cell ∨ s.Spent email cell

variable {s s' : State} {k : ℕ}

theorem Spent.step {a : Action} {email : String} {cell : Cell String} (h : Did weight s a s')
    (hs : s.Spent email cell) : s'.Spent email cell := by
  obtain ⟨k, r, hr, hemail, hcode, hchecked, hsucc⟩ := hs
  obtain ⟨r', hr', hcont⟩ := h.continues hr
  obtain ⟨hsucc', hchecked'⟩ := hcont.succeeded hsucc
  exact ⟨k, r', hr', hcont.email.trans hemail, hcont.code.trans hcode, hchecked'.trans hchecked,
    hsucc'⟩

/-- A call that makes no promise adds none. -/
theorem promised_of_call {t : State} {e email : String} {stage : CallStage} {cell : Cell String}
    (ht : t.calls = s.calls) (h : (t.setCall k ⟨e, stage⟩).Promised email cell) :
    s.Promised email cell ∨ e = email ∧ (VerifyCall.mk e stage).Promises cell.value cell.deadline := by
  obtain ⟨j, c, hj, hemail, hpromise⟩ := h
  rw [setCall_calls, ht] at hj
  by_cases hjk : j = k
  · subst hjk
    rw [Function.update_self] at hj
    cases hj
    exact .inr ⟨hemail, hpromise⟩
  · rw [Function.update_of_ne hjk] at hj
    exact .inl ⟨j, c, hj, hemail, hpromise⟩

theorem Kept.of_promised (hs : s.Kept) (hcodes : s'.codes = s.codes) (hnow : s.now ≤ s'.now)
    (hspent : ∀ email cell, s.Spent email cell → s'.Spent email cell)
    (hpromised : ∀ email cell, s'.Promised email cell → s.Promised email cell ∨
      s.codes email = some cell) : s'.Kept := by
  intro email cell hp hle
  rw [hcodes]
  rcases hpromised email cell hp with hp | hcell
  · exact (hs email cell hp (Nat.le_trans hnow hle)).imp_right (hspent email cell)
  · exact .inl hcell

/-- The new code takes the place of no promised one. -/
theorem Kept.stored {email code : String} {stage : CallStage} {deadline : ℕ} {log : List Event}
    (hs : s.Kept)
    (hfree : ∀ cell, s.codes email = some cell → s.now ≤ cell.deadline → ¬ s.Promised email cell)
    (hstage : ∀ c d, (VerifyCall.mk email stage).Promises c d → c = code ∧ d = deadline) :
    (setCall { s with codes := s.codes.set email code deadline, log } k ⟨email, stage⟩).Kept := by
  intro e cell hp hle
  rcases promised_of_call (s := s) rfl hp with hold | ⟨rfl, hnew⟩
  · rcases hs e cell hold hle with hcell | hspent
    · have hne : e ≠ email := by
        rintro rfl
        exact hfree cell hcell hle hold
      exact .inl ((Keyspace.set_of_ne hne).trans hcell)
    · exact .inr hspent
  · obtain ⟨value, d⟩ := cell
    obtain ⟨rfl, rfl⟩ := hstage _ _ hnew
    exact .inl Keyspace.set_self

/-- The deleted code was the request's own. -/
theorem Kept.deleted {r r' : Request} {log : List Event} (hs : s.Kept)
    (hspent : ∀ email cell, s.Spent email cell →
      (setRequest { s with codes := s.codes.del r.email, log } k r').Spent email cell)
    (hown : ∀ cell, s.codes r.email = some cell → s.now ≤ cell.deadline → s.Promised r.email cell →
      (setRequest { s with codes := s.codes.del r.email, log } k r').Spent r.email cell) :
    (setRequest { s with codes := s.codes.del r.email, log } k r').Kept := by
  intro e cell hp hle
  rcases hs e cell hp hle with hcell | hold
  · by_cases he : e = r.email
    · subst he
      exact .inr (hown cell hcell hle hp)
    · exact .inl ((Keyspace.del_of_ne he).trans hcell)
  · exact .inr (hspent e cell hold)

theorem not_promises_of_error {email code : String} {deadline : ℕ} {error : Int} :
    ¬ (VerifyCall.mk email (.failed error)).Promises code deadline := by
  simp [VerifyCall.Promises]

theorem kept_step {a : Action} (hs : s.Kept) (hundisturbed : s.Undisturbed a)
    (h : Did weight s a s') : s'.Kept := by
  have hspent : ∀ email cell, s.Spent email cell → s'.Spent email cell :=
    fun _ _ => Spent.step h
  cases h with
  | tick => exact hs.of_promised rfl (Nat.le_add_right _ _) hspent fun _ _ => .inl
  | began hnew =>
    refine hs.of_promised rfl (Nat.le_refl _) hspent fun email cell hp => ?_
    refine (promised_of_call rfl hp).imp_right fun hnew => ?_
    simp [VerifyCall.Promises] at hnew
  | @read k n failed e old hcall hcell hlive =>
    refine hs.of_promised rfl (Nat.le_refl _) hspent fun email cell hp => ?_
    refine (promised_of_call rfl hp).imp_right fun hnew => ?_
    obtain ⟨rfl, hnew⟩ := hnew
    simp only [VerifyCall.Promises, CallStage.mailing.injEq, reduceCtorEq, or_false] at hnew
    rw [hcell, show old = cell from by cases old; cases cell; simp_all]
  | drew hcall hnone =>
    refine hs.of_promised rfl (Nat.le_refl _) hspent fun email cell hp => ?_
    refine (promised_of_call rfl hp).imp_right fun hnew => ?_
    simp [VerifyCall.Promises] at hnew
  | @stored k email code outcome hcall =>
    revert hspent
    unfold storeCode
    split
    next heffect =>
      intro _
      refine hs.stored (hundisturbed heffect email code hcall) fun c d hpromise => ?_
      split at hpromise
      · simp only [VerifyCall.Promises, CallStage.mailing.injEq, reduceCtorEq, or_false] at hpromise
        exact ⟨hpromise.1.symm, hpromise.2.symm⟩
      · exact absurd hpromise not_promises_of_error
    next heffect =>
      intro hspent
      refine hs.of_promised rfl (Nat.le_refl _) hspent fun e cell hp => ?_
      refine (promised_of_call rfl hp).imp_right fun hnew => ?_
      obtain ⟨-, hnew⟩ := hnew
      have hfailed : outcome ≠ .ok := by
        rintro rfl
        exact heffect rfl
      rw [if_neg hfailed] at hnew
      exact absurd hnew not_promises_of_error
  | @mailed k deadline email code outcome hcall =>
    have hpromised : ∀ t : State, t.calls = s.calls → ∀ e cell,
        (t.setCall k ⟨email, if outcome = .ok then .mailed code deadline
          else .failed ErrorCodes.internalError⟩).Promised e cell → s.Promised e cell := by
      intro t ht e cell hp
      rcases promised_of_call ht hp with hold | ⟨rfl, hnew⟩
      · exact hold
      · split at hnew
        · refine ⟨k, _, hcall, rfl, .inl ?_⟩
          simp only [VerifyCall.Promises, CallStage.mailed.injEq, reduceCtorEq, false_or] at hnew
          simp [hnew]
        · exact absurd hnew not_promises_of_error
    revert hspent
    unfold mailCode
    split
    next heffect =>
      intro hspent
      exact hs.of_promised rfl (Nat.le_refl _) hspent fun e cell hp => .inl (hpromised _ rfl e cell hp)
    next heffect =>
      intro hspent
      exact hs.of_promised rfl (Nat.le_refl _) hspent fun e cell hp => .inl (hpromised _ rfl e cell hp)
  | @deleted k outcome r hreq hstage =>
    revert hspent
    unfold deleteCode
    split
    next heffect =>
      intro hspent
      refine hs.deleted hspent fun cell hcell hlive hp => ?_
      obtain ⟨hcode, hchecked, rfl⟩ := hundisturbed heffect r hreq cell hcell hlive hp
      refine ⟨k, r.at (.releasing ErrorCodes.success), ?_, rfl, hcode, hchecked, .inl rfl⟩
      rw [setRequest_request?, if_pos rfl, if_pos rfl]
    next heffect =>
      intro hspent
      exact hs.of_promised rfl (Nat.le_refl _) hspent fun _ _ => .inl
  | @released k outcome r error hreq hstage =>
    revert hspent
    unfold release
    split
    next h =>
      intro hspent
      exact hs.of_promised rfl (Nat.le_refl _) hspent fun _ _ => .inl
    next h =>
      intro hspent
      exact hs.of_promised rfl (Nat.le_refl _) hspent fun _ _ => .inl
  | _ => exact hs.of_promised rfl (Nat.le_refl _) hspent fun _ _ => .inl

end State

variable [DecidableEq W]

/-- The runs whose steps leave the promised codes alone. -/
def undisturbed (weight : String → W) : Machine State Action :=
  (service weight).restrict State.Undisturbed

theorem kept_inv : (undisturbed weight).Invariant State.Kept where
  init s h := by
    obtain ⟨-, -, hcalls, -, -, -⟩ := h
    rintro email cell ⟨k, c, hc, -⟩ -
    simp [hcalls] at hc
  step _ _ _ _ hs h := State.kept_step hs h.1 (State.did_of_step h.2)

/-- In every interleaving of such steps. -/
theorem mailed_codes_valid (s : State) (h : (undisturbed weight).Reachable s) :
    s.MailedCodesValid := by
  intro k email code deadline hcall hle
  have hpromised : s.Promised email ⟨code, deadline⟩ := ⟨k, _, hcall, rfl, .inr rfl⟩
  rcases kept_inv.reachable h email _ hpromised hle with hcell | hspent
  · exact .inl (Keyspace.get_eq_some.mpr ⟨deadline, hcell, hle⟩)
  · exact .inr hspent

def nothingStored : State :=
  ⟨0, fun _ => none, fun _ => none, [], fun _ => none, fun _ => none, [], []⟩

/-- Two calls find no code; each stores and mails its own, and both report success. -/
def twoCalls : List Action :=
  [.getVerifyCode 0 "a@b", .getVerifyCode 1 "a@b", .readCode 0 false 111111,
    .readCode 1 false 222222, .storeCode 0 .ok, .mailCode 0 .ok, .storeCode 1 .ok, .mailCode 1 .ok]

theorem mailed_code_replaced :
    ∃ s, (service (id : String → String)).Reachable s ∧ ¬ s.MailedCodesValid := by
  have hrun : (Machine.runFn (State.step (id : String → String)) nothingStored twoCalls).map
      (fun s => (s.calls 0, s.now, s.codes.get s.now "a@b")) =
      some (some ⟨"a@b", .mailed "111111" 180⟩, 0, some "222222") := by
    decide +kernel
  have hrequests : (Machine.runFn (State.step (id : String → String)) nothingStored twoCalls).map
      State.requests = some fun _ => none := by
    rfl
  obtain ⟨s, hs, hstate⟩ := Option.map_eq_some_iff.mp hrun
  simp only [Prod.mk.injEq] at hstate
  obtain ⟨hcall, hnow, hcode⟩ := hstate
  have hinit : (service (id : String → String)).Reachable nothingStored :=
    .init ⟨rfl, rfl, rfl, rfl, rfl, rfl⟩
  refine ⟨s, hinit.runFn hs, fun hvalid => ?_⟩
  rw [hs, Option.map_some, Option.some_inj] at hrequests
  rcases hvalid 0 _ _ _ hcall (by rw [hnow]; decide) with hget | ⟨k, r, hr, -⟩
  · rw [hcode] at hget
    exact absurd hget (by decide)
  · rw [State.request?_eq_some, hrequests] at hr
    cases hr

/-- A code is stored where none is valid, and only the code a request checked is deleted. -/
def State.Careful (s : State) : Action → Prop
  | .storeCode k _ => ∀ c ∈ s.calls k, s.codes.get s.now c.email = none
  | .delete k outcome => ∀ r ∈ s.request? k, ∀ cell ∈ s.codes r.email,
      r.code = cell.value ∧ r.checked = some cell.deadline ∧ outcome = .ok
  | _ => True

instance (s : State) : (a : Action) → Decidable (s.Careful a)
  | .storeCode k _ => inferInstanceAs (Decidable (∀ c ∈ s.calls k, s.codes.get s.now c.email = none))
  | .delete k outcome => inferInstanceAs (Decidable (∀ r ∈ s.request? k, ∀ cell ∈ s.codes r.email,
      r.code = cell.value ∧ r.checked = some cell.deadline ∧ outcome = .ok))
  | .tick .. | .getVerifyCode .. | .readCode .. | .mailCode .. | .submit .. | .acquire ..
  | .check .. | .change .. | .update .. | .release .. => inferInstanceAs (Decidable True)

theorem State.Careful.undisturbed {s : State} {a : Action} (h : s.Careful a) : s.Undisturbed a := by
  cases a with
  | storeCode k outcome =>
    intro _ email code hcall cell hcell hlive
    have hnone : s.codes.get s.now email = none := h _ hcall
    rw [Keyspace.get_eq_some.mpr ⟨cell.deadline, hcell, hlive⟩] at hnone
    cases hnone
  | delete k outcome => exact fun _ r hr cell hcell _ _ => h r hr cell hcell
  | _ => trivial

/-- The second call mails the code of the first, and a registration uses it. -/
def sameCode : List Action :=
  [.getVerifyCode 0 "a@b", .readCode 0 false 111111, .storeCode 0 .ok, .mailCode 0 .ok, .tick 10,
    .getVerifyCode 1 "a@b", .readCode 1 false 0, .mailCode 1 .ok,
    .submit 2 .register ⟨some "a", some "a@b", some "p", some "p", some "111111"⟩, .acquire 2 .ok,
    .check 2 false, .change 2 7 .ok, .delete 2 .ok]

theorem mailed_codes_valid_sample :
    ∃ s, Machine.runFn (fun s a => if s.Careful a then s.step (id : String → String) a else none)
        nothingStored sameCode = some s ∧
      s.calls 1 = some ⟨"a@b", .mailed "111111" 180⟩ ∧ s.users = [⟨7, "a", "a@b", "p"⟩] ∧
      s.MailedCodesValid := by
  have hrun : (Machine.runFn
      (fun s a => if s.Careful a then s.step (id : String → String) a else none)
      nothingStored sameCode).map (fun s => (s.calls 1, s.users)) =
      some (some ⟨"a@b", .mailed "111111" 180⟩, [⟨7, "a", "a@b", "p"⟩]) := by
    decide +kernel
  obtain ⟨s, hs, hstate⟩ := Option.map_eq_some_iff.mp hrun
  have hinit : ((service (id : String → String)).restrict State.Careful).Reachable nothingStored :=
    .init ⟨rfl, rfl, rfl, rfl, rfl, rfl⟩
  have hreach : (undisturbed (id : String → String)).Reachable s :=
    .restrict_mono (fun _ _ => State.Careful.undisturbed) (hinit.runFn_restrict hs)
  exact ⟨s, hs, congrArg Prod.fst hstate, congrArg Prod.snd hstate, mailed_codes_valid s hreach⟩

end CppChat.Verification
