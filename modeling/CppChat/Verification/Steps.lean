import CppChat.Verification.Codes

/-! # What a step of the verification services does

One case for each way a call or a request can go on.
-/
namespace CppChat.Verification
open Foundation

variable {W : Type} {weight : String → W}

/-- The request holds its lease. -/
def Request.Holds (r : Request) : Prop :=
  match r.stage with
  | .locking | .finished _ => False
  | _ => True

/-- The code of the request was found to match, and is not deleted yet. -/
def Request.Passed (r : Request) : Prop :=
  match r.stage with
  | .changing | .updating _ | .deleting => True
  | _ => False

/-- The request reports success, now or once its lease is released. -/
def Request.Succeeded (r : Request) : Prop :=
  r.stage = .releasing ErrorCodes.success ∨ r.stage = .finished ErrorCodes.success

/-- What no step takes from a request. -/
structure Request.Continues (r r' : Request) : Prop where
  email : r'.email = r.email
  code : r'.code = r.code
  changed : r.changed = true → r'.changed = true
  succeeded : r.Succeeded → r'.Succeeded ∧ r'.checked = r.checked

theorem Request.Continues.refl (r : Request) : r.Continues r := ⟨rfl, rfl, id, fun h => ⟨h, rfl⟩⟩

theorem Request.not_succeeded_of_stage {r : Request}
    (h : r.stage = .locking ∨ r.stage = .checking ∨ r.Passed) : ¬ r.Succeeded := by
  rintro (hsucc | hsucc) <;> simp [hsucc, Request.Passed] at h

theorem Request.Continues.of_stage {r r' : Request} (hemail : r'.email = r.email)
    (hcode : r'.code = r.code) (hchanged : r.changed = true → r'.changed = true)
    (h : r.stage = .locking ∨ r.stage = .checking ∨ r.Passed) : r.Continues r' :=
  ⟨hemail, hcode, hchanged, fun hsucc => absurd hsucc (Request.not_succeeded_of_stage h)⟩

theorem Request.passed_of_changing {r : Request} (h : r.stage = .changing) : r.Passed := by
  simp [Request.Passed, h]

theorem Request.passed_of_updating {r : Request} {uid : ℕ} (h : r.stage = .updating uid) :
    r.Passed := by
  simp [Request.Passed, h]

theorem Request.passed_of_deleting {r : Request} (h : r.stage = .deleting) : r.Passed := by
  simp [Request.Passed, h]

theorem Request.Passed.holds {r : Request} (h : r.Passed) : r.Holds := by
  unfold Request.Passed at h
  unfold Request.Holds
  split at h
  next hstage => simp [hstage]
  next hstage => simp [hstage]
  next hstage => simp [hstage]
  next => cases h

theorem Request.holds_of_checking {r : Request} (h : r.stage = .checking) : r.Holds := by
  simp [Request.Holds, h]

@[simp] theorem Request.at_stage (r : Request) (stage : Stage) : (r.at stage).stage = stage := rfl
@[simp] theorem Request.at_email (r : Request) (stage : Stage) : (r.at stage).email = r.email := rfl
@[simp] theorem Request.at_code (r : Request) (stage : Stage) : (r.at stage).code = r.code := rfl
@[simp] theorem Request.at_checked (r : Request) (stage : Stage) :
    (r.at stage).checked = r.checked := rfl
@[simp] theorem Request.at_changed (r : Request) (stage : Stage) :
    (r.at stage).changed = r.changed := rfl

namespace State

variable {s s' : State} {k j : ℕ}

@[simp] theorem setCall_calls (s : State) (k : ℕ) (c : VerifyCall) :
    (s.setCall k c).calls = Function.update s.calls k (some c) := rfl
@[simp] theorem setCall_request? (s : State) (k j : ℕ) (c : VerifyCall) :
    (s.setCall k c).request? j = s.request? j := rfl
@[simp] theorem setCall_now (s : State) (k : ℕ) (c : VerifyCall) : (s.setCall k c).now = s.now := rfl
@[simp] theorem setCall_codes (s : State) (k : ℕ) (c : VerifyCall) :
    (s.setCall k c).codes = s.codes := rfl
@[simp] theorem setCall_locks (s : State) (k : ℕ) (c : VerifyCall) :
    (s.setCall k c).locks = s.locks := rfl
@[simp] theorem setCall_generated (s : State) (k : ℕ) (c : VerifyCall) :
    (s.setCall k c).generated = s.generated := rfl
@[simp] theorem setCall_log (s : State) (k : ℕ) (c : VerifyCall) : (s.setCall k c).log = s.log := rfl
@[simp] theorem setRequest_calls (s : State) (k : ℕ) (r : Request) :
    (s.setRequest k r).calls = s.calls := rfl
@[simp] theorem setRequest_now (s : State) (k : ℕ) (r : Request) : (s.setRequest k r).now = s.now := rfl
@[simp] theorem setRequest_codes (s : State) (k : ℕ) (r : Request) :
    (s.setRequest k r).codes = s.codes := rfl
@[simp] theorem setRequest_locks (s : State) (k : ℕ) (r : Request) :
    (s.setRequest k r).locks = s.locks := rfl
@[simp] theorem setRequest_generated (s : State) (k : ℕ) (r : Request) :
    (s.setRequest k r).generated = s.generated := rfl
@[simp] theorem setRequest_log (s : State) (k : ℕ) (r : Request) :
    (s.setRequest k r).log = s.log := rfl

theorem request?_eq_some {r : Request} : s.request? k = some r ↔ s.requests k = some (.inl r) := by
  unfold request?
  split
  next q h => simp [h]
  next h =>
    refine ⟨fun hr => (by cases hr), fun hr => absurd hr (h r)⟩

theorem setRequest_request? (s : State) (k j : ℕ) (r : Request) :
    (s.setRequest k r).request? j = if j = k then some r else s.request? j := by
  by_cases h : j = k
  · subst h
    simp [request?, setRequest]
  · simp [request?, setRequest, h]

/-- Everything a step can do. -/
inductive Did (weight : String → W) (s : State) : Action → State → Prop
  | tick {seconds : ℕ} : Did weight s (.tick seconds) { s with now := s.now + seconds }
  | began {k : ℕ} {email : String} (hnew : s.calls k = none) :
      Did weight s (.getVerifyCode k email) (s.setCall k ⟨email, .reading⟩)
  | read {k n : ℕ} {failed : Bool} {email : String} {cell : Cell String}
      (hcall : s.calls k = some ⟨email, .reading⟩) (hcell : s.codes email = some cell)
      (hlive : s.now ≤ cell.deadline) :
      Did weight s (.readCode k failed n) (s.setCall k ⟨email, .mailing cell.value cell.deadline⟩)
  | drew {k n : ℕ} {failed : Bool} {email : String} (hcall : s.calls k = some ⟨email, .reading⟩)
      (hnone : failed = true ∨ s.codes.get s.now email = none) :
      Did weight s (.readCode k failed n)
        (setCall { s with generated := (email, toString n) :: s.generated } k
          ⟨email, .storing (toString n)⟩)
  | stored {k : ℕ} {email code : String} {outcome : Outcome}
      (hcall : s.calls k = some ⟨email, .storing code⟩) :
      Did weight s (.storeCode k outcome) (s.storeCode k ⟨email, .storing code⟩ code outcome)
  | mailed {k deadline : ℕ} {email code : String} {outcome : Outcome}
      (hcall : s.calls k = some ⟨email, .mailing code deadline⟩) :
      Did weight s (.mailCode k outcome)
        (s.mailCode k ⟨email, .mailing code deadline⟩ code deadline outcome)
  | refused {k : ℕ} {kind : Kind} {form : Form} {error : Int} (hnew : s.requests k = none) :
      Did weight s (.submit k kind form)
        { s with requests := Function.update s.requests k (some (.inr error)) }
  | submitted {k : ℕ} {kind : Kind} {form : Form} {r : Request} (hnew : s.requests k = none)
      (hstage : r.stage = .locking) (hchecked : r.checked = none) :
      Did weight s (.submit k kind form) (s.setRequest k r)
  | acquired {k : ℕ} {outcome : Outcome} {r : Request} (hreq : s.request? k = some r)
      (hstage : r.stage = .locking) (hfree : s.locks.get s.now r.email = none)
      (hok : outcome ≠ .failed) :
      Did weight s (.acquire k outcome)
        (setRequest { s with locks := s.locks.set r.email k (s.now + 60) } k
          (r.at (if outcome = .ok then .checking else .finished ErrorCodes.redisError)))
  | turnedAway {k : ℕ} {outcome : Outcome} {r : Request} {error : Int}
      (hreq : s.request? k = some r) (hstage : r.stage = .locking) (herror : error ≠ 0) :
      Did weight s (.acquire k outcome) (s.setRequest k (r.at (.finished error)))
  | matched {k : ℕ} {r : Request} {cell : Cell String} (hreq : s.request? k = some r)
      (hstage : r.stage = .checking) (hcell : s.codes r.email = some cell)
      (hlive : s.now ≤ cell.deadline) (hcode : cell.value = r.code) :
      Did weight s (.check k false)
        (s.setRequest k (Request.at { r with checked := some cell.deadline } .changing))
  | gaveUp {a : Action} {k : ℕ} {r : Request} {error : Int} (hreq : s.request? k = some r)
      (hactor : (∃ failed, a = .check k failed) ∨ (∃ uid o, a = .change k uid o) ∨ ∃ o, a = .update k o)
      (hwork : r.stage = .checking ∨ r.Passed) (herror : error ≠ 0) :
      Did weight s a (s.setRequest k (r.at (.releasing error)))
  | registered {k uid : ℕ} {outcome : Outcome} {r : Request} (hreq : s.request? k = some r)
      (hstage : r.stage = .changing) (hok : outcome ≠ .failed) :
      Did weight s (.change k uid outcome)
        (setRequest { s with users := s.users ++ [⟨uid, r.name, r.email, r.password⟩] } k
          (Request.at { r with changed := true }
            (if outcome = .ok then .deleting else .releasing ErrorCodes.databaseError)))
  | located {k uid : ℕ} {r : Request} {u : User} (hreq : s.request? k = some r)
      (hstage : r.stage = .changing) (hu : u ∈ s.users) (hnamed : u.Named weight r.name)
      (haddressed : u.Addressed weight r.email) :
      Did weight s (.change k uid .ok) (s.setRequest k (r.at (.updating u.uid)))
  | updated {k uid : ℕ} {outcome : Outcome} {r : Request} {u : User} {users : List User}
      (hreq : s.request? k = some r) (hstage : r.stage = .updating uid) (hok : outcome ≠ .failed)
      (hu : u ∈ s.users) (huid : u.uid = uid) (haddressed : u.Addressed weight r.email) :
      Did weight s (.update k outcome)
        (setRequest { s with users, log := .passwordSet uid u.email r.email r.code :: s.log } k
          (Request.at { r with changed := true }
            (if outcome = .ok then .deleting else .releasing ErrorCodes.databaseError)))
  | deleted {k : ℕ} {outcome : Outcome} {r : Request} (hreq : s.request? k = some r)
      (hstage : r.stage = .deleting) :
      Did weight s (.delete k outcome) (s.deleteCode k r outcome)
  | released {k : ℕ} {outcome : Outcome} {r : Request} {error : Int}
      (hreq : s.request? k = some r) (hstage : r.stage = .releasing error) :
      Did weight s (.release k outcome) (s.release k r error outcome)

theorem validate_ok {kind : Kind} {form : Form} {r : Request} (h : validate kind form = .ok r) :
    r.stage = .locking ∧ r.checked = none := by
  unfold validate at h
  dsimp only at h
  split at h
  · cases h
  split at h
  · cases h
  split at h
  · cases h
  · cases h
    exact ⟨rfl, rfl⟩

theorem get_cell {t : Keyspace String String} {now : ℕ} {email code : String}
    (h : t.get now email = some code) :
    ∃ cell, t email = some cell ∧ now ≤ cell.deadline ∧ cell.value = code := by
  obtain ⟨d, hd, hle⟩ := Keyspace.get_eq_some.mp h
  exact ⟨⟨code, d⟩, hd, hle, rfl⟩

theorem did_readCode {c : VerifyCall} {failed : Bool} {n : ℕ} (hcall : s.calls k = some c)
    (hstage : c.stage = .reading) (h : s.readCode k c failed n = some s') :
    Did weight s (.readCode k failed n) s' := by
  obtain ⟨email, stage⟩ := c
  obtain rfl : stage = .reading := hstage
  unfold readCode at h
  split at h
  next code cell hread hcell =>
    cases h
    split at hread
    · cases hread
    · obtain ⟨cell', hcell', hlive, rfl⟩ := get_cell hread
      obtain rfl := Option.some_inj.mp (hcell.symm.trans hcell')
      exact .read hcall hcell hlive
  next hread =>
    split at h
    · cases h
      refine .drew hcall ?_
      cases failed with
      | true => exact .inl rfl
      | false =>
        refine .inr ?_
        cases hget : s.codes.get s.now email with
        | none => rfl
        | some code =>
          obtain ⟨cell, hcell, -, -⟩ := get_cell hget
          exact absurd hcell (hread code cell hget)
    · cases h

theorem did_acquire {r : Request} {outcome : Outcome} (hreq : s.request? k = some r)
    (hstage : r.stage = .locking) : Did weight s (.acquire k outcome) (s.acquire k r outcome) := by
  unfold acquire
  split
  · exact .turnedAway hreq hstage (by split <;> decide)
  next hfree =>
    cases outcome with
    | failed => exact .turnedAway hreq hstage (by decide)
    | ok => exact .acquired hreq hstage (not_not.mp hfree) (by decide)
    | lost => exact .acquired hreq hstage (not_not.mp hfree) (by decide)

theorem did_check {r : Request} {failed : Bool} (hreq : s.request? k = some r)
    (hstage : r.stage = .checking) : Did weight s (.check k failed) (s.check k r failed) := by
  have hwork : r.stage = .checking ∨ r.Passed := .inl hstage
  unfold check
  split
  · exact .gaveUp hreq (.inl ⟨failed, rfl⟩) hwork (by decide)
  next code hread =>
    split
    · exact .gaveUp hreq (.inl ⟨failed, rfl⟩) hwork (by decide)
    next hcode =>
      cases failed with
      | true => cases hread
      | false =>
        obtain ⟨cell, hcell, hlive, rfl⟩ := get_cell hread
        simp only [hcell, Option.map_some]
        exact .matched hreq hstage hcell hlive (not_not.mp hcode)

theorem did_change_gaveUp {r : Request} {uid : ℕ} {outcome : Outcome} {error : Int}
    (hreq : s.request? k = some r) (hstage : r.stage = .changing) (herror : error ≠ 0) :
    Did weight s (.change k uid outcome) (s.setRequest k (r.at (.releasing error))) :=
  .gaveUp hreq (.inr (.inl ⟨uid, outcome, rfl⟩)) (.inr (Request.passed_of_changing hstage)) herror

/-- A step that is taken at one stage of a request. -/
theorem of_stage {stage : Stage} {f : Request → State}
    (h : (match s.request? k with
      | some r => if r.stage = stage then some (f r) else none
      | none => none) = some s') :
    ∃ r, s.request? k = some r ∧ r.stage = stage ∧ f r = s' := by
  split at h
  next r hreq =>
    split at h
    next hstage => exact ⟨r, hreq, hstage, Option.some_inj.mp h⟩
    next => cases h
  next => cases h

variable [DecidableEq W]

theorem did_regUser {r : Request} {uid : ℕ} {outcome : Outcome} (hreq : s.request? k = some r)
    (hstage : r.stage = .changing) (h : s.regUser weight k uid r outcome = some s') :
    Did weight s (.change k uid outcome) s' := by
  unfold regUser at h
  split at h
  · cases h
    exact did_change_gaveUp hreq hstage (by decide)
  next hok =>
    split at h
    next =>
      cases h
      exact did_change_gaveUp hreq hstage (by decide)
    next =>
      split at h
      · cases h
      · cases h
        exact .registered (r := r) hreq hstage hok

theorem did_checkEmail {r : Request} {uid : ℕ} {outcome : Outcome}
    (hreq : s.request? k = some r) (hstage : r.stage = .changing) :
    Did weight s (.change k uid outcome) (s.checkEmail weight k r outcome) := by
  unfold checkEmail
  split
  · exact did_change_gaveUp hreq hstage (by decide)
  next hok =>
    obtain rfl := not_not.mp hok
    split
    · exact did_change_gaveUp hreq hstage (by decide)
    next u hu =>
      have hfound := List.find?_some hu
      rw [decide_eq_true_eq] at hfound
      exact .located hreq hstage (List.mem_of_find?_eq_some hu) hfound.1 hfound.2

theorem did_update {r : Request} {uid : ℕ} {outcome : Outcome} (hreq : s.request? k = some r)
    (hstage : r.stage = .updating uid) :
    Did weight s (.update k outcome) (s.updatePwd weight k uid r outcome) := by
  have hwork : r.stage = .checking ∨ r.Passed := .inr (Request.passed_of_updating hstage)
  have hgaveUp : ∀ error : Int, error ≠ 0 →
      Did weight s (.update k outcome) (s.setRequest k (r.at (.releasing error))) :=
    fun error herror => .gaveUp hreq (.inr (.inr ⟨outcome, rfl⟩)) hwork herror
  unfold updatePwd
  split
  · exact hgaveUp _ (by decide)
  next hok =>
    split
    next u hone =>
      have hu : u ∈ s.users.filter fun u => u.uid = uid ∧ u.Addressed weight r.email :=
        hone ▸ List.mem_singleton_self u
      obtain ⟨hmem, hmatch⟩ := List.mem_filter.mp hu
      rw [decide_eq_true_eq] at hmatch
      exact .updated (r := r) hreq hstage hok hmem hmatch.1 hmatch.2
    next => exact hgaveUp _ (by decide)

theorem did_change {uid : ℕ} {outcome : Outcome}
    (h : s.step weight (.change k uid outcome) = some s') :
    Did weight s (.change k uid outcome) s' := by
  simp only [step] at h
  split at h
  next r hreq =>
    split at h
    · cases h
    next hstage =>
      split at h
      · exact did_regUser hreq (not_not.mp hstage) h
      · cases h
        exact did_checkEmail hreq (not_not.mp hstage)
  next => cases h

theorem did_submit {kind : Kind} {form : Form} (h : s.step weight (.submit k kind form) = some s') :
    Did weight s (.submit k kind form) s' := by
  simp only [step] at h
  split at h
  · cases h
  next hnew =>
    split at h
    next error hvalid =>
      cases h
      exact .refused (not_not.mp hnew)
    next r hvalid =>
      cases h
      obtain ⟨hstage, hchecked⟩ := validate_ok hvalid
      exact .submitted (not_not.mp hnew) hstage hchecked

theorem did_of_step {a : Action} (h : s.step weight a = some s') : Did weight s a s' := by
  cases a with
  | tick seconds =>
    cases h
    exact .tick
  | getVerifyCode k email =>
    obtain ⟨hnew, heq⟩ := Option.ite_none_right_eq_some.mp h
    cases heq
    exact .began hnew
  | readCode k failed n =>
    simp only [step] at h
    split at h
    next c hcall =>
      obtain ⟨hstage, h⟩ := Option.ite_none_right_eq_some.mp h
      exact did_readCode hcall hstage h
    next => cases h
  | storeCode k outcome =>
    simp only [step] at h
    split at h
    next email code hcall =>
      cases h
      exact .stored hcall
    next => cases h
  | mailCode k outcome =>
    simp only [step] at h
    split at h
    next email code deadline hcall =>
      cases h
      exact .mailed hcall
    next => cases h
  | submit k kind form => exact did_submit h
  | acquire k outcome =>
    obtain ⟨r, hreq, hstage, rfl⟩ := of_stage h
    exact did_acquire hreq hstage
  | check k failed =>
    obtain ⟨r, hreq, hstage, rfl⟩ := of_stage h
    exact did_check hreq hstage
  | change k uid outcome => exact did_change h
  | update k outcome =>
    simp only [step] at h
    split at h
    next r hreq =>
      split at h
      next uid hstage =>
        cases h
        exact did_update hreq hstage
      next => cases h
    next => cases h
  | delete k outcome =>
    obtain ⟨r, hreq, hstage, rfl⟩ := of_stage h
    exact .deleted hreq hstage
  | release k outcome =>
    simp only [step] at h
    split at h
    next r hreq =>
      split at h
      next error hstage =>
        cases h
        exact .released hreq hstage
      next => cases h
    next => cases h

omit [DecidableEq W] in
theorem Did.continues {a : Action} {r : Request} (h : Did weight s a s')
    (hr : s.request? k = some r) : ∃ r', s'.request? k = some r' ∧ r.Continues r' := by
  -- only the request that takes the step changes
  have hmoved : ∀ (t : State) (j : ℕ) (q q' : Request), t.requests = s.requests →
      s.request? j = some q → q.Continues q' →
      ∃ r', (t.setRequest j q').request? k = some r' ∧ r.Continues r' := by
    intro t j q q' ht hq hcont
    rw [setRequest_request?]
    by_cases hkj : k = j
    · subst hkj
      obtain rfl := Option.some_inj.mp (hr.symm.trans hq)
      exact ⟨q', if_pos rfl, hcont⟩
    · rw [if_neg hkj]
      refine ⟨r, ?_, .refl r⟩
      rw [request?_eq_some] at hr ⊢
      rwa [ht]
  have hsame : s'.requests = s.requests → ∃ r', s'.request? k = some r' ∧ r.Continues r' := by
    intro hs'
    refine ⟨r, ?_, .refl r⟩
    rw [request?_eq_some] at hr ⊢
    rwa [hs']
  have hother : ∀ j, s.requests j = none → k ≠ j := by
    rintro j hj rfl
    rw [request?_eq_some, hj] at hr
    cases hr
  cases h with
  | tick => exact hsame rfl
  | began hnew => exact hsame rfl
  | read hcall hcell hlive => exact hsame rfl
  | drew hcall hnone => exact hsame rfl
  | stored hcall =>
    refine hsame ?_
    unfold storeCode
    dsimp only
    split <;> rfl
  | mailed hcall =>
    refine hsame ?_
    unfold mailCode
    dsimp only
    split <;> rfl
  | @refused j kind form error hnew =>
    refine ⟨r, ?_, .refl r⟩
    rw [request?_eq_some] at hr ⊢
    simpa [hother j hnew] using hr
  | @submitted j kind form q hnew hstage hchecked =>
    refine ⟨r, ?_, .refl r⟩
    rw [setRequest_request?, if_neg (hother j hnew)]
    exact hr
  | acquired hreq hstage hfree hok => exact hmoved _ _ _ _ rfl hreq (.of_stage rfl rfl id (.inl hstage))
  | turnedAway hreq hstage herror =>
    exact hmoved _ _ _ _ rfl hreq (.of_stage rfl rfl id (.inl hstage))
  | matched hreq hstage hcell hlive hcode =>
    exact hmoved _ _ _ _ rfl hreq (.of_stage rfl rfl id (.inr (.inl hstage)))
  | gaveUp hreq hactor hwork herror =>
    exact hmoved _ _ _ _ rfl hreq (.of_stage rfl rfl id (.inr hwork))
  | registered hreq hstage hok =>
    exact hmoved _ _ _ _ rfl hreq
      (.of_stage rfl rfl (fun _ => rfl) (.inr (.inr (Request.passed_of_changing hstage))))
  | located hreq hstage hu hnamed haddressed =>
    exact hmoved _ _ _ _ rfl hreq
      (.of_stage rfl rfl id (.inr (.inr (Request.passed_of_changing hstage))))
  | updated hreq hstage hok hu huid haddressed =>
    exact hmoved _ _ _ _ rfl hreq
      (.of_stage rfl rfl (fun _ => rfl) (.inr (.inr (Request.passed_of_updating hstage))))
  | deleted hreq hstage =>
    refine hmoved _ _ _ _ ?_ hreq
      (.of_stage rfl rfl id (.inr (.inr (Request.passed_of_deleting hstage))))
    split <;> rfl
  | @released j outcome q error hreq hstage =>
    have hsucc : q.Succeeded → (q.at (.finished error)).Succeeded := by
      rintro (h | h)
      · exact .inr (by simpa [hstage] using h)
      · rw [hstage] at h
        cases h
    refine hmoved _ _ _ _ ?_ hreq ⟨rfl, rfl, id, fun h => ⟨hsucc h, rfl⟩⟩
    split <;> rfl

end State
end CppChat.Verification
