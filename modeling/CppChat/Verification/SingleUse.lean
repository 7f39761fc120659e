import CppChat.Verification.Steps

/-! # A code is used once

While no held lease expires and no code is drawn twice for one email, at most one request
succeeds with a code: the lease keeps the others out between the check and the deletion.
-/
namespace CppChat.Verification
open Foundation

variable {W : Type} {weight : String → W}

/-- The code of the request was accepted: it is still at work, or reported success. -/
def Request.Used (r : Request) : Prop := r.Passed ∨ r.Succeeded

namespace State

/-- A held lease does not expire, and a fresh code was never drawn for this email before. -/
def Orderly (s : State) : Action → Prop
  | .tick seconds => ∀ k r, s.request? k = some r → r.Holds →
      ∀ d, s.locks r.email = some ⟨k, d⟩ → s.now + seconds ≤ d
  | .readCode k failed n => ∀ email, s.calls k = some ⟨email, .reading⟩ →
      (failed = true ∨ s.codes.get s.now email = none) → (email, toString n) ∉ s.generated
  | _ => True

/-- Every code in use was drawn. -/
structure Drawn (s : State) : Prop where
  cell : ∀ email cell, s.codes email = some cell → (email, cell.value) ∈ s.generated
  call : ∀ k email code, s.calls k = some ⟨email, .storing code⟩ → (email, code) ∈ s.generated
  request : ∀ k r, s.request? k = some r → r.Used → (r.email, r.code) ∈ s.generated

/-- A lease at work is in the store under the name of its request. -/
def Held (s : State) : Prop :=
  ∀ k r, s.request? k = some r → r.Holds → ∃ d, s.locks r.email = some ⟨k, d⟩ ∧ s.now ≤ d

/-- A code about to be stored is nowhere else, and a code that was used up is nowhere at all. -/
structure Single (s : State) : Prop where
  pending_call : ∀ k j email code, s.calls k = some ⟨email, .storing code⟩ →
    s.calls j = some ⟨email, .storing code⟩ → k = j
  pending_cell : ∀ k email code, s.calls k = some ⟨email, .storing code⟩ →
    ∀ cell, s.codes email = some cell → cell.value ≠ code
  pending_request : ∀ k email code, s.calls k = some ⟨email, .storing code⟩ →
    ∀ j r, s.request? j = some r → r.Used → r.email = email → r.code ≠ code
  spent_cell : ∀ k r, s.request? k = some r → r.Succeeded →
    ∀ cell, s.codes r.email = some cell → cell.value ≠ r.code
  spent_request : ∀ k r, s.request? k = some r → r.Succeeded → ∀ j q, s.request? j = some q →
    q.Used → q.email = r.email → q.code = r.code → j = k

structure Inv (s : State) : Prop where
  drawn : s.Drawn
  held : s.Held
  single : s.Single

/-- The step brings no code to a new place. -/
structure Fades (s s' : State) : Prop where
  calls : ∀ k email code, s'.calls k = some ⟨email, .storing code⟩ →
    s.calls k = some ⟨email, .storing code⟩
  cells : ∀ email cell, s'.codes email = some cell → s.codes email = some cell
  used : ∀ k r', s'.request? k = some r' → r'.Used → ∃ r, s.request? k = some r ∧ r.Used ∧
    r.email = r'.email ∧ r.code = r'.code ∧ (r'.Succeeded → r.Succeeded)
  generated : s'.generated = s.generated

variable {s s' : State} {k : ℕ}

theorem Fades.drawn (h : Fades s s') (hs : s.Drawn) : s'.Drawn where
  cell email cell hcell := by
    rw [h.generated]
    exact hs.cell email cell (h.cells email cell hcell)
  call k email code hcall := by
    rw [h.generated]
    exact hs.call k email code (h.calls k email code hcall)
  request k r hreq hused := by
    obtain ⟨q, hq, hqused, hemail, hcode, -⟩ := h.used k r hreq hused
    rw [h.generated, ← hemail, ← hcode]
    exact hs.request k q hq hqused

theorem Fades.single (h : Fades s s') (hs : s.Single) : s'.Single where
  pending_call k j email code hk hj :=
    hs.pending_call k j email code (h.calls k email code hk) (h.calls j email code hj)
  pending_cell k email code hk cell hcell :=
    hs.pending_cell k email code (h.calls k email code hk) cell (h.cells email cell hcell)
  pending_request k email code hk j r hr hused hemail := by
    obtain ⟨q, hq, hqused, hqe, hqc, -⟩ := h.used j r hr hused
    rw [← hqc]
    exact hs.pending_request k email code (h.calls k email code hk) j q hq hqused
      (hqe.trans hemail)
  spent_cell k r hr hsucc cell hcell := by
    obtain ⟨q, hq, -, hqe, hqc, hqs⟩ := h.used k r hr (.inr hsucc)
    rw [← hqc]
    refine hs.spent_cell k q hq (hqs hsucc) cell ?_
    rw [hqe]
    exact h.cells r.email cell hcell
  spent_request k r hr hsucc j q hq hused hemail hcode := by
    obtain ⟨r₀, hr₀, -, hre, hrc, hrs⟩ := h.used k r hr (.inr hsucc)
    obtain ⟨q₀, hq₀, hqused, hqe, hqc, -⟩ := h.used j q hq hused
    refine hs.spent_request k r₀ hr₀ (hrs hsucc) j q₀ hq₀ hqused ?_ ?_
    · rw [hqe, hemail, hre]
    · rw [hqc, hcode, hrc]

/-- A step of one call that leaves it past storing, or before it. -/
theorem Fades.of_call {t : State} {email : String} {stage : CallStage}
    (hcells : ∀ email cell, t.codes email = some cell → s.codes email = some cell)
    (hcalls : t.calls = s.calls) (hreq : t.requests = s.requests)
    (hgen : t.generated = s.generated) (hstage : ∀ code, stage ≠ .storing code) :
    Fades s (t.setCall k ⟨email, stage⟩) where
  calls j e code hj := by
    rw [setCall_calls, hcalls] at hj
    by_cases hjk : j = k
    · subst hjk
      rw [Function.update_self] at hj
      cases hj
      exact absurd rfl (hstage code)
    · rwa [Function.update_of_ne hjk] at hj
  cells := hcells
  used j r hr hused := by
    refine ⟨r, ?_, hused, rfl, rfl, id⟩
    rw [setCall_request?, request?_eq_some, hreq] at hr
    exact request?_eq_some.mpr hr
  generated := hgen

/-- A step of one request that finds no code to match. -/
theorem Fades.of_request {t : State} {r' : Request}
    (hcells : ∀ email cell, t.codes email = some cell → s.codes email = some cell)
    (hcalls : t.calls = s.calls) (hreq : t.requests = s.requests)
    (hgen : t.generated = s.generated)
    (hused : r'.Used → ∃ r, s.request? k = some r ∧ r.Used ∧
      r.email = r'.email ∧ r.code = r'.code ∧ (r'.Succeeded → r.Succeeded)) :
    Fades s (t.setRequest k r') where
  calls j e code hj := by
    rwa [setRequest_calls, hcalls] at hj
  cells := hcells
  used j q hq hqused := by
    rw [setRequest_request?] at hq
    split at hq
    next hjk =>
      subst hjk
      cases hq
      exact hused hqused
    next =>
      refine ⟨q, ?_, hqused, rfl, rfl, id⟩
      rw [request?_eq_some, hreq] at hq
      exact request?_eq_some.mpr hq
  generated := hgen

theorem Held.of_request {t : State} {r' : Request} (hs : s.Held) (hlocks : t.locks = s.locks)
    (hnow : t.now = s.now) (hreq : t.requests = s.requests)
    (hholds : r'.Holds → ∃ r, s.request? k = some r ∧ r.Holds ∧ r.email = r'.email) :
    (t.setRequest k r').Held := by
  intro j q hq hqholds
  rw [setRequest_locks, setRequest_now, hlocks, hnow]
  rw [setRequest_request?] at hq
  split at hq
  next hjk =>
    subst hjk
    cases hq
    obtain ⟨r, hr, hrholds, hemail⟩ := hholds hqholds
    rw [← hemail]
    exact hs j r hr hrholds
  next =>
    rw [request?_eq_some, hreq] at hq
    exact hs j q (request?_eq_some.mpr hq) hqholds

/-- Two requests for one email do not hold the lease together. -/
theorem Held.unique (hs : s.Held) {j : ℕ} {r q : Request} (hr : s.request? k = some r)
    (hq : s.request? j = some q) (hrholds : r.Holds) (hqholds : q.Holds)
    (hemail : q.email = r.email) : j = k := by
  obtain ⟨d, hd, -⟩ := hs k r hr hrholds
  obtain ⟨d', hd', -⟩ := hs j q hq hqholds
  rw [hemail, hd] at hd'
  cases hd'
  rfl

theorem Held.acquired (hs : s.Held) {r : Request} {stage : Stage}
    (hfree : s.locks.get s.now r.email = none) :
    (setRequest { s with locks := s.locks.set r.email k (s.now + 60) } k (r.at stage)).Held := by
  intro j q hq hqholds
  rw [setRequest_request?] at hq
  split at hq
  next hjk =>
    subst hjk
    cases hq
    exact ⟨s.now + 60, Keyspace.set_self, Nat.le_add_right _ _⟩
  next hjk =>
    obtain ⟨d, hd, hle⟩ := hs j q hq hqholds
    have hne : q.email ≠ r.email := by
      intro heq
      rw [heq] at hd
      rw [Keyspace.get_eq_some.mpr ⟨d, hd, hle⟩] at hfree
      cases hfree
    exact ⟨d, (Keyspace.set_of_ne hne).trans hd, hle⟩

/-- A release removes at most the lock of its own request. -/
theorem release_locks {r : Request} {error : Int} {outcome : Outcome} {email : String}
    {cell : Cell ℕ} (hcell : s.locks email = some cell) (hother : cell.value ≠ k) :
    (s.release k r error outcome).locks email = some cell := by
  unfold release
  rw [setRequest_locks]
  split
  next h =>
    obtain ⟨-, hget⟩ := h
    have hne : email ≠ r.email := by
      intro heq
      obtain ⟨d, hd, -⟩ := Keyspace.get_eq_some.mp hget
      rw [← heq, hcell] at hd
      cases hd
      exact hother rfl
    exact (Keyspace.del_of_ne hne).trans hcell
  next => exact hcell

theorem Held.released (hs : s.Held) {r : Request} {error : Int} {outcome : Outcome} :
    (s.release k r error outcome).Held := by
  intro j q hq hqholds
  by_cases hjk : j = k
  · subst hjk
    rw [release, setRequest_request?, if_pos rfl] at hq
    cases hq
    exact absurd hqholds id
  · have hq' : s.request? j = some q := by
      rw [release, setRequest_request?, if_neg hjk] at hq
      split at hq <;> exact hq
    obtain ⟨d, hd, hle⟩ := hs j q hq' hqholds
    have hnow : (s.release k r error outcome).now = s.now := by
      rw [release, setRequest_now]
      split <;> rfl
    rw [hnow]
    exact ⟨d, release_locks hd hjk, hle⟩

/-- The service draws a fresh code. -/
theorem drew_inv {email code : String} (hs : s.Inv)
    (hfresh : (email, code) ∉ s.generated) :
    (setCall { s with generated := (email, code) :: s.generated } k ⟨email, .storing code⟩).Inv := by
  -- every other call that is about to store was there before
  have hold : ∀ j e c, Function.update s.calls k (some ⟨email, .storing code⟩) j =
      some ⟨e, .storing c⟩ → j = k ∧ e = email ∧ c = code ∨ s.calls j = some ⟨e, .storing c⟩ := by
    intro j e c hj
    by_cases hjk : j = k
    · subst hjk
      rw [Function.update_self] at hj
      cases hj
      exact .inl ⟨rfl, rfl, rfl⟩
    · rw [Function.update_of_ne hjk] at hj
      exact .inr hj
  refine ⟨⟨?_, ?_, ?_⟩, hs.held, ⟨?_, ?_, ?_, hs.single.spent_cell, hs.single.spent_request⟩⟩
  · intro e cell hcell
    exact List.mem_cons_of_mem _ (hs.drawn.cell e cell hcell)
  · intro j e c hj
    rcases hold j e c hj with ⟨-, rfl, rfl⟩ | hj
    · exact List.mem_cons_self
    · exact List.mem_cons_of_mem _ (hs.drawn.call j e c hj)
  · intro j r hr hused
    exact List.mem_cons_of_mem _ (hs.drawn.request j r hr hused)
  · intro i j e c hi hj
    rcases hold i e c hi with ⟨rfl, rfl, rfl⟩ | hi' <;>
      rcases hold j _ _ hj with ⟨rfl, he, hc⟩ | hj'
    · rfl
    · exact absurd (hs.drawn.call j _ _ hj') hfresh
    · rw [he, hc] at hi'
      exact absurd (hs.drawn.call i _ _ hi') hfresh
    · exact hs.single.pending_call i j e c hi' hj'
  · intro j e c hj cell hcell
    rcases hold j e c hj with ⟨-, rfl, rfl⟩ | hj
    · rintro rfl
      exact hfresh (hs.drawn.cell e cell hcell)
    · exact hs.single.pending_cell j e c hj cell hcell
  · intro j e c hj i r hr hused hemail
    rcases hold j e c hj with ⟨-, rfl, rfl⟩ | hj
    · rintro rfl
      rw [← hemail] at hfresh
      exact hfresh (hs.drawn.request i r hr hused)
    · exact hs.single.pending_request j e c hj i r hr hused hemail

/-- The service stores the code it drew. -/
theorem stored_inv {email code : String} {stage : CallStage} {deadline : ℕ} {log : List Event}
    (hs : s.Inv)
    (hcall : s.calls k = some ⟨email, .storing code⟩) (hstage : ∀ c, stage ≠ .storing c) :
    (setCall { s with codes := s.codes.set email code deadline, log } k ⟨email, stage⟩).Inv := by
  have hold : ∀ j e c, Function.update s.calls k (some ⟨email, stage⟩) j =
      some ⟨e, .storing c⟩ → j ≠ k ∧ s.calls j = some ⟨e, .storing c⟩ := by
    intro j e c hj
    by_cases hjk : j = k
    · subst hjk
      rw [Function.update_self] at hj
      cases hj
      exact absurd rfl (hstage c)
    · rw [Function.update_of_ne hjk] at hj
      exact ⟨hjk, hj⟩
  have hcells : ∀ e cell, s.codes.set email code deadline e = some cell →
      e = email ∧ cell.value = code ∨ s.codes e = some cell := by
    intro e cell hcell
    rcases Keyspace.of_set hcell with ⟨he, rfl⟩ | hcell
    · exact .inl ⟨he, rfl⟩
    · exact .inr hcell
  refine ⟨⟨?_, ?_, hs.drawn.request⟩, hs.held,
    ⟨?_, ?_, ?_, ?_, hs.single.spent_request⟩⟩
  · intro e cell hcell
    rcases hcells e cell hcell with ⟨rfl, rfl⟩ | hcell
    · exact hs.drawn.call k _ _ hcall
    · exact hs.drawn.cell e cell hcell
  · intro j e c hj
    exact hs.drawn.call j e c (hold j e c hj).2
  · intro i j e c hi hj
    exact hs.single.pending_call i j e c (hold i e c hi).2 (hold j e c hj).2
  · intro j e c hj cell hcell
    obtain ⟨hjk, hj'⟩ := hold j e c hj
    rcases hcells e cell hcell with ⟨rfl, rfl⟩ | hcell'
    · rintro rfl
      exact hjk (hs.single.pending_call j k _ _ hj' hcall)
    · exact hs.single.pending_cell j e c hj' cell hcell'
  · intro j e c hj
    exact hs.single.pending_request j e c (hold j e c hj).2
  · intro j r hr hsucc cell hcell
    rcases hcells r.email cell hcell with ⟨he, rfl⟩ | hcell
    · exact (hs.single.pending_request k email _ hcall j r hr (.inr hsucc) he).symm
    · exact hs.single.spent_cell j r hr hsucc cell hcell

/-- The gate accepts a code. -/
theorem matched_inv {r : Request} {cell : Cell String} (hs : s.Inv)
    (hreq : s.request? k = some r) (hstage : r.stage = .checking)
    (hcell : s.codes r.email = some cell) (hcode : cell.value = r.code) :
    (s.setRequest k (Request.at { r with checked := some cell.deadline } .changing)).Inv := by
  have hold : ∀ j q, (s.setRequest k
      (Request.at { r with checked := some cell.deadline } .changing)).request? j = some q →
      (j = k ∧ q.email = r.email ∧ q.code = r.code ∧ ¬ q.Succeeded) ∨ s.request? j = some q := by
    intro j q hq
    rw [setRequest_request?] at hq
    split at hq
    next hjk =>
      cases hq
      exact .inl ⟨hjk, rfl, rfl, by simp [Request.Succeeded]⟩
    next => exact .inr hq
  have hholds := Request.holds_of_checking hstage
  refine ⟨⟨hs.drawn.cell, hs.drawn.call, ?_⟩,
    hs.held.of_request rfl rfl rfl fun _ => ⟨r, hreq, hholds, rfl⟩,
    ⟨hs.single.pending_call, hs.single.pending_cell, ?_, ?_, ?_⟩⟩
  · intro j q hq hused
    rcases hold j q hq with ⟨-, he, hc, -⟩ | hq
    · rw [he, hc, ← hcode]
      exact hs.drawn.cell r.email cell hcell
    · exact hs.drawn.request j q hq hused
  · intro j e c hj i q hq hused hemail
    rcases hold i q hq with ⟨-, he, hc, -⟩ | hq
    · rw [hc, ← hcode]
      rw [← he, hemail] at hcell
      exact hs.single.pending_cell j e c hj cell hcell
    · exact hs.single.pending_request j e c hj i q hq hused hemail
  · intro j q hq hsucc
    rcases hold j q hq with ⟨-, -, -, hnot⟩ | hq
    · exact absurd hsucc hnot
    · exact hs.single.spent_cell j q hq hsucc
  · intro j q hq hsucc i p hp hused hemail hpcode
    rcases hold j q hq with ⟨-, -, -, hnot⟩ | hq
    · exact absurd hsucc hnot
    rcases hold i p hp with ⟨-, he, hc, -⟩ | hp
    · -- the code of a request that succeeded is no longer stored
      rw [← he, hemail] at hcell
      refine absurd ?_ (hs.single.spent_cell j q hq hsucc cell hcell)
      rw [hcode, ← hc, hpcode]
    · exact hs.single.spent_request j q hq hsucc i p hp hused hemail hpcode

/-- The gate deletes the code: no other request of this email was at work. -/
theorem deleted_inv {r : Request} {log : List Event} (hs : s.Inv)
    (hreq : s.request? k = some r) (hstage : r.stage = .deleting) :
    (setRequest { s with codes := s.codes.del r.email, log } k
      (r.at (.releasing ErrorCodes.success))).Inv := by
  have hpassed := Request.passed_of_deleting hstage
  have hold : ∀ j q, (setRequest { s with codes := s.codes.del r.email, log } k
      (r.at (.releasing ErrorCodes.success))).request? j = some q →
      (j = k ∧ q.email = r.email ∧ q.code = r.code) ∨ j ≠ k ∧ s.request? j = some q := by
    intro j q hq
    rw [setRequest_request?] at hq
    split at hq
    next hjk =>
      cases hq
      exact .inl ⟨hjk, rfl, rfl⟩
    next hjk => exact .inr ⟨hjk, hq⟩
  refine ⟨⟨fun e cell hcell => hs.drawn.cell e cell (Keyspace.of_del hcell), hs.drawn.call, ?_⟩,
    hs.held.of_request rfl rfl rfl fun _ => ⟨r, hreq, hpassed.holds, rfl⟩,
    ⟨hs.single.pending_call, fun j e c hj cell hcell =>
      hs.single.pending_cell j e c hj cell (Keyspace.of_del hcell), ?_, ?_, ?_⟩⟩
  · intro j q hq hused
    rcases hold j q hq with ⟨-, he, hc⟩ | ⟨-, hq⟩
    · rw [he, hc]
      exact hs.drawn.request k r hreq (.inl hpassed)
    · exact hs.drawn.request j q hq hused
  · intro j e c hj i q hq hused hemail
    rcases hold i q hq with ⟨-, he, hc⟩ | ⟨-, hq⟩
    · rw [hc]
      exact hs.single.pending_request j e c hj k r hreq (.inl hpassed) (he.symm.trans hemail)
    · exact hs.single.pending_request j e c hj i q hq hused hemail
  · intro j q hq hsucc cell hcell
    rcases hold j q hq with ⟨-, he, -⟩ | ⟨-, hq⟩
    · rw [he] at hcell
      exact absurd hcell (by simp)
    · exact hs.single.spent_cell j q hq hsucc cell (Keyspace.of_del hcell)
  · intro j q hq hsucc i p hp hused hemail hcode
    rcases hold j q hq with ⟨rfl, he, hc⟩ | ⟨hjk, hq'⟩ <;>
      rcases hold i p hp with ⟨rfl, hie, hic⟩ | ⟨hik, hp'⟩
    · rfl
    · rcases hused with hppassed | hpsucc
      · exact hs.held.unique hreq hp' hpassed.holds hppassed.holds (hemail.trans he)
      · exact (hs.single.spent_request i p hp' hpsucc j r hreq (.inl hpassed)
          (he.symm.trans hemail.symm) (hc.symm.trans hcode.symm)).symm
    · exact hs.single.spent_request j q hq' hsucc i r hreq (.inl hpassed)
        (hie.symm.trans hemail) (hic.symm.trans hcode)
    · exact hs.single.spent_request j q hq' hsucc i p hp' hused hemail hcode

/-- A step of a request that keeps it at work, or ends it without success. -/
theorem request_inv {t : State} {r r' : Request} (hs : s.Inv) (hreq : s.request? k = some r)
    (hcells : ∀ email cell, t.codes email = some cell → s.codes email = some cell)
    (hlocks : t.locks = s.locks) (hnow : t.now = s.now) (hcalls : t.calls = s.calls)
    (hrequests : t.requests = s.requests) (hgen : t.generated = s.generated)
    (hemail : r'.email = r.email) (hcode : r'.code = r.code) (hholds : r'.Holds → r.Holds)
    (hpassed : r'.Passed → r.Passed) (hsucc : ¬ r'.Succeeded) : (t.setRequest k r').Inv := by
  have hfades : Fades s (t.setRequest k r') := by
    refine .of_request hcells hcalls hrequests hgen fun hused => ?_
    refine ⟨r, hreq, .inl (hpassed ?_), hemail.symm, hcode.symm, fun h => absurd h hsucc⟩
    exact hused.resolve_right hsucc
  refine ⟨hfades.drawn hs.drawn, ?_, hfades.single hs.single⟩
  exact hs.held.of_request hlocks hnow hrequests fun h => ⟨r, hreq, hholds h, hemail.symm⟩

theorem call_inv {t : State} {email : String} {stage : CallStage} (hs : s.Inv)
    (hcells : ∀ email cell, t.codes email = some cell → s.codes email = some cell)
    (hlocks : t.locks = s.locks) (hnow : t.now = s.now) (hcalls : t.calls = s.calls)
    (hrequests : t.requests = s.requests) (hgen : t.generated = s.generated)
    (hstage : ∀ code, stage ≠ .storing code) : (t.setCall k ⟨email, stage⟩).Inv := by
  have hfades : Fades s (t.setCall k ⟨email, stage⟩) :=
    .of_call hcells hcalls hrequests hgen hstage
  refine ⟨hfades.drawn hs.drawn, fun j r hr hholds => ?_, hfades.single hs.single⟩
  rw [setCall_request?, request?_eq_some, hrequests] at hr
  rw [setCall_locks, setCall_now, hlocks, hnow]
  exact hs.held j r (request?_eq_some.mpr hr) hholds

theorem not_succeeded_of_error {r : Request} {error : Int} (herror : error ≠ 0) :
    ¬ (r.at (.releasing error)).Succeeded ∧ ¬ (r.at (.finished error)).Succeeded := by
  simp [Request.Succeeded, ErrorCodes.success, herror]

theorem inv_step {a : Action} (hs : s.Inv) (horderly : s.Orderly a) (h : Did weight s a s') :
    s'.Inv := by
  cases h with
  | @tick seconds =>
    refine ⟨⟨hs.drawn.cell, hs.drawn.call, hs.drawn.request⟩, fun k r hr hholds => ?_,
      ⟨hs.single.pending_call, hs.single.pending_cell, hs.single.pending_request,
        hs.single.spent_cell, hs.single.spent_request⟩⟩
    obtain ⟨d, hd, -⟩ := hs.held k r hr hholds
    exact ⟨d, hd, horderly k r hr hholds d hd⟩
  | began hnew =>
    exact call_inv hs (fun _ _ h => h) rfl rfl rfl rfl rfl (by simp)
  | read hcall hcell hlive =>
    exact call_inv hs (fun _ _ h => h) rfl rfl rfl rfl rfl (by simp)
  | drew hcall hnone => exact drew_inv hs (horderly _ hcall hnone)
  | @stored k email code outcome hcall =>
    unfold storeCode
    split
    next =>
      refine stored_inv hs hcall fun c => ?_
      split <;> simp
    next =>
      refine call_inv hs (fun _ _ h => h) rfl rfl rfl rfl rfl fun c => ?_
      split <;> simp
  | @mailed k deadline email code outcome hcall =>
    unfold mailCode
    refine call_inv hs ?_ ?_ ?_ ?_ ?_ ?_ fun c => ?_
    · split <;> exact fun _ _ h => h
    any_goals split <;> rfl
    split <;> simp
  | @refused k kind form error hnew =>
    have hsub : ∀ j r, State.request?
        { s with requests := Function.update s.requests k (some (.inr error)) } j = some r →
        s.request? j = some r := by
      intro j r hr
      rw [request?_eq_some] at hr ⊢
      by_cases hjk : j = k
      · subst hjk
        simp at hr
      · simpa [hjk] using hr
    have hfades : Fades s
        { s with requests := Function.update s.requests k (some (.inr error)) } :=
      ⟨fun _ _ _ h => h, fun _ _ h => h,
        fun j r hr hused => ⟨r, hsub j r hr, hused, rfl, rfl, id⟩, rfl⟩
    exact ⟨hfades.drawn hs.drawn, fun j r hr => hs.held j r (hsub j r hr),
      hfades.single hs.single⟩
  | @submitted k kind form r hnew hstage hchecked =>
    have hfades : Fades s (s.setRequest k r) :=
      .of_request (fun _ _ h => h) rfl rfl rfl fun hused => by
        simp [Request.Used, Request.Passed, Request.Succeeded, hstage] at hused
    refine ⟨hfades.drawn hs.drawn, hs.held.of_request rfl rfl rfl fun hholds => ?_,
      hfades.single hs.single⟩
    simp [Request.Holds, hstage] at hholds
  | @acquired k outcome r hreq hstage hfree hok =>
    refine ⟨?_, hs.held.acquired hfree, ?_⟩
    all_goals
      have hfades : Fades s (setRequest { s with locks := s.locks.set r.email k (s.now + 60) } k
          (r.at (if outcome = .ok then .checking else .finished ErrorCodes.redisError))) :=
        .of_request (fun _ _ h => h) rfl rfl rfl fun hused => by
          split at hused <;>
            simp [Request.Used, Request.Passed, Request.Succeeded, ErrorCodes.success,
              ErrorCodes.redisError] at hused
    · exact hfades.drawn hs.drawn
    · exact hfades.single hs.single
  | turnedAway hreq hstage herror =>
    exact request_inv hs hreq (fun _ _ h => h) rfl rfl rfl rfl rfl rfl rfl (by simp [Request.Holds])
      (by simp [Request.Passed]) (not_succeeded_of_error herror).2
  | matched hreq hstage hcell hlive hcode => exact matched_inv hs hreq hstage hcell hcode
  | gaveUp hreq hactor hwork herror =>
    exact request_inv hs hreq (fun _ _ h => h) rfl rfl rfl rfl rfl rfl rfl
      (fun _ => hwork.elim Request.holds_of_checking Request.Passed.holds)
      (by simp [Request.Passed]) (not_succeeded_of_error herror).1
  | @registered k uid outcome r hreq hstage hok =>
    have hpassed := Request.passed_of_changing hstage
    refine request_inv hs hreq (fun _ _ h => h) rfl rfl rfl rfl rfl rfl rfl
      (fun _ => hpassed.holds) (fun _ => hpassed) ?_
    split <;> simp [Request.Succeeded, ErrorCodes.success, ErrorCodes.databaseError]
  | @located k uid r u hreq hstage hu hnamed haddressed =>
    have hpassed := Request.passed_of_changing hstage
    exact request_inv hs hreq (fun _ _ h => h) rfl rfl rfl rfl rfl rfl rfl
      (fun _ => hpassed.holds) (fun _ => hpassed) (by simp [Request.Succeeded])
  | @updated k uid outcome r u users hreq hstage hok hu huid haddressed =>
    have hpassed := Request.passed_of_updating hstage
    refine request_inv hs hreq (fun _ _ h => h) rfl rfl rfl rfl rfl rfl rfl
      (fun _ => hpassed.holds) (fun _ => hpassed) ?_
    split <;> simp [Request.Succeeded, ErrorCodes.success, ErrorCodes.databaseError]
  | @deleted k outcome r hreq hstage =>
    have hpassed := Request.passed_of_deleting hstage
    cases outcome with
    | ok => exact deleted_inv hs hreq hstage
    | failed =>
      exact request_inv hs hreq (fun _ _ h => h) rfl rfl rfl rfl rfl rfl rfl
        (fun _ => hpassed.holds) (fun _ => hpassed) (not_succeeded_of_error (by decide)).1
    | lost =>
      exact request_inv hs hreq (fun _ _ => Keyspace.of_del) rfl rfl rfl rfl rfl rfl rfl
        (fun _ => hpassed.holds) (fun _ => hpassed) (not_succeeded_of_error (by decide)).1
  | @released k outcome r error hreq hstage =>
    have hfades : Fades s (s.release k r error outcome) := by
      unfold release
      refine .of_request ?_ ?_ ?_ ?_ fun hused => ?_
      · split <;> exact fun _ _ h => h
      any_goals split <;> rfl
      have hsucc : (r.at (.finished error)).Succeeded := by simpa [Request.Used, Request.Passed]
        using hused
      have hrsucc : r.Succeeded := .inl (by simpa [Request.Succeeded, hstage] using hsucc)
      exact ⟨r, hreq, .inr hrsucc, rfl, rfl, fun _ => hrsucc⟩
    exact ⟨hfades.drawn hs.drawn, hs.held.released, hfades.single hs.single⟩

/-! ## Who deletes a code, and who holds a lock -/

/-- Only requests that changed an account delete a code, and locks name their requests. -/
structure Marks (s : State) : Prop where
  deleting : ∀ k r, s.request? k = some r → r.stage = .deleting → r.changed = true
  deleted : ∀ k email, .codeDeleted k email ∈ s.log →
    ∃ r, s.request? k = some r ∧ r.email = email ∧ r.changed = true
  owned : ∀ email cell, s.locks email = some cell →
    ∃ r, s.request? cell.value = some r ∧ r.email = email

theorem Marks.of_continues (hs : s.Marks)
    (hcont : ∀ j r, s.request? j = some r → ∃ r', s'.request? j = some r' ∧ r.Continues r')
    (hdeleting : ∀ j r, s'.request? j = some r → r.stage = .deleting → r.changed = true)
    (hdeleted : ∀ j email, .codeDeleted j email ∈ s'.log → .codeDeleted j email ∈ s.log ∨
      ∃ r, s.request? j = some r ∧ r.email = email ∧ r.changed = true)
    (howned : ∀ email cell, s'.locks email = some cell → s.locks email = some cell ∨
      ∃ r, s.request? cell.value = some r ∧ r.email = email) : s'.Marks where
  deleting := hdeleting
  deleted j email h := by
    have hbefore : ∃ r, s.request? j = some r ∧ r.email = email ∧ r.changed = true :=
      (hdeleted j email h).elim (hs.deleted j email) id
    obtain ⟨r, hr, hemail, hchanged⟩ := hbefore
    obtain ⟨r', hr', hc⟩ := hcont j r hr
    exact ⟨r', hr', hc.email.trans hemail, hc.changed hchanged⟩
  owned email cell h := by
    have hbefore : ∃ r, s.request? cell.value = some r ∧ r.email = email :=
      (howned email cell h).elim (hs.owned email cell) id
    obtain ⟨r, hr, hemail⟩ := hbefore
    obtain ⟨r', hr', hc⟩ := hcont _ r hr
    exact ⟨r', hr', hc.email.trans hemail⟩

theorem Marks.deleting_of_request (hs : s.Marks) {t : State} {r' : Request}
    (ht : t.requests = s.requests) (hr' : r'.stage = .deleting → r'.changed = true) :
    ∀ j r, (t.setRequest k r').request? j = some r → r.stage = .deleting → r.changed = true := by
  intro j r hr hstage
  rw [setRequest_request?] at hr
  split at hr
  next =>
    cases hr
    exact hr' hstage
  next =>
    rw [request?_eq_some, ht] at hr
    exact hs.deleting j r (request?_eq_some.mpr hr) hstage

theorem marks_step {a : Action} (hs : s.Marks) (h : Did weight s a s') : s'.Marks := by
  have hcont : ∀ j r, s.request? j = some r → ∃ r', s'.request? j = some r' ∧ r.Continues r' :=
    fun j r hr => h.continues hr
  have hsame : s'.requests = s.requests → ∀ j r, s'.request? j = some r →
      r.stage = .deleting → r.changed = true := by
    intro hreq j r hr
    rw [request?_eq_some, hreq] at hr
    exact hs.deleting j r (request?_eq_some.mpr hr)
  cases h with
  | tick => exact hs.of_continues hcont (hsame rfl) (fun _ _ h => .inl h) fun _ _ h => .inl h
  | began hnew => exact hs.of_continues hcont (hsame rfl) (fun _ _ h => .inl h) fun _ _ h => .inl h
  | read hcall hcell hlive =>
    exact hs.of_continues hcont (hsame rfl) (fun _ _ h => .inl h) fun _ _ h => .inl h
  | drew hcall hnone =>
    exact hs.of_continues hcont (hsame rfl) (fun _ _ h => .inl h) fun _ _ h => .inl h
  | stored hcall =>
    revert hcont hsame
    unfold storeCode
    split
    · exact fun hcont hsame => hs.of_continues hcont (hsame rfl)
        (fun _ _ h => .inl (by simpa using h)) fun _ _ h => .inl h
    · exact fun hcont hsame => hs.of_continues hcont (hsame rfl) (fun _ _ h => .inl h)
        fun _ _ h => .inl h
  | mailed hcall =>
    revert hcont hsame
    unfold mailCode
    split
    · exact fun hcont hsame => hs.of_continues hcont (hsame rfl)
        (fun _ _ h => .inl (by simpa using h)) fun _ _ h => .inl h
    · exact fun hcont hsame => hs.of_continues hcont (hsame rfl) (fun _ _ h => .inl h)
        fun _ _ h => .inl h
  | @refused k kind form error hnew =>
    refine hs.of_continues hcont (fun j r hr => ?_) (fun _ _ h => .inl h) fun _ _ h => .inl h
    rw [request?_eq_some] at hr
    by_cases hjk : j = k
    · subst hjk
      simp at hr
    · exact hs.deleting j r (request?_eq_some.mpr (by simpa [hjk] using hr))
  | @submitted k kind form r hnew hstage hchecked =>
    exact hs.of_continues hcont (hs.deleting_of_request rfl fun h => by simp [hstage] at h)
      (fun _ _ h => .inl h) fun _ _ h => .inl h
  | @acquired k outcome r hreq hstage hfree hok =>
    refine hs.of_continues hcont (hs.deleting_of_request rfl fun h => ?_) (fun _ _ h => .inl h) ?_
    · rw [Request.at_stage] at h
      split at h <;> cases h
    · intro email cell hcell
      rcases Keyspace.of_set hcell with ⟨rfl, rfl⟩ | hcell
      · exact .inr ⟨r, hreq, rfl⟩
      · exact .inl hcell
  | turnedAway hreq hstage herror =>
    exact hs.of_continues hcont (hs.deleting_of_request rfl (by rintro ⟨⟩)) (fun _ _ h => .inl h)
      fun _ _ h => .inl h
  | matched hreq hstage hcell hlive hcode =>
    exact hs.of_continues hcont (hs.deleting_of_request rfl (by rintro ⟨⟩)) (fun _ _ h => .inl h)
      fun _ _ h => .inl h
  | gaveUp hreq hactor hwork herror =>
    exact hs.of_continues hcont (hs.deleting_of_request rfl (by rintro ⟨⟩)) (fun _ _ h => .inl h)
      fun _ _ h => .inl h
  | registered hreq hstage hok =>
    exact hs.of_continues hcont (hs.deleting_of_request rfl fun _ => rfl) (fun _ _ h => .inl h)
      fun _ _ h => .inl h
  | located hreq hstage hu hnamed haddressed =>
    exact hs.of_continues hcont (hs.deleting_of_request rfl (by rintro ⟨⟩)) (fun _ _ h => .inl h)
      fun _ _ h => .inl h
  | updated hreq hstage hok hu huid haddressed =>
    exact hs.of_continues hcont (hs.deleting_of_request rfl fun _ => rfl)
      (fun _ _ h => .inl (by simpa using h)) fun _ _ h => .inl h
  | @deleted k outcome r hreq hstage =>
    refine hs.of_continues hcont ?_ ?_ ?_
    · unfold deleteCode
      split <;> exact hs.deleting_of_request rfl (by rintro ⟨⟩)
    · intro j email hlog
      unfold deleteCode at hlog
      split at hlog
      · rcases List.mem_cons.mp hlog with heq | hlog
        · cases heq
          exact .inr ⟨r, hreq, rfl, hs.deleting k r hreq hstage⟩
        · exact .inl hlog
      · exact .inl hlog
    · intro email cell hcell
      unfold deleteCode at hcell
      split at hcell <;> exact .inl hcell
  | @released k outcome r error hreq hstage =>
    refine hs.of_continues hcont ?_ ?_ ?_
    · unfold release
      split <;> exact hs.deleting_of_request rfl (by rintro ⟨⟩)
    · intro j email hlog
      unfold release at hlog
      split at hlog <;> exact .inl hlog
    · intro email cell hcell
      unfold release at hcell
      split at hcell
      · exact .inl (Keyspace.of_del hcell)
      · exact .inl hcell

/-- Between the states a code stays unless another is set in its place, or it is deleted. -/
def KeepsCodes (s t : State) : Prop :=
  ∃ events, t.log = events ++ s.log ∧ ∀ email cell, s.codes email = some cell →
    (∀ code, .codeSet email code ∉ events) → (∀ k, .codeDeleted k email ∉ events) →
    t.codes email = some cell

theorem KeepsCodes.refl (s : State) : s.KeepsCodes s := ⟨[], rfl, fun _ _ h _ _ => h⟩

theorem KeepsCodes.trans {t u : State} (hst : s.KeepsCodes t) (htu : t.KeepsCodes u) :
    s.KeepsCodes u := by
  obtain ⟨new, hnew, hkeep⟩ := hst
  obtain ⟨newer, hnewer, hkeep'⟩ := htu
  refine ⟨newer ++ new, by rw [hnewer, hnew, List.append_assoc], fun email cell h hset hdel => ?_⟩
  have ht := hkeep email cell h (fun code hc => hset code (List.mem_append_right _ hc))
    fun k hk => hdel k (List.mem_append_right _ hk)
  exact hkeep' email cell ht (fun code hc => hset code (List.mem_append_left _ hc))
    fun k hk => hdel k (List.mem_append_left _ hk)

theorem keepsCodes_of_same (hcodes : s'.codes = s.codes) (hlog : ∃ events, s'.log = events ++ s.log) :
    s.KeepsCodes s' := by
  obtain ⟨events, hevents⟩ := hlog
  exact ⟨events, hevents, fun email cell h _ _ => by rw [hcodes]; exact h⟩

theorem keepsCodes_step {a : Action} (h : Did weight s a s') : s.KeepsCodes s' := by
  cases h with
  | @stored k email code outcome hcall =>
    unfold storeCode
    split
    · refine ⟨[.codeSet email code], rfl, fun e cell hcell hset _ => ?_⟩
      have he : e ≠ email := by
        rintro rfl
        exact hset code List.mem_cons_self
      exact (Keyspace.set_of_ne he).trans hcell
    · exact keepsCodes_of_same rfl ⟨[], rfl⟩
  | @mailed k deadline email code outcome hcall =>
    unfold mailCode
    split
    · exact keepsCodes_of_same rfl ⟨[.mail email code], rfl⟩
    · exact keepsCodes_of_same rfl ⟨[], rfl⟩
  | @updated k uid outcome r u users hreq hstage hok hu huid haddressed =>
    exact keepsCodes_of_same rfl ⟨[.passwordSet uid u.email r.email r.code], rfl⟩
  | @deleted k outcome r hreq hstage =>
    unfold deleteCode
    split
    · refine ⟨[.codeDeleted k r.email], rfl, fun e cell hcell _ hdel => ?_⟩
      have he : e ≠ r.email := by
        rintro rfl
        exact hdel k List.mem_cons_self
      exact (Keyspace.del_of_ne he).trans hcell
    · exact keepsCodes_of_same rfl ⟨[], rfl⟩
  | @released k outcome r error hreq hstage =>
    unfold release
    split <;> exact keepsCodes_of_same rfl ⟨[], rfl⟩
  | _ => exact keepsCodes_of_same rfl ⟨[], rfl⟩

/-- A request that changed no account deleted no code. -/
def DeletesOnceChanged (s : State) : Prop :=
  ∀ k r, s.request? k = some r → r.changed = false → ∀ email, .codeDeleted k email ∉ s.log

/-- At most one request reports success with a code. -/
def UsedOnce (s : State) : Prop :=
  ∀ k j r q, s.request? k = some r → s.request? j = some q → r.Succeeded → q.Succeeded →
    q.email = r.email → q.code = r.code → j = k

variable [DecidableEq W]

/-- However late, a release takes the lock of its own request alone; and it does take it
unless Redis fails. -/
def ReleasesOwn (weight : String → W) (s : State) : Prop :=
  ∀ k outcome s', s.step weight (.release k outcome) = some s' →
    (∀ email cell, s.locks email = some cell → cell.value ≠ k → s'.locks email = some cell) ∧
      (outcome = .ok → ∀ email, s'.locks.get s'.now email ≠ some k)

theorem Marks.releasesOwn (hs : s.Marks) : s.ReleasesOwn weight := by
  intro k outcome s' hstep
  cases did_of_step hstep with
  | gaveUp hreq hactor hwork herror =>
    rcases hactor with ⟨_, h⟩ | ⟨_, _, h⟩ | ⟨_, h⟩ <;> cases h
  | @released k outcome r error hreq hstage =>
    refine ⟨fun email cell => release_locks, ?_⟩
    rintro rfl email hget
    have hown : ∀ t : State, t.locks.get t.now email = some k →
        (∀ e cell, t.locks e = some cell → s.locks e = some cell) → email = r.email := by
      intro t ht hsub
      obtain ⟨d, hd, -⟩ := Keyspace.get_eq_some.mp ht
      obtain ⟨q, hq, hemail⟩ := hs.owned email _ (hsub _ _ hd)
      obtain rfl := Option.some_inj.mp (hreq.symm.trans hq)
      exact hemail.symm
    unfold release at hget
    split at hget
    next h =>
      obtain rfl := hown _ hget fun _ _ => Keyspace.of_del
      rw [setRequest_locks, setRequest_now, Keyspace.get_del_self] at hget
      cases hget
    next h =>
      obtain rfl := hown _ hget fun _ _ h => h
      exact h ⟨rfl, hget⟩

end State

variable [DecidableEq W]

theorem inv_marks : (service weight).Invariant State.Marks where
  init s h := by
    obtain ⟨-, hlocks, -, hrequests, -, hlog⟩ := h
    refine ⟨fun k r hr => ?_, fun k email h => ?_, fun email cell h => ?_⟩
    · simp [State.request?_eq_some, hrequests] at hr
    · simp [hlog] at h
    · simp [hlocks] at h
  step _ _ _ _ hs h := State.marks_step hs (State.did_of_step h)

/-- The runs in which no held lease expires and every drawn code is fresh. -/
def orderly (weight : String → W) : Machine State Action := (service weight).restrict State.Orderly

theorem inv_orderly : (orderly weight).Invariant State.Inv where
  init s h := by
    obtain ⟨hcodes, -, hcalls, hrequests, -, -⟩ := h
    have hreq : ∀ k r, s.request? k ≠ some r := by
      intro k r hr
      simp [State.request?_eq_some, hrequests] at hr
    refine ⟨⟨?_, ?_, ?_⟩, ?_, ⟨?_, ?_, ?_, ?_, ?_⟩⟩
    · simp [hcodes]
    · simp [hcalls]
    · exact fun k r hr => absurd hr (hreq k r)
    · exact fun k r hr => absurd hr (hreq k r)
    · simp [hcalls]
    · simp [hcodes]
    · simp [hcalls]
    · exact fun k r hr => absurd hr (hreq k r)
    · exact fun k r hr => absurd hr (hreq k r)
  step _ _ _ _ hs h := State.inv_step hs h.1 (State.did_of_step h.2)

/-- In every interleaving of verification calls, registrations and resets. -/
theorem codes_single_use (s : State) (h : (service weight).Reachable s) :
    ((orderly weight).Reachable s → s.UsedOnce) ∧ s.DeletesOnceChanged ∧
      (∀ t, (service weight).Run s t → s.KeepsCodes t) ∧ s.ReleasesOwn weight := by
  have hmarks := inv_marks.reachable h
  refine ⟨fun horderly => ?_, ?_, fun t hrun => ?_, hmarks.releasesOwn⟩
  · have hinv := inv_orderly.reachable horderly
    intro k j r q hr hq hrsucc hqsucc hemail hcode
    exact hinv.single.spent_request k r hr hrsucc j q hq (.inr hqsucc) hemail hcode
  · intro k r hr hunchanged email hlog
    obtain ⟨q, hq, -, hchanged⟩ := hmarks.deleted k email hlog
    obtain rfl := Option.some_inj.mp (hr.symm.trans hq)
    rw [hunchanged] at hchanged
    cases hchanged
  · exact hrun.relates State.KeepsCodes.refl (fun _ _ _ => State.KeepsCodes.trans)
      (fun _ _ _ _ hstep => State.keepsCodes_step (State.did_of_step hstep)) h

def noCodes (users : List User) : State :=
  ⟨0, fun _ => none, fun _ => none, users, fun _ => none, fun _ => none, [], []⟩

def Form.of (user email passwd verifycode : String) : Form :=
  ⟨some user, some email, some passwd, some passwd, some verifycode⟩

/-- Two requests race for one code; the first changes the password, and the second comes
too late. -/
def raceForCode : List Action :=
  [.getVerifyCode 0 "a@b", .readCode 0 false 123456, .storeCode 0 .ok, .mailCode 0 .ok,
    .submit 1 .reset (Form.of "a" "a@b" "new" "123456"), .acquire 1 .ok,
    .submit 2 .reset (Form.of "a" "a@b" "newer" "123456"), .acquire 2 .ok,
    .check 1 false, .change 1 0 .ok, .update 1 .ok, .delete 1 .ok, .release 1 .ok,
    .submit 3 .reset (Form.of "a" "a@b" "newer" "123456"), .acquire 3 .ok, .check 3 false,
    .release 3 .ok]

/-- No time passes, and a drawn code is new. -/
def State.Calm (s : State) : Action → Prop
  | .tick _ => False
  | .readCode k _ n => ∀ c ∈ s.calls k, (c.email, toString n) ∉ s.generated
  | _ => True

instance (s : State) : (a : Action) → Decidable (s.Calm a)
  | .tick _ => inferInstanceAs (Decidable False)
  | .readCode k _ n =>
    inferInstanceAs (Decidable (∀ c ∈ s.calls k, (c.email, toString n) ∉ s.generated))
  | .getVerifyCode .. | .storeCode .. | .mailCode .. | .submit .. | .acquire .. | .check ..
  | .change .. | .update .. | .delete .. | .release .. => inferInstanceAs (Decidable True)

theorem State.Calm.orderly {s : State} {a : Action} (h : s.Calm a) : s.Orderly a := by
  cases a with
  | tick seconds => exact h.elim
  | readCode k failed n => exact fun email hcall _ => h ⟨email, .reading⟩ hcall
  | _ => trivial

def calmRun (users : List User) (as : List Action) : Option State :=
  Machine.runFn (fun s a => if s.Calm a then s.step (id : String → String) a else none)
    (noCodes users) as

theorem calmRun_reachable {users : List User} {as : List Action} {s : State}
    (h : calmRun users as = some s) : (orderly (id : String → String)).Reachable s := by
  have hinit : ((service (id : String → String)).restrict State.Calm).Reachable (noCodes users) :=
    .init ⟨rfl, rfl, rfl, rfl, rfl, rfl⟩
  exact Machine.Reachable.restrict_mono (fun _ _ => State.Calm.orderly) (hinit.runFn_restrict h)

theorem codes_single_use_sample :
    ∃ s, calmRun [⟨1, "a", "a@b", "old"⟩] raceForCode = some s ∧
      [1, 2, 3].map (fun k => (s.request? k).map Request.stage) =
        [some (.finished ErrorCodes.success), some (.finished ErrorCodes.verifyExpired),
          some (.finished ErrorCodes.verifyExpired)] ∧ s.UsedOnce := by
  have hrun : (calmRun [⟨1, "a", "a@b", "old"⟩] raceForCode).map
      (fun s => [1, 2, 3].map fun k => (s.request? k).map Request.stage) =
      some [some (.finished ErrorCodes.success), some (.finished ErrorCodes.verifyExpired),
        some (.finished ErrorCodes.verifyExpired)] := by
    decide +kernel
  obtain ⟨s, hs, hstages⟩ := Option.map_eq_some_iff.mp hrun
  have horderly := calmRun_reachable hs
  exact ⟨s, hs, hstages, (codes_single_use s horderly.of_restrict).1 horderly⟩

end CppChat.Verification
