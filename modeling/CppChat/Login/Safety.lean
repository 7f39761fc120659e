import CppChat.Login.Invariant

/-! # Login against disconnect

Every access of every flow keeps what is owed, so a connection that is closed and whose
flows are over is named nowhere; and all that the cleanup of a connection removes names
this connection.
-/
namespace CppChat.Login
open Foundation Session
namespace State
variable {s s' : State} {id : String} {c : Connection} {flag : Bool} {q : Request}
  {flow : CleanupFlow}

/-! ## Login -/

theorem Inv.early (h : s.Inv) (hc : s.connections id = some c) (he : c.login.early)
    {flow : LoginFlow} (hok : ({ c with login := flow } : Connection).LoginOk) :
    (s.put id { c with login := flow }).Inv :=
  h.put hc ((h.ok id c hc).keeps_of_early he hok)

theorem afterRoute_loginOk (hu : c.userId = 0) (hq : 0 < q.uid) :
    ({ c with login := s.afterRoute id c q flag } : Connection).LoginOk := by
  unfold afterRoute
  dsimp only
  split
  · split
    · split <;> exact ⟨hu, hq⟩
    · exact ⟨hu, hq⟩
  · split <;> exact ⟨hu, hq⟩

/-- The slot a registration publishes is owed by the login that made it. -/
theorem Inv.register (h : s.Inv) (hc : s.connections id = some c) (hl : c.login = .register q) :
    ((s.put id { c with
      login := if (s.redis.register (registration id c q)).1 = 1 then .bind q else .idle }).onRedis
        (s.redis.register (registration id c q)).2).Inv := by
  obtain ⟨hreg, hslot, huser⟩ := h.self hc
  have hok := h.ok id c hc
  obtain ⟨huid, hpos⟩ : c.userId = 0 ∧ 0 < q.uid := hok.1.of_eq hl
  have hnew : ¬ c.Registered := by
    unfold Connection.Registered
    rw [hl, huid]
    simp
  have hfresh : id ∉ s.redis.registrations.map Registration.session := by
    intro hmem
    obtain ⟨r, hr, he⟩ := List.mem_map.mp hmem
    exact hnew (hreg r hr he)
  have hnone : ∀ u d, s.redis.text? (.session u d) ≠ some id := by
    intro u d ht
    have howes := hslot u d ht
    unfold Connection.Owes at howes
    rw [hl] at howes
    exact howes
  have hredis : slots.Reachable (s.redis.register (registration id c q)).2 :=
    h.redis.step (Session.State.step_register hfresh)
  have huser' : ∀ node u d, s.users node u d ≠ some id := by
    intro node u d hu
    obtain ⟨-, hu', -, hpos', -⟩ := huser node u d hu
    omega
  refine h.update ?_ hredis (fun r hr => ?_) (fun x u d ht => ?_)
    fun node u d x hu => ⟨fun hx => absurd (hx ▸ hu) (huser' node u d), fun _ => hu⟩
  · split
    · exact ⟨⟨huid, hpos⟩, hok.2⟩
    · exact ⟨trivial, hok.2⟩
  · rw [Session.State.registrations_of_register] at hr
    split at hr
    next hone =>
      rw [List.mem_append, List.mem_singleton] at hr
      refine ⟨fun _ => .inr ?_, fun he => hr.resolve_right fun hr' => he (hr' ▸ rfl)⟩
      simp only [hone, if_true]
    next => exact ⟨fun he => absurd (hreg r hr he) hnew, fun _ => hr⟩
  · rcases Session.State.session_of_register ht with ht | ⟨hone, rfl, rfl, rfl⟩
    · exact ⟨fun hx => absurd (hx ▸ ht) (hnone u d), fun _ => ht⟩
    · refine ⟨fun _ => ?_, fun hx => absurd rfl hx⟩
      unfold Connection.Owes
      simp only [hone, if_true]
      exact ⟨rfl, rfl⟩

/-- A login binds only while no cleanup has taken its snapshot; otherwise it revokes. -/
theorem Inv.bind (h : s.Inv) (hc : s.connections id = some c) (hl : c.login = .bind q) :
    (s.put id (if q.uid = 0 ∨ c.isClosed ∨ c.cleanupStarted ∨ c.userId ≠ 0
      then { c with login := .revoke q devices }
      else { c with login := .publish q, device := q.device, userId := q.uid })).Inv := by
  have hok := h.ok id c hc
  obtain ⟨huid, hpos⟩ : c.userId = 0 ∧ 0 < q.uid := hok.1.of_eq hl
  have hpublished : ∀ node u d, ¬ c.Published node u d := by
    rintro node u d ⟨-, hu', -, hpos', -⟩
    omega
  have howes : ∀ {u d}, c.Owes u d → q.uid = u ∧ q.device = d := by
    intro u d ho
    unfold Connection.Owes at ho
    rwa [hl] at ho
  refine h.put hc ?_
  split
  next hcond =>
    have hclosed : c.isClosed = true := by
      rcases hcond with h0 | hclosed | hstarted | huid'
      · omega
      · exact hclosed
      · have hc2 := hok.2
        unfold Connection.CleanupOk at hc2
        have hne : c.cleanup ≠ .idle := by simpa [Connection.cleanupStarted] using hstarted
        cases hcl : c.cleanup <;> simp_all [Connection.isClosed]
      · exact absurd huid huid'
    refine ⟨⟨⟨huid, hclosed⟩, hok.2⟩, fun _ => .inr trivial, fun u d ho => ?_,
      fun node u d hp => absurd hp (hpublished node u d)⟩
    refine ⟨(howes ho).1, ?_⟩
    cases d <;> simp [devices]
  next hcond =>
    have hidle : c.cleanup = .idle := by
      simp only [not_or, Connection.cleanupStarted] at hcond
      simpa using hcond.2.2.1
    refine ⟨⟨⟨rfl, rfl, hpos, hidle⟩, ?_⟩, fun _ => .inl hpos, fun u d ho => howes ho,
      fun node u d hp => absurd hp (hpublished node u d)⟩
    unfold Connection.CleanupOk
    simp only [hidle]

/-- The publication names a connection whose cleanup has not started. -/
theorem Inv.publish (h : s.Inv) (hc : s.connections id = some c) (hl : c.login = .publish q) :
    ((s.put id { c with login := .idle }).onUsers c.node
      (·.setUserSession q.uid c.device id)).Inv := by
  obtain ⟨hreg, hslot, huser⟩ := h.self hc
  have hok := h.ok id c hc
  obtain ⟨huid, hdevice, hpos, hidle⟩ :
    c.userId = q.uid ∧ c.device = q.device ∧ 0 < q.uid ∧ c.cleanup = .idle := hok.1.of_eq hl
  refine h.update ⟨trivial, hok.2⟩ h.redis
    (fun r hr => ⟨fun _ => .inl (huid ▸ hpos), fun _ => hr⟩)
    (fun x u d ht => ⟨fun hx => ?_, fun _ => ht⟩) fun node u d x hu => ?_
  · have howes := hslot u d (hx ▸ ht)
    unfold Connection.Owes at howes ⊢
    rw [hl] at howes
    simp only [hidle, huid]
    exact ⟨howes.1 ▸ hpos, howes.1, trivial⟩
  · have hcases : s.users node u d = some x ∨ (x = id ∧ node = c.node ∧ u = q.uid ∧ d = c.device) := by
      change (Function.update s.users c.node ((s.users c.node).setUserSession q.uid c.device id)) node u d =
        some x at hu
      by_cases hn : node = c.node
      · subst hn
        rw [Function.update_self, UserMgr.setUserSession] at hu
        split at hu
        next hslot =>
          exact .inr ⟨(Option.some.inj hu).symm, rfl, hslot⟩
        next => exact .inl hu
      · rw [Function.update_of_ne hn] at hu
        exact .inl hu
    rcases hcases with hu | ⟨rfl, rfl, rfl, rfl⟩
    · exact ⟨fun hx => huser node u d (hx ▸ hu), fun _ => hu⟩
    · refine ⟨fun _ => ⟨rfl, huid, rfl, hpos, ?_⟩, fun hx => absurd rfl hx⟩
      simp only [hidle]
      trivial

/-- What is left to revoke after the release on one device. -/
theorem Inv.revoke (h : s.Inv) {d₀ : Device} {ds : List Device} (hc : s.connections id = some c)
    (hl : c.login = .revoke q (d₀ :: ds)) :
    ((s.put id { c with login := .revoke q ds }).onRedis (s.redis.release q.uid id d₀).2).Inv := by
  obtain ⟨hreg, hslot, huser⟩ := h.self hc
  have hok := h.ok id c hc
  obtain ⟨huid, hclosed⟩ : c.userId = 0 ∧ c.isClosed = true := hok.1.of_eq hl
  refine h.update ⟨⟨huid, hclosed⟩, hok.2⟩
    (h.redis.step (show s.redis.step (.release q.uid id d₀) = some _ from rfl)) (fun r hr => ?_)
    (fun x u d ht => ?_) fun node u d x hu => ⟨fun hx => huser node u d (hx ▸ hu), fun _ => hu⟩
  · rw [(Session.State.release_rest ..).2.2] at hr
    exact ⟨fun _ => .inr trivial, fun _ => hr⟩
  · obtain ⟨ht, hnot⟩ := Session.State.session_of_release ht
    refine ⟨fun hx => ?_, fun _ => ht⟩
    have howes := hslot u d (hx ▸ ht)
    unfold Connection.Owes at howes ⊢
    rw [hl] at howes
    refine ⟨howes.1, (List.mem_cons.mp howes.2).resolve_left fun hd => ?_⟩
    exact hnot ⟨howes.1.symm, hd, hx⟩

theorem Inv.loginStep (h : s.Inv) (hc : s.connections id = some c)
    (hstep : s.loginStep id c flag = some s') : s'.Inv := by
  have hok := h.ok id c hc
  unfold State.loginStep at hstep
  cases hl : c.login with
  | idle =>
    rw [hl] at hstep
    cases hstep
  | status q =>
    rw [hl] at hstep
    cases hstep
    refine h.early hc (by rw [hl]; rfl) ?_
    split
    next ha => exact ⟨hok.1.of_eq hl, ha.1⟩
    next => trivial
  | credential q =>
    rw [hl] at hstep
    cases hstep
    refine h.early hc (by rw [hl]; rfl) ?_
    split
    next =>
      have hgranted : c.userId = 0 ∧ 0 < q.uid := hok.1.of_eq hl
      exact hgranted
    next => trivial
  | route q =>
    rw [hl] at hstep
    cases hstep
    obtain ⟨huid, hpos⟩ : c.userId = 0 ∧ 0 < q.uid := hok.1.of_eq hl
    exact h.early hc (by rw [hl]; rfl) (afterRoute_loginOk huid hpos)
  | retire q old =>
    have hgranted : c.userId = 0 ∧ 0 < q.uid := hok.1.of_eq hl
    rw [hl] at hstep
    cases hstep
    refine Inv.call (h.early hc (by rw [hl]; rfl) ?_) fun c hc => hc.keeps_notifyOffline flag
    exact hgranted
  | remove q old =>
    have hgranted : c.userId = 0 ∧ 0 < q.uid := hok.1.of_eq hl
    rw [hl] at hstep
    cases hstep
    refine Inv.onUsers (h.early hc (by rw [hl]; rfl) ?_)
      fun m u d x hx => UserMgr.rmvUserSession_some hx
    exact hgranted
  | kick q server =>
    have hgranted : c.userId = 0 ∧ 0 < q.uid := hok.1.of_eq hl
    rw [hl] at hstep
    dsimp only at hstep
    split at hstep <;> cases hstep
    all_goals exact h.early hc (by rw [hl]; rfl) hgranted
  | offline q old =>
    have hgranted : c.userId = 0 ∧ 0 < q.uid := hok.1.of_eq hl
    rw [hl] at hstep
    cases hstep
    refine Inv.call (h.early hc (by rw [hl]; rfl) ?_) fun c hc => hc.keeps_notifyOffline flag
    exact hgranted
  | register q =>
    rw [hl] at hstep
    cases hstep
    exact h.register hc hl
  | bind q =>
    have hbind := h.bind hc hl
    rw [hl] at hstep
    dsimp only at hstep
    split at hstep
    next hcond =>
      cases hstep
      rwa [if_pos hcond] at hbind
    next hcond =>
      cases hstep
      rwa [if_neg hcond] at hbind
  | publish q =>
    rw [hl] at hstep
    cases hstep
    exact h.publish hc hl
  | revoke q ds =>
    cases ds with
    | nil =>
      rw [hl] at hstep
      cases hstep
      obtain ⟨huid, hclosed⟩ : c.userId = 0 ∧ c.isClosed = true := hok.1.of_eq hl
      refine h.put hc ⟨⟨trivial, hok.2⟩, fun _ => .inr hclosed, fun u d ho => ?_, fun _ _ _ hp => hp⟩
      unfold Connection.Owes at ho
      rw [hl] at ho
      cases ho.2
    | cons d ds =>
      rw [hl] at hstep
      cases hstep
      exact h.revoke hc hl

theorem Inv.abortLogin (h : s.Inv) (hc : s.connections id = some c)
    (hstep : s.abortLogin id c = some s') : s'.Inv := by
  unfold State.abortLogin at hstep
  split at hstep
  case h_4 => cases hstep
  all_goals
    next hl =>
      cases hstep
      exact h.early hc (by rw [hl]; rfl) trivial

/-! ## Close, cleanup and sweep -/

theorem Inv.closeOnExecutor (h : s.Inv) (hc : s.connections id = some c)
    (hstep : s.closeOnExecutor id c = some s') : s'.Inv := by
  have hok := h.ok id c hc
  unfold State.closeOnExecutor at hstep
  split at hstep
  · cases hstep
  next hguard =>
    split at hstep
    · cases hstep
      exact h
    next hstarted =>
      cases hstep
      simp only [not_or, not_not] at hguard
      have hidle : c.cleanup = .idle := by simpa [Connection.cleanupStarted] using hstarted
      refine h.put hc ⟨⟨?_, hguard.1, rfl⟩, fun hr => hr, fun u d ho => ?_, fun node u d hp => ?_⟩
      · have hl := hok.1
        unfold Connection.LoginOk at hl ⊢
        have hlocked := hguard.2
        unfold Connection.loginLocked at hlocked
        cases hlog : c.login <;> simp_all
        simp [Connection.isClosed]
      · unfold Connection.Owes at ho ⊢
        rw [hidle] at ho
        exact ho
      · unfold Connection.Published at hp ⊢
        rw [hidle] at hp
        exact hp

/-- After the cleanup removed it from `UserMgr`, nothing there names the connection. -/
theorem Inv.unpublish (h : s.Inv) (hc : s.connections id = some c)
    (hk : ({ c with cleanup := flow } : Connection).Ok)
    (howes : ∀ d, 0 < c.userId → c.cleanup.Releases d → flow.Releases d) :
    ((s.put id { c with cleanup := flow }).onUsers c.node (·.rmvUserSession c.userId id)).Inv := by
  obtain ⟨hreg, hslot, huser⟩ := h.self hc
  refine h.update hk h.redis (fun r hr => ⟨fun he => hreg r hr he, fun _ => hr⟩)
    (fun x u d ht => ⟨fun hx => (hslot u d (hx ▸ ht)).cleanup (howes d), fun _ => ht⟩)
    fun node u d x hu => ?_
  change (Function.update s.users c.node ((s.users c.node).rmvUserSession c.userId id)) node u d =
    some x at hu
  have hold : s.users node u d = some x := by
    by_cases hn : node = c.node
    · subst hn
      rw [Function.update_self] at hu
      exact UserMgr.rmvUserSession_some hu
    · rwa [Function.update_of_ne hn] at hu
  refine ⟨fun hx => ?_, fun _ => hold⟩
  subst hx
  obtain ⟨rfl, rfl, rfl, -, -⟩ := huser node u d hold
  rw [Function.update_self] at hu
  refine absurd hu (UserMgr.rmvUserSession_gone fun d d' hd hd' => ?_)
  exact (huser _ _ d hd).2.2.1.symm.trans (huser _ _ d' hd').2.2.1

/-- What is left to release after one device. -/
theorem Inv.release (h : s.Inv) {uid : ℕ} {d₀ : Device} {ds : List Device}
    (hc : s.connections id = some c) (hcl : c.cleanup = .release uid (d₀ :: ds)) :
    ((s.put id { c with cleanup := .release uid ds }).onRedis (s.redis.release uid id d₀).2).Inv := by
  obtain ⟨hreg, hslot, huser⟩ := h.self hc
  have hok := h.ok id c hc
  obtain ⟨hclosed, huid⟩ : c.closed = true ∧ uid = c.userId := hok.2.of_eq hcl
  refine h.update (hok.cleanup (by simp [hcl]) ⟨hclosed, huid⟩)
    (h.redis.step (show s.redis.step (.release uid id d₀) = some _ from rfl)) (fun r hr => ?_)
    (fun x u d ht => ?_) fun node u d x hu => ⟨fun hx => ?_, fun _ => hu⟩
  · rw [(Session.State.release_rest ..).2.2] at hr
    exact ⟨fun he => hreg r hr he, fun _ => hr⟩
  · obtain ⟨ht, hnot⟩ := Session.State.session_of_release ht
    refine ⟨fun hx => ?_, fun _ => ht⟩
    have howes := hslot u d (hx ▸ ht)
    unfold Connection.Owes at howes ⊢
    cases hl : c.login with
    | idle =>
      rw [hl, hcl] at howes
      refine ⟨howes.1, howes.2.1, (List.mem_cons.mp howes.2.2).resolve_left fun hd => ?_⟩
      exact hnot ⟨howes.2.1.symm.trans huid.symm, hd, hx⟩
    | _ =>
      rw [hl] at howes
      exact howes
  · have hp := huser node u d (hx ▸ hu)
    unfold Connection.Published at hp
    rw [hcl] at hp
    exact hp.2.2.2.2.elim

/-- A refresh names nobody new. -/
theorem Inv.refresh (h : s.Inv) (uid : ℕ) (session : String) (d : Device) :
    (s.onRedis (s.redis.refresh uid session d).2).Inv where
  redis := h.redis.step (show s.redis.step (.refresh uid session d) = some _ from rfl)
  ok := h.ok
  registered r hr := by
    simp only [State.onRedis, (Session.State.refresh_rest ..).2.2] at hr
    exact h.registered r hr
  slot id u d ht := h.slot id u d
    ((Session.State.inv_invariant.reachable h.redis).session_of_refresh ht)
  user := h.user

/-- The rest of the cleanup finds nothing that it would have to undo. -/
theorem Inv.cleanup (h : s.Inv) (hc : s.connections id = some c) (hs : c.cleanup ≠ .idle)
    {listed : Bool} (hf : ({ c with cleanup := flow } : Connection).CleanupOk)
    (hreleases : ∀ d, 0 < c.userId → ¬ c.cleanup.Releases d)
    (hremoves : 0 < c.userId → ¬ c.cleanup.Removes) :
    (s.put id { c with listed := listed, cleanup := flow }).Inv := by
  have hok := (h.ok id c hc).cleanup hs hf
  refine h.put hc ⟨⟨hok.1, hok.2⟩, fun hr => hr, fun u d ho => ?_, fun node u d hp => ?_⟩
  · exact ho.cleanup fun hpos hr => absurd hr (hreleases d hpos)
  · exact absurd hp.2.2.2.2 (hremoves (hp.2.1 ▸ hp.2.2.2.1))

theorem Inv.cleanupStep (h : s.Inv) (hc : s.connections id = some c)
    (hstep : s.cleanupStep id c = some s') : s'.Inv := by
  have hok := h.ok id c hc
  unfold State.cleanupStep at hstep
  cases hcl : c.cleanup with
  | idle =>
    rw [hcl] at hstep
    cases hstep
  | done =>
    rw [hcl] at hstep
    cases hstep
  | remove uid =>
    obtain ⟨hclosed, huid⟩ : c.closed = true ∧ uid = c.userId := hok.2.of_eq hcl
    rw [hcl] at hstep
    dsimp only at hstep
    split at hstep
    next hpos =>
      cases hstep
      subst huid
      refine h.unpublish hc (hok.cleanup (by simp [hcl]) ⟨hclosed, rfl⟩) fun d _ _ => ?_
      cases d <;> simp [CleanupFlow.Releases, devices]
    next hzero =>
      cases hstep
      have hnot : ¬ 0 < c.userId := huid ▸ hzero
      exact h.cleanup hc (by simp [hcl]) hclosed (fun d hpos => absurd hpos hnot)
        fun hpos => absurd hpos hnot
  | release uid ds =>
    obtain ⟨hclosed, huid⟩ : c.closed = true ∧ uid = c.userId := hok.2.of_eq hcl
    rw [hcl] at hstep
    cases ds with
    | nil =>
      cases hstep
      exact h.cleanup hc (by simp [hcl]) hclosed (by simp [hcl, CleanupFlow.Releases])
        (by simp [hcl, CleanupFlow.Removes])
    | cons d ds =>
      cases hstep
      exact h.release hc hcl
  | clear =>
    have hclosed : c.closed = true := hok.2.of_eq hcl
    rw [hcl] at hstep
    cases hstep
    by_cases hlisted : c.listed ∧ 0 < c.userId
    · rw [if_pos hlisted]
      exact h.cleanup hc (by simp [hcl]) ⟨hclosed, rfl⟩ (by simp [hcl, CleanupFlow.Releases])
        (by simp [hcl, CleanupFlow.Removes])
    · rw [if_neg hlisted]
      exact h.cleanup hc (by simp [hcl]) hclosed (by simp [hcl, CleanupFlow.Releases])
        (by simp [hcl, CleanupFlow.Removes])
  | clearUser uid =>
    obtain ⟨hclosed, huid⟩ : c.closed = true ∧ uid = c.userId := hok.2.of_eq hcl
    rw [hcl] at hstep
    cases hstep
    subst huid
    refine h.unpublish hc (hok.cleanup (by simp [hcl]) hclosed) fun d _ hr => ?_
    rw [hcl] at hr
    exact hr.elim

theorem Inv.sweepStep (h : s.Inv) (hc : s.connections id = some c)
    (hstep : s.sweepStep id c = some s') : s'.Inv := by
  have hok := h.ok id c hc
  have hgo : ∀ flow, (s.put id { c with sweep := flow }).Inv := fun flow =>
    h.put hc (hok.keeps_of_flags rfl rfl rfl rfl rfl (fun hx => hx) fun hx => hx)
  unfold State.sweepStep at hstep
  cases hsw : c.sweep with
  | idle =>
    rw [hsw] at hstep
    dsimp only at hstep
    split at hstep <;> cases hstep
    exact hgo _
  | close =>
    rw [hsw] at hstep
    cases hstep
    exact h.put hc (hok.keeps_of_flags rfl rfl rfl rfl rfl (fun _ => rfl) fun _ => by
      simp [Connection.isClosed])
  | refresh uid ds =>
    rw [hsw] at hstep
    cases ds with
    | nil =>
      cases hstep
      exact hgo _
    | cons d ds =>
      cases hstep
      exact (hgo _).refresh uid id d

/-! ## All steps -/

/-- Time and new credentials name no session. -/
theorem Inv.environment (h : s.Inv) {redis : Session.State} {a : Session.Action}
    (hstep : s.redis.step a = some redis) (hreg : redis.registrations = s.redis.registrations)
    (htext : ∀ u d x, redis.text? (.session u d) = some x → s.redis.text? (.session u d) = some x) :
    (s.onRedis redis).Inv where
  redis := h.redis.step hstep
  ok := h.ok
  registered r hr := h.registered r (hreg ▸ hr)
  slot id u d ht := h.slot id u d (htext u d id ht)
  user := h.user

theorem Inv.accept (h : s.Inv) {node : String} (hc : s.connections id = none) :
    (s.put id (.accepted node)).Inv := by
  refine h.update ⟨trivial, trivial⟩ h.redis (fun r hr => ⟨fun he => ?_, fun _ => hr⟩)
    (fun x u d ht => ⟨fun hx => ?_, fun _ => ht⟩) fun node u d x hu => ⟨fun hx => ?_, fun _ => hu⟩
  · obtain ⟨c, hc', -⟩ := h.registered r hr
    rw [he, hc] at hc'
    cases hc'
  · obtain ⟨c, hc', -⟩ := h.slot x u d ht
    rw [hx, hc] at hc'
    cases hc'
  · obtain ⟨c, hc', -⟩ := h.user node u d x hu
    rw [hx, hc] at hc'
    cases hc'

theorem Inv.login (h : s.Inv) (hc : s.connections id = some c)
    (hguard : ¬ (c.login ≠ .idle ∨ c.isClosed ∨ 0 < c.userId)) :
    (s.put id { c with login := .status q }).Inv := by
  have hok := h.ok id c hc
  simp only [not_or, not_not] at hguard
  obtain ⟨hidle, hopen, hzero⟩ := hguard
  refine h.put hc ⟨⟨Nat.eq_zero_of_not_pos hzero, hok.2⟩, fun hr => ?_, fun u d ho => ?_,
    fun node u d hp => absurd (hp.2.1 ▸ hp.2.2.2.1) hzero⟩
  · unfold Connection.Registered at hr
    rw [hidle] at hr
    exact absurd hr (not_or.mpr ⟨hzero, hopen⟩)
  · unfold Connection.Owes at ho
    rw [hidle] at ho
    exact absurd (ho.2.1 ▸ ho.1) hzero

theorem Inv.step {a : Action} (h : s.Inv) (hstep : s.step a = some s') : s'.Inv := by
  cases a with
  | issueToken uid token =>
    obtain ⟨redis, hredis, rfl⟩ := Option.map_eq_some_iff.mp hstep
    have he : s.redis.issueToken uid token = redis := by
      simp only [Session.State.step] at hredis
      split at hredis
      · cases hredis
      · exact Option.some.inj hredis
    refine h.environment hredis (he ▸ rfl) fun u d x ht => ?_
    rwa [← he, Session.State.text?_congr (Session.State.issueToken_keys _ _ (by simp)) rfl] at ht
  | issueUserToken uid token =>
    obtain ⟨redis, hredis, rfl⟩ := Option.map_eq_some_iff.mp hstep
    have he : s.redis.issueUserToken uid token = redis := by
      simp only [Session.State.step] at hredis
      split at hredis
      · cases hredis
      · exact Option.some.inj hredis
    refine h.environment hredis (he ▸ rfl) fun u d x ht => ?_
    rwa [← he, Session.State.text?_congr (Session.State.issueUserToken_keys _ _ (by simp)) rfl] at ht
  | tick ms =>
    have hstep : (s.redis.step (.tick ms)).map s.onRedis = some s' := hstep
    obtain ⟨redis, hredis, rfl⟩ := Option.map_eq_some_iff.mp hstep
    refine h.environment hredis ?_ fun u d x ht => ?_
    · cases hredis
      rfl
    · cases hredis
      exact Session.State.text?_tick ht
  | accept id node =>
    simp only [State.step] at hstep
    split at hstep
    · cases hstep
    next hc =>
      cases hstep
      exact h.accept hc
  | login id q =>
    obtain ⟨c, hc, hstep⟩ := Option.bind_eq_some_iff.mp hstep
    split at hstep
    · cases hstep
    next hguard =>
      cases hstep
      exact h.login hc hguard
  | loginStep id flag =>
    obtain ⟨c, hc, hstep⟩ := Option.bind_eq_some_iff.mp hstep
    exact h.loginStep hc hstep
  | abortLogin id =>
    obtain ⟨c, hc, hstep⟩ := Option.bind_eq_some_iff.mp hstep
    exact h.abortLogin hc hstep
  | close id =>
    obtain ⟨c, hc, hstep⟩ := Option.bind_eq_some_iff.mp hstep
    cases hstep
    exact h.put hc ((h.ok id c hc).keeps_of_flags rfl rfl rfl rfl rfl (fun _ => rfl) fun _ => by
      simp [Connection.isClosed])
  | drain id =>
    obtain ⟨c, hc, hstep⟩ := Option.bind_eq_some_iff.mp hstep
    cases hstep
    exact h.put hc (h.ok id c hc).keeps_drain
  | closeOnExecutor id =>
    obtain ⟨c, hc, hstep⟩ := Option.bind_eq_some_iff.mp hstep
    exact h.closeOnExecutor hc hstep
  | cleanupStep id =>
    obtain ⟨c, hc, hstep⟩ := Option.bind_eq_some_iff.mp hstep
    exact h.cleanupStep hc hstep
  | sweepStep id =>
    obtain ⟨c, hc, hstep⟩ := Option.bind_eq_some_iff.mp hstep
    exact h.sweepStep hc hstep

theorem inv_invariant : login.Invariant Inv where
  init s := by
    rintro ⟨⟨hkeys, hissued, hreg⟩, hconnections, husers⟩
    refine ⟨.init ⟨hkeys, hissued, hreg⟩, by simp [hconnections], by simp [hreg], fun id u d ht => ?_,
      by simp [husers]⟩
    simp [Session.State.text?, Keyspace.get, hkeys] at ht
  step _ _ _ _ h hstep := h.step hstep

/-! ## What the cleanup of another connection leaves alone -/

/-- The steps that undo what a connection registered: its cleanup, and a login that was
closed before it could bind. -/
def Undoes (s : State) (id : String) : Action → Prop
  | .closeOnExecutor x | .cleanupStep x => x = id
  | .loginStep x _ => x = id ∧ ∃ c q ds, s.connections id = some c ∧ c.login = .revoke q ds
  | _ => False

/-- What names other connections than one stays. -/
def KeepsOthers (s s' : State) (id : String) : Prop :=
  (∀ node u d x, x ≠ id → s.users node u d = some x → s'.users node u d = some x) ∧
    ∀ u d x, x ≠ id → s.redis.text? (.session u d) = some x → s.redis.SameSlot s'.redis u d

theorem keepsOthers_rfl (s : State) (id : String) : s.KeepsOthers s id :=
  ⟨fun _ _ _ _ _ h => h, fun _ _ _ _ _ => ⟨rfl, rfl, rfl⟩⟩

theorem keepsOthers_release (h : s.redis.Inv) (uid : ℕ) (d : Device) (c' : Connection) :
    s.KeepsOthers ((s.put id c').onRedis (s.redis.release uid id d).2) id :=
  ⟨fun _ _ _ _ _ hu => hu, fun _ _ _ hx ht =>
    h.stale (a := .release uid id d) (.inr rfl) rfl fun he => hx (Option.some.inj (ht.symm.trans he))⟩

theorem keepsOthers_rmvUserSession (node : String) (uid : ℕ) (c' : Connection) :
    s.KeepsOthers ((s.put id c').onUsers node (·.rmvUserSession uid id)) id := by
  refine ⟨fun n u d x hx hu => ?_, fun _ _ _ _ _ => ⟨rfl, rfl, rfl⟩⟩
  change (Function.update s.users node ((s.users node).rmvUserSession uid id)) n u d = some x
  by_cases hn : n = node
  · subst hn
    rw [Function.update_self]
    exact UserMgr.rmvUserSession_other hu hx
  · rwa [Function.update_of_ne hn]

theorem keepsOthers_cleanupStep (h : s.redis.Inv) (hstep : s.cleanupStep id c = some s') :
    s.KeepsOthers s' id := by
  unfold State.cleanupStep at hstep
  cases hcl : c.cleanup with
  | idle =>
    rw [hcl] at hstep
    cases hstep
  | done =>
    rw [hcl] at hstep
    cases hstep
  | remove uid =>
    rw [hcl] at hstep
    dsimp only at hstep
    split at hstep <;> cases hstep
    · exact keepsOthers_rmvUserSession ..
    · exact keepsOthers_rfl s id
  | release uid ds =>
    rw [hcl] at hstep
    cases ds with
    | nil =>
      cases hstep
      exact keepsOthers_rfl s id
    | cons d ds =>
      cases hstep
      exact keepsOthers_release h ..
  | clear =>
    rw [hcl] at hstep
    cases hstep
    exact keepsOthers_rfl s id
  | clearUser uid =>
    rw [hcl] at hstep
    cases hstep
    exact keepsOthers_rmvUserSession ..

theorem keepsOthers_of_undoes {a : Action} (h : s.redis.Inv) (ha : s.Undoes id a)
    (hstep : s.step a = some s') : s.KeepsOthers s' id := by
  cases a with
  | closeOnExecutor x =>
    obtain rfl : x = id := ha
    obtain ⟨c, hc, hstep⟩ := Option.bind_eq_some_iff.mp hstep
    unfold State.closeOnExecutor at hstep
    split at hstep
    · cases hstep
    · split at hstep <;> cases hstep
      · exact keepsOthers_rfl s x
      · exact keepsOthers_rfl s x
  | cleanupStep x =>
    obtain rfl : x = id := ha
    obtain ⟨c, hc, hstep⟩ := Option.bind_eq_some_iff.mp hstep
    exact keepsOthers_cleanupStep h hstep
  | loginStep x flag =>
    obtain ⟨rfl, c, q, ds, hc, hl⟩ := ha
    obtain ⟨c', hc', hstep⟩ := Option.bind_eq_some_iff.mp hstep
    rw [hc] at hc'
    cases hc'
    unfold State.loginStep at hstep
    rw [hl] at hstep
    cases ds with
    | nil =>
      cases hstep
      exact keepsOthers_rfl s x
    | cons d ds =>
      cases hstep
      exact keepsOthers_release h ..
  | _ => exact ha.elim

/-- The promises of login and disconnect to each other. -/
structure LoginSafe (s : State) : Prop where
  unnamed : ∀ id c, s.connections id = some c → c.closed = true → c.login = .idle →
    c.cleanup = .done →
      (∀ u d, s.redis.text? (.session u d) ≠ some id) ∧
      (∀ i r, s.redis.registrations[i]? = some r → r.session = id → ∀ u d, ∀ k ∈
        [Key.session u d, .resource u d, .node u d],
          (s.redis.keys.get s.redis.clock k).map Value.writer ≠ some i) ∧
      ∀ node u d, s.users node u d ≠ some id
  replaced : ∀ id a s', s.Undoes id a → s.step a = some s' → s.KeepsOthers s' id

/-- The three keys of a slot name the connection of its session key. -/
theorem Inv.written_by (h : s.redis.Inv) {u : ℕ} {d : Device} {i : ℕ} {r : Registration}
    (hi : s.redis.registrations[i]? = some r) {k : Key}
    (hk : k ∈ [Key.session u d, .resource u d, .node u d])
    (hw : (s.redis.keys.get s.redis.clock k).map Value.writer = some i) :
    s.redis.text? (.session u d) = some r.session := by
  have hsome : ∀ k, s.redis.text? k = none →
      (s.redis.keys.get s.redis.clock k).map Value.writer ≠ some i := by
    intro k hk
    rw [Option.map_eq_none_iff.mp hk]
    simp
  rcases h.whole u d with ⟨hs, hr, hn⟩ | ⟨j, r', hj, -, -, hs, hr, hn⟩
  · exfalso
    simp only [List.mem_cons, List.not_mem_nil, or_false] at hk
    rcases hk with rfl | rfl | rfl
    · exact hsome _ hs hw
    · exact hsome _ hr hw
    · exact hsome _ hn hw
  · have hji : j = i := by
      simp only [List.mem_cons, List.not_mem_nil, or_false] at hk
      rcases hk with rfl | rfl | rfl
      · simpa [hs] using hw
      · simpa [hr] using hw
      · simpa [hn] using hw
    subst hji
    rw [hi] at hj
    cases hj
    rw [Session.State.text?, hs, Option.map_some]

end State

/-- In every interleaving of logins, closes, cleanups and sweeps. -/
theorem login_safe (s : State) (h : login.Reachable s) : s.LoginSafe := by
  have hinv := State.inv_invariant.reachable h
  have hredis := Session.State.inv_invariant.reachable hinv.redis
  refine ⟨fun id c hc _ hlogin hcleanup => ?_, fun id a s' ha hstep =>
    State.keepsOthers_of_undoes hredis ha hstep⟩
  obtain ⟨-, hslot, huser⟩ := hinv.self hc
  have hsession : ∀ u d, s.redis.text? (.session u d) ≠ some id := by
    intro u d ht
    have howes := hslot u d ht
    unfold Connection.Owes at howes
    rw [hlogin, hcleanup] at howes
    exact howes.2.2
  refine ⟨hsession, fun i r hi hr u d k hk hw => ?_, fun node u d hu => ?_⟩
  · exact hsession u d (hr ▸ State.Inv.written_by hredis hi hk hw)
  · have hp := (huser node u d hu).2.2.2.2
    rw [hcleanup] at hp
    exact hp

def noConnections : State := ⟨noSlots, fun _ => none, fun _ _ _ => none⟩

def loginSteps (id : String) (n : ℕ) : List Action := List.replicate n (.loginStep id false)

def cleanupSteps (id : String) (n : ℕ) : List Action := List.replicate n (.cleanupStep id)

/-- A second login takes the slot over while the first connection closes. -/
def sampleActions : List Action :=
  [.issueToken 1 "a", .issueToken 1 "b", .accept "s1" "node", .accept "s2" "node",
    .login "s1" ⟨1, "a", .desktop⟩] ++ loginSteps "s1" 6 ++ [.login "s2" ⟨1, "b", .desktop⟩] ++
  loginSteps "s2" 5 ++ [.close "s1", .closeOnExecutor "s1", .cleanupStep "s1"] ++
  loginSteps "s2" 3 ++ cleanupSteps "s1" 5

theorem login_safe_sample : ∃ s, Machine.runFn State.step noConnections sampleActions = some s ∧
    (s.connections "s1").map (fun c => (c.closed, c.login, c.cleanup)) = some (true, .idle, .done) ∧
    s.redis.text? (.session 1 .desktop) = some "s2" ∧ s.users "node" 1 .desktop = some "s2" ∧
    s.LoginSafe := by
  have hrun : (Machine.runFn State.step noConnections sampleActions).map (fun s =>
      ((s.connections "s1").map (fun c => (c.closed, c.login, c.cleanup)),
        s.redis.text? (.session 1 .desktop), s.users "node" 1 .desktop)) =
      some (some (true, .idle, .done), some "s2", some "s2") := by decide +kernel
  obtain ⟨s, hs, hstate⟩ := Option.map_eq_some_iff.mp hrun
  have hinit : login.Reachable noConnections :=
    .init ⟨⟨fun _ => rfl, rfl, rfl⟩, fun _ => rfl, fun _ _ _ => rfl⟩
  simp only [Prod.mk.injEq] at hstate
  exact ⟨s, hs, hstate.1, hstate.2.1, hstate.2.2, login_safe s (hinit.runFn hs)⟩

end CppChat.Login
