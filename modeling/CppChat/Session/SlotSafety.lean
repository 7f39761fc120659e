import CppChat.Session.SlotInvariant

/-! # Safety of the slots

Every interleaving of issues, registrations, refreshes, releases and expiries keeps the
keys of a slot together, protects a newer registration from older sessions, and lets a
credential be used in one slot and never again after it left it.
-/
namespace CppChat.Session
open Foundation
namespace State

variable {s s' : State} {u uid : ℕ} {d device : Device} {r : Registration} {session t : String}

/-- The keys of one slot. -/
def SameSlot (s s' : State) (u : ℕ) (d : Device) : Prop :=
  s'.keys (.session u d) = s.keys (.session u d) ∧ s'.keys (.resource u d) = s.keys (.resource u d) ∧
    s'.keys (.node u d) = s.keys (.node u d)

theorem Inv.accepts_cases (h : s.Inv) (ha : s.Accepts r) :
    ((r.token, r.uid) ∈ s.issued ∧ r.token ∉ s.consumed) ∨
      ∃ c, s.keys (.resource r.uid r.device) = some c ∧ c.value.text = r.token := by
  rcases ha with ha | ha | ha
  · exact .inl (h.pendingUser _ _ ha.1)
  · exact .inl (h.pendingToken _ _ _ ha.1).2
  · obtain ⟨writer, deadline, hk, -⟩ := text?_eq_some.mp ha.1
    exact .inr ⟨_, hk, rfl⟩

/-- A credential that is still pending belongs to the user that registers with it. -/
theorem Inv.pending_uid (h : s.Inv) (ha : s.Accepts r) (hi : (r.token, u) ∈ s.issued)
    (hc : r.token ∉ s.consumed) : u = r.uid := by
  rcases h.accepts_cases ha with ⟨hi', -⟩ | ⟨c, hk, ht⟩
  · exact h.owner _ _ _ hi hi'
  · exact absurd (ht ▸ h.token_consumed hk) hc

theorem consumed_register (s : State) (r : Registration) :
    ((s.publish r).consume r.uid r.token).consumed = s.consumed ++ [r.token] := by
  simp [consumed, consume, publish]

/-- A credential is only ever used for one slot. -/
theorem Inv.home_of_accepts (h : s.Inv) (ha : s.Accepts r) :
    ∀ q ∈ s.registrations, q.token = r.token → q.uid = r.uid ∧ q.device = r.device := by
  intro q hq ht
  rcases h.accepts_cases ha with ⟨-, hc⟩ | ⟨c, hk, hc⟩
  · exact absurd (ht ▸ List.mem_map_of_mem hq) hc
  · rcases h.slot r.uid r.device with hv | ⟨i, r', deadline, hh⟩
    · rw [hv.2.1] at hk
      cases hk
    · rw [hh.resource] at hk
      cases hk
      obtain ⟨hu, hd⟩ := h.home q hq r' (List.mem_of_getElem? hh.registered) (ht.trans hc.symm)
      exact ⟨hu.trans hh.slot.1, hd.trans hh.slot.2⟩

theorem Inv.home_append (h : s.Inv) (ha : s.Accepts r) :
    ∀ q ∈ s.registrations ++ [r], ∀ q' ∈ s.registrations ++ [r], q.token = q'.token →
      q.uid = q'.uid ∧ q.device = q'.device := by
  have hhome := h.home_of_accepts ha
  intro q hq q' hq' ht
  rw [List.mem_append, List.mem_singleton] at hq hq'
  rcases hq with hq | rfl <;> rcases hq' with hq' | rfl
  · exact h.home q hq q' hq' ht
  · exact hhome q hq ht
  · exact (hhome q' hq' ht.symm).imp Eq.symm Eq.symm
  · exact ⟨rfl, rfl⟩

theorem Inv.register (h : s.Inv) (hfresh : r.session ∉ s.registrations.map Registration.session)
    (ha : s.Accepts r) : ((s.publish r).consume r.uid r.token).Inv := by
  have hkeys := register_keys s r
  have hprefix : s.registrations <+: ((s.publish r).consume r.uid r.token).registrations :=
    List.prefix_append _ _
  have htoken : ∀ u t, (t, u) ∈ s.issued → t ∉ s.consumed → t = r.token → u = r.uid := by
    rintro u t hi hc rfl
    exact h.pending_uid ha hi hc
  refine ⟨fun u d => ?_, ?_, h.owner, fun u t ht => ?_, fun u t t' ht => ?_, fun t ht => ?_,
    h.home_append ha, ?_⟩
  · by_cases hslot : u = r.uid ∧ d = r.device
    · refine .inr ⟨s.registrations.length, r, s.clock + activeSessionMs, ?_, ?_, ?_, ?_, ?_⟩
      · simp [consume, publish]
      · exact ⟨hslot.1.symm, hslot.2.symm⟩
      · simp [hkeys, hslot]
      · simp [hkeys, hslot]
      · simp [hkeys, hslot]
    · exact h.slot_keep hprefix (by simp [hkeys, hslot]) (by simp [hkeys, hslot]) (by simp [hkeys, hslot])
  · change ((s.registrations ++ [r]).map Registration.session).Nodup
    rw [List.map_append, List.nodup_append]
    refine ⟨h.sessions, by simp, fun x hx y hy hxy => ?_⟩
    have hy : y = r.session := by simpa using hy
    exact hfresh (hy ▸ hxy ▸ hx)
  · have hold : s.text? (.pendingUser u) = some t ∧
        ¬ (u = r.uid ∧ s.text? (.pendingUser r.uid) = some r.token) := by
      obtain ⟨writer, deadline, hk, hlive⟩ := text?_eq_some.mp ht
      simp only [hkeys] at hk
      split at hk
      · cases hk
      next hnot => exact ⟨text?_eq_some.mpr ⟨writer, deadline, hk, hlive⟩, hnot⟩
    obtain ⟨hi, hc⟩ := h.pendingUser u t hold.1
    refine ⟨hi, ?_⟩
    rw [consumed_register, List.mem_append, List.mem_singleton, not_or]
    refine ⟨hc, fun he => hold.2 ?_⟩
    obtain rfl := htoken u t hi hc he
    exact ⟨rfl, he ▸ hold.1⟩
  · have hold : s.text? (.pendingToken u t) = some t' ∧ ¬ (u = r.uid ∧ t = r.token) := by
      obtain ⟨writer, deadline, hk, hlive⟩ := text?_eq_some.mp ht
      simp only [hkeys] at hk
      split at hk
      · cases hk
      next hnot => exact ⟨text?_eq_some.mpr ⟨writer, deadline, hk, hlive⟩, hnot⟩
    obtain ⟨he, hi, hc⟩ := h.pendingToken u t t' hold.1
    refine ⟨he, hi, ?_⟩
    rw [consumed_register, List.mem_append, List.mem_singleton, not_or]
    exact ⟨hc, fun he => hold.2 ⟨htoken u t hi hc he, he⟩⟩
  · rw [consumed_register, List.mem_append, List.mem_singleton] at ht
    rcases ht with ht | rfl
    · exact h.spent t ht
    · rcases h.accepts_cases ha with ⟨hi, -⟩ | ⟨c, hk, hc⟩
      · exact List.mem_map_of_mem hi
      · exact h.spent _ (hc ▸ h.token_consumed hk)
  · have hother : ∀ u d c, ¬ (u = r.uid ∧ d = r.device) → s.keys (.resource u d) = some c →
        c.value.text ≠ r.token := by
      intro u d c hslot hk ht
      rcases h.accepts_cases ha with ⟨-, hc⟩ | ⟨c', hk', ht'⟩
      · exact hc (ht ▸ h.token_consumed hk)
      · exact hslot (h.resource _ _ _ _ _ _ hk hk' (ht.trans ht'.symm))
    intro u d u' d' c c' hk hk' ht
    simp only [hkeys] at hk hk'
    split at hk <;> split at hk'
    next h1 h2 => exact ⟨h1.1.trans h2.1.symm, h1.2.trans h2.2.symm⟩
    next h1 h2 =>
      cases hk
      exact absurd ht.symm (hother u' d' c' h2 hk')
    next h1 h2 =>
      cases hk'
      exact absurd ht (hother u d c h1 hk)
    next h1 h2 => exact h.resource _ _ _ _ _ _ hk hk' ht

/-- A script that touches one slot alone keeps the rest of the invariant. -/
theorem Inv.of_slot (h : s.Inv) (hclock : s'.clock = s.clock) (hissued : s'.issued = s.issued)
    (hreg : s'.registrations = s.registrations)
    (hkeys : ∀ k, k ≠ .session uid device → k ≠ .resource uid device → k ≠ .node uid device →
      s'.keys k = s.keys k)
    (hslot : s'.Vacant uid device ∨ ∃ i r deadline, s'.Holds uid device i r deadline)
    (htoken : ∀ c', s'.keys (.resource uid device) = some c' →
      ∃ c, s.keys (.resource uid device) = some c ∧ c.value.text = c'.value.text) : s'.Inv where
  slot u d := by
    by_cases hs : u = uid ∧ d = device
    · rw [hs.1, hs.2]
      exact hslot
    · have hne : ¬ (u = uid ∧ d = device) := hs
      exact h.slot_keep (hreg ▸ List.prefix_rfl) (hkeys _ (by simp [hne]) (by simp) (by simp))
        (hkeys _ (by simp) (by simp [hne]) (by simp)) (hkeys _ (by simp) (by simp) (by simp [hne]))
  sessions := hreg ▸ h.sessions
  owner := hissued ▸ h.owner
  pendingUser u t ht := by
    rw [text?_congr (hkeys _ (by simp) (by simp) (by simp)) hclock] at ht
    rw [hissued, consumed, hreg]
    exact h.pendingUser u t ht
  pendingToken u t t' ht := by
    rw [text?_congr (hkeys _ (by simp) (by simp) (by simp)) hclock] at ht
    rw [hissued, consumed, hreg]
    exact h.pendingToken u t t' ht
  spent := by
    rw [consumed, hreg, hissued]
    exact h.spent
  home := hreg ▸ h.home
  resource u d u' d' c c' hk hk' ht := by
    have hold : ∀ u d c, s'.keys (.resource u d) = some c →
        ∃ c₀, s.keys (.resource u d) = some c₀ ∧ c₀.value.text = c.value.text := by
      intro u d c hk
      by_cases hs : u = uid ∧ d = device
      · rw [hs.1, hs.2] at hk ⊢
        exact htoken c hk
      · rw [hkeys _ (by simp) (by simp [hs]) (by simp)] at hk
        exact ⟨c, hk, rfl⟩
    obtain ⟨c₀, hc₀, ht₀⟩ := hold u d c hk
    obtain ⟨c₁, hc₁, ht₁⟩ := hold u' d' c' hk'
    exact h.resource _ _ _ _ _ _ hc₀ hc₁ (ht₀.trans (ht.trans ht₁.symm))

theorem Inv.refresh (h : s.Inv) (uid : ℕ) (session : String) (device : Device) :
    (s.refresh uid session device).2.Inv := by
  by_cases hr : (s.refresh uid session device).1 = 1
  · obtain ⟨i, r, deadline, hh, -, -, hh', hkeys⟩ := refresh_keys h hr
    obtain ⟨hclock, hissued, hreg⟩ := refresh_rest s uid session device
    refine h.of_slot hclock hissued hreg hkeys (.inr ⟨i, r, _, hh'⟩) fun c' hc' => ?_
    rw [hh'.resource] at hc'
    cases hc'
    exact ⟨_, hh.resource, rfl⟩
  · rw [refresh_refused hr]
    exact h

theorem Inv.release (h : s.Inv) (uid : ℕ) (session : String) (device : Device) :
    (s.release uid session device).2.Inv := by
  by_cases hr : (s.release uid session device).1 = 1
  · obtain ⟨-, hvacant, hkeys⟩ := release_keys hr
    obtain ⟨hclock, hissued, hreg⟩ := release_rest s uid session device
    refine h.of_slot hclock hissued hreg hkeys (.inl hvacant) fun c' hc' => ?_
    rw [hvacant.2.1] at hc'
    cases hc'
  · rw [release_refused hr]
    exact h

theorem Inv.owner_cons (h : s.Inv) (hfresh : t ∉ s.issued.map Prod.fst) :
    ∀ t' u u', (t', u) ∈ (t, uid) :: s.issued → (t', u') ∈ (t, uid) :: s.issued → u = u' := by
  have hnot : ∀ u, (t, u) ∉ s.issued := fun u hu => hfresh (List.mem_map_of_mem hu)
  intro t' u u' hu hu'
  rcases List.mem_cons.mp hu with he | hu <;> rcases List.mem_cons.mp hu' with he' | hu'
  · cases he
    cases he'
    rfl
  · cases he
    exact absurd hu' (hnot u')
  · cases he'
    exact absurd hu (hnot u)
  · exact h.owner t' u u' hu hu'

theorem issueToken_keys (s : State) {uid : ℕ} {t : String} (k : Key) (hk : k ≠ .pendingToken uid t) :
    (s.issueToken uid t).keys k = s.keys k := Keyspace.set_of_ne hk

theorem issueUserToken_keys (s : State) {uid : ℕ} {t : String} (k : Key) (hk : k ≠ .pendingUser uid) :
    (s.issueUserToken uid t).keys k = s.keys k := Keyspace.set_of_ne hk

theorem Inv.issueToken (h : s.Inv) (hfresh : t ∉ s.issued.map Prod.fst) :
    (s.issueToken uid t).Inv := by
  have hkeys := @issueToken_keys s uid t
  refine ⟨fun u d => ?_, h.sessions, h.owner_cons hfresh, fun u t' ht => ?_, fun u t' t'' ht => ?_,
    fun t' ht => List.mem_cons_of_mem _ (h.spent t' ht), h.home, fun u d u' d' c c' hk hk' => ?_⟩
  · exact h.slot_keep List.prefix_rfl (hkeys _ (by simp)) (hkeys _ (by simp)) (hkeys _ (by simp))
  · rw [text?_congr (hkeys _ (by simp)) rfl] at ht
    exact (h.pendingUser u t' ht).imp_left (List.mem_cons_of_mem _)
  · by_cases hk : u = uid ∧ t' = t
    · obtain ⟨rfl, rfl⟩ := hk
      obtain ⟨writer, deadline, hk, -⟩ := text?_eq_some.mp ht
      simp only [State.issueToken, Keyspace.set_self] at hk
      cases hk
      exact ⟨rfl, List.mem_cons_self, fun hc => hfresh (h.spent _ hc)⟩
    · rw [text?_congr (hkeys _ (by simp [hk])) rfl] at ht
      exact (h.pendingToken u t' t'' ht).imp_right (And.imp_left (List.mem_cons_of_mem _))
  · rw [hkeys _ (by simp)] at hk hk'
    exact h.resource u d u' d' c c' hk hk'

theorem Inv.issueUserToken (h : s.Inv) (hfresh : t ∉ s.issued.map Prod.fst) :
    (s.issueUserToken uid t).Inv := by
  have hkeys := @issueUserToken_keys s uid t
  refine ⟨fun u d => ?_, h.sessions, h.owner_cons hfresh, fun u t' ht => ?_, fun u t' t'' ht => ?_,
    fun t' ht => List.mem_cons_of_mem _ (h.spent t' ht), h.home, fun u d u' d' c c' hk hk' => ?_⟩
  · exact h.slot_keep List.prefix_rfl (hkeys _ (by simp)) (hkeys _ (by simp)) (hkeys _ (by simp))
  · by_cases hk : u = uid
    · subst hk
      obtain ⟨writer, deadline, hk, -⟩ := text?_eq_some.mp ht
      simp only [State.issueUserToken, Keyspace.set_self] at hk
      cases hk
      exact ⟨List.mem_cons_self, fun hc => hfresh (h.spent _ hc)⟩
    · rw [text?_congr (hkeys _ (by simp [hk])) rfl] at ht
      exact (h.pendingUser u t' ht).imp_left (List.mem_cons_of_mem _)
  · rw [text?_congr (hkeys _ (by simp)) rfl] at ht
    exact (h.pendingToken u t' t'' ht).imp_right (And.imp_left (List.mem_cons_of_mem _))
  · rw [hkeys _ (by simp)] at hk hk'
    exact h.resource u d u' d' c c' hk hk'

theorem text?_tick {ms : ℕ} {k : Key} (h : text? { s with clock := s.clock + ms } k = some t) :
    s.text? k = some t := by
  obtain ⟨writer, deadline, hk, hle⟩ := text?_eq_some.mp h
  exact text?_eq_some.mpr ⟨writer, deadline, hk, Nat.le_trans (Nat.le_add_right _ _) hle⟩

theorem Inv.step {a : Action} (h : s.Inv) (hstep : s.step a = some s') : s'.Inv := by
  cases a with
  | issueToken uid token =>
    simp only [State.step] at hstep
    split at hstep
    · cases hstep
    next hfresh =>
      cases hstep
      exact h.issueToken hfresh
  | issueUserToken uid token =>
    simp only [State.step] at hstep
    split at hstep
    · cases hstep
    next hfresh =>
      cases hstep
      exact h.issueUserToken hfresh
  | register r =>
    simp only [State.step] at hstep
    split at hstep
    · cases hstep
    next hfresh =>
      cases hstep
      unfold State.register
      split
      next ha => exact h.register hfresh ha
      next => exact h
  | refresh uid session device =>
    cases hstep
    exact h.refresh uid session device
  | release uid session device =>
    cases hstep
    exact h.release uid session device
  | tick ms =>
    cases hstep
    exact ⟨fun u d => h.slot_keep List.prefix_rfl rfl rfl rfl, h.sessions, h.owner,
      fun u t ht => h.pendingUser u t (text?_tick ht),
      fun u t t' ht => h.pendingToken u t t' (text?_tick ht), h.spent, h.home,
      h.resource⟩

/-! ## Old sessions and spent credentials -/

/-- A refresh or release with a session id touches the slot this id is live in, and no other. -/
theorem Inv.stale {a : Action} (h : s.Inv)
    (ha : a = .refresh uid session device ∨ a = .release uid session device)
    (hstep : s.step a = some s') (hother : s.text? (.session u d) ≠ some session) :
    s.SameSlot s' u d := by
  have hslot : s.text? (.session uid device) = some session → ¬ (u = uid ∧ d = device) := by
    rintro hs ⟨rfl, rfl⟩
    exact hother hs
  have hsame : ∀ t : State, ¬ (u = uid ∧ d = device) → (∀ k, k ≠ .session uid device →
      k ≠ .resource uid device → k ≠ .node uid device → t.keys k = s.keys k) → s.SameSlot t u d :=
    fun t hne hkeys => ⟨hkeys _ (by simp [hne]) (by simp) (by simp),
      hkeys _ (by simp) (by simp [hne]) (by simp), hkeys _ (by simp) (by simp) (by simp [hne])⟩
  rcases ha with rfl | rfl
  · cases hstep
    by_cases hr : (s.refresh uid session device).1 = 1
    · obtain ⟨i, r, deadline, hh, hsession, hlive, -, hkeys⟩ := refresh_keys h hr
      refine hsame _ (hslot ?_) hkeys
      exact text?_eq_some.mpr ⟨i, deadline, hsession ▸ hh.session, hlive⟩
    · rw [refresh_refused hr]
      exact ⟨rfl, rfl, rfl⟩
  · cases hstep
    by_cases hr : (s.release uid session device).1 = 1
    · obtain ⟨hs, -, hkeys⟩ := release_keys hr
      exact hsame _ (hslot hs) hkeys
    · rw [release_refused hr]
      exact ⟨rfl, rfl, rfl⟩

/-- A live session value was written by the one registration of this session id. -/
theorem Inv.writer_of_session (h : s.Inv) {i : ℕ} (hi : s.registrations[i]? = some r)
    (hs : s.text? (.session u d) = some r.session) :
    s.keys.get s.clock (.session u d) = some ⟨r.session, i⟩ := by
  obtain ⟨j, deadline, hk, hlive⟩ := text?_eq_some.mp hs
  rcases h.slot u d with hv | ⟨j', r', deadline', hh⟩
  · rw [hv.1] at hk
    cases hk
  · rw [hh.session] at hk
    have hsession : r'.session = r.session := congrArg (fun c => (c.map (·.value.text)).getD "") hk
    have hij : j' = i := by
      have hlt : j' < (s.registrations.map Registration.session).length := by
        rw [List.length_map]
        exact (List.getElem?_eq_some_iff.mp hh.registered).1
      refine (List.getElem?_inj hlt h.sessions).mp ?_
      rw [List.getElem?_map, List.getElem?_map, hh.registered, hi, Option.map_some, Option.map_some,
        hsession]
    obtain rfl : deadline' = deadline := congrArg (fun c => (c.map Cell.deadline).getD 0) hk
    rw [← hsession, ← hij]
    exact Keyspace.get_eq_some.mpr ⟨_, hh.session, hlive⟩

/-- A credential that was consumed and is live in no slot. -/
def Spent (s : State) (t : String) : Prop :=
  t ∈ s.consumed ∧ ∀ u d, s.text? (.resource u d) ≠ some t

theorem Inv.spent_rejected (h : s.Inv) (hs : s.Spent t) (hr : r.token = t) : ¬ s.Accepts r := by
  subst hr
  rintro (ha | ha | ha)
  · exact (h.pendingUser _ _ ha.1).2 hs.1
  · exact (h.pendingToken _ _ _ ha.1).2.2 hs.1
  · exact hs.2 _ _ ha.1

theorem Spent.step {a : Action} (hs : s.Spent t) (h : s.Inv) (hstep : s.step a = some s') :
    s'.Spent t := by
  cases a with
  | issueToken uid token =>
    simp only [State.step] at hstep
    split at hstep
    · cases hstep
    · cases hstep
      refine ⟨hs.1, fun u d => ?_⟩
      rw [text?_congr (issueToken_keys s _ (by simp)) rfl]
      exact hs.2 u d
  | issueUserToken uid token =>
    simp only [State.step] at hstep
    split at hstep
    · cases hstep
    · cases hstep
      refine ⟨hs.1, fun u d => ?_⟩
      rw [text?_congr (issueUserToken_keys s _ (by simp)) rfl]
      exact hs.2 u d
  | register r =>
    simp only [State.step] at hstep
    split at hstep
    · cases hstep
    · cases hstep
      unfold State.register
      split
      next ha =>
        refine ⟨?_, fun u d ht => ?_⟩
        · rw [consumed_register]
          exact List.mem_append_left _ hs.1
        · obtain ⟨writer, deadline, hk, hlive⟩ := text?_eq_some.mp ht
          simp only [register_keys] at hk
          split at hk
          · cases hk
            exact h.spent_rejected hs rfl ha
          · exact hs.2 u d (text?_eq_some.mpr ⟨writer, deadline, hk, hlive⟩)
      next => exact hs
  | refresh uid session device =>
    cases hstep
    by_cases hr : (s.refresh uid session device).1 = 1
    · obtain ⟨i, r, deadline, hh, -, hlive, hh', hkeys⟩ := refresh_keys h hr
      obtain ⟨hclock, -, hreg⟩ := refresh_rest s uid session device
      refine ⟨?_, fun u d ht => ?_⟩
      · rw [consumed, hreg]
        exact hs.1
      by_cases hslot : u = uid ∧ d = device
      · obtain ⟨rfl, rfl⟩ := hslot
        obtain ⟨writer, deadline', hk, -⟩ := text?_eq_some.mp ht
        rw [hh'.resource] at hk
        cases hk
        exact hs.2 u d (text?_eq_some.mpr ⟨i, deadline, hh.resource, hlive⟩)
      · rw [text?_congr (hkeys _ (by simp) (by simp [hslot]) (by simp)) hclock] at ht
        exact hs.2 u d ht
    · rw [refresh_refused hr]
      exact hs
  | release uid session device =>
    cases hstep
    by_cases hr : (s.release uid session device).1 = 1
    · obtain ⟨-, hvacant, hkeys⟩ := release_keys hr
      obtain ⟨hclock, -, hreg⟩ := release_rest s uid session device
      refine ⟨?_, fun u d ht => ?_⟩
      · rw [consumed, hreg]
        exact hs.1
      by_cases hslot : u = uid ∧ d = device
      · obtain ⟨rfl, rfl⟩ := hslot
        obtain ⟨writer, deadline', hk, -⟩ := text?_eq_some.mp ht
        rw [hvacant.2.1] at hk
        cases hk
      · rw [text?_congr (hkeys _ (by simp) (by simp [hslot]) (by simp)) hclock] at ht
        exact hs.2 u d ht
    · rw [release_refused hr]
      exact hs
  | tick ms =>
    cases hstep
    exact ⟨hs.1, fun u d ht => hs.2 u d (text?_tick ht)⟩

/-- A credential that left its slot is live nowhere. -/
theorem Inv.spent_of_left (h : s.Inv) (hr : r ∈ s.registrations)
    (hleft : s.text? (.resource r.uid r.device) ≠ some r.token) : s.Spent r.token := by
  refine ⟨List.mem_map_of_mem hr, fun u d ht => hleft ?_⟩
  obtain ⟨writer, deadline, hk, hlive⟩ := text?_eq_some.mp ht
  rcases h.slot u d with hv | ⟨i, r', deadline', hh⟩
  · rw [hv.2.1] at hk
    cases hk
  · have htoken : r'.token = r.token := by
      rw [hh.resource] at hk
      exact congrArg (fun c => (c.map (·.value.text)).getD "") hk
    obtain ⟨hu, hd⟩ := h.home r hr r' (List.mem_of_getElem? hh.registered) htoken.symm
    rw [hu, hd, hh.slot.1, hh.slot.2]
    exact ht

/-! ## Where a session id comes from and where it goes -/

theorem session_of_register (h : (s.register r).2.text? (.session u d) = some t) :
    s.text? (.session u d) = some t ∨
      ((s.register r).1 = 1 ∧ t = r.session ∧ u = r.uid ∧ d = r.device) := by
  unfold State.register at h ⊢
  split
  next ha =>
    rw [if_pos ha] at h
    obtain ⟨writer, deadline, hk, hlive⟩ := text?_eq_some.mp h
    simp only [register_keys] at hk
    split at hk
    next hslot =>
      cases hk
      exact .inr ⟨rfl, rfl, hslot⟩
    next => exact .inl (text?_eq_some.mpr ⟨writer, deadline, hk, hlive⟩)
  next ha =>
    rw [if_neg ha] at h
    exact .inl h

theorem step_register (hfresh : r.session ∉ s.registrations.map Registration.session) :
    s.step (.register r) = some (s.register r).2 := if_neg hfresh

theorem registrations_of_register (s : State) (r : Registration) :
    (s.register r).2.registrations =
      if (s.register r).1 = 1 then s.registrations ++ [r] else s.registrations := by
  unfold State.register
  split <;> rfl

theorem Inv.session_of_refresh (h : s.Inv)
    (ht : (s.refresh uid session device).2.text? (.session u d) = some t) :
    s.text? (.session u d) = some t := by
  by_cases hr : (s.refresh uid session device).1 = 1
  · obtain ⟨i, r, deadline, hh, -, hlive, hh', hkeys⟩ := refresh_keys h hr
    by_cases hslot : u = uid ∧ d = device
    · obtain ⟨rfl, rfl⟩ := hslot
      obtain ⟨writer, deadline', hk, -⟩ := text?_eq_some.mp ht
      rw [hh'.session] at hk
      cases hk
      exact text?_eq_some.mpr ⟨i, deadline, hh.session, hlive⟩
    · rwa [text?_congr (hkeys _ (by simp [hslot]) (by simp) (by simp))
        (refresh_rest s uid session device).1] at ht
  · rwa [refresh_refused hr] at ht

theorem session_of_release (ht : (s.release uid session device).2.text? (.session u d) = some t) :
    s.text? (.session u d) = some t ∧ ¬ (u = uid ∧ d = device ∧ t = session) := by
  by_cases hr : (s.release uid session device).1 = 1
  · obtain ⟨-, hvacant, hkeys⟩ := release_keys hr
    by_cases hslot : u = uid ∧ d = device
    · obtain ⟨rfl, rfl⟩ := hslot
      obtain ⟨writer, deadline, hk, -⟩ := text?_eq_some.mp ht
      rw [hvacant.1] at hk
      cases hk
    · rw [text?_congr (hkeys _ (by simp [hslot]) (by simp) (by simp))
        (release_rest s uid session device).1] at ht
      exact ⟨ht, fun he => hslot ⟨he.1, he.2.1⟩⟩
  · rw [release_refused hr] at ht
    refine ⟨ht, ?_⟩
    rintro ⟨rfl, rfl, rfl⟩
    refine hr ?_
    rw [State.release, if_neg (not_not.mpr ht)]

/-! ## What every interleaving guarantees -/

/-- The promises of the slot protocol in one state, and from it on. -/
structure SlotSafe (s : State) : Prop where
  whole : ∀ u d,
    (s.text? (.session u d) = none ∧ s.text? (.resource u d) = none ∧ s.text? (.node u d) = none) ∨
    ∃ i r, s.registrations[i]? = some r ∧ r.uid = u ∧ r.device = d ∧
      s.keys.get s.clock (.session u d) = some ⟨r.session, i⟩ ∧
      s.keys.get s.clock (.resource u d) = some ⟨r.token, i⟩ ∧
      s.keys.get s.clock (.node u d) = some ⟨r.node, i⟩
  stale : ∀ i r uid device a s', s.registrations[i]? = some r →
    a = .refresh uid r.session device ∨ a = .release uid r.session device →
    s.step a = some s' → ∀ u d, s.keys.get s.clock (.session u d) ≠ some ⟨r.session, i⟩ →
      s.SameSlot s' u d
  single : ∀ t u d u' d', s.text? (.resource u d) = some t → s.text? (.resource u' d') = some t →
    u = u' ∧ d = d'
  spent : ∀ r ∈ s.registrations, s.text? (.resource r.uid r.device) ≠ some r.token →
    ∀ s', slots.Run s s' → ∀ q : Registration, q.token = r.token →
      (s'.register q).1 = 0 ∧ s'.text? (.resource q.uid q.device) ≠ some q.token

theorem Inv.whole (h : s.Inv) (u : ℕ) (d : Device) :
    (s.text? (.session u d) = none ∧ s.text? (.resource u d) = none ∧ s.text? (.node u d) = none) ∨
    ∃ i r, s.registrations[i]? = some r ∧ r.uid = u ∧ r.device = d ∧
      s.keys.get s.clock (.session u d) = some ⟨r.session, i⟩ ∧
      s.keys.get s.clock (.resource u d) = some ⟨r.token, i⟩ ∧
      s.keys.get s.clock (.node u d) = some ⟨r.node, i⟩ := by
  rcases h.slot u d with ⟨hs, hr, hn⟩ | ⟨i, r, deadline, hh⟩
  · exact .inl ⟨by simp [text?, Keyspace.get, hs], by simp [text?, Keyspace.get, hr],
      by simp [text?, Keyspace.get, hn]⟩
  -- one deadline for the three keys: they are all live or all expired
  by_cases hlive : s.clock ≤ deadline
  · exact .inr ⟨i, r, hh.registered, hh.slot.1, hh.slot.2,
      Keyspace.get_eq_some.mpr ⟨_, hh.session, hlive⟩,
      Keyspace.get_eq_some.mpr ⟨_, hh.resource, hlive⟩,
      Keyspace.get_eq_some.mpr ⟨_, hh.node, hlive⟩⟩
  · exact .inl ⟨by simp [text?, Keyspace.get, hh.session, hlive],
      by simp [text?, Keyspace.get, hh.resource, hlive],
      by simp [text?, Keyspace.get, hh.node, hlive]⟩

theorem inv_invariant : slots.Invariant Inv where
  init s := by
    rintro ⟨hkeys, hissued, hreg⟩
    have htext : ∀ k, s.text? k = none := fun k => by simp [text?, Keyspace.get, hkeys]
    refine ⟨fun u d => .inl ⟨hkeys _, hkeys _, hkeys _⟩, by simp [hreg], by simp [hissued],
      by simp [htext], by simp [htext], by simp [consumed, hreg], by simp [hreg], ?_⟩
    simp [hkeys]
  step _ _ _ _ h hstep := h.step hstep

theorem Spent.run (hs : s.Spent t) (hreach : slots.Reachable s) (h : slots.Run s s') :
    s'.Spent t := by
  induction h with
  | refl => exact hs
  | tail hrun hnext ih =>
    obtain ⟨a, ha⟩ := hnext
    exact ih.step (inv_invariant.reachable (hreach.run hrun)) ha

end State

/-- Every interleaving of the scripts keeps the slot protocol's promises. -/
theorem slot_safe (s : State) (h : slots.Reachable s) : s.SlotSafe := by
  have hinv := State.inv_invariant.reachable h
  refine ⟨hinv.whole, fun i r uid device a s' hi ha hstep u d hother => ?_,
    fun t u d u' d' ht ht' => ?_, fun r hr hleft s' hrun q hq => ?_⟩
  · exact hinv.stale ha hstep fun hs => hother (hinv.writer_of_session hi hs)
  · obtain ⟨writer, deadline, hk, -⟩ := State.text?_eq_some.mp ht
    obtain ⟨writer', deadline', hk', -⟩ := State.text?_eq_some.mp ht'
    exact hinv.resource u d u' d' _ _ hk hk' rfl
  · have hspent := (hinv.spent_of_left hr hleft).run h hrun
    refine ⟨?_, hq ▸ hspent.2 q.uid q.device⟩
    rw [State.register, if_neg]
    exact (State.inv_invariant.reachable (h.run hrun)).spent_rejected hspent hq

def noSlots : State := ⟨0, fun _ => none, [], []⟩

/-- A second login takes the desktop slot over; the first session refreshes and releases late. -/
def sampleActions : List Action :=
  [.issueToken 1 "a", .register ⟨1, .desktop, "s1", "a", "node1"⟩, .tick 1000,
    .issueToken 1 "b", .register ⟨1, .desktop, "s2", "b", "node2"⟩,
    .refresh 1 "s1" .desktop, .release 1 "s1" .desktop, .register ⟨1, .desktop, "s3", "a", "node1"⟩]

theorem slot_safe_sample : ∃ s, Machine.runFn State.step noSlots sampleActions = some s ∧
    s.text? (.session 1 .desktop) = some "s2" ∧ s.registrations.length = 2 ∧ s.SlotSafe := by
  have hrun : (Machine.runFn State.step noSlots sampleActions).map
      (fun s => (s.text? (.session 1 .desktop), s.registrations.length)) = some (some "s2", 2) := by
    decide +kernel
  obtain ⟨s, hs, hstate⟩ := Option.map_eq_some_iff.mp hrun
  have hinit : slots.Reachable noSlots := .init ⟨fun _ => rfl, rfl, rfl⟩
  exact ⟨s, hs, congrArg Prod.fst hstate, congrArg Prod.snd hstate, slot_safe s (hinit.runFn hs)⟩

end CppChat.Session
