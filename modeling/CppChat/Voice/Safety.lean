import CppChat.Voice.Invariant

/-! # Safety of voice calls

For every run of commands, expiries and changes of the login sessions: both parties hold
one record, a call only rings, becomes active and ends, nobody but its bound parties
changes it, and nothing brings an ended call back.
-/
namespace CppChat.Voice
open Foundation

variable {num : ℚ → ℚ} {s s' : State} {cmd : Command} {u v : Int} {c c' : Call}

theorem setBoth_call? (s : State) (u p : Int) (c : Call) (px : ℕ) (v : Int) :
    (s.setBoth u p c px).call? v = if v = u ∨ v = p then some c else s.call? v := by
  have hlive : s.ms ≤ s.ms + px := Nat.le_add_right _ _
  change ((s.voice.set u c (s.ms + px)).set p c (s.ms + px)).get s.ms v = _
  by_cases hp : v = p
  · subst hp
    rw [Keyspace.get_set_self hlive, if_pos (.inr rfl)]
  · rw [Keyspace.get_set_of_ne hp]
    by_cases hu : v = u
    · subst hu
      rw [Keyspace.get_set_self hlive, if_pos (.inl rfl)]
    · rw [Keyspace.get_set_of_ne hu, if_neg (by simp [hu, hp])]
      rfl

theorem delBoth_call? (s : State) (u p v : Int) :
    (s.delBoth u p).call? v = if v = u ∨ v = p then none else s.call? v := by
  change ((s.voice.del u).del p).get s.ms v = _
  by_cases hp : v = p
  · subst hp
    rw [Keyspace.get_del_self, if_pos (.inr rfl)]
  · rw [Keyspace.get_del_of_ne hp]
    by_cases hu : v = u
    · subst hu
      rw [Keyspace.get_del_self, if_pos (.inl rfl)]
    · rw [Keyspace.get_del_of_ne hu, if_neg (by simp [hu, hp])]
      rfl

theorem State.Paired.partner (h : s.Paired) (hc : s.call? u = some c) :
    ∃ p, p ≠ u ∧ c.Between u p ∧ s.call? p = some c := by
  obtain ⟨d, hu, hd⟩ := call?_eq_some.mp hc
  obtain ⟨p, hp, hb, hpc⟩ := h u c d hu hd
  exact ⟨p, hp, hb, call?_eq_some.mpr ⟨d, hpc, hd⟩⟩

/-- The two ends of a command see the same record. -/
theorem State.Paired.bound_call (h : s.Paired) {first : Bool}
    (hb : Bound s cmd c first) (hv : v = cmd.uid ∨ v = cmd.peer) : s.call? v = some c := by
  rcases hv with rfl | rfl
  · exact hb.call
  · obtain ⟨p, hp, hbp, hpc⟩ := h.partner hb.call
    rwa [← hbp.other (Call.between_of_party hb.party) hp] at hpc

/-- How one step of a lasting call may change its record. -/
def Call.Evolves (c c' : Call) (a : Action) : Prop :=
  c.Same c' ∧ (c'.state = c.state ∨ (c.state = .ringing ∧ c'.state = .active ∧
    ∃ cmd, a = .command cmd ∧ cmd.op = .accept ∧ cmd.uid = c.b ∧ cmd.peer = c.a ∧
      cmd.device = c.db ∧ cmd.session = c.sb))

theorem command_evolves (h : s.Paired) (hc : s.call? u = some c)
    (hc' : (s.voiceTransition num cmd).2.call? u = some c') : c.Evolves c' (.command cmd) := by
  have hdid := voiceTransition_did num s cmd
  generalize s.voiceTransition num cmd = r at hdid hc'
  have hsame : s.call? u = some c' → c.Evolves c' (.command cmd) := by
    intro he
    rw [hc] at he
    cases he
    exact ⟨.refl c, .inl rfl⟩
  cases hdid with
  | refused he => exact hsame hc'
  | invited hop huid hpeer hid hstate hab hown hbound rate =>
    change (s.setBoth _ _ _ _).call? u = some c' at hc'
    rw [setBoth_call?] at hc'
    split at hc'
    next hu =>
      rcases hu with rfl | rfl
      · rw [huid] at hc
        cases hc
      · rw [hpeer] at hc
        cases hc
    next => exact hsame hc'
  | removed hb hop =>
    rw [delBoth_call?] at hc'
    split at hc'
    · cases hc'
    · exact hsame hc'
  | @changed c₀ c₁ first hb hop hs hstate =>
    rw [setBoth_call?] at hc'
    split at hc'
    next hu =>
      cases hc'
      rw [h.bound_call hb hu] at hc
      cases hc
      refine ⟨hs.encode num, ?_⟩
      rcases hstate with hstate | ⟨hring, hact, hop, rfl⟩
      · exact .inl hstate
      · refine .inr ⟨hring, hact, cmd, rfl, hop, ?_⟩
        have hparty := hb.party
        unfold Call.party at hparty
        split at hparty
        · cases hparty
        · split at hparty
          next hab =>
            exact ⟨hab.1.symm, hab.2.symm, (congrArg Prod.fst hb.devices).symm, hb.own.1.symm⟩
          next => cases hparty
    next => exact hsame hc'

theorem step_evolves {a : Action} (h : s.Paired) (hstep : s.step num a = some s')
    (hc : s.call? u = some c) (hc' : s'.call? u = some c') : c.Evolves c' a := by
  cases a with
  | command cmd =>
    simp only [State.step] at hstep
    split at hstep
    · cases hstep
    · cases hstep
      exact command_evolves h hc hc'
  | tick micros =>
    cases hstep
    have hle : s.ms ≤ State.ms { s with clock := s.clock + micros } :=
      Nat.div_le_div_right (Nat.le_add_right _ _)
    have he : s.call? u = some c' := Keyspace.get_of_later hle hc'
    rw [hc] at he
    cases he
    exact ⟨.refl c, .inl rfl⟩
  | setSession uid device session =>
    cases hstep
    have he : s.call? u = some c' := hc'
    rw [hc] at he
    cases he
    exact ⟨.refl c, .inl rfl⟩

/-- A new call rings, and is bound to the session and device of both ends. -/
def Call.Opened (c : Call) (s : State) (a : Action) : Prop :=
  c.state = .ringing ∧ ∃ cmd, a = .command cmd ∧ cmd.op = .invite ∧ c.id = cmd.call ∧
    (c.a = cmd.uid ∧ c.b = cmd.peer) ∧ (c.sa = cmd.session ∧ c.da = cmd.device) ∧
      c.db = cmd.peerDevice ∧ s.session (cmd.peer, cmd.peerDevice) = some c.sb

/-- Only an invitation opens a call. -/
theorem step_opens {a : Action} (h : s.Paired) (hstep : s.step num a = some s')
    (hc : s.call? u = none) (hc' : s'.call? u = some c') : c'.Opened s a := by
  cases a with
  | command cmd =>
    simp only [State.step] at hstep
    split at hstep
    · cases hstep
    · cases hstep
      have hdid := voiceTransition_did num s cmd
      generalize s.voiceTransition num cmd = r at hdid hc'
      have hnone : s.call? u ≠ some c' := by
        rw [hc]
        exact (Option.some_ne_none c').symm
      cases hdid with
      | refused he => exact absurd hc' hnone
      | invited hop huid hpeer hid hstate hab hown hbound rate =>
        change (s.setBoth _ _ _ _).call? u = some c' at hc'
        rw [setBoth_call?] at hc'
        split at hc'
        · cases hc'
          exact ⟨hstate, cmd, rfl, hop, hid, hab, hown, hbound⟩
        · exact absurd hc' hnone
      | removed hb hop =>
        rw [delBoth_call?] at hc'
        split at hc'
        · cases hc'
        · exact absurd hc' hnone
      | changed hb hop hs hstate =>
        rw [setBoth_call?] at hc'
        split at hc'
        next hu =>
          rw [h.bound_call hb hu] at hc
          cases hc
        next => exact absurd hc' hnone
  | tick micros =>
    cases hstep
    have hle : s.ms ≤ State.ms { s with clock := s.clock + micros } :=
      Nat.div_le_div_right (Nat.le_add_right _ _)
    have he : s.call? u = some c' := Keyspace.get_of_later hle hc'
    rw [hc] at he
    cases he
  | setSession uid device session =>
    cases hstep
    have he : s.call? u = some c' := hc'
    rw [hc] at he
    cases he

/-- A command on the record of somebody's call comes from a bound party of this call. -/
theorem command_authority (h : s.Paired) (hc : s.call? u = some c)
    (hchange : (s.voiceTransition num cmd).2.voice u ≠ s.voice u) : ∃ first, Bound s cmd c first := by
  have hdid := voiceTransition_did num s cmd
  generalize s.voiceTransition num cmd = r at hdid hchange
  cases hdid with
  | refused he => exact absurd rfl hchange
  | invited hop huid hpeer hid hstate hab hown hbound rate =>
    refine absurd ?_ hchange
    have hu : u ≠ cmd.uid ∧ u ≠ cmd.peer := by
      constructor
      · rintro rfl
        rw [huid] at hc
        cases hc
      · rintro rfl
        rw [hpeer] at hc
        cases hc
    simp [State.setBoth, hu.1, hu.2]
  | @removed c₀ first e hb hop =>
    by_cases hu : u = cmd.uid ∨ u = cmd.peer
    · rw [h.bound_call hb hu] at hc
      cases hc
      exact ⟨first, hb⟩
    · simp only [not_or] at hu
      refine absurd ?_ hchange
      simp [State.delBoth, hu.1, hu.2]
  | @changed c₀ c₁ first hb hop hs hstate =>
    by_cases hu : u = cmd.uid ∨ u = cmd.peer
    · rw [h.bound_call hb hu] at hc
      cases hc
      exact ⟨first, hb⟩
    · simp only [not_or] at hu
      refine absurd ?_ hchange
      simp [State.setBoth, hu.1, hu.2]

/-- A command for a call its sender is not in fails and changes nothing. -/
theorem stale_command (hop : cmd.op ≠ .invite)
    (hstale : ∀ c, s.call? cmd.uid = some c → c.id ≠ cmd.call) :
    (s.voiceTransition num cmd).1 ≠ success ∧ (s.voiceTransition num cmd).2 = s := by
  have hdid := voiceTransition_did num s cmd
  generalize s.voiceTransition num cmd = r at hdid
  cases hdid with
  | refused he => exact ⟨he, rfl⟩
  | invited hinvite => exact absurd hinvite hop
  | removed hb => exact absurd hb.id (hstale _ hb.call)
  | changed hb => exact absurd hb.id (hstale _ hb.call)

def Action.Invites (id : String) (a : Action) : Prop :=
  ∃ cmd, a = .command cmd ∧ cmd.op = .invite ∧ cmd.call = id

theorem paired_of_reachable (h : (voice num).Reachable s) : s.Paired :=
  (paired_invariant num).reachable h

/-- Without a new invitation under its id, an ended call stays ended. -/
theorem no_revival {id : String} (hs : (voice num).Reachable s)
    (hnone : ∀ u c, s.call? u = some c → c.id ≠ id)
    (hrun : ((voice num).restrict fun _ a => ¬ a.Invites id).Run s s') :
    (voice num).Reachable s' ∧ ∀ u c, s'.call? u = some c → c.id ≠ id := by
  induction hrun with
  | refl => exact ⟨hs, hnone⟩
  | @tail t t' _ hnext ih =>
    obtain ⟨a, hinvite, hstep⟩ := hnext
    obtain ⟨ht, hids⟩ := ih
    have hpaired := paired_of_reachable ht
    refine ⟨ht.step hstep, fun u c' hc' => ?_⟩
    cases hc : t.call? u with
    | none =>
      obtain ⟨-, cmd, rfl, hop, hid, -⟩ := step_opens hpaired hstep hc hc'
      exact fun he => hinvite ⟨cmd, rfl, hop, hid.symm.trans he⟩
    | some c =>
      rw [(step_evolves hpaired hstep hc hc').1.id]
      exact hids u c hc

/-- As long as its id is not invited again, the key of a party holds the call it held, and an
active call never rings again. -/
theorem call_lasts (hs : (voice num).Reachable s) (hc : s.call? u = some c)
    (hrun : ((voice num).restrict fun _ a => ¬ a.Invites c.id).Run s s') :
    (voice num).Reachable s' ∧ ∀ c', s'.call? u = some c' → c'.id = c.id →
      c.Same c' ∧ (c.state = .active → c'.state = .active) := by
  induction hrun with
  | refl =>
    refine ⟨hs, fun c' hc' _ => ?_⟩
    rw [hc] at hc'
    cases hc'
    exact ⟨.refl c, id⟩
  | @tail t t' _ hnext ih =>
    obtain ⟨a, hinvite, hstep⟩ := hnext
    obtain ⟨ht, hlast⟩ := ih
    have hpaired := paired_of_reachable ht
    refine ⟨ht.step hstep, fun c' hc' hid => ?_⟩
    cases ht' : t.call? u with
    | none =>
      obtain ⟨-, cmd, rfl, hop, hcall, -⟩ := step_opens hpaired hstep ht' hc'
      exact absurd ⟨cmd, rfl, hop, hcall.symm.trans hid⟩ hinvite
    | some d =>
      obtain ⟨hsame, hstate⟩ := step_evolves hpaired hstep ht' hc'
      obtain ⟨hfirst, hactive⟩ := hlast d ht' (hsame.id.symm.trans hid)
      refine ⟨hfirst.trans hsame, fun hact => ?_⟩
      rcases hstate with hkept | ⟨hring, -⟩
      · exact hkept.trans (hactive hact)
      · rw [hactive hact] at hring
        cases hring

/-- What every reachable state of the voice keys guarantees. -/
structure CallSafe (num : ℚ → ℚ) (s : State) : Prop where
  /-- The key of a party exists with the key of the other one, and both hold one record. -/
  paired : ∀ u c, s.call? u = some c → ∃ p, p ≠ u ∧ c.Between u p ∧ s.call? p = some c
  single : ∀ u v c c', s.call? u = some c → s.call? v = some c' → c'.Between u v → c' = c
  /-- A call keeps its identity; it becomes active by its callee's accept alone. -/
  evolves : ∀ a s', s.step num a = some s' → ∀ u c c', s.call? u = some c →
    s'.call? u = some c' → c.Evolves c' a
  opens : ∀ a s', s.step num a = some s' → ∀ u c', s.call? u = none → s'.call? u = some c' →
    c'.Opened s a
  lasts : ∀ u c, s.call? u = some c → ∀ s',
    ((voice num).restrict fun _ a => ¬ a.Invites c.id).Run s s' → ∀ c', s'.call? u = some c' →
      c'.id = c.id → c.Same c' ∧ (c.state = .active → c'.state = .active)
  /-- Whoever changes or removes a call is a party bound to it, and so is the other end. -/
  authority : ∀ a s', s.step num a = some s' → ∀ u c, s.call? u = some c →
    s'.voice u ≠ s.voice u → ∃ cmd first, a = .command cmd ∧ Bound s cmd c first
  stale : ∀ cmd, cmd.op ≠ .invite → (∀ c, s.call? cmd.uid = some c → c.id ≠ cmd.call) →
    (s.voiceTransition num cmd).1 ≠ success ∧ (s.voiceTransition num cmd).2 = s
  ended : ∀ id, (∀ u c, s.call? u = some c → c.id ≠ id) → ∀ s',
    ((voice num).restrict fun _ a => ¬ a.Invites id).Run s s' →
      ∀ u c, s'.call? u = some c → c.id ≠ id

/-- Calls are safe in every run, however numbers are rounded on the way to Redis. -/
theorem call_safe (h : (voice num).Reachable s) : CallSafe num s where
  paired u c hc := (paired_of_reachable h).partner hc
  single u v c c' hc hc' hb := by
    obtain ⟨p, -, hbp, hpc⟩ := (paired_of_reachable h).partner hc'
    by_cases huv : u = v
    · subst huv
      rw [hc] at hc'
      cases hc'
      rfl
    · rw [hb.symm.other hbp huv] at hpc
      rw [hc] at hpc
      cases hpc
      rfl
  evolves a s' hstep u c c' hc hc' := step_evolves (paired_of_reachable h) hstep hc hc'
  opens a s' hstep u c' hc hc' := step_opens (paired_of_reachable h) hstep hc hc'
  lasts u c hc s' hrun c' hc' hid := (call_lasts h hc hrun).2 c' hc' hid
  authority a s' hstep u c hc hchange := by
    cases a with
    | command cmd =>
      simp only [State.step] at hstep
      split at hstep
      · cases hstep
      · cases hstep
        obtain ⟨first, hb⟩ := command_authority (paired_of_reachable h) hc hchange
        exact ⟨cmd, first, rfl, hb⟩
    | tick micros =>
      cases hstep
      exact absurd rfl hchange
    | setSession uid device session =>
      cases hstep
      exact absurd rfl hchange
  stale cmd hop hstale := stale_command hop hstale
  ended id hnone s' hrun := (no_revival h hnone hrun).2

/-! ## A sample run -/

def offline : State := ⟨0, fun _ => none, fun _ => none, fun _ => none⟩

def sampleCommand (uid peer : Int) (session : String) (op : Op) (device peerDevice : Device) : Command :=
  ⟨uid, peer, session, "0123456789abcdef0123456789abcdef", op, 1, true, true, device, peerDevice, ""⟩

/-- A desktop calls a phone, which answers; the caller pings and sends a picture. -/
def sampleActions : List Action :=
  [.setSession 1 .desktop (some "s1"), .setSession 2 .android (some "s2"), .tick 1500,
    .command (sampleCommand 1 2 "s1" .invite .desktop .android), .tick 2000,
    .command (sampleCommand 2 1 "s2" .accept .android .desktop), .tick 1000,
    .command (sampleCommand 1 2 "s1" .ping .desktop .android),
    .command (sampleCommand 1 2 "s1" .video .desktop .android)]

theorem call_safe_sample : ∃ s, Machine.runFn (State.step id) offline sampleActions = some s ∧
    (s.call? 2).map Call.state = some .active ∧ CallSafe id s := by
  have hrun : (Machine.runFn (State.step id) offline sampleActions).map
      (fun s => (s.call? 2).map Call.state) = some (some .active) := by decide +kernel
  obtain ⟨s, hs, hstate⟩ := Option.map_eq_some_iff.mp hrun
  have hinit : (voice id).Reachable offline := .init fun _ => rfl
  exact ⟨s, hs, hstate, call_safe (hinit.runFn hs)⟩

end CppChat.Voice
