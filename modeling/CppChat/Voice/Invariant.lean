import CppChat.Voice.Transition

/-! # What one command can do to a call

The script is inverted once: a command is refused, opens a call where neither party has
one, or changes or removes the call of its two parties after every check on both ends.
The pairing of the two keys follows for every run.
-/
namespace CppChat.Voice
open Foundation

/-- The two parties of the call. -/
def Call.Between (c : Call) (u p : Int) : Prop := (c.a = u ∧ c.b = p) ∨ (c.a = p ∧ c.b = u)

/-- The fields that identify a call never change while it lasts. -/
structure Call.Same (c c' : Call) : Prop where
  id : c'.id = c.id
  a : c'.a = c.a
  b : c'.b = c.b
  sa : c'.sa = c.sa
  sb : c'.sb = c.sb
  da : c'.da = c.da
  db : c'.db = c.db
  video : c'.video = c.video

theorem Call.Same.refl (c : Call) : c.Same c := ⟨rfl, rfl, rfl, rfl, rfl, rfl, rfl, rfl⟩

theorem Call.Same.trans {c c' c'' : Call} (h : c.Same c') (h' : c'.Same c'') : c.Same c'' :=
  ⟨h'.1.trans h.1, h'.2.trans h.2, h'.3.trans h.3, h'.4.trans h.4, h'.5.trans h.5, h'.6.trans h.6,
    h'.7.trans h.7, h'.8.trans h.8⟩

theorem Call.Same.encode {c c' : Call} (h : c.Same c') (num : ℚ → ℚ) : c.Same (c'.encode num) :=
  ⟨h.id, h.a, h.b, h.sa, h.sb, h.da, h.db, h.video⟩

theorem Call.Same.between {c c' : Call} (h : c.Same c') {u p : Int} (hb : c.Between u p) :
    c'.Between u p := by
  rw [Call.Between, h.a, h.b]
  exact hb

theorem Call.setSide_same (c : Call) (first : Bool) (s : Side) : c.Same (c.setSide first s) := by
  unfold Call.setSide
  split <;> exact ⟨rfl, rfl, rfl, rfl, rfl, rfl, rfl, rfl⟩

theorem Call.setSide_state (c : Call) (first : Bool) (s : Side) :
    (c.setSide first s).state = c.state := by
  unfold Call.setSide
  split <;> rfl

theorem Call.between_of_party {c : Call} {u p : Int} {first : Bool} (h : c.party u p = some first) :
    c.Between u p := by
  unfold Call.party at h
  split at h
  next hab => exact .inl hab
  next =>
    split at h
    next hba => exact .inr ⟨hba.2, hba.1⟩
    next => cases h

theorem Call.Between.other {c : Call} {u p q : Int} (h : c.Between u p) (h' : c.Between u q)
    (hne : p ≠ u) : q = p := by
  rcases h with ⟨ha, hb⟩ | ⟨ha, hb⟩ <;> rcases h' with ⟨ha', hb'⟩ | ⟨ha', hb'⟩
  · exact hb'.symm.trans hb
  · exact absurd (hb.symm.trans hb') hne
  · exact absurd (ha.symm.trans ha') hne
  · exact ha'.symm.trans ha

theorem Call.Between.symm {c : Call} {u p : Int} (h : c.Between u p) : c.Between p u := Or.symm h

/-- The command comes from a party of the call, under the sessions and devices both ends
are bound to, and both are still logged in. -/
structure Bound (s : State) (cmd : Command) (c : Call) (first : Bool) : Prop where
  call : s.call? cmd.uid = some c
  id : c.id = cmd.call
  party : c.party cmd.uid cmd.peer = some first
  devices : c.devices first = (cmd.device, cmd.peerDevice)
  own : (c.sessions first).1 = cmd.session ∧ s.session (cmd.uid, cmd.device) = some cmd.session
  other : s.session (cmd.peer, cmd.peerDevice) = some (c.sessions first).2

inductive Did (num : ℚ → ℚ) (s : State) (cmd : Command) : ℕ × State → Prop
  | refused {e : ℕ} (he : e ≠ success) : Did num s cmd (e, s)
  | invited {c : Call} (hop : cmd.op = .invite) (huid : s.call? cmd.uid = none)
      (hpeer : s.call? cmd.peer = none) (hid : c.id = cmd.call) (hstate : c.state = .ringing)
      (hab : c.a = cmd.uid ∧ c.b = cmd.peer) (hown : c.sa = cmd.session ∧ c.da = cmd.device)
      (hpeer' : c.db = cmd.peerDevice ∧ s.session (cmd.peer, cmd.peerDevice) = some c.sb) (rate : Keyspace Int Unit) :
      Did num s cmd (success, { s.setBoth cmd.uid cmd.peer (c.encode num) ringingMs with rate })
  | removed {c : Call} {first : Bool} {e : ℕ} (h : Bound s cmd c first) (hop : cmd.op ≠ .invite) :
      Did num s cmd (e, s.delBoth cmd.uid cmd.peer)
  | changed {c c' : Call} {first : Bool} (h : Bound s cmd c first) (hop : cmd.op ≠ .invite)
      (hsame : c.Same c') (hstate : c'.state = c.state ∨ (c.state = .ringing ∧ c'.state = .active ∧
        cmd.op = .accept ∧ first = false)) :
      Did num s cmd (success, s.setBoth cmd.uid cmd.peer (c'.encode num) leaseMs)

theorem Side.takeFrame_error {s : Side} {picture : Bool} {n : Int} {now : ℚ} {e : ℕ}
    (h : s.takeFrame picture n now = .error e) : e ≠ success := by
  unfold Side.takeFrame at h
  cases picture <;> simp only [Bool.false_eq_true, if_false, if_true] at h <;> split at h
  · cases h
    decide
  · split at h <;> cases h
    decide
  · cases h
    decide
  · split at h <;> cases h
    decide

/-- An update keeps the call and its state, and a refused one has an error. -/
theorem Call.update_cases (c : Call) (first : Bool) (cmd : Command) (now : ℚ) :
    (∃ c', c.update first cmd now = .ok c' ∧ c.Same c' ∧ c'.state = c.state) ∨
      ∃ e, c.update first cmd now = .error e ∧ e ≠ success := by
  have hframe : ∀ picture, (∃ c', ((c.side first).takeFrame picture cmd.sequence now >>= fun side =>
        Except.ok (c.setSide first side)) = .ok c' ∧ c.Same c' ∧ c'.state = c.state) ∨
      ∃ e, ((c.side first).takeFrame picture cmd.sequence now >>= fun side =>
        Except.ok (c.setSide first side)) = .error e ∧ e ≠ success := by
    intro picture
    cases ht : (c.side first).takeFrame picture cmd.sequence now with
    | ok side => exact .inl ⟨_, rfl, c.setSide_same first side, c.setSide_state first side⟩
    | error e => exact .inr ⟨e, rfl, Side.takeFrame_error ht⟩
  unfold Call.update
  split
  · exact hframe false
  · split
    · exact .inr ⟨_, rfl, by decide⟩
    · exact hframe true
  · exact .inl ⟨_, rfl, c.setSide_same _ _, c.setSide_state _ _⟩
  · split
    · exact .inr ⟨_, rfl, by decide⟩
    · exact .inl ⟨_, rfl, c.setSide_same _ _, c.setSide_state _ _⟩
  · exact .inr ⟨_, rfl, by decide⟩

variable {num : ℚ → ℚ} {s s' : State} {cmd : Command}

theorem advance_did {c : Call} {first : Bool} (h : Bound s cmd c first) (hop : cmd.op ≠ .invite) :
    Did num s cmd (s.advance num cmd c first) := by
  unfold State.advance
  split
  · split
    · exact .refused (by decide)
    · split
      · exact .refused (by decide)
      · exact .removed h hop
  · split
    · exact .refused (by decide)
    · split
      next haccept =>
        split
        · exact .refused (by decide)
        next hringing =>
          push Not at hringing
          refine .changed h hop ⟨rfl, rfl, rfl, rfl, rfl, rfl, rfl, rfl⟩ (.inr ⟨hringing.2, rfl, haccept, ?_⟩)
          simpa using hringing.1
      next =>
        split
        · exact .refused (by decide)
        · split
          · exact .removed h hop
          · rcases c.update_cases first cmd s.now with ⟨c', hc', hsame, hstate⟩ | ⟨e, he, hne⟩
            · rw [hc']
              exact .changed h hop hsame (.inl hstate)
            · rw [he]
              exact .refused hne

/-- Everything a command can do. -/
theorem voiceTransition_did (num : ℚ → ℚ) (s : State) (cmd : Command) :
    Did num s cmd (s.voiceTransition num cmd) := by
  unfold State.voiceTransition
  split
  · exact .refused (by decide)
  next hsession =>
    split
    · exact .refused (by decide)
    next ps hps =>
      split
      · exact .refused (by decide)
      · split
        next hop =>
          split
          · exact .refused (by decide)
          next hfree =>
            split
            · exact .refused (by decide)
            · simp only [not_or, Option.not_isSome_iff_eq_none] at hfree
              exact .invited hop hfree.1 hfree.2 rfl rfl ⟨rfl, rfl⟩ ⟨rfl, rfl⟩ ⟨rfl, hps⟩ _
        next hop =>
          split
          next c d hc hd =>
            split
            · exact .refused (by decide)
            next hid =>
              split
              · exact .refused (by decide)
              next first hparty =>
                split
                · exact .refused (by decide)
                next hdev =>
                  split
                  · exact .refused (by decide)
                  next hsess =>
                    push Not at hid hdev hsess
                    refine advance_did ⟨hc, hid.1, hparty, hdev, ⟨by rw [hsess], ?_⟩, ?_⟩ hop
                    · exact not_not.mp hsession
                    · rw [hps, hsess]
          · exact .refused (by decide)

/-! ## The two keys of a call -/

def State.Paired (s : State) : Prop := ∀ u c d, s.voice u = some ⟨c, d⟩ → s.ms ≤ d →
  ∃ p, p ≠ u ∧ c.Between u p ∧ s.voice p = some ⟨c, d⟩

theorem call?_eq_some {u : Int} {c : Call} :
    s.call? u = some c ↔ ∃ d, s.voice u = some ⟨c, d⟩ ∧ s.ms ≤ d :=
  Keyspace.get_eq_some

/-- Calls of other users are not with a party of this call. -/
theorem State.Paired.apart (h : s.Paired) {u p v w : Int} {c : Call} {d : ℕ} (hpu : p ≠ u)
    (hup : (s.call? u = none ∧ s.call? p = none) ∨ ∃ c, s.call? u = some c ∧ c.Between u p)
    (hd : s.ms ≤ d) (hb : c.Between v w) (hw : s.voice w = some ⟨c, d⟩)
    (hvu : v ≠ u) (hvp : v ≠ p) : w ≠ u ∧ w ≠ p := by
  have hcw : s.call? w = some c := call?_eq_some.mpr ⟨d, hw, hd⟩
  rcases hup with ⟨hu, hp⟩ | ⟨c₀, hu, hbu⟩
  · constructor
    · rintro rfl
      rw [hu] at hcw
      cases hcw
    · rintro rfl
      rw [hp] at hcw
      cases hcw
  · constructor
    · rintro rfl
      rw [hu] at hcw
      cases hcw
      exact hvp (hbu.other hb.symm hpu)
    · rintro rfl
      obtain ⟨d₀, hud, hd₀⟩ := call?_eq_some.mp hu
      obtain ⟨q, -, hbq, hq⟩ := h u c₀ d₀ hud hd₀
      rw [hbu.other hbq hpu, hw] at hq
      cases hq
      exact hvu (hbu.symm.other hb.symm hpu.symm)

/-- Writing one record under the keys of its two parties keeps all keys paired. -/
theorem State.Paired.setBoth (h : s.Paired) {u p : Int} {c : Call} {px : ℕ} (hpu : p ≠ u)
    (hup : (s.call? u = none ∧ s.call? p = none) ∨ ∃ c, s.call? u = some c ∧ c.Between u p)
    (hb : c.Between u p) : (s.setBoth u p c px).Paired := by
  have hu : (s.setBoth u p c px).voice u = some ⟨c, s.ms + px⟩ := by
    simp [State.setBoth, hpu.symm]
  have hp : (s.setBoth u p c px).voice p = some ⟨c, s.ms + px⟩ := by simp [State.setBoth]
  have hold : ∀ v, v ≠ u → v ≠ p → (s.setBoth u p c px).voice v = s.voice v := by
    intro v hvu hvp
    simp [State.setBoth, hvu, hvp]
  intro v c' d hv hd
  by_cases hvu : v = u
  · subst hvu
    rw [hu] at hv
    cases hv
    exact ⟨p, hpu, hb, hp⟩
  by_cases hvp : v = p
  · subst hvp
    rw [hp] at hv
    cases hv
    exact ⟨u, hpu.symm, hb.symm, hu⟩
  rw [hold v hvu hvp] at hv
  obtain ⟨w, hwv, hbw, hw⟩ := h v c' d hv hd
  obtain ⟨hwu, hwp⟩ := h.apart hpu hup hd hbw hw hvu hvp
  exact ⟨w, hwv, hbw, (hold w hwu hwp).trans hw⟩

theorem State.Paired.delBoth (h : s.Paired) {u p : Int} (hpu : p ≠ u)
    (hup : ∃ c, s.call? u = some c ∧ c.Between u p) : (s.delBoth u p).Paired := by
  have hold : ∀ v, v ≠ u → v ≠ p → (s.delBoth u p).voice v = s.voice v := by
    intro v hvu hvp
    simp [State.delBoth, hvu, hvp]
  intro v c d hv hd
  by_cases hvp : v = p
  · subst hvp
    simp [State.delBoth] at hv
  by_cases hvu : v = u
  · subst hvu
    simp [State.delBoth, hpu.symm] at hv
  rw [hold v hvu hvp] at hv
  obtain ⟨w, hwv, hbw, hw⟩ := h v c d hv hd
  obtain ⟨hwu, hwp⟩ := h.apart hpu (.inr hup) hd hbw hw hvu hvp
  exact ⟨w, hwv, hbw, (hold w hwu hwp).trans hw⟩

theorem Bound.between {c : Call} {first : Bool} (h : Bound s cmd c first) :
    ∃ c, s.call? cmd.uid = some c ∧ c.Between cmd.uid cmd.peer :=
  ⟨c, h.call, Call.between_of_party h.party⟩

theorem paired_command (h : s.Paired) (hne : cmd.peer ≠ cmd.uid) :
    (s.voiceTransition num cmd).2.Paired := by
  have hdid := voiceTransition_did num s cmd
  generalize s.voiceTransition num cmd = r at hdid
  cases hdid with
  | refused he => exact h
  | invited hop huid hpeer hid hstate hab hown hbound rate =>
    exact h.setBoth hne (.inl ⟨huid, hpeer⟩) (.inl hab)
  | removed hb hop => exact h.delBoth hne hb.between
  | changed hb hop hsame hstate =>
    exact h.setBoth hne (.inr hb.between)
      ((hsame.encode num).between (Call.between_of_party hb.party))

theorem paired_invariant (num : ℚ → ℚ) : (voice num).Invariant State.Paired where
  init := by
    intro s hs u c d hu
    rw [hs u] at hu
    cases hu
  step := by
    intro s a s' _ h hstep
    cases a with
    | command cmd =>
      simp only [voice, Machine.ofFn, State.step] at hstep
      split at hstep
      · cases hstep
      next hne =>
        cases hstep
        exact paired_command h (Ne.symm hne)
    | tick micros =>
      cases hstep
      intro u c d hu hd
      refine h u c d hu (le_trans ?_ hd)
      exact Nat.div_le_div_right (Nat.le_add_right _ _)
    | setSession uid device session =>
      cases hstep
      exact h

end CppChat.Voice
