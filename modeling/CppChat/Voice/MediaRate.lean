import CppChat.Voice.Media

/-! # Media are limited and ordered

Over the whole life of one call: the numbers of a stream increase, its credit stays within its
burst, no interval carries more than the bucket admits, and a slow sender is never limited.
-/
namespace CppChat.Voice
open Foundation

/-! ## One call and what was sent in it -/

/-- A frame or a picture that a party sent, and the answer. -/
structure Attempt where
  stream : Stream
  time : ℚ
  sequence : Int
  code : ℕ
  deriving DecidableEq

/-- The attempts of the parties, the newest first. -/
structure Media where
  state : State
  attempts : List Attempt

/-- A command for the call of the caller `u` and the callee `p`. -/
def attempt? (u p : Int) (cmd : Command) (now : ℚ) (code : ℕ) : Option Attempt :=
  cmd.op.picture?.bind fun picture =>
    if cmd.uid = u ∧ cmd.peer = p then some ⟨⟨true, picture⟩, now, cmd.sequence, code⟩
    else if cmd.uid = p ∧ cmd.peer = u then some ⟨⟨false, picture⟩, now, cmd.sequence, code⟩
    else none

def Media.step (u p : Int) (m : Media) : Action → Option Media
  | .command cmd =>
    if cmd.uid = cmd.peer ∨ cmd.op = .invite ∧ (cmd.uid = u ∨ cmd.peer = u) then none
    else
      let r := m.state.voiceTransition id cmd
      some ⟨r.2, (attempt? u p cmd m.state.now r.1).toList ++ m.attempts⟩
  | .tick micros => some ⟨{ m.state with clock := m.state.clock + micros }, m.attempts⟩
  | .setSession uid device session =>
    some ⟨{ m.state with session := Function.update m.state.session (uid, device) session },
      m.attempts⟩

/-- A call of `u` with `p` before any media; nothing but a new invitation is excluded, even
when the call is over. -/
def media (u p : Int) : Machine Media Action :=
  .ofFn (fun m => (voice id).Reachable m.state ∧ m.attempts = [] ∧ ∃ c, m.state.call? u = some c ∧
    c.a = u ∧ c.b = p ∧ ∀ σ, c.bucket σ = .fresh ∧ c.sequence σ = 0) (Media.step u p)

namespace Media

def attemptsOf (m : Media) (σ : Stream) : List Attempt := m.attempts.filter (·.stream = σ)

def accepted (m : Media) (σ : Stream) : List Attempt := (m.attemptsOf σ).filter (·.code = success)

def times (m : Media) (σ : Stream) : List ℚ := (m.accepted σ).map Attempt.time

end Media

/-! ## The invariant -/

/-- Every attempt that was limited came too soon after one that was accepted. -/
def Hasty (attempts : List Attempt) : Prop :=
  ∀ newer x older, attempts = newer ++ x :: older → x.code = voiceRateLimited →
    ∃ y ∈ older, y.stream = x.stream ∧ y.code = success ∧
      x.time - y.time < 1 / rateOf x.stream.picture

structure Media.Inv (u p : Int) (m : Media) : Prop where
  paired : m.state.Paired
  increasing : ∀ σ, (m.accepted σ).Pairwise fun newer older => older.sequence < newer.sequence
  window : ∀ σ first last, first ≤ last → (Bucket.within first last (m.times σ) : ℚ) ≤
    burstOf σ.picture + rateOf σ.picture * (last - first)
  hasty : Hasty m.attempts
  call : ∀ c, m.state.call? u = some c → c.a = u ∧ c.b = p ∧ ∀ σ,
    (c.bucket σ).Bounded (burstOf σ.picture) (rateOf σ.picture) m.state.now (m.times σ) ∧
      ∀ x ∈ m.accepted σ, x.sequence ≤ c.sequence σ

variable {u p : Int} {m m' : Media} {cmd : Command} {c c' : Call} {first picture : Bool}
  {σ : Stream}

theorem one_le_burstOf (picture : Bool) : 1 ≤ burstOf picture := by
  cases picture <;> norm_num [burstOf]

theorem rateOf_pos (picture : Bool) : 0 < rateOf picture := by
  cases picture <;> norm_num [rateOf]

/-- The stream of a command is the one that the script takes. -/
theorem attempt?_of_bound {s : State} (hb : Bound s cmd c first) (hne : cmd.uid ≠ cmd.peer)
    (ha : c.a = u) (hcb : c.b = p) (now : ℚ) (code : ℕ) :
    attempt? u p cmd now code =
      cmd.op.picture?.map fun picture => ⟨⟨first, picture⟩, now, cmd.sequence, code⟩ := by
  have hparty := hb.party
  unfold attempt?
  unfold Call.party at hparty
  rw [ha, hcb] at hparty
  cases cmd.op.picture? with
  | none => rfl
  | some picture =>
    simp only [Option.bind_some, Option.map_some]
    split at hparty
    next h =>
      cases hparty
      rw [if_pos ⟨h.1.symm, h.2.symm⟩]
    next h =>
      split at hparty
      next h' =>
        cases hparty
        rw [if_neg fun hsame => hne (hsame.1.trans h'.2), if_pos ⟨h'.1.symm, h'.2.symm⟩]
      next => cases hparty

/-- A command for another call is no attempt of this one. -/
theorem attempt?_of_untouched (hu : u ≠ cmd.uid) (hp : u ≠ cmd.peer) (now : ℚ) (code : ℕ) :
    attempt? u p cmd now code = none := by
  unfold attempt?
  cases cmd.op.picture? with
  | none => rfl
  | some picture => simp [Ne.symm hu, Ne.symm hp]

theorem attempt?_code {now : ℚ} {code : ℕ} {x : Attempt} (hx : x ∈ attempt? u p cmd now code) :
    x.code = code := by
  unfold attempt? at hx
  cases hop : cmd.op.picture? with
  | none => simp [hop] at hx
  | some picture =>
    simp only [hop, Option.bind_some, Option.mem_def] at hx
    split at hx
    · cases hx
      rfl
    · split at hx <;> cases hx
      rfl

theorem attempt?_picture {now : ℚ} {code : ℕ} {x : Attempt}
    (hx : x ∈ attempt? u p cmd now code) : ∃ picture, cmd.op.picture? = some picture := by
  cases hop : cmd.op.picture? with
  | none => simp [attempt?, hop] at hx
  | some picture => exact ⟨picture, rfl⟩

/-! ## Steps -/

theorem hasty_append {attempts : List Attempt} (h : Hasty attempts) {new : Option Attempt}
    (hnew : ∀ x ∈ new, x.code = voiceRateLimited → ∃ y ∈ attempts, y.stream = x.stream ∧
      y.code = success ∧ x.time - y.time < 1 / rateOf x.stream.picture) : Hasty (new.toList ++ attempts) := by
  cases new with
  | none => exact h
  | some a =>
    intro newer x older hsplit hcode
    cases newer with
    | nil =>
      obtain ⟨rfl, rfl⟩ := List.cons.inj hsplit
      exact hnew _ rfl hcode
    | cons b newer =>
      obtain ⟨-, hsplit⟩ := List.cons.inj hsplit
      exact h newer x older hsplit hcode

theorem Media.accepted_append (s : State) (attempts : List Attempt) (new : Option Attempt)
    (σ : Stream) : (Media.mk s (new.toList ++ attempts)).accepted σ =
      (new.filter fun x => x.stream = σ ∧ x.code = success).toList ++
        (Media.mk s attempts).accepted σ := by
  cases new with
  | none => rfl
  | some a =>
    by_cases hstream : a.stream = σ <;> by_cases hcode : a.code = success <;>
      simp [accepted, attemptsOf, Option.filter, hstream, hcode]

/-- The call goes on without a new accepted frame, or is over. -/
theorem Media.Inv.of_kept (h : m.Inv u p) {s : State} {new : Option Attempt}
    (hpaired : s.Paired) (hnow : m.state.now ≤ s.now)
    (hcode : ∀ x ∈ new, x.code ≠ success)
    (hnew : ∀ x ∈ new, x.code = voiceRateLimited → ∃ y ∈ m.attempts, y.stream = x.stream ∧
      y.code = success ∧ x.time - y.time < 1 / rateOf x.stream.picture)
    (hcall : ∀ c', s.call? u = some c' → ∃ c, m.state.call? u = some c ∧ c'.a = c.a ∧
      c'.b = c.b ∧ c.SameStreams c') : (Media.mk s (new.toList ++ m.attempts)).Inv u p := by
  have haccepted : ∀ σ, (Media.mk s (new.toList ++ m.attempts)).accepted σ = m.accepted σ := by
    intro σ
    rw [accepted_append]
    have hnone : new.filter (fun x => decide (x.stream = σ ∧ x.code = success)) = none := by
      cases new with
      | none => rfl
      | some a => simp [Option.filter, hcode a rfl]
    rw [hnone]
    rfl
  have htimes : ∀ σ, (Media.mk s (new.toList ++ m.attempts)).times σ = m.times σ := fun σ =>
    congrArg _ (haccepted σ)
  refine ⟨hpaired, fun σ => ?_, fun σ => ?_, hasty_append h.hasty hnew, fun c' hc' => ?_⟩
  · rw [haccepted]
    exact h.increasing σ
  · rw [htimes]
    exact h.window σ
  · obtain ⟨c, hc, ha, hb, hstreams⟩ := hcall c' hc'
    obtain ⟨ha', hb', hcounted⟩ := h.call c hc
    refine ⟨ha.trans ha', hb.trans hb', fun σ => ?_⟩
    rw [haccepted, htimes, (hstreams σ).1, (hstreams σ).2]
    exact ⟨(hcounted σ).1.later hnow, (hcounted σ).2⟩

/-- A limited frame came too soon after an accepted one. -/
theorem Media.Inv.hasty_of_limited (h : m.Inv u p) (hc : m.state.call? u = some c)
    (hlimited : (c.side first).available picture m.state.now < 1) (n : Int) (code : ℕ) :
    ∃ y ∈ m.attempts, y.stream = (Attempt.mk ⟨first, picture⟩ m.state.now n code).stream ∧
      y.code = success ∧ m.state.now - y.time < 1 / rateOf picture := by
  obtain ⟨-, -, hcounted⟩ := h.call c hc
  by_contra hnone
  refine absurd hlimited (not_lt.mpr ?_)
  refine (hcounted ⟨first, picture⟩).1.admits (one_le_burstOf _) (rateOf_pos _) fun t ht => ?_
  obtain ⟨y, hy, rfl⟩ := List.mem_map.mp ht
  obtain ⟨hattempt, hcode⟩ := List.mem_filter.mp hy
  obtain ⟨hmem, hstream⟩ := List.mem_filter.mp hattempt
  by_contra hlt
  exact hnone ⟨y, hmem, by simpa using hstream, by simpa using hcode, not_le.mp hlt⟩

/-- A frame of one stream leaves the others as they were. -/
theorem Call.sides_apart {side : Side} {n : Int} {now : ℚ}
    (hside : (c.side first).takeFrame picture n now = .ok side) (hσ : σ ≠ ⟨first, picture⟩) :
    (c.setSide first side).bucket σ = c.bucket σ ∧
      (c.setSide first side).sequence σ = c.sequence σ := by
  obtain ⟨-, -, hother, hother'⟩ := Side.takeFrame_ok hside
  rw [Call.bucket, Call.sequence, Call.setSide_side]
  split
  next hcaller =>
    have hpicture : σ.picture = !picture := by
      refine Bool.eq_not_of_ne fun hsame => hσ ?_
      rcases σ with ⟨caller, pic⟩
      obtain ⟨rfl, rfl⟩ : caller = first ∧ pic = picture := ⟨hcaller, hsame⟩
      rfl
    rw [hpicture, hother, hother', ← hpicture, ← hcaller]
    exact ⟨rfl, rfl⟩
  next => exact ⟨rfl, rfl⟩

/-- A frame is accepted. -/
theorem Media.Inv.of_played (h : m.Inv u p) {side : Side} (hc : m.state.call? u = some c)
    (hseq : (c.side first).sequence picture < cmd.sequence)
    (havailable : 1 ≤ (c.side first).available picture m.state.now)
    (hside : (c.side first).takeFrame picture cmd.sequence m.state.now = .ok side) {s : State}
    (hpaired : s.Paired) (hnow : s.now = m.state.now)
    (hcall : s.call? u = some (c.setSide first side)) :
    (Media.mk s (⟨⟨first, picture⟩, m.state.now, cmd.sequence, success⟩ :: m.attempts)).Inv u p := by
  obtain ⟨ha, hb, hcounted⟩ := h.call c hc
  obtain ⟨hseq', hbucket, -⟩ := Side.takeFrame_ok hside
  generalize hnew : Attempt.mk ⟨first, picture⟩ m.state.now cmd.sequence success = new
  have hstream : new.stream = ⟨first, picture⟩ := by rw [← hnew]
  have hcode : new.code = success := by rw [← hnew]
  have htime : new.time = m.state.now := by rw [← hnew]
  have hsequence : new.sequence = cmd.sequence := by rw [← hnew]
  have hself : (Media.mk s (new :: m.attempts)).accepted ⟨first, picture⟩ =
      new :: m.accepted ⟨first, picture⟩ := by
    have := accepted_append s m.attempts (some new) ⟨first, picture⟩
    rwa [Option.filter_some_pos (by simp [hstream, hcode])] at this
  have helse : ∀ σ, σ ≠ ⟨first, picture⟩ →
      (Media.mk s (new :: m.attempts)).accepted σ = m.accepted σ := by
    intro σ hσ
    have := accepted_append s m.attempts (some new) σ
    rwa [Option.filter_some_neg (by simp [hstream, hσ.symm])] at this
  have hbounded := (hcounted ⟨first, picture⟩).1.take
    (rateOf_pos picture).le havailable
  have htimes : (Media.mk s (new :: m.attempts)).times ⟨first, picture⟩ =
      m.state.now :: m.times ⟨first, picture⟩ := by
    rw [times, hself, List.map_cons, htime]
    rfl
  refine ⟨hpaired, fun σ => ?_, fun σ => ?_, @hasty_append _ h.hasty (some new) ?_,
    fun c' hc' => ?_⟩
  · by_cases hσ : σ = ⟨first, picture⟩
    · rw [hσ, hself, List.pairwise_cons]
      refine ⟨fun x hx => ?_, h.increasing _⟩
      rw [hsequence]
      exact ((hcounted _).2 x hx).trans_lt hseq
    · rw [helse σ hσ]
      exact h.increasing σ
  · by_cases hσ : σ = ⟨first, picture⟩
    · rw [hσ, htimes]
      exact hbounded.window
    · rw [times, helse σ hσ]
      exact h.window σ
  · rintro x ⟨⟩ hlimited
    rw [hcode] at hlimited
    exact absurd hlimited (by decide)
  · rw [hcall] at hc'
    cases hc'
    refine ⟨(c.setSide_same first side).a.trans ha, (c.setSide_same first side).b.trans hb,
      fun σ => ?_⟩
    by_cases hσ : σ = ⟨first, picture⟩
    · subst hσ
      rw [Call.bucket, Call.sequence, Call.setSide_side, if_pos rfl, hself, htimes, hbucket, hseq', hnow]
      refine ⟨hbounded, fun x hx => ?_⟩
      rcases List.mem_cons.mp hx with rfl | hx
      · exact hsequence.le
      · exact ((hcounted _).2 x hx).trans hseq.le
    · rw [times, helse σ hσ, hnow, (Call.sides_apart hside hσ).1,
        (Call.sides_apart hside hσ).2]
      exact hcounted σ

/-- An invitation among others. -/
theorem Media.Inv.of_invite (h : m.Inv u p) (hop : cmd.op = .invite) (hu : u ≠ cmd.uid)
    (hp : u ≠ cmd.peer) (hpaired : (m.state.voiceTransition id cmd).2.Paired) :
    (Media.mk (m.state.voiceTransition id cmd).2
      ((attempt? u p cmd m.state.now (m.state.voiceTransition id cmd).1).toList ++
        m.attempts)).Inv u p := by
  have hdid := voiceTransition_did id m.state cmd
  generalize m.state.voiceTransition id cmd = r at hdid hpaired
  have hkeep : ∀ s : State, s.Paired → m.state.now ≤ s.now →
      (∀ c', s.call? u = some c' → m.state.call? u = some c') →
      (Media.mk s ((none : Option Attempt).toList ++ m.attempts)).Inv u p := by
    intro s hs hnow hcall
    refine h.of_kept hs hnow (by simp) (by simp) fun c' hc' => ?_
    exact ⟨c', hcall c' hc', rfl, rfl, fun σ => ⟨rfl, rfl⟩⟩
  rw [attempt?_of_untouched hu hp]
  cases hdid with
  | refused _ => exact hkeep _ hpaired le_rfl fun _ hc' => hc'
  | invited _ _ _ _ _ _ _ _ rate =>
    refine hkeep _ hpaired le_rfl fun c' hc' => ?_
    change (State.setBoth _ _ _ _ _).call? u = some c' at hc'
    rwa [setBoth_call?, if_neg (by simp [hu, hp])] at hc'
  | removed _ hne => exact absurd hop hne
  | changed _ hne => exact absurd hop hne

/-- A command that is no invitation. -/
theorem Media.Inv.of_other (h : m.Inv u p) (hop : cmd.op ≠ .invite) (hne : cmd.uid ≠ cmd.peer)
    (hpaired : (m.state.voiceTransition id cmd).2.Paired) :
    (Media.mk (m.state.voiceTransition id cmd).2
      ((attempt? u p cmd m.state.now (m.state.voiceTransition id cmd).1).toList ++
        m.attempts)).Inv u p := by
  have hplays := voiceTransition_plays (s := m.state) hop
  generalize m.state.voiceTransition id cmd = r at hplays hpaired
  -- who is not `u` and not with `u` neither sends a frame of this call nor changes its record
  have hbound : ∀ c first, Bound m.state cmd c first → ∀ now code,
      ((u = cmd.uid ∨ u = cmd.peer) ∧ m.state.call? u = some c ∧ c.a = u ∧ c.b = p ∧
        attempt? u p cmd now code = (cmd.op.picture?.map fun picture =>
          ⟨⟨first, picture⟩, now, cmd.sequence, code⟩)) ∨
      (¬ (u = cmd.uid ∨ u = cmd.peer) ∧ attempt? u p cmd now code = none) := by
    intro c first hb now code
    by_cases hu : u = cmd.uid ∨ u = cmd.peer
    · have hc := h.paired.bound_call hb hu
      obtain ⟨ha, hcb, -⟩ := h.call c hc
      exact .inl ⟨hu, hc, ha, hcb, attempt?_of_bound hb hne ha hcb now code⟩
    · have hu' := not_or.mp hu
      exact .inr ⟨hu, attempt?_of_untouched hu'.1 hu'.2 now code⟩
  have hsame : ∀ s : State, s.Paired → m.state.now ≤ s.now →
      (∀ c', s.call? u = some c' → m.state.call? u = some c') →
      (Media.mk s ((none : Option Attempt).toList ++ m.attempts)).Inv u p := by
    intro s hs hnow hcall
    refine h.of_kept hs hnow (by simp) (by simp) fun c' hc' => ?_
    exact ⟨c', hcall c' hc', rfl, rfl, fun σ => ⟨rfl, rfl⟩⟩
  cases hplays with
  | @refused e he hlimited =>
    refine h.of_kept hpaired le_rfl ?_ ?_ fun c' hc' => ⟨c', hc', rfl, rfl, fun σ => ⟨rfl, rfl⟩⟩
    · intro x hx
      rw [attempt?_code hx]
      exact he
    · intro x hx hcode
      rw [attempt?_code hx] at hcode
      obtain ⟨picture, hpicture⟩ := attempt?_picture hx
      obtain ⟨c, first, hb, hlow⟩ := hlimited picture hpicture hcode
      rcases hbound c first hb m.state.now e with ⟨-, hc, -, -, hattempt⟩ | ⟨-, hattempt⟩
      · rw [hattempt, hpicture] at hx
        obtain ⟨y, hy, hclose⟩ := h.hasty_of_limited hc hlow cmd.sequence e
        cases hx
        exact ⟨y, hy, hclose⟩
      · rw [hattempt] at hx
        cases hx
  | @removed c first e hb hplays =>
    rcases hbound c first hb m.state.now e with ⟨hu, hc, -, -, hattempt⟩ | ⟨hu, hattempt⟩
    · refine h.of_kept hpaired le_rfl ?_ ?_ fun c' hc' => ?_
      · intro x hx
        obtain ⟨picture, hpicture⟩ := attempt?_picture hx
        rw [attempt?_code hx]
        exact fun he => absurd ((hplays (by simp [hpicture])).1.symm.trans he) (by decide)
      · intro x hx hcode
        obtain ⟨picture, hpicture⟩ := attempt?_picture hx
        rw [attempt?_code hx] at hcode
        exact absurd ((hplays (by simp [hpicture])).1.symm.trans hcode) (by decide)
      · rw [delBoth_call?, if_pos hu] at hc'
        cases hc'
    · rw [hattempt]
      refine hsame _ hpaired le_rfl fun c' hc' => ?_
      rwa [delBoth_call?, if_neg hu] at hc'
  | @kept c c' first hb hop hsame' hstreams =>
    rcases hbound c first hb m.state.now success with ⟨hu, hc, -, -, hattempt⟩ | ⟨hu, hattempt⟩
    · rw [hattempt, hop]
      refine h.of_kept hpaired le_rfl (by simp) (by simp) fun c'' hc'' => ?_
      rw [setBoth_call?, if_pos hu] at hc''
      cases hc''
      exact ⟨c, hc, hsame'.a, hsame'.b, hstreams⟩
    · rw [hattempt]
      refine hsame _ hpaired le_rfl fun c'' hc'' => ?_
      rwa [setBoth_call?, if_neg hu] at hc''
  | @played c first picture side hb hop hseq havailable hside =>
    rcases hbound c first hb m.state.now success with ⟨hu, hc, -, -, hattempt⟩ | ⟨hu, hattempt⟩
    · rw [hattempt, hop]
      refine h.of_played hc hseq havailable hside hpaired rfl ?_
      rw [setBoth_call?, if_pos hu]
    · rw [hattempt]
      refine hsame _ hpaired le_rfl fun c'' hc'' => ?_
      rwa [setBoth_call?, if_neg hu] at hc''

theorem Media.inv_step (h : m.Inv u p) {a : Action} (hstep : m.step u p a = some m') :
    m'.Inv u p := by
  cases a with
  | command cmd =>
    simp only [Media.step] at hstep
    split at hstep
    · cases hstep
    next hallowed =>
      obtain ⟨hne, hinvite⟩ := not_or.mp hallowed
      cases hstep
      have hpaired := @paired_command id _ _ h.paired (Ne.symm hne)
      by_cases hop : cmd.op = .invite
      · obtain ⟨hu, hp⟩ := not_or.mp fun hu => hinvite ⟨hop, hu⟩
        exact h.of_invite hop (Ne.symm hu) (Ne.symm hp) hpaired
      · exact h.of_other hop hne hpaired
  | tick micros =>
    cases hstep
    have hle : m.state.ms ≤ State.ms { m.state with clock := m.state.clock + micros } :=
      Nat.div_le_div_right (Nat.le_add_right _ _)
    have hnow : m.state.now ≤ State.now { m.state with clock := m.state.clock + micros } := by
      simp only [State.now, Nat.cast_add]
      have : (0 : ℚ) ≤ micros := Nat.cast_nonneg _
      linarith
    refine @Media.Inv.of_kept _ _ _ h _ none ?_ hnow (by simp) (by simp) fun c' hc' => ?_
    · exact fun w c d hw hd => h.paired w c d hw (hle.trans hd)
    · exact ⟨c', Keyspace.get_of_later hle hc', rfl, rfl, fun σ => ⟨rfl, rfl⟩⟩
  | setSession uid device session =>
    cases hstep
    refine @Media.Inv.of_kept _ _ _ h _ none (fun w c d hw hd => h.paired w c d hw hd) le_rfl
      (by simp) (by simp) fun c' hc' => ⟨c', hc', rfl, rfl, fun σ => ⟨rfl, rfl⟩⟩

theorem media_invariant (u p : Int) : (media u p).Invariant (Media.Inv u p) where
  init := by
    rintro m ⟨hreach, hempty, c, hc, ha, hb, hfresh⟩
    have hnone : ∀ σ, m.accepted σ = [] := fun σ => by
      rw [Media.accepted, Media.attemptsOf, hempty]
      rfl
    have hbounded : ∀ σ, (Bucket.fresh : Bucket ℚ).Bounded (burstOf σ.picture)
        (rateOf σ.picture) m.state.now (m.times σ) := by
      intro σ
      rw [Media.times, hnone]
      exact Bucket.bounded_fresh (zero_le_one.trans (one_le_burstOf _)) (rateOf_pos _).le
    refine ⟨paired_of_reachable hreach, fun σ => ?_, fun σ => (hbounded σ).window, ?_,
      fun c' hc' => ?_⟩
    · rw [hnone]
      exact .nil
    · intro newer x older hsplit
      rw [hempty] at hsplit
      exact absurd hsplit (by simp)
    · rw [hc] at hc'
      cases hc'
      refine ⟨ha, hb, fun σ => ?_⟩
      rw [(hfresh σ).1, (hfresh σ).2, hnone]
      exact ⟨hbounded σ, by simp⟩
  step := fun m a m' _ h hstep => Media.inv_step h hstep

/-! ## Every run -/

/-- An invitation that was accepted by the script opens a call without media. -/
theorem media_opened {s : State} (hs : (voice id).Reachable s) (hop : cmd.op = .invite)
    (hne : cmd.uid ≠ cmd.peer) (hsuccess : (s.voiceTransition id cmd).1 = success) :
    (media cmd.uid cmd.peer).init ⟨(s.voiceTransition id cmd).2, []⟩ := by
  refine ⟨hs.step (a := .command cmd) ?_, rfl, ?_⟩
  · show State.step id s (.command cmd) = some _
    rw [State.step, if_neg hne]
  · unfold State.voiceTransition at hsuccess ⊢
    split at hsuccess
    · cases hsuccess
    next hsession =>
      rw [if_neg hsession]
      cases hps : s.session (cmd.peer, cmd.peerDevice) with
      | none =>
        rw [hps] at hsuccess
        cases hsuccess
      | some ps =>
        simp only [hps, hop, if_true] at hsuccess ⊢
        split at hsuccess
        · cases hsuccess
        next hpeer =>
          rw [if_neg hpeer]
          split at hsuccess
          · cases hsuccess
          next hfree =>
            rw [if_neg hfree]
            split at hsuccess
            · cases hsuccess
            next hrate =>
              rw [if_neg hrate]
              refine ⟨_, (setBoth_call? s _ _ _ _ cmd.uid).trans (if_pos (.inl rfl)), rfl, rfl, ?_⟩
              intro σ
              rw [encode_call_id]
              rcases σ with ⟨caller, picture⟩
              cases caller <;> cases picture <;> exact ⟨rfl, rfl⟩

/-- What a command leaves of a stream that accepted nothing. -/
theorem Media.Inv.command_streams (h : m.Inv u p) (hop : cmd.op ≠ .invite)
    (hne : cmd.uid ≠ cmd.peer) (hc : m.state.call? u = some c)
    (hc' : (m.state.voiceTransition id cmd).2.call? u = some c')
    (hnone : ∀ x ∈ attempt? u p cmd m.state.now (m.state.voiceTransition id cmd).1,
      x.stream = σ → x.code ≠ success) :
    c'.bucket σ = c.bucket σ ∧ c'.sequence σ = c.sequence σ := by
  have hplays := voiceTransition_plays (s := m.state) hop
  generalize m.state.voiceTransition id cmd = r at hplays hc' hnone
  have hsame : m.state.call? u = some c' →
      c'.bucket σ = c.bucket σ ∧ c'.sequence σ = c.sequence σ := by
    intro he
    rw [hc] at he
    cases he
    exact ⟨rfl, rfl⟩
  cases hplays with
  | refused _ _ => exact hsame hc'
  | removed hb _ =>
    rw [delBoth_call?] at hc'
    split at hc'
    · cases hc'
    · exact hsame hc'
  | kept hb _ _ hstreams =>
    rw [setBoth_call?] at hc'
    split at hc'
    next hu =>
      cases hc'
      rw [h.paired.bound_call hb hu] at hc
      cases hc
      exact hstreams σ
    next => exact hsame hc'
  | @played _ first picture side hb hop _ _ hside =>
    rw [setBoth_call?] at hc'
    split at hc'
    next hu =>
      cases hc'
      have hcb := h.paired.bound_call hb hu
      rw [hcb] at hc
      cases hc
      obtain ⟨ha, hb', -⟩ := h.call _ hcb
      refine Call.sides_apart hside fun hσ => ?_
      rw [attempt?_of_bound hb hne ha hb', hop] at hnone
      exact hnone _ rfl hσ.symm rfl
    next => exact hsame hc'

theorem Media.Inv.step_streams (h : m.Inv u p) {a : Action} (hstep : m.step u p a = some m')
    (hc : m.state.call? u = some c) (hc' : m'.state.call? u = some c')
    (hnone : m'.accepted σ = m.accepted σ) :
    c'.bucket σ = c.bucket σ ∧ c'.sequence σ = c.sequence σ := by
  have hsame : m.state.call? u = some c' →
      c'.bucket σ = c.bucket σ ∧ c'.sequence σ = c.sequence σ := by
    intro he
    rw [hc] at he
    cases he
    exact ⟨rfl, rfl⟩
  cases a with
  | command cmd =>
    simp only [step] at hstep
    split at hstep
    · cases hstep
    next hallowed =>
      obtain ⟨hne, hinvite⟩ := not_or.mp hallowed
      cases hstep
      by_cases hop : cmd.op = .invite
      · obtain ⟨hu, hp⟩ := not_or.mp fun hu => hinvite ⟨hop, hu⟩
        have hdid := voiceTransition_did id m.state cmd
        generalize m.state.voiceTransition id cmd = r at hdid hc'
        cases hdid with
        | refused _ => exact hsame hc'
        | invited _ _ _ _ _ _ _ _ rate =>
          change (State.setBoth _ _ _ _ _).call? u = some c' at hc'
          rw [setBoth_call?, if_neg (by simp [Ne.symm hu, Ne.symm hp])] at hc'
          exact hsame hc'
        | removed _ hno => exact absurd hop hno
        | changed _ hno => exact absurd hop hno
      · refine h.command_streams hop hne hc hc' fun x hx hstream hcode => ?_
        rw [accepted_append, hx, Option.filter_some_pos (by simp [hstream, hcode])] at hnone
        exact absurd (congrArg List.length hnone) (Nat.succ_ne_self (m.accepted σ).length)
  | tick micros =>
    cases hstep
    have hle : m.state.ms ≤ State.ms { m.state with clock := m.state.clock + micros } :=
      Nat.div_le_div_right (Nat.le_add_right _ _)
    exact hsame (Keyspace.get_of_later hle hc')
  | setSession uid device session =>
    cases hstep
    exact hsame hc'

theorem Media.step_state {a : Action} (hstep : m.step u p a = some m') :
    State.step id m.state a = some m'.state := by
  cases a with
  | command cmd =>
    simp only [step] at hstep
    split at hstep
    · cases hstep
    next hallowed =>
      cases hstep
      rw [State.step, if_neg (not_or.mp hallowed).1]
  | tick micros =>
    cases hstep
    rfl
  | setSession uid device session =>
    cases hstep
    rfl

/-- Both parties hold the record of their call. -/
theorem State.Paired.caller_call {s : State} (h : s.Paired) {w : Int} (hw : w = u ∨ w = p)
    (hc : s.call? w = some c) (ha : c.a = u) (hb : c.b = p) : s.call? u = some c := by
  rcases hw with rfl | rfl
  · exact hc
  · obtain ⟨q, hne, hbetween, hq⟩ := h.partner hc
    rcases hbetween with ⟨ha', hb'⟩ | ⟨ha', hb'⟩
    · exact absurd (hb'.symm.trans hb) hne
    · rwa [← ha, ha']

/-- A refused frame is followed by the same state, unless the other party had fallen silent. -/
theorem refused_frame {s : State} (hpicture : cmd.op.picture? = some picture)
    (hrefused : (s.voiceTransition id cmd).1 ≠ success)
    (hkept : (s.voiceTransition id cmd).1 = voiceRateLimited ∨
      ∀ c first, Bound s cmd c first → s.now - (c.side (!first)).seen ≤ timeoutMs) :
    (s.voiceTransition id cmd).2 = s := by
  have hop : cmd.op ≠ .invite := by
    intro hinvite
    rw [hinvite] at hpicture
    cases hpicture
  have hplays := voiceTransition_plays (s := s) hop
  generalize s.voiceTransition id cmd = r at hplays hrefused hkept
  cases hplays with
  | refused _ _ => rfl
  | @removed c first e hb hplays =>
    obtain ⟨rfl, hsilent⟩ := hplays (by simp [hpicture])
    rcases hkept with hlimited | hheard
    · exact absurd hlimited (by decide : voiceInvalid ≠ voiceRateLimited)
    · exact absurd (hheard c first hb) (not_le.mpr hsilent)
  | kept _ _ _ _ => exact absurd rfl hrefused
  | played _ _ _ _ _ => exact absurd rfl hrefused

/-- What holds at every moment of a call of `u` with `p`. -/
structure MediaSafe (u p : Int) (m : Media) : Prop where
  increasing : ∀ σ, (m.accepted σ).Pairwise fun newer older => older.sequence < newer.sequence
  /-- Under the key of either party. -/
  credit : ∀ w c, w = u ∨ w = p → m.state.call? w = some c → c.a = u → c.b = p → ∀ σ credit,
    (c.bucket σ).credit = some credit → 0 ≤ credit ∧ credit ≤ burstOf σ.picture
  window : ∀ σ first last, first ≤ last → (Bucket.within first last (m.times σ) : ℚ) ≤
    burstOf σ.picture + rateOf σ.picture * (last - first)
  /-- A frame that comes late enough after those accepted before it is not limited. -/
  late : ∀ newer x older, m.attempts = newer ++ x :: older →
    (∀ y ∈ older, y.stream = x.stream → y.code = success →
      1 / rateOf x.stream.picture ≤ x.time - y.time) → x.code ≠ voiceRateLimited
  /-- Nobody who keeps the pace is limited. -/
  paced : ∀ σ, (m.attemptsOf σ).Pairwise (fun newer older =>
      1 / rateOf σ.picture ≤ newer.time - older.time) →
    ∀ x ∈ m.attemptsOf σ, x.code ≠ voiceRateLimited
  /-- Only a frame that a stream accepts changes its credit or its number. -/
  apart : ∀ a m', m.step u p a = some m' → ∀ w c c', w = u ∨ w = p →
    m.state.call? w = some c → c.a = u → c.b = p → m'.state.call? w = some c' → ∀ σ,
    m'.accepted σ = m.accepted σ → c'.bucket σ = c.bucket σ ∧ c'.sequence σ = c.sequence σ
  refused : ∀ cmd picture, cmd.op.picture? = some picture →
    (m.state.voiceTransition id cmd).1 ≠ success →
    ((m.state.voiceTransition id cmd).1 = voiceRateLimited ∨ ∀ c first, Bound m.state cmd c first →
      m.state.now - (c.side (!first)).seen ≤ timeoutMs) →
    (m.state.voiceTransition id cmd).2 = m.state

theorem Media.Inv.paced (h : m.Inv u p)
    (hpaced : (m.attemptsOf σ).Pairwise fun newer older =>
      1 / rateOf σ.picture ≤ newer.time - older.time) {x : Attempt} (hx : x ∈ m.attemptsOf σ) :
    x.code ≠ voiceRateLimited := by
  intro hlimited
  obtain ⟨hmem, hstream⟩ := List.mem_filter.mp hx
  simp only [decide_eq_true_eq] at hstream
  obtain ⟨newer, older, hsplit⟩ := List.append_of_mem hmem
  obtain ⟨y, hy, hsame, -, hclose⟩ := h.hasty newer x older hsplit hlimited
  rw [attemptsOf, hsplit, List.filter_append, List.filter_cons_of_pos (by simpa using hstream),
    List.pairwise_append, List.pairwise_cons] at hpaced
  have hfar := hpaced.2.1.1 y (List.mem_filter.mpr ⟨hy, by simp [hsame, hstream]⟩)
  rw [hstream] at hclose
  exact absurd hclose (not_lt.mpr hfar)

/-- Media are limited and ordered in every run of one call. -/
theorem media_safe (h : (media u p).Reachable m) : MediaSafe u p m := by
  have hinv : m.Inv u p := (media_invariant u p).reachable h
  refine ⟨hinv.increasing, ?_, hinv.window, ?_, fun σ hpaced x hx => hinv.paced hpaced hx, ?_, ?_⟩
  · intro w c hw hc ha hb σ credit hcredit
    have hcu := hinv.paired.caller_call hw hc ha hb
    exact ((hinv.call c hcu).2.2 σ).1.credit hcredit
  · intro newer x older hsplit hlate hlimited
    obtain ⟨y, hy, hsame, hcode, hclose⟩ := hinv.hasty newer x older hsplit hlimited
    exact absurd hclose (not_lt.mpr (hlate y hy hsame hcode))
  · intro a m' hstep w c c' hw hc ha hb hc' σ hnone
    have hcu := hinv.paired.caller_call hw hc ha hb
    have hinv' := Media.inv_step hinv hstep
    have hstate : State.step id m.state a = some m'.state := Media.step_state hstep
    have hsame := (step_evolves hinv.paired hstate hc hc').1
    have hcu' := hinv'.paired.caller_call hw hc' (hsame.a.trans ha) (hsame.b.trans hb)
    exact hinv.step_streams hstep hcu hcu' hnone
  · intro cmd picture hpicture hrefused hkept
    exact refused_frame hpicture hrefused hkept

/-! ## A sample run -/

/-- The call of the sample, until it is active. -/
def sampleOpening : List Action :=
  [.setSession 1 .desktop (some "s1"), .setSession 2 .android (some "s2"), .tick 1500]

def sampleFrame (op : Op) (sequence : Int) : Action :=
  .command { sampleCommand 1 2 "s1" op .desktop .android with sequence }

/-- Three pictures at once: the third is limited until the bucket has refilled. -/
def sampleMedia : List Action :=
  [.command (sampleCommand 2 1 "s2" .accept .android .desktop), .tick 1000000,
    sampleFrame .video 1, sampleFrame .video 2, sampleFrame .video 3, sampleFrame .frame 1,
    .tick 125000, sampleFrame .video 3]

theorem media_safe_sample : ∃ m, (media 1 2).Reachable m ∧
    (m.attempts.map fun x => (x.stream.picture, x.code)) = [(true, success), (false, success),
      (true, voiceRateLimited), (true, success), (true, success)] ∧ MediaSafe 1 2 m := by
  have hopen : (Machine.runFn (State.step id) offline sampleOpening).map (fun s =>
      (s.voiceTransition id (sampleCommand 1 2 "s1" .invite .desktop .android)).1) =
      some success := by decide +kernel
  obtain ⟨s, hs, hsuccess⟩ := Option.map_eq_some_iff.mp hopen
  have hreach : (voice id).Reachable s := (Machine.Reachable.init fun _ => rfl).runFn hs
  have hinit := media_opened hreach rfl (by decide) hsuccess
  have hrun : ((Machine.runFn (State.step id) offline sampleOpening).bind fun s =>
      (Machine.runFn (Media.step 1 2) ⟨(s.voiceTransition id
        (sampleCommand 1 2 "s1" .invite .desktop .android)).2, []⟩ sampleMedia).map fun m =>
          m.attempts.map fun x => (x.stream.picture, x.code)) = some [(true, success),
      (false, success), (true, voiceRateLimited), (true, success), (true, success)] := by
    decide +kernel
  rw [hs, Option.bind_some] at hrun
  obtain ⟨m, hm, hcodes⟩ := Option.map_eq_some_iff.mp hrun
  have hmedia : (media 1 2).Reachable m := (Machine.Reachable.init hinit).runFn hm
  exact ⟨m, hmedia, hcodes, media_safe hmedia⟩

end CppChat.Voice
