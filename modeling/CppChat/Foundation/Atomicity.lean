import CppChat.Foundation.RowLocks

/-! # Locked transactions are atomic

A row has a guard: the row whose lock protects its plain reads. When every change is made
under the guard's lock, and every plain read of a row follows the lock of its guard, each
transaction has at every moment run as if alone on the committed rows, so the engine
simulates operations that run one after another.
-/
namespace CppChat.Foundation.RowLocks

variable {R : Type} {V : R → Type} {A Op : Type}

/-! ## The discipline of a program -/

/-- The locks that a program relies on: `held` and `alone` are rows it has locked, `seen`
the rows it had locked when its snapshot was taken. -/
def Prog.Guarded (guard : R → R) :
    (held alone : R → Prop) → (seen : Option (R → Prop)) → Prog V A → Prop
  | _, _, _, .finish .. => True
  | held, alone, seen, .lock mode r next => ∀ row : Option (V r),
      (next row).Guarded guard (fun q => q = r ∨ held q)
        (fun q => q = r ∧ mode.alone row.isSome = true ∨ alone q) seen
  | held, alone, seen, .select rows next =>
      (∀ r, rows r → seen.getD held (guard r)) ∧
        ∀ view, (next view).Guarded guard held alone (some (seen.getD held))
  | held, alone, seen, .modify r _ next =>
      (guard r = r ∨ alone (guard r)) ∧
        next.Guarded guard (fun q => q = r ∨ held q) (fun q => q = r ∨ alone q) seen
  | held, alone, seen, .fresh _ next => ∀ n, (next n).Guarded guard held alone seen

/-- Every operation of the service keeps the discipline. -/
def Service.Disciplined (svc : Service V A Op) (guard : R → R) : Prop :=
  ∀ op, (svc.program op).Guarded guard (fun _ => False) (fun _ => False) none

/-! ## Running alone -/

theorem overlay_congr (writes : Writes V) {db db' : Db V} {r : R} (h : db' r = db r) :
    overlay writes db' r = overlay writes db r := by
  rw [overlay, overlay, h]

theorem overlay_of_none {writes : Writes V} {db : Db V} {r : R} (h : writes r = none) :
    overlay writes db r = db r := by
  rw [overlay, h, Option.getD_none]

variable [DecidableEq R]

theorem overlay_update (writes : Writes V) (db : Db V) (r : R) (row : Option (V r)) :
    overlay (Function.update writes r (some row)) db =
      Function.update (overlay writes db) r row := by
  funext q
  by_cases hq : q = r
  · subst hq
    simp [overlay]
  · simp [overlay, hq]

/-- The program has come from its start to here, alone on these rows; `reads` are the rows
it looked at. -/
inductive Ran (db : Db V) (start : Prog V A) :
    Writes V → List R → (R → Prop) → Prog V A → Prop
  | start : Ran db start (fun _ => none) [] (fun _ => False) start
  | lock {w ns reads mode r next} (h : Ran db start w ns reads (.lock mode r next)) :
      Ran db start w ns (fun q => q = r ∨ reads q) (next (overlay w db r))
  | select {w ns reads rows next} (h : Ran db start w ns reads (.select rows next)) :
      Ran db start w ns (fun q => rows q ∨ reads q) (next fun r _ => overlay w db r)
  | modify {w ns reads r change next row} (h : Ran db start w ns reads (.modify r change next))
      (hrow : change (overlay w db r) = some row) :
      Ran db start (Function.update w r (some row)) ns (fun q => q = r ∨ reads q) next
  | fresh {w ns reads row next n} (h : Ran db start w ns reads (.fresh row next)) (hn : n ≠ 0) :
      Ran db start w (row n :: ns) reads (next n)

theorem Ran.congr {db db' : Db V} {start p : Prog V A} {w : Writes V} {ns : List R}
    {reads : R → Prop} (h : Ran db start w ns reads p) (hsame : ∀ r, reads r → db' r = db r) :
    Ran db' start w ns reads p := by
  induction h with
  | start => exact .start
  | @lock w ns reads mode r next _ ih =>
    have hrow := overlay_congr w (hsame r (.inl rfl))
    rw [← hrow]
    exact .lock (ih fun q hq => hsame q (.inr hq))
  | @select w ns reads rows next _ ih =>
    have hview : (fun r (_ : rows r) => overlay w db' r) = fun r _ => overlay w db r := by
      funext r hr
      exact overlay_congr _ (hsame r (.inl hr))
    rw [← hview]
    exact .select (ih fun q hq => hsame q (.inr hq))
  | @modify w ns reads r change next row _ hrow ih =>
    refine .modify (ih fun q hq => hsame q (.inr hq)) ?_
    rw [overlay_congr _ (hsame r (.inl rfl))]
    exact hrow
  | fresh _ hn ih => exact .fresh (ih hsame) hn

/-- Whatever the rest of the program does, the whole program does. -/
theorem Ran.ends {db : Db V} {start p : Prog V A} {w : Writes V} {ns ns' : List R}
    {reads : R → Prop} {commit : Bool} {result : A} {db' : Db V} (h : Ran db start w ns reads p)
    (hends : p.Ends (overlay w db) ns commit result db' ns') :
    start.Ends db [] commit result db' ns' := by
  induction h with
  | start => exact hends
  | lock _ ih => exact ih hends
  | select _ ih => exact ih hends
  | modify _ hrow ih =>
    refine ih ⟨_, hrow, ?_⟩
    rw [← overlay_update]
    exact hends
  | fresh _ hn ih => exact ih ⟨_, hn, hends⟩

/-! ## The invariant of the engine -/

namespace State

variable {svc : Service V A Op} {guard : R → R} {s s' : State V A Op} {k j : ℕ}

def Held (s : State V A Op) (k : ℕ) (r : R) : Prop := ∃ alone, (k, alone) ∈ s.locks r

def Alone (s : State V A Op) (k : ℕ) (r : R) : Prop := (k, true) ∈ s.locks r

omit [DecidableEq R] in
theorem Alone.held {r : R} (h : s.Alone k r) : s.Held k r := ⟨true, h⟩

/-- What holds of a running transaction. -/
structure Going (svc : Service V A Op) (guard : R → R) (s : State V A Op) (k : ℕ) (op : Op)
    (t : Txn V A) : Prop where
  ran : ∃ reads, Ran s.db (svc.program op) t.writes t.drawn reads t.prog ∧
    ∀ r, reads r → s.Held k r ∨ s.Held k (guard r)
  guarded : ∃ held alone seen, t.prog.Guarded guard held alone seen ∧
    (∀ r, held r → s.Held k r) ∧ (∀ r, alone r → s.Alone k r) ∧
    (∀ h, seen = some h → ∀ r, h r → s.Held k r) ∧ (t.snapshot = none → seen = none) ∧
    ∀ snapshot, t.snapshot = some snapshot →
      ∃ h, seen = some h ∧ ∀ r, h (guard r) → snapshot r = s.db r
  writes : ∀ r, t.writes r ≠ none → s.Alone k r ∧ (guard r = r ∨ s.Alone k (guard r))
  drawn : t.drawn.Nodup ∧ ∀ r ∈ t.drawn, r ∈ s.used

structure Inv (svc : Service V A Op) (guard : R → R) (s : State V A Op) : Prop where
  going : ∀ k op n t, s.calls k = some ⟨op, .running n t⟩ → Going svc guard s k op t
  compatible : ∀ r, ∀ h ∈ s.locks r, ∀ h' ∈ s.locks r, h.1 ≠ h'.1 → h.2 = false ∧ h'.2 = false
  apart : ∀ k j op op' n n' t t', s.calls k = some ⟨op, .running n t⟩ →
    s.calls j = some ⟨op', .running n' t'⟩ → k ≠ j → ∀ r ∈ t.drawn, r ∉ t'.drawn

theorem Inv.alone_not_held {r : R} (hs : s.Inv svc guard) (h : s.Alone k r) (hkj : k ≠ j) :
    ¬ s.Held j r := by
  rintro ⟨alone, hj⟩
  obtain ⟨hfalse, -⟩ := hs.compatible r _ h _ hj hkj
  cases hfalse

/-- A step that keeps the locks of the call and the rows they protect. -/
theorem Going.mono {op : Op} {t : Txn V A} (h : Going svc guard s k op t)
    (hdb : ∀ r, s.Held k r ∨ s.Held k (guard r) → s'.db r = s.db r)
    (hlocks : ∀ r alone, (k, alone) ∈ s.locks r → (k, alone) ∈ s'.locks r)
    (hused : ∀ r ∈ s.used, r ∈ s'.used) : Going svc guard s' k op t := by
  have hheld : ∀ r, s.Held k r → s'.Held k r := fun r ⟨alone, h⟩ => ⟨alone, hlocks r alone h⟩
  have halone : ∀ r, s.Alone k r → s'.Alone k r := fun r h => hlocks r true h
  obtain ⟨reads, hran, hreads⟩ := h.ran
  obtain ⟨held, alone, seen, hguarded, h₁, h₂, h₃, h₄, h₅⟩ := h.guarded
  refine ⟨⟨reads, hran.congr fun r hr => hdb r (hreads r hr), fun r hr => ?_⟩,
    ⟨held, alone, seen, hguarded, fun r hr => hheld r (h₁ r hr), fun r hr => halone r (h₂ r hr),
      fun h hh r hr => hheld r (h₃ h hh r hr), h₄, fun snapshot hs => ?_⟩, fun r hr => ?_,
    h.drawn.1, fun r hr => hused r (h.drawn.2 r hr)⟩
  · exact (hreads r hr).imp (hheld r) (hheld _)
  · obtain ⟨h, hh, hsame⟩ := h₅ snapshot hs
    refine ⟨h, hh, fun r hr => ?_⟩
    rw [hdb r (.inr (h₃ h hh _ hr))]
    exact hsame r hr
  · exact (h.writes r hr).imp (halone r) (Or.imp_right (halone _))

/-- A new transaction, that holds nothing yet. -/
theorem going_start (hsvc : svc.Disciplined guard) (s : State V A Op) (k : ℕ) (op : Op) :
    Going svc guard s k op (Txn.start (svc.program op)) where
  ran := ⟨_, .start, fun _ h => h.elim⟩
  guarded := ⟨_, _, none, hsvc op, fun _ h => h.elim, fun _ h => h.elim, nofun, fun _ => rfl, nofun⟩
  writes _ h := absurd rfl h
  drawn := ⟨List.nodup_nil, fun _ h => by cases h⟩

theorem held_take {r q : R} {alone : Bool} (h : s.Held j q) : (s.take k r alone).Held j q := by
  obtain ⟨a, ha⟩ := h
  refine ⟨a, ?_⟩
  by_cases hq : q = r
  · subst hq
    simp [take, ha]
  · simp [take, hq, ha]

theorem mem_take {r : R} {alone : Bool} : (k, alone) ∈ (s.take k r alone).locks r := by
  simp [take]

theorem take_locks {r q : R} {alone a : Bool} (h : (j, a) ∈ s.locks q) :
    (j, a) ∈ (s.take k r alone).locks q := by
  by_cases hq : q = r
  · subst hq
    simp [take, h]
  · simp [take, hq, h]

theorem Going.lock {op : Op} {t : Txn V A} {mode : Mode} {r : R}
    {next : Option (V r) → Prog V A} (h : Going svc guard s k op t)
    (hprog : t.prog = .lock mode r next) :
    Going svc guard (s.take k r (mode.alone (overlay t.writes s.db r).isSome)) k op
      { t with prog := next (overlay t.writes s.db r) } := by
  obtain ⟨reads, hran, hreads⟩ := h.ran
  obtain ⟨held, excl, seen, hguarded, h₁, h₂, h₃, h₄, h₅⟩ := h.guarded
  rw [hprog] at hran hguarded
  refine ⟨⟨_, hran.lock, fun q hq => ?_⟩,
    ⟨_, _, seen, hguarded (overlay t.writes s.db r), fun q hq => ?_, fun q hq => ?_,
      fun h hh q hq => held_take (h₃ h hh q hq), h₄, h₅⟩,
    fun q hq => (h.writes q hq).imp take_locks (Or.imp_right take_locks), h.drawn⟩
  · rcases hq with rfl | hq
    · exact .inl ⟨_, mem_take⟩
    · exact (hreads q hq).imp held_take held_take
  · rcases hq with rfl | hq
    · exact ⟨_, mem_take⟩
    · exact held_take (h₁ q hq)
  · rcases hq with ⟨rfl, halone⟩ | hq
    · rw [halone]
      exact mem_take
    · exact take_locks (h₂ q hq)

theorem Going.select {op : Op} {t : Txn V A} {rows : R → Prop}
    {next : (∀ r, rows r → Option (V r)) → Prog V A} (h : Going svc guard s k op t)
    (hprog : t.prog = .select rows next) :
    Going svc guard s k op { t with
      prog := next fun r _ => overlay t.writes (t.snapshot.getD s.db) r
      snapshot := some (t.snapshot.getD s.db) } := by
  obtain ⟨reads, hran, hreads⟩ := h.ran
  obtain ⟨held, excl, seen, hguarded, h₁, h₂, h₃, h₄, h₅⟩ := h.guarded
  rw [hprog] at hran hguarded
  obtain ⟨hrows, hnext⟩ := hguarded
  have hseen : ∀ r, seen.getD held r → s.Held k r := by
    intro r hr
    cases hs : seen with
    | none =>
      rw [hs] at hr
      exact h₁ r hr
    | some h =>
      rw [hs] at hr
      exact h₃ h hs r hr
  -- the snapshot shows the committed rows, as far as they are protected
  have hsnapshot : ∀ r, seen.getD held (guard r) → t.snapshot.getD s.db r = s.db r := by
    intro r hr
    cases hs : t.snapshot with
    | none => rfl
    | some snapshot =>
      obtain ⟨h, rfl, hsame⟩ := h₅ snapshot hs
      exact hsame r hr
  have hview : (fun r (_ : rows r) => overlay t.writes (t.snapshot.getD s.db) r) =
      fun r _ => overlay t.writes s.db r := by
    funext r hr
    exact overlay_congr _ (hsnapshot r (hrows r hr))
  refine ⟨⟨_, hview ▸ hran.select, fun r hr => ?_⟩,
    ⟨held, excl, some (seen.getD held), hnext _, h₁, h₂, fun h hh => ?_, nofun,
      fun snapshot hs => ⟨_, rfl, fun r hr => ?_⟩⟩, h.writes, h.drawn⟩
  · rcases hr with hr | hr
    · exact .inr (hseen _ (hrows r hr))
    · exact hreads r hr
  · cases hh
    exact hseen
  · cases hs
    exact hsnapshot r hr

theorem Going.modify {op : Op} {t : Txn V A} {r : R}
    {change : Option (V r) → Option (Option (V r))} {next : Prog V A} {row : Option (V r)}
    (h : Going svc guard s k op t) (hprog : t.prog = .modify r change next)
    (hrow : change (overlay t.writes s.db r) = some row) :
    Going svc guard (s.take k r true) k op { t with
      prog := next
      writes := Function.update t.writes r (some row) } := by
  obtain ⟨reads, hran, hreads⟩ := h.ran
  obtain ⟨held, excl, seen, hguarded, h₁, h₂, h₃, h₄, h₅⟩ := h.guarded
  rw [hprog] at hran hguarded
  obtain ⟨hguard, hnext⟩ := hguarded
  refine ⟨⟨_, hran.modify hrow, fun q hq => ?_⟩,
    ⟨_, _, seen, hnext, fun q hq => ?_, fun q hq => ?_,
      fun h hh q hq => held_take (h₃ h hh q hq), h₄, h₅⟩, fun q hq => ?_, h.drawn⟩
  · rcases hq with rfl | hq
    · exact .inl ⟨true, mem_take⟩
    · exact (hreads q hq).imp held_take held_take
  · rcases hq with rfl | hq
    · exact ⟨true, mem_take⟩
    · exact held_take (h₁ q hq)
  · rcases hq with rfl | hq
    · exact mem_take
    · exact take_locks (h₂ q hq)
  · by_cases hqr : q = r
    · subst hqr
      exact ⟨mem_take, hguard.imp_right fun hg => take_locks (h₂ _ hg)⟩
    · have hold : t.writes q ≠ none := by simpa [hqr] using hq
      exact (h.writes q hold).imp take_locks (Or.imp_right take_locks)

theorem Going.fresh {op : Op} {t : Txn V A} {row : ℕ → R} {next : ℕ → Prog V A} {n : ℕ}
    (h : Going svc guard s k op t) (hprog : t.prog = .fresh row next) (hn : n ≠ 0)
    (hnew : row n ∉ s.used) :
    Going svc guard { s with used := row n :: s.used } k op { t with
      prog := next n
      drawn := row n :: t.drawn } := by
  obtain ⟨reads, hran, hreads⟩ := h.ran
  obtain ⟨held, excl, seen, hguarded, h₁, h₂, h₃, h₄, h₅⟩ := h.guarded
  rw [hprog] at hran hguarded
  refine ⟨⟨reads, hran.fresh hn, hreads⟩, ⟨held, excl, seen, hguarded n, h₁, h₂, h₃, h₄, h₅⟩,
    h.writes, List.nodup_cons.mpr ⟨fun hmem => hnew (h.drawn.2 _ hmem), h.drawn.1⟩, ?_⟩
  intro q hq
  rcases List.mem_cons.mp hq with rfl | hq
  · exact List.mem_cons_self
  · exact List.mem_cons_of_mem _ (h.drawn.2 q hq)

/-- One call goes on, and leaves the others what they hold. -/
theorem Inv.progress {s₁ : State V A Op} {op : Op} {stage : Stage V A} (hs : s.Inv svc guard)
    (hcalls : s₁.calls = s.calls)
    (hdb : ∀ j, j ≠ k → ∀ r, s.Held j r ∨ s.Held j (guard r) → s₁.db r = s.db r)
    (hlocks : ∀ j, j ≠ k → ∀ r alone, (j, alone) ∈ s.locks r → (j, alone) ∈ s₁.locks r)
    (hused : ∀ r ∈ s.used, r ∈ s₁.used)
    (hcompatible : ∀ r, ∀ h ∈ s₁.locks r, ∀ h' ∈ s₁.locks r, h.1 ≠ h'.1 →
      h.2 = false ∧ h'.2 = false)
    (hgoing : ∀ n t, stage = .running n t → Going svc guard s₁ k op t)
    (hdrawn : ∀ n t, stage = .running n t → ∀ r ∈ t.drawn, r ∉ s.used ∨
      ∃ op' n' t', s.calls k = some ⟨op', .running n' t'⟩ ∧ r ∈ t'.drawn) :
    (s₁.setCall k op stage).Inv svc guard := by
  have hcall : ∀ j op' n t, (s₁.setCall k op stage).calls j = some ⟨op', .running n t⟩ →
      (j = k ∧ op' = op ∧ stage = .running n t) ∨
        (j ≠ k ∧ s.calls j = some ⟨op', .running n t⟩) := by
    intro j op' n t hj
    by_cases hjk : j = k
    · subst hjk
      simp only [setCall, Function.update_self, Option.some_inj, Call.mk.injEq] at hj
      exact .inl ⟨rfl, hj.1.symm, hj.2⟩
    · simp only [setCall, Function.update_of_ne hjk, hcalls] at hj
      exact .inr ⟨hjk, hj⟩
  have hapart : ∀ j op' n t n' t', j ≠ k → s.calls j = some ⟨op', .running n t⟩ →
      stage = .running n' t' → ∀ r ∈ t.drawn, r ∉ t'.drawn := by
    intro j op' n t n' t' hjk hj hstage r hr hr'
    rcases hdrawn n' t' hstage r hr' with hnew | ⟨op₀, n₀, t₀, hk, hr₀⟩
    · exact hnew ((hs.going j op' n t hj).drawn.2 r hr)
    · exact hs.apart j k _ _ _ _ _ _ hj hk hjk r hr hr₀
  refine ⟨fun j op' n t hj => ?_, hcompatible, fun i j op₁ op₂ n₁ n₂ t₁ t₂ hi hj hij r hr => ?_⟩
  · rcases hcall j op' n t hj with ⟨rfl, rfl, hstage⟩ | ⟨hjk, hj⟩
    · exact (hgoing n t hstage).mono (fun _ _ => rfl) (fun _ _ h => h) fun _ h => h
    · exact (hs.going j op' n t hj).mono (hdb j hjk) (hlocks j hjk) hused
  · rcases hcall i _ _ _ hi with ⟨rfl, -, hi'⟩ | ⟨hik, hi'⟩ <;>
      rcases hcall j _ _ _ hj with ⟨rfl, -, hj'⟩ | ⟨hjk, hj'⟩
    · exact absurd rfl hij
    · exact fun hr' => hapart j _ _ _ _ _ hjk hj' hi' r hr' hr
    · exact hapart i _ _ _ _ _ hik hi' hj' r hr
    · exact hs.apart i j _ _ _ _ _ _ hi' hj' hij r hr

theorem Inv.compatible_take {r : R} {alone : Bool} (hs : s.Inv svc guard)
    (hfree : s.Free k r alone) : ∀ q, ∀ h ∈ (s.take k r alone).locks q,
      ∀ h' ∈ (s.take k r alone).locks q, h.1 ≠ h'.1 → h.2 = false ∧ h'.2 = false := by
  intro q h hh h' hh' hne
  by_cases hq : q = r
  · subst hq
    simp only [take, Function.update_self, List.mem_cons] at hh hh'
    rcases hh with rfl | hh <;> rcases hh' with rfl | hh'
    · exact absurd rfl hne
    · exact (hfree h' hh').resolve_left fun heq => hne heq.symm
    · exact ((hfree h hh).resolve_left hne).symm
    · exact hs.compatible q h hh h' hh' hne
  · simp only [take, Function.update_of_ne hq] at hh hh'
    exact hs.compatible q h hh h' hh' hne

theorem inv_statement {op : Op} {attempt n : ℕ} {t : Txn V A} (hs : s.Inv svc guard)
    (hcall : s.calls k = some ⟨op, .running attempt t⟩)
    (h : s.statement k op attempt t n = some s') : s'.Inv svc guard := by
  have hgo := hs.going k op attempt t hcall
  have hdrawn : ∀ r ∈ t.drawn, r ∉ s.used ∨
      ∃ op' n' t', s.calls k = some ⟨op', .running n' t'⟩ ∧ r ∈ t'.drawn :=
    fun r hr => .inr ⟨op, attempt, t, hcall, hr⟩
  unfold statement at h
  split at h
  · cases h
  next mode r next hprog =>
    dsimp only at h
    split at h
    next hfree =>
      cases h
      refine hs.progress rfl (fun _ _ _ _ => rfl) (fun _ _ _ _ => take_locks) (fun _ h => h)
        (hs.compatible_take hfree) ?_ ?_
      · rintro _ _ ⟨⟩
        exact hgo.lock hprog
      · rintro _ _ ⟨⟩
        exact hdrawn
    next => cases h
  next rows next hprog =>
    cases h
    refine hs.progress rfl (fun _ _ _ _ => rfl) (fun _ _ _ _ h => h) (fun _ h => h)
      hs.compatible ?_ ?_
    · rintro _ _ ⟨⟩
      exact hgo.select hprog
    · rintro _ _ ⟨⟩
      exact hdrawn
  next r change next hprog =>
    split at h
    next hfree =>
      obtain ⟨row, hrow, rfl⟩ := Option.map_eq_some_iff.mp h
      refine hs.progress rfl (fun _ _ _ _ => rfl) (fun _ _ _ _ => take_locks) (fun _ h => h)
        (hs.compatible_take hfree) ?_ ?_
      · rintro _ _ ⟨⟩
        exact hgo.modify hprog hrow
      · rintro _ _ ⟨⟩
        exact hdrawn
    next => cases h
  next row next hprog =>
    split at h
    next hnew =>
      cases h
      refine hs.progress rfl (fun _ _ _ _ => rfl) (fun _ _ _ _ h => h)
        (fun _ => List.mem_cons_of_mem _) hs.compatible ?_ ?_
      · rintro _ _ ⟨⟩
        exact hgo.fresh hprog hnew.1 hnew.2
      · rintro _ _ ⟨⟩ r hr
        rcases List.mem_cons.mp hr with rfl | hr
        · exact .inl hnew.2
        · exact hdrawn r hr
    next => cases h

/-- A call that ends, or starts again, with the rows as they are or as it leaves them. -/
theorem inv_release {op : Op} {stage : Stage V A} (db : Db V) (log : List (Op × A))
    (hsvc : svc.Disciplined guard) (hs : s.Inv svc guard)
    (hdb : ∀ j, j ≠ k → ∀ r, s.Held j r ∨ s.Held j (guard r) → db r = s.db r)
    (hstage : ∀ n t, stage = .running n t → t = Txn.start (svc.program op)) :
    (release { s with db, log } k op stage).Inv svc guard := by
  refine hs.progress rfl hdb ?_ (fun _ h => h) ?_ ?_ ?_
  · intro j hjk r alone hj
    exact List.mem_filter.mpr ⟨hj, by simpa using hjk⟩
  · intro r h hh h' hh'
    exact hs.compatible r h (List.mem_filter.mp hh).1 h' (List.mem_filter.mp hh').1
  · intro n t ht
    rw [hstage n t ht]
    exact going_start hsvc _ k op
  · intro n t ht r hr
    rw [hstage n t ht] at hr
    cases hr

/-- The rows that a transaction changed are protected by nobody else. -/
theorem Inv.overlay_protected {op : Op} {n : ℕ} {t : Txn V A} (hs : s.Inv svc guard)
    (hcall : s.calls k = some ⟨op, .running n t⟩) (hjk : j ≠ k) {r : R}
    (hr : s.Held j r ∨ s.Held j (guard r)) : overlay t.writes s.db r = s.db r := by
  refine overlay_of_none ?_
  by_contra hwrites
  obtain ⟨halone, hguard⟩ := (hs.going k op n t hcall).writes r hwrites
  rcases hr with hr | hr
  · exact hs.alone_not_held halone hjk.symm hr
  · rcases hguard with hself | hguard
    · rw [hself] at hr
      exact hs.alone_not_held halone hjk.symm hr
    · exact hs.alone_not_held hguard hjk.symm hr

theorem inv_step {a : Action Op} (hsvc : svc.Disciplined guard) (hs : s.Inv svc guard)
    (h : s.step svc a = some s') : s'.Inv svc guard := by
  cases a with
  | begin k op =>
    simp only [step] at h
    split at h
    next hnew =>
      cases h
      refine hs.progress rfl (fun _ _ _ _ => rfl) (fun _ _ _ _ h => h) (fun _ h => h)
        hs.compatible ?_ ?_
      · rintro _ _ ⟨⟩
        exact going_start hsvc s k op
      · rintro _ _ ⟨⟩ r hr
        cases hr
    next => cases h
  | statement k n =>
    simp only [step] at h
    split at h
    next op attempt t hcall => exact inv_statement hs hcall h
    next => cases h
  | fail k retryable =>
    simp only [step] at h
    split at h
    next op attempt t hcall =>
      split at h
      · cases h
      · cases h
        refine inv_release s.db s.log hsvc hs (fun _ _ _ _ => rfl) ?_
        intro n t ht
        split at ht
        · cases ht
          rfl
        · cases ht
    next => cases h
  | rollback k =>
    simp only [step] at h
    split at h
    next op attempt t hcall =>
      split at h
      · cases h
        exact inv_release s.db s.log hsvc hs (fun _ _ _ _ => rfl) nofun
      · cases h
    next => cases h
  | commit k outcome =>
    simp only [step] at h
    split at h
    next op attempt t hcall =>
      split at h
      next result hprog =>
        cases h
        unfold commit
        split
        · exact inv_release _ _ hsvc hs
            (fun j hjk r hr => hs.overlay_protected hcall hjk hr) nofun
        · exact inv_release s.db s.log hsvc hs (fun _ _ _ _ => rfl) nofun
      next => cases h
    next => cases h

end State

variable {svc : Service V A Op} {guard : R → R} {init : Db V → Prop}

theorem inv_engine (hsvc : svc.Disciplined guard) :
    (engine svc init).Invariant (State.Inv svc guard) where
  init s h := by
    obtain ⟨-, -, hlocks, hcalls, -⟩ := h
    refine ⟨fun k op n t hk => ?_, fun r h hh => ?_, fun k j op op' n n' t t' hk => ?_⟩
    · simp [hcalls] at hk
    · simp [hlocks] at hh
    · simp [hcalls] at hk
  step _ _ _ _ hs h := State.inv_step hsvc hs h

/-! ## The simulation -/

/-- The store of the committed operations: no running transaction has drawn its keys. -/
def Abstracts (s : State V A Op) (t : Store V A Op) : Prop :=
  t.db = s.db ∧ t.log = s.log ∧ (∀ r ∈ t.used, r ∈ s.used) ∧
    ∀ k op n x, s.calls k = some ⟨op, .running n x⟩ → ∀ r ∈ x.drawn, r ∉ t.used

namespace State

variable {s s' : State V A Op} {t : Store V A Op} {k : ℕ}

/-- A transaction at its end has done what its program does alone on the committed rows. -/
theorem Inv.ends {op : Op} {n : ℕ} {x : Txn V A} {commit : Bool} {result : A}
    (hs : s.Inv svc guard) (hcall : s.calls k = some ⟨op, .running n x⟩)
    (hprog : x.prog = .finish commit result) :
    (svc.program op).Ends s.db [] commit result (overlay x.writes s.db) x.drawn := by
  obtain ⟨reads, hran, -⟩ := (hs.going k op n x hcall).ran
  rw [hprog] at hran
  exact hran.ends ⟨rfl, rfl, rfl, rfl⟩

theorem Inv.commits {op : Op} {n : ℕ} {x : Txn V A} {result : A} (hs : s.Inv svc guard)
    (hst : Abstracts s t) (hcall : s.calls k = some ⟨op, .running n x⟩)
    (hprog : x.prog = .finish true result) :
    t.Commits svc op result x.drawn
      ⟨overlay x.writes s.db, x.drawn ++ t.used, (op, result) :: s.log⟩ := by
  obtain ⟨hdb, hlog, -, hfresh⟩ := hst
  refine ⟨?_, (hs.going k op n x hcall).drawn.1, hfresh k op n x hcall, rfl, by rw [hlog]⟩
  rw [hdb]
  exact hs.ends hcall hprog

omit [DecidableEq R] in
/-- A step that commits nothing. -/
theorem abstracts_of_same {s₁ : State V A Op} {op : Op} {stage : Stage V A}
    (hst : Abstracts s t) (hdb : s₁.db = s.db) (hlog : s₁.log = s.log)
    (hcalls : s₁.calls = s.calls) (hused : ∀ r ∈ s.used, r ∈ s₁.used)
    (hdrawn : ∀ n x, stage = .running n x → ∀ r ∈ x.drawn, r ∉ t.used) :
    Abstracts (s₁.setCall k op stage) t := by
  obtain ⟨htdb, htlog, htused, hfresh⟩ := hst
  refine ⟨htdb.trans hdb.symm, htlog.trans hlog.symm, fun r hr => hused r (htused r hr),
    fun j op' n x hj => ?_⟩
  by_cases hjk : j = k
  · subst hjk
    simp only [setCall, Function.update_self, Option.some_inj, Call.mk.injEq] at hj
    exact hdrawn n x hj.2
  · simp only [setCall, Function.update_of_ne hjk, hcalls] at hj
    exact hfresh j op' n x hj

theorem abstracts_statement {op : Op} {attempt n : ℕ} {x : Txn V A} (hst : Abstracts s t)
    (hcall : s.calls k = some ⟨op, .running attempt x⟩)
    (h : s.statement k op attempt x n = some s') :
    Abstracts s' t ∧ s'.db = s.db ∧ s'.log = s.log := by
  have hdrawn := hst.2.2.2 k op attempt x hcall
  unfold statement at h
  split at h
  · cases h
  · dsimp only at h
    split at h
    · cases h
      refine ⟨abstracts_of_same hst rfl rfl rfl (fun _ h => h) ?_, rfl, rfl⟩
      rintro _ _ ⟨⟩
      exact hdrawn
    · cases h
  · cases h
    refine ⟨abstracts_of_same hst rfl rfl rfl (fun _ h => h) ?_, rfl, rfl⟩
    rintro _ _ ⟨⟩
    exact hdrawn
  · split at h
    · obtain ⟨row, -, rfl⟩ := Option.map_eq_some_iff.mp h
      refine ⟨abstracts_of_same hst rfl rfl rfl (fun _ h => h) ?_, rfl, rfl⟩
      rintro _ _ ⟨⟩
      exact hdrawn
    · cases h
  · split at h
    next hnew =>
      cases h
      refine ⟨abstracts_of_same hst rfl rfl rfl (fun _ => List.mem_cons_of_mem _) ?_, rfl, rfl⟩
      rintro _ _ ⟨⟩ r hr
      rcases List.mem_cons.mp hr with rfl | hr
      · exact fun hmem => hnew.2 (hst.2.2.1 _ hmem)
      · exact hdrawn r hr
    next => cases h

/-- In this step the running call comes to its end. -/
def Reports (s s' : State V A Op) (k : ℕ) (op : Op) (result : A) : Prop :=
  (∃ n x, s.calls k = some ⟨op, .running n x⟩) ∧ s'.calls k = some ⟨op, .finished result⟩

/-- A commit that took effect. -/
structure Committed (svc : Service V A Op) (s : State V A Op) (a : Action Op)
    (s' : State V A Op) (op : Op) (result : A) (ns : List R) : Prop where
  ends : (svc.program op).Ends s.db [] true result s'.db ns
  log : s'.log = (op, result) :: s.log
  action : ∃ k outcome, a = .commit k outcome ∧
    Reports s s' k op (if outcome = .ok then result else svc.failed op)

/-- Every step commits one operation, as if alone, or leaves the committed rows alone. -/
theorem step_abstracts {a : Action Op} (hs : s.Inv svc guard) (hst : Abstracts s t)
    (h : s.step svc a = some s') :
    (Abstracts s' t ∧ s'.db = s.db ∧ s'.log = s.log) ∨
      ∃ op result ns t', Committed svc s a s' op result ns ∧ t.Commits svc op result ns t' ∧
        Abstracts s' t' := by
  cases a with
  | begin k op =>
    simp only [step] at h
    split at h
    next hnew =>
      cases h
      refine .inl ⟨abstracts_of_same hst rfl rfl rfl (fun _ h => h) ?_, rfl, rfl⟩
      rintro _ _ ⟨⟩ r hr
      cases hr
    next => cases h
  | statement k n =>
    simp only [step] at h
    split at h
    next op attempt x hcall => exact .inl (abstracts_statement hst hcall h)
    next => cases h
  | fail k retryable =>
    simp only [step] at h
    split at h
    next op attempt x hcall =>
      split at h
      · cases h
      · cases h
        refine .inl ⟨abstracts_of_same hst rfl rfl rfl (fun _ h => h) ?_, rfl, rfl⟩
        intro n x hx r hr
        split at hx
        · cases hx
          cases hr
        · cases hx
    next => cases h
  | rollback k =>
    simp only [step] at h
    split at h
    next op attempt x hcall =>
      split at h
      · cases h
        exact .inl ⟨abstracts_of_same hst rfl rfl rfl (fun _ h => h) nofun, rfl, rfl⟩
      · cases h
    next => cases h
  | commit k outcome =>
    simp only [step] at h
    split at h
    next op attempt x hcall =>
      split at h
      next result hprog =>
        cases h
        unfold commit
        split
        · have hcommits := hs.commits hst hcall hprog
          refine .inr ⟨op, result, x.drawn, _, ⟨hs.ends hcall hprog, rfl, k, outcome, rfl,
            ⟨_, _, hcall⟩, ?_⟩, hcommits, rfl, rfl, fun r hr => ?_, fun j op' n y hj r hr hmem => ?_⟩
          · simp [release, setCall]
          · rcases List.mem_append.mp hr with hr | hr
            · exact (hs.going k op attempt x hcall).drawn.2 r hr
            · exact hst.2.2.1 r hr
          · by_cases hjk : j = k
            · subst hjk
              simp [release, setCall] at hj
            · simp only [release, setCall, Function.update_of_ne hjk] at hj
              rcases List.mem_append.mp hmem with hmem | hmem
              · exact hs.apart j k _ _ _ _ _ _ hj hcall hjk r hr hmem
              · exact hst.2.2.2 j op' n y hj r hr hmem
        · exact .inl ⟨abstracts_of_same hst rfl rfl rfl (fun _ h => h) nofun, rfl, rfl⟩
      next => cases h
    next => cases h

omit [DecidableEq R] in
theorem Reports.eq_of_setCall {j : ℕ} {op op' : Op} {stage : Stage V A} {result : A}
    {s₁ : State V A Op} (hcalls : s₁.calls = s.calls)
    (h : Reports s (s₁.setCall k op stage) j op' result) :
    j = k ∧ op' = op ∧ stage = .finished result := by
  obtain ⟨⟨m, y, hj⟩, hj'⟩ := h
  by_cases hjk : j = k
  · subst hjk
    simp only [setCall, Function.update_self, Option.some_inj, Call.mk.injEq] at hj'
    exact ⟨rfl, hj'.1.symm, hj'.2⟩
  · simp only [setCall, Function.update_of_ne hjk, hcalls, hj, Option.some_inj,
      Call.mk.injEq] at hj'
    cases hj'.2

theorem statement_setCall {op : Op} {attempt n : ℕ} {x : Txn V A}
    (h : s.statement k op attempt x n = some s') :
    ∃ s₁ y, s₁.calls = s.calls ∧ s' = setCall s₁ k op (.running attempt y) := by
  unfold statement at h
  split at h
  · cases h
  · dsimp only at h
    split at h
    · cases h
      exact ⟨s.take k _ _, _, rfl, rfl⟩
    · cases h
  · cases h
    exact ⟨s, _, rfl, rfl⟩
  · split at h
    · obtain ⟨row, -, rfl⟩ := Option.map_eq_some_iff.mp h
      exact ⟨s.take k _ _, _, rfl, rfl⟩
    · cases h
  · split at h
    · cases h
      exact ⟨⟨s.db, _ :: s.used, s.locks, s.calls, s.log⟩, _, rfl, rfl⟩
    · cases h

/-- What a call reports: an error that left the rows alone, or the end of a commit. -/
theorem Inv.reports {a : Action Op} {op : Op} {result : A} (hs : s.Inv svc guard)
    (h : s.step svc a = some s') (hr : Reports s s' k op result) :
    (s'.db = s.db ∧ s'.log = s.log ∧ (result = svc.failed op ∨
      ∃ db ns, (svc.program op).Ends s.db [] false result db ns)) ∨
    ∃ outcome r db ns, a = .commit k outcome ∧ (svc.program op).Ends s.db [] true r db ns ∧
      s'.db = (if outcome.tookEffect then db else s.db) ∧
      result = if outcome = .ok then r else svc.failed op := by
  cases a with
  | begin j op' =>
    simp only [step] at h
    split at h
    · cases h
      cases (hr.eq_of_setCall rfl).2.2
    · cases h
  | statement j n =>
    simp only [step] at h
    split at h
    next op' attempt x hcall =>
      obtain ⟨s₁, y, hcalls, rfl⟩ := statement_setCall h
      cases (hr.eq_of_setCall hcalls).2.2
    next => cases h
  | fail j retryable =>
    simp only [step] at h
    split at h
    next op' attempt x hcall =>
      split at h
      · cases h
      · cases h
        obtain ⟨rfl, rfl, hstage⟩ := hr.eq_of_setCall rfl
        split at hstage
        · cases hstage
        · cases hstage
          exact .inl ⟨rfl, rfl, .inl rfl⟩
    next => cases h
  | rollback j =>
    simp only [step] at h
    split at h
    next op' attempt x hcall =>
      split at h
      next result' hprog =>
        cases h
        obtain ⟨rfl, rfl, hstage⟩ := hr.eq_of_setCall rfl
        cases hstage
        exact .inl ⟨rfl, rfl, .inr ⟨_, _, hs.ends hcall hprog⟩⟩
      next => cases h
    next => cases h
  | commit j outcome =>
    simp only [step] at h
    split at h
    next op' attempt x hcall =>
      split at h
      next result' hprog =>
        cases h
        have hends := hs.ends hcall hprog
        unfold commit at hr ⊢
        split at hr
        next htook =>
          obtain ⟨rfl, rfl, hstage⟩ := hr.eq_of_setCall rfl
          cases hstage
          exact .inr ⟨outcome, _, _, _, rfl, hends, by simp [htook, release, setCall], rfl⟩
        next htook =>
          obtain ⟨rfl, rfl, hstage⟩ := hr.eq_of_setCall rfl
          cases hstage
          exact .inr ⟨outcome, _, _, _, rfl, hends, by simp [htook, release, setCall], rfl⟩
      next => cases h
    next => cases h

/-! ## Attempts -/

def Attempts (svc : Service V A Op) (s : State V A Op) : Prop :=
  ∀ k op n x, s.calls k = some ⟨op, .running n x⟩ → n < svc.attempts op

omit [DecidableEq R] in
theorem Attempts.setCall {op : Op} {stage : Stage V A} {s₁ : State V A Op}
    (hs : Attempts svc s) (hcalls : s₁.calls = s.calls)
    (hstage : ∀ n x, stage = .running n x → n < svc.attempts op) :
    Attempts svc (s₁.setCall k op stage) := by
  intro j op' n x hj
  by_cases hjk : j = k
  · subst hjk
    simp only [State.setCall, Function.update_self, Option.some_inj, Call.mk.injEq] at hj
    obtain ⟨rfl, hj⟩ := hj
    exact hstage n x hj
  · simp only [State.setCall, Function.update_of_ne hjk, hcalls] at hj
    exact hs j op' n x hj

theorem Attempts.step {a : Action Op} (hpositive : ∀ op, 0 < svc.attempts op)
    (hs : Attempts svc s) (h : s.step svc a = some s') : Attempts svc s' := by
  cases a with
  | begin k op =>
    simp only [State.step] at h
    split at h
    · cases h
      refine hs.setCall rfl ?_
      rintro _ _ ⟨⟩
      exact hpositive op
    · cases h
  | statement k n =>
    simp only [State.step] at h
    split at h
    next op attempt x hcall =>
      obtain ⟨s₁, y, hcalls, rfl⟩ := statement_setCall h
      refine hs.setCall hcalls ?_
      rintro _ _ ⟨⟩
      exact hs k op attempt x hcall
    next => cases h
  | fail k retryable =>
    simp only [State.step] at h
    split at h
    next op attempt x hcall =>
      split at h
      · cases h
      · cases h
        refine hs.setCall rfl fun n y hstage => ?_
        split at hstage
        next hretry =>
          cases hstage
          exact hretry.2
        next => cases hstage
    next => cases h
  | rollback k =>
    simp only [State.step] at h
    split at h
    next op attempt x hcall =>
      split at h
      · cases h
        exact hs.setCall rfl nofun
      · cases h
    next => cases h
  | commit k outcome =>
    simp only [State.step] at h
    split at h
    next op attempt x hcall =>
      split at h
      · cases h
        unfold commit
        split
        · exact hs.setCall rfl nofun
        · exact hs.setCall rfl nofun
      · cases h
    next => cases h

/-- No operation is tried more often than the service says. -/
theorem attempts_engine (hpositive : ∀ op, 0 < svc.attempts op) :
    (engine svc init).Invariant (Attempts svc) where
  init s h := by
    obtain ⟨-, -, -, hcalls, -⟩ := h
    intro k op n x hk
    simp [hcalls] at hk
  step _ _ _ _ hs h := hs.step hpositive h

end State

theorem engine_simulates (hsvc : svc.Disciplined guard) :
    (engine svc init).Simulates (atomic svc init) Abstracts where
  init s h := by
    obtain ⟨hinit, hused, -, hcalls, hlog⟩ := h
    refine ⟨⟨s.db, s.used, s.log⟩, ⟨hinit, hused, hlog⟩, rfl, rfl, fun _ h => h, ?_⟩
    intro k op n x hk
    simp [hcalls] at hk
  step s a s' t hs hst h := by
    rcases State.step_abstracts ((inv_engine hsvc).reachable hs) hst h with
      ⟨hst', -⟩ | ⟨op, result, ns, t', -, hcommits, hst'⟩
    · exact ⟨t, .refl, hst'⟩
    · exact ⟨t', .single ⟨op, result, ns, hcommits⟩, hst'⟩

/-- What holds of every store that operations build one after another holds of the
committed rows of the engine. -/
theorem db_of_atomic {I : Store V A Op → Prop} (hsvc : svc.Disciplined guard)
    (hI : (atomic svc init).Invariant I) {s : State V A Op} (hs : (engine svc init).Reachable s) :
    ∃ t, (atomic svc init).Reachable t ∧ Abstracts s t ∧ I t := by
  obtain ⟨t, ht, hst⟩ := (engine_simulates hsvc).reachable hs
  exact ⟨t, ht, hst, hI.reachable ht⟩

end CppChat.Foundation.RowLocks
