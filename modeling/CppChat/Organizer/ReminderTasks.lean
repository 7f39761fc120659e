import CppChat.Organizer.Reminders

/-! # Tasks of the reminder service

What a task of the worker does to the rows, and where the checks of the service are: results come
back in the order of their tasks, so the service waits for one check at most, and a check of an
account that was left is behind before another one is ready.
-/
namespace CppChat.Organizer
open Foundation

/-! ## What the statements do to the rows -/

namespace ReminderTable
variable {t t' : ReminderTable} {messages : Int → Int → Bool} {now id : Int}
  {reminder : LocalReminder} {reminders : List LocalReminder}

/-- A stored row is an old one, or it is due later than now and not flagged. -/
theorem saveReminder_rows (h : t.saveReminder messages now reminder = .ok (reminders, t'))
    {r : ReminderRow} (hr : r ∈ t'.reminders.rows) :
    r ∈ t.reminders.rows ∨ r.due = false ∧ now < r.dueMs := by
  unfold saveReminder at h
  split at h
  · cases h
  next htime =>
    have hlater : now < reminder.dueMs := (not_not.mp htime).2.1
    split at h
    · split at h
      · cases h
      · split at h
        · cases h
        next row u hinsert =>
          cases h
          unfold insertReminder at hinsert
          simp only [Option.ite_none_left_eq_some, Option.map_eq_some_iff] at hinsert
          obtain ⟨-, table, htable, hp⟩ := hinsert
          cases hp
          simp only [(Table.insert_eq_some.mp htable).2, List.mem_append,
            List.mem_singleton] at hr
          rcases hr with hr | rfl
          · exact .inl hr
          · exact .inr ⟨rfl, hlater⟩
    · split at h
      · cases h
      next row u hupdate =>
        cases h
        unfold reschedule at hupdate
        split at hupdate
        · cases hupdate
        · cases hupdate
          simp only [Keyed.mem_modify] at hr
          obtain ⟨old, hold, rfl⟩ := hr
          split
          · exact .inr ⟨rfl, hlater⟩
          · exact .inl hold

theorem removeReminder_rows (h : t.removeReminder id = .ok (reminders, t')) {r : ReminderRow}
    (hr : r ∈ t'.reminders.rows) : r ∈ t.reminders.rows := by
  unfold removeReminder at h
  split at h
  · cases h
  · cases h
    exact (Table.mem_delete.mp hr).1

theorem checkDueReminders_ok (h : t.checkDueReminders now = .ok (reminders, t')) :
    t' = t.markDue now ∧ reminders = (t.markDue now).dueReminders := by
  unfold checkDueReminders at h
  split at h
  · cases h
  · cases h
    exact ⟨rfl, rfl⟩

@[simp] theorem pairs_markDue : (t.markDue now).pairs = t.pairs := by
  simp [pairs, markDue, Function.comp_def]

theorem mem_pairs {p : Int × Int} :
    p ∈ t.pairs ↔ ∃ r ∈ t.reminders.rows, (r.id, r.dueMs) = p := by
  simp [pairs]

theorem nodup_ids : (t.pairs.map Prod.fst).Nodup := by
  rw [pairs, List.map_map, List.nodup_iff_pairwise_ne, List.pairwise_map]
  exact t.reminders.unique

/-- The due reminders of a table in which a row is flagged only when it was due by now. -/
theorem dueReminders_markDue (hdue : ∀ r ∈ t.reminders.rows, r.due = true → r.dueMs ≤ now) :
    ((t.markDue now).dueReminders.map fun r => (r.id, r.dueMs)).Perm
      (t.pairs.filter fun p => p.2 ≤ now) := by
  have hperm := ((t.markDue now).reminders.rows.filter fun r => r.due).perm_insertionSort
    fun a b => a.dueMs < b.dueMs ∨ a.dueMs = b.dueMs ∧ a.id ≤ b.id
  have hrows : ∀ l : List ReminderRow, (∀ r ∈ l, r.due = true → r.dueMs ≤ now) →
      ((l.map (mark now)).filter fun r => r.due).map (fun r => (r.id, r.dueMs)) =
        (l.map fun r => (r.id, r.dueMs)).filter fun p => p.2 ≤ now := by
    intro l hl
    induction l with
    | nil => rfl
    | cons a l ih =>
      have ha := hl a List.mem_cons_self
      have ih := ih fun r hr => hl r (List.mem_cons_of_mem a hr)
      by_cases hnow : a.dueMs ≤ now
      · have hmark : (mark now a).due = true := by
          cases hd : a.due <;> simp [mark, hd, hnow]
        simp [hmark, hnow, ih]
      · have hd : a.due = false := by
          cases hd : a.due
          · rfl
          · exact absurd (ha hd) hnow
        have hmark : (mark now a).due = false := by simp [mark, hd, hnow]
        simp [hmark, hnow, ih]
  have hmap := hperm.map fun r : ReminderRow => (r.id, r.dueMs)
  rw [show (t.markDue now).reminders.rows = t.reminders.rows.map (mark now) from rfl,
    hrows t.reminders.rows hdue] at hmap
  simpa [dueReminders, readReminder, markDue, pairs, Function.comp_def] using hmap

end ReminderTable

namespace Reminders
open ReminderTable

/-! ## What the worker does -/

namespace Worker
variable {w : Worker} {clock : ℕ} {fault : Fault} {messages : Int → Int → Bool}
  {operation : Operation}

theorem onDatabase_cases (w : Worker) (fault : Fault)
    (call : ReminderTable → Except String (List LocalReminder × ReminderTable)) :
    ((w.onDatabase fault call).2 = w ∧ ∃ e, (w.onDatabase fault call).1 = .error e) ∨
      ∃ d reminders t, w.opened = some d ∧ call (w.databases d) = .ok (reminders, t) ∧
        (w.onDatabase fault call).2 = w.write d t ∧
        ((w.onDatabase fault call).1 = .ok reminders ∨
          ∃ e, (w.onDatabase fault call).1 = .error e) := by
  unfold onDatabase
  split
  · exact .inl ⟨rfl, _, rfl⟩
  next d hd =>
    split
    · exact .inl ⟨rfl, _, rfl⟩
    next reminders t ht =>
      cases fault with
      | never => exact .inr ⟨d, reminders, t, hd, ht, rfl, .inl rfl⟩
      | before => exact .inl ⟨rfl, _, rfl⟩
      | after => exact .inr ⟨d, reminders, t, hd, ht, rfl, .inr ⟨_, rfl⟩⟩

/-- A row behind a task is an old one, a later one, or one that a check flagged. -/
theorem perform_rows {d : String} {r : ReminderRow}
    (hr : r ∈ ((w.perform clock fault messages operation).2.databases d).reminders.rows) :
    r ∈ (w.databases d).reminders.rows ∨ r.due = false ∧ (clock : Int) < r.dueMs ∨
      ∃ now revision, operation = .check now revision ∧
        ∃ old ∈ (w.databases d).reminders.rows, r = mark now old := by
  have hwrite : ∀ call : ReminderTable → Except String (List LocalReminder × ReminderTable),
      r ∈ ((w.onDatabase fault call).2.databases d).reminders.rows →
        r ∈ (w.databases d).reminders.rows ∨ ∃ reminders t,
          call (w.databases d) = .ok (reminders, t) ∧ r ∈ t.reminders.rows := by
    intro call hr
    rcases onDatabase_cases w fault call with
      ⟨hw, -⟩ | ⟨d', reminders, t, -, hcall, hw, -⟩
    · rw [hw] at hr
      exact .inl hr
    · rw [hw] at hr
      by_cases hd : d = d'
      · subst hd
        simp only [write, Function.update_self] at hr
        exact .inr ⟨reminders, t, hcall, hr⟩
      · simp only [write, Function.update_of_ne hd] at hr
        exact .inl hr
  cases operation with
  | openAccount directory => cases fault <;> exact .inl hr
  | closeAccount => exact .inl hr
  | save reminder =>
    rcases hwrite _ hr with hr | ⟨reminders, t, hcall, hr⟩
    · exact .inl hr
    · rcases saveReminder_rows hcall hr with hr | hr
      · exact .inl hr
      · exact .inr (.inl hr)
  | remove id =>
    rcases hwrite _ hr with hr | ⟨reminders, t, hcall, hr⟩
    · exact .inl hr
    · exact .inl (removeReminder_rows hcall hr)
  | check now revision =>
    rcases hwrite _ hr with hr | ⟨reminders, t, hcall, hr⟩
    · exact .inl hr
    · rw [(checkDueReminders_ok hcall).1] at hr
      obtain ⟨old, hold, rfl⟩ := List.mem_map.mp hr
      exact .inr (.inr ⟨now, revision, rfl, old, hold, rfl⟩)

theorem perform_opened (h : operation.boundary = false) :
    (w.perform clock fault messages operation).2.opened = w.opened := by
  have hkeep : ∀ call : ReminderTable → Except String (List LocalReminder × ReminderTable),
      (w.onDatabase fault call).2.opened = w.opened := by
    intro call
    rcases onDatabase_cases w fault call with
      ⟨hw, -⟩ | ⟨d, reminders, t, -, -, hw, -⟩
    · rw [hw]
    · rw [hw]
      rfl
  cases operation with
  | openAccount directory => cases h
  | closeAccount => cases h
  | save reminder => exact hkeep _
  | remove id => exact hkeep _
  | check now revision => exact hkeep _

theorem mem_existing {p : Int × Int} :
    p ∈ w.existing ↔ ∃ d, w.opened = some d ∧ p ∈ (w.databases d).pairs := by
  unfold existing
  cases w.opened <;> simp

/-- A pair that is new behind a task has a due time ahead of the clock. -/
theorem perform_existing (h : operation.boundary = false) {p : Int × Int}
    (hp : p ∈ (w.perform clock fault messages operation).2.existing) :
    p ∈ w.existing ∨ (clock : Int) < p.2 := by
  rw [mem_existing, perform_opened h] at hp
  obtain ⟨d, hd, hp⟩ := hp
  obtain ⟨r, hr, rfl⟩ := mem_pairs.mp hp
  rcases perform_rows hr with hr | ⟨-, hlater⟩ | ⟨now, revision, -, old, hold, rfl⟩
  · exact .inl (mem_existing.mpr ⟨d, hd, mem_pairs.mpr ⟨r, hr, rfl⟩⟩)
  · exact .inr hlater
  · exact .inl (mem_existing.mpr ⟨d, hd, mem_pairs.mpr ⟨old, hold, by simp⟩⟩)

theorem perform_lawful (fault : Fault) (messages : Int → Int → Bool)
    (h : ∀ d, Lawful clock (w.databases d))
    (hnow : ∀ now revision, operation = .check now revision → now ≤ clock) (d : String) :
    Lawful clock ((w.perform clock fault messages operation).2.databases d) := by
  intro r hr
  rcases perform_rows hr with hr | ⟨hdue, hlater⟩ | ⟨now, revision, hop, old, hold, rfl⟩
  · exact h d r hr
  · exact ⟨by omega, by simp [hdue]⟩
  · refine ⟨by simpa using (h d old hold).1, fun hdue => ?_⟩
    have hnow := hnow now revision hop
    rw [mark_dueMs]
    unfold mark at hdue
    split at hdue
    next hmark => exact hmark.2.trans hnow
    next => exact (h d old hold).2 hdue

/-- The open database has no flagged row that is due later than now. -/
def DueBy (w : Worker) (now : Int) : Prop :=
  ∀ d, w.opened = some d → ∀ r ∈ (w.databases d).reminders.rows, r.due = true → r.dueMs ≤ now

/-- Only a check flags rows. -/
theorem DueBy.perform {now : Int} (h : w.DueBy now) (hbound : operation.boundary = false)
    (hcheck : operation.isCheck = false) :
    (w.perform clock fault messages operation).2.DueBy now := by
  intro d hd r hr hdue
  rw [perform_opened hbound] at hd
  rcases perform_rows hr with hr | ⟨hno, -⟩ | ⟨now', revision, hop, -⟩
  · exact h d hd r hr hdue
  · rw [hno] at hdue
    cases hdue
  · rw [hop] at hcheck
    cases hcheck

theorem perform_check {now : Int} {revision : ℕ} {reminders : List LocalReminder}
    (h : (w.perform clock fault messages (.check now revision)).1 = .ok reminders) :
    ∃ d, w.opened = some d ∧ reminders = ((w.databases d).markDue now).dueReminders := by
  rcases onDatabase_cases w fault fun t => t.checkDueReminders now with
    ⟨-, e, he⟩ | ⟨d, reminders', t, hd, hcall, -, hresult⟩
  · exact absurd (h.symm.trans he) (by simp)
  · rcases hresult with hresult | ⟨e, he⟩
    · cases h.symm.trans hresult
      exact ⟨d, hd, (checkDueReminders_ok hcall).2⟩
    · exact absurd (h.symm.trans he) (by simp)

theorem perform_openAccount {d : String}
    (h : (w.perform clock fault messages (.openAccount d)).1.isOk = true) :
    (w.perform clock fault messages (.openAccount d)).2.opened = some d := by
  cases fault with
  | never => rfl
  | before => cases h
  | after => cases h

end Worker

/-! ## The order of the tasks -/

namespace Client
variable {s : Client}

/-- Tasks are of the generation they were queued in, and a change of the account is the first of
its own. While it waits the store is not ready. -/
structure Ordered (s : Client) : Prop where
  issued : ∀ t ∈ s.flight, t.generation ≤ s.generation
  ordered : s.flight.Pairwise fun a b =>
    a.generation ≤ b.generation ∧ (b.operation.boundary = true → a.generation < b.generation)
  waits : ∀ t ∈ s.queue, t.operation.boundary = true → s.ready = false
  opening : ∀ t ∈ s.flight, t.generation = s.generation → ∀ d,
    t.operation = .openAccount d → s.ready = false ∧ s.directory = some d
  opens : ∀ r ∈ s.replies, r.task.generation = s.generation → ∀ d,
    r.task.operation = .openAccount d → r.result.isOk = true → s.worker.opened = some d
  shown : s.ready = true → s.worker.opened = s.directory ∧ s.directory ≠ none

/-- The service has a check in flight exactly while it is busy, and of an account that was left
at most one. -/
structure Single (s : Client) : Prop where
  idle : s.alive = false → s.busy = false ∧ s.checks = [] ∧ s.log = [] ∧ s.shots = []
  busy : s.ready = true → s.busy = true →
    ∃ now, s.checks = [⟨s.generation, .check now s.revision⟩]
  free : s.ready = true → s.busy = false → s.checks = []
  away : s.ready = false → s.busy = false ∧ s.checks.length ≤ 1 ∧
    ∀ c ∈ s.checks, c.generation < s.generation
  again : s.again = true → s.busy = true
  clock : s.nextNow = 0 ∧ ∀ n ∈ s.shots, n = 0
  debt : s.covered ≤ s.asked ∧ (s.covered < s.asked →
    s.alive = true ∧ s.ready = true ∧ (s.again = true ∨ s.shots ≠ []))

/-- The clock and the fields of the service take no part. -/
theorem Ordered.frame (h : s.Ordered) (clock : ℕ) (alive timer busy again : Bool)
    (notified : Int → Option Int) (revision : ℕ) (nextNow : Int) (shots : List Int)
    (asked covered : ℕ) (log : List Delivery) :
    ({ s with clock, alive, timer, busy, again, notified, revision, nextNow, shots, asked, covered,
              log } : Client).Ordered :=
  ⟨h.issued, h.ordered, h.waits, h.opening, h.opens, h.shown⟩

/-- A check of the current generation is in flight only while the service waits for it. -/
theorem Single.ready (h : s.Single) {t : Task} (ht : t ∈ s.flight)
    (hcheck : t.operation.isCheck = true) (hgeneration : t.generation = s.generation) :
    s.ready = true ∧ s.checks = [t] ∧ ∃ now, t = ⟨s.generation, .check now s.revision⟩ := by
  have hmem : t ∈ s.checks := List.mem_filter.mpr ⟨ht, hcheck⟩
  cases hr : s.ready with
  | false =>
    have := (h.away hr).2.2 t hmem
    omega
  | true =>
    cases hb : s.busy with
    | false =>
      rw [h.free hr hb] at hmem
      cases hmem
    | true =>
      obtain ⟨now, hc⟩ := h.busy hr hb
      rw [hc, List.mem_singleton] at hmem
      exact ⟨rfl, hmem ▸ hc, now, hmem⟩

/-! ### A task is queued -/

@[simp] theorem flight_execute (operation : Operation) :
    (s.execute operation).flight = s.flight ++ [⟨s.generation, operation⟩] := by
  simp [flight, execute]

theorem checks_execute (operation : Operation) :
    (s.execute operation).checks =
      s.checks ++ if operation.isCheck then [⟨s.generation, operation⟩] else [] := by
  cases h : operation.isCheck <;> simp [checks, h]

theorem Ordered.execute (h : s.Ordered) {operation : Operation}
    (hboundary : operation.boundary = false) : (s.execute operation).Ordered := by
  constructor
  · intro t ht
    simp only [flight_execute, List.mem_append, List.mem_singleton] at ht
    rcases ht with ht | rfl
    · exact h.issued t ht
    · exact le_rfl
  · rw [flight_execute, List.pairwise_append]
    refine ⟨h.ordered, List.pairwise_singleton _ _, fun a ha b hb => ?_⟩
    obtain rfl := List.mem_singleton.mp hb
    exact ⟨h.issued a ha, fun hb => absurd hb (by simp [hboundary])⟩
  · intro t ht hb
    rcases List.mem_append.mp ht with ht | ht
    · exact h.waits t ht hb
    · obtain rfl := List.mem_singleton.mp ht
      exact absurd hb (by simp [hboundary])
  · intro t ht hgeneration d hd
    simp only [flight_execute, List.mem_append, List.mem_singleton] at ht
    rcases ht with ht | rfl
    · exact h.opening t ht hgeneration d hd
    · simp only at hd
      rw [hd] at hboundary
      cases hboundary
  · exact h.opens
  · exact h.shown

/-! ### The account is changed -/

section changeAccount
variable {directory : Option String} {operation : Operation}

@[simp] theorem accountChanged_queue : s.accountChanged.queue = s.queue := by
  unfold accountChanged
  split <;> rfl

@[simp] theorem accountChanged_replies : s.accountChanged.replies = s.replies := by
  unfold accountChanged
  split <;> rfl

@[simp] theorem accountChanged_generation : s.accountChanged.generation = s.generation := by
  unfold accountChanged
  split <;> rfl

@[simp] theorem accountChanged_ready : s.accountChanged.ready = s.ready := by
  unfold accountChanged
  split <;> rfl

@[simp] theorem flight_changeAccount :
    (s.changeAccount directory operation).flight =
      s.flight ++ [⟨s.generation + 1, operation⟩] := by
  simp [changeAccount, flight, Client.execute]

@[simp] theorem changeAccount_generation :
    (s.changeAccount directory operation).generation = s.generation + 1 := by
  simp [changeAccount, Client.execute]

@[simp] theorem changeAccount_ready : (s.changeAccount directory operation).ready = false := by
  simp [changeAccount, Client.execute]

/-- Opening or closing an account starts a generation. -/
theorem Ordered.changeAccount (h : s.Ordered)
    (hdirectory : ∀ d, operation = .openAccount d → directory = some d) :
    (s.changeAccount directory operation).Ordered := by
  constructor
  · intro t ht
    simp only [flight_changeAccount, List.mem_append, List.mem_singleton] at ht
    rw [changeAccount_generation]
    rcases ht with ht | rfl
    · exact Nat.le_succ_of_le (h.issued t ht)
    · exact le_rfl
  · rw [flight_changeAccount, List.pairwise_append]
    refine ⟨h.ordered, List.pairwise_singleton _ _, fun a ha b hb => ?_⟩
    obtain rfl := List.mem_singleton.mp hb
    have := h.issued a ha
    exact ⟨Nat.le_succ_of_le this, fun _ => Nat.lt_succ_of_le this⟩
  · intro t ht hb
    exact changeAccount_ready
  · intro t ht hgeneration d hd
    rw [changeAccount_generation] at hgeneration
    simp only [flight_changeAccount, List.mem_append, List.mem_singleton] at ht
    rcases ht with ht | rfl
    · have := h.issued t ht
      omega
    · exact ⟨changeAccount_ready, hdirectory d hd⟩
  · intro r hr hgeneration
    rw [changeAccount_generation] at hgeneration
    have hr : r ∈ s.replies := by simpa [Client.changeAccount, Client.execute] using hr
    have := h.issued r.task (List.mem_append_left _ (List.mem_map_of_mem hr))
    omega
  · intro hready
    rw [changeAccount_ready] at hready
    cases hready

theorem Single.changeAccount (h : s.Single) (ho : s.Ordered)
    (hcheck : operation.isCheck = false) : (s.changeAccount directory operation).Single := by
  have hchecks : (s.changeAccount directory operation).checks = s.checks := by
    simp [checks, hcheck]
  have hpast : s.checks.length ≤ 1 ∧ ∀ c ∈ s.checks, c.generation < s.generation + 1 := by
    constructor
    · cases hr : s.ready with
      | false => exact (h.away hr).2.1
      | true =>
        cases hb : s.busy with
        | false => simp [h.free hr hb]
        | true =>
          obtain ⟨now, hc⟩ := h.busy hr hb
          simp [hc]
    · intro c hc
      exact Nat.lt_succ_of_le (ho.issued c (List.mem_of_mem_filter hc))
  have hbusy : (s.changeAccount directory operation).busy = false := by
    cases ha : s.alive with
    | false => simpa [Client.changeAccount, accountChanged, Client.execute, ha] using (h.idle ha).1
    | true => simp [Client.changeAccount, accountChanged, Client.execute, reset, ha]
  have hagain : (s.changeAccount directory operation).again = false := by
    cases ha : s.alive with
    | false =>
      have := mt h.again (by simp [(h.idle ha).1])
      simpa [Client.changeAccount, accountChanged, Client.execute, ha] using this
    | true => simp [Client.changeAccount, accountChanged, Client.execute, reset, ha]
  constructor
  · intro ha
    have ha : s.alive = false := by
      cases hs : s.alive with
      | false => rfl
      | true => simp [Client.changeAccount, accountChanged, Client.execute, reset, hs] at ha
    refine ⟨hbusy, hchecks.trans (h.idle ha).2.1, ?_⟩
    simpa [Client.changeAccount, accountChanged, Client.execute, ha] using (h.idle ha).2.2
  · intro hready
    rw [changeAccount_ready] at hready
    cases hready
  · intro hready
    rw [changeAccount_ready] at hready
    cases hready
  · intro _
    rw [hchecks, changeAccount_generation]
    exact ⟨hbusy, hpast⟩
  · intro hready
    rw [hagain] at hready
    cases hready
  · cases ha : s.alive with
    | false => simpa [Client.changeAccount, accountChanged, Client.execute, ha] using h.clock
    | true =>
      simpa [Client.changeAccount, accountChanged, Client.execute, reset, ha] using h.clock.2
  · cases ha : s.alive with
    | false =>
      have hdebt : ¬ s.covered < s.asked :=
        fun hlt => absurd (h.debt.2 hlt).1 (by simp [ha])
      refine ⟨?_, fun hlt => absurd hlt ?_⟩
      · simpa [Client.changeAccount, accountChanged, Client.execute, ha] using h.debt.1
      · simpa [Client.changeAccount, accountChanged, Client.execute, ha] using hdebt
    | true => simp [Client.changeAccount, accountChanged, Client.execute, reset, ha]

end changeAccount

/-! ### A check is asked for -/

@[simp] theorem checkNow_replies (now : Int) : (s.checkNow now).replies = s.replies := by
  unfold checkNow
  split
  · rfl
  · split <;> rfl

/-- What a call of `CheckNow` does. -/
theorem checkNow_cases (s : Client) (now : Int) :
    s.ready = false ∧ s.checkNow now = s ∨
    s.ready = true ∧ s.busy = true ∧ s.checkNow now =
      { s with again := true, nextNow := max s.nextNow now, asked := s.asked + 1 } ∨
    s.ready = true ∧ s.busy = false ∧ s.checkNow now =
      Client.execute { s with busy := true, asked := s.asked + 1, covered := s.asked + 1 }
        (.check (if 0 < now then now else s.clock) s.revision) := by
  unfold checkNow
  cases hr : s.ready with
  | false => simp
  | true => cases hb : s.busy <;> simp

theorem Ordered.checkNow (h : s.Ordered) (now : Int) : (s.checkNow now).Ordered := by
  rcases checkNow_cases s now with ⟨-, he⟩ | ⟨-, -, he⟩ | ⟨-, -, he⟩
  · rw [he]
    exact h
  · rw [he]
    exact h.frame _ _ _ _ _ _ _ _ _ _ _ _
  · rw [he]
    exact Ordered.execute (h.frame _ _ _ _ _ _ _ _ _ _ _ _) rfl

theorem Single.checkNow (h : s.Single) (halive : s.alive = true) {shots : List Int}
    (hshots : ∀ n ∈ shots, n = 0) : ({ s with shots }.checkNow 0).Single := by
  rcases checkNow_cases { s with shots } 0 with ⟨hr, he⟩ | ⟨hr, hb, he⟩ | ⟨hr, hb, he⟩
  · rw [he]
    refine ⟨fun ha => ?_, h.busy, h.free, h.away, h.again, ⟨h.clock.1, hshots⟩, h.debt.1,
      fun hlt => ?_⟩
    · exact absurd ha (by simp [halive])
    · exact absurd (h.debt.2 hlt).2.1 (by simpa using hr)
  · rw [he]
    refine ⟨fun ha => ?_, h.busy, h.free, h.away, fun _ => hb, ⟨?_, hshots⟩,
      Nat.le_succ_of_le h.debt.1, fun _ => ⟨halive, hr, .inl rfl⟩⟩
    · exact absurd ha (by simp [halive])
    · simp [h.clock.1]
  · rw [he]
    refine ⟨fun ha => ?_, fun _ _ => ⟨s.clock, ?_⟩, fun _ hbusy => ?_, fun hready => ?_,
      fun _ => rfl, ⟨h.clock.1, hshots⟩, le_rfl, fun hlt => absurd hlt (Nat.lt_irrefl _)⟩
    · exact absurd ha (by simp [halive, Client.execute])
    · refine (checks_execute _).trans ?_
      change s.checks ++ _ = _
      rw [h.free hr hb]
      rfl
    · cases hbusy
    · exact absurd hready (by simpa [Client.execute] using hr)

/-! ### The worker runs a task -/

section runTask
variable {task : Task} {rest : List Task} {fault : Fault} {messages : Int → Int → Bool}

/-- A task of an account change is dropped, or the result of a task joins the replies. -/
theorem runTask_cases (s : Client) (task : Task) (fault : Fault) (messages : Int → Int → Bool) :
    task.operation = .closeAccount ∧ s.runTask task fault messages =
      { s with worker := (s.worker.perform s.clock fault messages task.operation).2 } ∨
    task.operation ≠ .closeAccount ∧ s.runTask task fault messages =
      { s with
        worker := (s.worker.perform s.clock fault messages task.operation).2
        replies := s.replies ++
          [⟨task, (s.worker.perform s.clock fault messages task.operation).1, s.worker.opened,
            s.worker.existing⟩] } := by
  unfold runTask
  cases task.operation <;> simp

/-- A task that is run stays in flight, one without a callback leaves. -/
theorem flight_runTask (fault : Fault) (messages : Int → Int → Bool)
    (hqueue : s.queue = task :: rest) :
    ({ s with queue := rest }.runTask task fault messages).flight.Sublist s.flight ∧
      ({ s with queue := rest }.runTask task fault messages).checks = s.checks := by
  rcases runTask_cases { s with queue := rest } task fault messages with ⟨hclose, he⟩ | ⟨-, he⟩
  · have hcheck : task.operation.isCheck = false := by
      rw [hclose]
      rfl
    rw [he]
    simp [flight, checks, hqueue, hcheck]
  · rw [he]
    simp [flight, checks, hqueue]

theorem Ordered.runTask (h : s.Ordered) (hqueue : s.queue = task :: rest) :
    ({ s with queue := rest }.runTask task fault messages).Ordered := by
  have hflight : s.flight = s.replies.map (fun r => r.task) ++ task :: rest := by
    rw [flight, hqueue]
  have hmem : task ∈ s.flight := by simp [hflight]
  have hsub := (flight_runTask fault messages hqueue).1
  have hopened : task.operation.boundary = false →
      (s.worker.perform s.clock fault messages task.operation).2.opened = s.worker.opened :=
    Worker.perform_opened
  have hshown : s.ready = true →
      (s.worker.perform s.clock fault messages task.operation).2.opened = s.directory ∧
        s.directory ≠ none := by
    intro hready
    cases hbound : task.operation.boundary with
    | false =>
      rw [hopened hbound]
      exact h.shown hready
    | true =>
      rw [h.waits task (by simp [hqueue]) hbound] at hready
      cases hready
  -- a result that opened the current account has no change of the account behind it
  have hopens : ∀ r ∈ s.replies, r.task.generation = s.generation → ∀ d,
      r.task.operation = .openAccount d → r.result.isOk = true →
        (s.worker.perform s.clock fault messages task.operation).2.opened = some d := by
    intro r hr hgeneration d hd hok
    cases hbound : task.operation.boundary with
    | false =>
      rw [hopened hbound]
      exact h.opens r hr hgeneration d hd hok
    | true =>
      have hpair := h.ordered
      rw [hflight, List.pairwise_append] at hpair
      have hlt := (hpair.2.2 r.task (List.mem_map_of_mem hr) task List.mem_cons_self).2 hbound
      have hle := h.issued task hmem
      omega
  have hwaits : ∀ t ∈ rest, t.operation.boundary = true → s.ready = false :=
    fun t ht => h.waits t (by simp [hqueue, ht])
  rcases runTask_cases { s with queue := rest } task fault messages with ⟨hclose, he⟩ | ⟨-, he⟩
  · rw [he] at hsub ⊢
    exact ⟨fun t ht => h.issued t (hsub.subset ht), h.ordered.sublist hsub, hwaits,
      fun t ht => h.opening t (hsub.subset ht), hopens, hshown⟩
  · rw [he] at hsub ⊢
    refine ⟨fun t ht => h.issued t (hsub.subset ht), h.ordered.sublist hsub, hwaits,
      fun t ht => h.opening t (hsub.subset ht), fun r hr => ?_, hshown⟩
    rcases List.mem_append.mp hr with hr | hr
    · exact hopens r hr
    · obtain rfl := List.mem_singleton.mp hr
      intro _ d hd hok
      simp only at hd hok ⊢
      rw [hd] at hok ⊢
      exact Worker.perform_openAccount hok

theorem Single.runTask (h : s.Single) (hqueue : s.queue = task :: rest) :
    ({ s with queue := rest }.runTask task fault messages).Single := by
  have hchecks := (flight_runTask fault messages hqueue).2
  rcases runTask_cases { s with queue := rest } task fault messages with ⟨-, he⟩ | ⟨-, he⟩ <;>
  · rw [he] at hchecks ⊢
    exact ⟨fun ha => ⟨(h.idle ha).1, hchecks.trans (h.idle ha).2.1, (h.idle ha).2.2⟩,
      fun hr hb => hchecks ▸ h.busy hr hb, fun hr hb => hchecks.trans (h.free hr hb),
      fun hr => hchecks ▸ h.away hr, h.again, h.clock, h.debt⟩

end runTask

/-! ### A result comes back -/

section deliver
variable {reply : Reply} {rest : List Reply}

/-- Behind the oldest result no task is of an older generation. -/
theorem Ordered.behind (h : s.Ordered) (hreplies : s.replies = reply :: rest) :
    s.flight = reply.task :: ({ s with replies := rest } : Client).flight ∧
      ∀ t ∈ ({ s with replies := rest } : Client).flight,
        reply.task.generation ≤ t.generation ∧
          (t.operation.boundary = true → reply.task.generation < t.generation) := by
  have hflight : s.flight = reply.task :: ({ s with replies := rest } : Client).flight := by
    simp [flight, hreplies]
  have hpair := h.ordered
  rw [hflight] at hpair
  exact ⟨hflight, (List.pairwise_cons.mp hpair).1⟩

theorem Ordered.pop (h : s.Ordered) (hreplies : s.replies = reply :: rest) :
    ({ s with replies := rest } : Client).Ordered := by
  have hsub : ({ s with replies := rest } : Client).flight.Sublist s.flight := by
    rw [(h.behind hreplies).1]
    exact List.sublist_cons_self _ _
  exact ⟨fun t ht => h.issued t (hsub.subset ht), h.ordered.sublist hsub, h.waits,
    fun t ht => h.opening t (hsub.subset ht), fun r hr => h.opens r (by simp [hreplies, hr]),
    h.shown⟩

/-- The service does not wait for a task that is no check, or one of another account. -/
theorem Single.pop (h : s.Single) (ho : s.Ordered) (hreplies : s.replies = reply :: rest)
    (hother : reply.task.operation.isCheck = false ∨ reply.task.generation ≠ s.generation) :
    ({ s with replies := rest } : Client).Single := by
  have hsub : ({ s with replies := rest } : Client).checks.Sublist s.checks := by
    rw [checks, checks, (ho.behind hreplies).1]
    exact (List.sublist_cons_self _ _).filter _
  have hsame : s.ready = true → ({ s with replies := rest } : Client).checks = s.checks := by
    intro hready
    have hhead : reply.task ∉ s.checks := by
      intro hmem
      have hcheck := (List.mem_filter.mp hmem).2
      cases hb : s.busy with
      | false =>
        rw [h.free hready hb] at hmem
        cases hmem
      | true =>
        obtain ⟨now, hc⟩ := h.busy hready hb
        rw [hc, List.mem_singleton] at hmem
        rcases hother with hother | hother
        · rw [hother] at hcheck
          cases hcheck
        · rw [hmem] at hother
          exact hother rfl
    have hno : reply.task.operation.isCheck = false := by
      cases hcheck : reply.task.operation.isCheck with
      | false => rfl
      | true =>
        have hmem : reply.task ∈ s.flight := by simp [(ho.behind hreplies).1]
        exact absurd (List.mem_filter.mpr ⟨hmem, hcheck⟩) hhead
    rw [checks, checks, (ho.behind hreplies).1, List.filter_cons_of_neg (by simp [hno])]
  constructor
  · intro ha
    obtain ⟨hb, hc, hl⟩ := h.idle ha
    exact ⟨hb, List.sublist_nil.mp (hc ▸ hsub), hl⟩
  · intro hr hb
    rw [hsame hr]
    exact h.busy hr hb
  · intro hr hb
    rw [hsame hr]
    exact h.free hr hb
  · intro hr
    obtain ⟨hb, hlen, hold⟩ := h.away hr
    exact ⟨hb, hsub.length_le.trans hlen, fun c hc => hold c (hsub.subset hc)⟩
  · exact h.again
  · exact h.clock
  · exact h.debt

/-- The result of opening the current account. -/
theorem Ordered.opened (h : s.Ordered) (hreplies : s.replies = reply :: rest) {d : String}
    (hgeneration : reply.task.generation = s.generation)
    (hopen : reply.task.operation = .openAccount d) :
    ({ s with replies := rest, ready := reply.result.isOk } : Client).Ordered := by
  obtain ⟨hflight, hbehind⟩ := h.behind hreplies
  have hpop := h.pop hreplies
  have hno : ∀ t ∈ ({ s with replies := rest } : Client).flight,
      t.operation.boundary = false := by
    intro t ht
    cases hbound : t.operation.boundary with
    | false => rfl
    | true =>
      have hlt := (hbehind t ht).2 hbound
      have hle := hpop.issued t ht
      simp only at hle
      omega
  refine ⟨hpop.issued, hpop.ordered, fun t ht hbound => ?_, fun t ht _ d' hd' => ?_, hpop.opens,
    fun hok => ?_⟩
  · rw [hno t (List.mem_append_right _ ht)] at hbound
    cases hbound
  · have hbound := hno t ht
    rw [hd'] at hbound
    cases hbound
  · have hmem : reply.task ∈ s.flight := by simp [hflight]
    have hd := (h.opening reply.task hmem hgeneration d hopen).2
    refine ⟨?_, by simp [hd]⟩
    rw [h.opens reply (by simp [hreplies]) hgeneration d hopen hok, hd]

theorem Single.opened (h : s.Single) (ho : s.Ordered) (hreplies : s.replies = reply :: rest)
    {d : String} (hgeneration : reply.task.generation = s.generation)
    (hopen : reply.task.operation = .openAccount d) :
    ({ s with replies := rest, ready := reply.result.isOk } : Client).Single := by
  obtain ⟨hflight, hbehind⟩ := ho.behind hreplies
  have hmem : reply.task ∈ s.flight := by simp [hflight]
  have haway := (ho.opening reply.task hmem hgeneration d hopen).1
  have hpop := h.pop ho hreplies (.inl (by rw [hopen]; rfl))
  obtain ⟨hbusy, hlen, hold⟩ := hpop.away haway
  have hnone : ({ s with replies := rest } : Client).checks = [] := by
    rw [List.eq_nil_iff_forall_not_mem]
    intro c hc
    have hlt := hold c hc
    have hle := (hbehind c (List.mem_of_mem_filter hc)).1
    simp only at hlt
    omega
  refine ⟨hpop.idle, fun _ hb => ?_, fun _ _ => hnone, fun _ => ⟨hbusy, hlen, hold⟩, hpop.again,
    hpop.clock, hpop.debt.1, fun hlt => ?_⟩
  · exact absurd hb (by simpa using hbusy)
  · exact absurd (hpop.debt.2 hlt).2.1 (by simpa using haway)

/-- A check of the current generation is the one the service waits for. -/
theorem Single.current (h : s.Single) (ho : s.Ordered) (hreplies : s.replies = reply :: rest)
    (hcheck : reply.task.operation.isCheck = true)
    (hgeneration : reply.task.generation = s.generation) :
    s.ready = true ∧ s.alive = true ∧
      (∃ now, reply.task = ⟨s.generation, .check now s.revision⟩) ∧
        ({ s with replies := rest } : Client).checks = [] := by
  have hchecks : s.checks = reply.task :: ({ s with replies := rest } : Client).checks := by
    rw [checks, checks, (ho.behind hreplies).1, List.filter_cons, if_pos hcheck]
  have hmem : reply.task ∈ s.flight := by simp [(ho.behind hreplies).1]
  obtain ⟨hready, honly, htask⟩ := h.ready hmem hcheck hgeneration
  rw [honly, List.cons.injEq] at hchecks
  refine ⟨hready, ?_, htask, hchecks.2.symm⟩
  cases ha : s.alive with
  | true => rfl
  | false =>
    rw [(h.idle ha).2.1] at honly
    cases honly

theorem Ordered.postAgain (h : s.Ordered) : s.postAgain.Ordered := by
  unfold Client.postAgain
  split
  · exact h.frame _ _ _ _ _ _ _ _ _ _ _ _
  · exact h

/-- Behind its callback the service is free, and a check that was asked for meanwhile is
posted. -/
theorem Single.answered (h : s.Single) (hready : s.ready = true) (halive : s.alive = true)
    (hchecks : ({ s with replies := rest } : Client).checks = [])
    (notified : Int → Option Int) (log : List Delivery) :
    ({ s with replies := rest, busy := false, notified, log } : Client).postAgain.Single := by
  unfold Client.postAgain
  split
  next hagain =>
    refine ⟨fun ha => ?_, fun _ hb => ?_, fun _ _ => hchecks, fun hr => ?_, fun hb => ?_, ?_, ?_⟩
    · exact absurd ha (by simp [halive])
    · cases hb
    · exact absurd hr (by simp [hready])
    · cases hb
    · simpa [or_imp, forall_and, h.clock.1] using h.clock.2
    · exact ⟨h.debt.1, fun _ => ⟨halive, hready, .inr (by simp)⟩⟩
  next hagain =>
    refine ⟨fun ha => ?_, fun _ hb => ?_, fun _ _ => hchecks, fun hr => ?_, fun hb => ?_, h.clock,
      h.debt⟩
    · exact absurd ha (by simp [halive])
    · cases hb
    · exact absurd hr (by simp [hready])
    · exact absurd hb hagain

end deliver

end Client
end Reminders
end CppChat.Organizer
