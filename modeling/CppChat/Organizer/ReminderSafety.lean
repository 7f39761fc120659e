import CppChat.Organizer.ReminderTasks

/-! # Each due reminder is announced once

A save sets a due time ahead of the clock: a pair of an id and a due time that is gone after it
was due never comes back, and `_notified` may forget it. What it holds is what existed and was due
at an earlier delivery of the session and still exists.
-/
namespace CppChat.Organizer.Reminders
open Foundation ReminderTable

/-! ## The loops of the callback -/

namespace Client
variable {notified : Int → Option Int}

theorem collect_of_notMem {l : List LocalReminder} {id : Int} (h : id ∉ l.map fun r => r.id) :
    (collect notified l).1 id = notified id := by
  induction l generalizing notified with
  | nil => rfl
  | cons a l ih =>
    simp only [List.map_cons, List.mem_cons, not_or] at h
    unfold collect
    split
    · simp only [ih h.2, Function.update_of_ne h.1]
    · exact ih h.2

theorem collect_value {l : List LocalReminder} (hids : (l.map fun r => r.id).Nodup)
    {r : LocalReminder} (hr : r ∈ l) : ((collect notified l).1 r.id).getD 0 = r.dueMs := by
  induction l generalizing notified with
  | nil => cases hr
  | cons a l ih =>
    rw [List.map_cons, List.nodup_cons] at hids
    unfold collect
    rcases List.mem_cons.mp hr with rfl | hr
    · split
      · simp [collect_of_notMem hids.1]
      next hsame =>
        rw [collect_of_notMem hids.1]
        exact not_not.mp hsame
    · split
      · exact ih hids.2 hr
      · exact ih hids.2 hr

theorem collect_fresh {l : List LocalReminder} (hids : (l.map fun r => r.id).Nodup) :
    (collect notified l).2 = l.filter fun r => (notified r.id).getD 0 ≠ r.dueMs := by
  induction l generalizing notified with
  | nil => rfl
  | cons a l ih =>
    rw [List.map_cons, List.nodup_cons] at hids
    have hrest : ∀ due, (collect (Function.update notified a.id due) l).2 =
        l.filter fun r => (notified r.id).getD 0 ≠ r.dueMs := by
      intro due
      rw [ih hids.2]
      apply List.filter_congr
      intro r hr
      have hne : r.id ≠ a.id := fun he => hids.1 (he ▸ List.mem_map_of_mem hr)
      rw [Function.update_of_ne hne]
    unfold collect
    split
    next hnew =>
      rw [List.filter_cons_of_pos (by simpa using hnew)]
      simp only [hrest]
    next hsame =>
      rw [List.filter_cons_of_neg (by simpa using hsame)]
      exact ih hids.2

end Client

namespace Client
variable {s : Client}

/-! ## What is announced -/

/-- The pair was due at an earlier delivery of this session. -/
def Seen (s : Client) (p : Int × Int) : Prop :=
  ∃ y ∈ s.log, y.session = s.revision ∧ p ∈ y.existing ∧ p.2 ≤ y.now

/-- The pair is neither stored nor on its way from the worker. -/
def Gone (s : Client) (p : Int × Int) : Prop :=
  p ∉ s.worker.existing ∧ ∀ r ∈ s.replies, r.task.generation = s.generation →
    r.task.operation.isCheck = true → p ∉ r.existing

/-- A time that is not ahead of the clock and not behind a delivery of this session. -/
def Timely (s : Client) (now : Int) : Prop :=
  now ≤ s.clock ∧ ∀ y ∈ s.log, y.session = s.revision → y.now ≤ now

/-- What the result of a check of the current account says about its database. -/
structure Taken (s : Client) (r : Reply) (now : Int) : Prop where
  here : r.ranOn = s.directory ∧ s.directory ≠ none
  gone : ∀ p, p.2 ≤ now → p ∉ r.existing → p ∉ s.worker.existing
  positive : ∀ p ∈ r.existing, 0 < p.2
  ids : (r.existing.map Prod.fst).Nodup
  due : ∀ reminders, r.result = .ok reminders →
    (reminders.map fun r => (r.id, r.dueMs)).Perm (r.existing.filter fun p => p.2 ≤ now)

structure Known (s : Client) : Prop where
  lawful : ∀ d, Lawful s.clock (s.worker.databases d)
  sessions : ∀ y ∈ s.log, y.session ≤ s.revision
  news : s.ready = false → ∀ y ∈ s.log, y.session ≠ s.revision
  past : ∀ y ∈ s.log, y.now ≤ s.clock
  told : ∀ id d, s.notified id = some d → s.Seen (id, d)
  kept : ∀ p, s.Seen p → (s.notified p.1).getD 0 = p.2 ∨ s.Gone p
  times : ∀ t ∈ s.queue, ∀ now revision, t.operation = .check now revision → now ≤ s.clock
  queued : ∀ t ∈ s.queue, t.generation = s.generation → ∀ now revision,
    t.operation = .check now revision → s.Timely now ∧ s.worker.DueBy now
  answered : ∀ r ∈ s.replies, r.task.generation = s.generation → ∀ now revision,
    r.task.operation = .check now revision → s.Timely now ∧ s.Taken r now
  exact : ∀ x older, x :: older <:+ s.log → x.Exact older

theorem Taken.congr {t : Client} {r : Reply} {now : Int} (h : s.Taken r now)
    (hworker : t.worker = s.worker) (hdirectory : t.directory = s.directory) : t.Taken r now :=
  ⟨hdirectory ▸ h.here, hworker ▸ h.gone, h.positive, h.ids, h.due⟩

/-- The other fields take no part. -/
theorem Known.frame (h : s.Known) (alive timer busy again : Bool) (nextNow : Int)
    (shots : List Int) (asked covered : ℕ) :
    ({ s with alive, timer, busy, again, nextNow, shots, asked, covered } : Client).Known := by
  refine ⟨h.lawful, h.sessions, h.news, h.past, h.told, h.kept, h.times, h.queued,
    fun r hr hgeneration now revision hop => ?_, h.exact⟩
  obtain ⟨htime, htaken⟩ := h.answered r hr hgeneration now revision hop
  exact ⟨htime, htaken.congr rfl rfl⟩

theorem Known.seen_le (h : s.Known) {p : Int × Int} (hp : s.Seen p) : p.2 ≤ s.clock := by
  obtain ⟨y, hy, -, -, hle⟩ := hp
  exact hle.trans (h.past y hy)

theorem Known.advance (h : s.Known) (ms : ℕ) :
    ({ s with clock := s.clock + ms } : Client).Known := by
  have hle : (s.clock : Int) ≤ ((s.clock + ms : ℕ) : Int) := by omega
  have htimely : ∀ now, s.Timely now → ({ s with clock := s.clock + ms } : Client).Timely now :=
    fun now ht => ⟨ht.1.trans hle, ht.2⟩
  refine ⟨fun d r hr => ?_, h.sessions, h.news, fun y hy => (h.past y hy).trans hle, h.told, h.kept,
    fun t ht now revision hop => (h.times t ht now revision hop).trans hle, ?_, ?_, h.exact⟩
  · exact ⟨(h.lawful d r hr).1, fun hdue => ((h.lawful d r hr).2 hdue).trans hle⟩
  · intro t ht hgeneration now revision hop
    obtain ⟨htime, hrows⟩ := h.queued t ht hgeneration now revision hop
    exact ⟨htimely now htime, hrows⟩
  · intro r hr hgeneration now revision hop
    obtain ⟨htime, htaken⟩ := h.answered r hr hgeneration now revision hop
    exact ⟨htimely now htime, htaken.congr rfl rfl⟩

theorem Known.execute (h : s.Known) {operation : Operation} (hcheck : operation.isCheck = false) :
    (s.execute operation).Known := by
  have hold : ∀ t ∈ (s.execute operation).queue, ∀ now revision,
      t.operation = .check now revision → t ∈ s.queue := by
    intro t ht now revision hop
    rcases List.mem_append.mp ht with ht | ht
    · exact ht
    · obtain rfl := List.mem_singleton.mp ht
      simp only at hop
      rw [hop] at hcheck
      cases hcheck
  refine ⟨h.lawful, h.sessions, h.news, h.past, h.told, h.kept, fun t ht now revision hop => ?_,
    fun t ht hgeneration now revision hop => ?_, fun r hr hgeneration now revision hop => ?_,
    h.exact⟩
  · exact h.times t (hold t ht now revision hop) now revision hop
  · exact h.queued t (hold t ht now revision hop) hgeneration now revision hop
  · obtain ⟨htime, htaken⟩ := h.answered r hr hgeneration now revision hop
    exact ⟨htime, htaken.congr rfl rfl⟩

theorem Known.changeAccount (h : s.Known) (hs : s.Single) (ho : s.Ordered)
    {directory : Option String} {operation : Operation} (hcheck : operation.isCheck = false) :
    (s.changeAccount directory operation).Known := by
  have hclock : (s.changeAccount directory operation).clock = s.clock := by
    cases ha : s.alive <;> simp [Client.changeAccount, accountChanged, reset, Client.execute, ha]
  have hworker : (s.changeAccount directory operation).worker = s.worker := by
    cases ha : s.alive <;> simp [Client.changeAccount, accountChanged, reset, Client.execute, ha]
  have hlog : (s.changeAccount directory operation).log = s.log := by
    cases ha : s.alive <;> simp [Client.changeAccount, accountChanged, reset, Client.execute, ha]
  have hqueue : (s.changeAccount directory operation).queue =
      s.queue ++ [⟨s.generation + 1, operation⟩] := by
    simp [Client.changeAccount, Client.execute]
  have hreplies : (s.changeAccount directory operation).replies = s.replies := by
    simp [Client.changeAccount, Client.execute]
  -- no delivery is of the session that starts here
  have hnews : ∀ y ∈ s.log, y.session < (s.changeAccount directory operation).revision := by
    intro y hy
    cases ha : s.alive with
    | false =>
      rw [(hs.idle ha).2.2.1] at hy
      cases hy
    | true =>
      have := h.sessions y hy
      simp only [Client.changeAccount, accountChanged, reset, Client.execute, ha, if_true]
      omega
  have hunseen : ∀ p, ¬ (s.changeAccount directory operation).Seen p := by
    rintro p ⟨y, hy, hsession, -⟩
    rw [hlog] at hy
    have := hnews y hy
    omega
  have hstale : ∀ t ∈ s.flight,
      t.generation ≠ (s.changeAccount directory operation).generation := by
    intro t ht
    have := ho.issued t ht
    rw [changeAccount_generation]
    omega
  have hold : ∀ t ∈ (s.changeAccount directory operation).queue, ∀ now revision,
      t.operation = .check now revision → t ∈ s.queue := by
    intro t ht now revision hop
    rw [hqueue] at ht
    rcases List.mem_append.mp ht with ht | ht
    · exact ht
    · obtain rfl := List.mem_singleton.mp ht
      simp only at hop
      rw [hop] at hcheck
      cases hcheck
  constructor
  · rw [hclock, hworker]
    exact h.lawful
  · intro y hy
    rw [hlog] at hy
    exact (hnews y hy).le
  · intro _ y hy
    rw [hlog] at hy
    exact (hnews y hy).ne
  · intro y hy
    rw [hlog] at hy
    rw [hclock]
    exact h.past y hy
  · intro id d hd
    cases ha : s.alive with
    | true =>
      simp [Client.changeAccount, accountChanged, reset, Client.execute, ha] at hd
    | false =>
      have hd : s.notified id = some d := by
        simpa [Client.changeAccount, accountChanged, Client.execute, ha] using hd
      obtain ⟨y, hy, -⟩ := h.told id d hd
      rw [(hs.idle ha).2.2.1] at hy
      cases hy
  · intro p hp
    exact absurd hp (hunseen p)
  · intro t ht now revision hop
    rw [hclock]
    exact h.times t (hold t ht now revision hop) now revision hop
  · intro t ht hgeneration now revision hop
    exact absurd hgeneration (hstale t (List.mem_append_right _ (hold t ht now revision hop)))
  · intro r hr hgeneration now revision hop
    rw [hreplies] at hr
    exact absurd hgeneration (hstale _ (List.mem_append_left _ (List.mem_map_of_mem hr)))
  · rw [hlog]
    exact h.exact

theorem Known.checkNow (h : s.Known) : (s.checkNow 0).Known := by
  rcases checkNow_cases s 0 with ⟨-, he⟩ | ⟨hr, hb, he⟩ | ⟨hr, hb, he⟩
  · rw [he]
    exact h
  · rw [he]
    exact h.frame _ _ _ _ _ _ _ _
  · rw [he]
    refine ⟨h.lawful, h.sessions, h.news, h.past, h.told, h.kept, fun t ht now revision hop => ?_,
      fun t ht hgeneration now revision hop => ?_, fun r hr hgeneration now revision hop => ?_,
      h.exact⟩
    · rcases List.mem_append.mp ht with ht | ht
      · exact h.times t ht now revision hop
      · obtain rfl := List.mem_singleton.mp ht
        cases hop
        exact le_rfl
    · rcases List.mem_append.mp ht with ht | ht
      · exact h.queued t ht hgeneration now revision hop
      · obtain rfl := List.mem_singleton.mp ht
        cases hop
        exact ⟨⟨le_rfl, fun y hy _ => h.past y hy⟩, fun d _ r hr => (h.lawful d r hr).2⟩
    · obtain ⟨htime, htaken⟩ := h.answered r hr hgeneration now revision hop
      exact ⟨htime, htaken.congr rfl rfl⟩

/-! ### The worker -/

section runTask
variable {task : Task} {rest : List Task} {fault : Fault} {messages : Int → Int → Bool}

theorem Ordered.stays (ho : s.Ordered) (htask : task ∈ s.queue) (hready : s.ready = true) :
    task.operation.boundary = false := by
  cases hbound : task.operation.boundary with
  | false => rfl
  | true =>
    rw [ho.waits task htask hbound] at hready
    cases hready

/-- What is gone by a time that is past stays gone. -/
theorem Ordered.gone_perform (ho : s.Ordered) (htask : task ∈ s.queue) (hready : s.ready = true)
    {p : Int × Int} (hp : p.2 ≤ s.clock) (hno : p ∉ s.worker.existing) :
    p ∉ (s.worker.perform s.clock fault messages task.operation).2.existing := by
  intro hex
  rcases Worker.perform_existing (ho.stays htask hready) hex with hex | hlater
  · exact hno hex
  · omega

theorem Known.ready_of_seen (h : s.Known) {p : Int × Int} (hp : s.Seen p) : s.ready = true := by
  obtain ⟨y, hy, hsession, -⟩ := hp
  cases hr : s.ready with
  | true => rfl
  | false => exact absurd hsession (h.news hr y hy)

/-- The checks that still wait find the rows by their times. -/
theorem Known.queued_perform (h : s.Known) (hs : s.Single) (ho : s.Ordered)
    (hqueue : s.queue = task :: rest) {t : Task} (ht : t ∈ rest)
    (hgeneration : t.generation = s.generation) {now : Int} {revision : ℕ}
    (hop : t.operation = .check now revision) :
    s.Timely now ∧ (s.worker.perform s.clock fault messages task.operation).2.DueBy now := by
  have hflight : s.flight = s.replies.map (fun r => r.task) ++ task :: rest := by
    rw [flight, hqueue]
  have hhead : task ∈ s.queue := by simp [hqueue]
  obtain ⟨htime, hrows⟩ := h.queued t (by simp [hqueue, ht]) hgeneration now revision hop
  have hcheck : t.operation.isCheck = true := by
    rw [hop]
    rfl
  obtain ⟨hready, hchecks, -⟩ := hs.ready (by simp [hflight, ht]) hcheck hgeneration
  refine ⟨htime, hrows.perform (ho.stays hhead hready) ?_⟩
  cases htask : task.operation.isCheck with
  | false => rfl
  | true =>
    -- no other check is in flight
    have hlen : s.checks.length = 1 := by rw [hchecks, List.length_singleton]
    have hmem : t ∈ rest.filter fun t => t.operation.isCheck := List.mem_filter.mpr ⟨ht, hcheck⟩
    have hpos := List.length_pos_of_mem hmem
    rw [checks, hflight, List.filter_append, List.filter_cons, if_pos htask,
      List.length_append, List.length_cons] at hlen
    omega

/-- The results that wait already still say it. -/
theorem Known.answered_perform (h : s.Known) (hs : s.Single) (ho : s.Ordered)
    (htask : task ∈ s.queue) {r : Reply} (hr : r ∈ s.replies)
    (hgeneration : r.task.generation = s.generation) {now : Int} {revision : ℕ}
    (hop : r.task.operation = .check now revision) {t : Client}
    (hworker : t.worker = (s.worker.perform s.clock fault messages task.operation).2)
    (hdirectory : t.directory = s.directory) : s.Timely now ∧ t.Taken r now := by
  obtain ⟨htime, htaken⟩ := h.answered r hr hgeneration now revision hop
  have hcheck : r.task.operation.isCheck = true := by
    rw [hop]
    rfl
  have hready : s.ready = true :=
    (hs.ready (List.mem_append_left _ (List.mem_map_of_mem hr)) hcheck hgeneration).1
  refine ⟨htime, hdirectory ▸ htaken.here, fun p hp hno => ?_, htaken.positive, htaken.ids,
    htaken.due⟩
  rw [hworker]
  exact ho.gone_perform htask hready (hp.trans htime.1) (htaken.gone p hp hno)

/-- So does the result of a check that runs now. -/
theorem Known.taken_perform (h : s.Known) (hs : s.Single) (ho : s.Ordered)
    (htask : task ∈ s.queue) (hgeneration : task.generation = s.generation) {now : Int}
    {revision : ℕ} (hop : task.operation = .check now revision) {t : Client}
    (hworker : t.worker = (s.worker.perform s.clock fault messages task.operation).2)
    (hdirectory : t.directory = s.directory) :
    s.Timely now ∧ t.Taken ⟨task, (s.worker.perform s.clock fault messages task.operation).1,
      s.worker.opened, s.worker.existing⟩ now := by
  obtain ⟨htime, hrows⟩ := h.queued task htask hgeneration now revision hop
  have hcheck : task.operation.isCheck = true := by
    rw [hop]
    rfl
  have hready := (hs.ready (List.mem_append_right _ htask) hcheck hgeneration).1
  refine ⟨htime, ⟨hdirectory ▸ ho.shown hready, fun p hp hno => ?_, fun p hp => ?_, ?_, ?_⟩⟩
  · rw [hworker]
    exact ho.gone_perform htask hready (hp.trans htime.1) hno
  · obtain ⟨d, hd, hp⟩ := Worker.mem_existing.mp hp
    obtain ⟨r, hr, rfl⟩ := mem_pairs.mp hp
    exact (h.lawful d r hr).1
  · unfold Worker.existing
    cases s.worker.opened with
    | none => exact List.nodup_nil
    | some d => exact nodup_ids
  · intro reminders hresult
    simp only at hresult
    rw [hop] at hresult
    obtain ⟨d, hd, rfl⟩ := Worker.perform_check hresult
    simp only [Worker.existing, hd, Option.elim_some]
    exact dueReminders_markDue (hrows d hd)

theorem Known.runTask (h : s.Known) (hs : s.Single) (ho : s.Ordered)
    (hqueue : s.queue = task :: rest) :
    ({ s with queue := rest }.runTask task fault messages).Known := by
  have hwaiting : ∀ t ∈ rest, t ∈ s.queue := fun t ht => by simp [hqueue, ht]
  have hhead : task ∈ s.queue := by simp [hqueue]
  have hlawful := Worker.perform_lawful fault messages h.lawful (h.times task hhead)
  have hgone : ∀ p, s.Seen p → p ∉ s.worker.existing →
      p ∉ (s.worker.perform s.clock fault messages task.operation).2.existing :=
    fun p hp hno => ho.gone_perform hhead (h.ready_of_seen hp) (h.seen_le hp) hno
  rcases runTask_cases { s with queue := rest } task fault messages with ⟨hclose, he⟩ | ⟨-, he⟩
  · rw [he]
    refine ⟨hlawful, h.sessions, h.news, h.past, h.told, fun p hp => ?_,
      fun t ht => h.times t (hwaiting t ht), fun t ht hgeneration now revision hop =>
        h.queued_perform hs ho hqueue ht hgeneration hop,
      fun r hr hgeneration now revision hop =>
        h.answered_perform hs ho hhead hr hgeneration hop rfl rfl, h.exact⟩
    exact (h.kept p hp).imp_right fun hno => ⟨hgone p hp hno.1, hno.2⟩
  · rw [he]
    refine ⟨hlawful, h.sessions, h.news, h.past, h.told, fun p hp => ?_,
      fun t ht => h.times t (hwaiting t ht), fun t ht hgeneration now revision hop =>
        h.queued_perform hs ho hqueue ht hgeneration hop,
      fun r hr hgeneration now revision hop => ?_, h.exact⟩
    · refine (h.kept p hp).imp_right fun hno =>
        ⟨hgone p hp hno.1, fun r hr hgeneration hcheck => ?_⟩
      rcases List.mem_append.mp hr with hr | hr
      · exact hno.2 r hr hgeneration hcheck
      · obtain rfl := List.mem_singleton.mp hr
        exact hno.1
    · rcases List.mem_append.mp hr with hr | hr
      · exact h.answered_perform hs ho hhead hr hgeneration hop rfl rfl
      · obtain rfl := List.mem_singleton.mp hr
        exact h.taken_perform hs ho hhead hgeneration hop rfl rfl

end runTask

/-! ### The callbacks -/

section deliver
variable {reply : Reply} {rest : List Reply}

theorem Known.pop (h : s.Known) (hreplies : s.replies = reply :: rest) :
    ({ s with replies := rest } : Client).Known := by
  have hmem : ∀ r ∈ rest, r ∈ s.replies := fun r hr => by simp [hreplies, hr]
  refine ⟨h.lawful, h.sessions, h.news, h.past, h.told, fun p hp => ?_, h.times, h.queued,
    fun r hr hgeneration now revision hop => ?_, h.exact⟩
  · exact (h.kept p hp).imp_right fun hno => ⟨hno.1, fun r hr => hno.2 r (hmem r hr)⟩
  · obtain ⟨htime, htaken⟩ := h.answered r (hmem r hr) hgeneration now revision hop
    exact ⟨htime, htaken.congr rfl rfl⟩

theorem Known.opened (h : s.Known) (hreplies : s.replies = reply :: rest)
    (hready : s.ready = false) (ready : Bool) :
    ({ s with replies := rest, ready } : Client).Known := by
  have hpop := h.pop hreplies
  refine ⟨hpop.lawful, hpop.sessions, fun _ => h.news hready, hpop.past, hpop.told, hpop.kept,
    hpop.times, hpop.queued, fun r hr hgeneration now revision hop => ?_, hpop.exact⟩
  obtain ⟨htime, htaken⟩ := hpop.answered r hr hgeneration now revision hop
  exact ⟨htime, htaken.congr rfl rfl⟩

theorem Known.postAgain (h : s.Known) : s.postAgain.Known := by
  unfold Client.postAgain
  split
  · exact h.frame _ _ _ _ _ _ _ _
  · exact h

/-- The result of a check has the pairs that existed and were due, with different ids. -/
theorem Taken.reminders {r : Reply} {now : Int} (h : s.Taken r now)
    {reminders : List LocalReminder} (hresult : r.result = .ok reminders) :
    (reminders.map fun r => r.id).Nodup ∧
      ∀ p, (∃ a ∈ reminders, (a.id, a.dueMs) = p) ↔ p ∈ r.existing ∧ p.2 ≤ now := by
  have hperm := h.due reminders hresult
  constructor
  · have hids : ((reminders.map fun r => (r.id, r.dueMs)).map Prod.fst).Nodup := by
      rw [(hperm.map Prod.fst).nodup_iff]
      exact h.ids.sublist (List.filter_sublist.map Prod.fst)
    simpa [Function.comp_def] using hids
  · intro p
    simpa using hperm.mem_iff (a := p)

/-- The callback of a successful check. -/
theorem Known.announced (h : s.Known) (hready : s.ready = true)
    (hreplies : s.replies = reply :: rest) {now : Int}
    (htask : reply.task = ⟨s.generation, .check now s.revision⟩)
    (hnone : ({ s with replies := rest } : Client).checks = []) {reminders : List LocalReminder}
    (hresult : reply.result = .ok reminders) :
    ({ s with replies := rest, busy := false }.announce reply now reminders).Known := by
  have hmem : reply ∈ s.replies := by simp [hreplies]
  obtain ⟨htime, htaken⟩ := h.answered reply hmem (by rw [htask]) now s.revision (by rw [htask])
  obtain ⟨hids, hactive⟩ := htaken.reminders hresult
  have hfree : ∀ t ∈ ({ s with replies := rest } : Client).flight,
      t.operation.isCheck = true → False := by
    intro t ht hcheck
    have hmem : t ∈ ({ s with replies := rest } : Client).checks :=
      List.mem_filter.mpr ⟨ht, hcheck⟩
    rw [hnone] at hmem
    cases hmem
  -- `_notified` has exactly the pairs of earlier deliveries that still exist
  have hnotified : ∀ p ∈ reply.existing, p.2 ≤ now →
      ((s.notified p.1).getD 0 = p.2 ↔ s.Seen p) := by
    intro p hp hnow
    constructor
    · intro hvalue
      have hpos := htaken.positive p hp
      cases hn : s.notified p.1 with
      | none =>
        rw [hn, Option.getD_none] at hvalue
        omega
      | some d =>
        rw [hn, Option.getD_some] at hvalue
        subst hvalue
        exact h.told p.1 p.2 hn
    · intro hseen
      rcases h.kept p hseen with hvalue | hgone
      · exact hvalue
      · exact absurd hp (hgone.2 reply hmem (by rw [htask]) (by rw [htask]; rfl))
  have hvalue : ∀ p ∈ reply.existing, p.2 ≤ now →
      (retain (collect s.notified reminders).1 (reminders.map fun r => r.id) p.1).getD 0 =
        p.2 := by
    intro p hp hnow
    obtain ⟨a, ha, rfl⟩ := (hactive p).mpr ⟨hp, hnow⟩
    have hin : a.id ∈ reminders.map fun r => r.id := List.mem_map_of_mem ha
    simp only [retain, if_pos hin]
    exact collect_value hids ha
  constructor
  · exact h.lawful
  · intro y hy
    rcases List.mem_cons.mp hy with rfl | hy
    · exact le_rfl
    · exact h.sessions y hy
  · intro hr
    exact absurd hr (by simp [announce, hready])
  · intro y hy
    rcases List.mem_cons.mp hy with rfl | hy
    · exact htime.1
    · exact h.past y hy
  · intro id d hd
    simp only [announce, retain, Option.ite_none_right_eq_some, List.mem_map] at hd
    obtain ⟨⟨a, ha, rfl⟩, hd⟩ := hd
    have hdue : ((collect s.notified reminders).1 a.id).getD 0 = a.dueMs := collect_value hids ha
    rw [hd, Option.getD_some] at hdue
    subst hdue
    have hex := (hactive (a.id, a.dueMs)).mp ⟨a, ha, rfl⟩
    exact ⟨_, List.mem_cons_self, rfl, hex.1, hex.2⟩
  · rintro p ⟨y, hy, hsession, hp, hle⟩
    rcases List.mem_cons.mp hy with rfl | hy
    · exact .inl (hvalue p hp hle)
    · have hnow := hle.trans (htime.2 y hy hsession)
      by_cases hex : p ∈ reply.existing
      · exact .inl (hvalue p hex hnow)
      · refine .inr ⟨htaken.gone p hnow hex, fun r hr _ hcheck => ?_⟩
        exact (hfree r.task (List.mem_append_left _ (List.mem_map_of_mem hr)) hcheck).elim
  · exact h.times
  · intro t ht _ now' revision hop
    exact (hfree t (List.mem_append_right _ ht) (by rw [hop]; rfl)).elim
  · intro r hr _ now' revision hop
    exact (hfree r.task (List.mem_append_left _ (List.mem_map_of_mem hr)) (by rw [hop]; rfl)).elim
  · intro x older hx
    rcases List.suffix_cons_iff.mp hx with heq | hx
    · rw [List.cons.injEq] at heq
      obtain ⟨rfl, rfl⟩ := heq
      refine ⟨⟨htaken.here.1.symm, htaken.here.1 ▸ htaken.here.2⟩, ?_, fun p => ?_⟩
      · have hpairs : (reminders.map fun r => (r.id, r.dueMs)).Nodup := by
          apply List.Nodup.of_map Prod.fst
          simpa [Function.comp_def] using hids
        rw [collect_fresh hids]
        exact hpairs.sublist (List.filter_sublist.map _)
      · have hseen : (∀ y ∈ s.log, y.session = s.revision → p ∈ y.existing → ¬ p.2 ≤ y.now) ↔
            ¬ s.Seen p := by
          simp [Seen]
        simp only [hseen, collect_fresh hids, List.mem_map, List.mem_filter, decide_eq_true_eq]
        constructor
        · rintro ⟨a, ⟨ha, hnew⟩, rfl⟩
          obtain ⟨hex, hnow⟩ := (hactive _).mp ⟨a, ha, rfl⟩
          exact ⟨hex, hnow, fun hs => hnew ((hnotified _ hex hnow).mpr hs)⟩
        · rintro ⟨hex, hnow, hunseen⟩
          obtain ⟨a, ha, rfl⟩ := (hactive p).mpr ⟨hex, hnow⟩
          exact ⟨a, ⟨ha, fun hold => hunseen ((hnotified _ hex hnow).mp hold)⟩, rfl⟩
    · exact h.exact x older hx

end deliver

/-! ## Every reachable state -/

structure Inv (s : Client) : Prop where
  ordered : s.Ordered
  single : s.Single
  known : s.Known

theorem Inv.checkNow (h : s.Inv) (halive : s.alive = true) : (s.checkNow 0).Inv :=
  ⟨h.ordered.checkNow 0, h.single.checkNow halive h.single.clock.2, h.known.checkNow⟩

theorem Inv.remindersChanged (h : s.Inv) : s.remindersChanged.Inv := by
  unfold Client.remindersChanged
  split
  next halive => exact h.checkNow halive
  next => exact h

/-- The fields of the timer take no part. -/
theorem Inv.timer (h : s.Inv) (timer : Bool) : ({ s with timer } : Client).Inv := by
  obtain ⟨ho, hs, hk⟩ := h
  refine ⟨ho.frame _ _ _ _ _ _ _ _ _ _ _ _,
    ⟨hs.idle, hs.busy, hs.free, hs.away, hs.again, hs.clock, hs.debt⟩,
    hk.frame _ _ _ _ _ _ _ _⟩

theorem Inv.alive (h : s.Inv) : ({ s with alive := true } : Client).Inv := by
  obtain ⟨ho, hs, hk⟩ := h
  refine ⟨ho.frame _ _ _ _ _ _ _ _ _ _ _ _,
    ⟨fun ha => ?_, hs.busy, hs.free, hs.away, hs.again, hs.clock, hs.debt.1,
      fun hlt => ⟨rfl, (hs.debt.2 hlt).2⟩⟩,
    hk.frame _ _ _ _ _ _ _ _⟩
  cases ha

theorem Inv.accountReady (h : s.Inv) : s.accountReady.Inv := by
  unfold Client.accountReady
  split
  next halive => exact (h.timer true).checkNow halive
  next => exact h

theorem Inv.construct (h : s.Inv) : s.construct.Inv := by
  unfold Client.construct
  dsimp only
  split
  · exact (h.alive.timer true).checkNow rfl
  · exact h.alive

theorem Inv.fire (h : s.Inv) {now : Int} {shots : List Int} (hshots : s.shots = now :: shots) :
    ({ s with shots }.checkNow now).Inv := by
  obtain ⟨ho, hs, hk⟩ := h
  have hzero := hs.clock.2
  rw [hshots, List.forall_mem_cons] at hzero
  obtain ⟨rfl, hrest⟩ := hzero
  have halive : s.alive = true := by
    cases ha : s.alive with
    | true => rfl
    | false =>
      rw [(hs.idle ha).2.2.2] at hshots
      cases hshots
  refine ⟨?_, hs.checkNow halive hrest, ?_⟩
  · have ho' : ({ s with shots } : Client).Ordered :=
      ⟨ho.issued, ho.ordered, ho.waits, ho.opening, ho.opens, ho.shown⟩
    exact ho'.checkNow 0
  · have hk' : ({ s with shots } : Client).Known := hk.frame _ _ _ _ _ _ _ _
    exact hk'.checkNow

theorem Inv.execute (h : s.Inv) {operation : Operation} (hbound : operation.boundary = false)
    (hcheck : operation.isCheck = false) : (s.execute operation).Inv := by
  refine ⟨h.ordered.execute hbound, ?_, h.known.execute hcheck⟩
  have hchecks : (s.execute operation).checks = s.checks := by simp [checks_execute, hcheck]
  obtain ⟨-, hs, -⟩ := h
  exact ⟨fun ha => ⟨(hs.idle ha).1, hchecks.trans (hs.idle ha).2.1, (hs.idle ha).2.2⟩,
    fun hr hb => hchecks ▸ hs.busy hr hb, fun hr hb => hchecks.trans (hs.free hr hb),
    fun hr => hchecks ▸ hs.away hr, hs.again, hs.clock, hs.debt⟩

theorem Inv.checked (h : s.Inv) {reply : Reply} {rest : List Reply}
    (hreplies : s.replies = reply :: rest) {now : Int} {revision : ℕ}
    (hop : reply.task.operation = .check now revision)
    (hgeneration : reply.task.generation = s.generation) :
    ({ s with replies := rest }.checked reply now revision).Inv := by
  have hcheck : reply.task.operation.isCheck = true := by
    rw [hop]
    rfl
  obtain ⟨hready, halive, ⟨now', htask⟩, hnone⟩ :=
    h.single.current h.ordered hreplies hcheck hgeneration
  rw [htask] at hop
  cases hop
  have hpop := h.ordered.pop hreplies
  unfold Client.checked
  rw [if_neg (by simp [halive])]
  dsimp only
  split
  · refine ⟨Ordered.postAgain (hpop.frame _ _ _ _ _ _ _ _ _ _ _ _),
      h.single.answered hready halive hnone s.notified s.log, Known.postAgain ?_⟩
    exact (h.known.pop hreplies).frame _ _ _ _ _ _ _ _
  next reminders hresult =>
    refine ⟨Ordered.postAgain (hpop.frame _ _ _ _ _ _ _ _ _ _ _ _),
      h.single.answered hready halive hnone _ _, Known.postAgain ?_⟩
    exact h.known.announced hready hreplies htask hnone hresult

theorem Inv.deliver (h : s.Inv) {reply : Reply} {rest : List Reply}
    (hreplies : s.replies = reply :: rest) : ({ s with replies := rest }.deliver reply).Inv := by
  have hpop (hother : reply.task.operation.isCheck = false ∨
      reply.task.generation ≠ s.generation) : ({ s with replies := rest } : Client).Inv :=
    ⟨h.ordered.pop hreplies, h.single.pop h.ordered hreplies hother, h.known.pop hreplies⟩
  unfold Client.deliver
  split
  next hstale => exact hpop (.inr (Ne.symm hstale))
  next hcurrent =>
    have hgeneration : reply.task.generation = s.generation := (not_not.mp hcurrent).symm
    dsimp only
    split
    next d hop =>
      have hmem : reply.task ∈ s.flight := by simp [(h.ordered.behind hreplies).1]
      have hopen : ({ s with replies := rest, ready := reply.result.isOk } : Client).Inv :=
        ⟨h.ordered.opened hreplies hgeneration hop,
          h.single.opened h.ordered hreplies hgeneration hop,
          h.known.opened hreplies (h.ordered.opening reply.task hmem hgeneration d hop).1 _⟩
      split
      · exact hopen.accountReady
      · exact hopen
    next hop => exact hpop (.inl (by rw [hop]; rfl))
    next hop =>
      split
      · exact (hpop (.inl (by rw [hop]; rfl))).remindersChanged
      · exact hpop (.inl (by rw [hop]; rfl))
    next hop =>
      split
      · exact (hpop (.inl (by rw [hop]; rfl))).remindersChanged
      · exact hpop (.inl (by rw [hop]; rfl))
    next now revision hop => exact h.checked hreplies hop hgeneration

theorem Inv.start {clock : ℕ} {databases : String → ReminderTable}
    (h : ∀ d, Lawful clock (databases d)) : (Client.start clock databases).Inv := by
  refine ⟨?_, ?_, ?_⟩
  · constructor <;> simp [Client.start, flight]
  · constructor <;> simp [Client.start, checks, flight]
  · constructor <;> simp [Client.start, Seen]
    exact h

end Client

open Client

theorem client_inv : client.Invariant Inv where
  init s h := by
    obtain ⟨clock, databases, hlawful, rfl⟩ := h
    exact Inv.start hlawful
  step s e t _ h hstep := by
    have hstep : s.next e = some t := hstep
    cases e with
    | advance ms =>
      cases hstep
      obtain ⟨ho, hs, hk⟩ := h
      exact ⟨ho.frame _ _ _ _ _ _ _ _ _ _ _ _,
        ⟨hs.idle, hs.busy, hs.free, hs.away, hs.again, hs.clock, hs.debt⟩, hk.advance ms⟩
    | construct =>
      simp only [Client.next, Option.ite_none_left_eq_some] at hstep
      cases hstep.2
      exact h.construct
    | tick =>
      simp only [Client.next, Option.ite_none_right_eq_some] at hstep
      cases hstep.2
      exact h.checkNow hstep.1.1
    | fire =>
      simp only [Client.next] at hstep
      split at hstep
      · cases hstep
      next now rest hshots =>
        cases hstep
        exact h.fire hshots
    | save reminder =>
      cases hstep
      exact h.execute rfl rfl
    | remove id =>
      cases hstep
      exact h.execute rfl rfl
    | openAccount directory =>
      cases hstep
      have hopen : ∀ d, Operation.openAccount directory = .openAccount d →
          some directory = some d := by
        rintro d ⟨⟩
        rfl
      exact ⟨h.ordered.changeAccount hopen, h.single.changeAccount h.ordered rfl,
        h.known.changeAccount h.single h.ordered rfl⟩
    | closeAccount =>
      cases hstep
      have hclose : ∀ d, Operation.closeAccount = .openAccount d → none = some d :=
        fun d hd => by cases hd
      exact ⟨h.ordered.changeAccount hclose, h.single.changeAccount h.ordered rfl,
        h.known.changeAccount h.single h.ordered rfl⟩
    | work fault messages =>
      simp only [Client.next] at hstep
      split at hstep
      · cases hstep
      next task rest hqueue =>
        cases hstep
        exact ⟨h.ordered.runTask hqueue, h.single.runTask hqueue,
          h.known.runTask h.single h.ordered hqueue⟩
    | deliver =>
      simp only [Client.next] at hstep
      split at hstep
      · cases hstep
      next reply rest hreplies =>
        cases hstep
        exact h.deliver hreplies

/-! ## The event loops run dry -/

namespace Client
variable {s : Client}

/-- The weight of the tasks in flight; one that is no check costs a check behind it. -/
theorem pending_eq (s : Client) :
    s.pending = 2 * s.flight.length + 3 * (s.flight.filter fun t => !t.operation.isCheck).length +
      s.queue.length + 4 * s.shots.length + if s.again then 3 else 0 := rfl

theorem pending_check (clocked : Int) (revision : ℕ) :
    (s.execute (.check clocked revision)).pending = s.pending + 3 := by
  have hqueue : (s.execute (.check clocked revision)).queue.length = s.queue.length + 1 := by
    simp [Client.execute]
  have hagain : (s.execute (.check clocked revision)).again = s.again := rfl
  have hshots : (s.execute (.check clocked revision)).shots = s.shots := rfl
  have hfilter : (s.flight ++ ([⟨s.generation, .check clocked revision⟩] : List Task)).filter
      (fun t => !t.operation.isCheck) = s.flight.filter fun t => !t.operation.isCheck := by
    simp [Operation.isCheck]
  rw [pending_eq, pending_eq, flight_execute, hfilter, hqueue, hagain, hshots,
    List.length_append, List.length_singleton]
  omega

theorem pending_checkNow (s : Client) (now : Int) : (s.checkNow now).pending ≤ s.pending + 3 := by
  rcases checkNow_cases s now with ⟨-, he⟩ | ⟨-, -, he⟩ | ⟨-, -, he⟩
  · rw [he]
    omega
  · rw [he]
    simp only [pending, flight]
    split <;> split <;> omega
  · rw [he, pending_check]
    rfl

theorem pending_runTask {task : Task} {rest : List Task} (hqueue : s.queue = task :: rest)
    (fault : Fault) (messages : Int → Int → Bool) :
    ({ s with queue := rest }.runTask task fault messages).pending < s.pending := by
  rcases runTask_cases { s with queue := rest } task fault messages with ⟨-, he⟩ | ⟨-, he⟩
  · rw [he]
    simp only [pending, flight, hqueue, List.length_append, List.length_cons, List.filter_append,
      List.filter_cons]
    cases task.operation.isCheck <;> simp only [Bool.not_true, Bool.not_false, if_true,
      Bool.false_eq_true, if_false, List.length_cons] <;> omega
  · rw [he]
    simp only [pending, flight, hqueue, List.length_append, List.length_cons, List.map_append,
      List.append_assoc, List.map_cons, List.map_nil, List.singleton_append]
    omega

/-- What a result that was taken weighs. -/
theorem pending_pop {reply : Reply} {rest : List Reply} (hreplies : s.replies = reply :: rest) :
    s.pending = ({ s with replies := rest } : Client).pending +
      if reply.task.operation.isCheck then 2 else 5 := by
  simp only [pending, flight, hreplies, List.map_cons, List.cons_append, List.length_cons,
    List.filter_cons]
  cases reply.task.operation.isCheck <;> simp only [Bool.not_true, Bool.not_false, if_true,
    Bool.false_eq_true, if_false, List.length_cons] <;> omega

theorem pending_postAgain (s : Client) : s.postAgain.pending ≤ s.pending + 1 := by
  unfold Client.postAgain
  split
  next hagain =>
    simp only [pending, flight, hagain, List.length_append, List.length_singleton, if_true,
      Bool.false_eq_true, if_false]
    omega
  next => omega

theorem pending_deliver {reply : Reply} {rest : List Reply} (hreplies : s.replies = reply :: rest) :
    ({ s with replies := rest }.deliver reply).pending < s.pending := by
  have hpop := pending_pop hreplies
  have hlow : ({ s with replies := rest } : Client).pending + 2 ≤ s.pending := by
    rw [hpop]
    split <;> omega
  have hother : reply.task.operation.isCheck = false →
      ({ s with replies := rest } : Client).pending + 5 = s.pending := by
    intro hcheck
    rw [hpop, hcheck]
    rfl
  unfold Client.deliver
  split
  · omega
  · dsimp only
    split
    next hop =>
      have hother := hother (by rw [hop]; rfl)
      split
      · unfold Client.accountReady
        split
        · refine (pending_checkNow _ 0).trans_lt ?_
          change ({ s with replies := rest } : Client).pending + 3 < s.pending
          omega
        · change ({ s with replies := rest } : Client).pending < s.pending
          omega
      · change ({ s with replies := rest } : Client).pending < s.pending
        omega
    next => omega
    next hop =>
      have hother := hother (by rw [hop]; rfl)
      split
      · unfold Client.remindersChanged
        split
        · have := pending_checkNow { s with replies := rest } 0
          omega
        · omega
      · omega
    next hop =>
      have hother := hother (by rw [hop]; rfl)
      split
      · unfold Client.remindersChanged
        split
        · have := pending_checkNow { s with replies := rest } 0
          omega
        · omega
      · omega
    next now revision hop =>
      unfold Client.checked
      split
      · omega
      · dsimp only
        split
        · refine (pending_postAgain _).trans_lt ?_
          change ({ s with replies := rest } : Client).pending + 1 < s.pending
          omega
        · refine (pending_postAgain _).trans_lt ?_
          change ({ s with replies := rest } : Client).pending + 1 < s.pending
          omega

/-- Every step of the event loops lowers what is pending. -/
theorem pending_next {t : Client} {e : Event} (hinternal : e.internal = true)
    (h : s.next e = some t) : t.pending < s.pending := by
  cases e with
  | fire =>
    simp only [Client.next] at h
    split at h
    · cases h
    next now rest hshots =>
      cases h
      have hle := pending_checkNow { s with shots := rest } now
      have hlen : s.shots.length = rest.length + 1 := by rw [hshots, List.length_cons]
      simp only [pending_eq] at hle ⊢
      simp only [flight] at hle ⊢
      omega
  | work fault messages =>
    simp only [Client.next] at h
    split at h
    · cases h
    next task rest hqueue =>
      cases h
      exact pending_runTask hqueue fault messages
  | deliver =>
    simp only [Client.next] at h
    split at h
    · cases h
    next reply rest hreplies =>
      cases h
      exact pending_deliver hreplies
  | _ => cases hinternal

/-- In a settled state every request has a check behind it. -/
theorem Inv.settled (h : s.Inv) (hsettled : s.Settled) : s.covered = s.asked := by
  obtain ⟨hqueue, hreplies, hshots⟩ := hsettled
  by_contra hne
  obtain ⟨-, hready, hagain | hposted⟩ := h.single.debt.2 (lt_of_le_of_ne h.single.debt.1 hne)
  · obtain ⟨now, hchecks⟩ := h.single.busy hready (h.single.again hagain)
    have hnone : s.checks = [] := by simp [checks, flight, hqueue, hreplies]
    rw [hnone] at hchecks
    cases hchecks
  · exact hposted hshots

theorem Inv.checks_length (h : s.Inv) : s.checks.length ≤ 1 := by
  cases hr : s.ready with
  | false => exact (h.single.away hr).2.1
  | true =>
    cases hb : s.busy with
    | false => simp [h.single.free hr hb]
    | true =>
      obtain ⟨now, hc⟩ := h.single.busy hr hb
      simp [hc]

end Client

/-- Within a session no pair is announced twice. -/
theorem Delivery.announced_once (log : List Delivery)
    (h : ∀ x older, x :: older <:+ log → x.Exact older) (session : ℕ) :
    ((log.filter fun y => y.session = session).flatMap fun y => y.fresh).Nodup := by
  induction log with
  | nil => exact List.nodup_nil
  | cons x older ih =>
    have holder : ∀ y older', y :: older' <:+ older → y.Exact older' :=
      fun y older' hy => h y older' (hy.trans (List.suffix_cons x older))
    have hx := h x older List.suffix_rfl
    rw [List.filter_cons]
    split
    next hsession =>
      rw [List.flatMap_cons, List.nodup_append]
      refine ⟨hx.nodup, ih holder, fun p hp q hq hpq => ?_⟩
      subst hpq
      obtain ⟨y, hy, hyp⟩ := List.mem_flatMap.mp hq
      obtain ⟨hy, hsame⟩ := List.mem_filter.mp hy
      obtain ⟨before, behind, hsplit⟩ := List.append_of_mem hy
      obtain ⟨hex, hdue, -⟩ := ((holder y behind ⟨before, hsplit.symm⟩).fresh p).mp hyp
      have hno := ((hx.fresh p).mp hp).2.2 y hy
      simp only [decide_eq_true_eq] at hsession hsame
      exact hno (hsame.trans hsession.symm) hex hdue
    next => exact ih holder

/-- In every reachable state each delivery announced exactly what was due for the first time in
its session, and nothing was announced twice in one; at most one check is in flight; and the event
loops come to a state in which no request is left without a check behind it. -/
theorem reminders_announced_once {s : Client} (hs : client.Reachable s) :
    (∀ x older, x :: older <:+ s.log → x.Exact older) ∧
      (∀ session, ((s.log.filter fun y => y.session = session).flatMap fun y => y.fresh).Nodup) ∧
      s.checks.length ≤ 1 ∧
      (s.Settled → s.covered = s.asked) ∧
      ∀ e t, e.internal = true → s.next e = some t → t.pending < s.pending := by
  have hinv := client_inv.reachable hs
  have hexact := hinv.known.exact
  exact ⟨hexact, Delivery.announced_once s.log hexact, hinv.checks_length, hinv.settled,
    fun e t he ht => pending_next he ht⟩

/-- Every database has one reminder, due at 5. -/
def sampleTable : ReminderTable where
  reminders := ⟨[⟨1, 7, 3, "subject", "excerpt", 5, 1, false⟩], List.pairwise_singleton _ _⟩
  sequence := 1

/-- The reminder is announced at 5, moved to 9 and announced then. -/
def sampleRun : List Event :=
  let work : Event := .work .never fun _ _ => true
  [.construct, .openAccount "1", work, .deliver, work, .deliver, .advance 4, .tick, work, .deliver,
    .save ⟨1, 7, 3, "subject", none, 9, 1, true⟩, work, .deliver, work, .deliver, .advance 4, .tick,
    work, .deliver, .tick, work, .deliver]

theorem sample_announced_once :
    ∃ s, client.Reachable s ∧
      s.log.map (fun y => y.fresh) = [[], [(1, 9)], [], [(1, 5)], []] ∧ s.Settled ∧
      s.covered = s.asked := by
  have hstart : client.Reachable (Client.start 1 fun _ => sampleTable) := by
    refine .init ⟨1, _, fun d r hr => ?_, rfl⟩
    obtain rfl := List.mem_singleton.mp hr
    exact ⟨by decide, by decide⟩
  have hrun : (Machine.runFn Client.next (Client.start 1 fun _ => sampleTable) sampleRun).isSome =
      true := by decide
  have hs := hstart.runFn (Option.some_get hrun).symm
  have hsettled : ((Machine.runFn Client.next (Client.start 1 fun _ => sampleTable) sampleRun).get
      hrun).Settled := ⟨rfl, rfl, rfl⟩
  exact ⟨_, hs, rfl, hsettled, (reminders_announced_once hs).2.2.2.1 hsettled⟩

end CppChat.Organizer.Reminders
