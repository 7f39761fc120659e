import CppChat.Threads.Listing

/-! # Listings are complete

A listing gives the user every conversation he is owed exactly if no read of a group fails
while a page is built: such a group is left out of a page that reports success.
-/
namespace CppChat.Threads
open Foundation Paging

variable {db : Database} {uid cursor : Int} {plan : Plan} {plans : List Plan} {t : Thread}
  {e : Entry}

/-! ## Rows and their entries -/

theorem allThreads_keys (db : Database) (uid : Int) :
    (allThreads db uid).Pairwise fun a b => a.key ≠ b.key := by
  have hcast : ∀ m n : ℕ, (m : Int) = n → m = n := fun m n h => Int.ofNat_inj.mp h
  refine List.pairwise_append.mpr ⟨?_, ?_, ?_⟩
  · rw [List.pairwise_map]
    exact (db.privateChat.unique.filter _).imp fun h he => h (hcast _ _ he)
  · rw [List.pairwise_map]
    refine (db.groupChatMember.unique.filter _).imp_of_mem fun {a b} ha hb h he => h ?_
    have hua := (List.mem_filter.mp ha).2
    have hub := (List.mem_filter.mp hb).2
    simp only [decide_eq_true_eq] at hua hub
    have hthread : a.threadId = b.threadId := hcast _ _ he
    have huser : a.userId = b.userId := hua.trans hub.symm
    cases a
    cases b
    cases hthread
    cases huser
    rfl
  · intro a ha b hb he
    obtain ⟨p, hp, rfl⟩ := List.mem_map.mp ha
    obtain ⟨m, hm, rfl⟩ := List.mem_map.mp hb
    exact db.apart p (List.mem_of_mem_filter hp) m (List.mem_of_mem_filter hm) (hcast _ _ he)

theorem mem_allThreads : t ∈ allThreads db uid ↔
    (∃ p ∈ db.privateChat.rows, (p.user1 = uid ∨ p.user2 = uid) ∧ db.friend uid (p.other uid) ∧
      t = p.thread) ∨
    ∃ m ∈ db.groupChatMember.rows, m.userId = uid ∧ t = m.thread := by
  simp only [allThreads, List.mem_append, List.mem_map, List.mem_filter, decide_eq_true_eq]
  constructor
  · rintro (⟨p, ⟨hp, huser, hfriend⟩, rfl⟩ | ⟨m, ⟨hm, huser⟩, rfl⟩)
    · exact .inl ⟨p, hp, huser, hfriend, rfl⟩
    · exact .inr ⟨m, hm, huser, rfl⟩
  · rintro (⟨p, hp, huser, hfriend, rfl⟩ | ⟨m, hm, huser, rfl⟩)
    · exact .inl ⟨p, ⟨hp, huser, hfriend⟩, rfl⟩
    · exact .inr ⟨m, ⟨hm, huser⟩, rfl⟩

theorem positive_of_mem (h : t ∈ allThreads db uid) : 0 < t.key := by
  rcases mem_allThreads.mp h with ⟨p, hp, -, -, rfl⟩ | ⟨m, hm, -, rfl⟩
  · exact Int.natCast_pos.mpr (db.positive' p hp)
  · exact Int.natCast_pos.mpr (db.positive m hm)

/-- The entry of a row when every read succeeds. -/
def readEntry (db : Database) (uid : Int) (t : Thread) : Option Entry :=
  entry? db uid ⟨true, fun _ => true⟩ (t.info db)

theorem entry?_threadId {info : ThreadInfo} (h : entry? db uid plan info = some e) :
    e.info = info := by
  unfold entry? at h
  split at h
  · split at h
    · cases h
      rfl
    · cases h
  · cases h
    rfl

theorem readEntry_group (htype : t.type = .group) : readEntry db uid t = some e ↔
    ∃ group, getGroup db uid t.threadId true = .ok group ∧ e = ⟨t.info db, some group⟩ := by
  unfold readEntry entry?
  rw [if_pos (show (t.info db).type = .group from htype)]
  split
  next group hok =>
    have hok : getGroup db uid t.threadId true = .ok group := hok
    simp [hok, eq_comm]
  next code herror =>
    have herror : getGroup db uid t.threadId true = .error code := herror
    simp [herror]

theorem getGroup_ok {thread : ℕ} {group : GroupJson} :
    getGroup db uid thread true = .ok group ↔ 0 < uid ∧ 0 < thread ∧
      ∃ g ∈ db.groupChat.rows, g.threadId = thread ∧ g.active = true ∧
        ⟨thread, uid⟩ ∈ db.groupChatMember.rows ∧ group = ⟨thread, g.name, g.ownerUid⟩ := by
  unfold getGroup
  by_cases hzero : uid ≤ 0 ∨ thread = 0
  · rw [if_pos hzero]
    constructor
    · rintro ⟨⟩
    · rintro ⟨huid, hthread, -⟩
      omega
  rw [if_neg hzero, if_neg (by simp)]
  cases hfind : db.groupChat.rows.find? fun g => decide (g.threadId = thread ∧ g.active = true) with
  | none =>
    constructor
    · rintro ⟨⟩
    · rintro ⟨-, -, g, hg, hthread, hactive, -⟩
      exact absurd (List.find?_eq_none.mp hfind g hg) (by simp [hthread, hactive])
  | some g =>
    have hg := List.mem_of_find?_eq_some hfind
    have hmatch := List.find?_some hfind
    simp only [decide_eq_true_eq] at hmatch
    dsimp only
    split
    next hmember =>
      constructor
      · rintro ⟨⟩
        exact ⟨by omega, by omega, g, hg, hmatch.1, hmatch.2, hmember, rfl⟩
      · rintro ⟨-, -, g', hg', hthread', -, -, rfl⟩
        rw [db.groupChat.eq_of_clash (fun _ _ => Eq.symm) hg' hg (hthread'.trans hmatch.1.symm)]
    next hmember =>
      constructor
      · rintro ⟨⟩
      · rintro ⟨-, -, g', -, -, -, hmember', -⟩
        exact absurd hmember' hmember

/-- The entries of all rows are what the user is owed. -/
theorem owed_iff (huid : 0 < uid) :
    Owed db uid e ↔ ∃ t ∈ allThreads db uid, readEntry db uid t = some e := by
  constructor
  · rintro (⟨p, hp, huser, hfriend, rfl⟩ | ⟨g, hg, hactive, hmember, rfl⟩)
    · exact ⟨p.thread, mem_allThreads.mpr (.inl ⟨p, hp, huser, hfriend, rfl⟩), rfl⟩
    · refine ⟨MemberRow.thread ⟨g.threadId, uid⟩, mem_allThreads.mpr (.inr ⟨_, hmember, rfl, rfl⟩), ?_⟩
      exact (readEntry_group rfl).mpr ⟨_, getGroup_ok.mpr
        ⟨huid, db.positive _ hmember, g, hg, rfl, hactive, hmember, rfl⟩, rfl⟩
  · rintro ⟨t, ht, hentry⟩
    rcases mem_allThreads.mp ht with ⟨p, hp, huser, hfriend, rfl⟩ | ⟨m, hm, huser, rfl⟩
    · cases hentry
      exact .inl ⟨p, hp, huser, hfriend, rfl⟩
    · obtain ⟨group, hok, rfl⟩ := (readEntry_group rfl).mp hentry
      obtain ⟨-, -, g, hg, hthread, hactive, hmember, rfl⟩ := getGroup_ok.mp hok
      refine .inr ⟨g, hg, hactive, ?_, ?_⟩
      · rw [hthread]
        exact hmember
      · rw [hthread]
        rfl

/-! ## Pages -/

/-- The page that the query of a request reads. -/
def pageAt (db : Database) (uid cursor : Int) : Page Thread Int :=
  page Thread.key (allThreads db uid) 10 cursor

/-- A request whose query succeeds. -/
def pageStep (db : Database) (uid cursor : Int) (plan : Plan) : Step :=
  ⟨plan, cursor, ErrorCodes.success, some uid, (pageAt db uid cursor).more,
    (pageAt db uid cursor).next,
    ((pageAt db uid cursor).rows.map (Thread.info db)).filterMap ( entry? db uid plan)⟩

/-- A request whose query fails. -/
def failureStep (cursor : Int) (plan : Plan) : Step :=
  ⟨plan, cursor, ErrorCodes.uidInvalid, none, false, 0, []⟩

theorem handler_of_page (huid : 0 < uid) (hpage : plan.page = true) :
    getUserThreadsHandler db uid uid cursor plan = (pageStep db uid cursor plan).reply := by
  unfold getUserThreadsHandler getUserThreads
  rw [if_neg (by omega), if_neg (by simp [hpage]; omega)]
  rfl

theorem handler_of_failure (huid : 0 < uid) (hpage : plan.page = false) :
    getUserThreadsHandler db uid uid cursor plan = (failureStep cursor plan).reply := by
  unfold getUserThreadsHandler getUserThreads
  rw [if_neg (by omega), if_pos (by simp [hpage])]
  rfl

/-- A listing goes on exactly after a page that says so. -/
theorem listing_cases (huid : 0 < uid) (plan : Plan) (plans : List Plan) (cursor : Int) :
    (plan.page = false ∧ listing db uid (plan :: plans) cursor = [failureStep cursor plan]) ∨
    (plan.page = true ∧ (pageAt db uid cursor).more = false ∧
      listing db uid (plan :: plans) cursor = [pageStep db uid cursor plan]) ∨
    (plan.page = true ∧ (pageAt db uid cursor).more = true ∧
      listing db uid (plan :: plans) cursor =
        pageStep db uid cursor plan :: listing db uid plans (pageAt db uid cursor).next) := by
  cases hpage : plan.page with
  | false =>
    refine .inl ⟨rfl, ?_⟩
    simp only [listing, handler_of_failure huid hpage]
    rfl
  | true =>
    cases hmore : (pageAt db uid cursor).more with
    | false =>
      refine .inr (.inl ⟨rfl, rfl, ?_⟩)
      simp only [listing, handler_of_page huid hpage]
      rw [if_neg (by simp [pageStep, hmore])]
      rfl
    | true =>
      refine .inr (.inr ⟨rfl, rfl, ?_⟩)
      simp only [listing, handler_of_page huid hpage]
      rw [if_pos ⟨rfl, hmore⟩]
      rfl

/-- Where every group of the page is read, the entries are those of its rows. -/
theorem entries_of_read {rows : List Thread}
    (h : ∀ t ∈ rows, t.type = .group → plan.group t.threadId = true) :
    (rows.map (Thread.info db)).filterMap ( entry? db uid plan) =
      rows.filterMap (readEntry db uid) := by
  rw [List.filterMap_map]
  refine List.filterMap_congr fun t ht => ?_
  show entry? db uid plan (t.info db) = entry? db uid _ (t.info db)
  unfold entry?
  by_cases htype : t.type = .group
  · have hplan := h t ht htype
    simp only [Thread.info, htype, hplan]
  · rw [if_neg (show ¬ (t.info db).type = .group from htype),
      if_neg (show ¬ (t.info db).type = .group from htype)]

theorem pairwise_entries {rows : List Thread} (h : rows.Pairwise fun a b => a.key < b.key) :
    (rows.filterMap (readEntry db uid)).Pairwise fun e e' =>
      e.info.threadId < e'.info.threadId := by
  refine List.pairwise_filterMap.mpr (h.imp fun {t t'} hlt e he e' he' => ?_)
  rw [entry?_threadId he, entry?_threadId he']
  exact Int.ofNat_lt.mp hlt

/-! ## Listings -/

theorem union_cons (s : Step) (steps : List Step) :
    union (s :: steps) = s.reply.threads ++ union steps := rfl

/-- What every step of a listing is. -/
theorem mem_listing (huid : 0 < uid) : ∀ s ∈ listing db uid plans cursor,
    (s.plan.page = false ∧ s = failureStep s.cursor s.plan) ∨
      (s.plan.page = true ∧ s = pageStep db uid s.cursor s.plan) := by
  induction plans generalizing cursor with
  | nil => simp [listing]
  | cons plan plans ih =>
    rcases @listing_cases db _ huid plan plans cursor with
      ⟨hpage, hlisting⟩ | ⟨hpage, -, hlisting⟩ | ⟨hpage, -, hlisting⟩
    · rw [hlisting]
      exact List.forall_mem_singleton.mpr (.inl ⟨hpage, rfl⟩)
    · rw [hlisting]
      exact List.forall_mem_singleton.mpr (.inr ⟨hpage, rfl⟩)
    · rw [hlisting]
      exact List.forall_mem_cons.mpr ⟨.inr ⟨hpage, rfl⟩, ih⟩

theorem plan_mem_of_mem_listing (huid : 0 < uid) :
    ∀ s ∈ listing db uid plans cursor, s.plan ∈ plans := by
  induction plans generalizing cursor with
  | nil => simp [listing]
  | cons plan plans ih =>
    rcases @listing_cases db _ huid plan plans cursor with
      ⟨-, hlisting⟩ | ⟨-, -, hlisting⟩ | ⟨-, -, hlisting⟩
    · rw [hlisting]
      exact List.forall_mem_singleton.mpr List.mem_cons_self
    · rw [hlisting]
      exact List.forall_mem_singleton.mpr List.mem_cons_self
    · rw [hlisting]
      exact List.forall_mem_cons.mpr
        ⟨List.mem_cons_self, fun s hs => List.mem_cons_of_mem _ (ih s hs)⟩

theorem groupsRead_of_plans (huid : 0 < uid) (h : ∀ plan ∈ plans, ∀ t, plan.group t = true) :
    GroupsRead db uid (listing db uid plans cursor) := fun s hs _ t _ _ =>
  h s.plan (plan_mem_of_mem_listing huid s hs) t.threadId

theorem ended_cons {s : Step} {steps : List Step} (hmore : s.reply.loadMore = true)
    (h : Ended (s :: steps)) : Ended steps := by
  obtain ⟨t, ht, hlast⟩ := h
  cases steps with
  | nil =>
    cases ht
    exact absurd (hmore.symm.trans hlast) (by decide)
  | cons t' steps =>
    rw [List.getLast?_cons_cons] at ht
    exact ⟨t, ht, hlast⟩

/-- The pages from a cursor on give the entries of the rows above it. -/
theorem union_of_read (huid : 0 < uid)
    (hread : GroupsRead db uid (listing db uid plans cursor))
    (hsuccess : ∀ s ∈ listing db uid plans cursor, s.reply.error = ErrorCodes.success)
    (hended : Ended (listing db uid plans cursor)) :
    (union (listing db uid plans cursor)).Pairwise
        (fun e e' => e.info.threadId < e'.info.threadId) ∧
      ∀ e, e ∈ union (listing db uid plans cursor) ↔
        ∃ t ∈ above Thread.key (allThreads db uid) cursor, readEntry db uid t = some e := by
  have hkeys := allThreads_keys db uid
  induction plans generalizing cursor with
  | nil =>
    obtain ⟨s, hs, -⟩ := hended
    cases hs
  | cons plan plans ih =>
    have hpage : ∀ steps, plan.page = true →
        GroupsRead db uid (pageStep db uid cursor plan :: steps) →
        (pageStep db uid cursor plan).reply.threads =
          (pageAt db uid cursor).rows.filterMap (readEntry db uid) := fun steps hpage hread =>
      entries_of_read (hread _ List.mem_cons_self hpage)
    rcases @listing_cases db _ huid plan plans cursor with
      ⟨-, hlisting⟩ | ⟨hplan, hmore, hlisting⟩ | ⟨hplan, hmore, hlisting⟩
    · rw [hlisting] at hsuccess
      exact absurd (hsuccess _ List.mem_cons_self)
        (show ErrorCodes.uidInvalid ≠ ErrorCodes.success by decide)
    · rw [hlisting] at hread ⊢
      rw [union_cons, hpage _ hplan hread, pageAt, rows_of_not_more hmore]
      simp only [union, List.flatMap_nil, List.append_nil]
      exact ⟨pairwise_entries (above_pairwise hkeys), fun e => List.mem_filterMap⟩
    · rw [hlisting] at hread hsuccess hended ⊢
      obtain ⟨hascending, hunion⟩ := ih (fun s hs => hread s (List.mem_cons_of_mem _ hs))
        (fun s hs => hsuccess s (List.mem_cons_of_mem _ hs)) (ended_cons hmore hended)
      rw [union_cons, hpage _ hplan hread]
      refine ⟨List.pairwise_append.mpr ⟨pairwise_entries (page_pairwise hkeys), hascending, ?_⟩,
        fun e => ?_⟩
      · intro e he e' he'
        obtain ⟨t, ht, hentry⟩ := List.mem_filterMap.mp he
        obtain ⟨t', ht', hentry'⟩ := (hunion e').mp he'
        rw [entry?_threadId hentry, entry?_threadId hentry']
        exact Int.ofNat_lt.mp ((le_next_of_mem hkeys (by decide) hmore ht).trans_lt
          (mem_above.mp ht').2)
      · rw [List.mem_append, hunion, List.mem_filterMap, ← exists_or]
        refine exists_congr fun t => ?_
        rw [← or_and_right, mem_page_or_above hkeys (by decide) hmore]
        rfl

theorem above_zero : t ∈ above Thread.key (allThreads db uid) 0 ↔ t ∈ allThreads db uid :=
  mem_above.trans ⟨And.left, fun h => ⟨h, positive_of_mem h⟩⟩

/-- A listing keeps its promise exactly if every group of its pages is read. -/
theorem listed_iff (db : Database) (huid : 0 < uid) (plans : List Plan) :
    Listed db uid (listing db uid plans 0) ↔ GroupsRead db uid (listing db uid plans 0) := by
  constructor
  · intro h s hs hpage t ht htype
    by_contra hunread
    refine h.reported s hs (.inr ⟨t, ht, htype, by simpa using hunread⟩) ?_
    rcases mem_listing huid s hs with ⟨hfailed, -⟩ | ⟨-, hstep⟩
    · rw [hpage] at hfailed
      cases hfailed
    · rw [hstep]
      rfl
  · intro hread
    refine ⟨fun hsuccess hended => ?_, fun s hs hunread => ?_, fun s hs _ hmore => ?_⟩
    · obtain ⟨hascending, hunion⟩ := union_of_read huid hread hsuccess hended
      refine ⟨hascending, fun e => ?_⟩
      rw [hunion, owed_iff huid]
      exact exists_congr fun t => and_congr_left fun _ => above_zero
    · rcases mem_listing huid s hs with ⟨-, hstep⟩ | ⟨hpage, -⟩
      · rw [hstep]
        exact show ErrorCodes.uidInvalid ≠ ErrorCodes.success by decide
      · rcases hunread with hfailed | ⟨t, ht, htype, hfailed⟩
        · rw [hpage] at hfailed
          cases hfailed
        · rw [hread s hs hpage t ht htype] at hfailed
          cases hfailed
    · rcases mem_listing huid s hs with ⟨-, hstep⟩ | ⟨-, hstep⟩
      · rw [hstep] at hmore
        cases hmore
      · rw [hstep] at hmore ⊢
        exact cursor_lt_next (by decide) hmore

/-! ## Two pages -/

def sampleThreads : List ℕ := [3, 4, 5, 6, 7, 8, 9, 10, 11, 12, 13, 14]

/-- User 1 has a friend and a former one, and is in twelve groups, one of them dissolved. -/
def sampleDatabase : Database where
  privateChat := ⟨[⟨1, 1, 2⟩, ⟨2, 1, 3⟩], by decide⟩
  groupChatMember := ⟨sampleThreads.map fun t => ⟨t, 1⟩, by decide⟩
  groupChat := ⟨sampleThreads.map fun t => ⟨t, "g", 1, t ≠ 5⟩, by decide⟩
  chatMessage := ⟨[⟨1, 1, "2026-01-01 00:00:00"⟩, ⟨2, 1, "2026-01-02 00:00:00"⟩], by decide⟩
  friend self other := self = 1 ∧ other = 2
  positive := by decide
  positive' := by decide
  apart := by decide

def everyRead : Plan := ⟨true, fun _ => true⟩

def missing (thread : ℕ) : Plan := ⟨true, fun t => t ≠ thread⟩

theorem listed_sample : Listed sampleDatabase 1 (listing sampleDatabase 1 [everyRead, everyRead] 0) ∧
    (union (listing sampleDatabase 1 [everyRead, everyRead] 0)).map (·.info.threadId) =
      [1, 3, 4, 6, 7, 8, 9, 10, 11, 12, 13, 14] :=
  ⟨(listed_iff sampleDatabase (by decide) _).mpr (groupsRead_of_plans (by decide) fun plan hplan t => by
    rcases List.mem_pair.mp hplan with rfl | rfl <;> rfl), by decide +kernel⟩

/-- A group that cannot be read is missing, though both pages report success. -/
theorem unread_group_dropped : ¬ Listed sampleDatabase 1
    (listing sampleDatabase 1 [missing 7, everyRead] 0) := by
  intro h
  have hsuccess : ∀ s ∈ listing sampleDatabase 1 [missing 7, everyRead] 0,
      s.reply.error = ErrorCodes.success := by decide +kernel
  have hended : Ended (listing sampleDatabase 1 [missing 7, everyRead] 0) := by
    refine ⟨_, List.getLast?_eq_getLast_of_ne_nil (by simp [listing]), ?_⟩
    decide +kernel
  have hmissing : 7 ∉ (union (listing sampleDatabase 1 [missing 7, everyRead] 0)).map
      (·.info.threadId) := by decide +kernel
  refine hmissing (List.mem_map.mpr ⟨_, ((h.complete hsuccess hended).2
    ⟨(MemberRow.thread ⟨7, 1⟩).info sampleDatabase, some ⟨7, "g", 1⟩⟩).mpr (.inr ?_), rfl⟩)
  exact ⟨⟨7, "g", 1, true⟩, by decide, rfl, by decide, rfl⟩

end CppChat.Threads
