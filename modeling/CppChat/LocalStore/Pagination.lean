import Mathlib.Data.List.Infix
import CppChat.LocalStore.History

/-! # Pages of the local history

In one conversation the pages hold every message that matches, once and in order. Across
conversations they do so exactly when no page but the last ends with a message without a time.
-/
namespace CppChat.LocalStore
open Foundation

section Like

theorem like_percent {p s : List Char} : like ('%' :: p) s = true ↔ ∃ t, t <:+ s ∧ like p t = true := by
  rw [like.eq_def]
  dsimp only
  rw [if_pos rfl, List.any_eq_true]
  simp only [List.mem_tails]

theorem like_escape {p t s : List Char} :
    like (escape t ++ p) s = true ↔ ∃ found rest, s = found ++ rest ∧
      found.map Char.toLower = t.map Char.toLower ∧ like p rest = true := by
  induction t generalizing s with
  | nil =>
    constructor
    · exact fun h => ⟨[], s, rfl, rfl, h⟩
    · rintro ⟨found, rest, rfl, hfound, h⟩
      rw [List.map_nil, List.map_eq_nil_iff] at hfound
      rw [hfound]
      exact h
  | cons c t ih =>
    have hstep : like (escape (c :: t) ++ p) s = true ↔
        ∃ d s', s = d :: s' ∧ c.toLower = d.toLower ∧ like (escape t ++ p) s' = true := by
      by_cases hc : c = '\\' ∨ c = '%' ∨ c = '_'
      · rw [escape, if_pos hc, List.cons_append, List.cons_append, like.eq_def]
        dsimp only
        rw [if_neg (by decide), if_neg (by decide), if_pos rfl]
        cases s with
        | nil => simp
        | cons d s => simp
      · rw [not_or, not_or] at hc
        rw [escape, if_neg (by simp [hc]), List.cons_append, like.eq_def]
        dsimp only
        rw [if_neg hc.2.1, if_neg hc.2.2, if_neg hc.1]
        cases s with
        | nil => simp
        | cons d s => simp
    rw [hstep]
    constructor
    · rintro ⟨d, s', rfl, hd, hs'⟩
      obtain ⟨found, rest, rfl, hfound, hrest⟩ := ih.mp hs'
      exact ⟨d :: found, rest, rfl, by rw [List.map_cons, List.map_cons, hd, hfound], hrest⟩
    · rintro ⟨found, rest, rfl, hfound, hrest⟩
      cases found with
      | nil => cases hfound
      | cons d found =>
        rw [List.map_cons, List.map_cons, List.cons.injEq] at hfound
        exact ⟨d, found ++ rest, rfl, hfound.1.symm, ih.mpr ⟨found, rest, rfl, hfound.2, hrest⟩⟩

theorem contains_iff {text content : String} :
    contains text content = true ↔ Occurs text content := by
  have hall : ∀ s, like ['%'] s = true := by
    intro s
    rw [like_percent]
    exact ⟨[], List.nil_suffix, rfl⟩
  rw [contains, List.cons_append, like_percent]
  constructor
  · rintro ⟨t, ⟨before, hbefore⟩, ht⟩
    obtain ⟨found, rest, rfl, hfound, -⟩ := like_escape.mp ht
    exact ⟨before, found, rest, by rw [← hbefore, List.append_assoc], hfound⟩
  · rintro ⟨before, found, after, hcontent, hfound⟩
    refine ⟨found ++ after, ⟨before, by rw [hcontent, List.append_assoc]⟩, ?_⟩
    exact like_escape.mpr ⟨found, after, rfl, hfound, hall after⟩

end Like

variable {nextDay : String → Option String} {db : Database} {filter : HistoryFilter}
  {cursor : HistoryCursor} {r : MessageRow}

theorem inCategory_iff (h : filter.category ∈ [-1, 0, 1, 2, 3, 4]) :
    filter.inCategory r = true ↔ filter.category = -1 ∨
      filter.category = 3 ∧ r.messageType = 0 ∧
        (Occurs "http://" r.content ∨ Occurs "https://" r.content) ∨
      filter.category = 4 ∧ r.messageType = 3 ∨
      filter.category ∈ [0, 1, 2] ∧ r.messageType = filter.category := by
  simp only [HistoryFilter.inCategory, contains_iff, decide_eq_true_eq]
  simp only [List.mem_cons, List.not_mem_nil, or_false] at h ⊢
  rcases h with h | h | h | h | h | h <;> simp [h]

theorem onDate_iff (h : filter.date = "" ∨ nextDay filter.date ≠ none) :
    filter.onDate nextDay r = true ↔ (filter.date ≠ "" → filter.date ≤ r.chatTime ∧
      ∃ day, nextDay filter.date = some day ∧ r.chatTime < day) := by
  simp only [HistoryFilter.onDate, decide_eq_true_eq]
  by_cases hdate : filter.date = ""
  · simp [hdate]
  · obtain ⟨day, hday⟩ := Option.ne_none_iff_exists'.mp (h.resolve_left hdate)
    simp [hdate, hday]

/-- The statement selects what the filter means. -/
theorem selects_iff (h : filter.Valid nextDay) :
    filter.selects nextDay db r = true ↔ Matches nextDay db filter r := by
  have hthread : (if 0 < filter.threadId then r.threadId = filter.threadId
        else r.threadId ∈ filter.scope) ↔
      if 0 < filter.threadId then r.threadId = filter.threadId
        else r.threadId ∈ filter.allowedThreads ∧ 0 < r.threadId := by
    split
    · rfl
    · simp [HistoryFilter.scope]
  have hvisible : ∀ hidden : Int, r.serverId.all (hidden < ·) = true ↔
      ∀ id, r.serverId = some id → hidden < id := by
    intro hidden
    simp [Option.all_eq_true]
  have hconfirmed : (filter.confirmedOnly = false ∨ r.serverId.isSome = true) ↔
      (filter.confirmedOnly = true → r.serverId ≠ none) := by
    rw [← Option.isSome_iff_ne_none]
    cases filter.confirmedOnly <;> simp
  unfold HistoryFilter.selects
  cases hc : db.conversation? r.threadId with
  | none =>
    refine ⟨nofun, fun hr => ?_⟩
    obtain ⟨c, hc', -⟩ := hr.visible
    rw [hc] at hc'
    cases hc'
  | some c =>
    dsimp only
    rw [decide_eq_true_eq, hthread, hvisible, hconfirmed, inCategory_iff h.category,
      onDate_iff h.date, contains_iff]
    constructor
    · rintro ⟨ht, hv, hcf, hcat, hd, htext⟩
      exact ⟨ht, ⟨c, hc, hv⟩, hcf, hcat, hd, htext⟩
    · intro hr
      obtain ⟨c', hc', hv⟩ := hr.visible
      obtain rfl := Option.some_inj.mp (hc.symm.trans hc')
      exact ⟨hr.thread, hv, hr.confirmed, hr.category, hr.date, hr.text⟩

/-- The rows of all pages. -/
def selected (nextDay : String → Option String) (db : Database) (filter : HistoryFilter) :
    List MessageRow :=
  db.messages.rows.filter fun r => filter.selects nextDay db r

theorem mem_selected (h : filter.Valid nextDay) :
    r ∈ selected nextDay db filter ↔ r ∈ db.messages.rows ∧ Matches nextDay db filter r := by
  rw [selected, List.mem_filter, selects_iff h]

/-- The page that a valid query with a scope returns. -/
def pageAt (nextDay : String → Option String) (db : Database) (filter : HistoryFilter)
    (cursor : HistoryCursor) : Paging.Page MessageRow HistoryCursor :=
  let ceilingId := if cursor.ceilingId = 0 then db.lastLocalId else cursor.ceilingId
  historyPage ceilingId (selectHistory nextDay db filter { cursor with ceilingId })

theorem queryHistory_eq (h : filter.Valid nextDay)
    (hscope : ¬ (filter.threadId = 0 ∧ filter.scope = [])) :
    queryHistory nextDay db filter cursor = .ok (pageAt nextDay db filter cursor) := by
  have hdate : ¬ (filter.date ≠ "" ∧ nextDay filter.date = none) := by
    rintro ⟨hdate, hday⟩
    exact h.date.elim hdate (absurd hday)
  rw [queryHistory, if_neg (not_lt.mpr h.thread), if_neg (not_not_intro h.category),
    if_neg hscope, if_neg hdate]
  rfl

theorem followPages_eq (h : filter.Valid nextDay)
    (hscope : ¬ (filter.threadId = 0 ∧ filter.scope = [])) (fuel : ℕ) :
    followPages nextDay db filter fuel cursor =
      (Paging.walk (pageAt nextDay db filter) fuel cursor).map .ok := by
  induction fuel generalizing cursor with
  | zero => rfl
  | succ fuel ih =>
    rw [followPages, queryHistory_eq h hscope, Paging.walk]
    dsimp only
    split
    · rw [ih, Option.map_map, Option.map_map]
      rfl
    · rfl

theorem localId_le_last (h : r ∈ db.messages.rows) : r.localId ≤ db.lastLocalId :=
  Nat.lt_succ_iff.mp (Database.localId_lt_next h)

theorem above_filter {K : Type*} [LinearOrder K] {key : MessageRow → K} {rows : List MessageRow}
    {p : MessageRow → Bool} {k : K} (h : ∀ r ∈ rows, k < key r → p r = true) :
    Paging.above key (rows.filter p) k = Paging.above key rows k := by
  rw [Paging.above, Paging.above, List.filter_filter]
  congr 1
  refine List.filter_congr fun r hr => ?_
  by_cases hk : k < key r
  · simp [hk, h r hr hk]
  · simp [hk]

/-- The cursors of a walk have the ceiling of the first page, or none yet. -/
def Ceiling (db : Database) (cursor : HistoryCursor) : Prop :=
  cursor.ceilingId = 0 ∨ cursor.ceilingId = db.lastLocalId

/-- A statement that returns the rows above the position of its cursor serves the pages. -/
theorem serves_of {K : Type*} [LinearOrder K] {key : MessageRow → K}
    {position : HistoryCursor → K}
    (hselect : ∀ cursor, cursor.ceilingId = db.lastLocalId →
      selectHistory nextDay db filter cursor =
        (Paging.above key (selected nextDay db filter) (position cursor)).take 51)
    (hposition : ∀ cursor ceilingId, position { cursor with ceilingId } = position cursor) :
    Paging.Serves key (fun r => position (cursorAt db.lastLocalId r)) (selected nextDay db filter) 50
      (pageAt nextDay db filter) fun cursor k => Ceiling db cursor ∧ position cursor = k := by
  have hpage : ∀ cursor, Ceiling db cursor → pageAt nextDay db filter cursor =
      historyPage db.lastLocalId
        ((Paging.above key (selected nextDay db filter) (position cursor)).take 51) := by
    intro cursor hc
    have hceiling : (if cursor.ceilingId = 0 then db.lastLocalId else cursor.ceilingId) =
        db.lastLocalId := by
      split
      · rfl
      · exact hc.resolve_left ‹_›
    rw [pageAt, hceiling, hselect _ rfl, hposition]
  refine ⟨?_, ?_, ?_⟩
  · rintro cursor k ⟨hc, rfl⟩
    rw [hpage cursor hc, historyPage, List.take_take]
    rfl
  · rintro cursor k ⟨hc, rfl⟩
    rw [hpage cursor hc, historyPage]
    simp only [decide_eq_true_eq, List.length_take]
    omega
  · rintro cursor k last ⟨hc, rfl⟩ hmore hlast
    rw [hpage cursor hc] at hlast ⊢
    have hnext : (historyPage db.lastLocalId ((Paging.above key (selected nextDay db filter)
        (position cursor)).take 51)).next = cursorAt db.lastLocalId last := by
      rw [historyPage] at hlast ⊢
      dsimp only at hlast ⊢
      rw [hlast]
      rfl
    rw [hnext]
    exact ⟨.inr rfl, rfl⟩

/-- Rows as the engine stores them: ids are the server's and fit an `int`, and rowids are
counted up from the largest one. -/
def Stored (db : Database) : Prop :=
  ∀ r ∈ db.messages.rows,
    r.localId < maxLocalId ∧ ∀ id, r.serverId = some id → 0 < id ∧ id ≤ maxServerId

def threadPosition (cursor : HistoryCursor) : (Int ×ₗ ℕ)ᵒᵈ :=
  .toDual (toLex (cursor.serverId, cursor.localId))

def timePosition (cursor : HistoryCursor) : (String ×ₗ ℕ)ᵒᵈ :=
  .toDual (toLex (if cursor.time = "" then "\uffff" else cursor.time, cursor.localId))

theorem selectHistory_ceiling (hc : cursor.ceilingId = db.lastLocalId) :
    (db.messages.rows.filter fun r =>
      filter.selects nextDay db r ∧ r.localId ≤ cursor.ceilingId) =
      selected nextDay db filter := by
  refine List.filter_congr fun r hr => ?_
  have hle := localId_le_last hr
  rw [← hc] at hle
  simp [hle]

theorem serves_thread (hthread : 0 < filter.threadId) :
    Paging.Serves threadKey (fun r => threadPosition (cursorAt db.lastLocalId r))
      (selected nextDay db filter) 50 (pageAt nextDay db filter)
      fun cursor k => Ceiling db cursor ∧ threadPosition cursor = k := by
  refine serves_of (fun cursor hc => ?_) fun _ _ => rfl
  rw [selectHistory, if_pos hthread, selectHistory_ceiling hc]
  refine congrArg (List.take 51) (above_filter fun r _ hlt => ?_)
  rw [decide_eq_true_eq]
  exact (Prod.Lex.toLex_lt_toLex.mp hlt).elim le_of_lt fun h => h.1.le

theorem serves_time (hthread : ¬ 0 < filter.threadId) :
    Paging.Serves timeKey (fun r => timePosition (cursorAt db.lastLocalId r))
      (selected nextDay db filter) 50 (pageAt nextDay db filter)
      fun cursor k => Ceiling db cursor ∧ timePosition cursor = k := by
  refine serves_of (fun cursor hc => ?_) fun _ _ => rfl
  rw [selectHistory, if_neg hthread, selectHistory_ceiling hc]
  rfl

theorem threadPosition_cursorAt (hdb : Stored db) {ceilingId : ℕ} (hr : r ∈ db.messages.rows) :
    threadPosition (cursorAt ceilingId r) = threadKey r := by
  cases hid : r.serverId with
  | none => simp [threadPosition, threadKey, cursorAt, hid]
  | some id => simp [threadPosition, threadKey, cursorAt, hid, ((hdb r hr).2 id hid).1]

theorem timePosition_eq {ceilingId : ℕ} : timePosition (cursorAt ceilingId r) =
    .toDual (toLex (if r.chatTime = "" then "\uffff" else r.chatTime, r.localId)) := rfl

theorem timePosition_cursorAt {ceilingId : ℕ} :
    timePosition (cursorAt ceilingId r) = timeKey r ↔ r.chatTime ≠ "" := by
  rw [timePosition_eq, timeKey]
  by_cases htime : r.chatTime = ""
  · rw [if_pos htime]
    refine ⟨fun h => ?_, fun h => absurd htime h⟩
    have hlex : "\uffff" = r.chatTime := congrArg (fun k => (ofLex (OrderDual.ofDual k)).1) h
    rw [← hlex] at htime
    exact absurd htime (by decide)
  · simp [htime]

/-- A cursor never stands for a later place than its row has. -/
theorem timePosition_cursorAt_le {ceilingId : ℕ} :
    timePosition (cursorAt ceilingId r) ≤ timeKey r := by
  by_cases htime : r.chatTime = ""
  · rw [timePosition_eq, timeKey, if_pos htime, htime]
    exact OrderDual.toDual_le_toDual.mpr (Prod.Lex.toLex_le_toLex.mpr (.inl (show "" < "\uffff" by decide)))
  · exact (timePosition_cursorAt.mpr htime).le

theorem selected_keys {K : Type*} {key : MessageRow → K} (h : ∀ a b, key a = key b →
    a.localId = b.localId) : (selected nextDay db filter).Pairwise fun a b => key a ≠ key b :=
  (db.messages.unique.filter _).imp fun hclash heq => hclash (.inl (h _ _ heq))

theorem threadKey_localId (a b : MessageRow) (h : threadKey a = threadKey b) :
    a.localId = b.localId :=
  congrArg (fun k => (ofLex (OrderDual.ofDual k)).2) h

theorem timeKey_localId (a b : MessageRow) (h : timeKey a = timeKey b) : a.localId = b.localId :=
  congrArg (fun k => (ofLex (OrderDual.ofDual k)).2) h

/-- The stated order of the results. -/
def Newer (filter : HistoryFilter) (a b : MessageRow) : Prop :=
  if 0 < filter.threadId then threadKey a < threadKey b else timeKey a < timeKey b

/-- Following the pages from the first one ends, and returns each message that matches once and
in order. -/
def Exhaustive (nextDay : String → Option String) (db : Database) (filter : HistoryFilter) :
    Prop :=
  ∃ fuel rows, followPages nextDay db filter fuel .start = some (.ok rows) ∧
    rows.Pairwise (Newer filter) ∧
    ∀ r, r ∈ rows ↔ r ∈ db.messages.rows ∧ Matches nextDay db filter r

/-- The matching messages in the order across conversations. -/
def newestFirst (nextDay : String → Option String) (db : Database) (filter : HistoryFilter) :
    List MessageRow :=
  (selected nextDay db filter).insertionSort fun a b => timeKey a ≤ timeKey b

/-- Across conversations no time is past the one that stands for none, and no page but the last
ends with a message without a time. -/
def Aligned (nextDay : String → Option String) (db : Database) (filter : HistoryFilter) : Prop :=
  filter.threadId = 0 →
    (∀ r ∈ db.messages.rows, Matches nextDay db filter r → r.chatTime ≤ "\uffff") ∧
      Paging.Boundaries 50 (fun r => r.chatTime ≠ "") (newestFirst nextDay db filter)

theorem exhaustive_of_serves {K : Type*} [LinearOrder K] {key place : MessageRow → K}
    {stands : HistoryCursor → K → Prop} {k : K}
    (hs : Paging.Serves key place (selected nextDay db filter) 50 (pageAt nextDay db filter) stands)
    (hkey : ∀ a b, key a = key b → a.localId = b.localId)
    (hback : ∀ r ∈ selected nextDay db filter, place r ≤ key r) (hstart : stands .start k)
    (hvalid : filter.Valid nextDay) (hscope : ¬ (filter.threadId = 0 ∧ filter.scope = []))
    (hnewer : ∀ a b, Newer filter a b ↔ key a < key b) :
    Exhaustive nextDay db filter ↔ (∀ r ∈ selected nextDay db filter, k < key r) ∧
      Paging.Boundaries 50 (fun r => place r = key r)
        (Paging.above key (selected nextDay db filter) k) := by
  have htable : (selected nextDay db filter).Pairwise fun a b => key a ≠ key b :=
    selected_keys hkey
  constructor
  · rintro ⟨fuel, rows, hfollow, hsorted, hrows⟩
    rw [followPages_eq hvalid hscope] at hfollow
    obtain ⟨rows', hwalk, heq⟩ := Option.map_eq_some_iff.mp hfollow
    obtain rfl : rows' = rows := Except.ok.inj heq
    have hnodup : rows'.Nodup := hsorted.imp fun {a b} hab => by
      rw [hnewer] at hab
      exact fun h => hab.ne (congrArg key h)
    have hb := hs.boundaries_of_walk htable (by decide) hback hstart hwalk hnodup
    refine ⟨fun r hr => ?_, hb⟩
    obtain ⟨fuel', hall⟩ := hs.walk_of_boundaries htable (by decide) hstart hb
    have hmem : r ∈ rows' := (hrows r).mpr ((mem_selected hvalid).mp hr)
    rw [Paging.walk_unique hwalk hall] at hmem
    exact (Paging.mem_above.mp hmem).2
  · rintro ⟨habove, hb⟩
    obtain ⟨fuel, hwalk⟩ := hs.walk_of_boundaries htable (by decide) hstart hb
    refine ⟨fuel, _, by rw [followPages_eq hvalid hscope, hwalk, Option.map_some], ?_, fun r => ?_⟩
    · exact (Paging.above_pairwise htable).imp fun {a b} hab => (hnewer a b).mpr hab
    · rw [Paging.mem_above, ← mem_selected hvalid]
      exact ⟨And.left, fun hr => ⟨hr, habove r hr⟩⟩

theorem exhaustive_iff (hdb : Stored db) (h : filter.Valid nextDay) :
    Exhaustive nextDay db filter ↔ Aligned nextDay db filter := by
  by_cases hthread : 0 < filter.threadId
  · have hnewer : ∀ a b, Newer filter a b ↔ threadKey a < threadKey b := fun a b => by
      rw [Newer, if_pos hthread]
    have hplace : ∀ r ∈ selected nextDay db filter,
        threadPosition (cursorAt db.lastLocalId r) = threadKey r := fun r hr =>
      threadPosition_cursorAt hdb (List.mem_of_mem_filter hr)
    rw [exhaustive_of_serves (serves_thread hthread) threadKey_localId (fun r hr => (hplace r hr).le)
      ⟨.inl rfl, rfl⟩ h (fun hscope => hthread.ne hscope.1.symm) hnewer]
    refine ⟨fun _ hzero => absurd hzero hthread.ne', fun _ => ⟨fun r hr => ?_, ?_⟩⟩
    · obtain ⟨hlocal, hserver⟩ := hdb r (List.mem_of_mem_filter hr)
      refine OrderDual.toDual_lt_toDual.mpr (Prod.Lex.toLex_lt_toLex.mpr ?_)
      cases hid : r.serverId with
      | none => exact .inr ⟨rfl, hlocal⟩
      | some id =>
        rcases (hserver id hid).2.lt_or_eq with hlt | heq
        · exact .inl hlt
        · exact .inr ⟨heq, hlocal⟩
    · intro i r _ hr
      exact hplace r (Paging.mem_above.mp (List.mem_of_getElem? hr)).1
  · have hzero : filter.threadId = 0 := le_antisymm (not_lt.mp hthread) h.thread
    by_cases hscope : filter.scope = []
    · have hnone : ∀ r, ¬ Matches nextDay db filter r := by
        intro r hr
        have hmem := hr.thread
        rw [if_neg hthread] at hmem
        have : r.threadId ∈ filter.scope := List.mem_filter.mpr ⟨hmem.1, decide_eq_true hmem.2⟩
        rw [hscope] at this
        cases this
      have hselected : selected nextDay db filter = [] :=
        List.eq_nil_iff_forall_not_mem.mpr fun r hr => hnone r ((mem_selected h).mp hr).2
      refine ⟨fun _ _ => ⟨fun r _ hr => absurd hr (hnone r), fun i r hi => ?_⟩, fun _ =>
        ⟨1, [], ?_, .nil, fun r => ⟨nofun, fun hr => absurd hr.2 (hnone r)⟩⟩⟩
      · rw [newestFirst, hselected] at hi
        exact absurd hi (Nat.not_lt_zero _)
      · rw [followPages, queryHistory, if_neg (not_lt.mpr h.thread),
          if_neg (not_not_intro h.category), if_pos ⟨hzero, hscope⟩]
        rfl
    · have hnewer : ∀ a b, Newer filter a b ↔ timeKey a < timeKey b := fun a b => by
        rw [Newer, if_neg hthread]
      rw [exhaustive_of_serves (serves_time hthread) timeKey_localId
        (fun r _ => timePosition_cursorAt_le) ⟨.inl rfl, rfl⟩ h (fun hs => hscope hs.2) hnewer]
      have hbelow : ∀ r ∈ db.messages.rows,
          timePosition .start < timeKey r ↔ r.chatTime ≤ "\uffff" := by
        intro r hr
        rw [le_iff_lt_or_eq]
        refine OrderDual.toDual_lt_toDual.trans (Prod.Lex.toLex_lt_toLex.trans ?_)
        exact or_congr_right (and_iff_left (hdb r hr).1)
      have hall : (∀ r ∈ selected nextDay db filter, timePosition .start < timeKey r) ↔
          ∀ r ∈ db.messages.rows, Matches nextDay db filter r → r.chatTime ≤ "\uffff" := by
        refine forall_congr' fun r => ?_
        rw [mem_selected h, and_imp]
        exact forall_congr' fun hr => imp_congr_right fun _ => hbelow r hr
      have habove : (∀ r ∈ selected nextDay db filter, timePosition .start < timeKey r) →
          Paging.above timeKey (selected nextDay db filter) (timePosition .start) =
            newestFirst nextDay db filter := by
        intro hlt
        rw [Paging.above, List.filter_eq_self.mpr fun r hr => decide_eq_true (hlt r hr)]
        rfl
      simp only [timePosition_cursorAt]
      rw [Aligned]
      constructor
      · rintro ⟨hlt, hb⟩ -
        exact ⟨hall.mp hlt, habove hlt ▸ hb⟩
      · intro haligned
        obtain ⟨hle, hb⟩ := haligned hzero
        have hlt := hall.mpr hle
        exact ⟨hlt, (habove hlt).symm ▸ hb⟩

end CppChat.LocalStore
