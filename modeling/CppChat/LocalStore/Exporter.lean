import CppChat.Foundation.Transaction
import CppChat.LocalStore.Pagination

/-! # Exports of the local history

`HistoryExporter` writes one page after the other between a header and a footer, until a limit
is reached, the disk is full or the rights change. The file is kept only when all went well.
-/
namespace CppChat.LocalStore
open Foundation

inductive Format
  | json
  | text
  deriving DecidableEq

def utf8 (s : String) : Bytes := s.toUTF8.data.toList

/-- What an export cannot decide: the text of an entry, the answer of `ScopeValid` whenever it
is asked, and whether a write and the commit succeed. -/
structure ExportEnv where
  nextDay : String → Option String
  entry : Format → MessageRow → Bytes
  scopeValid : ℕ → Bool
  disk : ℕ → Bool
  commit : Bool
  messageLimit : ℕ
  byteLimit : ℕ
  messageLimit_mem : 1 ≤ messageLimit ∧ messageLimit ≤ 10000
  byteLimit_mem : 256 ≤ byteLimit ∧ byteLimit ≤ 32 * 1024 * 1024

/-- `written` are the messages of the entries; `checks` and `writes` count the questions to the
environment. -/
structure Export where
  filter : HistoryFilter
  format : Format
  cursor : HistoryCursor
  count : ℕ
  bytes : ℕ
  contents : Bytes
  written : List MessageRow
  checks : ℕ
  writes : ℕ

def Format.header : Format → Bytes
  | .json => utf8 "\x7b\"schema\":1,\"messages\":[\n"
  | .text => utf8 "CppChat 本机已确认聊天记录（不含附件文件）\n\n"

def Format.footer : Format → Bytes
  | .json => utf8 "\n]\x7d\n"
  | .text => []

/-- Entries of a JSON file are separated by commas. -/
def Format.separator (format : Format) (count : ℕ) : Bytes :=
  match format with
  | .json => if count = 0 then [] else utf8 ",\n"
  | .text => []

variable (env : ExportEnv) (db : Database)

namespace Export

def write (e : Export) (bytes : Bytes) : Except String Export :=
  if env.byteLimit < e.bytes + bytes.length then .error "导出大小超过限制，请缩小日期或会话范围"
  else if ¬ env.disk e.writes then .error "导出写入失败，原目标文件保留"
  else .ok { e with
    bytes := e.bytes + bytes.length
    contents := e.contents ++ bytes
    writes := e.writes + 1 }

def rendered (e : Export) (m : MessageRow) : Bytes :=
  e.format.separator e.count ++ env.entry e.format m

/-- The loop over the messages of a page. -/
def writeMessages (e : Export) : List MessageRow → Except String Export
  | [] => .ok e
  | m :: rest =>
    if env.messageLimit ≤ e.count then .error "导出条数超过限制，请缩小日期或会话范围"
    else match e.write env (e.rendered env m) with
      | .error message => .error message
      | .ok e => writeMessages { e with count := e.count + 1, written := e.written ++ [m] } rest

/-- `ScopeValid` -/
def checkScope (e : Export) (message : String) : Except String Export :=
  if env.scopeValid e.checks then .ok { e with checks := e.checks + 1 } else .error message

end Export

/-- The text of a failed query. -/
def StoreError.text : StoreError → String
  | .checked message => message
  | .uniqueViolation => "UNIQUE constraint failed"
  | .notNullViolation => "NOT NULL constraint failed"

namespace Export

/-- What becomes of the result of a query. -/
def writePage (e : Export) (page : Paging.Page MessageRow HistoryCursor) :
    Except String Export := do
  let e ← e.checkScope env "导出权限已变化"
  let e ← e.writeMessages env page.rows
  ({ e with cursor := page.next } : Export).checkScope env "导出权限已变化"

/-- `NextPage` and what follows it, until the file is committed. -/
def pages : ℕ → Export → Option (Except String Export)
  | 0, _ => none
  | fuel + 1, e =>
    match e.checkScope env "导出账号或会话权限已变化，导出已停止" with
    | .error message => some (.error message)
    | .ok e =>
      match queryHistory env.nextDay db e.filter e.cursor with
      | .error error => some (.error error.text)
      | .ok page =>
        match e.writePage env page with
        | .error message => some (.error message)
        | .ok e =>
          if page.more then pages fuel e
          else match e.write env e.format.footer with
            | .error message => some (.error message)
            | .ok e => some (if env.commit then .ok e else .error "导出提交失败，原目标文件保留")

end Export

/-- Only confirmed messages are exported, of one conversation or of the allowed ones. -/
def HistoryFilter.exported (filter : HistoryFilter) : HistoryFilter :=
  { filter with
    confirmedOnly := true
    allowedThreads := if 0 < filter.threadId then [filter.threadId] else filter.allowedThreads }

/-- `Start`, after its checks of the target file and of the conversations. -/
def exportHistory (filter : HistoryFilter) (format : Format) (fuel : ℕ) :
    Option (Except String Export) :=
  match Export.write env ⟨filter.exported, format, .start, 0, 0, [], [], 0, 0⟩ format.header with
  | .error _ => some (.error "无法准备导出文件")
  | .ok e => e.pages env db fuel

variable {env db} {e e' : Export} {fuel : ℕ}

/-- The entries of a list of messages behind `count` others. -/
def entries (env : ExportEnv) (format : Format) : ℕ → List MessageRow → Bytes
  | _, [] => []
  | count, m :: rest =>
    format.separator count ++ env.entry format m ++ entries env format (count + 1) rest

namespace Export

/-- What is settled about an export that wrote some more messages. -/
structure Wrote (env : ExportEnv) (e e' : Export) (rows : List MessageRow) : Prop where
  filter : e'.filter = e.filter
  format : e'.format = e.format
  count : e'.count = e.count + rows.length
  bytes : e'.bytes = e.bytes + (entries env e.format e.count rows).length
  written : e'.written = e.written ++ rows
  contents : e'.contents = e.contents ++ entries env e.format e.count rows

theorem write_ok {bytes : Bytes} (h : e.write env bytes = .ok e') :
    e' = { e with
      bytes := e.bytes + bytes.length
      contents := e.contents ++ bytes
      writes := e.writes + 1 } := by
  unfold write at h
  split at h
  · cases h
  · split at h
    · cases h
    · exact (Except.ok.inj h).symm

theorem checkScope_ok {message : String} (h : e.checkScope env message = .ok e') :
    e' = { e with checks := e.checks + 1 } := by
  unfold checkScope at h
  split at h
  · exact (Except.ok.inj h).symm
  · cases h

theorem entries_append {format : Format} {count : ℕ} {rows rest : List MessageRow} :
    entries env format count (rows ++ rest) =
      entries env format count rows ++ entries env format (count + rows.length) rest := by
  induction rows generalizing count with
  | nil => rfl
  | cons m rows ih =>
    rw [List.cons_append, entries, entries, ih, List.length_cons, Nat.add_assoc,
      Nat.add_comm 1]
    simp only [List.append_assoc]

theorem length_entries_cons {m : MessageRow} {rows : List MessageRow} :
    (entries env e.format e.count (m :: rows)).length =
      (e.rendered env m).length + (entries env e.format (e.count + 1) rows).length :=
  List.length_append

theorem Wrote.trans {e'' : Export} {rows rest : List MessageRow} (h : Wrote env e e' rows)
    (h' : Wrote env e' e'' rest) : Wrote env e e'' (rows ++ rest) := by
  refine ⟨h'.filter.trans h.filter, h'.format.trans h.format, ?_, ?_, ?_, ?_⟩
  · rw [h'.count, h.count, List.length_append, Nat.add_assoc]
  · rw [h'.bytes, h.bytes, h.format, h.count, entries_append, List.length_append, Nat.add_assoc]
  · rw [h'.written, h.written, List.append_assoc]
  · rw [h'.contents, h.contents, h.format, h.count, entries_append, List.append_assoc]

theorem writeMessages_ok {rows : List MessageRow} (h : e.writeMessages env rows = .ok e') :
    Wrote env e e' rows := by
  induction rows generalizing e with
  | nil =>
    obtain rfl := Except.ok.inj h
    exact ⟨rfl, rfl, rfl, rfl, (List.append_nil _).symm, (List.append_nil _).symm⟩
  | cons m rows ih =>
    rw [writeMessages] at h
    split at h
    · cases h
    · split at h
      · cases h
      · rename_i e₁ hwrite
        rw [write_ok hwrite] at h
        have hrest := ih h
        refine ⟨hrest.filter, hrest.format, ?_, ?_, ?_, ?_⟩
        · rw [hrest.count, List.length_cons, Nat.add_assoc, Nat.add_comm 1]
        · rw [hrest.bytes, length_entries_cons]
          exact Nat.add_assoc _ _ _
        · rw [hrest.written, List.append_assoc, List.singleton_append]
        · rw [hrest.contents, entries, List.append_assoc]
          rfl

theorem writePage_ok {page : Paging.Page MessageRow HistoryCursor}
    (h : e.writePage env page = .ok e') : Wrote env e e' page.rows ∧ e'.cursor = page.next := by
  obtain ⟨e₁, hcheck, h⟩ := bind_eq_ok.mp h
  obtain ⟨e₂, hwrite, h⟩ := bind_eq_ok.mp h
  rw [checkScope_ok hcheck] at hwrite
  rw [checkScope_ok h]
  have hwrote := writeMessages_ok hwrite
  exact ⟨⟨hwrote.filter, hwrote.format, hwrote.count, hwrote.bytes, hwrote.written,
    hwrote.contents⟩, rfl⟩

/-- An export that was committed holds the messages of all pages, and nothing else. -/
theorem pages_ok (h : e.pages env db fuel = some (.ok e')) :
    ∃ rows, followPages env.nextDay db e.filter fuel e.cursor = some (.ok rows) ∧
      e'.written = e.written ++ rows ∧
      e'.contents = e.contents ++ entries env e.format e.count rows ++ e.format.footer := by
  induction fuel generalizing e with
  | zero => cases h
  | succ fuel ih =>
    rw [pages] at h
    rw [followPages]
    split at h
    · cases h
    · rename_i e₁ hcheck
      obtain rfl := checkScope_ok hcheck
      dsimp only at h
      cases hquery : queryHistory env.nextDay db e.filter e.cursor with
      | error error =>
        rw [hquery] at h
        cases h
      | ok page =>
        rw [hquery] at h
        dsimp only at h ⊢
        split at h
        · cases h
        · rename_i e₂ hpage
          obtain ⟨hwrote, hcursor⟩ := writePage_ok hpage
          split at h
          · obtain ⟨rest, hrest, hwritten, hcontents⟩ := ih h
            have hfilter : e₂.filter = e.filter := hwrote.filter
            rw [hfilter, hcursor] at hrest
            rw [if_pos ‹_›, hrest]
            refine ⟨page.rows ++ rest, rfl, ?_, ?_⟩
            · rw [hwritten, hwrote.written, List.append_assoc]
            · rw [hcontents, hwrote.contents, hwrote.format, hwrote.count, entries_append]
              simp only [List.append_assoc]
          · rw [if_neg ‹_›]
            split at h
            · cases h
            · rename_i e₃ hfooter
              split at h
              · obtain rfl := Except.ok.inj (Option.some_inj.mp h)
                rw [write_ok hfooter]
                refine ⟨page.rows, rfl, hwrote.written, ?_⟩
                rw [hwrote.format]
                exact congrArg (· ++ _) hwrote.contents
              · cases h

/-! ## Every export ends -/

/-- A page that others follow is not empty. -/
theorem rows_of_more {nextDay : String → Option String} {filter : HistoryFilter}
    {cursor : HistoryCursor} {page : Paging.Page MessageRow HistoryCursor}
    (h : queryHistory nextDay db filter cursor = .ok page) (hmore : page.more = true) :
    page.rows ≠ [] := by
  unfold queryHistory at h
  split at h
  · cases h
  split at h
  · cases h
  split at h
  · cases h
    cases hmore
  split at h
  · cases h
  · cases h
    have hlength := of_decide_eq_true hmore
    refine List.ne_nil_of_length_pos ?_
    rw [historyPage, List.length_take]
    omega

theorem writeMessages_limit {rows : List MessageRow} (hrows : rows ≠ [])
    (h : e.writeMessages env rows = .ok e') : e.count < env.messageLimit := by
  cases rows with
  | nil => exact absurd rfl hrows
  | cons m rows =>
    rw [writeMessages] at h
    split at h
    · cases h
    · exact not_le.mp ‹_›

theorem writePage_limit {page : Paging.Page MessageRow HistoryCursor} (hrows : page.rows ≠ [])
    (h : e.writePage env page = .ok e') : e.count < env.messageLimit := by
  obtain ⟨e₁, hcheck, h⟩ := bind_eq_ok.mp h
  obtain ⟨e₂, hwrite, -⟩ := bind_eq_ok.mp h
  have hlimit := writeMessages_limit hrows hwrite
  rwa [checkScope_ok hcheck] at hlimit

/-- The limit on the messages bounds the pages, also where they repeat. -/
theorem pages_ends (h : env.messageLimit - e.count < fuel) :
    ∃ result, e.pages env db fuel = some result := by
  induction fuel generalizing e with
  | zero => exact absurd h (Nat.not_lt_zero _)
  | succ fuel ih =>
    rw [pages]
    cases hcheck : e.checkScope env "导出账号或会话权限已变化，导出已停止" with
    | error message => exact ⟨_, rfl⟩
    | ok e₁ =>
      obtain rfl := checkScope_ok hcheck
      dsimp only
      cases hquery : queryHistory env.nextDay db e.filter e.cursor with
      | error error => exact ⟨_, rfl⟩
      | ok page =>
        dsimp only
        split
        · exact ⟨_, rfl⟩
        · rename_i e₂ hpage
          split
          · have hlimit := writePage_limit (rows_of_more hquery ‹_›) hpage
            have hcount := (writePage_ok hpage).1.count
            have hpos := List.length_pos_iff.mpr (rows_of_more hquery ‹_›)
            dsimp only at hlimit hcount
            exact ih (by omega)
          · split <;> exact ⟨_, rfl⟩

/-! ## Exports that are committed -/

theorem checkScope_accepts (hscope : ∀ n, env.scopeValid n = true) (message : String) :
    e.checkScope env message = .ok { e with checks := e.checks + 1 } :=
  if_pos (hscope _)

theorem write_accepts (hdisk : ∀ n, env.disk n = true) {bytes : Bytes}
    (hsize : e.bytes + bytes.length ≤ env.byteLimit) : ∃ e', e.write env bytes = .ok e' := by
  rw [write, if_neg (not_lt.mpr hsize), if_neg (not_not_intro (hdisk _))]
  exact ⟨_, rfl⟩

theorem writeMessages_accepts (hdisk : ∀ n, env.disk n = true) {rows : List MessageRow}
    (hcount : e.count + rows.length ≤ env.messageLimit)
    (hsize : e.bytes + (entries env e.format e.count rows).length ≤ env.byteLimit) :
    ∃ e', e.writeMessages env rows = .ok e' := by
  induction rows generalizing e with
  | nil => exact ⟨e, rfl⟩
  | cons m rows ih =>
    rw [List.length_cons] at hcount
    rw [length_entries_cons] at hsize
    obtain ⟨e₁, hwrite⟩ : ∃ e₁, e.write env (e.rendered env m) = .ok e₁ :=
      write_accepts hdisk (by omega)
    rw [writeMessages, if_neg (by omega), hwrite]
    obtain rfl := write_ok hwrite
    refine ih ?_ ?_
    · dsimp only
      omega
    · dsimp only
      omega

/-- An export that meets no limit and no failure is committed once its pages end. -/
theorem pages_commits (hscope : ∀ n, env.scopeValid n = true) (hdisk : ∀ n, env.disk n = true)
    (hcommit : env.commit = true) {rows : List MessageRow}
    (hfollow : followPages env.nextDay db e.filter fuel e.cursor = some (.ok rows))
    (hcount : e.count + rows.length ≤ env.messageLimit)
    (hsize : e.bytes + (entries env e.format e.count rows).length + e.format.footer.length ≤
      env.byteLimit) : ∃ e', e.pages env db fuel = some (.ok e') := by
  induction fuel generalizing e rows with
  | zero => cases hfollow
  | succ fuel ih =>
    rw [pages, checkScope_accepts hscope]
    rw [followPages] at hfollow
    dsimp only
    cases hquery : queryHistory env.nextDay db e.filter e.cursor with
    | error error =>
      rw [hquery] at hfollow
      cases hfollow
    | ok page =>
      rw [hquery] at hfollow
      dsimp only at hfollow ⊢
      -- the rows of the page are the first of those that the walk returns
      obtain ⟨rest, hrest, hmore⟩ : ∃ rest, rows = page.rows ++ rest ∧
          if page.more = true then
            followPages env.nextDay db e.filter fuel page.next = some (.ok rest)
          else rest = [] := by
        split at hfollow
        next h =>
          obtain ⟨x, hx, heq⟩ := Option.map_eq_some_iff.mp hfollow
          cases x with
          | error error => cases heq
          | ok rest => exact ⟨rest, (Except.ok.inj heq).symm, by rw [if_pos h]; exact hx⟩
        next h =>
          obtain rfl := Except.ok.inj (Option.some_inj.mp hfollow)
          exact ⟨[], (List.append_nil _).symm, by rw [if_neg h]⟩
      subst hrest
      rw [List.length_append] at hcount
      rw [entries_append, List.length_append] at hsize
      obtain ⟨e₂, hpage⟩ : ∃ e₂, ({ e with checks := e.checks + 1 } : Export).writePage env page =
          .ok e₂ := by
        obtain ⟨e₃, hwrite⟩ : ∃ e₃, ({ e with checks := e.checks + 1 + 1 } : Export).writeMessages
            env page.rows = .ok e₃ :=
          writeMessages_accepts hdisk (by dsimp only; omega) (by dsimp only; omega)
        exact ⟨_, bind_eq_ok.mpr ⟨_, checkScope_accepts hscope _,
          bind_eq_ok.mpr ⟨e₃, hwrite, checkScope_accepts hscope _⟩⟩⟩
      obtain ⟨hwrote, hcursor⟩ := writePage_ok hpage
      have hfilter : e₂.filter = e.filter := hwrote.filter
      have hformat : e₂.format = e.format := hwrote.format
      have hbytes := hwrote.bytes
      have hcount₂ := hwrote.count
      dsimp only at hbytes hcount₂
      rw [hpage]
      dsimp only
      split
      next h =>
        rw [if_pos h, ← hfilter, ← hcursor] at hmore
        refine ih hmore ?_ ?_
        · omega
        · rw [hformat, hcount₂]
          omega
      next h =>
        have hfooter : e₂.bytes + e₂.format.footer.length ≤ env.byteLimit := by
          rw [hformat]
          omega
        obtain ⟨e₃, hwrite⟩ := write_accepts hdisk hfooter
        rw [hwrite]
        exact ⟨e₃, rfl⟩

end Export

theorem exportHistory_ok {filter : HistoryFilter} {format : Format}
    (h : exportHistory env db filter format fuel = some (.ok e)) :
    followPages env.nextDay db filter.exported fuel .start = some (.ok e.written) ∧
      e.contents = format.header ++ entries env format 0 e.written ++ format.footer := by
  unfold exportHistory at h
  split at h
  · cases h
  · rename_i e₁ hheader
    obtain rfl := Export.write_ok hheader
    obtain ⟨rows, hrows, hwritten, hcontents⟩ := Export.pages_ok h
    rw [List.nil_append] at hwritten
    rw [hwritten]
    exact ⟨hrows, hcontents⟩

theorem HistoryFilter.Valid.exported {nextDay : String → Option String} {filter : HistoryFilter}
    (h : filter.Valid nextDay) : filter.exported.Valid nextDay := ⟨h.thread, h.category, h.date⟩

theorem followPages_unique {nextDay : String → Option String} {filter : HistoryFilter}
    {cursor : HistoryCursor} {fuel fuel' : ℕ} {x x' : Except StoreError (List MessageRow)}
    (h : followPages nextDay db filter fuel cursor = some x)
    (h' : followPages nextDay db filter fuel' cursor = some x') : x = x' := by
  induction fuel generalizing fuel' cursor x x' with
  | zero => cases h
  | succ fuel ih =>
    cases fuel' with
    | zero => cases h'
    | succ fuel' =>
      rw [followPages] at h h'
      split at h
      · rename_i error hquery
        rw [hquery] at h'
        exact Option.some_inj.mp (h.symm.trans h')
      · rename_i page hquery
        rw [hquery] at h'
        dsimp only at h'
        split at h
        · rw [if_pos ‹_›] at h'
          obtain ⟨y, hy, rfl⟩ := Option.map_eq_some_iff.mp h
          obtain ⟨y', hy', rfl⟩ := Option.map_eq_some_iff.mp h'
          rw [ih hy hy']
        · rw [if_neg ‹_›] at h'
          exact Option.some_inj.mp (h.symm.trans h')

/-- The rights and the disk stay, and the messages are within the limits. -/
structure ExportEnv.Permits (env : ExportEnv) (format : Format) (rows : List MessageRow) :
    Prop where
  scopeValid : ∀ n, env.scopeValid n = true
  disk : ∀ n, env.disk n = true
  commit : env.commit = true
  count : rows.length ≤ env.messageLimit
  size : (format.header ++ entries env format 0 rows ++ format.footer).length ≤ env.byteLimit

theorem exportHistory_ends (filter : HistoryFilter) (format : Format) :
    ∃ fuel result, exportHistory env db filter format fuel = some result := by
  unfold exportHistory
  split
  · exact ⟨0, _, rfl⟩
  · exact ⟨_, Export.pages_ends (Nat.lt_succ_self _)⟩

theorem exportHistory_commits {filter : HistoryFilter} {format : Format} {rows : List MessageRow}
    (hfollow : followPages env.nextDay db filter.exported fuel .start = some (.ok rows))
    (hpermits : env.Permits format rows) :
    ∃ e, exportHistory env db filter format fuel = some (.ok e) ∧ e.written = rows := by
  obtain ⟨hscope, hdisk, hcommit, hcount, hsize⟩ := hpermits
  rw [List.length_append, List.length_append] at hsize
  let start : Export := ⟨filter.exported, format, .start, 0, 0, [], [], 0, 0⟩
  obtain ⟨e₁, hheader⟩ : ∃ e₁, start.write env format.header = .ok e₁ :=
    Export.write_accepts hdisk (by show 0 + _ ≤ _; omega)
  obtain ⟨e, hexport⟩ : ∃ e, e₁.pages env db fuel = some (.ok e) := by
    obtain rfl := Export.write_ok hheader
    refine Export.pages_commits hscope hdisk hcommit hfollow ?_ ?_
    · show 0 + rows.length ≤ env.messageLimit
      omega
    · show 0 + format.header.length + (entries env format 0 rows).length + format.footer.length ≤
        env.byteLimit
      omega
  have hpages : exportHistory env db filter format fuel = some (.ok e) := by
    rw [exportHistory, hheader]
    exact hexport
  have hwritten := (exportHistory_ok hpages).1
  exact ⟨e, hpages, Except.ok.inj (Option.some_inj.mp (hwritten.symm.trans hfollow))⟩

/-- The pages of a valid query hold each matching message once and in order exactly when they are
aligned. An export ends, of aligned pages it is committed where nothing forbids it, and a
committed one has one entry for each matching message exactly when its pages are aligned. -/
theorem history_exhaustive {filter : HistoryFilter} (hdb : Stored db)
    (h : filter.Valid env.nextDay) :
    (Exhaustive env.nextDay db filter ↔ Aligned env.nextDay db filter) ∧ ∀ format,
      (∃ fuel result, exportHistory env db filter format fuel = some result) ∧
      (Aligned env.nextDay db filter.exported → ∃ rows,
        rows.Pairwise (Newer filter.exported) ∧
        (∀ r, r ∈ rows ↔ r ∈ db.messages.rows ∧ Matches env.nextDay db filter.exported r) ∧
        (env.Permits format rows → ∃ fuel e,
          exportHistory env db filter format fuel = some (.ok e) ∧ e.written = rows)) ∧
      ∀ fuel e, exportHistory env db filter format fuel = some (.ok e) →
        (e.written.Pairwise (Newer filter.exported) ∧
          (∀ r, r ∈ e.written ↔
            r ∈ db.messages.rows ∧ Matches env.nextDay db filter.exported r) ↔
          Aligned env.nextDay db filter.exported) ∧
        e.contents = format.header ++ entries env format 0 e.written ++ format.footer := by
  refine ⟨exhaustive_iff hdb h, fun format => ⟨exportHistory_ends filter format, ?_, ?_⟩⟩
  · intro haligned
    obtain ⟨fuel, rows, hfollow, hsorted, hrows⟩ := (exhaustive_iff hdb h.exported).mpr haligned
    exact ⟨rows, hsorted, hrows, fun hpermits => ⟨fuel, exportHistory_commits hfollow hpermits⟩⟩
  · intro fuel e hexport
    obtain ⟨hfollow, hcontents⟩ := exportHistory_ok hexport
    refine ⟨⟨fun hwritten => ?_, fun haligned => ?_⟩, hcontents⟩
    · exact (exhaustive_iff hdb h.exported).mp ⟨fuel, e.written, hfollow, hwritten⟩
    · obtain ⟨fuel', rows, hfollow', hexact⟩ := (exhaustive_iff hdb h.exported).mpr haligned
      obtain rfl : e.written = rows := Except.ok.inj (followPages_unique hfollow hfollow')
      exact hexact

/-! ## Two pages of messages -/

def stamped (time : String) (localId : ℕ) : MessageRow :=
  ⟨localId, 1, 2, some (localId + 1), none, "", 0, time, 0, unRead, none⟩

/-- One conversation with 51 messages of one time; an empty one where none was saved. -/
def stampedStore (time : String) : Database where
  conversations := ⟨[⟨1, 2, 0, "", "", 0⟩], List.pairwise_singleton _ _⟩
  messages := ⟨(List.range 51).map (stamped time), by
    refine List.pairwise_map.mpr (List.nodup_range.imp fun {a b} hne => ?_)
    rintro (h | ⟨-, -, h⟩ | ⟨-, -, h, -⟩)
    · exact hne h
    · have hid : (a : Int) + 1 = b + 1 := Option.some_inj.mp h
      omega
    · exact h rfl⟩
  syncState := .empty
  deletedMessages := .empty
  attachments := .empty
  groupProfiles := .empty
  drafts := .empty
  userVersion := 0

/-- Everything in conversation 1, by the statement for several conversations. -/
def everything : HistoryFilter := ⟨0, "", -1, "", [1], false⟩

variable {time : String}

theorem everything_valid (nextDay : String → Option String) : everything.Valid nextDay :=
  ⟨le_rfl, by decide, .inl rfl⟩

theorem mem_stampedStore {r : MessageRow} :
    r ∈ (stampedStore time).messages.rows ↔ ∃ i < 51, stamped time i = r := by
  rw [stampedStore, List.mem_map]
  simp only [List.mem_range]

theorem stampedStore_stored : Stored (stampedStore time) := by
  intro r hr
  obtain ⟨i, hi, rfl⟩ := mem_stampedStore.mp hr
  refine ⟨show i < maxLocalId from hi.trans (by decide), fun id hid => ?_⟩
  obtain rfl : (i : Int) + 1 = id := Option.some_inj.mp hid
  have : maxServerId = 2147483647 := rfl
  omega

theorem stamped_matches (nextDay : String → Option String) {filter : HistoryFilter}
    (h : filter = everything ∨ filter = everything.exported) (i : ℕ) :
    Matches nextDay (stampedStore time) filter (stamped time i) := by
  have hvisible : ∃ c, (stampedStore time).conversation? 1 = some c ∧
      ∀ id, (stamped time i).serverId = some id → c.hiddenBeforeId < id := by
    refine ⟨⟨1, 2, 0, "", "", 0⟩, rfl, fun id hid => ?_⟩
    obtain rfl : (i : Int) + 1 = id := Option.some_inj.mp hid
    exact Int.lt_add_one_of_le (Int.natCast_nonneg i)
  rcases h with rfl | rfl <;>
    exact ⟨⟨List.mem_singleton_self _, Int.one_pos⟩, hvisible, nofun, .inl rfl,
      fun h => absurd rfl h, [], [], [], rfl, rfl⟩

/-- An entry of a text file. -/
def textEntry (m : MessageRow) : Bytes :=
  utf8 ("[" ++ m.chatTime ++ "] 小明 | UID " ++ toString m.senderUid ++ " | 文字\n" ++ m.content ++
    "\n\n")

def sampleEnv : ExportEnv :=
  ⟨fun _ => none, fun _ => textEntry, fun _ => true, fun _ => true, true, 100, 10000, by decide,
    by decide⟩

theorem length_entries_text {k count : ℕ} {rows : List MessageRow}
    (h : ∀ m ∈ rows, (env.entry .text m).length ≤ k) :
    (entries env .text count rows).length ≤ rows.length * k := by
  induction rows generalizing count with
  | nil => exact Nat.zero_le _
  | cons m rows ih =>
    have hm := h m List.mem_cons_self
    have hrest : (entries env .text (count + 1) rows).length ≤ rows.length * k :=
      ih fun x hx => h x (List.mem_cons_of_mem _ hx)
    rw [entries, List.length_append, List.length_append, List.length_cons, Nat.add_mul]
    simp only [Format.separator, List.length_nil]
    omega

def sampleTime : String := "2026-01-02 03:04:05.000"

/-- The messages have a time: the walk over their two pages ends, and so does their export. -/
theorem history_sample :
    Exhaustive (fun _ => none) (stampedStore sampleTime) everything ∧
      ∃ fuel e, exportHistory sampleEnv (stampedStore sampleTime) everything .text fuel =
        some (.ok e) ∧ e.written.length = 51 := by
  have haligned : ∀ filter, Aligned (fun _ => none) (stampedStore sampleTime) filter := by
    refine fun filter _ => ⟨fun r hr _ => ?_, fun i r _ hr => ?_⟩
    · obtain ⟨i, -, rfl⟩ := mem_stampedStore.mp hr
      exact show sampleTime ≤ "\uffff" by decide
    · have hmem := List.mem_of_getElem? hr
      rw [newestFirst, List.mem_insertionSort] at hmem
      obtain ⟨j, -, rfl⟩ := mem_stampedStore.mp (List.mem_of_mem_filter hmem)
      exact show sampleTime ≠ "" by decide
  obtain ⟨hwalk, hexport⟩ := @history_exhaustive sampleEnv _ _ (@stampedStore_stored sampleTime)
    (everything_valid _)
  obtain ⟨-, hcommits, -⟩ := hexport .text
  obtain ⟨rows, hsorted, hrows, hpermits⟩ := hcommits (haligned _)
  have hlength : rows.length = 51 := by
    have hnodup : rows.Nodup := hsorted.imp fun {a b} hnewer heq => by
      subst heq
      unfold Newer at hnewer
      split at hnewer <;> exact lt_irrefl _ hnewer
    have hstore : (stampedStore sampleTime).messages.rows.Nodup :=
      (stampedStore sampleTime).messages.unique.imp fun hclash heq => hclash (.inl (congrArg _ heq))
    have hperm : rows.Perm (stampedStore sampleTime).messages.rows := by
      refine (List.perm_ext_iff_of_nodup hnodup hstore).mpr fun r => ?_
      refine (hrows r).trans (and_iff_left_of_imp fun hr => ?_)
      obtain ⟨i, -, rfl⟩ := mem_stampedStore.mp hr
      exact stamped_matches _ (.inr rfl) i
    rw [hperm.length_eq, stampedStore, List.length_map, List.length_range]
  have hentry : ∀ m ∈ rows, (sampleEnv.entry .text m).length ≤ 100 := by
    intro m hm
    obtain ⟨i, -, rfl⟩ := mem_stampedStore.mp ((hrows m).mp hm).1
    exact show (textEntry (stamped sampleTime 0)).length ≤ 100 by decide +kernel
  have hentries := @length_entries_text sampleEnv 100 0 rows hentry
  have hheader : Format.text.header.length ≤ 100 := by decide +kernel
  have hsize : (Format.text.header ++ entries sampleEnv .text 0 rows ++ Format.text.footer).length ≤
      10000 := by
    rw [List.length_append, List.length_append]
    show _ + _ + 0 ≤ 10000
    omega
  obtain ⟨fuel, e, he, hwritten⟩ :=
    hpermits ⟨fun _ => rfl, fun _ => rfl, rfl, by rw [hlength]; decide, hsize⟩
  exact ⟨hwalk.mpr (haligned _), fuel, e, he, by rw [hwritten, hlength]⟩

/-- The first page ends with a message without a time, and so the second is the first again. -/
theorem first_page_repeats : ¬ Exhaustive (fun _ => none) (stampedStore "") everything := by
  rw [exhaustive_iff stampedStore_stored (everything_valid _)]
  intro haligned
  have hb := (haligned rfl).2
  have hselected : selected (fun _ => none) (stampedStore "") everything =
      (stampedStore "").messages.rows := by
    refine List.filter_eq_self.mpr fun r hr => ?_
    obtain ⟨i, -, rfl⟩ := mem_stampedStore.mp hr
    exact (selects_iff (everything_valid _)).mpr (stamped_matches _ (.inl rfl) i)
  have hperm : (newestFirst (fun _ => none) (stampedStore "") everything).Perm
      (stampedStore "").messages.rows := by
    rw [newestFirst, hselected]
    exact List.perm_insertionSort _ _
  have hlength : (newestFirst (fun _ => none) (stampedStore "") everything).length = 51 := by
    rw [hperm.length_eq, stampedStore, List.length_map, List.length_range]
  obtain ⟨r, hr⟩ : ∃ r, (newestFirst (fun _ => none) (stampedStore "") everything)[49]? = some r :=
    ⟨_, List.getElem?_eq_getElem (by rw [hlength]; decide)⟩
  obtain ⟨i, -, rfl⟩ := mem_stampedStore.mp (hperm.mem_iff.mp (List.mem_of_getElem? hr))
  exact hb.first (by rw [hlength]; decide) hr rfl

end CppChat.LocalStore
