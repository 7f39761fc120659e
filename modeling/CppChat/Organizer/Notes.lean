import Mathlib.Algebra.GroupWithZero.Nat
import Mathlib.Data.Int.Order.Basic
import CppChat.Foundation.Table
import CppChat.Foundation.Transaction
import CppChat.Foundation.Transition

/-! # Notes of the account database

`SaveNote`, `GetNote` and `DeleteNote` each run one statement on the worker of the account
database. An editor hands back the id and the revision it read; a change is taken only when
the note still has that revision.
-/
namespace CppChat.Organizer
open Foundation

/-- `QChar::isSpace`. -/
def isSpace (c : Char) : Bool :=
  c.toNat ∈ [0x20, 0x85, 0xA0, 0x1680, 0x2028, 0x2029, 0x202F, 0x205F, 0x3000] ∨
    0x09 ≤ c.toNat ∧ c.toNat ≤ 0x0D ∨ 0x2000 ≤ c.toNat ∧ c.toNat ≤ 0x200A

/-- `QString::trimmed`. -/
def trimmed (text : String) : String :=
  .ofList ((text.toList.dropWhile isSpace).reverse.dropWhile isSpace).reverse

/-- `QString::size`, in UTF-16 units. -/
def utf16Size (text : String) : ℕ :=
  (text.toList.map fun c => if c.toNat < 0x10000 then 1 else 2).foldl (· + ·) 0

/-- The snapshot an editor works on; a new note has the id 0. Its revision is an `int`, the one
of the row is wider. -/
structure LocalNote where
  id : Int
  revision : Int32
  title : String
  text : Option String
  createdMs : Int
  updatedMs : Int
  deriving DecidableEq

/-- A row of `local_notes`. -/
structure NoteRow where
  id : Int
  revision : Int
  title : String
  body : String
  createdMs : Int
  updatedMs : Int
  deriving DecidableEq

/-- The table with the counter that `AUTOINCREMENT` keeps for it in `sqlite_sequence`. -/
structure NoteTable where
  notes : Keyed NoteRow NoteRow.id
  sequence : Int

namespace NoteTable

/-- `readNote`. -/
def readNote (r : NoteRow) : LocalNote :=
  ⟨r.id, .ofInt r.revision, r.title, some r.body, r.createdMs, r.updatedMs⟩

def maxRowId : ℕ := 2 ^ 63 - 1

/-- The id of an inserted row: above every id the table ever had. -/
def nextId (t : NoteTable) : Int :=
  t.notes.rows.foldl (fun m r => max m r.id) t.sequence + 1

/-- `INSERT … SELECT … WHERE (SELECT COUNT(*) FROM local_notes)<1000 RETURNING …`. -/
def insertNote (t : NoteTable) (title body : String) (now : Int) : Option (NoteRow × NoteTable) :=
  if 1000 ≤ t.notes.rows.length ∨ (maxRowId : Int) < t.nextId then none
  else
    let row : NoteRow := ⟨t.nextId, 1, title, body, now, now⟩
    (t.notes.insert row).map fun notes => (row, ⟨notes, t.nextId⟩)

/-- `UPDATE local_notes SET …,revision=revision+1,… WHERE id=? AND revision=? RETURNING …`. -/
def updateNote (t : NoteTable) (id revision : Int) (title body : String) (now : Int) :
    Option (NoteRow × NoteTable) :=
  match Keyed.lookup t.notes id with
  | none => none
  | some row =>
    if row.revision ≠ revision then none
    else
      let change (r : NoteRow) : NoteRow :=
        { r with title, body, revision := r.revision + 1, updatedMs := now }
      some (change row, { t with notes := Keyed.modify t.notes id change fun _ => rfl })

def invalidNote : String :=
  "A note needs a title (up to 80 characters) and at most 32 KiB of text"

def noteChanged : String :=
  "Note changed, was deleted, or the 1000-note limit was reached; reload before retrying"

def saveNote (t : NoteTable) (now : Int) (note : LocalNote) :
    Except String (LocalNote × NoteTable) :=
  let title := trimmed note.title
  let text := note.text.getD ""
  if note.id < 0 ∨ title = "" ∨ 80 < utf16Size note.title ∨ 32768 < text.utf8ByteSize then
    .error invalidNote
  else if note.id = 0 then
    match t.insertNote title text now with
    | none => .error noteChanged
    | some (row, t) => .ok (readNote row, t)
  else if ¬ 0 < note.revision.toInt then .error "Invalid note revision"
  else match t.updateNote note.id note.revision.toInt title text now with
    | none => .error noteChanged
    | some (row, t) => .ok (readNote row, t)

def getNote (t : NoteTable) (id : Int) : Except String LocalNote :=
  if ¬ 0 < id then .error "Invalid note"
  else match Keyed.lookup t.notes id with
    | none => .error "Note no longer exists"
    | some row => .ok (readNote row)

def deleteNote (t : NoteTable) (id revision : Int) : Except String NoteTable :=
  if ¬ (0 < id ∧ 0 < revision) then .error "Invalid note"
  else
    let goes (r : NoteRow) : Bool := r.id = id ∧ r.revision = revision
    if (t.notes.rows.filter goes).length = 1 then .ok { t with notes := t.notes.delete goes }
    else .error "Note changed or was already deleted; reload first"

end NoteTable

/-! ## Editors -/

/-- What a call does to a note: the revision it has from now on, or that it is gone. -/
structure Change where
  id : Int
  revision : Option Int
  deriving DecidableEq

inductive Operation
  | save (note : LocalNote)
  | delete (id : Int) (revision : Int32)

/-- One call of any editor; `interrupted` when the engine or the disk failed under it. -/
structure Call where
  operation : Operation
  now : Int
  interrupted : Bool

/-- The table and every change committed to it, newest first. -/
structure Book where
  table : NoteTable
  log : List Change

namespace Book

/-- The change that a save made: the row now has the revision behind the one it was saved at. -/
def saved (t : NoteTable) (note : LocalNote) : Change :=
  if note.id = 0 then ⟨t.nextId, some 1⟩ else ⟨note.id, some (note.revision.toInt + 1)⟩

def run (b : Book) (now : Int) : Operation → Except String Book
  | .save note => (b.table.saveNote now note).map fun p => ⟨p.2, saved b.table note :: b.log⟩
  | .delete id revision =>
    (b.table.deleteNote id revision.toInt).map fun t => ⟨t, ⟨id, none⟩ :: b.log⟩

def apply (b : Book) (c : Call) : Book :=
  if c.interrupted then b else commitOrRollback b (b.run c.now c.operation)

end Book

/-- Any calls of any editors, on a table that starts empty. -/
def editors : Machine Book Call where
  init b := b = ⟨⟨.empty, 0⟩, []⟩
  step b c b' := b' = b.apply c

/-! ## What a successful call did -/

namespace NoteTable
variable {t t' : NoteTable} {note result : LocalNote} {now id revision : Int}

theorem lt_nextId {r : NoteRow} (hr : r ∈ t.notes.rows) : r.id < t.nextId := by
  have hle : ∀ (l : List NoteRow) (m : Int), m ≤ l.foldl (fun m r => max m r.id) m ∧
      ∀ r ∈ l, r.id ≤ l.foldl (fun m r => max m r.id) m := by
    intro l
    induction l with
    | nil => simp
    | cons a l ih =>
      intro m
      obtain ⟨hm, hl⟩ := ih (max m a.id)
      simp only [List.foldl_cons, List.mem_cons, forall_eq_or_imp]
      exact ⟨by omega, by omega, hl⟩
  have := (hle t.notes.rows t.sequence).2 r hr
  unfold nextId
  omega

theorem sequence_lt_nextId (t : NoteTable) : t.sequence < t.nextId := by
  have hle : ∀ (l : List NoteRow) (m : Int), m ≤ l.foldl (fun m r => max m r.id) m := by
    intro l
    induction l with
    | nil => simp
    | cons a l ih =>
      intro m
      have := ih (max m a.id)
      simp only [List.foldl_cons]
      omega
  have := hle t.notes.rows t.sequence
  unfold nextId
  omega

/-- A new note has an id of its own and the revision 1. -/
theorem saveNote_new (hid : note.id = 0) (h : t.saveNote now note = .ok (result, t')) :
    t.notes.rows.length < 1000 ∧ t'.sequence = t.nextId ∧
      ∃ row, row.id = t.nextId ∧ row.revision = 1 ∧
        t'.notes.rows = t.notes.rows ++ [row] := by
  simp only [saveNote, if_pos hid, insertNote] at h
  split at h
  · cases h
  · split at h
    · cases h
    next row t'' hinsert =>
      cases h
      simp only [Option.ite_none_left_eq_some, Option.map_eq_some_iff] at hinsert
      obtain ⟨hroom, notes, hnotes, hp⟩ := hinsert
      cases hp
      have hlt : t.notes.rows.length < 1000 := by omega
      exact ⟨hlt, rfl, _, rfl, rfl, (Table.insert_eq_some.mp hnotes).2⟩

/-- A note is saved only while it has the revision that was read. -/
theorem saveNote_old (hid : note.id ≠ 0) (h : t.saveNote now note = .ok (result, t')) :
    ∃ row, row ∈ t.notes.rows ∧ row.id = note.id ∧ row.revision = note.revision.toInt ∧
      t'.sequence = t.sequence ∧
        ∃ change : NoteRow → NoteRow, (∀ r, (change r).id = r.id) ∧
          (∀ r, (change r).revision = r.revision + 1) ∧
          t'.notes.rows = t.notes.rows.map fun r => if r.id = note.id then change r else r := by
  simp only [saveNote, if_neg hid, updateNote] at h
  split at h
  · cases h
  · split at h
    · cases h
    · split at h
      · cases h
      next row t'' hupdate =>
        cases h
        split at hupdate
        · cases hupdate
        next row hrow =>
          split at hupdate
          · cases hupdate
          next hrevision =>
            cases hupdate
            obtain ⟨hmem, hkey⟩ := Keyed.lookup_eq_some.mp hrow
            have hrevision := not_not.mp hrevision
            let change (r : NoteRow) : NoteRow :=
              { r with
                title := trimmed note.title
                body := note.text.getD ""
                revision := r.revision + 1
                updatedMs := now }
            exact ⟨row, hmem, hkey, hrevision, rfl, change, fun _ => rfl, fun _ => rfl, rfl⟩

theorem deleteNote_ok (h : t.deleteNote id revision = .ok t') :
    ∃ row, row ∈ t.notes.rows ∧ row.id = id ∧ row.revision = revision ∧
      t'.sequence = t.sequence ∧ t'.notes.rows.length ≤ t.notes.rows.length ∧
      ∀ r, r ∈ t'.notes.rows ↔ r ∈ t.notes.rows ∧ r.id ≠ id := by
  unfold deleteNote at h
  dsimp only at h
  split at h
  · cases h
  next hpos =>
    split at h
    next hone =>
      cases h
      obtain ⟨row, hrow⟩ := List.length_eq_one_iff.mp hone
      have hmem : row ∈ t.notes.rows.filter fun r => r.id = id ∧ r.revision = revision := by
        rw [hrow]
        exact List.mem_singleton_self row
      simp only [List.mem_filter, decide_eq_true_eq] at hmem
      obtain ⟨hmem, hid, hrevision⟩ := hmem
      refine ⟨row, hmem, hid, hrevision, rfl, List.length_filter_le _ _, fun r => ?_⟩
      simp only [Table.mem_delete, decide_eq_false_iff_not, not_and]
      constructor
      · rintro ⟨hr, hgoes⟩
        refine ⟨hr, fun hrid => hgoes hrid ?_⟩
        rw [t.notes.eq_of_clash (fun a b h => h.symm) hr hmem (hrid.trans hid.symm), hrevision]
      · rintro ⟨hr, hrid⟩
        exact ⟨hr, fun h => absurd h hrid⟩
    next => cases h

end NoteTable

/-! ## The invariant -/

namespace Book
variable {b b' : Book} {c : Call} {id m n : Int}

/-- The last change that the log has of a note. -/
def last (b : Book) (id : Int) : Option Change := b.log.find? fun c => c.id = id

/-- Revisions of one note only rise, and nothing follows its deletion. -/
def Rises (newer older : Change) : Prop :=
  newer.id = older.id → ∃ m, older.revision = some m ∧ ∀ n, newer.revision = some n → m < n

structure Inv (b : Book) : Prop where
  room : b.table.notes.rows.length ≤ 1000
  sequence : 0 ≤ b.table.sequence
  row : ∀ r ∈ b.table.notes.rows, 0 < r.id ∧ r.id ≤ b.table.sequence ∧
    b.last r.id = some ⟨r.id, some r.revision⟩
  issued : ∀ c ∈ b.log, c.id ≤ b.table.sequence
  rises : b.log.Pairwise Rises

theorem last_cons (t t' : NoteTable) (change : Change) (log : List Change) :
    last ⟨t, change :: log⟩ id = if change.id = id then some change else last ⟨t', log⟩ id := by
  simp only [last, List.find?_cons]
  split <;> simp_all

/-- Behind the last change of a note every change of it has a revision up to this one. -/
theorem le_of_last (h : b.log.Pairwise Rises) (hlast : b.last id = some ⟨id, some m⟩)
    {c : Change} (hc : c ∈ b.log) (hid : c.id = id) : ∃ k, c.revision = some k ∧ k ≤ m := by
  obtain ⟨newer, older, hlog, hnewer⟩ := List.find?_eq_some_iff_append.mp hlast |>.2
  rw [hlog] at h hc
  rcases List.mem_append.mp hc with hc | hc
  · exact absurd hid (by simpa using hnewer c hc)
  · rcases List.mem_cons.mp hc with rfl | hc
    · exact ⟨m, rfl, le_rfl⟩
    · obtain ⟨k, hk, hlt⟩ := List.rel_of_pairwise_cons (List.pairwise_append.mp h).2.1 hc hid.symm
      exact ⟨k, hk, Int.le_of_lt (hlt m rfl)⟩

/-- A save of a new note. -/
theorem Inv.create (h : b.Inv) {t : NoteTable} {row : NoteRow}
    (hroom : b.table.notes.rows.length < 1000) (hsequence : t.sequence = b.table.nextId)
    (hid : row.id = b.table.nextId) (hrevision : row.revision = 1)
    (hrows : t.notes.rows = b.table.notes.rows ++ [row]) :
    Inv ⟨t, ⟨b.table.nextId, some 1⟩ :: b.log⟩ := by
  have hnext := b.table.sequence_lt_nextId
  have hseq := h.sequence
  constructor
  · simp only [hrows, List.length_append, List.length_singleton]
    omega
  · simp only [hsequence]
    omega
  · intro r hr
    simp only [hrows, List.mem_append, List.mem_singleton] at hr
    simp only [last_cons t b.table, hsequence]
    rcases hr with hr | rfl
    · obtain ⟨hpos, hle, hlast⟩ := h.row r hr
      rw [if_neg (by omega)]
      exact ⟨hpos, by omega, hlast⟩
    · simp only [hid, hrevision, if_true, and_true]
      omega
  · intro c hc
    simp only [hsequence]
    rcases List.mem_cons.mp hc with rfl | hc
    · exact le_rfl
    · have := h.issued c hc
      omega
  · apply List.Pairwise.cons _ h.rises
    intro older holder hsame
    have := h.issued older holder
    simp only at hsame
    omega

/-- A change of an existing note, saved at the revision of its row. -/
theorem Inv.change (h : b.Inv) {t : NoteTable} {row : NoteRow} {change : NoteRow → NoteRow}
    (hmem : row ∈ b.table.notes.rows) (hsequence : t.sequence = b.table.sequence)
    (hkey : ∀ r, (change r).id = r.id) (hnext : ∀ r, (change r).revision = r.revision + 1)
    (hrows : t.notes.rows = b.table.notes.rows.map fun r => if r.id = row.id then change r else r) :
    Inv ⟨t, ⟨row.id, some (row.revision + 1)⟩ :: b.log⟩ := by
  obtain ⟨hpos, hle, hlast⟩ := h.row row hmem
  constructor
  · simpa only [hrows, List.length_map] using h.room
  · simpa only [hsequence] using h.sequence
  · intro r hr
    simp only [hrows, List.mem_map] at hr
    simp only [last_cons t b.table, hsequence]
    obtain ⟨r, hr, rfl⟩ := hr
    by_cases hrow : r.id = row.id
    · obtain rfl := b.table.notes.eq_of_clash (fun _ _ h => h.symm) hr hmem hrow
      simp only [if_true, hkey, hnext]
      exact ⟨hpos, hle, trivial⟩
    · rw [if_neg hrow, if_neg (Ne.symm hrow)]
      exact h.row r hr
  · intro c hc
    simp only [hsequence]
    rcases List.mem_cons.mp hc with rfl | hc
    · exact hle
    · exact h.issued c hc
  · apply List.Pairwise.cons _ h.rises
    intro older holder hsame
    obtain ⟨k, hk, hkm⟩ := le_of_last h.rises hlast holder hsame.symm
    refine ⟨k, hk, fun n hn => ?_⟩
    cases hn
    omega

theorem Inv.delete (h : b.Inv) {t : NoteTable} {row : NoteRow}
    (hmem : row ∈ b.table.notes.rows) (hsequence : t.sequence = b.table.sequence)
    (hlength : t.notes.rows.length ≤ b.table.notes.rows.length)
    (hrows : ∀ r, r ∈ t.notes.rows ↔ r ∈ b.table.notes.rows ∧ r.id ≠ row.id) :
    Inv ⟨t, ⟨row.id, none⟩ :: b.log⟩ := by
  obtain ⟨hpos, hle, hlast⟩ := h.row row hmem
  constructor
  · exact Nat.le_trans hlength h.room
  · simpa only [hsequence] using h.sequence
  · intro r hr
    obtain ⟨hr, hne⟩ := (hrows r).mp hr
    simp only [last_cons t b.table, hsequence, if_neg (Ne.symm hne)]
    exact h.row r hr
  · intro c hc
    simp only [hsequence]
    rcases List.mem_cons.mp hc with rfl | hc
    · exact hle
    · exact h.issued c hc
  · apply List.Pairwise.cons _ h.rises
    intro older holder hsame
    obtain ⟨k, hk, hkm⟩ := le_of_last h.rises hlast holder hsame.symm
    exact ⟨k, hk, nofun⟩

/-! ## What one call does -/

/-- A call either leaves the book as it is, or commits one change that fits the last one. -/
inductive Did (b : Book) (c : Call) : Book → Prop
  | failed (h : c.interrupted = true ∨ ∃ e, b.run c.now c.operation = .error e) : Did b c b
  | created (note : LocalNote) (hop : c.operation = .save note) (hid : note.id = 0)
      {t : NoteTable} {row : NoteRow} (hroom : b.table.notes.rows.length < 1000)
      (hsequence : t.sequence = b.table.nextId) (hrow : row.id = b.table.nextId)
      (hrevision : row.revision = 1) (hrows : t.notes.rows = b.table.notes.rows ++ [row]) :
      Did b c ⟨t, ⟨b.table.nextId, some 1⟩ :: b.log⟩
  | saved (note : LocalNote) (hop : c.operation = .save note) (hid : note.id ≠ 0)
      {t : NoteTable} {row : NoteRow} {change : NoteRow → NoteRow}
      (hmem : row ∈ b.table.notes.rows) (hrow : row.id = note.id)
      (hrevision : row.revision = note.revision.toInt) (hsequence : t.sequence = b.table.sequence)
      (hkey : ∀ r, (change r).id = r.id) (hnext : ∀ r, (change r).revision = r.revision + 1)
      (hrows : t.notes.rows =
        b.table.notes.rows.map fun r => if r.id = row.id then change r else r) :
      Did b c ⟨t, ⟨row.id, some (row.revision + 1)⟩ :: b.log⟩
  | deleted (revision : Int32) {t : NoteTable} {row : NoteRow}
      (hop : c.operation = .delete row.id revision) (hmem : row ∈ b.table.notes.rows)
      (hrevision : row.revision = revision.toInt) (hsequence : t.sequence = b.table.sequence)
      (hlength : t.notes.rows.length ≤ b.table.notes.rows.length)
      (hrows : ∀ r, r ∈ t.notes.rows ↔ r ∈ b.table.notes.rows ∧ r.id ≠ row.id) :
      Did b c ⟨t, ⟨row.id, none⟩ :: b.log⟩

theorem did_apply (b : Book) (c : Call) : Did b c (b.apply c) := by
  unfold apply
  split
  next h => exact .failed (.inl h)
  next =>
    cases hrun : b.run c.now c.operation with
    | error e => exact .failed (.inr ⟨e, hrun⟩)
    | ok b' =>
      rw [commitOrRollback_ok]
      cases hop : c.operation with
      | save note =>
        rw [hop, run, map_eq_ok] at hrun
        obtain ⟨⟨result, t⟩, hsave, rfl⟩ := hrun
        by_cases hid : note.id = 0
        · obtain ⟨hroom, hsequence, row, hrow, hrevision, hrows⟩ := NoteTable.saveNote_new hid hsave
          rw [Book.saved, if_pos hid]
          exact .created note hop hid hroom hsequence hrow hrevision hrows
        · obtain ⟨row, hmem, hrow, hrevision, hsequence, change, hkey, hnext, hrows⟩ :=
            NoteTable.saveNote_old hid hsave
          rw [← hrow] at hrows
          rw [Book.saved, if_neg hid, ← hrow, ← hrevision]
          exact .saved note hop hid hmem hrow hrevision hsequence hkey hnext hrows
      | delete id revision =>
        rw [hop, run, map_eq_ok] at hrun
        obtain ⟨t, hdelete, rfl⟩ := hrun
        obtain ⟨row, hmem, rfl, hrevision, hsequence, hlength, hrows⟩ :=
          NoteTable.deleteNote_ok hdelete
        exact .deleted revision hop hmem hrevision hsequence hlength hrows

theorem Inv.step (h : b.Inv) (hdid : Did b c b') : b'.Inv := by
  cases hdid with
  | failed => exact h
  | created note hop hid hroom hsequence hrow hrevision hrows =>
    exact h.create hroom hsequence hrow hrevision hrows
  | saved note hop hid hmem hrow hrevision hsequence hkey hnext hrows =>
    exact h.change hmem hsequence hkey hnext hrows
  | deleted revision hop hmem hrevision hsequence hlength hrows =>
    exact h.delete hmem hsequence hlength hrows

theorem inv_invariant : editors.Invariant Inv where
  init := by
    rintro _ rfl
    exact ⟨by decide, le_rfl, nofun, nofun, .nil⟩
  step := by
    rintro b c _ - h rfl
    exact h.step (did_apply b c)

/-- The log only grows, and never again by a note it has as deleted. -/
theorem Did.log (h : b.Inv) (hdid : Did b c b') :
    b'.log = b.log ∨ ∃ change, b'.log = change :: b.log ∧ ⟨change.id, none⟩ ∉ b.log := by
  have hlive : ∀ row ∈ b.table.notes.rows, ⟨row.id, none⟩ ∉ b.log := by
    intro row hmem hgone
    obtain ⟨k, hk, -⟩ := le_of_last h.rises (h.row row hmem).2.2 hgone rfl
    cases hk
  cases hdid with
  | failed => exact .inl rfl
  | created note hop hid hroom hsequence hrow hrevision hrows =>
    refine .inr ⟨_, rfl, fun hgone => ?_⟩
    have := h.issued _ hgone
    have := b.table.sequence_lt_nextId
    dsimp only at *
    omega
  | saved note hop hid hmem hrow hrevision hsequence hkey hnext hrows =>
    exact .inr ⟨_, rfl, hlive _ hmem⟩
  | deleted revision hop hmem hrevision hsequence hlength hrows =>
    exact .inr ⟨_, rfl, hlive _ hmem⟩

theorem gone_of_run (hb : editors.Reachable b) (hrun : editors.Run b b')
    (hgone : ⟨id, none⟩ ∈ b.log) : ∃ newer, b'.log = newer ++ b.log ∧ ∀ c ∈ newer, c.id ≠ id := by
  induction hrun with
  | refl => exact ⟨[], rfl, nofun⟩
  | @tail t u hrun hnext ih =>
    obtain ⟨newer, hlog, hnewer⟩ := ih
    obtain ⟨c, rfl⟩ := hnext
    rcases (did_apply t c).log (inv_invariant.reachable (hb.run hrun)) with
      hsame | ⟨change, hlog', hlive⟩
    · exact ⟨newer, hsame.trans hlog, hnewer⟩
    · refine ⟨change :: newer, by rw [hlog', hlog, List.cons_append], fun d hd => ?_⟩
      rcases List.mem_cons.mp hd with rfl | hd
      · rintro rfl
        exact hlive (hlog ▸ List.mem_append_right newer hgone)
      · exact hnewer d hd

/-! ## What editors can rely on -/

def Succeeds (b : Book) (c : Call) (b' : Book) : Prop :=
  c.interrupted = false ∧ b.run c.now c.operation = .ok b'

theorem Succeeds.did (h : b.Succeeds c b') : Did b c b' := by
  have hdid := did_apply b c
  rwa [apply, h.1, if_neg (by decide), h.2, commitOrRollback_ok] at hdid

theorem Succeeds.not_failed (h : b.Succeeds c b') :
    ¬ (c.interrupted = true ∨ ∃ e, b.run c.now c.operation = .error e) := by
  rintro (hi | ⟨e, he⟩)
  · rw [h.1] at hi
    cases hi
  · rw [h.2] at he
    cases he

/-- What holds of a book and of the next call on it. -/
structure Safe (b : Book) : Prop where
  limit : b.table.notes.rows.length ≤ 1000
  reads : ∀ {id note}, b.table.getNote id = .ok note → ∃ row ∈ b.table.notes.rows,
    note = NoteTable.readNote row ∧ row.id = id ∧ b.last id = some ⟨id, some row.revision⟩
  failed : ∀ c, (c.interrupted = true ∨ ∃ e, b.run c.now c.operation = .error e) → b.apply c = b
  creates : ∀ {c b' note}, b.Succeeds c b' → c.operation = .save note → note.id = 0 →
    ∃ row, b'.table.notes.rows = b.table.notes.rows ++ [row] ∧
      b'.log = ⟨row.id, some row.revision⟩ :: b.log ∧
      (∀ r ∈ b.table.notes.rows, r.id ≠ row.id) ∧ ∀ change ∈ b.log, change.id ≠ row.id
  saves : ∀ {c b' note}, b.Succeeds c b' → c.operation = .save note → note.id ≠ 0 →
    b.last note.id = some ⟨note.id, some note.revision.toInt⟩ ∧
      (∀ r ∈ b.table.notes.rows, r.id ≠ note.id → r ∈ b'.table.notes.rows) ∧
      ∃ row ∈ b'.table.notes.rows, row.id = note.id ∧
        b'.log = ⟨note.id, some row.revision⟩ :: b.log ∧
        ∀ change ∈ b.log, change.id = note.id → ∃ m, change.revision = some m ∧ m < row.revision
  deletes : ∀ {c b' id revision}, b.Succeeds c b' → c.operation = .delete id revision →
    b.last id = some ⟨id, some revision.toInt⟩ ∧ b'.log = ⟨id, none⟩ :: b.log ∧
      ∀ r, r ∈ b'.table.notes.rows ↔ r ∈ b.table.notes.rows ∧ r.id ≠ id
  gone : ∀ {id b'}, ⟨id, none⟩ ∈ b.log → editors.Run b b' →
    (∃ newer, b'.log = newer ++ b.log ∧ ∀ c ∈ newer, c.id ≠ id) ∧
      ∀ r ∈ b'.table.notes.rows, r.id ≠ id

theorem notes_safe (hb : editors.Reachable b) : b.Safe := by
  have h := inv_invariant.reachable hb
  constructor
  · exact h.room
  · intro id note hread
    unfold NoteTable.getNote at hread
    split at hread
    · cases hread
    · split at hread
      · cases hread
      next row hrow =>
        cases hread
        obtain ⟨hmem, rfl⟩ := Keyed.lookup_eq_some.mp hrow
        exact ⟨row, hmem, rfl, rfl, (h.row row hmem).2.2⟩
  · rintro c (hi | ⟨e, he⟩)
    · rw [apply, if_pos hi]
    · unfold apply
      split
      · rfl
      · rw [he, commitOrRollback_error]
  · intro c b' note hok hop hid
    cases hok.did with
    | failed hfailed => exact absurd hfailed hok.not_failed
    | @created _ _ _ t row hroom hsequence hrow hrevision hrows =>
      refine ⟨row, hrows, by rw [hrow, hrevision], fun r hr hrid => ?_, fun change hc hcid => ?_⟩
      · have := NoteTable.lt_nextId hr
        omega
      · have := h.issued change hc
        have := b.table.sequence_lt_nextId
        omega
    | saved note' hop' hid' =>
      rw [hop] at hop'
      cases hop'
      exact absurd hid hid'
    | deleted revision hop' =>
      rw [hop] at hop'
      cases hop'
  · intro c b' note hok hop hid
    cases hok.did with
    | failed hfailed => exact absurd hfailed hok.not_failed
    | created note' hop' hid' =>
      rw [hop] at hop'
      cases hop'
      exact absurd hid' hid
    | @saved note' hop' _ t row change hmem hrow hrevision hsequence hkey hnext hrows =>
      rw [hop] at hop'
      cases hop'
      have hlast := (h.row row hmem).2.2
      refine ⟨?_, fun r hr hne => ?_, change row, ?_, (hkey row).trans hrow, ?_, ?_⟩
      · rw [← hrow, ← hrevision, hlast]
      · rw [hrows, List.mem_map]
        exact ⟨r, hr, if_neg (by rwa [hrow])⟩
      · rw [hrows, List.mem_map]
        exact ⟨row, hmem, if_pos rfl⟩
      · rw [hnext, hrow]
      · intro older holder hsame
        obtain ⟨k, hk, hkm⟩ := le_of_last h.rises hlast holder (hsame.trans hrow.symm)
        refine ⟨k, hk, ?_⟩
        rw [hnext]
        omega
    | deleted revision hop' =>
      rw [hop] at hop'
      cases hop'
  · intro c b' id revision hok hop
    cases hok.did with
    | failed hfailed => exact absurd hfailed hok.not_failed
    | created note' hop' =>
      rw [hop] at hop'
      cases hop'
    | saved note' hop' =>
      rw [hop] at hop'
      cases hop'
    | @deleted revision' t row hop' hmem hrevision hsequence hlength hrows =>
      rw [hop] at hop'
      cases hop'
      exact ⟨by rw [← hrevision, (h.row row hmem).2.2], rfl, hrows⟩
  · intro id b' hgone hrun
    refine ⟨gone_of_run hb hrun hgone, fun r hr hid => ?_⟩
    obtain ⟨newer, hlog, -⟩ := gone_of_run hb hrun hgone
    have hmem : ⟨id, none⟩ ∈ b'.log := hlog ▸ List.mem_append_right newer hgone
    have h' := inv_invariant.reachable (hb.run hrun)
    obtain ⟨k, hk, -⟩ := le_of_last h'.rises (h'.row r hr).2.2 hmem hid.symm
    cases hk

/-- Two editors of a note: one saves it, and the delete of the other comes too late. -/
def sampleCalls : List Call :=
  [⟨.save ⟨0, 0, "list", some "milk", 0, 0⟩, 10, false⟩,
    ⟨.save ⟨1, 1, "list", some "milk, tea", 10, 10⟩, 20, false⟩, ⟨.delete 1 1, 30, false⟩]

theorem notes_safe_sample : ∃ b, editors.Reachable b ∧ b.Safe ∧
    b.log = [⟨1, some 2⟩, ⟨1, some 1⟩] ∧
    b.table.notes.rows = [⟨1, 2, "list", "milk, tea", 10, 20⟩] := by
  let b₀ : Book := ⟨⟨.empty, 0⟩, []⟩
  have hrun : ∀ (cs : List Call) (b : Book), editors.Reachable b →
      editors.Reachable (cs.foldl apply b) := by
    intro cs
    induction cs with
    | nil => exact fun b hb => hb
    | cons c cs ih => exact fun b hb => ih _ (.step (a := c) hb rfl)
  have hreachable := hrun sampleCalls b₀ (.init rfl)
  exact ⟨sampleCalls.foldl apply b₀, hreachable, notes_safe hreachable, by decide +kernel,
    by decide +kernel⟩

end Book
end CppChat.Organizer
