import Mathlib.Data.List.Sort
import Mathlib.Order.Defs.LinearOrder

/-! # Pages behind a cursor

A page holds the first rows whose key is above a cursor. One row more is read to see whether
there are others, and the cursor of the next page is the key of the last row. Pages that follow
each other miss no row and repeat none.
-/
namespace CppChat.Foundation.Paging

variable {ρ K : Type*} [LinearOrder K]

structure Page (ρ K : Type*) where
  rows : List ρ
  more : Bool
  next : K

variable (key : ρ → K)

/-- `WHERE key > ? ORDER BY key`. -/
def above (table : List ρ) (cursor : K) : List ρ :=
  (table.filter fun r => cursor < key r).insertionSort fun a b => key a ≤ key b

/-- `LIMIT size + 1`, of which `size` are kept. -/
def page (table : List ρ) (size : ℕ) (cursor : K) : Page ρ K where
  rows := (above key table cursor).take size
  more := size < ((above key table cursor).take (size + 1)).length
  next := ((((above key table cursor).take size).getLast?).map key).getD cursor

variable {key} {table : List ρ} {size : ℕ} {cursor : K} {r : ρ}

theorem mem_above : r ∈ above key table cursor ↔ r ∈ table ∧ cursor < key r := by
  simp [above]

/-- With different keys in a table, what is above a cursor ascends strictly. -/
theorem above_pairwise (h : table.Pairwise fun a b => key a ≠ key b) :
    (above key table cursor).Pairwise fun a b => key a < key b := by
  have : Std.Total fun a b : ρ => key a ≤ key b := ⟨fun a b => le_total (key a) (key b)⟩
  have : IsTrans ρ fun a b => key a ≤ key b := ⟨fun _ _ _ => le_trans⟩
  have hle : (above key table cursor).Pairwise fun a b => key a ≤ key b :=
    List.pairwise_insertionSort _ _
  have hne : (above key table cursor).Pairwise fun a b => key a ≠ key b :=
    (List.perm_insertionSort _ _).symm.pairwise (h.filter _) fun hne => hne.symm
  exact (hle.and hne).imp fun h => lt_of_le_of_ne h.1 h.2

theorem page_pairwise (h : table.Pairwise fun a b => key a ≠ key b) :
    (page key table size cursor).rows.Pairwise fun a b => key a < key b :=
  (above_pairwise h).sublist (List.take_sublist _ _)

theorem lt_of_mem_page (hr : r ∈ (page key table size cursor).rows) : cursor < key r :=
  (mem_above.mp (List.mem_of_mem_take hr)).2

theorem more_iff : (page key table size cursor).more = true ↔
    size < (above key table cursor).length := by
  simp only [page, decide_eq_true_eq, List.length_take]
  omega

theorem rows_of_not_more (h : (page key table size cursor).more = false) :
    (page key table size cursor).rows = above key table cursor := by
  refine List.take_of_length_le ?_
  rw [← not_lt, ← more_iff, h]
  exact Bool.false_ne_true

/-- Where there are others, the cursor is the key of the last row. -/
theorem next_of_more (hsize : 0 < size) (h : (page key table size cursor).more = true) :
    ∃ last ∈ (page key table size cursor).rows, (page key table size cursor).next = key last ∧
      ∃ front, (page key table size cursor).rows = front ++ [last] := by
  have hlength : 0 < (page key table size cursor).rows.length := by
    have := more_iff.mp h
    simp only [page, List.length_take]
    omega
  have hne : (page key table size cursor).rows ≠ [] := List.ne_nil_of_length_pos hlength
  refine ⟨_, List.getLast_mem hne, ?_, _, (List.dropLast_append_getLast hne).symm⟩
  show (((page key table size cursor).rows.getLast?).map key).getD cursor = _
  rw [List.getLast?_eq_getLast_of_ne_nil hne]
  rfl

theorem cursor_lt_next (hsize : 0 < size) (h : (page key table size cursor).more = true) :
    cursor < (page key table size cursor).next := by
  obtain ⟨last, hlast, hnext, -⟩ := next_of_more hsize h
  rw [hnext]
  exact lt_of_mem_page hlast

theorem le_next_of_mem (htable : table.Pairwise fun a b => key a ≠ key b) (hsize : 0 < size)
    (h : (page key table size cursor).more = true)
    (hr : r ∈ (page key table size cursor).rows) : key r ≤ (page key table size cursor).next := by
  obtain ⟨last, -, hnext, front, hfront⟩ := next_of_more hsize h
  have hpairwise : (page key table size cursor).rows.Pairwise fun a b => key a < key b :=
    page_pairwise htable
  rw [hfront, List.pairwise_append] at hpairwise
  rw [hfront, List.mem_append, List.mem_singleton] at hr
  rw [hnext]
  rcases hr with hr | rfl
  · exact (hpairwise.2.2 r hr last (List.mem_singleton_self _)).le
  · exact le_rfl

/-- A row above the cursor is on the page or above the next cursor. -/
theorem mem_page_or_above (htable : table.Pairwise fun a b => key a ≠ key b) (hsize : 0 < size)
    (h : (page key table size cursor).more = true) :
    r ∈ above key table cursor ↔ r ∈ (page key table size cursor).rows ∨
      r ∈ above key table (page key table size cursor).next := by
  constructor
  · intro hr
    obtain ⟨last, hlast, hnext, -⟩ := next_of_more hsize h
    rw [← List.take_append_drop size (above key table cursor), List.mem_append] at hr
    refine hr.imp id fun hr => ?_
    have hpairwise : (above key table cursor).Pairwise fun a b => key a < key b :=
      above_pairwise htable
    rw [← List.take_append_drop size (above key table cursor), List.pairwise_append] at hpairwise
    rw [mem_above, hnext]
    exact ⟨(mem_above.mp (List.mem_of_mem_drop hr)).1, hpairwise.2.2 last hlast r hr⟩
  · rintro (hr | hr)
    · exact List.mem_of_mem_take hr
    · exact mem_above.mpr ⟨(mem_above.mp hr).1,
        (cursor_lt_next hsize h).trans (mem_above.mp hr).2⟩

end CppChat.Foundation.Paging
