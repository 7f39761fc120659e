import CppChat.Foundation.Paging

/-! # Walks over pages

A walk follows the cursor of each page until a page says that there are no more rows. A cursor
may remember only a part of its row and then stands for an earlier place than the row has. A walk
that ends has passed every row, and it repeats none exactly when no page ends with such a row.
-/
namespace CppChat.Foundation.Paging

variable {ρ γ K : Type*} [LinearOrder K]

def walk (fetch : γ → Page ρ γ) : ℕ → γ → Option (List ρ)
  | 0, _ => none
  | fuel + 1, c =>
    if (fetch c).more then (walk fetch fuel (fetch c).next).map ((fetch c).rows ++ ·)
    else some (fetch c).rows

/-- The cursors of a query stand for keys; a cursor made of a row stands for its place. -/
structure Serves (key place : ρ → K) (table : List ρ) (size : ℕ) (fetch : γ → Page ρ γ)
    (stands : γ → K → Prop) : Prop where
  rows : ∀ c k, stands c k → (fetch c).rows = (above key table k).take size
  more : ∀ c k, stands c k → ((fetch c).more = true ↔ size < (above key table k).length)
  next : ∀ c k last, stands c k → (fetch c).more = true → (fetch c).rows.getLast? = some last →
    stands (fetch c).next (place last)

/-- A property of the rows at which a page ends that is not the last one. -/
def Boundaries (size : ℕ) (P : ρ → Prop) (l : List ρ) : Prop :=
  ∀ i r, (i + 1) * size < l.length → l[(i + 1) * size - 1]? = some r → P r

variable {key place : ρ → K} {table : List ρ} {size : ℕ} {fetch : γ → Page ρ γ}
  {stands : γ → K → Prop} {c : γ} {k : K} {P : ρ → Prop} {fuel fuel' : ℕ} {rows rows' : List ρ}
  {r : ρ}

theorem walk_unique (h : walk fetch fuel c = some rows) (h' : walk fetch fuel' c = some rows') :
    rows = rows' := by
  induction fuel generalizing fuel' c rows rows' with
  | zero => cases h
  | succ fuel ih =>
    cases fuel' with
    | zero => cases h'
    | succ fuel' =>
      simp only [walk] at h h'
      split at h
      · rw [if_pos ‹_›] at h'
        obtain ⟨rest, hrest, rfl⟩ := Option.map_eq_some_iff.mp h
        obtain ⟨rest', hrest', rfl⟩ := Option.map_eq_some_iff.mp h'
        rw [ih hrest hrest']
      · rw [if_neg ‹_›] at h'
        exact Option.some_inj.mp (h.symm.trans h')

theorem Boundaries.first {l : List ρ} (h : Boundaries size P l) (hlength : size < l.length)
    (hr : l[size - 1]? = some r) : P r :=
  h 0 r (by omega) (by rwa [Nat.zero_add, Nat.one_mul])

theorem boundaries_iff (hsize : 0 < size) {l : List ρ} :
    Boundaries size P l ↔
      (size < l.length → ∀ r, l[size - 1]? = some r → P r) ∧ Boundaries size P (l.drop size) := by
  have hshift : ∀ i, size + ((i + 1) * size - 1) = (i + 1 + 1) * size - 1 := by
    intro i
    have : size ≤ (i + 1) * size := Nat.le_mul_of_pos_left size i.succ_pos
    rw [Nat.add_mul (i + 1)]
    omega
  constructor
  · intro h
    refine ⟨fun hlength r hr => h.first hlength hr, fun i r hi hr => ?_⟩
    rw [List.length_drop] at hi
    rw [List.getElem?_drop, hshift] at hr
    refine h (i + 1) r ?_ hr
    rw [Nat.add_mul (i + 1)]
    omega
  · rintro ⟨hfirst, hrest⟩ i r hi hr
    cases i with
    | zero =>
      rw [Nat.zero_add, Nat.one_mul] at hi hr
      exact hfirst hi r hr
    | succ i =>
      refine hrest i r ?_ ?_
      · rw [List.length_drop]
        rw [Nat.add_mul (i + 1)] at hi
        omega
      · rwa [List.getElem?_drop, hshift]

/-- The last row of a page that is not the last page. -/
theorem getLast_take (hsize : 0 < size) {l : List ρ} (h : size < l.length) :
    (l.take size).getLast? = l[size - 1]? := by
  rw [List.getLast?_eq_getElem?, List.length_take, Nat.min_eq_left h.le,
    List.getElem?_take_of_lt (by omega)]

/-- What is above the key of the last row of a page. -/
theorem above_last (htable : table.Pairwise fun a b => key a ≠ key b) (hsize : 0 < size)
    (h : (above key table k)[size - 1]? = some r) :
    above key table (key r) = (above key table k).drop size := by
  have : Std.Irrefl fun a b : ρ => key a < key b := ⟨fun a => lt_irrefl (key a)⟩
  have hsorted : (above key table k).Pairwise fun a b => key a < key b := above_pairwise htable
  refine List.Pairwise.eq_of_mem_iff (r := fun a b => key a < key b) (above_pairwise htable)
    (hsorted.sublist (List.drop_sublist _ _)) fun x => ?_
  obtain ⟨hlt, hget⟩ := List.getElem?_eq_some_iff.mp h
  have hr : r ∈ (above key table k).take size := by
    rw [List.mem_take_iff_getElem]
    exact ⟨size - 1, by omega, hget⟩
  rw [← List.take_append_drop size (above key table k), List.pairwise_append] at hsorted
  have hk : k < key r := (mem_above.mp (List.mem_of_mem_take hr)).2
  constructor
  · intro hx
    obtain ⟨hx, hlt⟩ := mem_above.mp hx
    have hmem : x ∈ above key table k := mem_above.mpr ⟨hx, hk.trans hlt⟩
    rw [← List.take_append_drop size (above key table k), List.mem_append] at hmem
    refine hmem.resolve_left fun hx => ?_
    obtain ⟨i, hi, hxi⟩ := List.mem_take_iff_getElem.mp hx
    have hle : key x ≤ key r := by
      rcases Nat.lt_or_ge i (size - 1) with hlt' | hge
      · have hsorted : (above key table k).Pairwise fun a b => key a < key b :=
          above_pairwise htable
        have := List.pairwise_iff_getElem.mp hsorted i (size - 1) (by omega) (by omega) hlt'
        rw [hxi, hget] at this
        exact this.le
      · have hieq : i = size - 1 := by omega
        subst hieq
        rw [← hxi, hget]
    exact absurd hlt (not_lt.mpr hle)
  · intro hx
    exact mem_above.mpr ⟨(mem_above.mp (List.mem_of_mem_drop hx)).1, hsorted.2.2 r hr x hx⟩

namespace Serves

variable (h : Serves key place table size fetch stands)
include h

/-- Behind a page that is not the last one the cursor stands for the place of its last row. -/
theorem step (hsize : 0 < size) (hc : stands c k) (hmore : (fetch c).more = true) :
    ∃ last, (above key table k)[size - 1]? = some last ∧ stands (fetch c).next (place last) := by
  have hlength := (h.more c k hc).mp hmore
  obtain ⟨last, hlast⟩ : ∃ last, (above key table k)[size - 1]? = some last :=
    ⟨_, List.getElem?_eq_getElem (by omega)⟩
  refine ⟨last, hlast, h.next c k last hc hmore ?_⟩
  rw [h.rows c k hc, getLast_take hsize hlength, hlast]

theorem rows_of_last (hc : stands c k) (hmore : (fetch c).more ≠ true) :
    (fetch c).rows = above key table k := by
  rw [h.rows c k hc]
  exact List.take_of_length_le (not_lt.mp fun hlt => hmore ((h.more c k hc).mpr hlt))

/-- Where the pages end with rows whose cursors stand for their keys, a walk returns all rows
in order. -/
theorem walk_of_boundaries (htable : table.Pairwise fun a b => key a ≠ key b) (hsize : 0 < size)
    (hc : stands c k) (hb : Boundaries size (fun r => place r = key r) (above key table k)) :
    ∃ fuel, walk fetch fuel c = some (above key table k) := by
  induction hn : (above key table k).length using Nat.strong_induction_on generalizing c k with
  | _ n ih =>
    subst hn
    by_cases hmore : (fetch c).more = true
    · obtain ⟨last, hlast, hnext⟩ := h.step hsize hc hmore
      have hlength := (h.more c k hc).mp hmore
      obtain ⟨hfirst, hrest⟩ := (boundaries_iff hsize).mp hb
      have hdrop := above_last htable hsize hlast
      rw [hfirst hlength last hlast] at hnext
      rw [← hdrop] at hrest
      have hlt : (above key table (key last)).length < (above key table k).length := by
        rw [hdrop, List.length_drop]
        omega
      obtain ⟨fuel, hwalk⟩ := ih _ hlt hnext hrest rfl
      refine ⟨fuel + 1, ?_⟩
      rw [walk, if_pos hmore, hwalk, Option.map_some, h.rows c k hc, hdrop,
        List.take_append_drop]
    · exact ⟨1, by rw [walk, if_neg hmore, h.rows_of_last hc hmore]⟩

/-- A walk that ends has passed every row above its start. -/
theorem mem_of_walk (htable : table.Pairwise fun a b => key a ≠ key b) (hsize : 0 < size)
    (hback : ∀ r ∈ table, place r ≤ key r) (hc : stands c k)
    (hwalk : walk fetch fuel c = some rows) (hr : r ∈ above key table k) : r ∈ rows := by
  induction fuel generalizing c k rows with
  | zero => cases hwalk
  | succ fuel ih =>
    rw [walk] at hwalk
    split at hwalk
    · obtain ⟨last, hlast, hnext⟩ := h.step hsize hc ‹_›
      obtain ⟨rest, hrest, rfl⟩ := Option.map_eq_some_iff.mp hwalk
      have hmem := (mem_above.mp (List.mem_of_getElem? hlast)).1
      rw [← List.take_append_drop size (above key table k), List.mem_append,
        ← above_last htable hsize hlast] at hr
      rw [List.mem_append, h.rows c k hc]
      refine hr.imp_right fun hr => ih hnext hrest ?_
      obtain ⟨hr, hlt⟩ := mem_above.mp hr
      exact mem_above.mpr ⟨hr, (hback last hmem).trans_lt hlt⟩
    · rw [← Option.some_inj.mp hwalk, h.rows_of_last hc ‹_›]
      exact hr

/-- A walk that repeats no row ends its pages with rows whose cursors stand for their keys. -/
theorem boundaries_of_walk (htable : table.Pairwise fun a b => key a ≠ key b) (hsize : 0 < size)
    (hback : ∀ r ∈ table, place r ≤ key r) (hc : stands c k)
    (hwalk : walk fetch fuel c = some rows) (hrows : rows.Nodup) :
    Boundaries size (fun r => place r = key r) (above key table k) := by
  induction fuel generalizing c k rows with
  | zero => cases hwalk
  | succ fuel ih =>
    rw [walk] at hwalk
    split at hwalk
    · rename_i hmore
      obtain ⟨last, hlast, hnext⟩ := h.step hsize hc hmore
      obtain ⟨rest, hrest, rfl⟩ := Option.map_eq_some_iff.mp hwalk
      have hmem := (mem_above.mp (List.mem_of_getElem? hlast)).1
      have hplace : place last = key last := by
        refine (hback last hmem).lt_or_eq.resolve_left fun hlt => ?_
        have hagain := h.mem_of_walk htable hsize hback hnext hrest (mem_above.mpr ⟨hmem, hlt⟩)
        refine (List.nodup_append.mp hrows).2.2 last ?_ last hagain rfl
        refine List.mem_of_getLast? ?_
        rw [h.rows c k hc, getLast_take hsize ((h.more c k hc).mp hmore), hlast]
      rw [boundaries_iff hsize, ← above_last htable hsize hlast]
      rw [hplace] at hnext
      refine ⟨fun _ r hr => ?_, ih hnext hrest (List.nodup_append.mp hrows).2.1⟩
      rw [← Option.some_inj.mp (hlast.symm.trans hr)]
      exact hplace
    · rename_i hmore
      intro i r hi
      have hle : (above key table k).length ≤ size :=
        not_lt.mp fun hlt => hmore ((h.more c k hc).mpr hlt)
      have : size ≤ (i + 1) * size := Nat.le_mul_of_pos_left size i.succ_pos
      omega

end Serves
end CppChat.Foundation.Paging
