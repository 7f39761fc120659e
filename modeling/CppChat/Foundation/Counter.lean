import Mathlib.Data.List.Count
import CppChat.Foundation.Expiring

/-! # Counters with a limited life

The first `INCR` of a key starts a life of fixed length, later ones count within it. While
a key is only raised below a limit, no life of it sees more hits than the limit.
-/
namespace CppChat.Foundation

namespace Keyspace
variable {κ : Type*} {s : Keyspace κ ℕ} {k j : κ} {now ttl : ℕ}

/-- The count of a key; a key that is gone counts as zero. -/
def count (s : Keyspace κ ℕ) (now : ℕ) (k : κ) : ℕ := (s.get now k).getD 0

theorem count_congr {t : Keyspace κ ℕ} (h : t k = s k) : t.count now k = s.count now k := by
  rw [count, get_congr h, count]

theorem count_of_live {c : Cell ℕ} (hc : s k = some c) (hlive : now ≤ c.deadline) :
    s.count now k = c.value := by
  rw [count, get_eq_some.mpr ⟨c.deadline, hc, hlive⟩, Option.getD_some]

/-- A count above zero is the one of a stored cell. -/
theorem cell_of_count (h : 0 < s.count now k) :
    ∃ cell, s k = some cell ∧ now ≤ cell.deadline ∧ s.count now k = cell.value := by
  rw [count] at h ⊢
  cases hget : s.get now k with
  | none => simp [hget] at h
  | some n =>
    obtain ⟨d, hcell, hle⟩ := get_eq_some.mp hget
    exact ⟨⟨n, d⟩, hcell, hle, rfl⟩

variable [DecidableEq κ]

/-- `INCR`, with an `EXPIRE` when the key starts at one. -/
def incr (s : Keyspace κ ℕ) (now : ℕ) (k : κ) (ttl : ℕ) : Keyspace κ ℕ :=
  let count := s.count now k + 1
  s.set k count (if count = 1 then now + ttl else ((s k).map Cell.deadline).getD 0)

theorem incr_of_ne (h : j ≠ k) : s.incr now k ttl j = s j := set_of_ne h

theorem incr_congr {t : Keyspace κ ℕ} (h : t k = s k) :
    t.incr now k ttl k = s.incr now k ttl k := by
  simp only [incr, set_self, count_congr h, h]

theorem incr_new (h : s.count now k = 0) : s.incr now k ttl k = some ⟨1, now + ttl⟩ := by
  simp [incr, h]

theorem incr_live {c : Cell ℕ} (hc : s k = some c) (hlive : now ≤ c.deadline)
    (hpos : 0 < c.value) : s.incr now k ttl k = some ⟨c.value + 1, c.deadline⟩ := by
  have hne : c.value ≠ 0 := Nat.pos_iff_ne_zero.mp hpos
  simp [incr, count_of_live hc hlive, hc, hne]

theorem count_incr : (s.incr now k ttl).count now k = s.count now k + 1 := by
  by_cases hzero : s.count now k = 0
  · rw [count_of_live (incr_new hzero) (Nat.le_add_right _ _), hzero]
  · have hpos := Nat.pos_of_ne_zero hzero
    obtain ⟨cell, hcell, hle, hvalue⟩ := cell_of_count hpos
    rw [count_of_live (incr_live hcell hle (hvalue ▸ hpos)) hle, hvalue]

end Keyspace

/-- The hits in the life that starts at a time. -/
def hitsWithin (ttl start : ℕ) (hits : List ℕ) : ℕ :=
  hits.countP fun t => start ≤ t ∧ t ≤ start + ttl

theorem hitsWithin_cons_of_mem {ttl start t : ℕ} {hits : List ℕ} (h : start ≤ t)
    (h' : t ≤ start + ttl) : hitsWithin ttl start (t :: hits) = hitsWithin ttl start hits + 1 := by
  rw [hitsWithin, List.countP_cons_of_pos (by simp [h, h']), hitsWithin]

theorem hitsWithin_cons_of_later {ttl start t : ℕ} {hits : List ℕ} (h : start + ttl < t) :
    hitsWithin ttl start (t :: hits) = hitsWithin ttl start hits := by
  rw [hitsWithin, List.countP_cons_of_neg (by simp; omega), hitsWithin]

/-- The life that a cell is in. -/
structure Life (ttl start : ℕ) (c : Cell ℕ) (births hits : List ℕ) : Prop where
  deadline : c.deadline = start + ttl
  positive : 0 < c.value
  mem : start ∈ births
  latest : ∀ b ∈ births, b ≠ start → b + ttl < start
  within : ∀ t ∈ hits, t ≤ c.deadline
  counted : hitsWithin ttl start hits = c.value

/-- A cell that was only raised below its limit, with the births of its lives and its hits. -/
structure Window (limit ttl now : ℕ) (cell : Option (Cell ℕ)) (births hits : List ℕ) :
    Prop where
  past : ∀ t ∈ births ++ hits, t ≤ now
  bounded : ∀ b ∈ births, hitsWithin ttl b hits ≤ limit
  unborn : cell = none → births = [] ∧ hits = []
  life : ∀ c, cell = some c → ∃ start, Life ttl start c births hits

namespace Window
variable {limit ttl now : ℕ} {cell : Option (Cell ℕ)} {births hits : List ℕ}

theorem nil (limit ttl now : ℕ) : Window limit ttl now none [] [] where
  past := by simp
  bounded := by simp
  unborn _ := ⟨rfl, rfl⟩
  life _ h := by cases h

theorem later {later : ℕ} (h : Window limit ttl now cell births hits) (hle : now ≤ later) :
    Window limit ttl later cell births hits :=
  { h with past := fun t ht => Nat.le_trans (h.past t ht) hle }

/-- Everything happened before the deadline of the cell. -/
theorem ended (h : Window limit ttl now cell births hits)
    (hdead : ∀ c, cell = some c → c.deadline < now) :
    (∀ b ∈ births, b + ttl < now) ∧ ∀ t ∈ hits, t < now := by
  cases cell with
  | none =>
    obtain ⟨rfl, rfl⟩ := h.unborn rfl
    simp
  | some c =>
    obtain ⟨start, hlife⟩ := h.life c rfl
    have hc := hdead c rfl
    have hd := hlife.deadline
    refine ⟨fun b hb => ?_, fun t ht => ?_⟩
    · by_cases hbs : b = start
      · omega
      · have := hlife.latest b hb hbs
        omega
    · have := hlife.within t ht
      omega

/-- The first hit after the end of a life starts the next one. -/
theorem born (h : Window limit ttl now cell births hits) (hlimit : 0 < limit)
    (hdead : ∀ c, cell = some c → c.deadline < now) :
    Window limit ttl now (some ⟨1, now + ttl⟩) (now :: births) (now :: hits) := by
  obtain ⟨hbirths, hhits⟩ := h.ended hdead
  have hnew : hitsWithin ttl now (now :: hits) = 1 := by
    rw [hitsWithin_cons_of_mem (Nat.le_refl _) (Nat.le_add_right _ _), hitsWithin,
      List.countP_eq_zero.mpr]
    intro t ht
    have := hhits t ht
    simp
    omega
  refine ⟨fun t ht => ?_, fun b hb => ?_, nofun, fun c hc => ⟨now, ?_⟩⟩
  · simp only [List.cons_append, List.mem_cons, List.mem_append] at ht
    rcases ht with rfl | ht | rfl | ht
    · exact Nat.le_refl _
    · exact h.past t (List.mem_append_left _ ht)
    · exact Nat.le_refl _
    · exact h.past t (List.mem_append_right _ ht)
  · rcases List.mem_cons.mp hb with rfl | hb
    · rw [hnew]
      exact hlimit
    · rw [hitsWithin_cons_of_later (hbirths b hb)]
      exact h.bounded b hb
  · cases hc
    refine ⟨rfl, Nat.one_pos, List.mem_cons_self, fun b hb hne => ?_, fun t ht => ?_, hnew⟩
    · exact hbirths b ((List.mem_cons.mp hb).resolve_left hne)
    · rcases List.mem_cons.mp ht with rfl | ht
      · exact Nat.le_add_right _ _
      · exact Nat.le_trans (Nat.le_of_lt (hhits t ht)) (Nat.le_add_right _ _)

/-- A hit within a life counts for this life alone. -/
theorem hit {c : Cell ℕ} (h : Window limit ttl now (some c) births hits)
    (hlive : now ≤ c.deadline) (hlimit : c.value < limit) :
    Window limit ttl now (some ⟨c.value + 1, c.deadline⟩) births (now :: hits) := by
  obtain ⟨start, hlife⟩ := h.life c rfl
  have hd := hlife.deadline
  have hstart : start ≤ now := h.past start (List.mem_append_left _ hlife.mem)
  have hcount : hitsWithin ttl start (now :: hits) = c.value + 1 := by
    rw [hitsWithin_cons_of_mem hstart (by omega), hlife.counted]
  refine ⟨fun t ht => ?_, fun b hb => ?_, nofun, fun c' hc' => ⟨start, ?_⟩⟩
  · simp only [List.mem_append, List.mem_cons] at ht
    rcases ht with ht | rfl | ht
    · exact h.past t (List.mem_append_left _ ht)
    · exact Nat.le_refl _
    · exact h.past t (List.mem_append_right _ ht)
  · by_cases hbs : b = start
    · rw [hbs, hcount]
      exact hlimit
    · have hbefore := hlife.latest b hb hbs
      rw [hitsWithin_cons_of_later (by omega)]
      exact h.bounded b hb
  · cases hc'
    refine ⟨hd, Nat.succ_pos _, hlife.mem, hlife.latest, fun t ht => ?_, hcount⟩
    rcases List.mem_cons.mp ht with rfl | ht
    · exact hlive
    · exact hlife.within t ht

end Window

/-- Raising a key below its limit keeps its windows. -/
theorem Window.incr {κ : Type*} [DecidableEq κ] {s : Keyspace κ ℕ} {k : κ}
    {limit ttl now : ℕ} {births hits : List ℕ} (h : Window limit ttl now (s k) births hits)
    (hlimit : s.count now k < limit) :
    Window limit ttl now (s.incr now k ttl k)
      (if s.count now k = 0 then now :: births else births) (now :: hits) := by
  by_cases hlive : ∃ c, s k = some c ∧ now ≤ c.deadline
  · obtain ⟨c, hc, hle⟩ := hlive
    have hcount := Keyspace.count_of_live hc hle
    obtain ⟨start, hlife⟩ := h.life c hc
    rw [Keyspace.incr_live hc hle hlife.positive,
      if_neg (hcount ▸ Nat.pos_iff_ne_zero.mp hlife.positive)]
    rw [hc] at h
    exact h.hit hle (hcount ▸ hlimit)
  · have hzero : s.count now k = 0 := by
      unfold Keyspace.count
      cases hget : s.get now k with
      | none => rfl
      | some n =>
        obtain ⟨d, hd, hle⟩ := Keyspace.get_eq_some.mp hget
        exact absurd ⟨⟨n, d⟩, hd, hle⟩ hlive
    rw [Keyspace.incr_new hzero, if_pos hzero]
    refine h.born (by omega) fun c hc => Nat.lt_of_not_le fun hle => hlive ⟨c, hc, hle⟩

/-- The lives of a key do not overlap, and every hit falls into one. -/
structure Lives (limit ttl : ℕ) (births hits : List ℕ) : Prop where
  spaced : births.Pairwise fun newer older => older + ttl < newer
  covered : ∀ t ∈ hits, ∃ b ∈ births, b ≤ t ∧ t ≤ b + ttl
  single : limit = 1 → hits = births

theorem Lives.nil (limit ttl : ℕ) : Lives limit ttl [] [] := ⟨.nil, by simp, fun _ => rfl⟩

theorem Lives.incr {κ : Type*} [DecidableEq κ] {s : Keyspace κ ℕ} {k : κ}
    {limit ttl now : ℕ} {births hits : List ℕ} (h : Lives limit ttl births hits)
    (hw : Window limit ttl now (s k) births hits) (hlimit : s.count now k < limit) :
    Lives limit ttl (if s.count now k = 0 then now :: births else births) (now :: hits) := by
  by_cases hlive : ∃ c, s k = some c ∧ now ≤ c.deadline
  · obtain ⟨c, hc, hle⟩ := hlive
    obtain ⟨start, hlife⟩ := hw.life c hc
    have hcount := Keyspace.count_of_live hc hle
    have hpos := hlife.positive
    rw [if_neg (by omega)]
    refine ⟨h.spaced, fun t ht => ?_, fun hone => by omega⟩
    rcases List.mem_cons.mp ht with rfl | ht
    · have hdeadline := hlife.deadline
      exact ⟨start, hlife.mem, hw.past start (List.mem_append_left _ hlife.mem), by omega⟩
    · exact h.covered t ht
  · -- the key is gone, and all its lives are over
    have hdead : ∀ c, s k = some c → c.deadline < now := fun c hc =>
      Nat.lt_of_not_le fun hle => hlive ⟨c, hc, hle⟩
    have hzero : s.count now k = 0 := by
      unfold Keyspace.count Keyspace.get
      cases hk : s k with
      | none => rfl
      | some c => simp [Nat.not_le.mpr (hdead c hk)]
    rw [if_pos hzero]
    refine ⟨.cons (hw.ended hdead).1 h.spaced, fun t ht => ?_, fun hone => ?_⟩
    · rcases List.mem_cons.mp ht with rfl | ht
      · exact ⟨t, List.mem_cons_self, Nat.le_refl _, Nat.le_add_right _ _⟩
      · obtain ⟨b, hb, hbt⟩ := h.covered t ht
        exact ⟨b, List.mem_cons_of_mem _ hb, hbt⟩
    · rw [h.single hone]

end CppChat.Foundation
