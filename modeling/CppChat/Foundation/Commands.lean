import CppChat.Foundation.Counter

/-! # Counters as the server stores them

A key of the server has a value and may have an expiry. `INCR` starts a missing key at one
without any; a script that lets an `EXPIRE` follow the first `INCR` of a key never leaves it so,
and computes the counters of the keyspace.
-/
namespace CppChat.Foundation

/-- A counter with the time in milliseconds at which it goes, if any. -/
structure Entry where
  value : ℕ
  expires : Option ℕ
  deriving DecidableEq

abbrev Store (κ : Type*) := κ → Option Entry

namespace Store
variable {κ : Type*} [DecidableEq κ] {s : Store κ} {k j : κ} {now seconds : ℕ}

/-- The entry under a key, unless it is past its expiry. -/
def find (s : Store κ) (now : ℕ) (k : κ) : Option Entry :=
  (s k).filter fun e => e.expires.all (now ≤ ·)

/-- `tonumber(redis.call('GET',key) or '0')`. -/
def get (s : Store κ) (now : ℕ) (k : κ) : ℕ := ((s.find now k).map Entry.value).getD 0

def incr (s : Store κ) (now : ℕ) (k : κ) : ℕ × Store κ :=
  match s.find now k with
  | some e => (e.value + 1, Function.update s k (some { e with value := e.value + 1 }))
  | none => (1, Function.update s k (some ⟨1, none⟩))

def expire (s : Store κ) (now : ℕ) (k : κ) (seconds : ℕ) : Store κ :=
  match s.find now k with
  | some e => Function.update s k (some { e with expires := some (now + 1000 * seconds) })
  | none => s

/-- `TTL`: -2 for a missing key and -1 for one without an expiry. -/
def ttl (s : Store κ) (now : ℕ) (k : κ) : Int :=
  match s.find now k with
  | some e => e.expires.elim (-1) fun d => ((d - now + 500) / 1000 : ℕ)
  | none => -2

/-- `INCR`, and an `EXPIRE` when the count is one. -/
def hit (s : Store κ) (now : ℕ) (k : κ) (seconds : ℕ) : ℕ × Store κ :=
  let (count, s) := s.incr now k
  (count, if count = 1 then s.expire now k seconds else s)

/-- The store that holds the counters of a keyspace, each with its deadline. -/
def ofCounters (c : Keyspace κ ℕ) : Store κ := fun k =>
  (c k).map fun cell => ⟨cell.value, some cell.deadline⟩

def HasExpiry (s : Store κ) : Prop := ∀ k e, s k = some e → e.expires ≠ none

omit [DecidableEq κ] in
theorem hasExpiry_ofCounters (c : Keyspace κ ℕ) : HasExpiry (ofCounters c) := by
  intro k e h
  obtain ⟨cell, -, rfl⟩ := Option.map_eq_some_iff.mp h
  nofun

omit [DecidableEq κ] in
theorem find_ofCounters (c : Keyspace κ ℕ) (now : ℕ) (k : κ) :
    (ofCounters c).find now k =
      ((c k).filter fun cell => now ≤ cell.deadline).map fun cell =>
        ⟨cell.value, some cell.deadline⟩ := by
  unfold find ofCounters
  cases c k with
  | none => rfl
  | some cell => by_cases h : now ≤ cell.deadline <;> simp [Option.filter, h]

omit [DecidableEq κ] in
theorem get_ofCounters (c : Keyspace κ ℕ) (now : ℕ) (k : κ) :
    (ofCounters c).get now k = c.count now k := by
  rw [get, find_ofCounters, Keyspace.count, Keyspace.get]
  cases c k with
  | none => rfl
  | some cell => by_cases h : now ≤ cell.deadline <;> simp [Option.filter, h]

omit [DecidableEq κ] in
theorem ttl_ofCounters {c : Keyspace κ ℕ} {now : ℕ} {k : κ} (h : 0 < c.count now k) :
    (ofCounters c).ttl now k = c.ttl now k := by
  rw [ttl, find_ofCounters, Keyspace.ttl]
  rw [Keyspace.count, Keyspace.get] at h
  cases hk : c k with
  | none => simp [hk] at h
  | some cell =>
    by_cases hlive : now ≤ cell.deadline
    · simp [Option.filter, hlive]
    · simp [hk, hlive] at h

/-- The first hit gives a key its expiry, the later ones leave it. -/
theorem hit_ofCounters (c : Keyspace κ ℕ) (now : ℕ) (k : κ) (seconds : ℕ) :
    ((ofCounters c).hit now k seconds).2 = ofCounters (c.incr now k (1000 * seconds)) := by
  have hset : ∀ n d, ofCounters (c.set k n d) =
      Function.update (ofCounters c) k (some ⟨n, some d⟩) := by
    intro n d
    funext j
    by_cases hj : j = k
    · subst hj
      simp [ofCounters, Keyspace.set]
    · simp [ofCounters, Keyspace.set, hj]
  have hnew : ∀ s : Store κ,
      expire (Function.update s k (some ⟨1, none⟩)) now k seconds =
        Function.update s k (some ⟨1, some (now + 1000 * seconds)⟩) := by
    intro s
    simp [expire, find, Option.filter]
  rw [Keyspace.incr, hset]
  unfold hit incr
  rw [find_ofCounters, Keyspace.count, Keyspace.get]
  cases hk : c k with
  | none => simp [hnew]
  | some cell =>
    by_cases hlive : now ≤ cell.deadline
    · by_cases hzero : cell.value = 0
      · simp [Option.filter, hlive, hzero, expire, find]
      · simp [Option.filter, hlive, hzero]
    · simp [Option.filter, hlive, hnew]

end Store
end CppChat.Foundation
