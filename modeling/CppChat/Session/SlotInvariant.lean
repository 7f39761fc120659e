import Mathlib.Data.List.Nodup
import CppChat.Session.Slots

/-! # The invariant of the slots

The three keys of a slot are written, extended and deleted together, so they are vacant or
hold one registration with one deadline. A credential is pending until it is consumed, and
then lives in one slot at most.
-/
namespace CppChat.Session
open Foundation
namespace State

variable {s s' : State} {u uid : ℕ} {d device : Device} {r : Registration} {session t : String}

def consumed (s : State) : List String := s.registrations.map Registration.token

def Vacant (s : State) (u : ℕ) (d : Device) : Prop :=
  s.keys (.session u d) = none ∧ s.keys (.resource u d) = none ∧ s.keys (.node u d) = none

/-- The slot holds what the `i`-th registration wrote. -/
structure Holds (s : State) (u : ℕ) (d : Device) (i : ℕ) (r : Registration) (deadline : ℕ) :
    Prop where
  registered : s.registrations[i]? = some r
  slot : r.uid = u ∧ r.device = d
  session : s.keys (.session u d) = some ⟨⟨r.session, i⟩, deadline⟩
  resource : s.keys (.resource u d) = some ⟨⟨r.token, i⟩, deadline⟩
  node : s.keys (.node u d) = some ⟨⟨r.node, i⟩, deadline⟩

structure Inv (s : State) : Prop where
  slot : ∀ u d, s.Vacant u d ∨ ∃ i r deadline, s.Holds u d i r deadline
  sessions : (s.registrations.map Registration.session).Nodup
  owner : ∀ t u u', (t, u) ∈ s.issued → (t, u') ∈ s.issued → u = u'
  pendingUser : ∀ u t, s.text? (.pendingUser u) = some t → (t, u) ∈ s.issued ∧ t ∉ s.consumed
  pendingToken : ∀ u t t', s.text? (.pendingToken u t) = some t' →
    t' = t ∧ (t, u) ∈ s.issued ∧ t ∉ s.consumed
  spent : ∀ t ∈ s.consumed, t ∈ s.issued.map Prod.fst
  home : ∀ r ∈ s.registrations, ∀ r' ∈ s.registrations, r.token = r'.token →
    r.uid = r'.uid ∧ r.device = r'.device
  resource : ∀ u d u' d' c c', s.keys (.resource u d) = some c →
    s.keys (.resource u' d') = some c' → c.value.text = c'.value.text → u = u' ∧ d = d'

theorem text?_congr {k : Key} (hk : s'.keys k = s.keys k) (hc : s'.clock = s.clock) :
    s'.text? k = s.text? k := by
  rw [text?, text?, hc, Keyspace.get_congr hk]

theorem text?_eq_some {k : Key} : s.text? k = some t ↔
    ∃ writer deadline, s.keys k = some ⟨⟨t, writer⟩, deadline⟩ ∧ s.clock ≤ deadline := by
  simp only [text?, Option.map_eq_some_iff, Keyspace.get_eq_some]
  constructor
  · rintro ⟨⟨_, writer⟩, ⟨deadline, hk, hle⟩, rfl⟩
    exact ⟨writer, deadline, hk, hle⟩
  · rintro ⟨writer, deadline, hk, hle⟩
    exact ⟨⟨t, writer⟩, ⟨deadline, hk, hle⟩, rfl⟩

theorem Holds.mono {i deadline : ℕ} (h : s.Holds u d i r deadline)
    (hreg : s.registrations <+: s'.registrations)
    (hs : s'.keys (.session u d) = s.keys (.session u d))
    (hr : s'.keys (.resource u d) = s.keys (.resource u d))
    (hn : s'.keys (.node u d) = s.keys (.node u d)) : s'.Holds u d i r deadline := by
  obtain ⟨l, hl⟩ := hreg
  refine ⟨?_, h.slot, hs.trans h.session, hr.trans h.resource, hn.trans h.node⟩
  rw [← hl, List.getElem?_append_left (List.getElem?_eq_some_iff.mp h.registered).1]
  exact h.registered

/-- A slot whose keys are untouched stays what it is. -/
theorem Inv.slot_keep (h : s.Inv) (hreg : s.registrations <+: s'.registrations)
    (hs : s'.keys (.session u d) = s.keys (.session u d))
    (hr : s'.keys (.resource u d) = s.keys (.resource u d))
    (hn : s'.keys (.node u d) = s.keys (.node u d)) :
    s'.Vacant u d ∨ ∃ i r deadline, s'.Holds u d i r deadline := by
  rcases h.slot u d with hv | ⟨i, r, deadline, hh⟩
  · exact .inl ⟨hs.trans hv.1, hr.trans hv.2.1, hn.trans hv.2.2⟩
  · exact .inr ⟨i, r, deadline, hh.mono hreg hs hr hn⟩

theorem Inv.token_consumed (h : s.Inv) {c : Cell Value} (hc : s.keys (.resource u d) = some c) :
    c.value.text ∈ s.consumed := by
  rcases h.slot u d with hv | ⟨i, r, deadline, hh⟩
  · rw [hv.2.1] at hc
    cases hc
  · rw [hh.resource] at hc
    cases hc
    exact List.mem_map_of_mem (List.mem_of_getElem? hh.registered)

/-! ## The scripts, key by key -/

/-- The keys after a registration that was accepted. -/
theorem register_keys (s : State) (r : Registration) (k : Key) :
    ((s.publish r).consume r.uid r.token).keys k =
      match k with
      | .pendingUser u =>
        if u = r.uid ∧ s.text? (.pendingUser r.uid) = some r.token then none else s.keys k
      | .pendingToken u t => if u = r.uid ∧ t = r.token then none else s.keys k
      | .session u d => if u = r.uid ∧ d = r.device then
          some ⟨⟨r.session, s.registrations.length⟩, s.clock + activeSessionMs⟩ else s.keys k
      | .resource u d => if u = r.uid ∧ d = r.device then
          some ⟨⟨r.token, s.registrations.length⟩, s.clock + activeSessionMs⟩ else s.keys k
      | .node u d => if u = r.uid ∧ d = r.device then
          some ⟨⟨r.node, s.registrations.length⟩, s.clock + activeSessionMs⟩ else s.keys k := by
  have htext : (s.publish r).text? (.pendingUser r.uid) = s.text? (.pendingUser r.uid) :=
    text?_congr (by simp [publish, Keyspace.set]) rfl
  simp only [consume, htext]
  cases k <;> by_cases hp : s.text? (.pendingUser r.uid) = some r.token <;>
    simp [hp, publish, Keyspace.set, Keyspace.del, Function.update_apply]

theorem refresh_keys (h : s.Inv) (hrefresh : (s.refresh uid session device).1 = 1) :
    ∃ i r deadline, s.Holds uid device i r deadline ∧ r.session = session ∧ s.clock ≤ deadline ∧
      (s.refresh uid session device).2.Holds uid device i r (s.clock + activeSessionMs) ∧
      ∀ k, k ≠ .session uid device → k ≠ .resource uid device → k ≠ .node uid device →
        (s.refresh uid session device).2.keys k = s.keys k := by
  unfold refresh at hrefresh ⊢
  split at hrefresh
  · cases hrefresh
  next hcond =>
    rw [if_neg hcond]
    simp only [not_or, not_not] at hcond
    obtain ⟨writer, deadline, hk, hlive⟩ := text?_eq_some.mp hcond.1
    rcases h.slot uid device with hv | ⟨i, r, deadline', hh⟩
    · rw [hv.1] at hk
      cases hk
    rw [hh.session] at hk
    cases hk
    have hget : ∀ {k v}, s.keys k = some ⟨v, deadline⟩ → s.keys.get s.clock k = some v :=
      fun hk => Keyspace.get_eq_some.mpr ⟨deadline, hk, hlive⟩
    have hs := Keyspace.expire_self (d := s.clock + activeSessionMs) (hget hh.session)
    refine ⟨_, r, _, hh, rfl, hlive, ⟨hh.registered, hh.slot, ?_, ?_, ?_⟩, fun k h1 h2 h3 => ?_⟩
    · simp only [ne_eq, reduceCtorEq, not_false_eq_true, Keyspace.expire_of_ne]
      exact hs
    · simp only [ne_eq, reduceCtorEq, not_false_eq_true, Keyspace.expire_of_ne]
      refine Keyspace.expire_self ?_
      rw [Keyspace.get_congr (Keyspace.expire_of_ne (by simp))]
      exact hget hh.resource
    · refine Keyspace.expire_self ?_
      rw [Keyspace.get_congr (Keyspace.expire_of_ne (by simp)),
        Keyspace.get_congr (Keyspace.expire_of_ne (by simp))]
      exact hget hh.node
    · simp only [ne_eq, h1, h2, h3, not_false_eq_true, Keyspace.expire_of_ne]

theorem refresh_rest (s : State) (uid : ℕ) (session : String) (device : Device) :
    (s.refresh uid session device).2.clock = s.clock ∧
      (s.refresh uid session device).2.issued = s.issued ∧
      (s.refresh uid session device).2.registrations = s.registrations := by
  unfold refresh
  split <;> exact ⟨rfl, rfl, rfl⟩

theorem release_rest (s : State) (uid : ℕ) (session : String) (device : Device) :
    (s.release uid session device).2.clock = s.clock ∧
      (s.release uid session device).2.issued = s.issued ∧
      (s.release uid session device).2.registrations = s.registrations := by
  unfold release
  split <;> exact ⟨rfl, rfl, rfl⟩

theorem refresh_refused (h : (s.refresh uid session device).1 ≠ 1) :
    (s.refresh uid session device).2 = s := by
  unfold refresh at h ⊢
  split
  · rfl
  next hcond =>
    rw [if_neg hcond] at h
    exact absurd rfl h

theorem release_keys (hrelease : (s.release uid session device).1 = 1) :
    s.text? (.session uid device) = some session ∧
      (s.release uid session device).2.Vacant uid device ∧
      ∀ k, k ≠ .session uid device → k ≠ .resource uid device → k ≠ .node uid device →
        (s.release uid session device).2.keys k = s.keys k := by
  unfold release at hrelease ⊢
  split at hrelease
  · cases hrelease
  next hcond =>
    rw [if_neg hcond]
    refine ⟨not_not.mp hcond, ⟨?_, ?_, ?_⟩, fun k h1 h2 h3 => ?_⟩
    · simp
    · simp
    · simp
    · simp [h1, h2, h3]

theorem release_refused (h : (s.release uid session device).1 ≠ 1) :
    (s.release uid session device).2 = s := by
  unfold release at h ⊢
  split
  · rfl
  next hcond =>
    rw [if_neg hcond] at h
    exact absurd rfl h

end State
end CppChat.Session
