import Mathlib.Data.List.Basic

/-! # Tickets

A party issues a ticket for each attempt of a kind of work; an answer settles the ticket it
carries. Of each kind one ticket counts: the latest one, unless it was settled or closed, or
everything was reset. A log is proper when tickets are issued fresh and settled while they
count; each is then settled once at most.
-/
namespace CppChat.Foundation.Tickets

variable {κ τ : Type*}

inductive Event (κ τ : Type*)
  | issue (k : κ) (t : τ)
  | settle (k : κ) (t : τ)
  | close (k : κ)
  | reset

/-- After the event no ticket of the kind that was issued before counts. -/
def Event.Ends (k : κ) : Event κ τ → Prop
  | issue k' _ | settle k' _ | close k' => k' = k
  | reset => True

/-- The tickets issued in a log, newest first. -/
def issued : List (Event κ τ) → List τ
  | [] => []
  | .issue _ t :: log => t :: issued log
  | _ :: log => issued log

def settled : List (Event κ τ) → List τ
  | [] => []
  | .settle _ t :: log => t :: settled log
  | _ :: log => settled log

theorem issued_append (l l' : List (Event κ τ)) : issued (l ++ l') = issued l ++ issued l' := by
  induction l with
  | nil => rfl
  | cons e l ih => cases e <;> simp only [List.cons_append, issued, ih]

section
variable [DecidableEq κ] {k k' : κ} {t : τ} {log : List (Event κ τ)} {e : Event κ τ}

/-- The ticket of the kind that counts. -/
def outstanding : List (Event κ τ) → κ → Option τ
  | [], _ => none
  | .issue k t :: log, k' => if k = k' then some t else outstanding log k'
  | .settle k _ :: log, k' => if k = k' then none else outstanding log k'
  | .close k :: log, k' => if k = k' then none else outstanding log k'
  | .reset :: _, _ => none

theorem outstanding_eq_some : outstanding log k = some t ↔
    ∃ later earlier, log = later ++ .issue k t :: earlier ∧ ∀ e ∈ later, ¬ e.Ends k := by
  induction log with
  | nil =>
    refine iff_of_false (Option.some_ne_none t).symm ?_
    rintro ⟨later, earlier, h, -⟩
    exact List.append_ne_nil_of_right_ne_nil later (List.cons_ne_nil _ earlier) h.symm
  | cons e log ih =>
    have hskip (h : ¬ e.Ends k) : (∃ later earlier, e :: log = later ++ .issue k t :: earlier ∧
        ∀ e ∈ later, ¬ e.Ends k) ↔
        ∃ later earlier, log = later ++ .issue k t :: earlier ∧ ∀ e ∈ later, ¬ e.Ends k := by
      constructor
      · rintro ⟨later, earlier, heq, hlater⟩
        cases later with
        | nil =>
          cases heq
          exact absurd rfl h
        | cons d later =>
          cases heq
          exact ⟨later, earlier, rfl, fun x hx => hlater x (List.mem_cons_of_mem _ hx)⟩
      · rintro ⟨later, earlier, rfl, hlater⟩
        exact ⟨e :: later, earlier, rfl, List.forall_mem_cons.mpr ⟨h, hlater⟩⟩
    have hstop (h : e.Ends k) (hne : e ≠ .issue k t) : ¬ ∃ later earlier,
        e :: log = later ++ .issue k t :: earlier ∧ ∀ e ∈ later, ¬ e.Ends k := by
      rintro ⟨later, earlier, heq, hlater⟩
      cases later with
      | nil =>
        cases heq
        exact hne rfl
      | cons d later =>
        cases heq
        exact hlater e List.mem_cons_self h
    cases e with
    | issue k' t' =>
      unfold outstanding
      split
      next hk =>
        cases hk
        constructor
        · rintro ⟨⟩
          exact ⟨[], log, rfl, fun x hx => absurd hx List.not_mem_nil⟩
        · intro h
          by_contra hne
          exact hstop rfl (fun he => hne (by cases he; rfl)) h
      next hk => exact ih.trans (hskip hk).symm
    | settle k' t' =>
      unfold outstanding
      split
      next hk => exact iff_of_false (Option.some_ne_none t).symm (hstop hk (by rintro ⟨⟩))
      next hk => exact ih.trans (hskip hk).symm
    | close k' =>
      unfold outstanding
      split
      next hk => exact iff_of_false (Option.some_ne_none t).symm (hstop hk (by rintro ⟨⟩))
      next hk => exact ih.trans (hskip hk).symm
    | reset => exact iff_of_false (Option.some_ne_none t).symm (hstop trivial (by rintro ⟨⟩))

/-- Tickets are issued fresh and settled while they count. -/
def Proper : List (Event κ τ) → Prop
  | [] => True
  | .issue _ t :: log => t ∉ issued log ∧ Proper log
  | .settle k t :: log => outstanding log k = some t ∧ Proper log
  | .close _ :: log => Proper log
  | .reset :: log => Proper log

theorem Proper.tail (h : Proper (e :: log)) : Proper log := by
  cases e with
  | issue => exact h.2
  | settle => exact h.2
  | close => exact h
  | reset => exact h

theorem Proper.nodup_issued (h : Proper log) : (issued log).Nodup := by
  induction log with
  | nil => exact List.nodup_nil
  | cons e log ih =>
    cases e with
    | issue => exact List.nodup_cons.mpr ⟨h.1, ih h.2⟩
    | settle => exact ih h.2
    | close => exact ih h
    | reset => exact ih h

theorem mem_issued_of_outstanding (h : outstanding log k = some t) : t ∈ issued log := by
  obtain ⟨later, earlier, rfl, -⟩ := outstanding_eq_some.mp h
  rw [issued_append]
  exact List.mem_append_right _ List.mem_cons_self

theorem Proper.issued_of_settled (h : Proper log) (ht : t ∈ settled log) : t ∈ issued log := by
  induction log with
  | nil => exact absurd ht List.not_mem_nil
  | cons e log ih =>
    cases e with
    | issue => exact List.mem_cons_of_mem _ (ih h.2 ht)
    | settle k t' =>
      rcases List.mem_cons.mp ht with rfl | ht
      · show t ∈ issued log
        exact mem_issued_of_outstanding h.1
      · exact ih h.2 ht
    | close => exact ih h ht
    | reset => exact ih h ht

/-- A ticket counts for one kind. -/
theorem Proper.kind_unique (h : Proper log) (hk : outstanding log k = some t)
    (hk' : outstanding log k' = some t) : k = k' := by
  induction log with
  | nil => cases hk
  | cons e log ih =>
    cases e with
    | issue k₀ t₀ =>
      unfold outstanding at hk hk'
      split at hk <;> split at hk'
      next h₁ h₂ => exact h₁.symm.trans h₂
      next =>
        cases hk
        exact absurd (mem_issued_of_outstanding hk') h.1
      next =>
        cases hk'
        exact absurd (mem_issued_of_outstanding hk) h.1
      next => exact ih h.2 hk hk'
    | settle =>
      unfold outstanding at hk hk'
      split at hk
      · cases hk
      split at hk'
      · cases hk'
      exact ih h.2 hk hk'
    | close =>
      unfold outstanding at hk hk'
      split at hk
      · cases hk
      split at hk'
      · cases hk'
      exact ih h hk hk'
    | reset => cases hk

/-- A settled ticket never counts again. -/
theorem Proper.not_settled (h : Proper log) (hk : outstanding log k = some t) :
    t ∉ settled log := by
  induction log with
  | nil => exact List.not_mem_nil
  | cons e log ih =>
    cases e with
    | issue k₀ t₀ =>
      unfold outstanding at hk
      split at hk
      · cases hk
        exact fun ht => h.1 (h.2.issued_of_settled ht)
      · exact ih h.2 hk
    | settle k₀ t₀ =>
      unfold outstanding at hk
      split at hk
      · cases hk
      next hne =>
        rintro (_ | ⟨_, ht⟩)
        · exact hne (h.2.kind_unique h.1 hk)
        · exact ih h.2 hk ht
    | close =>
      unfold outstanding at hk
      split at hk
      · cases hk
      · exact ih h hk
    | reset => cases hk

/-- No ticket is settled twice. -/
theorem Proper.nodup_settled (h : Proper log) : (settled log).Nodup := by
  induction log with
  | nil => exact List.nodup_nil
  | cons e log ih =>
    cases e with
    | issue => exact ih h.2
    | settle => exact List.nodup_cons.mpr ⟨h.2.not_settled h.1, ih h.2⟩
    | close => exact ih h
    | reset => exact ih h

end
end CppChat.Foundation.Tickets
