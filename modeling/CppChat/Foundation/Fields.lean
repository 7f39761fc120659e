import Mathlib.Data.List.Infix

/-! # Texts of fields

A text of fields, each ended by a mark that none of them contains, before a last field. Such a
text begins with the text of other fields only if these are its first fields. Decimal numbers
are fields, and different numbers are different fields.
-/
namespace CppChat.Foundation.Fields

section
variable {α : Type*} {mark : α}

/-- Every field but the last is followed by the mark. -/
def render (mark : α) (fields : List (List α)) (last : List α) : List α :=
  fields.foldr (fun f rest => f ++ mark :: rest) last

@[simp]
theorem render_nil (last : List α) : render mark [] last = last := rfl

@[simp]
theorem render_cons (f : List α) (fields : List (List α)) (last : List α) :
    render mark (f :: fields) last = f ++ mark :: render mark fields last := rfl

theorem render_append (fields fields' : List (List α)) (last : List α) :
    render mark (fields ++ fields') last = render mark fields [] ++ render mark fields' last := by
  induction fields with
  | nil => rfl
  | cons f fields ih => simp [ih]

theorem mark_mem_render {fields : List (List α)} {last : List α} (h : fields ≠ []) :
    mark ∈ render mark fields last := by
  obtain ⟨f, fields, rfl⟩ := List.exists_cons_of_ne_nil h
  simp

/-- Two texts that begin with such letters, up to a first one that is not, agree in them. -/
theorem append_cons_prefix_iff {p : α → Prop} {f g rest rest' : List α} {a b : α}
    (hf : ∀ c ∈ f, p c) (hg : ∀ c ∈ g, p c) (ha : ¬ p a) (hb : ¬ p b) :
    f ++ a :: rest <+: g ++ b :: rest' ↔ f = g ∧ a = b ∧ rest <+: rest' := by
  induction f generalizing g with
  | nil =>
    cases g with
    | nil => simp [List.cons_prefix_cons]
    | cons c g =>
      have hc : a ≠ c := fun he => ha (he ▸ hg c List.mem_cons_self)
      simp [List.cons_prefix_cons, hc]
  | cons c f ih =>
    obtain ⟨hc, hf⟩ := List.forall_mem_cons.mp hf
    cases g with
    | nil =>
      have hne : c ≠ b := fun he => hb (he ▸ hc)
      simp [List.cons_prefix_cons, hne]
    | cons d g =>
      have hg' : ∀ e ∈ g, p e := fun e he => hg e (List.mem_cons_of_mem _ he)
      simp [List.cons_prefix_cons, ih hf hg', and_assoc]

/-- Two texts that begin with a field agree in that field. -/
theorem append_mark_prefix_iff {f g rest rest' : List α} (hf : mark ∉ f) (hg : mark ∉ g) :
    f ++ mark :: rest <+: g ++ mark :: rest' ↔ f = g ∧ rest <+: rest' := by
  rw [append_cons_prefix_iff (p := fun c => c ≠ mark) (fun c hc he => hf (he ▸ hc))
    (fun c hc he => hg (he ▸ hc)) (not_not.mpr rfl) (not_not.mpr rfl)]
  simp

theorem render_prefix {fields fields' : List (List α)} {last : List α}
    (hfields : ∀ f ∈ fields, mark ∉ f) (hfields' : ∀ f ∈ fields', mark ∉ f) (hlast : mark ∉ last) :
    render mark fields [] <+: render mark fields' last ↔ fields <+: fields' := by
  induction fields generalizing fields' with
  | nil => simp
  | cons f fields ih =>
    cases fields' with
    | nil =>
      simp only [render_nil, List.prefix_nil, reduceCtorEq, iff_false]
      exact fun h => hlast (h.subset (mark_mem_render (by simp)))
    | cons g fields' =>
      obtain ⟨hf, hfields⟩ := List.forall_mem_cons.mp hfields
      obtain ⟨hg, hfields'⟩ := List.forall_mem_cons.mp hfields'
      rw [render_cons, render_cons, append_mark_prefix_iff hf hg, ih hfields hfields',
        List.cons_prefix_cons]

/-- What follows the first fields. -/
theorem drop_render (fields fields' : List (List α)) (last : List α) :
    (render mark (fields ++ fields') last).drop (render mark fields []).length =
      render mark fields' last := by
  rw [render_append, List.drop_left]

end

/-! ## Decimal numbers -/

theorem isDigit_of_mem_repr {n : ℕ} {c : Char} (h : c ∈ n.repr.toList) : c.isDigit = true := by
  rw [Nat.toList_repr] at h
  exact Nat.isDigit_of_mem_toDigits (by decide) (by decide) h

theorem repr_injective {m n : ℕ} (h : m.repr = n.repr) : m = n := by
  have hdigits : Nat.toDigits 10 m = Nat.toDigits 10 n := by
    rw [← Nat.toList_repr, h, Nat.toList_repr]
  rw [← Nat.ofDigitChars_ten_toDigits (n := m), hdigits, Nat.ofDigitChars_ten_toDigits]

/-- Digits, after a minus sign perhaps. -/
theorem mem_toString_int {z : ℤ} {c : Char} (h : c ∈ (toString z).toList) :
    c = '-' ∨ c.isDigit = true := by
  rw [Int.toString_eq_repr] at h
  cases z with
  | ofNat n => exact .inr (isDigit_of_mem_repr h)
  | negSucc n =>
    rw [Int.repr, String.toList_append, List.mem_append] at h
    rcases h with h | h
    · exact .inl (by simpa using h)
    · exact .inr (isDigit_of_mem_repr h)

theorem toString_int_injective {y z : ℤ} (h : toString y = toString z) : y = z := by
  have hsign : ∀ m n : ℕ, (Int.ofNat m).repr ≠ (Int.negSucc n).repr := by
    intro m n he
    have hmem : '-' ∈ (Int.ofNat m).repr.toList := by
      rw [he, Int.repr, String.toList_append]
      exact List.mem_append_left _ (by decide)
    exact absurd (isDigit_of_mem_repr hmem) (by decide)
  rw [Int.toString_eq_repr, Int.toString_eq_repr] at h
  cases y with
  | ofNat m =>
    cases z with
    | ofNat n => exact congrArg Int.ofNat (repr_injective h)
    | negSucc n => exact absurd h (hsign m n)
  | negSucc m =>
    cases z with
    | ofNat n => exact absurd h.symm (hsign n m)
    | negSucc n =>
      have hlists := congrArg String.toList h
      simp only [Int.repr, String.toList_append, List.append_cancel_left_eq] at hlists
      exact congrArg Int.negSucc (Nat.succ.inj (repr_injective (String.toList_inj.mp hlists)))

theorem colon_not_mem_nat (n : ℕ) : ':' ∉ n.repr.toList := fun h =>
  absurd (isDigit_of_mem_repr h) (by decide)

theorem colon_not_mem_int (z : ℤ) : ':' ∉ (toString z).toList := by
  intro h
  rcases mem_toString_int h with hc | hc
  · exact absurd hc (by decide)
  · exact absurd hc (by decide)

/-- No number is written with letters. -/
theorem toString_int_ne {z : ℤ} {s : String}
    (h : s.toList.any (fun c => c != '-' && !c.isDigit) = true) : toString z ≠ s := by
  rintro rfl
  obtain ⟨c, hc, h⟩ := List.any_eq_true.mp h
  simp only [Bool.and_eq_true, bne_iff_ne, ne_eq, Bool.not_eq_true'] at h
  obtain ⟨hminus, hdigit⟩ := h
  rcases mem_toString_int hc with rfl | hc
  · exact hminus rfl
  · rw [hdigit] at hc
    cases hc

end CppChat.Foundation.Fields
