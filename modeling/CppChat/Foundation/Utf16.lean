import Mathlib.Data.List.Basic

/-! # Text in UTF-16

A text of 16-bit units is the encoding of a string exactly when its surrogates are paired, and
then so are its two parts where it is cut between two characters.
-/
namespace CppChat.Foundation.Utf16

abbrev Text := List UInt16

def IsHighSurrogate (u : UInt16) : Prop := 0xD800 ≤ u.toNat ∧ u.toNat ≤ 0xDBFF

def IsLowSurrogate (u : UInt16) : Prop := 0xDC00 ≤ u.toNat ∧ u.toNat ≤ 0xDFFF

instance : DecidablePred IsHighSurrogate := fun _ => inferInstanceAs (Decidable (_ ∧ _))

instance : DecidablePred IsLowSurrogate := fun _ => inferInstanceAs (Decidable (_ ∧ _))

/-- Each high surrogate is followed by a low one, and a low one follows only there; `pending` says
that a high one stands before the text. -/
def PairedAfter : Bool → Text → Prop
  | pending, [] => pending = false
  | true, u :: rest => IsLowSurrogate u ∧ PairedAfter false rest
  | false, u :: rest => ¬ IsLowSurrogate u ∧ PairedAfter (decide (IsHighSurrogate u)) rest

instance decidablePairedAfter : ∀ (pending : Bool) (t : Text), Decidable (PairedAfter pending t)
  | pending, [] => inferInstanceAs (Decidable (pending = false))
  | true, _ :: rest =>
    have := decidablePairedAfter false rest
    inferInstanceAs (Decidable (_ ∧ _))
  | false, u :: rest =>
    have := decidablePairedAfter (decide (IsHighSurrogate u)) rest
    inferInstanceAs (Decidable (_ ∧ _))

abbrev Paired (t : Text) : Prop := PairedAfter false t

/-- A cut between the two units of a pair. -/
def CutsPair (u v : Text) : Prop :=
  (∃ a ∈ u.getLast?, IsHighSurrogate a) ∧ ∃ b ∈ v.head?, IsLowSurrogate b

theorem not_low_of_high {u : UInt16} (h : IsHighSurrogate u) : ¬ IsLowSurrogate u :=
  fun hlow => absurd hlow.1 (by have := h.2; omega)

theorem PairedAfter.append {pending : Bool} {u v : Text} (h : PairedAfter pending (u ++ v))
    (hstart : u = [] → pending = false) (hcut : ¬ CutsPair u v) :
    PairedAfter pending u ∧ Paired v := by
  induction u generalizing pending with
  | nil =>
    obtain rfl := hstart rfl
    exact ⟨rfl, h⟩
  | cons a u ih =>
    have htail : u ≠ [] → ¬ CutsPair u v := by
      intro hne
      rwa [CutsPair, List.getLast?_cons_of_ne_nil hne] at hcut
    cases pending with
    | true =>
      have hrest := ih h.2 (fun _ => rfl) (by
        by_cases hne : u = []
        · simp [hne, CutsPair]
        · exact htail hne)
      exact ⟨⟨h.1, hrest.1⟩, hrest.2⟩
    | false =>
      by_cases hne : u = []
      · subst hne
        have hlow : ¬ IsHighSurrogate a := by
          intro ha
          have hv : PairedAfter true v := by simpa [PairedAfter, ha] using h.2
          cases v with
          | nil => cases hv
          | cons b v => exact hcut ⟨⟨a, rfl, ha⟩, b, rfl, hv.1⟩
        have hv : Paired v := by simpa [PairedAfter, hlow] using h.2
        exact ⟨⟨h.1, decide_eq_false hlow⟩, hv⟩
      · have hrest := ih h.2 (fun heq => absurd heq hne) (htail hne)
        exact ⟨⟨h.1, hrest.1⟩, hrest.2⟩

/-! ## Strings -/

def encode (c : Char) : Text :=
  if c.toNat < 0x10000 then [.ofNat c.toNat]
  else [.ofNat (0xD800 + (c.toNat - 0x10000) / 0x400),
    .ofNat (0xDC00 + (c.toNat - 0x10000) % 0x400)]

def utf16 (s : String) : Text := s.toList.flatMap encode

/-- The pair of a character above the units. -/
theorem encode_pair {high low : UInt16} (hhigh : IsHighSurrogate high) (hlow : IsLowSurrogate low) :
    ∃ c, encode c = [high, low] := by
  obtain ⟨h1, h2⟩ := hhigh
  obtain ⟨h3, h4⟩ := hlow
  let n := 0x10000 + (high.toNat - 0xD800) * 0x400 + (low.toNat - 0xDC00)
  have hvalid : n.isValidChar := .inr ⟨by omega, by omega⟩
  refine ⟨Char.ofNat n, ?_⟩
  have hn : (Char.ofNat n).toNat = n := by
    rw [Char.ofNat, dif_pos hvalid]
    rfl
  rw [encode, hn, if_neg (by omega)]
  have hdiv : 0xD800 + (n - 0x10000) / 0x400 = high.toNat := by omega
  have hmod : 0xDC00 + (n - 0x10000) % 0x400 = low.toNat := by omega
  rw [hdiv, hmod, UInt16.ofNat_toNat, UInt16.ofNat_toNat]

theorem encode_unit {u : UInt16} (hhigh : ¬ IsHighSurrogate u) (hlow : ¬ IsLowSurrogate u) :
    ∃ c, encode c = [u] := by
  have hlt := u.toNat_lt
  have hvalid : u.toNat.isValidChar := by
    unfold IsHighSurrogate at hhigh
    unfold IsLowSurrogate at hlow
    unfold Nat.isValidChar
    omega
  refine ⟨Char.ofNat u.toNat, ?_⟩
  have hn : (Char.ofNat u.toNat).toNat = u.toNat := by
    rw [Char.ofNat, dif_pos hvalid]
    rfl
  rw [encode, hn, if_pos hlt, UInt16.ofNat_toNat]

/-- A text with paired surrogates is a string. -/
theorem exists_utf16 {t : Text} (h : Paired t) : ∃ s, utf16 s = t := by
  have hlist : (Paired t → ∃ cs : List Char, cs.flatMap encode = t) ∧
      ∀ high, IsHighSurrogate high → PairedAfter true t →
        ∃ cs : List Char, cs.flatMap encode = high :: t := by
    clear h
    induction t with
    | nil => exact ⟨fun _ => ⟨[], rfl⟩, nofun⟩
    | cons u t ih =>
      refine ⟨fun h => ?_, fun high hhigh h => ?_⟩
      · by_cases hu : IsHighSurrogate u
        · exact ih.2 u hu (by simpa [PairedAfter, hu] using h.2)
        · obtain ⟨cs, hcs⟩ := ih.1 (by simpa [PairedAfter, hu] using h.2)
          obtain ⟨c, hc⟩ := encode_unit hu h.1
          exact ⟨c :: cs, by rw [List.flatMap_cons, hc, hcs, List.singleton_append]⟩
      · obtain ⟨cs, hcs⟩ := ih.1 h.2
        obtain ⟨c, hc⟩ := encode_pair hhigh h.1
        exact ⟨c :: cs, by rw [List.flatMap_cons, hc, hcs]; rfl⟩
  obtain ⟨cs, hcs⟩ := hlist.1 h
  exact ⟨String.ofList cs, by rw [utf16, String.toList_ofList, hcs]⟩

/-- The surrogates of a string are paired. -/
theorem paired_utf16 (s : String) : Paired (utf16 s) := by
  have hchar : ∀ (c : Char) (t : Text), Paired t → Paired (encode c ++ t) := by
    intro c t ht
    have hvalid : c.toNat < 0xD800 ∨ 0xDFFF < c.toNat ∧ c.toNat < 0x110000 := c.valid
    have hpair : ∀ high low, IsHighSurrogate high → IsLowSurrogate low →
        Paired ([high, low] ++ t) := by
      intro high low hhigh hlow
      simpa [Paired, PairedAfter, hhigh, not_low_of_high hhigh, hlow] using ht
    unfold encode
    split
    next hsmall =>
      have hn : (UInt16.ofNat c.toNat).toNat = c.toNat := by
        rw [UInt16.toNat_ofNat', Nat.mod_eq_of_lt hsmall]
      have hhigh : ¬ IsHighSurrogate (.ofNat c.toNat) := by
        unfold IsHighSurrogate
        omega
      have hlow : ¬ IsLowSurrogate (.ofNat c.toNat) := by
        unfold IsLowSurrogate
        omega
      simpa [Paired, PairedAfter, hhigh, hlow] using ht
    next hlarge =>
      have hhigh : IsHighSurrogate (.ofNat (0xD800 + (c.toNat - 0x10000) / 0x400)) := by
        unfold IsHighSurrogate
        rw [UInt16.toNat_ofNat', Nat.mod_eq_of_lt (by omega)]
        omega
      have hlow : IsLowSurrogate (.ofNat (0xDC00 + (c.toNat - 0x10000) % 0x400)) := by
        unfold IsLowSurrogate
        rw [UInt16.toNat_ofNat', Nat.mod_eq_of_lt (by omega)]
        omega
      exact hpair _ _ hhigh hlow
  rw [utf16]
  induction s.toList with
  | nil => rfl
  | cons c cs ih => exact hchar c _ ih

end CppChat.Foundation.Utf16
