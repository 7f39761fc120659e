import CppChat.Texts.Split

/-! # What the parts of a text are

The symbols of a text are its tokens, its pairs and its other units. A cut between two symbols is in
no pair and in no token, since brackets open only at the start of a token.
-/
namespace CppChat.Texts
open Foundation.Utf16

/-! ## Sizes -/

section Sizes
variable {t u : Text} {c : UInt16}

theorem escapedUnit_le (u : UInt16) : escapedUnit u ≤ 6 := by
  unfold escapedUnit
  split_ifs <;> omega

theorem escapedJsonSize_le (t : Text) : escapedJsonSize t ≤ 6 * t.length := by
  induction t with
  | nil => exact le_rfl
  | cons u t ih =>
    have := escapedUnit_le u
    simp only [escapedJsonSize, List.map_cons, List.sum_cons, List.length_cons] at ih ⊢
    omega

theorem compactUnit_le (u : UInt16) : compactUnit u ≤ escapedUnit u := by
  unfold compactUnit escapedUnit
  simp only [List.mem_cons, List.not_mem_nil, or_false]
  split
  next h => rcases h with rfl | rfl | rfl | rfl | rfl | rfl | rfl <;> decide
  next hescape =>
    simp only [not_or] at hescape
    simp only [hescape.1, hescape.2.1, or_self, if_false]
    split_ifs <;> omega

theorem compactText_le (t : Text) : compactText t ≤ escapedJsonSize t := by
  induction t using compactText.induct with
  | case1 => exact le_rfl
  | case2 u => simpa [compactText, escapedJsonSize] using compactUnit_le u
  | case3 u v rest h ih =>
    have h1 : escapedUnit u = 6 := if_pos (.inr (Nat.lt_of_lt_of_le (by decide) h.1.1))
    have h2 : escapedUnit v = 6 := if_pos (.inr (Nat.lt_of_lt_of_le (by decide) h.2.1))
    rw [compactText, if_pos h]
    simp only [escapedJsonSize, List.map_cons, List.sum_cons, h1, h2] at ih ⊢
    omega
  | case4 u v rest h ih =>
    have := compactUnit_le u
    rw [compactText, if_neg h]
    simp only [escapedJsonSize, List.map_cons, List.sum_cons] at ih ⊢
    omega

theorem encode_length_le (c : Char) : (encode c).length ≤ c.utf8Size := by
  have hpos := c.utf8Size_pos
  unfold encode
  split
  · exact hpos
  next hlarge =>
    have hsize : ¬ c.utf8Size ≤ 1 := by
      unfold Char.utf8Size
      dsimp only
      split
      next hascii =>
        have hle : c.toNat ≤ 0x7F := hascii
        omega
      next => split_ifs <;> omega
    simp only [List.length_cons, List.length_nil]
    omega

theorem utf16_length_le (s : String) : (utf16 s).length ≤ s.utf8ByteSize := by
  obtain ⟨l, rfl⟩ := s.exists_eq_ofList
  rw [utf16, String.toList_ofList]
  induction l with
  | nil => exact Nat.zero_le _
  | cons c l ih =>
    have hsplit : String.ofList (c :: l) = String.singleton c ++ String.ofList l := by
      rw [String.singleton_eq_ofList, ← String.ofList_append]
      rfl
    rw [hsplit, String.utf8ByteSize_append, String.utf8ByteSize_singleton, List.flatMap_cons,
      List.length_append]
    exact Nat.add_le_add (encode_length_le c) ih

/-- A packet has little more than its text. -/
theorem textPacket_le (uniqueId : Uuid) (data : ChatThreadData) (h : escapedJsonSize t ≤ 600) :
    textPacket t uniqueId data ≤ 1800 := by
  have h1 := Wire.numberSize_le data.sender_isInt
  have h2 := Wire.numberSize_le data.receiver_isInt
  have h3 := Wire.numberSize_le data.thread_isInt
  have h4 : Wire.numberSize 0 ≤ 11 := Wire.numberSize_le (by decide)
  have h5 := compactText_le t
  have h6 := compactText_le (utf16 uniqueId.1)
  have h7 := escapedJsonSize_le (utf16 uniqueId.1)
  have h8 := utf16_length_le uniqueId.1
  rw [uniqueId.2] at h8
  have hkeys : "fromuid".length + "touid".length + "thread_id".length + "text_array".length +
      "content".length + "unique_id".length + "msg_type".length = 55 := by decide
  simp only [textPacket, compactObject, compactArray, compactString, List.map_cons, List.map_nil,
    List.sum_cons, List.sum_nil, List.length_cons, List.length_nil]
  omega

end Sizes

/-! ## Symbols -/

section Symbol
variable (C : EmojiCatalog) {c : UInt16} {rest : Text}

/-- A symbol is a token, a pair, or a unit that starts none. -/
theorem symbol_cases (c : UInt16) (rest : Text) :
    ((∃ emoji, C.findByToken (symbol C c rest) = some emoji) ∧ symbol C c rest <+: c :: rest ∧
        (symbol C c rest).length ≤ maximumTokenLength) ∨
      (∃ d after, rest = d :: after ∧ IsHighSurrogate c ∧ IsLowSurrogate d ∧
        symbol C c rest = [c, d]) ∨
      (symbol C c rest = [c] ∧ (IsHighSurrogate c → ∀ d ∈ rest.head?, ¬ IsLowSurrogate d)) := by
  have hbracket : ¬ IsHighSurrogate openBracket := by decide
  unfold symbol
  by_cases hopen : c = openBracket
  · rw [if_pos hopen]
    have hunit : [c] = [c] ∧ (IsHighSurrogate c → ∀ d ∈ rest.head?, ¬ IsLowSurrogate d) :=
      ⟨rfl, fun h => absurd (hopen ▸ h) hbracket⟩
    cases hend : rest.findIdx? (· = closeBracket) with
    | none => exact .inr (.inr hunit)
    | some i =>
      dsimp only
      by_cases hshort : i + 1 < maximumTokenLength
      · rw [if_pos hshort]
        cases hfind : C.findByToken (c :: rest.take (i + 1)) with
        | none => exact .inr (.inr hunit)
        | some emoji =>
          refine .inl ⟨⟨emoji, hfind⟩, (List.prefix_cons_inj c).mpr (List.take_prefix _ _), ?_⟩
          change (c :: rest.take (i + 1)).length ≤ maximumTokenLength
          rw [List.length_cons, List.length_take]
          omega
      · rw [if_neg hshort]
        exact .inr (.inr hunit)
  · rw [if_neg hopen]
    by_cases hhigh : IsHighSurrogate c
    · rw [if_pos hhigh]
      cases rest with
      | nil => exact .inr (.inr ⟨rfl, fun _ => nofun⟩)
      | cons d after =>
        dsimp only
        by_cases hlow : IsLowSurrogate d
        · rw [if_pos hlow]
          exact .inr (.inl ⟨d, after, rfl, hhigh, hlow, rfl⟩)
        · rw [if_neg hlow]
          exact .inr (.inr ⟨rfl, fun _ b hb => by obtain rfl := Option.some_inj.mp hb; exact hlow⟩)
    · rw [if_neg hhigh]
      exact .inr (.inr ⟨rfl, fun h => absurd h hhigh⟩)

/-- Where a token stands, it is the symbol. -/
theorem symbol_token {emoji : EmojiEntry} (hmem : emoji ∈ C.entries)
    (h : emoji.token <+: c :: rest) : symbol C c rest = emoji.token := by
  obtain ⟨body, htoken, -, hlength, hbody⟩ := C.shape emoji hmem
  obtain ⟨after, hafter⟩ := h
  rw [htoken, List.cons_append, List.append_assoc, List.singleton_append] at hafter
  obtain ⟨rfl, rfl⟩ := List.cons.inj hafter
  have hclose : (body ++ closeBracket :: after).findIdx? (· = closeBracket) = some body.length := by
    rw [List.findIdx?_append, List.findIdx?_eq_none_iff.mpr fun u hu => by
      simpa using (hbody u hu).1.2.1, Option.none_or, List.findIdx?_cons]
    simp
  have htake : (body ++ closeBracket :: after).take (body.length + 1) = body ++ [closeBracket] := by
    rw [List.take_append, List.take_of_length_le (Nat.le_succ _), Nat.add_sub_cancel_left,
      List.take_succ_cons, List.take_zero]
  obtain ⟨found, hfind, -⟩ := C.exists_findByToken hmem
  rw [htoken] at hfind
  have hshort : body.length + 1 < maximumTokenLength := by
    unfold maximumTokenLength at *
    omega
  unfold symbol
  rw [if_pos rfl, hclose]
  dsimp only
  rw [if_pos hshort, htake, hfind, htoken]
  rfl

theorem symbol_prefix (c : UInt16) (rest : Text) : symbol C c rest <+: c :: rest := by
  obtain ⟨-, h, -⟩ | ⟨d, after, rfl, -, -, h⟩ | ⟨h, -⟩ := symbol_cases C c rest
  · exact h
  · rw [h]
    exact List.prefix_append [c, d] after
  · rw [h]
    exact List.prefix_append [c] rest

/-- A symbol fits into any part of its own. -/
theorem symbol_length (c : UInt16) (rest : Text) :
    0 < (symbol C c rest).length ∧ (symbol C c rest).length ≤ maximumTokenLength := by
  obtain ⟨⟨emoji, hfind⟩, -, h⟩ | ⟨d, after, -, -, -, h⟩ | ⟨h, -⟩ := symbol_cases C c rest
  · refine ⟨?_, h⟩
    obtain ⟨hmem, htoken⟩ := C.findByToken_some hfind
    obtain ⟨body, hbody, -⟩ := C.shape emoji hmem
    rw [← htoken, hbody]
    exact Nat.succ_pos _
  · rw [h]
    exact ⟨Nat.succ_pos 1, Nat.le_add_left 2 64⟩
  · rw [h]
    exact ⟨Nat.succ_pos 0, Nat.le_add_left 1 65⟩

/-- No bracket opens inside a symbol, and the last unit of a symbol is in no pair with the next. -/
theorem symbol_closed (c : UInt16) (rest : Text) : openBracket ∉ (symbol C c rest).tail ∧
    ¬ CutsPair (symbol C c rest) ((c :: rest).drop (symbol C c rest).length) := by
  obtain ⟨⟨emoji, hfind⟩, -, -⟩ | ⟨d, after, rfl, -, hlow, h⟩ | ⟨h, hnext⟩ := symbol_cases C c rest
  · obtain ⟨hmem, htoken⟩ := C.findByToken_some hfind
    obtain ⟨body, hbody, -, -, hinner⟩ := C.shape emoji hmem
    rw [← htoken, hbody, List.tail_cons]
    constructor
    · intro hopen
      rcases List.mem_append.mp hopen with hopen | hopen
      · exact (hinner _ hopen).1.1 rfl
      · cases List.mem_singleton.mp hopen
    · rintro ⟨⟨a, ha, hhigh⟩, -⟩
      rw [← List.cons_append, List.getLast?_concat] at ha
      obtain rfl := Option.some_inj.mp ha
      exact absurd hhigh (by decide)
  · rw [h]
    constructor
    · intro hopen
      obtain rfl := List.mem_singleton.mp hopen
      exact absurd hlow (by decide)
    · rintro ⟨⟨a, ha, hhigh⟩, -⟩
      obtain rfl := Option.some_inj.mp ha
      exact not_low_of_high hhigh hlow
  · rw [h]
    refine ⟨List.not_mem_nil, ?_⟩
    rintro ⟨⟨a, ha, hhigh⟩, b, hb, hlow⟩
    obtain rfl := Option.some_inj.mp ha
    exact hnext hhigh b hb hlow

end Symbol

/-! ## Cuts -/

/-- A cut inside nothing. -/
def Boundary (C : EmojiCatalog) (u v : Text) : Prop := ¬ CutsPair u v ∧ ¬ C.CutsToken u v

section Boundary
variable (C : EmojiCatalog) {u : Text} {c : UInt16} {rest : Text}

theorem boundary_nil (v : Text) : Boundary C [] v := by
  refine ⟨?_, ?_⟩
  · rintro ⟨⟨a, ha, -⟩, -⟩
    cases ha
  · rintro ⟨before, start, h, hne, -⟩
    exact hne (List.append_eq_nil_iff.mp h.symm).2

/-- The loop goes from boundary to boundary. -/
theorem Boundary.symbol (h : Boundary C u (c :: rest)) :
    Boundary C (u ++ symbol C c rest) ((c :: rest).drop (symbol C c rest).length) := by
  obtain ⟨hpos, -⟩ := symbol_length C c rest
  obtain ⟨hinside, hpair⟩ := symbol_closed C c rest
  obtain ⟨after, hafter⟩ := symbol_prefix C c rest
  have hne : Texts.symbol C c rest ≠ [] := List.ne_nil_of_length_pos hpos
  constructor
  · rintro ⟨⟨a, ha, hhigh⟩, hlow⟩
    rw [List.getLast?_append_of_ne_nil _ hne] at ha
    exact hpair ⟨⟨a, ha, hhigh⟩, hlow⟩
  · rintro ⟨before, start, hsplit, hstart, emoji, hmem, hprefix, hlength⟩
    obtain ⟨body, htoken, -⟩ := C.shape emoji hmem
    have hdrop : (c :: rest).drop (Texts.symbol C c rest).length = after := by
      rw [← hafter, List.drop_left]
    rw [hdrop] at hprefix
    rcases List.append_eq_append_iff.mp hsplit with ⟨l, hbefore, hsymbol⟩ | ⟨l, hu, hstart'⟩
    · -- the token starts inside the symbol
      have hopen : start.head? = some openBracket := by
        cases start with
        | nil => exact absurd rfl hstart
        | cons d start =>
          rw [htoken, List.cons_append] at hprefix
          rw [(List.cons_prefix_cons.mp hprefix).1, List.head?_cons]
      cases l with
      | nil =>
        rw [List.nil_append] at hsymbol
        rw [← hsymbol, hafter] at hprefix
        rw [← symbol_token C hmem hprefix, hsymbol] at hlength
        exact lt_irrefl _ hlength
      | cons d l =>
        apply hinside
        rw [hsymbol, List.cons_append, List.tail_cons]
        exact List.mem_append_right _ (List.mem_of_mem_head? hopen)
    · -- the token starts before the symbol
      cases l with
      | nil =>
        rw [List.nil_append] at hstart'
        rw [hstart', hafter] at hprefix
        rw [← symbol_token C hmem hprefix, hstart'] at hlength
        exact lt_irrefl _ hlength
      | cons d l =>
        refine h.2 ⟨before, d :: l, hu, nofun, emoji, hmem, ?_, ?_⟩
        · rwa [hstart', List.append_assoc, hafter] at hprefix
        · rw [hstart', List.length_append] at hlength
          omega

end Boundary

/-! ## The loop -/

/-- What the parts of a text are. -/
structure Split (C : EmojiCatalog) (text : Text) (parts : List Text) : Prop where
  flatten : parts.flatten = text
  nonempty : ∀ part ∈ parts, part ≠ []
  size : ∀ part ∈ parts, escapedJsonSize part ≤ 600
  cuts : ∀ before after, parts = before ++ after → Boundary C before.flatten after.flatten

section Loop
variable (C : EmojiCatalog) (sampleId : Uuid) (data : ChatThreadData)

/-- The loop at a boundary: the closed parts, the open one and what is ahead. -/
structure Inv (parts : List Text) (part rest : Text) : Prop where
  nonempty : ∀ p ∈ parts, p ≠ []
  size : ∀ p ∈ parts, escapedJsonSize p ≤ 600
  open_size : escapedJsonSize part ≤ 600
  cuts : ∀ before after, parts = before ++ after →
    Boundary C before.flatten (after.flatten ++ (part ++ rest))
  boundary : Boundary C (parts.flatten ++ part) rest

variable {C sampleId data}
variable {parts : List Text} {part rest : Text}

theorem splitLoop_skip (skip : ℕ) : splitLoop C sampleId data parts part skip rest =
    splitLoop C sampleId data parts part 0 (rest.drop skip) := by
  induction rest generalizing skip with
  | nil => cases skip <;> rfl
  | cons c rest ih =>
    cases skip with
    | zero => rfl
    | succ skip =>
      rw [splitLoop, ih, List.drop_succ_cons]

/-- A part is closed. -/
theorem Inv.close (h : Inv C parts part rest) (hne : part ≠ []) :
    Inv C (parts ++ [part]) [] rest where
  nonempty p hp := by
    rcases List.mem_append.mp hp with hp | hp
    · exact h.nonempty p hp
    · exact List.mem_singleton.mp hp ▸ hne
  size p hp := by
    rcases List.mem_append.mp hp with hp | hp
    · exact h.size p hp
    · exact List.mem_singleton.mp hp ▸ h.open_size
  open_size := Nat.zero_le _
  cuts before after hsplit := by
    rcases List.eq_nil_or_concat after with rfl | ⟨after', last, rfl⟩
    · rw [List.append_nil] at hsplit
      rw [← hsplit, List.flatten_append, List.flatten_singleton]
      exact h.boundary
    · rw [List.concat_eq_append, ← List.append_assoc] at hsplit
      obtain ⟨hparts, hlast⟩ := List.append_inj' hsplit rfl
      obtain rfl := List.singleton_inj.mp hlast
      have := h.cuts before after' hparts
      rwa [List.concat_eq_append, List.flatten_append, List.flatten_singleton, List.append_assoc,
        List.nil_append]
  boundary := by
    rw [List.flatten_append, List.flatten_singleton, List.append_nil]
    exact h.boundary

/-- A part grows by a symbol. -/
theorem Inv.grow {c : UInt16} (h : Inv C parts part (c :: rest))
    (hsize : escapedJsonSize (part ++ symbol C c rest) ≤ 600) :
    Inv C parts (part ++ symbol C c rest) ((c :: rest).drop (symbol C c rest).length) := by
  obtain ⟨after, hafter⟩ := symbol_prefix C c rest
  have hdrop : (c :: rest).drop (symbol C c rest).length = after := by
    rw [← hafter, List.drop_left]
  refine ⟨h.nonempty, h.size, hsize, fun before after' hsplit => ?_, ?_⟩
  · rw [hdrop, List.append_assoc, hafter]
    exact h.cuts before after' hsplit
  · rw [← List.append_assoc]
    exact h.boundary.symbol

theorem symbol_size (c : UInt16) (rest : Text) : escapedJsonSize (symbol C c rest) ≤ 600 := by
  have hsize := escapedJsonSize_le (symbol C c rest)
  have hlength := (symbol_length C c rest).2
  unfold maximumTokenLength at hlength
  omega

theorem Inv.splitLoop (h : Inv C parts part rest) :
    Split C (parts.flatten ++ part ++ rest) (splitLoop C sampleId data parts part 0 rest) := by
  induction hn : rest.length using Nat.strong_induction_on generalizing parts part rest with
  | _ n ih =>
    subst hn
    cases rest with
    | nil =>
      have hdone : ∀ {parts}, Inv C parts [] [] → Split C parts.flatten parts := fun h =>
        ⟨rfl, h.nonempty, h.size, fun before after hsplit => by
          simpa using h.cuts before after hsplit⟩
      rw [List.append_nil]
      unfold Texts.splitLoop
      split
      next hne =>
        have := hdone (h.close hne)
        rwa [List.flatten_append, List.flatten_singleton] at this
      next hnil =>
        obtain rfl := not_not.mp hnil
        rw [List.append_nil]
        exact hdone h
    | cons c rest =>
      have hpos := (symbol_length C c rest).1
      have hskip : rest.drop ((symbol C c rest).length - 1) =
          (c :: rest).drop (symbol C c rest).length := by
        rw [← Nat.succ_pred_eq_of_pos hpos, List.drop_succ_cons]
        rfl
      have hless : ((c :: rest).drop (symbol C c rest).length).length < (c :: rest).length := by
        rw [List.length_drop, List.length_cons]
        omega
      have htext : symbol C c rest ++ (c :: rest).drop (symbol C c rest).length = c :: rest := by
        obtain ⟨after, hafter⟩ := symbol_prefix C c rest
        rw [← hafter, List.drop_left]
      rw [Texts.splitLoop]
      split
      next hlarge =>
        have hnext := ih _ hless ((h.close hlarge.1).grow (symbol_size c rest)) rfl
        rw [List.nil_append, List.flatten_append, List.flatten_singleton, List.append_assoc,
          htext] at hnext
        rw [splitLoop_skip, hskip]
        exact hnext
      next hfits =>
        have hsize : escapedJsonSize (part ++ symbol C c rest) ≤ 600 := by
          by_cases hnil : part = []
          · rw [hnil, List.nil_append]
            exact symbol_size c rest
          · exact not_lt.mp fun hlt => hfits ⟨hnil, .inl hlt⟩
        have hnext := ih _ hless (h.grow hsize) rfl
        rw [← List.append_assoc, List.append_assoc, htext] at hnext
        rw [splitLoop_skip, hskip]
        exact hnext

theorem splitText_split (text : Text) : Split C text (splitText C sampleId data text) := by
  have hstart : Inv C [] [] text := by
    refine ⟨nofun, nofun, Nat.zero_le _, fun before after hsplit => ?_, boundary_nil C text⟩
    rw [(List.append_eq_nil_iff.mp hsplit.symm).1]
    exact boundary_nil C _
  exact hstart.splitLoop

end Loop

/-! ## Rendering the parts -/

namespace Split

variable {C : EmojiCatalog} {text : Text} {part : Text} {parts : List Text}

theorem tail (h : Split C text (part :: parts)) : Split C parts.flatten parts where
  flatten := rfl
  nonempty p hp := h.nonempty p (List.mem_cons_of_mem _ hp)
  size p hp := h.size p (List.mem_cons_of_mem _ hp)
  cuts before after hsplit := by
    obtain ⟨hpair, htoken⟩ := h.cuts (part :: before) after (by rw [hsplit, List.cons_append])
    rw [List.flatten_cons] at hpair htoken
    refine ⟨fun hcut => hpair ?_, fun hcut => htoken ?_⟩
    · obtain ⟨⟨a, ha, hhigh⟩, hlow⟩ := hcut
      have hne : before.flatten ≠ [] := by
        rintro hnil
        rw [hnil] at ha
        cases ha
      exact ⟨⟨a, by rwa [List.getLast?_append_of_ne_nil _ hne], hhigh⟩, hlow⟩
    · obtain ⟨first, start, hfirst, hrest⟩ := hcut
      exact ⟨part ++ first, start, by rw [hfirst, List.append_assoc], hrest⟩

/-- The first cut. -/
theorem first (h : Split C text (part :: parts)) : Boundary C part parts.flatten := by
  have := h.cuts [part] parts rfl
  rwa [List.flatten_singleton] at this

/-- The parts of a text with paired surrogates have paired surrogates. -/
theorem paired (h : Split C text parts) (htext : Paired text) : ∀ p ∈ parts, Paired p := by
  induction parts generalizing text with
  | nil => nofun
  | cons part parts ih =>
    have hsplit := h.flatten
    rw [List.flatten_cons] at hsplit
    rw [← hsplit] at htext
    obtain ⟨hpart, hrest⟩ := PairedAfter.append htext (fun _ => rfl) h.first.1
    intro p hp
    rcases List.mem_cons.mp hp with rfl | hp
    · exact hpart
    · exact ih h.tail hrest p hp

/-- Part by part, a text renders as in one piece. -/
theorem insertText (h : Split C text parts) (htext : Paired text) (isNull : String → Bool)
    (document : Document) : parts.foldl (Texts.insertText C isNull) document =
      Texts.insertText C isNull document text := by
  have hall : ∀ document : Document, (∀ p ∈ parts, Paired p) →
      parts.foldl (Texts.insertText C isNull) document =
        document ++ C.rendered isNull 0 parts.flatten := by
    clear htext
    induction parts generalizing text with
    | nil => exact fun document _ => (List.append_nil document).symm
    | cons part parts ih =>
      intro document hpaired
      rw [List.foldl_cons, C.insertText_eq isNull document part,
        if_pos (hpaired part List.mem_cons_self),
        ih h.tail _ fun p hp => hpaired p (List.mem_cons_of_mem _ hp), List.flatten_cons,
        C.rendered_append isNull (Nat.zero_le _) h.first.2, List.append_assoc]
  rw [hall document (h.paired htext), C.insertText_eq isNull document text, if_pos htext, h.flatten]

end Split
end CppChat.Texts
