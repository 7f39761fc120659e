import Mathlib.Data.List.Basic

/-! # Text in UTF-8

The bytes of a text determine it, and a text stays one when characters of one byte are cut off
its ends.
-/
namespace CppChat.Foundation

def utf8 (cs : List Char) : List UInt8 := cs.flatMap String.utf8EncodeChar

def utf8Decode? (bytes : List UInt8) : Option (List Char) :=
  bytes.toByteArray.utf8Decode?.map Array.toList

def IsUtf8 (bytes : List UInt8) : Prop := ∃ cs, utf8 cs = bytes

variable {cs cs' : List Char} {bytes : List UInt8} {b : UInt8} {c : Char}

@[simp] theorem utf8_nil : utf8 [] = [] := rfl

@[simp] theorem utf8_cons : utf8 (c :: cs) = String.utf8EncodeChar c ++ utf8 cs :=
  List.flatMap_cons

@[simp] theorem utf8_append : utf8 (cs ++ cs') = utf8 cs ++ utf8 cs' := List.flatMap_append

@[simp] theorem utf8Decode?_utf8 (cs : List Char) : utf8Decode? (utf8 cs) = some cs := by
  have hencode : (utf8 cs).toByteArray = cs.utf8Encode := rfl
  rw [utf8Decode?, hencode, List.utf8Decode?_utf8Encode]
  rfl

theorem utf8_injective (h : utf8 cs = utf8 cs') : cs = cs' := by
  have hdecode := utf8Decode?_utf8 cs
  rw [h, utf8Decode?_utf8] at hdecode
  exact (Option.some_inj.mp hdecode).symm

theorem isUtf8_utf8 : IsUtf8 (utf8 cs) := ⟨cs, rfl⟩

theorem utf8Decode?_eq_some (h : utf8Decode? bytes = some cs) : utf8 cs = bytes := by
  obtain ⟨chars, hchars, rfl⟩ := Option.map_eq_some_iff.mp h
  have hsome : bytes.toByteArray.utf8Decode?.isSome := by rw [hchars]; rfl
  have hencode := ByteArray.utf8Encode_get_utf8Decode? (b := bytes.toByteArray) (h := hsome)
  simp only [hchars, Option.get_some] at hencode
  have hbytes := congrArg (fun b : ByteArray => b.data.toList) hencode
  simpa [List.utf8Encode, utf8] using hbytes

theorem utf8Decode?_isSome : (utf8Decode? bytes).isSome ↔ IsUtf8 bytes := by
  constructor
  · intro h
    obtain ⟨cs, hcs⟩ := Option.isSome_iff_exists.mp h
    exact ⟨cs, utf8Decode?_eq_some hcs⟩
  · rintro ⟨cs, rfl⟩
    rw [utf8Decode?_utf8]
    rfl

instance : DecidablePred IsUtf8 := fun _ => decidable_of_iff _ utf8Decode?_isSome

/-- A character is one byte below `0x80`, or several from there on. -/
theorem utf8EncodeChar_cases (c : Char) :
    c.toNat < 0x80 ∧ String.utf8EncodeChar c = [UInt8.ofNat c.toNat] ∨
      0x80 ≤ c.toNat ∧ 1 < (String.utf8EncodeChar c).length ∧
        ∀ b ∈ String.utf8EncodeChar c, 0x80 ≤ b.toNat := by
  unfold String.utf8EncodeChar
  dsimp only
  split
  next hascii => exact .inl ⟨Nat.lt_succ_of_le hascii, rfl⟩
  next hascii =>
    refine .inr ⟨Nat.lt_of_not_le hascii, ?_⟩
    split
    · refine ⟨by simp, ?_⟩
      simp only [List.mem_cons, List.not_mem_nil, or_false, forall_eq_or_imp, forall_eq,
        UInt8.toNat_ofNat']
      omega
    split
    · refine ⟨by simp, ?_⟩
      simp only [List.mem_cons, List.not_mem_nil, or_false, forall_eq_or_imp, forall_eq,
        UInt8.toNat_ofNat']
      omega
    · refine ⟨by simp, ?_⟩
      simp only [List.mem_cons, List.not_mem_nil, or_false, forall_eq_or_imp, forall_eq,
        UInt8.toNat_ofNat']
      omega

theorem IsUtf8.of_cons (h : IsUtf8 (b :: bytes)) (hb : b.toNat < 0x80) : IsUtf8 bytes := by
  obtain ⟨cs, hcs⟩ := h
  cases cs with
  | nil => cases hcs
  | cons c cs =>
    rw [utf8_cons] at hcs
    rcases utf8EncodeChar_cases c with ⟨-, hone⟩ | ⟨-, hne, hall⟩
    · rw [hone, List.singleton_append] at hcs
      exact ⟨cs, (List.cons.inj hcs).2⟩
    · obtain ⟨a, rest, hrest⟩ :=
        List.exists_cons_of_ne_nil (List.length_pos_iff.mp (Nat.zero_lt_of_lt hne))
      rw [hrest, List.cons_append] at hcs
      have := hall a (by rw [hrest]; exact List.mem_cons_self)
      rw [(List.cons.inj hcs).1] at this
      omega

theorem IsUtf8.of_snoc (h : IsUtf8 (bytes ++ [b])) (hb : b.toNat < 0x80) : IsUtf8 bytes := by
  obtain ⟨cs, hcs⟩ := h
  rcases List.eq_nil_or_concat' cs with rfl | ⟨cs, c, rfl⟩
  · exact absurd hcs (by simp)
  · rw [utf8_append, utf8_cons, utf8_nil, List.append_nil] at hcs
    rcases utf8EncodeChar_cases c with ⟨-, hone⟩ | ⟨-, hne, hall⟩
    · rw [hone] at hcs
      exact ⟨cs, (List.append_inj' hcs rfl).1⟩
    · obtain ⟨init, a, hinit⟩ := (List.eq_nil_or_concat' _).resolve_left
        (List.length_pos_iff.mp (Nat.zero_lt_of_lt hne))
      rw [hinit, ← List.append_assoc] at hcs
      have := hall a (by rw [hinit]; simp)
      rw [(List.cons.inj (List.append_inj' hcs rfl).2).1] at this
      omega

theorem isUtf8_singleton : IsUtf8 [b] ↔ b.toNat < 0x80 := by
  constructor
  · rintro ⟨cs, hcs⟩
    cases cs with
    | nil => cases hcs
    | cons c cs =>
      rw [utf8_cons] at hcs
      rcases utf8EncodeChar_cases c with ⟨hc, hone⟩ | ⟨-, hlength, -⟩
      · rw [hone, List.singleton_append] at hcs
        rw [← (List.cons.inj hcs).1, UInt8.toNat_ofNat']
        omega
      · have := congrArg List.length hcs
        rw [List.length_append, List.length_singleton] at this
        omega
  · intro hb
    have hc : (Char.ofNat b.toNat).toNat = b.toNat := by
      rw [Char.ofNat, dif_pos (.inl (by omega))]
      rfl
    refine ⟨[.ofNat b.toNat], ?_⟩
    rcases utf8EncodeChar_cases (.ofNat b.toNat) with ⟨-, hone⟩ | ⟨hle, -⟩
    · rw [utf8_cons, hone, hc, UInt8.ofNat_toNat]
      rfl
    · omega

end CppChat.Foundation
