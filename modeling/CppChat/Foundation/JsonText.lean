import CppChat.Foundation.Utf16
import CppChat.Foundation.Utf8

/-! # Strings and lists of strings in JSON

A writer that escapes everything outside printable ASCII, a reader, and the round trip.
-/
namespace CppChat.Foundation.JsonText

abbrev Bytes := List UInt8

/-! ## Hexadecimal digits -/

def hexDigit (n : ℕ) : UInt8 := if n < 10 then .ofNat (0x30 + n) else .ofNat (0x57 + n)

def hexValue (b : UInt8) : Option ℕ :=
  if 0x30 ≤ b.toNat ∧ b.toNat ≤ 0x39 then some (b.toNat - 0x30)
  else if 0x61 ≤ b.toNat ∧ b.toNat ≤ 0x66 then some (b.toNat - 0x57)
  else if 0x41 ≤ b.toNat ∧ b.toNat ≤ 0x46 then some (b.toNat - 0x37)
  else none

theorem hexValue_hexDigit {n : ℕ} (h : n < 16) : hexValue (hexDigit n) = some n := by
  have hall : ∀ n < 16, hexValue (hexDigit n) = some n := by decide
  exact hall n h

/-- `\uXXXX`. -/
def unitText (u : UInt16) : Bytes :=
  [0x5C, 0x75, hexDigit (u.toNat / 0x1000), hexDigit (u.toNat / 0x100 % 0x10),
    hexDigit (u.toNat / 0x10 % 0x10), hexDigit (u.toNat % 0x10)]

def readUnit (a b c d : UInt8) : Option UInt16 := do
  let a ← hexValue a
  let b ← hexValue b
  let c ← hexValue c
  let d ← hexValue d
  return .ofNat (0x1000 * a + 0x100 * b + 0x10 * c + d)

theorem readUnit_unitText (u : UInt16) :
    readUnit (hexDigit (u.toNat / 0x1000)) (hexDigit (u.toNat / 0x100 % 0x10))
      (hexDigit (u.toNat / 0x10 % 0x10)) (hexDigit (u.toNat % 0x10)) = some u := by
  have hu := u.toNat_lt
  have hsum : 0x1000 * (u.toNat / 0x1000) + 0x100 * (u.toNat / 0x100 % 0x10) +
      0x10 * (u.toNat / 0x10 % 0x10) + u.toNat % 0x10 = u.toNat := by omega
  simp only [readUnit, hexValue_hexDigit (show u.toNat / 0x1000 < 16 by omega),
    hexValue_hexDigit (Nat.mod_lt _ (show 0 < 16 by decide)), Option.bind_eq_bind,
    Option.bind_some, hsum, UInt16.ofNat_toNat]
  rfl

/-! ## Characters -/

/-- The escapes of one letter: the character and the letter. -/
def letters : List (Char × UInt8) :=
  [('"', 0x22), ('\\', 0x5C), ('\x08', 0x62), ('\x0c', 0x66), ('\n', 0x6E), ('\r', 0x72),
    ('\t', 0x74)]

def escape (c : Char) : Bytes :=
  match letters.find? fun x => x.1 = c with
  | some x => [0x5C, x.2]
  | none =>
    if c.toNat < 0x20 then unitText (.ofNat c.toNat)
    else if c.toNat < 0x80 then [.ofNat c.toNat]
    else (Utf16.encode c).flatMap unitText

def quoted (cs : List Char) : Bytes := 0x22 :: (cs.flatMap escape ++ [0x22])

/-- What stands between the quotes. -/
inductive Piece
  | byte (b : UInt8)
  | unit (u : UInt16)

def readLetter (letter : UInt8) : Option UInt8 :=
  if letter = 0x2F then some 0x2F
  else (letters.find? fun x => x.2 = letter).map fun x => .ofNat x.1.toNat

/-- Reads up to the closing quote. -/
def readPieces : Bytes → Option (List Piece × Bytes)
  | [] => none
  | b :: rest =>
    if b = 0x22 then some ([], rest)
    else if b ≠ 0x5C then (readPieces rest).map fun x => (.byte b :: x.1, x.2)
    else match rest with
      | [] => none
      | letter :: rest =>
        if letter ≠ 0x75 then
          (readLetter letter).bind fun b =>
            (readPieces rest).map fun x => (.byte b :: x.1, x.2)
        else match rest with
          | h0 :: h1 :: h2 :: h3 :: rest =>
            (readUnit h0 h1 h2 h3).bind fun u =>
              (readPieces rest).map fun x => (.unit u :: x.1, x.2)
          | _ => none

/-- The bytes of the pieces; a pair of surrogates is one character. -/
def join : List Piece → Option Bytes
  | [] => some []
  | .byte b :: rest => (join rest).map (b :: ·)
  | .unit high :: .unit low :: rest =>
    if Utf16.IsHighSurrogate high then
      if Utf16.IsLowSurrogate low then
        (join rest).map (utf8 [.ofNat (0x10000 + (high.toNat - 0xD800) * 0x400 +
          (low.toNat - 0xDC00))] ++ ·)
      else none
    else if Utf16.IsLowSurrogate high then none
    else (join (.unit low :: rest)).map (utf8 [.ofNat high.toNat] ++ ·)
  | .unit u :: rest =>
    if Utf16.IsHighSurrogate u ∨ Utf16.IsLowSurrogate u then none
    else (join rest).map (utf8 [.ofNat u.toNat] ++ ·)

def readString (text : Bytes) : Option (Bytes × Bytes) :=
  (readPieces text).bind fun x => (join x.1).map fun bytes => (bytes, x.2)

/-! ## The round trip of a string -/

/-- What the reader finds of a character. -/
def toPieces (c : Char) : List Piece :=
  if c ∈ letters.map Prod.fst then [.byte (.ofNat c.toNat)]
  else if c.toNat < 0x20 then [.unit (.ofNat c.toNat)]
  else if c.toNat < 0x80 then [.byte (.ofNat c.toNat)]
  else (Utf16.encode c).map .unit

theorem mem_letters {x : Char × UInt8} (h : x ∈ letters) :
    x.2 ≠ 0x75 ∧ readLetter x.2 = some (.ofNat x.1.toNat) ∧ x.1.toNat < 0x80 := by
  have hall : ∀ x ∈ letters,
      x.2 ≠ 0x75 ∧ readLetter x.2 = some (.ofNat x.1.toNat) ∧ x.1.toNat < 0x80 := by
    simp only [letters, List.forall_mem_cons]
    decide
  exact hall x h

theorem readPieces_unit (u : UInt16) (rest : Bytes) : readPieces (unitText u ++ rest) =
    (readPieces rest).map fun x => (.unit u :: x.1, x.2) := by
  simp [unitText, readPieces, readUnit_unitText]

theorem readPieces_units (us : List UInt16) (rest : Bytes) :
    readPieces (us.flatMap unitText ++ rest) =
      (readPieces rest).map fun x => (us.map .unit ++ x.1, x.2) := by
  induction us with
  | nil => simp
  | cons u us ih =>
    rw [List.flatMap_cons, List.append_assoc, readPieces_unit, ih]
    cases readPieces rest <;> rfl

theorem readPieces_byte {b : UInt8} (hquote : b ≠ 0x22) (hslash : b ≠ 0x5C) (rest : Bytes) :
    readPieces (b :: rest) = (readPieces rest).map fun x => (.byte b :: x.1, x.2) := by
  rw [readPieces.eq_def]
  simp [hquote, hslash]

theorem readPieces_letter {letter b : UInt8} (hne : letter ≠ 0x75) (h : readLetter letter = some b)
    (rest : Bytes) : readPieces (0x5C :: letter :: rest) =
      (readPieces rest).map fun x => (.byte b :: x.1, x.2) := by
  rw [readPieces.eq_def]
  simp [hne, h]

theorem readPieces_escape (c : Char) (rest : Bytes) : readPieces (escape c ++ rest) =
    (readPieces rest).map fun x => (toPieces c ++ x.1, x.2) := by
  unfold escape toPieces
  cases hletter : letters.find? fun x => x.1 = c with
  | some x =>
    have hmem := List.mem_of_find?_eq_some hletter
    obtain ⟨hne, hread, -⟩ := mem_letters hmem
    have hfound := List.find?_some hletter
    obtain rfl : x.1 = c := of_decide_eq_true hfound
    rw [if_pos (List.mem_map_of_mem hmem)]
    exact readPieces_letter hne hread rest
  | none =>
    have hnot : c ∉ letters.map Prod.fst := by
      rintro hmem
      obtain ⟨x, hx, rfl⟩ := List.mem_map.mp hmem
      simpa using List.find?_eq_none.mp hletter x hx
    rw [if_neg hnot]
    dsimp only
    split
    · exact readPieces_unit _ _
    split
    next hascii =>
      have hbyte : ∀ x : Char × UInt8, x ∈ letters → UInt8.ofNat c.toNat ≠ .ofNat x.1.toNat := by
        intro x hx heq
        have hx' := (mem_letters hx).2.2
        rw [← UInt8.toNat_inj, UInt8.toNat_ofNat', UInt8.toNat_ofNat'] at heq
        exact hnot (List.mem_map.mpr ⟨x, hx, Char.toNat_inj.mp (by omega)⟩)
      exact readPieces_byte (hbyte ('"', 0x22) (by simp [letters]))
        (hbyte ('\\', 0x5C) (by simp [letters])) rest
    · exact readPieces_units _ _

theorem join_unit {u : UInt16} (hhigh : ¬ Utf16.IsHighSurrogate u)
    (hlow : ¬ Utf16.IsLowSurrogate u) (ps : List Piece) :
    join (.unit u :: ps) = (join ps).map (utf8 [.ofNat u.toNat] ++ ·) := by
  rcases ps with _ | ⟨p, ps⟩
  · simp [join, hhigh, hlow]
  · cases p <;> simp [join, hhigh, hlow]

theorem join_toPieces (c : Char) (ps : List Piece) :
    join (toPieces c ++ ps) = (join ps).map (utf8 [c] ++ ·) := by
  have hbyte : c.toNat < 0x80 →
      join (.byte (.ofNat c.toNat) :: ps) = (join ps).map (utf8 [c] ++ ·) := by
    intro h
    rcases utf8EncodeChar_cases c with ⟨-, hone⟩ | ⟨hle, -⟩
    · rw [utf8_cons, hone]
      rfl
    · omega
  have hvalid : c.toNat < 0xD800 ∨ 0xDFFF < c.toNat ∧ c.toNat < 0x110000 := c.valid
  have hunit : c.toNat < 0x10000 →
      join (.unit (.ofNat c.toNat) :: ps) = (join ps).map (utf8 [c] ++ ·) := by
    intro h
    have hn : (UInt16.ofNat c.toNat).toNat = c.toNat := by
      rw [UInt16.toNat_ofNat', Nat.mod_eq_of_lt h]
    rw [join_unit (by unfold Utf16.IsHighSurrogate; omega)
      (by unfold Utf16.IsLowSurrogate; omega), hn, Char.ofNat_toNat]
  unfold toPieces
  split
  next hletter =>
    obtain ⟨x, hx, rfl⟩ := List.mem_map.mp hletter
    exact hbyte (mem_letters hx).2.2
  split
  next hcontrol => exact hunit (by omega)
  split
  next hascii => exact hbyte hascii
  unfold Utf16.encode
  split
  next hsmall => exact hunit hsmall
  next hlarge =>
    have hhigh : (UInt16.ofNat (0xD800 + (c.toNat - 0x10000) / 0x400)).toNat =
        0xD800 + (c.toNat - 0x10000) / 0x400 := by
      rw [UInt16.toNat_ofNat', Nat.mod_eq_of_lt (by omega)]
    have hlow : (UInt16.ofNat (0xDC00 + (c.toNat - 0x10000) % 0x400)).toNat =
        0xDC00 + (c.toNat - 0x10000) % 0x400 := by
      rw [UInt16.toNat_ofNat', Nat.mod_eq_of_lt (by omega)]
    have hsum : 0x10000 + (0xD800 + (c.toNat - 0x10000) / 0x400 - 0xD800) * 0x400 +
        (0xDC00 + (c.toNat - 0x10000) % 0x400 - 0xDC00) = c.toNat := by omega
    simp only [List.map_cons, List.map_nil, List.cons_append, List.nil_append, join]
    rw [if_pos (by unfold Utf16.IsHighSurrogate; omega),
      if_pos (by unfold Utf16.IsLowSurrogate; omega), hhigh, hlow, hsum, Char.ofNat_toNat]

theorem readPieces_quoted (cs : List Char) (rest : Bytes) :
    readPieces (cs.flatMap escape ++ 0x22 :: rest) = some (cs.flatMap toPieces, rest) := by
  induction cs with
  | nil =>
    rw [readPieces.eq_def]
    simp
  | cons c cs ih =>
    rw [List.flatMap_cons, List.append_assoc, readPieces_escape, ih]
    rfl

theorem join_pieces (cs : List Char) : join (cs.flatMap toPieces) = some (utf8 cs) := by
  induction cs with
  | nil => rfl
  | cons c cs ih =>
    rw [List.flatMap_cons, join_toPieces, ih, utf8_cons, utf8_cons]
    simp

/-- A string is read back in UTF-8. -/
theorem readString_quoted (cs : List Char) (rest : Bytes) :
    readString (cs.flatMap escape ++ 0x22 :: rest) = some (utf8 cs, rest) := by
  rw [readString, readPieces_quoted, Option.bind_some, join_pieces]
  rfl

theorem quoted_injective {cs cs' : List Char} (h : quoted cs = quoted cs') : cs = cs' := by
  have hread := readString_quoted cs []
  rw [(List.cons.inj h).2, readString_quoted] at hread
  exact (utf8_injective (Prod.mk.inj (Option.some_inj.mp hread)).1).symm

/-! ## Lists of strings -/

/-- The elements without the opening bracket. -/
def elements : List (List Char) → Bytes
  | [] => [0x5D]
  | [cs] => quoted cs ++ [0x5D]
  | cs :: rest => quoted cs ++ 0x2C :: elements rest

def arrayText (items : List (List Char)) : Bytes := 0x5B :: elements items

/-- Reads `fuel` elements and what closes the list. -/
def readElements : ℕ → Bytes → Option (List Bytes)
  | 0, _ => none
  | fuel + 1, 0x22 :: text =>
    (readString text).bind fun x =>
      match x.2 with
      | [0x5D] => some [x.1]
      | 0x2C :: rest => (readElements fuel rest).map (x.1 :: ·)
      | _ => none
  | _, _ => none

def readArray (text : Bytes) : Option (List Bytes) :=
  match text with
  | [0x5B, 0x5D] => some []
  | 0x5B :: rest => readElements rest.length rest
  | _ => none

theorem readElements_elements (cs : List Char) (rest : List (List Char)) {fuel : ℕ}
    (hfuel : rest.length < fuel) :
    readElements fuel (elements (cs :: rest)) = some (utf8 cs :: rest.map utf8) := by
  induction rest generalizing cs fuel with
  | nil =>
    obtain ⟨fuel, rfl⟩ := Nat.exists_eq_succ_of_ne_zero (Nat.ne_of_gt hfuel)
    simp only [elements, quoted, List.cons_append, List.append_assoc, List.nil_append,
      readElements, readString_quoted, Option.bind_some, List.map_nil]
  | cons next rest ih =>
    rw [List.length_cons] at hfuel
    obtain ⟨fuel, rfl⟩ := Nat.exists_eq_succ_of_ne_zero (Nat.ne_of_gt (Nat.zero_lt_of_lt hfuel))
    simp only [elements, quoted, List.cons_append, List.append_assoc, List.nil_append,
      readElements, readString_quoted, Option.bind_some]
    rw [ih next (Nat.lt_of_succ_lt_succ hfuel)]
    rfl

theorem length_lt_elements (items : List (List Char)) : items.length < (elements items).length := by
  induction items using elements.induct with
  | case1 => simp [elements]
  | case2 cs => simp [elements, quoted]
  | case3 cs rest hne ih =>
    rw [elements.eq_3 _ _ hne]
    simp only [quoted, List.length_cons, List.length_append]
    omega

/-- A list is read back in UTF-8. -/
theorem readArray_arrayText (items : List (List Char)) :
    readArray (arrayText items) = some (items.map utf8) := by
  cases items with
  | nil => rfl
  | cons cs rest =>
    have hlength := length_lt_elements (cs :: rest)
    rw [List.length_cons] at hlength
    have hread := readElements_elements cs rest (Nat.lt_of_succ_lt hlength)
    obtain ⟨text, htext⟩ : ∃ text, elements (cs :: rest) = 0x22 :: text := by
      cases rest <;> exact ⟨_, rfl⟩
    rw [htext] at hread
    rw [arrayText, htext]
    exact hread

end CppChat.Foundation.JsonText
