import CppChat.Foundation.Cbor
import CppChat.Foundation.Utf16

/-! # The container of a file attachment

A file travels as a CBOR map of a version, its name and its bytes. Names are strings of 16-bit
units; Qt's Unicode tables, its conversion to UTF-8 and its CBOR reader are given.
-/
namespace CppChat.Attachments
open Foundation
open Utf16 (Text utf16)
open Cbor (Bytes Scalar)

def maximumBytes : ℕ := 20 * 1024 * 1024
def maximumPayloadBytes : ℕ := maximumBytes - 1024

/-- What `Unpack` tells apart in a CBOR item. -/
inductive Item
  | integer (n : ℤ)
  | string (s : String)
  | byteArray (b : Bytes)
  | other
  deriving DecidableEq

inductive Value
  | map (entries : List (Item × Item))
  | other

def Item.ofScalar : Scalar → Item
  | .unsigned n => .integer n
  | .bytes b => .byteArray b
  | .text s => .string s

def itemEntries (entries : List Cbor.Entry) : List (Item × Item) :=
  entries.map fun e => (.ofScalar e.1, .ofScalar e.2)

/-- A string without unpaired surrogates is converted to its own characters; what stands for an
unpaired one is open. The reader gives the value and how far it read, and it reads what the
standard makes of a map with different keys. -/
structure Qt where
  isSpace : UInt16 → Bool
  isControl : UInt16 → Bool
  isFormat : UInt16 → Bool
  fileName : Text → Text
  toUtf8 : Text → String
  fromCbor : Bytes → Option (Value × ℕ)
  toUtf8_utf16 : ∀ s, toUtf8 (utf16 s) = s
  fromCbor_encodeMap : ∀ entries, Cbor.SmallMap entries → (entries.map Prod.fst).Nodup →
    fromCbor (Cbor.encodeMap entries) =
      some (.map (itemEntries entries), (Cbor.encodeMap entries).length)

variable (qt : Qt)

def trimmed (name : Text) : Text := ((name.dropWhile qt.isSpace).reverse.dropWhile qt.isSpace).reverse

/-- `/\:*?"<>|`. -/
def reserved : Text := utf16 "/\\:*?\"<>|"

def dot : UInt16 := 0x2E

def ValidName (name : Text) : Prop :=
  name ≠ [] ∧ name ≠ [dot] ∧ name ≠ [dot, dot] ∧ (utf8 (qt.toUtf8 name).toList).length ≤ 255 ∧
    name = trimmed qt name ∧ name.getLast? ≠ some dot ∧ qt.fileName name = name ∧
    ∀ u ∈ name, u ≠ 0 ∧ ¬ qt.isControl u ∧ ¬ qt.isFormat u ∧ u ∉ reserved

instance : DecidablePred (ValidName qt) := fun _ => inferInstanceAs (Decidable (_ ∧ _))

/-- The map with the name as the writer converts it. -/
def document (name : Text) (bytes : Bytes) : List Cbor.Entry :=
  [(.text "v", .unsigned 1), (.text "name", .text (qt.toUtf8 name)), (.text "data", .bytes bytes)]

def pack (name : Text) (bytes : Bytes) : Bytes :=
  if ¬ ValidName qt name ∨ maximumPayloadBytes < bytes.length then []
  else Cbor.encodeMap (document qt name bytes)

structure Document where
  name : Text
  bytes : Bytes
  valid : Bool
  deriving DecidableEq

def Document.empty : Document := ⟨[], [], false⟩

def lookup (entries : List (Item × Item)) (key : String) : Option Item :=
  (entries.find? fun e => e.1 = .string key).map Prod.snd

/-- The checks of the map. -/
def readDocument (entries : List (Item × Item)) : Document :=
  if entries.length ≠ 3 then .empty
  else match lookup entries "v", lookup entries "name", lookup entries "data" with
    | some (.integer v), some (.string name), some (.byteArray bytes) =>
      if v ≠ 1 then .empty
      else if ValidName qt (utf16 name) ∧ bytes.length ≤ maximumPayloadBytes then
        ⟨utf16 name, bytes, true⟩
      else .empty
    | _, _, _ => .empty

def unpack (encoded : Bytes) : Document :=
  if encoded = [] ∨ maximumBytes < encoded.length then .empty
  else match qt.fromCbor encoded with
    | some (.map entries, offset) =>
      if offset ≠ encoded.length then .empty else readDocument qt entries
    | _ => .empty

variable {qt} {name : Text} {bytes encoded : Bytes}

/-! ## Sizes -/

/-- The keys take one byte or four. -/
theorem length_keys : (utf8 "v".toList).length = 1 ∧ (utf8 "name".toList).length = 4 ∧
    (utf8 "data".toList).length = 4 := ⟨rfl, rfl, rfl⟩

theorem document_small (hname : ValidName qt name) (hbytes : bytes.length ≤ maximumPayloadBytes) :
    Cbor.SmallMap (document qt name bytes) := by
  have hsize := hname.2.2.2.1
  obtain ⟨hv, hkey, hdata⟩ := length_keys
  unfold maximumPayloadBytes maximumBytes at hbytes
  refine ⟨by simp [document], fun e he => ?_⟩
  simp only [document, List.mem_cons, List.not_mem_nil, or_false] at he
  rcases he with rfl | rfl | rfl
  · exact ⟨by simp only [Scalar.Small]; omega, by simp only [Scalar.Small]; omega⟩
  · exact ⟨by simp only [Scalar.Small]; omega, by simp only [Scalar.Small]; omega⟩
  · exact ⟨by simp only [Scalar.Small]; omega, by simp only [Scalar.Small]; omega⟩

/-- The margin of the limit is more than the map needs. -/
theorem document_length (hname : ValidName qt name) (hbytes : bytes.length ≤ maximumPayloadBytes) :
    (Cbor.encodeMap (document qt name bytes)).length ≤ maximumBytes := by
  have hsize := hname.2.2.2.1
  obtain ⟨hv, hkey, hdata⟩ := length_keys
  unfold maximumPayloadBytes maximumBytes at *
  have hnameHead := @Cbor.length_head_byte 3 _ (Nat.lt_succ_of_le hsize)
  have hbytesHead := @Cbor.length_head_le 2 bytes.length (by omega)
  have hmap : (Cbor.head 5 3).length = 1 := Cbor.length_head_small (by decide)
  have hone : ∀ major, (Cbor.head major 1).length = 1 := fun _ => Cbor.length_head_small (by decide)
  have hfour : (Cbor.head 3 4).length = 1 := Cbor.length_head_small (by decide)
  simp only [Cbor.encodeMap, document, List.length_cons, List.length_nil, Nat.reduceAdd,
    List.flatMap_cons, List.flatMap_nil, List.append_nil, List.length_append, Scalar.encode,
    hv, hkey, hdata, hmap, hone, hfour]
  omega

theorem length_pack_le (name : Text) (bytes : Bytes) :
    (pack qt name bytes).length ≤ maximumBytes := by
  unfold pack
  split
  · exact Nat.zero_le _
  next h =>
    rw [not_or, not_not, Nat.not_lt] at h
    exact document_length h.1 h.2

/-! ## The two directions -/

theorem lookup_document (name : Text) (bytes : Bytes) :
    lookup (itemEntries (document qt name bytes)) "v" = some (.integer 1) ∧
    lookup (itemEntries (document qt name bytes)) "name" = some (.string (qt.toUtf8 name)) ∧
    lookup (itemEntries (document qt name bytes)) "data" = some (.byteArray bytes) := by
  refine ⟨?_, ?_, ?_⟩
  all_goals simp [lookup, itemEntries, document, Item.ofScalar]

/-- What comes back is what the conversion makes of the name. -/
theorem unpack_pack (hname : ValidName qt name) (hbytes : bytes.length ≤ maximumPayloadBytes) :
    unpack qt (pack qt name bytes) =
      if ValidName qt (utf16 (qt.toUtf8 name)) then ⟨utf16 (qt.toUtf8 name), bytes, true⟩
      else .empty := by
  have hpack : pack qt name bytes = Cbor.encodeMap (document qt name bytes) :=
    if_neg (not_or.mpr ⟨not_not.mpr hname, Nat.not_lt.mpr hbytes⟩)
  have hread := qt.fromCbor_encodeMap _ (document_small hname hbytes) (by simp [document])
  have hsize : ¬ (Cbor.encodeMap (document qt name bytes) = [] ∨
      maximumBytes < (Cbor.encodeMap (document qt name bytes)).length) := by
    refine not_or.mpr ⟨?_, Nat.not_lt.mpr (document_length hname hbytes)⟩
    simp [Cbor.encodeMap, Cbor.head, document]
  obtain ⟨hv, hnameItem, hdata⟩ := @lookup_document qt name bytes
  have hlength : (itemEntries (document qt name bytes)).length = 3 := rfl
  rw [hpack, unpack, if_neg hsize, hread]
  dsimp only
  rw [if_neg (not_not.mpr rfl), readDocument, if_neg (not_not.mpr hlength), hv, hnameItem, hdata]
  simp only [ne_eq, not_true_eq_false, if_false, hbytes, and_true]

/-- A map gives nothing, or a document with the name of a string. -/
theorem readDocument_cases (entries : List (Item × Item)) : readDocument qt entries = .empty ∨
    ∃ s bytes, readDocument qt entries = ⟨utf16 s, bytes, true⟩ ∧ ValidName qt (utf16 s) ∧
      bytes.length ≤ maximumPayloadBytes := by
  unfold readDocument
  split
  · exact .inl rfl
  split
  · split
    · exact .inl rfl
    split
    next hvalid => exact .inr ⟨_, _, rfl, hvalid⟩
    · exact .inl rfl
  · exact .inl rfl

theorem unpack_cases (encoded : Bytes) : unpack qt encoded = .empty ∨
    ∃ s bytes, unpack qt encoded = ⟨utf16 s, bytes, true⟩ ∧ ValidName qt (utf16 s) ∧
      bytes.length ≤ maximumPayloadBytes := by
  unfold unpack
  split
  · exact .inl rfl
  split
  · split
    · exact .inl rfl
    · exact readDocument_cases _
  · exact .inl rfl

/-- A name comes back exactly when its surrogates are paired. -/
theorem unpack_pack_iff (hname : ValidName qt name) (hbytes : bytes.length ≤ maximumPayloadBytes) :
    unpack qt (pack qt name bytes) = ⟨name, bytes, true⟩ ↔ Utf16.Paired name := by
  constructor
  · intro h
    rcases @unpack_cases qt (pack qt name bytes) with hempty | ⟨s, b, hdocument, -⟩
    · rw [hempty] at h
      cases h
    · rw [hdocument, Document.mk.injEq] at h
      exact h.1 ▸ Utf16.paired_utf16 s
  · intro hpaired
    obtain ⟨s, rfl⟩ := Utf16.exists_utf16 hpaired
    rw [unpack_pack hname hbytes, qt.toUtf8_utf16, if_pos hname]

/-- Every packed file is within the limit, a valid name and its file come back exactly when the
surrogates of the name are paired, and what was unpacked can be packed again. -/
theorem container_round_trip (qt : Qt) :
    (∀ name bytes, (pack qt name bytes).length ≤ maximumBytes) ∧
    (∀ name bytes, ValidName qt name → bytes.length ≤ maximumPayloadBytes →
      (unpack qt (pack qt name bytes) = ⟨name, bytes, true⟩ ↔ Utf16.Paired name)) ∧
    ∀ encoded, (unpack qt encoded).valid = true →
      pack qt (unpack qt encoded).name (unpack qt encoded).bytes ≠ [] ∧
      unpack qt (pack qt (unpack qt encoded).name (unpack qt encoded).bytes) =
        unpack qt encoded := by
  refine ⟨length_pack_le, fun name bytes => unpack_pack_iff, fun encoded hvalid => ?_⟩
  rcases @unpack_cases qt encoded with hempty | ⟨s, bytes, hdocument, hname, hbytes⟩
  · rw [hempty] at hvalid
    cases hvalid
  · rw [hdocument]
    have hagain := (unpack_pack_iff hname hbytes).mpr (Utf16.paired_utf16 s)
    refine ⟨fun hnil => ?_, hagain⟩
    dsimp only at hnil
    rw [hnil] at hagain
    exact Bool.false_ne_true (congrArg Document.valid hagain)

/-! ## A name that is no string -/

/-- The characters, with `?` for an unpaired surrogate. -/
def decodeOrReplace : Text → List Char
  | [] => []
  | [u] => if Utf16.IsHighSurrogate u ∨ Utf16.IsLowSurrogate u then ['?'] else [.ofNat u.toNat]
  | u :: v :: rest =>
    if Utf16.IsHighSurrogate u ∧ Utf16.IsLowSurrogate v then
      .ofNat (0x10000 + (u.toNat - 0xD800) * 0x400 + (v.toNat - 0xDC00)) :: decodeOrReplace rest
    else if Utf16.IsHighSurrogate u ∨ Utf16.IsLowSurrogate u then '?' :: decodeOrReplace (v :: rest)
    else .ofNat u.toNat :: decodeOrReplace (v :: rest)

theorem decodeOrReplace_unit {u : UInt16} (hhigh : ¬ Utf16.IsHighSurrogate u)
    (hlow : ¬ Utf16.IsLowSurrogate u) (rest : Text) :
    decodeOrReplace (u :: rest) = .ofNat u.toNat :: decodeOrReplace rest := by
  cases rest with
  | nil => simp [decodeOrReplace, hhigh, hlow]
  | cons v rest => simp [decodeOrReplace, hhigh, hlow]

theorem decodeOrReplace_encode (c : Char) (rest : Text) :
    decodeOrReplace (Utf16.encode c ++ rest) = c :: decodeOrReplace rest := by
  have hvalid : c.toNat < 0xD800 ∨ 0xDFFF < c.toNat ∧ c.toNat < 0x110000 := c.valid
  unfold Utf16.encode
  split
  next hsmall =>
    have hn : (UInt16.ofNat c.toNat).toNat = c.toNat := by
      rw [UInt16.toNat_ofNat', Nat.mod_eq_of_lt hsmall]
    rw [List.singleton_append, decodeOrReplace_unit (by unfold Utf16.IsHighSurrogate; omega)
      (by unfold Utf16.IsLowSurrogate; omega), hn, Char.ofNat_toNat]
  next hlarge =>
    have hhigh : (UInt16.ofNat (0xD800 + (c.toNat - 0x10000) / 0x400)).toNat =
        0xD800 + (c.toNat - 0x10000) / 0x400 := by
      rw [UInt16.toNat_ofNat', Nat.mod_eq_of_lt (by omega)]
    have hlow : (UInt16.ofNat (0xDC00 + (c.toNat - 0x10000) % 0x400)).toNat =
        0xDC00 + (c.toNat - 0x10000) % 0x400 := by
      rw [UInt16.toNat_ofNat', Nat.mod_eq_of_lt (by omega)]
    have hsum : 0x10000 + (0xD800 + (c.toNat - 0x10000) / 0x400 - 0xD800) * 0x400 +
        (0xDC00 + (c.toNat - 0x10000) % 0x400 - 0xDC00) = c.toNat := by omega
    rw [List.cons_append, List.singleton_append, decodeOrReplace, if_pos, hhigh, hlow, hsum,
      Char.ofNat_toNat]
    exact ⟨by unfold Utf16.IsHighSurrogate; omega, by unfold Utf16.IsLowSurrogate; omega⟩

def toUtf8OrReplace (name : Text) : String := .ofList (decodeOrReplace name)

theorem toUtf8OrReplace_utf16 (s : String) : toUtf8OrReplace (utf16 s) = s := by
  have hchars : ∀ cs : List Char, decodeOrReplace (cs.flatMap Utf16.encode) = cs := by
    intro cs
    induction cs with
    | nil => rfl
    | cons c cs ih => rw [List.flatMap_cons, decodeOrReplace_encode, ih]
  rw [toUtf8OrReplace, utf16, hchars, String.ofList_toList]

def readCbor (encoded : Bytes) : Option (Value × ℕ) :=
  (Cbor.readMap encoded).map fun x => (.map (itemEntries x.1), encoded.length - x.2.length)

theorem readCbor_encodeMap (entries : List Cbor.Entry) (hsmall : Cbor.SmallMap entries)
    (_ : (entries.map Prod.fst).Nodup) : readCbor (Cbor.encodeMap entries) =
      some (.map (itemEntries entries), (Cbor.encodeMap entries).length) := by
  have hread := Cbor.readMap_encodeMap hsmall []
  rw [List.append_nil] at hread
  rw [readCbor, hread]
  rfl

/-- The categories and blanks of the first units, and the part behind the last slash. -/
def sampleQt : Qt where
  isSpace u := u = 0x20 ∨ 0x09 ≤ u.toNat ∧ u.toNat ≤ 0x0D
  isControl u := u.toNat ≤ 0x1F ∨ 0x7F ≤ u.toNat ∧ u.toNat ≤ 0x9F
  isFormat u := u = 0xAD ∨ 0x200B ≤ u.toNat ∧ u.toNat ≤ 0x200F ∨ u = 0xFEFF
  fileName name := (name.reverse.takeWhile fun u => u ≠ 0x2F).reverse
  toUtf8 := toUtf8OrReplace
  fromCbor := readCbor
  toUtf8_utf16 := toUtf8OrReplace_utf16
  fromCbor_encodeMap := readCbor_encodeMap

/-- Half of a pair is a valid name that does not come back. -/
theorem half_pair_lost : ¬ ∀ (qt : Qt) (name : Text) (bytes : Bytes), ValidName qt name →
    bytes.length ≤ maximumPayloadBytes → unpack qt (pack qt name bytes) = ⟨name, bytes, true⟩ := by
  intro h
  have hname : ValidName sampleQt [0xD800] := by
    refine ⟨nofun, nofun, nofun, by decide, rfl, nofun, rfl, ?_⟩
    rw [List.forall_mem_singleton]
    decide
  have hback := h sampleQt [0xD800] [] hname (Nat.zero_le _)
  exact absurd ((unpack_pack_iff hname (Nat.zero_le _)).mp hback) (by decide)

end CppChat.Attachments
