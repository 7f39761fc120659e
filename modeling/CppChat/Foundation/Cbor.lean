import CppChat.Foundation.LittleEndian
import CppChat.Foundation.Utf8

/-! # Maps of scalars in CBOR

The shortest encoding of unsigned numbers, byte strings, texts and maps of these, and a reader
of it.
-/
namespace CppChat.Foundation.Cbor

abbrev Bytes := List UInt8

/-! ## Heads -/

/-- The major type with the number that follows it, in the fewest bytes. -/
def head (major n : ℕ) : Bytes :=
  if n < 24 then [.ofNat (32 * major + n)]
  else if n < 2 ^ 8 then .ofNat (32 * major + 24) :: (little 1 n).reverse
  else if n < 2 ^ 16 then .ofNat (32 * major + 25) :: (little 2 n).reverse
  else if n < 2 ^ 32 then .ofNat (32 * major + 26) :: (little 4 n).reverse
  else .ofNat (32 * major + 27) :: (little 8 n).reverse

/-- The count of bytes that follow the first one. -/
def extent (info : ℕ) : Option ℕ :=
  if info < 24 then some 0
  else if info = 24 then some 1
  else if info = 25 then some 2
  else if info = 26 then some 4
  else if info = 27 then some 8
  else none

def readHead : Bytes → Option (ℕ × ℕ × Bytes)
  | [] => none
  | first :: rest =>
    let info := first.toNat % 32
    (extent info).bind fun k =>
      if k = 0 then some (first.toNat / 32, info, rest)
      else if rest.length < k then none
      else some (first.toNat / 32, ofLittle (rest.take k).reverse, rest.drop k)

theorem readHead_long {major info k n : ℕ} (hmajor : major < 8) (hinfo : info < 32)
    (hk : extent info = some k) (hpos : k ≠ 0) (hn : n < 256 ^ k) (rest : Bytes) :
    readHead (.ofNat (32 * major + info) :: ((little k n).reverse ++ rest)) =
      some (major, n, rest) := by
  have hfirst : (UInt8.ofNat (32 * major + info)).toNat = 32 * major + info := by
    rw [UInt8.toNat_ofNat', Nat.mod_eq_of_lt (by omega)]
  have hmod : (32 * major + info) % 32 = info := by omega
  have hdiv : (32 * major + info) / 32 = major := by omega
  have hlength : (little k n).reverse.length = k := by
    rw [List.length_reverse, length_little]
  have hvalue : ofLittle (little k n) = n := by
    rw [ofLittle_eq_iff (by rwa [length_little]), length_little]
  rw [readHead, hfirst, hmod, hdiv, hk, Option.bind_some, if_neg hpos, if_neg,
    List.take_left' hlength, List.drop_left' hlength, List.reverse_reverse, hvalue]
  rw [List.length_append, hlength]
  omega

theorem readHead_head {major n : ℕ} (hmajor : major < 8) (hn : n < 2 ^ 64) (rest : Bytes) :
    readHead (head major n ++ rest) = some (major, n, rest) := by
  unfold head
  split
  next hsmall =>
    have hfirst : (UInt8.ofNat (32 * major + n)).toNat = 32 * major + n := by
      rw [UInt8.toNat_ofNat', Nat.mod_eq_of_lt (by omega)]
    have hmod : (32 * major + n) % 32 = n := by omega
    have hdiv : (32 * major + n) / 32 = major := by omega
    rw [List.singleton_append, readHead, hfirst, hmod, hdiv, extent, if_pos hsmall]
    rfl
  split
  next h => exact readHead_long hmajor (by decide) rfl (by decide) h rest
  split
  next h => exact readHead_long hmajor (by decide) rfl (by decide) h rest
  split
  next h => exact readHead_long hmajor (by decide) rfl (by decide) h rest
  · exact readHead_long hmajor (by decide) rfl (by decide) hn rest

theorem length_head_le {major n : ℕ} (hn : n < 2 ^ 32) : (head major n).length ≤ 5 := by
  unfold head
  split_ifs <;> simp

theorem length_head_small {major n : ℕ} (hn : n < 24) : (head major n).length = 1 := by
  rw [head, if_pos hn]
  rfl

theorem length_head_byte {major n : ℕ} (hn : n < 2 ^ 8) : (head major n).length ≤ 2 := by
  unfold head
  split_ifs <;> simp

/-! ## Scalars -/

inductive Scalar
  | unsigned (n : ℕ)
  | bytes (b : Bytes)
  | text (s : String)
  deriving DecidableEq

namespace Scalar

def encode : Scalar → Bytes
  | .unsigned n => head 0 n
  | .bytes b => head 2 b.length ++ b
  | .text s => head 3 (utf8 s.toList).length ++ utf8 s.toList

/-- The numbers and lengths that every reader can hold. -/
def Small : Scalar → Prop
  | .unsigned n => n < 2 ^ 31
  | .bytes b => b.length < 2 ^ 31
  | .text s => (utf8 s.toList).length < 2 ^ 31

def read (text : Bytes) : Option (Scalar × Bytes) :=
  (readHead text).bind fun x =>
    let (major, n, rest) := x
    if major = 0 then some (.unsigned n, rest)
    else if rest.length < n then none
    else if major = 2 then some (.bytes (rest.take n), rest.drop n)
    else if major = 3 then
      (utf8Decode? (rest.take n)).map fun cs => (.text (.ofList cs), rest.drop n)
    else none

theorem read_encode {x : Scalar} (h : x.Small) (rest : Bytes) :
    read (x.encode ++ rest) = some (x, rest) := by
  cases x with
  | unsigned n =>
    simp only [Small] at h
    rw [encode, read, readHead_head (by decide) (by omega)]
    rfl
  | bytes b =>
    simp only [Small] at h
    rw [encode, List.append_assoc, read, readHead_head (by decide) (by omega)]
    simp
  | text s =>
    simp only [Small] at h
    rw [encode, List.append_assoc, read, readHead_head (by decide) (by omega)]
    simp

end Scalar

/-! ## Maps -/

abbrev Entry := Scalar × Scalar

def encodeMap (entries : List Entry) : Bytes :=
  head 5 entries.length ++ entries.flatMap fun e => e.1.encode ++ e.2.encode

def readEntries : ℕ → Bytes → Option (List Entry × Bytes)
  | 0, text => some ([], text)
  | n + 1, text =>
    (Scalar.read text).bind fun key =>
      (Scalar.read key.2).bind fun value =>
        (readEntries n value.2).map fun x => ((key.1, value.1) :: x.1, x.2)

def readMap (text : Bytes) : Option (List Entry × Bytes) :=
  (readHead text).bind fun x => if x.1 = 5 then readEntries x.2.1 x.2.2 else none

def SmallMap (entries : List Entry) : Prop :=
  entries.length < 2 ^ 31 ∧ ∀ e ∈ entries, e.1.Small ∧ e.2.Small

theorem readMap_encodeMap {entries : List Entry} (h : SmallMap entries) (rest : Bytes) :
    readMap (encodeMap entries ++ rest) = some (entries, rest) := by
  obtain ⟨hlength, hsmall⟩ := h
  have hentries : readEntries entries.length
      ((entries.flatMap fun e => e.1.encode ++ e.2.encode) ++ rest) = some (entries, rest) := by
    clear hlength
    induction entries with
    | nil => rfl
    | cons e entries ih =>
      obtain ⟨hkey, hvalue⟩ := hsmall e List.mem_cons_self
      rw [List.flatMap_cons, List.append_assoc, List.append_assoc, List.length_cons, readEntries,
        Scalar.read_encode hkey, Option.bind_some, Scalar.read_encode hvalue, Option.bind_some,
        ih fun e he => hsmall e (List.mem_cons_of_mem _ he)]
      rfl
  rw [encodeMap, List.append_assoc, readMap, readHead_head (by decide) (by omega)]
  exact hentries

end CppChat.Foundation.Cbor
