import Mathlib.Algebra.GroupWithZero.Nat
import Mathlib.Algebra.Order.BigOperators.Group.List
import Mathlib.Algebra.Order.Group.Nat
import Mathlib.Data.Nat.Log

/-! # The size of styled JSON text

A styled writer puts every member of an object and every element of an array on a line of
its own, so the text of a document costs the sum of its parts. A writer is given by the
byte counts of those parts.
-/
namespace CppChat.Wire

inductive Scalar
  | number (n : Int)
  | bool (b : Bool)
  | text (s : String)
  deriving DecidableEq

abbrev Object := List (String × Scalar)

/-- Scalar members, and arrays of flat objects. -/
structure Document where
  members : Object
  arrays : List (String × List Object)

/-- The values of a 32-bit `int`. -/
def IsInt (n : Int) : Prop := n.natAbs ≤ 2 ^ 31

instance : DecidablePred IsInt := fun n => inferInstanceAs (Decidable (n.natAbs ≤ _))

/-- What a JSON library writes, in bytes: a scalar, and the braces, line breaks, indentation
and separators around a value. Text outside printable ASCII may be escaped. -/
structure Writer where
  number : Int → ℕ
  quoted : String → ℕ
  document : ℕ
  member : ℕ
  emptyArray : ℕ
  array : ℕ
  element : ℕ
  object : ℕ
  field : ℕ
  number_le : ∀ n, IsInt n → number n ≤ 11
  quoted_le : ∀ s, quoted s ≤ 6 * s.utf8ByteSize + 2
  document_le : document + 8 * member + emptyArray ≤ 128
  document_pos : 0 < document

variable (w : Writer)

def Scalar.size : Scalar → ℕ
  | .number n => w.number n
  | .bool b => if b then 4 else 5
  | .text s => w.quoted s

/-- Members at one depth, each with `around` bytes of layout. -/
def membersSize (around : ℕ) (o : Object) : ℕ :=
  (o.map fun m => around + w.quoted m.1 + m.2.size w).sum

def objectSize (o : Object) : ℕ := w.object + membersSize w w.field o

def arraySize (a : List Object) : ℕ :=
  if a = [] then w.emptyArray else w.array + (a.map fun o => w.element + objectSize w o).sum

/-- The length of `toStyledString`. -/
def Document.size (d : Document) : ℕ :=
  w.document + membersSize w w.member d.members +
    (d.arrays.map fun a => w.member + w.quoted a.1 + arraySize w a.2).sum

variable {w}

@[simp] theorem membersSize_nil (around : ℕ) : membersSize w around [] = 0 := rfl

@[simp] theorem membersSize_cons (around : ℕ) (m : String × Scalar) (o : Object) :
    membersSize w around (m :: o) = around + w.quoted m.1 + m.2.size w + membersSize w around o := by
  simp [membersSize]

@[simp] theorem membersSize_append (around : ℕ) (o o' : Object) :
    membersSize w around (o ++ o') = membersSize w around o + membersSize w around o' := by
  simp [membersSize]

/-! ## The writer of the servers -/

/-- One character between quotes, with `emitUTF8` off. -/
def escaped (c : Char) : ℕ :=
  if c ∈ ['"', '\\', '\x08', '\x0c', '\n', '\r', '\t'] then 2
  else if c.toNat < 0x20 then 6
  else if c.toNat < 0x80 then 1
  else if c.toNat < 0x10000 then 6
  else 12

def quotedSize (s : String) : ℕ := (s.toList.map escaped).sum + 2

def numberSize (n : Int) : ℕ := (if n < 0 then 1 else 0) + Nat.log 10 n.natAbs + 1

theorem escaped_le (c : Char) : escaped c ≤ 6 * c.utf8Size := by
  have hpos := c.utf8Size_pos
  unfold escaped
  split
  · omega
  split
  · omega
  split
  · omega
  split
  · omega
  next hlarge =>
    have hsize : 2 ≤ c.utf8Size := by
      unfold Char.utf8Size
      dsimp only
      split
      next hascii =>
        have hle : c.toNat ≤ 0x7F := hascii
        omega
      next => split_ifs <;> omega
    omega

theorem escaped_sum_le (l : List Char) :
    (l.map escaped).sum ≤ 6 * (String.ofList l).utf8ByteSize := by
  induction l with
  | nil => simp
  | cons c l ih =>
    have hsplit : String.ofList (c :: l) = String.singleton c ++ String.ofList l := by
      rw [String.singleton_eq_ofList, ← String.ofList_append]
      rfl
    rw [hsplit, String.utf8ByteSize_append, String.utf8ByteSize_singleton, List.map_cons,
      List.sum_cons, Nat.mul_add]
    exact Nat.add_le_add (escaped_le c) ih

theorem quotedSize_le (s : String) : quotedSize s ≤ 6 * s.utf8ByteSize + 2 := by
  obtain ⟨l, rfl⟩ := s.exists_eq_ofList
  rw [quotedSize, String.toList_ofList]
  exact Nat.add_le_add_right (escaped_sum_le l) 2

theorem quotedSize_replicate (n : ℕ) (c : Char) :
    quotedSize (String.ofList (List.replicate n c)) = n * escaped c + 2 := by
  rw [quotedSize, String.toList_ofList, List.map_replicate, List.sum_replicate_nat]

theorem numberSize_le {n : Int} (h : IsInt n) : numberSize n ≤ 11 := by
  have hlog : Nat.log 10 n.natAbs < 10 := by
    by_cases h0 : n.natAbs = 0
    · rw [h0]
      simp
    · refine Nat.log_lt_of_lt_pow h0 (lt_of_le_of_lt h (by decide))
  unfold numberSize
  split <;> omega

theorem document_le_128 : 3 + 8 * 6 + 2 ≤ 128 := by decide

theorem document_pos_3 : 0 < 3 := by decide

/-- JsonCpp's `StreamWriterBuilder` with its default settings: a tab for each level,
`" : "` after a key, one line for each member and element, and a final line feed. -/
def jsoncpp : Writer where
  number := numberSize
  quoted := quotedSize
  document := 3
  member := 6
  emptyArray := 2
  array := 5
  element := 4
  object := 4
  field := 8
  number_le _ := numberSize_le
  quoted_le := quotedSize_le
  document_le := document_le_128
  document_pos := document_pos_3

end CppChat.Wire
