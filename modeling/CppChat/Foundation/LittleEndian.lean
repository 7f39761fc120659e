import Mathlib.Data.Nat.Basic
import Mathlib.Tactic.Ring

/-! # Little-endian numbers and fixed layouts

A number written in a fixed count of bytes is read back, and a text starts with given parts
exactly when it holds each of them at its place.
-/
namespace CppChat.Foundation

/-! ## Numbers -/

/-- The bytes of a number, the lowest first. -/
def little : ℕ → ℕ → List UInt8
  | 0, _ => []
  | n + 1, v => UInt8.ofNat v :: little n (v / 256)

def ofLittle (bytes : List UInt8) : ℕ := bytes.foldr (fun b value => b.toNat + 256 * value) 0

@[simp] theorem length_little (n v : ℕ) : (little n v).length = n := by
  induction n generalizing v with
  | zero => rfl
  | succ n ih => rw [little, List.length_cons, ih]

@[simp] theorem ofLittle_cons (b : UInt8) (bytes : List UInt8) :
    ofLittle (b :: bytes) = b.toNat + 256 * ofLittle bytes := rfl

theorem ofLittle_lt (bytes : List UInt8) : ofLittle bytes < 256 ^ bytes.length := by
  induction bytes with
  | nil => exact Nat.one_pos
  | cons b bytes ih =>
    have hb := b.toNat_lt
    rw [ofLittle_cons, List.length_cons, Nat.pow_succ]
    omega

theorem ofLittle_snoc (bytes : List UInt8) (b : UInt8) :
    ofLittle (bytes ++ [b]) = ofLittle bytes + 256 ^ bytes.length * b.toNat := by
  induction bytes with
  | nil => simp [ofLittle]
  | cons c bytes ih =>
    rw [List.cons_append, ofLittle_cons, ofLittle_cons, ih, List.length_cons, Nat.pow_succ]
    ring

/-- The bytes and the number determine each other. -/
theorem ofLittle_eq_iff {bytes : List UInt8} {v : ℕ} (hv : v < 256 ^ bytes.length) :
    ofLittle bytes = v ↔ bytes = little bytes.length v := by
  induction bytes generalizing v with
  | nil =>
    rw [List.length_nil, Nat.pow_zero] at hv
    simp only [ofLittle, List.foldr_nil, little, List.length_nil, iff_true]
    omega
  | cons b bytes ih =>
    have hb := b.toNat_lt
    have hrest : v / 256 < 256 ^ bytes.length := by
      rw [List.length_cons, Nat.pow_succ] at hv
      omega
    rw [ofLittle_cons, List.length_cons, little, List.cons.injEq, ← ih hrest,
      ← UInt8.toNat_inj, UInt8.toNat_ofNat']
    omega

/-! ## Layouts -/

variable {α : Type*}

/-- Each part stands behind the one before it. -/
def HasParts (text : List α) : List (List α) → Prop
  | [] => True
  | part :: rest => text.take part.length = part ∧ HasParts (text.drop part.length) rest

theorem take_flatten_iff {text : List α} {parts : List (List α)} :
    text.take parts.flatten.length = parts.flatten ↔ HasParts text parts := by
  induction parts generalizing text with
  | nil => simp [HasParts]
  | cons part rest ih =>
    rw [List.flatten_cons, List.length_append, HasParts, ← ih]
    constructor
    · intro h
      have htake := congrArg (List.take part.length) h
      have hdrop := congrArg (List.drop part.length) h
      rw [List.take_take, List.take_left, Nat.min_eq_left (Nat.le_add_right ..)] at htake
      rw [List.drop_take, List.drop_left, Nat.add_sub_cancel_left] at hdrop
      exact ⟨htake, hdrop⟩
    · rintro ⟨htake, hdrop⟩
      rw [List.take_add, htake, hdrop]

end CppChat.Foundation
