import Mathlib.Algebra.GroupWithZero.Nat
import Mathlib.Data.List.Infix

/-! # Streams of packets

A reader takes the first packet off a text or finds that none is complete. What stands behind a
complete packet changes nothing about it, so the packets of a stream do not depend on how the
stream was cut when it arrived.
-/
namespace CppChat.Foundation

variable {β π : Type*}

/-- A reader of single packets over texts of `β`. -/
structure Framing (β π : Type*) where
  take : List β → Option (π × List β)
  shorter : ∀ {s : List β} {p : π} {r : List β}, take s = some (p, r) → r.length < s.length
  stable : ∀ {s : List β} {p : π} {r : List β} (t : List β),
    take s = some (p, r) → take (s ++ t) = some (p, r ++ t)

namespace Framing
variable (F : Framing β π)

/-- All complete packets of a text and what is left behind them. -/
def split (s : List β) : List π × List β :=
  match h : F.take s with
  | none => ([], s)
  | some (p, r) =>
    have := F.shorter h
    let q := split r
    (p :: q.1, q.2)
  termination_by s.length

/-- The complete packets of a text. -/
def packets (s : List β) : List π := (F.split s).1

/-- The text behind the last complete packet. -/
def rest (s : List β) : List β := (F.split s).2

/-- The packets that a text starts with are whole, and nothing else is in it. -/
def Whole (s : List β) (ps : List π) : Prop := F.split s = (ps, [])

variable {F} {s t r : List β} {p : π} {ps qs : List π}

theorem split_of_none (h : F.take s = none) : F.split s = ([], s) := by
  rw [split]
  split
  · rfl
  next h' => simp [h] at h'

theorem split_of_some (h : F.take s = some (p, r)) :
    F.split s = (p :: F.packets r, F.rest r) := by
  rw [split]
  split
  next h' => simp [h] at h'
  next h' =>
    rw [h] at h'
    cases h'
    rfl

/-- Packets that arrive in two parts. -/
theorem split_append (s t : List β) :
    F.split (s ++ t) = (F.packets s ++ F.packets (F.rest s ++ t), F.rest (F.rest s ++ t)) := by
  induction hn : s.length using Nat.strong_induction_on generalizing s with
  | h n ih =>
    cases h : F.take s with
    | none => simp [packets, rest, split_of_none h]
    | some q =>
      obtain ⟨p, r⟩ := q
      have hr := ih r.length (hn ▸ F.shorter h) r rfl
      have hs : F.packets s = p :: F.packets r := by simp [packets, split_of_some h]
      have hrest : F.rest s = F.rest r := by simp [rest, split_of_some h]
      rw [split_of_some (F.stable t h), hs, hrest]
      simp only [packets, rest] at hr ⊢
      rw [hr]
      rfl

theorem packets_append (s t : List β) :
    F.packets (s ++ t) = F.packets s ++ F.packets (F.rest s ++ t) := by
  rw [packets, split_append]

/-- More text can only bring more packets. -/
theorem packets_prefix (s t : List β) : F.packets s <+: F.packets (s ++ t) := by
  rw [packets_append]
  exact List.prefix_append _ _

theorem Whole.packets (h : F.Whole s ps) : F.packets s = ps := congrArg Prod.fst h

theorem Whole.rest (h : F.Whole s ps) : F.rest s = [] := congrArg Prod.snd h

theorem whole_nil (h : F.take [] = none) : F.Whole [] [] := split_of_none h

theorem Whole.packets_append (h : F.Whole s ps) (t : List β) :
    F.packets (s ++ t) = ps ++ F.packets t := by
  rw [Framing.packets_append, h.packets, h.rest, List.nil_append]

/-- One more packet behind whole ones. -/
theorem Whole.snoc (h : F.Whole s ps) (ht : F.take t = some (p, [])) (hnil : F.take [] = none) :
    F.Whole (s ++ t) (ps ++ [p]) := by
  rw [Whole, split_append, h.packets, h.rest, List.nil_append]
  simp [Framing.packets, Framing.rest, split_of_some ht, split_of_none hnil]

/-! ## Writers -/

/-- What a writer puts out for a packet is read back as this packet, whatever follows. -/
def Writes (F : Framing β π) (write : π → List β) (valid : π → Prop) : Prop :=
  ∀ p, valid p → ∀ t, F.take (write p ++ t) = some (p, t)

variable {write : π → List β} {valid : π → Prop}

theorem Writes.split (h : F.Writes write valid) (hps : ∀ p ∈ ps, valid p) (t : List β) :
    F.split (ps.flatMap write ++ t) = (ps ++ F.packets t, F.rest t) := by
  induction ps with
  | nil => rfl
  | cons p ps ih =>
    rw [List.forall_mem_cons] at hps
    rw [List.flatMap_cons, List.append_assoc, split_of_some (h p hps.1 _)]
    simp [Framing.packets, Framing.rest, ih hps.2]

theorem Writes.whole (h : F.Writes write valid) (hnil : F.take [] = none)
    (hps : ∀ p ∈ ps, valid p) : F.Whole (ps.flatMap write) ps := by
  have hsplit := h.split hps []
  simpa [Whole, Framing.packets, Framing.rest, split_of_none hnil] using hsplit

/-- A part of a written stream holds no other packets than the written ones, in their order. -/
theorem Writes.part (h : F.Writes write valid) (hnil : F.take [] = none)
    (hps : ∀ p ∈ ps, valid p) (hs : s <+: ps.flatMap write) : F.packets s <+: ps := by
  obtain ⟨t, ht⟩ := hs
  rw [← (h.whole hnil hps).packets, ← ht]
  exact packets_prefix s t

end Framing
end CppChat.Foundation
