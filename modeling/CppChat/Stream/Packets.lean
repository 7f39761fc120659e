import CppChat.Foundation.Framing

/-! # Packets of the chat protocol

A packet is its id and the length of its body, two bytes each with the high byte first, and the
body. The client takes every packet; the server closes a connection whose header is out of range.
-/
namespace CppChat.Stream
open Foundation

abbrev Bytes := List UInt8

/-- `MAX_LENGTH`. -/
def maxLength : ℕ := 1024 * 16

structure Packet where
  id : ℕ
  body : Bytes
  deriving DecidableEq

/-- `host_to_network_short`. -/
def hostToNetworkShort (n : ℕ) : Bytes := [UInt8.ofNat (n / 256), UInt8.ofNat n]

/-- `network_to_host_short`, as an unsigned number. -/
def networkToHostShort (high low : UInt8) : ℕ := high.toNat * 256 + low.toNat

/-- The bytes of a `SendNode`, and of what `slot_send_data` writes. -/
def Packet.bytes (p : Packet) : Bytes :=
  hostToNetworkShort p.id ++ hostToNetworkShort p.body.length ++ p.body

/-- Both header fields fit in 16 bits. -/
def Packet.Fits (p : Packet) : Prop := p.id < 2 ^ 16 ∧ p.body.length < 2 ^ 16

/-- What the checks of `Send` and of the header let through; an id is a positive `short`. -/
def Packet.Valid (p : Packet) : Prop :=
  0 < p.id ∧ p.id < 2 ^ 15 ∧ 0 < p.body.length ∧ p.body.length ≤ maxLength

/-- The packet in front, when its header passes a check and its body is there. -/
def takePacket (check : ℕ → ℕ → Bool) : Bytes → Option (Packet × Bytes)
  | a :: b :: c :: d :: s =>
    let id := networkToHostShort a b
    let length := networkToHostShort c d
    if check id length ∧ length ≤ s.length then some (⟨id, s.take length⟩, s.drop length) else none
  | _ => none

/-- The check in `AsyncReadHead`; the two numbers are signed there. -/
def headerValid (id length : ℕ) : Bool := 0 < id ∧ id < 2 ^ 15 ∧ 0 < length ∧ length ≤ maxLength

@[simp] theorem networkToHostShort_ofNat {n : ℕ} (h : n < 2 ^ 16) :
    networkToHostShort (UInt8.ofNat (n / 256)) (UInt8.ofNat n) = n := by
  simp only [networkToHostShort, UInt8.toNat_ofNat']
  omega

theorem takePacket_eq_some {check : ℕ → ℕ → Bool} {s r : Bytes} {p : Packet} :
    takePacket check s = some (p, r) ↔ ∃ a b c d t, s = a :: b :: c :: d :: t ∧
      p.id = networkToHostShort a b ∧ p.body.length = networkToHostShort c d ∧
      check p.id p.body.length = true ∧ t = p.body ++ r := by
  constructor
  · intro h
    match s, h with
    | a :: b :: c :: d :: t, h =>
      simp only [takePacket] at h
      split at h
      next hok =>
        cases h
        have hlen : (t.take (networkToHostShort c d)).length = networkToHostShort c d := by
          simp [hok.2]
        refine ⟨a, b, c, d, t, rfl, rfl, hlen, ?_, (List.take_append_drop _ _).symm⟩
        rw [hlen]
        exact hok.1
      next => cases h
  · rintro ⟨a, b, c, d, t, rfl, hid, hlen, hcheck, rfl⟩
    have hcheck : check (networkToHostShort a b) (networkToHostShort c d) = true := by
      rw [← hid, ← hlen]
      exact hcheck
    obtain ⟨id, body⟩ := p
    simp only at hid hlen
    subst hid
    simp [takePacket, hcheck, ← hlen]

/-- The packets behind headers that pass a check. -/
def framing (check : ℕ → ℕ → Bool) : Framing UInt8 Packet where
  take := takePacket check
  shorter h := by
    obtain ⟨a, b, c, d, t, rfl, -, -, -, rfl⟩ := takePacket_eq_some.mp h
    simp only [List.length_cons, List.length_append]
    omega
  stable t h := by
    obtain ⟨a, b, c, d, u, rfl, hid, hlen, hcheck, rfl⟩ := takePacket_eq_some.mp h
    exact takePacket_eq_some.mpr ⟨a, b, c, d, _, rfl, hid, hlen, hcheck, List.append_assoc _ _ _⟩

/-- What the client reads. -/
def clientFraming : Framing UInt8 Packet := framing fun _ _ => true

/-- What the server reads. -/
def serverFraming : Framing UInt8 Packet := framing headerValid

theorem take_nil {check : ℕ → ℕ → Bool} : (framing check).take [] = none := rfl

theorem takePacket_bytes (check : ℕ → ℕ → Bool) {p : Packet} (hfits : p.Fits)
    (hcheck : check p.id p.body.length = true) (t : Bytes) :
    takePacket check (p.bytes ++ t) = some (p, t) := by
  apply takePacket_eq_some.mpr
  have hid := networkToHostShort_ofNat hfits.1
  have hlen := networkToHostShort_ofNat hfits.2
  exact ⟨UInt8.ofNat (p.id / 256), UInt8.ofNat p.id, UInt8.ofNat (p.body.length / 256),
    UInt8.ofNat p.body.length, p.body ++ t, by simp [Packet.bytes, hostToNetworkShort], hid.symm,
    hlen.symm, hcheck, rfl⟩

theorem Packet.Valid.fits {p : Packet} (h : p.Valid) : p.Fits := by
  obtain ⟨-, hid, -, hlen⟩ := h
  constructor
  · omega
  · unfold maxLength at hlen
    omega

theorem client_writes : clientFraming.Writes Packet.bytes Packet.Fits := by
  intro p h t
  exact takePacket_bytes (fun _ _ => true) h rfl t

theorem server_writes : serverFraming.Writes Packet.bytes Packet.Valid := by
  intro p h t
  apply takePacket_bytes headerValid h.fits
  simpa [headerValid, Packet.Valid] using h

end CppChat.Stream
