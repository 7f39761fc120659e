import CppChat.Foundation.Transition
import CppChat.Stream.Packets

/-! # The client reads its connection

`TcpMgr::readPackets` takes a part of what the socket has, hands out complete packets within a
budget, and asks for another run when something is left. A handler may run an event loop of its own:
anything may happen between two packets, also a new connection.
-/
namespace CppChat.Stream
open Foundation

/-- A run of `readPackets` that has not returned yet. -/
structure Reading where
  generation : ℕ
  consumed : ℕ
  packets : ℕ

/-- The fields of `TcpMgr` that reading uses, the bytes in the socket, and the single shots that
were posted, each with the generation it captured. `signal` is a `readyRead` on its way. The
last three are history: whether the generation began with an empty socket, the bytes that arrived
in it, and the packets that were handed out in it. -/
structure Reader where
  unread : Bytes
  buffer : Bytes
  generation : ℕ
  scheduled : Bool
  timers : List ℕ
  signal : Bool
  reading : Option Reading
  connected : Bool
  clean : Bool
  stream : Bytes
  dispatched : List Packet

namespace Reader

def start : Reader where
  unread := []
  buffer := []
  generation := 0
  scheduled := false
  timers := []
  signal := false
  reading := none
  connected := false
  clean := true
  stream := []
  dispatched := []

/-- `schedulePacketRead`. -/
def schedulePacketRead (s : Reader) : Reader :=
  if s.scheduled then s else { s with scheduled := true, timers := s.timers ++ [s.generation] }

/-- `readPackets` up to its loop; a run inside a run returns at once. -/
def readPackets (s : Reader) : Reader :=
  if s.reading.isSome then s
  else
    let room := 1024 * 1024 - s.buffer.length
    let count := min room (256 * 1024)
    { s with
      buffer := s.buffer ++ s.unread.take count
      unread := s.unread.drop count
      reading := some ⟨s.generation, 0, 0⟩ }

/-- The test behind the loop for another complete packet. -/
def complete : Bytes → Bool
  | _ :: _ :: c :: d :: s => networkToHostShort c d ≤ s.length
  | _ => false

/-- The rest of the run, when the loop has ended or the connection is another one. -/
def leave (s : Reader) (r : Reading) : Reader :=
  if s.generation ≠ r.generation then
    let s := { s with reading := none }
    if s.unread ≠ [] ∨ s.buffer ≠ [] then s.schedulePacketRead else s
  else
    let s := { s with reading := none, buffer := s.buffer.drop r.consumed }
    if complete s.buffer = true ∨ s.unread ≠ [] then s.schedulePacketRead else s

/-- `resetConnectionState`. -/
def resetConnectionState (s : Reader) : Reader :=
  { s with
    generation := s.generation + 1
    scheduled := false
    buffer := []
    connected := false
    stream := []
    dispatched := [] }

/-- `CloseConnection`: the socket drops what it has. `abort` of a connected socket emits
`disconnected`, and that resets once more. -/
def closeConnection (s : Reader) : Reader :=
  let t := s.resetConnectionState
  let t := if s.connected then t.resetConnectionState else t
  { t with unread := [], signal := false, clean := true }

/-- The peer closed the connection; what the socket has can still be read. -/
def disconnected (s : Reader) : Reader := { s.resetConnectionState with clean := false }

end Reader

/-- What may happen next. `readyRead` is not emitted while a run is on the stack. -/
inductive ReaderEvent
  | arrive (bytes : Bytes)
  | readyRead
  | handle
  | leave
  | fire (index : ℕ)
  | closeConnection
  | disconnected
  | connect

namespace Reader

def next (s : Reader) : ReaderEvent → Option Reader
  | .arrive bytes =>
    if s.connected then some { s with
      unread := s.unread ++ bytes
      stream := s.stream ++ bytes
      signal := s.signal || s.reading.isNone }
    else none
  | .readyRead => some { s with signal := false }.readPackets
  | .handle => match s.reading with
    | none => none
    | some r =>
      if s.generation ≠ r.generation ∨ 32 ≤ r.packets then none
      else match takePacket (fun _ _ => true) (s.buffer.drop r.consumed) with
        | none => none
        | some (p, _) => some { s with
            reading := some ⟨r.generation, r.consumed + (4 + p.body.length), r.packets + 1⟩
            dispatched := s.dispatched ++ [p] }
  | .leave => s.reading.map fun r => s.leave r
  | .fire index => match s.timers[index]? with
    | none => none
    | some generation =>
      let s := { s with timers := s.timers.eraseIdx index }
      if s.generation ≠ generation then some s else some { s with scheduled := false }.readPackets
  | .closeConnection => some s.closeConnection
  | .disconnected => if s.connected then some s.disconnected else none
  | .connect => some { s.closeConnection with connected := true }

/-- Any run of the client on any connections. -/
def machine : Machine Reader ReaderEvent := .ofFn (fun s => s = start) next

/-! ## The invariant -/

variable {s : Reader}

/-- What is left of the buffer for the connection. -/
def tail (s : Reader) : Bytes :=
  match s.reading with
  | none => s.buffer
  | some r => if r.generation = s.generation then s.buffer.drop r.consumed else s.buffer

structure Inv (s : Reader) : Prop where
  aligned : s.clean = true → ∃ done, s.stream = done ++ (s.tail ++ s.unread) ∧
    clientFraming.Whole done s.dispatched
  run : ∀ r, s.reading = some r → r.generation ≤ s.generation ∧
    (r.generation ≠ s.generation → s.buffer = [])
  waiting : s.clean = true → s.reading = none → s.unread ≠ [] ∨ complete s.buffer = true →
    s.signal = true ∨ s.scheduled = true
  posted : s.scheduled = true → s.generation ∈ s.timers

theorem complete_iff (b : Bytes) : complete b = true ↔ clientFraming.take b ≠ none := by
  change complete b = true ↔ takePacket (fun _ _ => true) b ≠ none
  match b with
  | [] => simp [complete, takePacket]
  | [_] => simp [complete, takePacket]
  | [_, _] => simp [complete, takePacket]
  | [_, _, _] => simp [complete, takePacket]
  | _ :: _ :: _ :: _ :: _ => simp [complete, takePacket]

/-- The packet in front of a text has its own bytes there. -/
theorem take_client {b r : Bytes} {p : Packet} (h : takePacket (fun _ _ => true) b = some (p, r)) :
    ∃ front, b = front ++ r ∧ front.length = 4 + p.body.length ∧
      clientFraming.take front = some (p, []) := by
  obtain ⟨a, b, c, d, t, rfl, hid, hlen, hcheck, rfl⟩ := takePacket_eq_some.mp h
  refine ⟨a :: b :: c :: d :: p.body, rfl, ?_, ?_⟩
  · simp only [List.length_cons]
    omega
  · change takePacket (fun _ _ => true) (a :: b :: c :: d :: p.body) = some (p, [])
    apply takePacket_eq_some.mpr
    exact ⟨a, b, c, d, p.body, rfl, hid, hlen, hcheck, (List.append_nil _).symm⟩

theorem Inv.start : Inv start := by
  refine ⟨fun _ => ⟨[], rfl, Framing.whole_nil rfl⟩, ?_, ?_, ?_⟩ <;> simp [Reader.start, complete]

/-- A run takes bytes from the socket to the buffer. -/
theorem Inv.readPackets (h : s.Inv) (signal scheduled : Bool)
    (hposted : scheduled = true → s.generation ∈ s.timers) (timers : List ℕ)
    (htimers : s.generation ∈ s.timers → scheduled = true → s.generation ∈ timers) :
    ({ s with signal, scheduled, timers } : Reader).readPackets.Inv := by
  unfold Reader.readPackets
  dsimp only
  split
  next hreading =>
    refine ⟨h.aligned, h.run, fun _ hnone => ?_, fun hs => htimers (hposted hs) hs⟩
    rw [show s.reading = none from hnone] at hreading
    cases hreading
  next hreading =>
    have hnone : s.reading = none := by simpa using hreading
    refine ⟨fun hclean => ?_, fun r hr => ?_, fun _ hr => ?_, fun hs => htimers (hposted hs) hs⟩
    · obtain ⟨done, hstream, hwhole⟩ := h.aligned hclean
      refine ⟨done, ?_, hwhole⟩
      rw [hstream]
      simp [tail, hnone]
    · cases hr
      exact ⟨le_rfl, fun hne => absurd rfl hne⟩
    · cases hr

/-- Behind a run another one is asked for when something is left. -/
theorem Inv.afterRun {p : Prop} [Decidable p] (hnone : s.reading = none)
    (haligned : s.clean = true → ∃ done, s.stream = done ++ (s.buffer ++ s.unread) ∧
      clientFraming.Whole done s.dispatched)
    (hposted : s.scheduled = true → s.generation ∈ s.timers)
    (hp : s.unread ≠ [] ∨ complete s.buffer = true → p) :
    (if p then s.schedulePacketRead else s).Inv := by
  have htail : s.tail = s.buffer := by rw [tail, hnone]
  split
  next hmore =>
    unfold schedulePacketRead
    split
    next hs =>
      exact ⟨htail ▸ haligned, by simp [hnone], fun _ _ _ => .inr hs, hposted⟩
    next hs =>
      refine ⟨?_, by simp [hnone], fun _ _ _ => .inr rfl, fun _ => by simp⟩
      rw [← htail] at haligned
      exact haligned
  next hmore =>
    exact ⟨htail ▸ haligned, by simp [hnone], fun _ _ hleft => absurd (hp hleft) hmore, hposted⟩

theorem Inv.leave (h : s.Inv) {r : Reading} (hr : s.reading = some r) : (s.leave r).Inv := by
  obtain ⟨-, hstale⟩ := h.run r hr
  unfold Reader.leave
  split
  next hne =>
    have htail : s.tail = s.buffer := by
      rw [tail, hr]
      exact if_neg (Ne.symm hne)
    have haligned := h.aligned
    rw [htail] at haligned
    refine Inv.afterRun rfl haligned h.posted ?_
    rintro (hunread | hcomplete)
    · exact .inl hunread
    · simp only [hstale (Ne.symm hne)] at hcomplete
      cases hcomplete
  next heq =>
    have htail : s.tail = s.buffer.drop r.consumed := by
      rw [tail, hr]
      exact if_pos (not_not.mp heq).symm
    have haligned := h.aligned
    rw [htail] at haligned
    exact Inv.afterRun rfl haligned h.posted Or.symm

theorem Inv.handle (h : s.Inv) {r : Reading} (hr : s.reading = some r)
    (hsame : s.generation = r.generation) {p : Packet} {left : Bytes}
    (hp : takePacket (fun _ _ => true) (s.buffer.drop r.consumed) = some (p, left)) :
    ({ s with
      reading := some ⟨r.generation, r.consumed + (4 + p.body.length), r.packets + 1⟩
      dispatched := s.dispatched ++ [p] } : Reader).Inv := by
  obtain ⟨front, hfront, hlen, htake⟩ := take_client hp
  have htail : s.tail = front ++ left := by
    rw [tail, hr, ← hfront]
    exact if_pos hsame.symm
  have hdrop : s.buffer.drop (r.consumed + (4 + p.body.length)) = left := by
    rw [← List.drop_drop, hfront, ← hlen, List.drop_left]
  refine ⟨fun hclean => ?_, fun r' hr' => ?_, fun _ hnone => ?_, h.posted⟩
  · obtain ⟨done, hstream, hwhole⟩ := h.aligned hclean
    refine ⟨done ++ front, ?_, hwhole.snoc htake rfl⟩
    rw [show s.stream = _ from hstream, htail]
    simp [tail, hsame, hdrop]
  · cases hr'
    exact ⟨hsame.ge, fun hne => absurd hsame.symm hne⟩
  · cases hnone

theorem Inv.closeConnection (h : s.Inv) : s.closeConnection.Inv := by
  unfold Reader.closeConnection
  dsimp only
  split <;>
  · refine ⟨fun _ => ⟨[], ?_, Framing.whole_nil rfl⟩, fun r hr => ?_, fun _ _ hleft => ?_,
      fun hs => ?_⟩
    · unfold tail
      split
      · rfl
      · split
        · simp [resetConnectionState]
        · rfl
    · have hle := (h.run r hr).1
      exact ⟨hle.trans (by dsimp only [resetConnectionState]; omega), fun _ => rfl⟩
    · simp [resetConnectionState, complete] at hleft
    · cases hs

theorem inv_invariant : machine.Invariant Inv where
  init s h := by
    cases h
    exact Inv.start
  step s e t _ h hstep := by
    have hstep : s.next e = some t := hstep
    cases e with
    | arrive bytes =>
      simp only [next, Option.ite_none_right_eq_some] at hstep
      cases hstep.2
      refine ⟨fun hclean => ?_, h.run, fun hclean hnone hleft => ?_, h.posted⟩
      · obtain ⟨done, hstream, hwhole⟩ := h.aligned hclean
        refine ⟨done, ?_, hwhole⟩
        change s.stream ++ bytes = done ++ (s.tail ++ (s.unread ++ bytes))
        rw [hstream, List.append_assoc, List.append_assoc]
      · have hnone : s.reading = none := hnone
        simp [hnone]
    | readyRead =>
      cases hstep
      exact h.readPackets false s.scheduled h.posted s.timers fun hmem _ => hmem
    | handle =>
      simp only [next] at hstep
      split at hstep
      · cases hstep
      next r hr =>
        split at hstep
        · cases hstep
        next hok =>
          split at hstep
          · cases hstep
          next p left hp =>
            cases hstep
            have hsame : s.generation = r.generation := by
              by_contra hne
              exact hok (.inl hne)
            exact h.handle hr hsame hp
    | leave =>
      simp only [next, Option.map_eq_some_iff] at hstep
      obtain ⟨r, hr, rfl⟩ := hstep
      exact h.leave hr
    | fire index =>
      simp only [next] at hstep
      split at hstep
      · cases hstep
      next generation hget =>
        split at hstep
        next hstale =>
          cases hstep
          refine ⟨h.aligned, h.run, h.waiting, fun hs => ?_⟩
          obtain ⟨i, hi⟩ := List.mem_iff_getElem?.mp (h.posted hs)
          apply List.mem_eraseIdx_iff_getElem?.mpr
          refine ⟨i, fun heq => ?_, hi⟩
          rw [heq, hget, Option.some_inj] at hi
          exact hstale hi.symm
        next =>
          cases hstep
          exact h.readPackets s.signal false (by simp) _ (by simp)
    | closeConnection =>
      cases hstep
      exact h.closeConnection
    | disconnected =>
      simp only [next, Option.ite_none_right_eq_some] at hstep
      cases hstep.2
      refine ⟨fun hclean => ?_, fun r hr => ?_, fun hclean => ?_, fun hposted => ?_⟩
      · cases hclean
      · exact ⟨Nat.le_succ_of_le (h.run r hr).1, fun _ => rfl⟩
      · cases hclean
      · cases hposted
    | connect =>
      cases hstep
      have h' := h.closeConnection
      exact ⟨h'.aligned, h'.run, h'.waiting, h'.posted⟩

/-! ## What is handed out -/

theorem Inv.packets (h : s.Inv) (hclean : s.clean = true) :
    clientFraming.packets s.stream =
      s.dispatched ++ clientFraming.packets (s.tail ++ s.unread) := by
  obtain ⟨done, hstream, hwhole⟩ := h.aligned hclean
  rw [hstream, hwhole.packets_append]

/-- When no run is due, no complete packet is left. -/
theorem Inv.all_packets (h : s.Inv) (hclean : s.clean = true) (hnone : s.reading = none)
    (hsignal : s.signal = false) (hscheduled : s.scheduled = false) :
    s.dispatched = clientFraming.packets s.stream := by
  have hleft : ¬ (s.unread ≠ [] ∨ complete s.buffer = true) := by
    intro hleft
    rcases h.waiting hclean hnone hleft with h | h
    · rw [hsignal] at h
      cases h
    · rw [hscheduled] at h
      cases h
  rw [not_or, not_not, complete_iff, not_not] at hleft
  have htail : s.tail = s.buffer := by rw [tail, hnone]
  rw [h.packets hclean, htail, hleft.1, List.append_nil, Framing.packets,
    Framing.split_of_none hleft.2, List.append_nil]

/-- A connection hands out the packets of its own stream, in their order and each once; when no
run is due, it has handed out all that are complete. -/
theorem client_reads {s : Reader} (hs : machine.Reachable s) (hclean : s.clean = true) :
    s.dispatched <+: clientFraming.packets s.stream ∧
      (s.scheduled = true → s.generation ∈ s.timers) ∧
      (s.reading = none → s.signal = false → s.scheduled = false →
        s.dispatched = clientFraming.packets s.stream) := by
  have hinv := inv_invariant.reachable hs
  refine ⟨?_, hinv.posted, hinv.all_packets hclean⟩
  rw [hinv.packets hclean]
  exact List.prefix_append _ _

/-- A packet that arrives in two parts, a handler under which the connection is replaced, and a
packet of the new one. -/
def sampleEvents : List ReaderEvent :=
  [.connect, .arrive [3, 249, 0], .readyRead, .leave, .arrive [1, 7, 9], .readyRead, .handle,
    .connect, .arrive [0, 5, 0, 0], .leave, .fire 0, .handle, .leave]

theorem sample_client_reads : ∃ s, machine.Reachable s ∧ s.stream = [0, 5, 0, 0] ∧
    s.dispatched = [⟨5, []⟩] ∧ s.dispatched <+: clientFraming.packets s.stream := by
  have hrun : (Machine.runFn next start sampleEvents).isSome = true := by decide
  have hs : machine.Reachable _ := Machine.Reachable.runFn (.init rfl) (Option.some_get hrun).symm
  exact ⟨_, hs, rfl, rfl, (client_reads hs rfl).1⟩

end Reader
end CppChat.Stream
