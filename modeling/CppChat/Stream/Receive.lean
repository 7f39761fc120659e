import CppChat.Foundation.Transition
import CppChat.Stream.Packets

/-! # The server reads a session

`AsyncReadHead` and `AsyncReadBody` fill a buffer with as many reads as it takes. A header out of
range closes the session, and so does a request that the executor does not take.
-/
namespace CppChat.Stream
open Foundation

/-- What the outstanding read is for, with what it has so far. -/
inductive Stage
  | header (data : Bytes)
  | body (id length : ℕ) (data : Bytes)
  | stopped

/-- The fields of `CSession` that reading uses, the bytes in the socket and whether the server is
stopping. The last three are history: the bytes that arrived, the requests that the executor took,
and whether a header closed the session. -/
structure Incoming where
  unread : Bytes
  stage : Stage
  closed : Bool
  stopping : Bool
  stream : Bytes
  posted : List Packet
  badHeader : Bool

namespace Incoming

def start : Incoming where
  unread := []
  stage := .header []
  closed := false
  stopping := false
  stream := []
  posted := []
  badHeader := false

/-- The handler of a complete header. -/
def headRead (s : Incoming) : Bytes → Incoming
  | [a, b, c, d] =>
    let id := networkToHostShort a b
    let length := networkToHostShort c d
    if headerValid id length then { s with stage := .body id length [] }
    else { s with stage := .stopped, closed := true, badHeader := true }
  | _ => { s with stage := .stopped, closed := true }

/-- The handler of a complete body; `taken` is the answer of `PostMsgToQue`. -/
def bodyRead (s : Incoming) (message : Packet) (taken : Bool) : Incoming :=
  if s.stopping then { s with stage := .stopped }
  else if taken then { s with stage := .header [], posted := s.posted ++ [message] }
  else { s with stage := .stopped, closed := true }

/-- A completion of `async_read_some` with `count` bytes. It reads `closed_` once:
a `Close` of another thread between this read and the post is one after the handler. -/
def readSome (s : Incoming) (count : ℕ) (taken : Bool) : Incoming :=
  let bytes := s.unread.take count
  let s := { s with unread := s.unread.drop count }
  if s.closed then { s with stage := .stopped }
  else match s.stage with
    | .header data =>
      if 4 ≤ (data ++ bytes).length then s.headRead (data ++ bytes)
      else { s with stage := .header (data ++ bytes) }
    | .body id length data =>
      if length ≤ (data ++ bytes).length then s.bodyRead ⟨id, data ++ bytes⟩ taken
      else { s with stage := .body id length (data ++ bytes) }
    | .stopped => s

/-- How many bytes the outstanding read asks for. -/
def wanted (s : Incoming) : ℕ :=
  match s.stage with
  | .header data => 4 - data.length
  | .body _ length data => length - data.length
  | .stopped => 0

end Incoming

inductive IncomingEvent
  | arrive (bytes : Bytes)
  | readSome (count : ℕ) (taken : Bool)
  | readFailed
  | close
  | stop

namespace Incoming

def next (s : Incoming) : IncomingEvent → Option Incoming
  | .arrive bytes => some { s with unread := s.unread ++ bytes, stream := s.stream ++ bytes }
  | .readSome count taken =>
    if 0 < count ∧ count ≤ s.wanted ∧ count ≤ s.unread.length then some (s.readSome count taken)
    else none
  | .readFailed => some { s with stage := .stopped, closed := true }
  | .close => some { s with closed := true }
  | .stop => some { s with stopping := true }

/-- Any reads of any stream. -/
def machine : Machine Incoming IncomingEvent := .ofFn (fun s => s = start) next

/-! ## What a run keeps -/

variable {s : Incoming}

/-- The bytes of a packet that is not complete. -/
def Partial : Stage → Bytes → Prop
  | .header data, front => front = data ∧ data.length < 4
  | .body id length data, front => ∃ a b c d, front = a :: b :: c :: d :: data ∧
      id = networkToHostShort a b ∧ length = networkToHostShort c d ∧
      headerValid id length = true ∧ data.length < length
  | .stopped, _ => True

structure Inv (s : Incoming) : Prop where
  aligned : ∃ done front, s.stream = done ++ (front ++ s.unread) ∧
    serverFraming.Whole done s.posted ∧ Partial s.stage front
  stopped : s.stage = .stopped → s.closed = true ∨ s.stopping = true
  badHeader : s.badHeader = true → s.stage = .stopped ∧ s.closed = true ∧
    ∃ done a b c d t, s.stream = done ++ (a :: b :: c :: d :: t) ∧
      serverFraming.Whole done s.posted ∧
      headerValid (networkToHostShort a b) (networkToHostShort c d) = false

theorem take_partial {stage : Stage} {front : Bytes} (h : Partial stage front)
    (hstage : stage ≠ .stopped) : serverFraming.take front = none := by
  change takePacket headerValid front = none
  cases stage with
  | header data =>
    obtain ⟨rfl, hlen⟩ := h
    match front, hlen with
    | [], _ => rfl
    | [_], _ => rfl
    | [_, _], _ => rfl
    | [_, _, _], _ => rfl
    | _ :: _ :: _ :: _ :: _, hlen =>
      simp only [List.length_cons] at hlen
      omega
  | body id length data =>
    obtain ⟨a, b, c, d, rfl, -, rfl, -, hlen⟩ := h
    simp [takePacket, hlen]
  | stopped => exact absurd rfl hstage

/-- Nothing is behind a header out of range. -/
theorem take_bad {a b c d : UInt8}
    (h : headerValid (networkToHostShort a b) (networkToHostShort c d) = false) (t : Bytes) :
    serverFraming.take (a :: b :: c :: d :: t) = none := by
  change takePacket headerValid (a :: b :: c :: d :: t) = none
  simp [takePacket, h]

theorem Inv.start : Inv start :=
  ⟨⟨[], [], rfl, Framing.whole_nil take_nil, rfl, by decide⟩, by simp [Incoming.start],
    by simp [Incoming.start]⟩

theorem Inv.headRead (h : s.badHeader = false) {done front : Bytes}
    (hstream : s.stream = done ++ (front ++ s.unread))
    (hwhole : serverFraming.Whole done s.posted) (hlen : front.length = 4) :
    (s.headRead front).Inv := by
  match front, hlen with
  | [a, b, c, d], _ =>
    simp only [Incoming.headRead]
    split
    next hvalid =>
      refine ⟨⟨done, [a, b, c, d], hstream, hwhole, a, b, c, d, rfl, rfl, rfl, hvalid, ?_⟩,
        by simp, fun hbad => ?_⟩
      · simp only [headerValid, decide_eq_true_eq] at hvalid
        exact hvalid.2.2.1
      · rw [show s.badHeader = true from hbad] at h
        cases h
    next hbad =>
      refine ⟨⟨done, [a, b, c, d], hstream, hwhole, trivial⟩, fun _ => .inl rfl, fun _ => ?_⟩
      exact ⟨rfl, rfl, done, a, b, c, d, s.unread, hstream, hwhole, Bool.not_eq_true _ ▸ hbad⟩

theorem Inv.bodyRead (h : s.badHeader = false) {done front : Bytes} {message : Packet}
    (hstream : s.stream = done ++ (front ++ s.unread))
    (hwhole : serverFraming.Whole done s.posted)
    (htake : serverFraming.take front = some (message, [])) (taken : Bool) :
    (s.bodyRead message taken).Inv := by
  unfold Incoming.bodyRead
  split
  next hstopping =>
    refine ⟨⟨done, front, hstream, hwhole, trivial⟩, fun _ => .inr hstopping, fun hbad => ?_⟩
    rw [show s.badHeader = true from hbad] at h
    cases h
  next =>
    split
    next =>
      refine ⟨⟨done ++ front, [], ?_, hwhole.snoc htake take_nil, rfl, by decide⟩, by simp,
        fun hbad => ?_⟩
      · rw [show s.stream = _ from hstream, List.append_assoc]
        rfl
      · rw [show s.badHeader = true from hbad] at h
        cases h
    next =>
      refine ⟨⟨done, front, hstream, hwhole, trivial⟩, fun _ => .inl rfl, fun hbad => ?_⟩
      rw [show s.badHeader = true from hbad] at h
      cases h

theorem Inv.readSome (h : s.Inv) {count : ℕ} (hwanted : count ≤ s.wanted)
    (hunread : count ≤ s.unread.length) (hpos : 0 < count) (taken : Bool) :
    (s.readSome count taken).Inv := by
  obtain ⟨done, front, hstream, hwhole, hpartial⟩ := h.aligned
  have hlen : (s.unread.take count).length = count := by simp [hunread]
  have hsplit : s.stream = done ++ ((front ++ s.unread.take count) ++ s.unread.drop count) := by
    rw [hstream, List.append_assoc, List.take_append_drop]
  have hgood : s.stage ≠ .stopped → s.badHeader = false := by
    intro hstage
    by_contra hbad
    exact hstage (h.badHeader (Bool.not_eq_false _ ▸ hbad)).1
  unfold Incoming.readSome
  dsimp only
  split
  next hclosed =>
    refine ⟨⟨done, _, hsplit, hwhole, trivial⟩, fun _ => .inl hclosed, fun hbad => ?_⟩
    obtain ⟨-, -, hrest⟩ := h.badHeader hbad
    exact ⟨rfl, hclosed, hrest⟩
  next =>
    unfold wanted at hwanted
    split
    next data hstage =>
      have hgood := hgood (by simp [hstage])
      rw [hstage] at hpartial hwanted
      obtain ⟨rfl, hdata⟩ := hpartial
      dsimp only at hwanted
      split
      next hfull =>
        refine Inv.headRead (s := { s with unread := s.unread.drop count }) hgood hsplit hwhole ?_
        rw [List.length_append, hlen] at hfull ⊢
        omega
      next hmore =>
        refine ⟨⟨done, _, hsplit, hwhole, rfl, not_le.mp hmore⟩, by simp, fun hbad => ?_⟩
        rw [show s.badHeader = true from hbad] at hgood
        cases hgood
    next id length data hstage =>
      have hgood := hgood (by simp [hstage])
      rw [hstage] at hpartial hwanted
      obtain ⟨a, b, c, d, rfl, hid, hlength, hvalid, hdata⟩ := hpartial
      dsimp only at hwanted
      split
      next hfull =>
        refine Inv.bodyRead (s := { s with unread := s.unread.drop count }) hgood hsplit hwhole ?_
          taken
        have hall : (data ++ s.unread.take count).length = length := by
          rw [List.length_append, hlen] at hfull ⊢
          omega
        have htake : takePacket headerValid (a :: b :: c :: d :: (data ++ s.unread.take count)) =
            some (⟨id, data ++ s.unread.take count⟩, []) := by
          apply takePacket_eq_some.mpr
          exact ⟨a, b, c, d, data ++ s.unread.take count, rfl, hid, hall.trans hlength,
            by rw [hall]; exact hvalid, (List.append_nil _).symm⟩
        exact htake
      next hmore =>
        refine ⟨⟨done, _, hsplit, hwhole, a, b, c, d, rfl, hid, hlength, hvalid,
          not_le.mp hmore⟩, by simp, fun hbad => ?_⟩
        rw [show s.badHeader = true from hbad] at hgood
        cases hgood
    next hstage =>
      rw [hstage] at hwanted
      dsimp only at hwanted
      omega

theorem inv_invariant : machine.Invariant Inv where
  init s h := by
    cases h
    exact Inv.start
  step s e t _ h hstep := by
    have hstep : s.next e = some t := hstep
    cases e with
    | arrive bytes =>
      cases hstep
      obtain ⟨done, front, hstream, hwhole, hpartial⟩ := h.aligned
      refine ⟨⟨done, front, ?_, hwhole, hpartial⟩, h.stopped, fun hbad => ?_⟩
      · change s.stream ++ bytes = done ++ (front ++ (s.unread ++ bytes))
        rw [hstream, List.append_assoc, List.append_assoc]
      · obtain ⟨hstage, hclosed, done, a, b, c, d, t, hstream, hwhole, hinvalid⟩ := h.badHeader hbad
        refine ⟨hstage, hclosed, done, a, b, c, d, t ++ bytes, ?_, hwhole, hinvalid⟩
        change s.stream ++ bytes = _
        rw [hstream, List.append_assoc]
        rfl
    | readSome count taken =>
      simp only [next, Option.ite_none_right_eq_some] at hstep
      obtain ⟨⟨hpos, hwanted, hunread⟩, hstep⟩ := hstep
      cases hstep
      exact h.readSome hwanted hunread hpos taken
    | readFailed =>
      cases hstep
      obtain ⟨done, front, hstream, hwhole, -⟩ := h.aligned
      refine ⟨⟨done, front, hstream, hwhole, trivial⟩, fun _ => .inl rfl, fun hbad => ?_⟩
      obtain ⟨-, -, hrest⟩ := h.badHeader hbad
      exact ⟨rfl, rfl, hrest⟩
    | close =>
      cases hstep
      refine ⟨h.aligned, fun _ => .inl rfl, fun hbad => ?_⟩
      obtain ⟨hstage, -, hrest⟩ := h.badHeader hbad
      exact ⟨hstage, rfl, hrest⟩
    | stop =>
      cases hstep
      exact ⟨h.aligned, fun _ => .inr rfl, h.badHeader⟩

/-! ## What the executor gets -/

/-- The longest body of a request; 1031 is `ID_UPDATE_PROFILE_REQ`. -/
def maxBody (id : ℕ) : ℕ := if id = 1031 then 16000 else 2048

/-- `slot_send_data`: the packet of a request, when it is not too long. -/
def slotSendData (id : ℕ) (body : Bytes) : Option Packet :=
  if maxBody id < body.length then none else some ⟨id, body⟩

theorem slotSendData_valid {id : ℕ} {body : Bytes} {p : Packet} (h : slotSendData id body = some p)
    (hid : 0 < id ∧ id < 2 ^ 15) (hbody : body ≠ []) : p.Valid := by
  unfold slotSendData at h
  split at h
  · cases h
  next hlen =>
    cases h
    refine ⟨hid.1, hid.2, List.length_pos_iff.mpr hbody, ?_⟩
    change body.length ≤ 1024 * 16
    unfold maxBody at hlen
    split at hlen <;> omega

/-- A closed session hands nothing more on. -/
theorem closed_kept {s t : Incoming} {e : IncomingEvent} (hstep : s.next e = some t)
    (hclosed : s.closed = true) : t.closed = true ∧ t.posted = s.posted := by
  cases e with
  | readSome count taken =>
    simp only [next, Option.ite_none_right_eq_some] at hstep
    cases hstep.2
    simp [Incoming.readSome, hclosed]
  | arrive bytes => cases hstep; exact ⟨hclosed, rfl⟩
  | readFailed => cases hstep; exact ⟨rfl, rfl⟩
  | close => cases hstep; exact ⟨rfl, rfl⟩
  | stop => cases hstep; exact ⟨hclosed, rfl⟩

/-- However the stream is cut, the executor gets its packets in their order, each once, up to the
first header out of range; that one closes the session, and behind a close nothing is handed on.
A stream of requests that a client wrote has no such header. -/
theorem server_reads {s t : Incoming} (hs : machine.Reachable s) (hrun : machine.Run s t) :
    s.posted <+: serverFraming.packets s.stream ∧
      (s.stage ≠ .stopped → s.unread = [] → s.posted = serverFraming.packets s.stream) ∧
      (s.badHeader = true → s.closed = true ∧ s.posted = serverFraming.packets s.stream) ∧
      (s.closed = true → t.closed = true ∧ t.posted = s.posted) ∧
      ∀ ps : List Packet, (∀ p ∈ ps, ∃ id body, slotSendData id body = some p ∧
        (0 < id ∧ id < 2 ^ 15) ∧ body ≠ []) → s.stream <+: ps.flatMap Packet.bytes →
        s.posted <+: ps ∧ s.badHeader = false := by
  have hinv := inv_invariant.reachable hs
  have hposted : s.posted <+: serverFraming.packets s.stream := by
    obtain ⟨done, front, hstream, hwhole, -⟩ := hinv.aligned
    rw [hstream, hwhole.packets_append]
    exact List.prefix_append _ _
  refine ⟨hposted, fun hstage hunread => ?_, fun hbad => ?_, fun hclosed => ?_,
    fun ps hps hstream => ?_⟩
  · obtain ⟨done, front, hstream, hwhole, hpartial⟩ := hinv.aligned
    have hnone := take_partial hpartial hstage
    rw [hstream, hwhole.packets_append, hunread, List.append_nil, Framing.packets,
      Framing.split_of_none hnone, List.append_nil]
  · obtain ⟨-, hclosed, done, a, b, c, d, t, hstream, hwhole, hinvalid⟩ := hinv.badHeader hbad
    refine ⟨hclosed, ?_⟩
    rw [hstream, hwhole.packets_append, Framing.packets,
      Framing.split_of_none (take_bad hinvalid t), List.append_nil]
  · refine Machine.Run.relates
      (R := fun s t => s.closed = true → t.closed = true ∧ t.posted = s.posted)
      (fun s h => ⟨h, rfl⟩) (fun s t u h h' hs => ?_)
      (fun s e t _ hstep => closed_kept hstep) hs hrun hclosed
    obtain ⟨ht, hsame⟩ := h hs
    obtain ⟨hu, hsame'⟩ := h' ht
    exact ⟨hu, hsame'.trans hsame⟩
  · have hvalid : ∀ p ∈ ps, p.Valid := by
      intro p hp
      obtain ⟨id, body, hsend, hid, hbody⟩ := hps p hp
      exact slotSendData_valid hsend hid hbody
    refine ⟨hposted.trans (server_writes.part take_nil hvalid hstream), ?_⟩
    by_contra hbad
    obtain ⟨-, -, done, a, b, c, d, t, hdone, hwhole, hinvalid⟩ :=
      hinv.badHeader (Bool.not_eq_false _ ▸ hbad)
    obtain ⟨more, hmore⟩ := hstream
    -- the bad header would be left over in a stream that is whole
    have hrest := (server_writes.whole take_nil hvalid).rest
    rw [← hmore, hdone, List.append_assoc, Framing.rest, Framing.split_append, hwhole.rest,
      List.nil_append, Framing.rest, List.cons_append, List.cons_append, List.cons_append,
      List.cons_append, Framing.split_of_none (take_bad hinvalid _)] at hrest
    cases hrest

/-- Two requests in three parts, and a header of length zero behind them. -/
def sampleEvents : List IncomingEvent :=
  [.arrive [3, 249], .readSome 2 true, .arrive [0, 1, 7, 4, 2, 0], .readSome 2 true,
    .readSome 1 true, .readSome 3 true, .arrive [1, 9, 0, 5, 0, 0, 1], .readSome 1 true,
    .readSome 1 true, .readSome 4 true]

theorem sample_server_reads : ∃ s, machine.Reachable s ∧ s.posted = [⟨1017, [7]⟩, ⟨1026, [9]⟩] ∧
    s.closed = true ∧ s.posted = serverFraming.packets s.stream := by
  have hrun : (Machine.runFn next start sampleEvents).isSome = true := by decide
  have hs : machine.Reachable _ := Machine.Reachable.runFn (.init rfl) (Option.some_get hrun).symm
  exact ⟨_, hs, rfl, rfl, ((server_reads hs .refl).2.2.1 rfl).2⟩

end Incoming
end CppChat.Stream
