import CppChat.Stream.Reader
import CppChat.Stream.SendClosing

/-! # From the queue of a session to the handlers of a client

The bytes that a client has received are the start of what the session put on the wire, cut in any
way. What the client hands out of them is then the start of what was queued.
-/
namespace CppChat.Stream
open Foundation

/-- A client hands out the packets that its session queued, in their order, each once and none but
these; a client that has read all of a drained session has handed out every one. -/
theorem dispatched_as_queued {session : Outgoing} {client : Reader}
    (hsession : Outgoing.machine.Reachable session) (hclient : Reader.machine.Reachable client)
    (hclean : client.clean = true) (hwire : client.stream <+: session.wire) :
    client.dispatched <+: session.queued ∧
      (session.cause = some .drained → client.stream = session.wire → client.reading = none →
        client.signal = false → client.scheduled = false → client.dispatched = session.queued) := by
  obtain ⟨hordered, -⟩ := Outgoing.inv_invariant.reachable hsession
  have hreader := Reader.inv_invariant.reachable hclient
  have hwritten := client_writes.whole take_nil hordered.fits
  refine ⟨?_, fun hcause hstream hreading hsignal hscheduled => ?_⟩
  · have hread : client.dispatched <+: clientFraming.packets client.stream := by
      rw [hreader.packets hclean]
      exact List.prefix_append _ _
    exact hread.trans
      (client_writes.part take_nil hordered.fits (hwire.trans hordered.wire_prefix))
  · rw [hreader.all_packets hclean hreading hsignal hscheduled, hstream,
      (hordered.drained hcause).2.2, hwritten.packets]

/-- The session of the sample, whose bytes arrive in two parts. -/
def sampleArrivals : List ReaderEvent :=
  [.connect, .arrive [3, 249, 0], .readyRead, .leave, .arrive [1, 1, 3, 253, 0, 2, 2, 3],
    .readyRead, .handle, .handle, .leave]

theorem sample_delivered : ∃ session client, Outgoing.machine.Reachable session ∧
    Reader.machine.Reachable client ∧ client.dispatched = [⟨1017, [1]⟩, ⟨1021, [2, 3]⟩] ∧
    client.dispatched = session.queued := by
  obtain ⟨session, hrun, hcause, hwire, -⟩ := Outgoing.sample_reaches
  have hsession : Outgoing.machine.Reachable session := Machine.Reachable.runFn (.init rfl) hrun
  have hreads : (Machine.runFn Reader.next Reader.start sampleArrivals).isSome = true := by decide
  have hclient : Reader.machine.Reachable _ :=
    Machine.Reachable.runFn (.init rfl) (Option.some_get hreads).symm
  have hstream : ((Machine.runFn Reader.next Reader.start sampleArrivals).get hreads).stream =
      session.wire := by rw [hwire]; rfl
  exact ⟨session, _, hsession, hclient, rfl,
    (dispatched_as_queued hsession hclient rfl ⟨[], by rw [hstream, List.append_nil]⟩).2 hcause
      hstream rfl rfl rfl⟩

end CppChat.Stream
