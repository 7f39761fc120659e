import CppChat.Foundation.Outbox
import CppChat.Sending.Progress

/-! # The order of sending

The sender is a queue with one item in flight: a text is delivered at once, a media message is in
flight from the start of its upload until its record is saved again. What is sent is in the order
in which it was queued.
-/
namespace CppChat.Sending
open Foundation (Machine Outbox)
open Foundation.Utf16 (Text)
open State

variable {C : Texts.EmojiCatalog} {qt : Attachments.Qt} {allows : State → Event → Prop}
  {w : World} {s t : State}
  {o : Outbox OutgoingMessage} {item : OutgoingMessage}

def Entry.queuedItem : Entry → Option OutgoingMessage
  | queued item _ => some item
  | _ => none

def Entry.sentId : Entry → Option Text
  | sendData packet => some packet.uniqueId
  | _ => none

/-- All that was ever queued, and the uuids of all packets, in their order. -/
def State.queuedItems (s : State) : List OutgoingMessage :=
  (s.log.filterMap Entry.queuedItem).reverse

def State.sentIds (s : State) : List Text := (s.log.filterMap Entry.sentId).reverse

/-- The item is uploaded, or its upload committed. -/
def State.Flies (s : State) (item : OutgoingMessage) : Prop :=
  (∃ uniqueId, (uniqueId, item) ∈ s.imageUploads) ∨ ⟨s.revision, .uploadSaved item⟩ ∈ s.calls

structure Abstracts (s : State) (o : Outbox OutgoingMessage) : Prop where
  offered : o.offered = s.queuedItems
  queue : o.queue = s.sendQueue
  idle : o.flight = none ↔ s.Idle
  flies : ∀ item, o.flight = some item → s.Flies item
  delivered : o.delivered.map (·.message.uniqueId) = s.sentIds

/-! ## The entries of the log -/

theorem filterMap_silent {β : Type*} {f : Entry → Option β} {es : List Entry}
    (hes : ∀ e ∈ es, f e = none) : es.filterMap f = [] :=
  List.filterMap_eq_nil_iff.mpr hes

theorem queuedItem_plain {e : Entry} (he : e.plain) : e.queuedItem = none := by
  cases e <;> first | rfl | cases he

theorem sentId_plain {e : Entry} (he : e.plain) : e.sentId = none := by
  cases e <;> first | rfl | cases he

theorem Quiet.queuedItems (h : Quiet s t) : t.queuedItems = s.queuedItems := by
  obtain ⟨es, hlog, hes⟩ := h.log
  unfold State.queuedItems
  rw [hlog, List.filterMap_append, filterMap_silent fun e he => queuedItem_plain (hes e he),
    List.nil_append]

theorem Quiet.sentIds (h : Quiet s t) : t.sentIds = s.sentIds := by
  obtain ⟨es, hlog, hes⟩ := h.log
  unfold State.sentIds
  rw [hlog, List.filterMap_append, filterMap_silent fun e he => sentId_plain (hes e he),
    List.nil_append]

theorem queuedItems_note {messages : List Message} :
    ({ s with log := messages.map .saved ++ s.log } : State).queuedItems = s.queuedItems := by
  unfold State.queuedItems
  rw [List.filterMap_append, filterMap_silent (by simp [Entry.queuedItem]), List.nil_append]

theorem sentIds_note {messages : List Message} :
    ({ s with log := messages.map .saved ++ s.log } : State).sentIds = s.sentIds := by
  unfold State.sentIds
  rw [List.filterMap_append, filterMap_silent (by simp [Entry.sentId]), List.nil_append]

theorem queuedItems_given {outgoing : List OutgoingMessage} :
    (s.allocate outgoing).queuedItems = s.queuedItems := by
  unfold State.queuedItems allocate
  rw [List.filterMap_append, filterMap_silent (by simp [Entry.queuedItem]), List.nil_append]

theorem sentIds_given {outgoing : List OutgoingMessage} :
    (s.allocate outgoing).sentIds = s.sentIds := by
  unfold State.sentIds allocate
  rw [List.filterMap_append, filterMap_silent (by simp [Entry.sentId]), List.nil_append]

/-! ## The moves -/

namespace Abstracts

theorem congr (h : Abstracts s o) (hqueued : t.queuedItems = s.queuedItems)
    (hsent : t.sentIds = s.sentIds) (hqueue : t.sendQueue = s.sendQueue)
    (huploads : t.imageUploads = s.imageUploads)
    (hcommit : t.uploadCommitting = s.uploadCommitting)
    (hcalls : ∀ item, ⟨s.revision, .uploadSaved item⟩ ∈ s.calls →
      ⟨t.revision, .uploadSaved item⟩ ∈ t.calls) : Abstracts t o := by
  refine ⟨h.offered.trans hqueued.symm, h.queue.trans hqueue.symm, ?_, fun item hitem => ?_,
    h.delivered.trans hsent.symm⟩
  · rw [h.idle, State.Idle, State.Idle, huploads, hcommit]
  · rcases h.flies item hitem with ⟨uniqueId, hmem⟩ | hmem
    · exact .inl ⟨uniqueId, huploads ▸ hmem⟩
    · exact .inr (hcalls item hmem)

theorem quiet (h : Abstracts s o) (hquiet : Quiet s t) : Abstracts t o :=
  h.congr hquiet.queuedItems hquiet.sentIds hquiet.sendQueue hquiet.imageUploads
    hquiet.uploadCommitting fun item hitem => by rwa [hquiet.revision, hquiet.calls]

/-- A callback that is no commit goes, and others may come. -/
theorem swap (h : Abstracts s o) {b : Callback} {m : Multiset Call}
    (hb : ∀ item, b ≠ .uploadSaved item) (hcalls : s.calls = ⟨s.revision, b⟩ ::ₘ m)
    (hrevision : t.revision = s.revision) (hsub : m ⊆ t.calls)
    (hqueued : t.queuedItems = s.queuedItems) (hsent : t.sentIds = s.sentIds)
    (hqueue : t.sendQueue = s.sendQueue) (huploads : t.imageUploads = s.imageUploads)
    (hcommit : t.uploadCommitting = s.uploadCommitting) : Abstracts t o := by
  refine h.congr hqueued hsent hqueue huploads hcommit fun item hitem => ?_
  rw [hcalls] at hitem
  rw [hrevision]
  rcases Multiset.mem_cons.mp hitem with heq | hmem
  · exact absurd (congrArg Call.callback heq).symm (hb item)
  · exact hsub hmem

theorem enqueue (h : Abstracts s o) (item : OutgoingMessage) (again : Bool) :
    ∃ o', Outbox.machine.Run o o' ∧ Abstracts (s.enqueue item again) o' := by
  refine ⟨_, Outbox.run_next (a := .offer item) rfl, ?_, ?_, h.idle, h.flies, h.delivered⟩
  · change o.offered ++ [item] = (List.filterMap _ (_ :: s.log)).reverse
    rw [List.filterMap_cons_some (show (Entry.queued item again).queuedItem = some item from rfl),
      List.reverse_cons, h.offered]
    rfl
  · change o.queue ++ [item] = s.sendQueue ++ [item]
    rw [h.queue]

theorem accept (h : Abstracts s o) (outgoing : List OutgoingMessage) :
    ∃ o', Outbox.machine.Run o o' ∧ Abstracts (outgoing.foldl accept s) o' := by
  induction outgoing generalizing s o with
  | nil => exact ⟨o, .refl, h⟩
  | cons item outgoing ih =>
    obtain ⟨r, hr, heq⟩ := accept_cases s item
    obtain ⟨o₁, hrun, h₁⟩ := (h.quiet hr).enqueue item false
    rw [List.foldl_cons, heq]
    obtain ⟨o₂, hrun', h₂⟩ := ih h₁
    exact ⟨o₂, hrun.trans hrun', h₂⟩

/-- Nothing is in flight any more. -/
theorem giveUp (h : Abstracts s o) (hidle : t.Idle) (hqueued : t.queuedItems = s.queuedItems)
    (hsent : t.sentIds = s.sentIds) (hqueue : t.sendQueue = s.sendQueue) :
    ∃ o', Outbox.machine.Run o o' ∧ Abstracts t o' := by
  refine ⟨_, Outbox.run_next (a := .giveUp) rfl, h.offered.trans hqueued.symm,
    h.queue.trans hqueue.symm, iff_of_true rfl hidle, ?_, h.delivered.trans hsent.symm⟩
  rintro item ⟨⟩

/-- The upload that is committed is in flight. -/
theorem flight_commit (h : Abstracts s o) (huploads : s.Uploads) (hmatched : s.Matched)
    {upload : OutgoingMessage} (hupload : ⟨s.revision, .uploadSaved upload⟩ ∈ s.calls) :
    s.imageUploads = [] ∧ o.flight = some upload := by
  have hflag : s.flag .commit = true := hmatched.flags.flag_of_mem (mem_current.mpr hupload)
  have hcommit : s.uploadCommitting = true := hflag
  have hone := huploads.one
  rw [hcommit, Bool.toNat_true] at hone
  have hnil : s.imageUploads = [] := List.length_eq_zero_iff.mp (by omega)
  refine ⟨hnil, ?_⟩
  cases hflight : o.flight with
  | none => simp [(h.idle.mp hflight).2] at hcommit
  | some item =>
    rcases h.flies item hflight with ⟨uniqueId, hmem⟩ | hmem
    · simp [hnil] at hmem
    · obtain ⟨b, rest, heq, hkind, hother⟩ := hmatched.flags.callback hflag
      have hunique {c : Callback} (hc : ⟨s.revision, c⟩ ∈ s.calls) (hk : c.kind = .commit) :
          c = b := by
        have hcurrent := mem_current.mpr hc
        rw [heq] at hcurrent
        exact (Multiset.mem_cons.mp hcurrent).resolve_right fun hrest => hother c hrest hk
      have hitem := (hunique hmem rfl).trans (hunique hupload rfl).symm
      cases hitem
      rfl

/-- The only upload is in flight. -/
theorem flight_upload (h : Abstracts s o) (huploads : s.Uploads) {requestId : Text}
    {upload : OutgoingMessage} (hupload : s.upload requestId = some upload) (hmatched : s.Matched) :
    o.flight = some upload := by
  obtain ⟨heq, hcommit⟩ := huploads.upload_eq_some hupload
  cases hflight : o.flight with
  | none => simp [(h.idle.mp hflight).1] at heq
  | some item =>
    rcases h.flies item hflight with ⟨uniqueId, hmem⟩ | hmem
    · rw [heq, List.mem_singleton] at hmem
      cases hmem
      rfl
    · have hflag : s.flag .commit = true := hmatched.flags.flag_of_mem (mem_current.mpr hmem)
      rw [show s.flag .commit = s.uploadCommitting from rfl, hcommit] at hflag
      cases hflag

theorem forgetThread (h : Abstracts s o) (huploads : s.Uploads) (threadId : ℤ) :
    ∃ o', Outbox.machine.Run o o' ∧ Abstracts (s.forgetThread threadId) o' := by
  have hqueue : o.queue.filter (fun item => item.chat.threadId ≠ threadId) =
      (s.forgetThread threadId).sendQueue := by rw [h.queue]; rfl
  have hrun := Outbox.run_next (o := o)
    (a := .discard fun item => item.chat.threadId ≠ threadId) rfl
  -- the upload of the thread is given up too
  by_cases hkept : (s.forgetThread threadId).imageUploads = s.imageUploads
  · refine ⟨_, hrun, h.offered, hqueue, ?_, fun item hitem => ?_, h.delivered⟩
    · refine h.idle.trans ?_
      rw [State.Idle, State.Idle, hkept]
      rfl
    · rcases h.flies item hitem with hmem | hmem
      · exact .inl (by rwa [hkept])
      · exact .inr hmem
  · have hidle : (s.forgetThread threadId).Idle := by
      have hone := huploads.one
      have hless : (s.forgetThread threadId).imageUploads.length < s.imageUploads.length :=
        lt_of_le_of_ne List.filter_sublist.length_le
          fun heq => hkept (List.filter_sublist.eq_of_length heq)
      refine ⟨List.length_eq_zero_iff.mp (by omega), ?_⟩
      change s.uploadCommitting = false
      rw [← Bool.toNat_eq_zero]
      omega
    refine ⟨_, hrun.tail ⟨.giveUp, rfl⟩, h.offered, hqueue, iff_of_true rfl hidle, ?_, h.delivered⟩
    rintro _ ⟨⟩

theorem delivered_sent (h : Abstracts s o) {item : OutgoingMessage} {packet : Packet}
    (hlog : t.log = .sendData packet :: s.log) (hid : packet.uniqueId = item.message.uniqueId) :
    (o.delivered ++ [item]).map (·.message.uniqueId) = t.sentIds := by
  have hsent : (Entry.sendData packet).sentId = some item.message.uniqueId := congrArg some hid
  rw [List.map_append, h.delivered]
  unfold State.sentIds
  rw [hlog, List.filterMap_cons_some hsent, List.reverse_cons]
  rfl

theorem move (h : Abstracts s o) (huploads : s.Uploads) (hmatched : s.Matched)
    (hmove : Move C qt allows w s t) : ∃ o', Outbox.machine.Run o o' ∧ Abstracts t o' := by
  cases hmove with
  | quiet hquiet => exact ⟨o, .refl, h.quiet hquiet⟩
  | pass hidle hqueue =>
    exact ⟨_, Outbox.run_drop (h.idle.mpr hidle) (h.queue.trans hqueue), h.offered, rfl, h.idle,
      h.flies, h.delivered⟩
  | @upload item queue hidle hqueue =>
    have hlaunch : o.next .launch = some { o with queue, flight := some item } := by
      simp only [Outbox.next, h.idle.mpr hidle, h.queue.trans hqueue]
    refine ⟨_, Outbox.run_next hlaunch, h.offered, rfl, ?_, ?_, h.delivered⟩
    · refine iff_of_false (Option.some_ne_none item) fun ht => ?_
      exact List.cons_ne_nil _ _ ht.1
    · rintro _ ⟨⟩
      exact .inl ⟨_, List.mem_cons_self⟩
  | @send item queue hidle hqueue =>
    exact ⟨_, Outbox.run_through (h.idle.mpr hidle) (h.queue.trans hqueue), h.offered, rfl,
      h.idle, h.flies, h.delivered_sent rfl rfl⟩
  | forgetThread threadId => exact h.forgetThread huploads threadId
  | reset =>
    have hdiscard : o.next (.discard fun _ => false) = some { o with queue := [] } := by
      simp [Outbox.next]
    refine ⟨_, (Outbox.run_next hdiscard).tail ⟨.giveUp, rfl⟩, h.offered, rfl,
      iff_of_true rfl ⟨rfl, rfl⟩, ?_, h.delivered⟩
    rintro _ ⟨⟩
  | @ask data sampleId inputs contents uuid clearDraft =>
    refine ⟨o, .refl, h.congr ?_ ?_ rfl rfl rfl fun item hitem => Multiset.mem_cons_of_mem hitem⟩
    · exact queuedItems_given
    · exact sentIds_given
  | note hcalls => exact ⟨o, .refl, h.congr queuedItems_note sentIds_note rfl rfl rfl fun _ => id⟩
  | stale hcalls hstale =>
    refine ⟨o, .refl, h.congr rfl rfl rfl rfl rfl fun item hitem => ?_⟩
    rw [hcalls] at hitem
    refine (Multiset.mem_cons.mp hitem).resolve_left fun heq => ?_
    exact hstale (congrArg Call.revision heq).symm
  | sendRefused hcalls =>
    exact ⟨o, .refl, h.swap (by simp) hcalls rfl (fun _ => id) rfl rfl rfl rfl rfl⟩
  | @sendOver r data outgoing clearDraft m hcalls _ hquiet =>
    have hrefused : Abstracts { s with calls := m, saving := false } o :=
      h.swap (by simp) hcalls rfl (fun _ => id) rfl rfl rfl rfl rfl
    exact (hrefused.quiet hquiet).accept outgoing
  | uploadOver hupload => exact h.giveUp (huploads.forgetUpload hupload) rfl rfl rfl
  | uploadUnknown => exact ⟨o, .refl, h.congr rfl rfl rfl rfl rfl fun _ => id⟩
  | @commit requestId fileId upload _ hupload =>
    have hflight := h.flight_upload huploads hupload hmatched
    refine ⟨o, .refl, h.offered, h.queue, ?_, fun item hitem => ?_, h.delivered⟩
    · rw [hflight]
      refine iff_of_false (Option.some_ne_none upload) fun ht => ?_
      cases ht.2
    · rw [hflight] at hitem
      cases hitem
      exact .inr (Multiset.mem_cons_self _ _)
  | commitOver hcalls =>
    obtain ⟨hnil, -⟩ := h.flight_commit huploads hmatched (hcalls ▸ Multiset.mem_cons_self _ _)
    exact h.giveUp ⟨hnil, rfl⟩ rfl rfl rfl
  | @commitSent upload m hcalls =>
    obtain ⟨hnil, hflight⟩ := h.flight_commit huploads hmatched
      (hcalls ▸ Multiset.mem_cons_self _ _)
    have hdeliver : o.next .deliver =
        some { o with flight := none, delivered := o.delivered ++ [upload] } := by
      simp only [Outbox.next, hflight, Option.map_some]
    refine ⟨_, Outbox.run_next hdeliver, h.offered, h.queue, iff_of_true rfl ⟨hnil, rfl⟩, ?_,
      h.delivered_sent rfl rfl⟩
    rintro _ ⟨⟩
  | retry => exact ⟨o, .refl, h.congr rfl rfl rfl rfl rfl fun _ h => Multiset.mem_cons_of_mem h⟩
  | retryNext hcalls =>
    exact ⟨o, .refl, h.swap (by simp) hcalls rfl (Multiset.subset_cons _ _) rfl rfl rfl rfl rfl⟩
  | retryOver hcalls hb =>
    refine ⟨o, .refl, h.swap ?_ hcalls rfl (fun _ => id) rfl rfl rfl rfl rfl⟩
    rcases hb with ⟨data, rfl⟩ | ⟨data, image, needsUpload, rfl⟩ <;> simp
  | retryQueued hcalls =>
    refine Abstracts.enqueue ?_ _ true
    exact h.swap (by simp) hcalls rfl (fun _ => id) rfl rfl rfl rfl rfl
  | _ => exact ⟨o, .refl, h.congr rfl rfl rfl rfl rfl fun _ => id⟩

theorem moves (h : Abstracts s o) (huploads : s.Uploads) (hmatched : s.Matched)
    (hmoves : Moves C qt allows w s t) : ∃ o', Outbox.machine.Run o o' ∧ Abstracts t o' := by
  suffices hall : t.Uploads ∧ t.Matched ∧ ∃ o', Outbox.machine.Run o o' ∧ Abstracts t o' from
    hall.2.2
  induction hmoves with
  | refl => exact ⟨huploads, hmatched, o, .refl, h⟩
  | tail _ hmove ih =>
    obtain ⟨hu, hm, o₁, hrun, h₁⟩ := ih
    obtain ⟨o₂, hrun', h₂⟩ := h₁.move hu hm hmove
    exact ⟨hu.move hmove, hm.move hu hmove, o₂, hrun.trans hrun', h₂⟩

end Abstracts

/-- The sender refines the queue with one item in flight. -/
theorem sender_simulates : (machine C qt).Simulates (Outbox.machine (α := OutgoingMessage))
    Abstracts := by
  refine ⟨?_, ?_⟩
  · rintro _ ⟨contents, allocated, rfl⟩
    refine ⟨.empty, rfl, rfl, rfl, iff_of_true rfl ⟨rfl, rfl⟩, ?_, rfl⟩
    rintro _ ⟨⟩
  · rintro s ⟨w, e⟩ t o hs h hstep
    obtain ⟨huploads, hmatched⟩ := matched_invariant.reachable hs
    have hmoves : Moves C qt (fun _ _ => True) w s t := moves_next trivial hstep
    exact h.moves huploads hmatched hmoves

/-- The packets leave in the order in which their messages were queued, each message at most once
for every time that it was queued; the queue and what is in flight come after them in this
order. -/
theorem sent_as_queued (C : Texts.EmojiCatalog) (qt : Attachments.Qt) {s : State}
    (hs : (machine C qt).Reachable s) : ∃ sent flight : List OutgoingMessage,
    (sent ++ flight ++ s.sendQueue).Sublist s.queuedItems ∧
      sent.map (·.message.uniqueId) = s.sentIds ∧ flight.length ≤ 1 ∧ (s.Idle ↔ flight = []) ∧
      ∀ item ∈ flight, s.Flies item := by
  obtain ⟨o, ho, h⟩ := sender_simulates.reachable hs
  refine ⟨o.delivered, o.flight.toList, ?_, h.delivered, ?_, ?_, ?_⟩
  · rw [← h.queue, ← h.offered]
    exact Outbox.ordered_invariant.reachable ho
  · cases o.flight with
    | none => exact Nat.zero_le 1
    | some item => exact le_refl 1
  · rw [← h.idle]
    cases o.flight <;> simp
  · intro item hitem
    exact h.flies item (Option.mem_toList.mp hitem)

/-- The upload of the first picture is over, and its record saved. -/
def sampleUploaded : List (World × Event) :=
  [(sampleWorld, .uploadFinished (sampleUuid 0) [0x66] ""),
    (sampleWorld, .answer ⟨0, .uploadSaved
      ⟨samplePicture 1, sampleChat, ⟨0, sampleUuid 0, 7, .pic, 5⟩⟩⟩ ⟨"", []⟩)]

theorem sample_sent_as_queued : ∃ s,
    (machine ⟨[], by simp⟩ Attachments.sampleQt).Reachable s ∧ s.sentIds = [sampleUuid 0] ∧
      ∃ sent flight : List OutgoingMessage,
        (sent ++ flight ++ s.sendQueue).Sublist s.queuedItems ∧
          sent.map (·.message.uniqueId) = s.sentIds ∧ flight.length ≤ 1 ∧
          (s.Idle ↔ flight = []) ∧ ∀ item ∈ flight, s.Flies item := by
  have hrun : (sampleRun (sampleSend ++ sampleUploaded)).map (fun s => s.sentIds) =
      some [sampleUuid 0] := by decide
  obtain ⟨s, hs, hsent⟩ := Option.map_eq_some_iff.mp hrun
  have hreachable := sampleRun_reachable hs
  exact ⟨s, hreachable, hsent, sent_as_queued _ _ hreachable⟩

end CppChat.Sending
