import Mathlib.Algebra.BigOperators.Group.Multiset.Basic
import CppChat.Sending.Progress

/-! # How much waits

`Send` looks at what waits before it takes more. What a retry queues is not counted there.
-/
namespace CppChat.Sending
open State

variable {C : Texts.EmojiCatalog} {qt : Attachments.Qt} {allows : State → Event → Prop}
  {w : World} {s t : State} {item : OutgoingMessage} {weight : OutgoingMessage → ℕ} {limit : ℕ}
  {m sent again : Multiset OutgoingMessage}

def total (weight : OutgoingMessage → ℕ) (items : Multiset OutgoingMessage) : ℕ :=
  (items.map weight).sum

theorem total_add : total weight (sent + again) = total weight sent + total weight again := by
  rw [total, Multiset.map_add, Multiset.sum_add]
  rfl

theorem total_mono (h : m ≤ sent) : total weight m ≤ total weight sent := by
  obtain ⟨rest, rfl⟩ := Multiset.le_iff_exists_add.mp h
  rw [total_add]
  exact Nat.le_add_right _ _

/-- What is left of two parts is made of what is left of each. -/
theorem exists_add_of_le_add (h : m ≤ sent + again) :
    ∃ sent' ≤ sent, ∃ again' ≤ again, m = sent' + again' := by
  refine ⟨m ∩ sent, Multiset.inter_le_right, m - sent, tsub_le_iff_left.mpr h, ?_⟩
  rw [add_comm, Multiset.sub_add_inter]

/-- The items that a retry queued. -/
def Entry.retriedItem : Entry → Option OutgoingMessage
  | queued item true => some item
  | _ => none

def State.retriedItems (s : State) : List OutgoingMessage := s.log.filterMap Entry.retriedItem

/-- What waits in the queue or for its upload. -/
def State.waiting (s : State) : Multiset OutgoingMessage :=
  s.sendQueue + (s.imageUploads.map Prod.snd : List OutgoingMessage)

/-- A send keeps the limit. -/
def Admits (C : Texts.EmojiCatalog) (qt : Attachments.Qt) (weight : OutgoingMessage → ℕ)
    (limit : ℕ) : Prop :=
  ∀ (s : State) (w : World) (data : Chat) (sampleId : Texts.Uuid) (inputs contents : List MsgInfo)
    (uuid : ℕ → Foundation.Utf16.Text),
    collect C qt w data sampleId (s.sendQueue.length + s.imageUploads.length) inputs [] =
      .ok contents → contents ≠ [] →
    media s.sendQueue + media (s.imageUploads.map Prod.snd) +
      media (s.create w data uuid contents) ≤ maxMedia →
    total weight s.waiting + total weight (s.create w data uuid contents) ≤ limit

/-- What waits is what retries queued and what was sent, and the latter keeps every limit that the
sends keep, together with what a send is still to queue. -/
structure State.Limited (C : Texts.EmojiCatalog) (qt : Attachments.Qt) (s : State)
    (sent again : Multiset OutgoingMessage) : Prop where
  waiting : s.waiting = sent + again
  retried : again ≤ s.retriedItems
  limit : ∀ weight limit, Admits C qt weight limit → total weight sent ≤ limit
  asked : ∀ weight limit, Admits C qt weight limit →
    ∀ (data : Chat) (outgoing : List OutgoingMessage) (clearDraft : Bool),
    ⟨s.revision, .sendSaved data outgoing clearDraft⟩ ∈ s.calls →
      total weight sent + total weight outgoing ≤ limit

theorem Quiet.retriedItems (h : Quiet s t) : t.retriedItems = s.retriedItems := by
  obtain ⟨es, hlog, hes⟩ := h.log
  unfold State.retriedItems
  rw [hlog, List.filterMap_append, List.filterMap_eq_nil_iff.mpr, List.nil_append]
  intro e he
  have hplain := hes e he
  cases e <;> first | rfl | cases hplain

theorem Quiet.waiting (h : Quiet s t) : t.waiting = s.waiting := by
  unfold State.waiting
  rw [h.sendQueue, h.imageUploads]

theorem waiting_enqueue (item : OutgoingMessage) (b : Bool) :
    (s.enqueue item b).waiting = item ::ₘ s.waiting := by
  have hpush : ((s.sendQueue ++ [item] : List OutgoingMessage) : Multiset OutgoingMessage) =
      item ::ₘ s.sendQueue := Multiset.coe_eq_coe.mpr (List.perm_append_singleton item _)
  simp only [State.waiting, enqueue, emit, hpush, Multiset.cons_add]

theorem waiting_accept (outgoing : List OutgoingMessage) :
    (outgoing.foldl accept s).waiting = outgoing + s.waiting ∧
      (outgoing.foldl accept s).retriedItems = s.retriedItems := by
  induction outgoing generalizing s with
  | nil => exact ⟨(zero_add _).symm, rfl⟩
  | cons item outgoing ih =>
    obtain ⟨r, hr, heq⟩ := accept_cases s item
    obtain ⟨hwaiting, hretried⟩ := @ih (s.accept item)
    have hitem : (s.accept item).waiting = item ::ₘ s.waiting := by
      rw [heq, waiting_enqueue, hr.waiting]
    refine ⟨?_, ?_⟩
    · rw [List.foldl_cons, hwaiting, hitem, ← Multiset.cons_coe, Multiset.cons_add,
        Multiset.add_cons]
    · rw [List.foldl_cons, hretried, ← hr.retriedItems, heq]
      rfl

/-- The first item of the queue was one of those that wait. -/
theorem waiting_queue {queue : List OutgoingMessage} (hqueue : s.sendQueue = item :: queue) :
    item ::ₘ ({ s with sendQueue := queue } : State).waiting = s.waiting := by
  simp only [State.waiting, hqueue, ← Multiset.cons_coe, Multiset.cons_add]

theorem waiting_mono (hqueue : t.sendQueue.Sublist s.sendQueue)
    (huploads : t.imageUploads.Sublist s.imageUploads) : t.waiting ≤ s.waiting :=
  add_le_add (Multiset.coe_le.mpr hqueue.subperm)
    (Multiset.coe_le.mpr (huploads.map Prod.snd).subperm)

namespace State.Limited

/-- Less waits, and no send is asked for. -/
theorem less (h : s.Limited C qt sent again) (hwaiting : t.waiting ≤ s.waiting)
    (hretried : t.retriedItems = s.retriedItems)
    (hcalls : ∀ (data : Chat) (outgoing : List OutgoingMessage) (clearDraft : Bool),
      ⟨t.revision, .sendSaved data outgoing clearDraft⟩ ∈ t.calls →
        ⟨s.revision, .sendSaved data outgoing clearDraft⟩ ∈ s.calls) :
    ∃ sent again, t.Limited C qt sent again := by
  obtain ⟨sent', hsent, again', hagain, heq⟩ := exists_add_of_le_add (h.waiting ▸ hwaiting)
  refine ⟨sent', again', heq, hretried ▸ hagain.trans h.retried, fun weight limit hadmits => ?_,
    fun weight limit hadmits data outgoing clearDraft hmem => ?_⟩
  · exact (total_mono hsent).trans (h.limit weight limit hadmits)
  · have hasked := h.asked weight limit hadmits data outgoing clearDraft
      (hcalls data outgoing clearDraft hmem)
    have hle : total weight sent' ≤ total weight sent := total_mono hsent
    omega

theorem quiet (h : s.Limited C qt sent again) (hquiet : Quiet s t) :
    ∃ sent again, t.Limited C qt sent again := by
  refine h.less hquiet.waiting.le hquiet.retriedItems fun _ _ _ hmem => ?_
  rwa [hquiet.revision, hquiet.calls] at hmem

theorem requeue (h : s.Limited C qt sent again) (item : OutgoingMessage) :
    (s.enqueue item true).Limited C qt sent (item ::ₘ again) := by
  refine ⟨?_, Multiset.cons_le_cons item h.retried, h.limit, h.asked⟩
  rw [waiting_enqueue, h.waiting, Multiset.add_cons]

theorem move (h : s.Limited C qt sent again) (huploads : s.Uploads) (hmatched : s.Matched)
    (hmove : Move C qt allows w s t) : ∃ sent again, t.Limited C qt sent again := by
  -- no send is asked for where the flag is down
  have hnone {t : State} (ht : t.Matched) (hsaving : t.saving = false) (data : Chat)
      (outgoing : List OutgoingMessage) (clearDraft : Bool) :
      ⟨t.revision, .sendSaved data outgoing clearDraft⟩ ∉ t.calls := by
    intro hmem
    have hflag : t.saving = true := ht.flags.flag_of_mem (mem_current.mpr hmem)
    rw [hsaving] at hflag
    cases hflag
  cases hmove with
  | quiet hquiet => exact h.quiet hquiet
  | pass _ hqueue =>
    refine h.less ?_ rfl fun _ _ _ => id
    exact (Multiset.le_cons_self _ _).trans (waiting_queue hqueue).le
  | @upload item queue hidle hqueue =>
    refine h.less ?_ rfl fun _ _ _ => id
    have hwaiting := (waiting_queue hqueue).le
    simp only [State.waiting, hidle.1, List.map_nil, Multiset.coe_nil, add_zero] at hwaiting
    simp only [State.waiting, startUpload, State.forgetUpload, emit, hidle.1, List.filter_nil,
      List.map_cons, List.map_nil, Multiset.coe_singleton, Multiset.coe_nil, add_zero]
    rwa [add_comm, Multiset.singleton_add]
  | send _ hqueue =>
    refine h.less ?_ rfl fun _ _ _ => id
    exact (Multiset.le_cons_self _ _).trans (waiting_queue hqueue).le
  | forgetThread threadId =>
    refine h.less ?_ rfl fun _ _ _ => id
    exact waiting_mono List.filter_sublist List.filter_sublist
  | reset =>
    refine h.less (Multiset.zero_le _) rfl fun data outgoing clearDraft hmem => ?_
    exact absurd (hmatched.revision_le _ hmem) (Nat.not_succ_le_self _)
  | @ask data sampleId inputs contents uuid clearDraft hsaving hcollect hne hmedia =>
    have hretried : (s.asked data (s.create w data uuid contents) clearDraft).retriedItems =
        s.retriedItems := by
      unfold State.retriedItems State.asked allocate
      dsimp only [call]
      rw [List.filterMap_append, List.filterMap_eq_nil_iff.mpr (by simp [Entry.retriedItem]),
        List.nil_append]
    refine ⟨sent, again, h.waiting, hretried ▸ h.retried, h.limit,
      fun weight limit hadmits data' outgoing' clearDraft' hmem => ?_⟩
    rcases Multiset.mem_cons.mp hmem with heq | hmem
    · cases heq
      have hle := hadmits s w data sampleId inputs contents uuid hcollect hne hmedia
      rw [h.waiting, total_add] at hle
      omega
    · exact absurd hmem (hnone hmatched hsaving data' outgoing' clearDraft')
  | @note b m hcalls =>
    refine h.less (le_refl _) ?_ fun _ _ _ => id
    unfold State.retriedItems
    rw [List.filterMap_append, List.filterMap_eq_nil_iff.mpr (by simp [Entry.retriedItem]),
      List.nil_append]
  | stale hcalls =>
    exact h.less (le_refl _) rfl fun _ _ _ hmem => hcalls ▸ Multiset.mem_cons_of_mem hmem
  | sendRefused hcalls =>
    exact h.less (le_refl _) rfl fun _ _ _ hmem => hcalls ▸ Multiset.mem_cons_of_mem hmem
  | @sendOver r data outgoing clearDraft m hcalls hsaved hquiet =>
    have hover : Move C qt allows w s (outgoing.foldl State.accept r) :=
      .sendOver hcalls hsaved hquiet
    have hmatched' := hmatched.move huploads hover
    have hsaving : (outgoing.foldl State.accept r).saving = false :=
      (same_foldl_accept outgoing r).saving.trans hquiet.saving
    obtain ⟨hwaiting, hretried⟩ := @waiting_accept r outgoing
    refine ⟨outgoing + sent, again, ?_, ?_, fun weight limit hadmits => ?_,
      fun weight limit _ data' outgoing' clearDraft' hmem => ?_⟩
    · rw [hwaiting, hquiet.waiting, add_assoc]
      exact congrArg _ h.waiting
    · rw [hretried, hquiet.retriedItems]
      exact h.retried
    · have hasked := h.asked weight limit hadmits data outgoing clearDraft
        (hcalls ▸ Multiset.mem_cons_self _ _)
      rw [total_add]
      omega
    · exact absurd hmem (hnone hmatched' hsaving data' outgoing' clearDraft')
  | uploadOver =>
    refine h.less ?_ rfl fun _ _ _ => id
    exact waiting_mono (List.Sublist.refl _) List.filter_sublist
  | commit =>
    refine h.less ?_ rfl fun _ _ _ hmem => ?_
    · exact waiting_mono (List.Sublist.refl _) List.filter_sublist
    · exact (Multiset.mem_cons.mp hmem).resolve_left (by simp)
  | commitOver hcalls =>
    exact h.less (le_refl _) rfl fun _ _ _ hmem => hcalls ▸ Multiset.mem_cons_of_mem hmem
  | commitSent hcalls =>
    exact h.less (le_refl _) rfl fun _ _ _ hmem => hcalls ▸ Multiset.mem_cons_of_mem hmem
  | retry =>
    refine h.less (le_refl _) rfl fun _ _ _ hmem => ?_
    exact (Multiset.mem_cons.mp hmem).resolve_left (by simp)
  | retryNext hcalls =>
    refine h.less (le_refl _) rfl fun _ _ _ hmem => hcalls ▸ Multiset.mem_cons_of_mem ?_
    exact (Multiset.mem_cons.mp hmem).resolve_left (by simp)
  | retryOver hcalls =>
    exact h.less (le_refl _) rfl fun _ _ _ hmem => hcalls ▸ Multiset.mem_cons_of_mem hmem
  | @retryQueued message data image needsUpload m hcalls =>
    have hover := h.less (t := ({ s with calls := m } : State).forgetRetry message.uniqueId)
      (le_refl _) rfl fun _ _ _ hmem => hcalls ▸ Multiset.mem_cons_of_mem hmem
    obtain ⟨sent', again', hover⟩ := hover
    exact ⟨_, _, hover.requeue _⟩
  | _ => exact h.less (le_refl _) rfl fun _ _ _ => id

end State.Limited

/-- What was sent and waits keeps every limit that every send keeps. -/
theorem limited_invariant : (machine C qt).Invariant
    fun s => (s.Uploads ∧ s.Matched) ∧ ∃ sent again, s.Limited C qt sent again := by
  refine invariant_of_moves (fun contents allocated => ⟨?_, 0, 0, rfl, Multiset.zero_le _, ?_, ?_⟩)
    ?_
  · exact (@matched_invariant C qt).init _ ⟨contents, allocated, rfl⟩
  · exact fun _ _ _ => Nat.zero_le _
  · exact fun _ _ _ _ _ _ hmem => absurd hmem (Multiset.notMem_zero _)
  · rintro w s t ⟨⟨huploads, hmatched⟩, sent, again, hlimited⟩ hmove
    exact ⟨⟨huploads.move hmove, hmatched.move huploads hmove⟩,
      hlimited.move huploads hmatched hmove⟩

/-! ## The two limits -/

theorem addParts_length {waiting : ℕ} {input : MsgInfo} {parts : List Foundation.Utf16.Text}
    {outgoing contents : List MsgInfo} (h : addParts waiting input parts outgoing = .ok contents)
    (hle : outgoing ≠ [] → outgoing.length + waiting ≤ maxWaiting) :
    contents ≠ [] → contents.length + waiting ≤ maxWaiting := by
  induction parts generalizing outgoing with
  | nil =>
    cases h
    exact hle
  | cons part parts ih =>
    simp only [addParts] at h
    split at h
    · cases h
    next hfew => exact ih h fun _ => not_lt.mp hfew

theorem collect_length {waiting : ℕ} {data : Chat} {sampleId : Texts.Uuid}
    {inputs outgoing contents : List MsgInfo}
    (h : collect C qt w data sampleId waiting inputs outgoing = .ok contents)
    (hle : outgoing ≠ [] → outgoing.length + waiting ≤ maxWaiting) :
    contents ≠ [] → contents.length + waiting ≤ maxWaiting := by
  induction inputs generalizing outgoing with
  | nil =>
    cases h
    exact hle
  | cons input inputs ih =>
    simp only [collect] at h
    split at h
    · cases h
    · split at h
      · exact ih h hle
      · obtain ⟨parts, hparts, hrest⟩ := Foundation.bind_eq_ok.mp h
        exact ih hrest (addParts_length hparts hle)

theorem total_one : total (fun _ => 1) m = m.card := by
  simp [total]

theorem admits_count : Admits C qt (fun _ => 1) maxWaiting := by
  intro s w data sampleId inputs contents uuid hcollect hne _
  have hlength := collect_length hcollect (fun h => absurd rfl h) hne
  simp only [State.waiting, total_one, Multiset.card_add, Multiset.coe_card, List.length_map,
    create, List.length_mapIdx]
  omega

def imageSize (item : OutgoingMessage) : ℕ := item.content.imageData.length

theorem total_imageSize (items : List OutgoingMessage) : total imageSize items = media items := by
  rw [total, Multiset.map_coe, Multiset.sum_coe]
  rfl

theorem admits_media : Admits C qt imageSize maxMedia := by
  intro s w data sampleId inputs contents uuid _ _ hmedia
  rw [State.waiting, total_add, total_imageSize, total_imageSize, total_imageSize]
  exact hmedia

/-- In every state the messages that wait, in the queue or for an upload, are some that retries
queued and no more than 200 others with no more than 64 MiB of media, those of a send included that
is still to be saved. -/
theorem waiting_bounded (C : Texts.EmojiCatalog) (qt : Attachments.Qt) {s : State}
    (hs : (machine C qt).Reachable s) : ∃ sent again : Multiset OutgoingMessage,
    s.waiting = sent + again ∧ again ≤ s.retriedItems ∧
    sent.card ≤ 200 ∧ total imageSize sent ≤ 64 * 1024 * 1024 ∧
    ∀ (data : Chat) (outgoing : List OutgoingMessage) (clearDraft : Bool),
      ⟨s.revision, .sendSaved data outgoing clearDraft⟩ ∈ s.calls →
      sent.card + outgoing.length ≤ 200 ∧
      total imageSize sent + media outgoing ≤ 64 * 1024 * 1024 := by
  obtain ⟨-, sent, again, h⟩ := limited_invariant.reachable hs
  have hcount := h.limit _ _ admits_count
  rw [total_one] at hcount
  refine ⟨sent, again, h.waiting, h.retried, hcount, h.limit _ _ admits_media,
    fun data outgoing clearDraft hmem => ⟨?_, ?_⟩⟩
  · have hasked := h.asked _ _ admits_count data outgoing clearDraft hmem
    rw [total_one, total_one] at hasked
    exact hasked
  · have hasked := h.asked _ _ admits_media data outgoing clearDraft hmem
    rw [total_imageSize] at hasked
    exact hasked

theorem sample_bounded : ∃ s, (machine ⟨[], by simp⟩ Attachments.sampleQt).Reachable s ∧
    s.waiting.card = 2 ∧ ∃ sent again : Multiset OutgoingMessage, s.waiting = sent + again ∧
      again ≤ s.retriedItems ∧ sent.card ≤ 200 := by
  have hrun : (sampleRun sampleSend).map (fun s => s.waiting.card) = some 2 := by decide
  obtain ⟨s, hs, hlength⟩ := Option.map_eq_some_iff.mp hrun
  have hreachable := sampleRun_reachable hs
  obtain ⟨sent, again, hwaiting, hagain, hcard, -⟩ := waiting_bounded _ _ hreachable
  exact ⟨s, hreachable, hlength, sent, again, hwaiting, hagain, hcard⟩

end CppChat.Sending
