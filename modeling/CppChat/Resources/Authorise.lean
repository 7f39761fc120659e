import Mathlib.Data.List.TakeWhile
import CppChat.Foundation.Fields
import CppChat.Resources.Admitted
import CppChat.Wire.Handlers

/-! # The ready record between two servers

The resource server writes the ready record of an upload as a text, and the chat server takes
a media message only if the text begins with what it expects. Both mean the same: the kind,
the owner and the conversation of the message are those of the upload.
-/
namespace CppChat.Resources
open Foundation Faults
open ServerStore (ChatMessage)
open Wire (Services checkMessage checkBatch IsResourceId)

/-! ## The text as fields -/

/-- The words before the numbers. -/
def labels (mediaType : ℤ) (isGroup : Bool) : List (List Char) :=
  (if mediaType = 3 then ["audio".toList] else if mediaType = 2 then ["file".toList] else []) ++
    if isGroup then ["group".toList] else []

/-- Both servers write these, each followed by a colon; a size ends the record. -/
def recordFields (mediaType : ℤ) (isGroup : Bool) (owner target : ℤ) : List (List Char) :=
  labels mediaType isGroup ++ [(toString owner).toList, (toString target).toList]

def Meta.IsGroup (m : Meta) : Bool := 0 < m.threadId

def Meta.target (m : Meta) : ℤ := if m.IsGroup then m.threadId else m.recipient

theorem ready_toList (m : Meta) : m.ready.toList =
    Fields.render ':' (recordFields m.mediaType m.IsGroup m.uid m.target) m.size.repr.toList := by
  unfold Meta.ready readyText recordFields labels Meta.target Meta.IsGroup
  by_cases hthread : 0 < m.threadId <;> by_cases h3 : m.mediaType = 3 <;>
    by_cases h2 : m.mediaType = 2 <;> simp [hthread, h3, h2, String.toList_append]

theorem expected_toList (msgType : ℤ) (isGroup : Bool) (owner target : ℤ) :
    ((if msgType = 3 then "audio:" else if msgType = 2 then "file:" else "") ++
      (if isGroup then "group:" ++ toString owner ++ ":" ++ toString target ++ ":"
        else toString owner ++ ":" ++ toString target ++ ":")).toList =
      Fields.render ':' (recordFields msgType isGroup owner target) [] := by
  unfold recordFields labels
  cases isGroup <;> by_cases h3 : msgType = 3 <;>
    by_cases h2 : msgType = 2 <;> simp [h3, h2, String.toList_append]

def IsLabel (f : List Char) : Prop :=
  f = "audio".toList ∨ f = "file".toList ∨ f = "group".toList

theorem isLabel_of_mem {mediaType : ℤ} {isGroup : Bool} {f : List Char}
    (h : f ∈ labels mediaType isGroup) : IsLabel f := by
  rcases List.mem_append.mp h with h | h
  · split at h
    · exact .inl (List.mem_singleton.mp h)
    · split at h
      · exact .inr (.inl (List.mem_singleton.mp h))
      · cases h
  · split at h
    · exact .inr (.inr (List.mem_singleton.mp h))
    · cases h

/-- A number is none of the words. -/
theorem not_isLabel_toString (z : ℤ) : ¬ IsLabel (toString z).toList := by
  rintro (h | h | h) <;> exact Fields.toString_int_ne (by decide) (String.toList_inj.mp h)

theorem colon_not_mem_recordFields {mediaType owner target : ℤ} {isGroup : Bool} :
    ∀ f ∈ recordFields mediaType isGroup owner target, ':' ∉ f := by
  intro f hf
  rcases List.mem_append.mp hf with hf | hf
  · rcases isLabel_of_mem hf with rfl | rfl | rfl <;> decide
  · rcases List.mem_pair.mp hf with rfl | rfl
    · exact Fields.colon_not_mem_int owner
    · exact Fields.colon_not_mem_int target

def IsMediaType (mediaType : ℤ) : Prop := mediaType = 1 ∨ mediaType = 2 ∨ mediaType = 3

theorem labels_injective {t t' : ℤ} {g g' : Bool} (ht : IsMediaType t) (ht' : IsMediaType t')
    (h : labels t g = labels t' g') : t = t' ∧ g = g' := by
  rcases ht with rfl | rfl | rfl <;> rcases ht' with rfl | rfl | rfl <;> cases g <;> cases g' <;>
    first | exact ⟨rfl, rfl⟩ | exact absurd h (by decide)

/-- The words end where the first number stands, so the fields of one record begin those of
another only if they are the same. -/
theorem recordFields_prefix_iff {t t' o o' x x' : ℤ} {g g' : Bool} (ht : IsMediaType t)
    (ht' : IsMediaType t') : recordFields t g o x <+: recordFields t' g' o' x' ↔
      t = t' ∧ g = g' ∧ o = o' ∧ x = x' := by
  rw [recordFields, recordFields, Fields.append_cons_prefix_iff (fun _ => isLabel_of_mem)
    (fun _ => isLabel_of_mem) (not_isLabel_toString o) (not_isLabel_toString o')]
  constructor
  · rintro ⟨hlabels, howner, htarget⟩
    obtain ⟨rfl, rfl⟩ := labels_injective ht ht' hlabels
    have htarget := List.singleton_prefix_cons_iff.mp htarget
    exact ⟨rfl, rfl, Fields.toString_int_injective (String.toList_inj.mp howner),
      Fields.toString_int_injective (String.toList_inj.mp htarget)⟩
  · rintro ⟨rfl, rfl, rfl, rfl⟩
    exact ⟨rfl, rfl, List.prefix_rfl⟩

/-! ## The check of the chat server -/

/-- What the record has to say for a media message. -/
def Meta.Authorises (r : Meta) (isGroup : Bool) (m : ChatMessage) : Prop :=
  r.mediaType = m.msgType ∧ r.uid = m.senderId ∧
    if isGroup then 0 < r.threadId ∧ r.threadId = m.threadId
    else r.threadId = 0 ∧ r.recipient = m.recvId

instance (r : Meta) (isGroup : Bool) (m : ChatMessage) : Decidable (r.Authorises isGroup m) :=
  inferInstanceAs (Decidable (_ ∧ _ ∧ _))

theorem stoull?_repr {n : ℕ} (h : n < 2 ^ 64) :
    Wire.stoull? (String.ofList n.repr.toList) = some n := by
  have hdigits : ∀ c ∈ Nat.toDigits 10 n, c.isDigit = true := fun c hc =>
    Nat.isDigit_of_mem_toDigits (by decide) (by decide) hc
  obtain ⟨c, cs, hcs⟩ := List.exists_cons_of_ne_nil (Nat.toDigits_ne_nil (n := n) (b := 10))
  have hc : c.isDigit = true := hdigits c (hcs ▸ List.mem_cons_self)
  have hspace : Wire.isSpace c = false := by
    by_contra hspace
    simp only [Bool.not_eq_false, Wire.isSpace, List.mem_cons, List.not_mem_nil, or_false,
      decide_eq_true_eq] at hspace
    rcases hspace with rfl | rfl | rfl | rfl | rfl | rfl <;> exact absurd hc (by decide)
  have hminus : c ≠ '-' := by
    rintro rfl
    exact absurd hc (by decide)
  have hplus : c ≠ '+' := by
    rintro rfl
    exact absurd hc (by decide)
  have htake : (c :: cs).takeWhile Char.isDigit = c :: cs :=
    List.takeWhile_eq_self_iff.mpr fun x hx => hdigits x (hcs ▸ hx)
  have hvalue : (c :: cs).foldl (fun n c => 10 * n + (c.toNat - '0'.toNat)) 0 = n := by
    rw [← hcs]
    exact Nat.ofDigitChars_ten_toDigits
  unfold Wire.stoull?
  rw [String.toList_ofList, Nat.toList_repr, hcs, List.dropWhile_cons_of_neg (by simp [hspace])]
  extract_lets text
  have htext : text = c :: cs := rfl
  clear_value text
  split
  next negative digits hsplit =>
    have hsign : negative = false ∧ digits = c :: cs := by
      split at hsplit
      · exact absurd (List.cons.inj htext).1.symm hminus
      · exact absurd (List.cons.inj htext).1.symm hplus
      · obtain ⟨rfl, rfl⟩ := Prod.mk.inj hsplit
        exact ⟨rfl, htext⟩
    obtain ⟨rfl, rfl⟩ := hsign
    dsimp only
    rw [htake, hvalue, if_neg (not_or.mpr ⟨List.cons_ne_nil c cs, not_le.mpr h⟩)]
    rfl

theorem Meta.Admitted.isMediaType {r : Meta} (h : r.Admitted) : IsMediaType r.mediaType := by
  obtain ⟨q, hq, hr⟩ := h
  rw [hr]
  simp only [InitRequest.valid, decide_eq_true_eq] at hq
  exact hq.2.2.1

/-- A group upload has no recipient, and any other one has no group. -/
theorem Meta.Admitted.threadId {r : Meta} (h : r.Admitted) (hthread : ¬ 0 < r.threadId) :
    r.threadId = 0 := by
  obtain ⟨q, hq, hr⟩ := h
  simp only [InitRequest.valid, decide_eq_true_eq] at hq
  have hnonneg : ¬ q.threadId < 0 := hq.1
  have heq : r.threadId = q.threadId := by rw [hr]; rfl
  omega

theorem Meta.Admitted.size {r : Meta} (h : r.Admitted) : r.size < 2 ^ 64 ∧
    (r.mediaType = 3 → waveHeaderBytes + minPcmBytes ≤ r.size ∧
      r.size ≤ waveHeaderBytes + maxPcmBytes) := by
  obtain ⟨q, hq, hr⟩ := h
  rw [hr]
  simp only [InitRequest.valid, decide_eq_true_eq] at hq
  obtain ⟨-, -, -, -, hle, hwave, -⟩ := hq
  exact ⟨hle.trans_lt (by decide), hwave⟩

/-- An element that comes as far as its ready record. -/
structure Reaches (actor : ℤ) (m : ChatMessage) : Prop where
  sender : m.senderId = actor
  recv : 0 < m.recvId
  thread : 0 < m.threadId
  type : IsMediaType m.msgType

variable {sha256 : Bytes → String} {v : Services} {actor : ℤ} {isGroup : Bool} {m : ChatMessage}

/-- The fields the chat server expects are those of the record if it authorises the message. -/
theorem expected_prefix_iff {r : Meta} (hr : r.Admitted) (hm : Reaches actor m) :
    recordFields m.msgType isGroup actor (if isGroup then m.threadId else m.recvId) <+:
      recordFields r.mediaType r.IsGroup r.uid r.target ↔ r.Authorises isGroup m := by
  rw [recordFields_prefix_iff hm.type hr.isMediaType, Meta.Authorises, hm.sender]
  have hgroup : r.IsGroup = true ↔ 0 < r.threadId := by simp [Meta.IsGroup]
  have hthread := hr.threadId
  cases isGroup with
  | true =>
    constructor
    · rintro ⟨htype, hg, howner, htarget⟩
      rw [Meta.target, if_pos hg.symm] at htarget
      exact ⟨htype.symm, howner.symm, hgroup.mp hg.symm, htarget.symm⟩
    · rintro ⟨htype, howner, hpos, htarget⟩
      refine ⟨htype.symm, (hgroup.mpr hpos).symm, howner.symm, ?_⟩
      rw [Meta.target, if_pos (hgroup.mpr hpos)]
      exact htarget.symm
  | false =>
    constructor
    · rintro ⟨htype, hg, howner, htarget⟩
      rw [Meta.target, ← hg] at htarget
      refine ⟨htype.symm, howner.symm, hthread fun hpos => ?_, htarget.symm⟩
      rw [hgroup.mpr hpos] at hg
      cases hg
    · rintro ⟨htype, howner, hzero, htarget⟩
      have hg : r.IsGroup = false := by simp [Meta.IsGroup, show r.threadId = 0 from hzero]
      refine ⟨htype.symm, hg.symm, howner.symm, ?_⟩
      rw [Meta.target, hg]
      exact htarget.symm

/-- The check of a media message against a record that the resource server wrote. -/
theorem checkMessage_ready {r : Meta} (hr : r.Admitted) (hm : Reaches actor m)
    (hid : IsResourceId m.content) (hget : v.redis ("resource_ready_" ++ m.content) = some r.ready) :
    checkMessage v actor isGroup m =
      if r.Authorises isGroup m then .ok { m with mediaSize := r.size }
      else .error Wire.ErrorCodes.errorJson := by
  have htype := hm.type
  unfold IsMediaType at htype
  have hmsg : ¬ (m.msgType < 0 ∨ 3 < m.msgType) ∧ m.msgType ≠ 0 := by omega
  have hfields : ¬ (m.senderId ≠ actor ∨ m.recvId ≤ 0 ∨ m.threadId ≤ 0) := by
    simp [hm.sender, hm.recv, hm.thread]
  unfold checkMessage
  rw [if_neg hfields, if_neg hmsg.1, if_neg hmsg.2, if_neg (not_not.mpr hid), hget]
  dsimp only
  have hstart : ((if m.msgType = 3 then "audio:" else if m.msgType = 2 then "file:" else "") ++
      if isGroup = true then "group:" ++ toString actor ++ ":" ++ toString m.threadId ++ ":"
      else toString actor ++ ":" ++ toString m.recvId ++ ":").toList =
      Fields.render ':' (recordFields m.msgType isGroup actor
        (if isGroup then m.threadId else m.recvId)) [] := by
    rw [← expected_toList]
    cases isGroup <;> rfl
  rw [hstart, ready_toList]
  by_cases hauth : r.Authorises isGroup m
  · have hleads : recordFields m.msgType isGroup actor (if isGroup then m.threadId else m.recvId) <+:
        recordFields r.mediaType r.IsGroup r.uid r.target := (expected_prefix_iff hr hm).mpr hauth
    rw [if_neg (not_not.mpr ((Fields.render_prefix colon_not_mem_recordFields
      colon_not_mem_recordFields (Fields.colon_not_mem_nat _)).mpr hleads)), if_pos hauth]
    have hsame : recordFields r.mediaType r.IsGroup r.uid r.target =
        recordFields m.msgType isGroup actor (if isGroup then m.threadId else m.recvId) := by
      obtain ⟨htype, hgroup, howner, htarget⟩ :=
        (recordFields_prefix_iff hm.type hr.isMediaType).mp hleads
      rw [← htarget, htype, ← hgroup, howner]
    have hdrop := @Fields.drop_render _ ':' (recordFields m.msgType isGroup actor
      (if isGroup then m.threadId else m.recvId)) [] r.size.repr.toList
    rw [List.append_nil, Fields.render_nil] at hdrop
    rw [hsame, hdrop, stoull?_repr hr.size.1]
    dsimp only
    rw [if_neg]
    rintro ⟨haudio, hsize⟩
    have hbounds := hr.size.2 (hauth.1.trans haudio)
    simp only [waveHeaderBytes, minPcmBytes, maxPcmBytes, pcmBytesPerSecond] at hbounds
    simp only [Wire.waveHeaderBytes, Wire.pcmBytesPerSecond] at hsize
    omega
  · rw [if_pos, if_neg hauth]
    intro hleads
    exact hauth ((expected_prefix_iff hr hm).mp ((Fields.render_prefix colon_not_mem_recordFields
      colon_not_mem_recordFields (Fields.colon_not_mem_nat _)).mp hleads))

end CppChat.Resources
