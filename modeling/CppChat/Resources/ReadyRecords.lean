import CppChat.Resources.Authorise
import CppChat.Wire.Frames

/-! # Messages about uploaded files

All uploads of a resource server, each under its own id, and the chat server that reads their
ready records. A media message is accepted exactly if its file is there, of its kind, from its
sender and for its conversation, and it carries the length of that file.
-/
namespace CppChat.Resources
open Foundation Faults
open ServerStore (ChatMessage)
open Wire (Services checkMessage checkBatch IsResourceId)

/-! ## All uploads -/

def Archive.step (sha256 : Bytes → String) (library : String → State) (id : String) (a : Action) :
    Option (String → State) :=
  if IsResourceId id then ((library id).step sha256 a).map (Function.update library id) else none

/-- Requests for any ids, in any order. -/
def archive (sha256 : Bytes → String) : Machine (String → State) (String × Action) :=
  .ofFn (fun library => library = fun _ => ⟨emptyDisk, []⟩) fun library x =>
    Archive.step sha256 library x.1 x.2

/-- No upload misses metadata that can be read. -/
def readableArchive (sha256 : Bytes → String) : Machine (String → State) (String × Action) :=
  (archive sha256).restrict fun library x => MetaReadable (library x.1) x.2

variable {sha256 : Bytes → String} {library : String → State} {v : Services}

/-- The runs of one id are runs of its own store. -/
theorem archive_each (h : (readableArchive sha256).Reachable library) (id : String) :
    (readableStore sha256).Reachable (library id) := by
  induction h with
  | init h =>
    cases h
    exact .init rfl
  | @step library library' x _ hstep ih =>
    obtain ⟨hreadable, hstep⟩ := hstep
    simp only [archive, Machine.ofFn, Archive.step] at hstep
    split at hstep
    · obtain ⟨s, hs, rfl⟩ := Option.map_eq_some_iff.mp hstep
      by_cases hid : id = x.1
      · subst hid
        rw [Function.update_self]
        exact ih.step ⟨hreadable, hs⟩
      · rw [Function.update_of_ne hid]
        exact ih
    · cases hstep

theorem archive_idle (h : (readableArchive sha256).Reachable library) {id : String}
    (hid : ¬ IsResourceId id) : (library id).disk.ready = none := by
  induction h with
  | init h =>
    cases h
    rfl
  | @step library library' x _ hstep ih =>
    have hstep := hstep.2
    simp only [archive, Machine.ofFn, Archive.step] at hstep
    split at hstep
    next hx =>
      obtain ⟨s, -, rfl⟩ := Option.map_eq_some_iff.mp hstep
      rwa [Function.update_of_ne fun he : id = x.1 => hid (he ▸ hx)]
    · cases hstep

/-- The file of an upload, with its ready record. -/
structure Finished (sha256 : Bytes → String) (s : State) (r : Meta) (bytes : Bytes) : Prop where
  parsed : s.disk.parsed = some r
  bin : s.disk.here.bin = some bytes
  complete : Complete sha256 r bytes
  ready : s.disk.ready = some r.ready

theorem finished_of_ready (h : (readableArchive sha256).Reachable library) {id text : String}
    (hready : (library id).disk.ready = some text) :
    ∃ r bytes, Finished sha256 (library id) r bytes ∧ r.Admitted := by
  have hstore := archive_each h id
  obtain ⟨r, hr, hbin, rfl⟩ := (sound_reachable hstore).ready text hready
  obtain ⟨bytes, hbytes⟩ := Option.ne_none_iff_exists'.mp hbin
  exact ⟨r, bytes, ⟨hr, hbytes, (sound_reachable hstore).bin r bytes hr hbytes, hready⟩,
    (recorded_reachable hstore.of_restrict).parsed hr⟩

/-! ## The two servers -/

/-- The chat server reads the ready records that the resource server sets. -/
def Shares (v : Services) (library : String → State) : Prop :=
  ∀ id, v.redis ("resource_ready_" ++ id) = (library id).disk.ready

/-- What one server takes is what the other one has. -/
structure Agreement (sha256 : Bytes → String) (v : Services) (library : String → State) :
    Prop where
  passes : ∀ actor isGroup m out, Reaches actor m →
    (checkMessage v actor isGroup m = .ok out ↔ ∃ r bytes,
      Finished sha256 (library m.content) r bytes ∧ r.Authorises isGroup m ∧
        out = { m with mediaSize := bytes.length })
  /-- Whatever the numbers are, a record is good for one kind, owner and conversation. -/
  only : ∀ actor isGroup m out (r : Meta), Reaches actor m → r.Admitted →
    (library m.content).disk.ready = some r.ready → checkMessage v actor isGroup m = .ok out →
    r.Authorises isGroup m
  /-- The batch that is stored for a request. -/
  stored : ∀ session timestamp (request : Wire.TextRequest) messages batch,
    ¬ request.Refused session → Wire.readItems session request timestamp request.textArray = .ok messages →
    checkBatch v request.fromUid messages = .ok batch → ∀ out ∈ batch, out.msgType ≠ 0 →
    ∃ r bytes, Finished sha256 (library out.content) r bytes ∧
      r.Authorises (request.toUid = 0) out ∧ out.mediaSize = bytes.length

theorem checkMessage_iff (h : (readableArchive sha256).Reachable library) (hv : Shares v library)
    {actor : ℤ} {isGroup : Bool} {m out : ChatMessage} (hm : Reaches actor m) :
    checkMessage v actor isGroup m = .ok out ↔ ∃ r bytes,
      Finished sha256 (library m.content) r bytes ∧ r.Authorises isGroup m ∧
        out = { m with mediaSize := bytes.length } := by
  have htype := hm.type
  unfold IsMediaType at htype
  have hmsg : ¬ (m.msgType < 0 ∨ 3 < m.msgType) ∧ m.msgType ≠ 0 := by omega
  by_cases hid : IsResourceId m.content
  · cases hready : (library m.content).disk.ready with
    | none =>
      constructor
      · intro hcheck
        unfold checkMessage at hcheck
        rw [if_neg (by simp [hm.sender, hm.recv, hm.thread]), if_neg hmsg.1, if_neg hmsg.2,
          if_neg (not_not.mpr hid), hv, hready] at hcheck
        cases hcheck
      · rintro ⟨r, bytes, hfinished, -⟩
        rw [hfinished.ready] at hready
        cases hready
    | some text =>
      obtain ⟨r, bytes, hfinished, hr⟩ := finished_of_ready h hready
      have hcheck := @checkMessage_ready v _ isGroup _ r hr hm hid
        ((hv _).trans hfinished.ready)
      constructor
      · intro hok
        rw [hcheck] at hok
        split at hok
        next hauth =>
          cases hok
          exact ⟨r, bytes, hfinished, hauth, by rw [hfinished.complete.1]⟩
        next => cases hok
      · rintro ⟨r', bytes', hfinished', hauth, rfl⟩
        have hparsed := hfinished'.parsed
        rw [hfinished.parsed] at hparsed
        cases hparsed
        rw [hcheck, if_pos hauth, hfinished'.complete.1]
  · constructor
    · intro hcheck
      unfold checkMessage at hcheck
      rw [if_neg (by simp [hm.sender, hm.recv, hm.thread]), if_neg hmsg.1, if_neg hmsg.2,
        if_pos hid] at hcheck
      cases hcheck
    · rintro ⟨r, bytes, hfinished, -⟩
      have hready := hfinished.ready
      rw [archive_idle h hid] at hready
      cases hready

/-- The check sets nothing but the size, and that of media only. -/
theorem checkMessage_out {actor : ℤ} {isGroup : Bool} {m out : ChatMessage}
    (h : checkMessage v actor isGroup m = .ok out) :
    (out.msgType ≠ 0 → Reaches actor m) ∧ ∃ size, out = { m with mediaSize := size } := by
  unfold checkMessage at h
  split at h
  · cases h
  next hfields =>
    simp only [not_or, not_not, not_le] at hfields
    split at h
    · cases h
    next hrange =>
      split at h
      next htext =>
        cases h
        exact ⟨fun htype => absurd htext htype, m.mediaSize, rfl⟩
      next htype =>
        have hm : Reaches actor m :=
          ⟨hfields.1, hfields.2.1, hfields.2.2, by unfold IsMediaType; omega⟩
        refine ⟨fun _ => hm, ?_⟩
        split at h
        · cases h
        · split at h
          · cases h
          · extract_lets scope kind start at h
            clear_value start
            split at h
            · cases h
            · split at h
              · cases h
              next size _ =>
                split at h
                · cases h
                · cases h
                  exact ⟨size, rfl⟩

theorem readItems_fields {session : Wire.Session} {request : Wire.TextRequest}
    {timestamp : String} {items : List Wire.TextItem} {messages : List ChatMessage}
    (h : Wire.readItems session request timestamp items = .ok messages) :
    ∀ m ∈ messages, m.senderId = request.fromUid ∧
      m.recvId = if request.toUid = 0 then request.fromUid else request.toUid := by
  induction items generalizing messages with
  | nil =>
    cases h
    simp
  | cons item items ih =>
    rw [Wire.readItems] at h
    split at h
    · exact ih h
    · dsimp only at h
      split at h
      · cases h
      · obtain ⟨rest, hrest, h⟩ := bind_eq_ok.mp h
        cases h
        exact List.forall_mem_cons.mpr ⟨⟨rfl, rfl⟩, ih hrest⟩

theorem agreement (h : (readableArchive sha256).Reachable library) (hv : Shares v library) :
    Agreement sha256 v library where
  passes actor isGroup m out hm := checkMessage_iff h hv hm
  only actor isGroup m out r hm hr hready hcheck := by
    have hid : IsResourceId m.content := by
      by_contra hid
      rw [archive_idle h hid] at hready
      cases hready
    rw [checkMessage_ready (v := v) hr hm hid ((hv _).trans hready)] at hcheck
    split at hcheck
    next hauth => exact hauth
    next => cases hcheck
  stored session timestamp request messages batch hrequest hread hbatch out hout htype := by
    obtain ⟨first, rest, hmessages, hchecked⟩ := Wire.checkBatch_ok hbatch
    have hfields := readItems_fields hread
    obtain ⟨hsender, hrecv⟩ := hfields first (hmessages ▸ List.mem_cons_self)
    obtain ⟨m, hm⟩ := ServerStore.State.exists_of_mem_forall₂ hchecked.flip hout
    change checkMessage v request.fromUid (first.senderId = first.recvId) m = .ok out at hm
    obtain ⟨hreaches, size, rfl⟩ := checkMessage_out hm
    obtain ⟨r, bytes, hfinished, hauth, hsize⟩ := (checkMessage_iff h hv (hreaches htype)).mp hm
    have hgroup : decide (first.senderId = first.recvId) = decide (request.toUid = 0) := by
      simp only [Wire.TextRequest.Refused, not_or] at hrequest
      rw [hsender, hrecv, decide_eq_decide]
      split
      next hto => simp [hto]
      next hto => exact ⟨fun he => absurd he.symm hrequest.2.2.2.1, fun he => absurd he hto⟩
    rw [hgroup] at hauth
    exact ⟨r, bytes, hfinished, hauth, congrArg ChatMessage.mediaSize hsize⟩

/-! ## Runs of one id -/

theorem strangers_isInt (_ _ : ℤ) : Wire.IsInt 0 := Nat.zero_le _

/-- A chat server without groups and strangers, on the same Redis. -/
def services (library : String → State) : Services where
  getGroup _ _ := 0
  checkFriendship _ _ := 0
  checkPrivateChatAccess _ _ := 0
  redis key :=
    if "resource_ready_".toList <+: key.toList then
      (library (String.ofList (key.toList.drop 15))).disk.ready
    else none
  access_isInt := strangers_isInt

theorem shares_services (library : String → State) : Shares (services library) library := by
  intro id
  have hlist : ("resource_ready_" ++ id).toList = "resource_ready_".toList ++ id.toList :=
    String.toList_append
  have hdrop : ("resource_ready_".toList ++ id.toList).drop 15 = id.toList :=
    @List.drop_left _ "resource_ready_".toList id.toList
  simp only [services]
  rw [hlist, if_pos (List.prefix_append _ _), hdrop, String.ofList_toList]

def sampleId : String := "0123456789abcdef0123456789abcdef"

/-- A picture for the other user. -/
def picture (sender recv : ℤ) : ChatMessage :=
  ⟨0, 7, sender, recv, "u1", sampleId, "", 2, 1, 0⟩

def uploads (actions : List Action) : List (String × Action) := actions.map fun a => (sampleId, a)

theorem agreement_sample : ∃ library, (readableArchive sampleDigest).Reachable library ∧
    checkMessage (services library) 1 false (picture 1 2) =
      .ok { picture 1 2 with mediaSize := 3 } ∧
    checkMessage (services library) 2 false (picture 2 1) = .error Wire.ErrorCodes.errorJson ∧
    Agreement sampleDigest (services library) library := by
  have hrun : (Machine.runFn (fun library x => if MetaReadable (library x.1) x.2 then
      Archive.step sampleDigest library x.1 x.2 else none) (fun _ => ⟨emptyDisk, []⟩)
      (uploads interrupted)).map (fun library =>
        (checkMessage (services library) 1 false (picture 1 2),
          checkMessage (services library) 2 false (picture 2 1))) =
      some (.ok { picture 1 2 with mediaSize := 3 }, .error Wire.ErrorCodes.errorJson) := by
    decide +kernel
  obtain ⟨library, hlibrary, hchecks⟩ := Option.map_eq_some_iff.mp hrun
  simp only [Prod.mk.injEq] at hchecks
  have hreachable : (readableArchive sampleDigest).Reachable library :=
    Machine.Reachable.runFn_restrict (.init rfl) hlibrary
  exact ⟨library, hreachable, hchecks.1, hchecks.2, agreement hreachable (shares_services library)⟩

/-- After an upload that could not open the metadata, a picture of another user passes with a
size that is not the size of the file. -/
theorem replaced_metadata_authorises : ∃ library, (archive sampleDigest).Reachable library ∧
    checkMessage (services library) 3 false (picture 3 4) =
      .ok { picture 3 4 with mediaSize := 5 } ∧
    (library sampleId).disk.here.bin = some (ascii "abc") ∧
    ¬ Agreement sampleDigest (services library) library := by
  have hrun : (Machine.runFn (fun library x => Archive.step sampleDigest library x.1 x.2)
      (fun _ => ⟨emptyDisk, []⟩) (uploads [initAbc good, sendChunk 0 "abc" good, takeOver])).map
      (fun library => (checkMessage (services library) 3 false (picture 3 4),
        (library sampleId).disk.here.bin)) =
      some (.ok { picture 3 4 with mediaSize := 5 }, some (ascii "abc")) := by
    decide +kernel
  obtain ⟨library, hlibrary, hstate⟩ := Option.map_eq_some_iff.mp hrun
  simp only [Prod.mk.injEq] at hstate
  obtain ⟨hcheck, hbin⟩ := hstate
  have hreachable : (archive sampleDigest).Reachable library :=
    Machine.Reachable.runFn (.init rfl) hlibrary
  refine ⟨library, hreachable, hcheck, hbin, fun hagree => ?_⟩
  have hreaches : Reaches 3 (picture 3 4) := ⟨rfl, by decide, by decide, .inl rfl⟩
  obtain ⟨r, bytes, hfinished, -, hsize⟩ := (hagree.passes 3 false _ _ hreaches).mp hcheck
  have hbytes : some bytes = some (ascii "abc") := hfinished.bin.symm.trans hbin
  cases hbytes
  exact absurd (congrArg ChatMessage.mediaSize hsize) (by decide)

end CppChat.Resources
