import CppChat.Foundation.Atomicity
import CppChat.Relations.Contacts
import CppChat.Relations.Groups

/-! # The operations keep the locking discipline

Every change of the members of a group follows the lock of its row, and so does every plain
read. All other rows are read under their own locks.
-/
namespace CppChat.Relations
open Foundation RowLocks

/-- The operations on contacts and groups. -/
inductive Operation
  | addFriendApply (fromUid toUid : ℤ) (description remark tags : String)
  | addFriend (fromUid toUid : ℤ) (remark tags : String)
  | deleteFriend (selfUid friendUid : ℤ)
  | createPrivateChat (user1 user2 : ℤ)
  | changeGroup (uid : ℤ) (request : GroupRequest)
  deriving DecidableEq

/-- `RunContactTransaction` tries three times; the others try once. -/
def service (writeString : Name → Finset ℤ → String) : Service Val Result Operation where
  program
    | .addFriendApply fromUid toUid description remark tags =>
      addFriendApply fromUid toUid description remark tags
    | .addFriend fromUid toUid remark tags => addFriend fromUid toUid remark tags
    | .deleteFriend selfUid friendUid => deleteFriend selfUid friendUid
    | .createPrivateChat user1 user2 => createPrivateChat user1 user2
    | .changeGroup uid request => changeGroup writeString uid request
  attempts
    | .createPrivateChat .. | .changeGroup .. => 1
    | _ => 3
  failed
    | .addFriendApply .. => .applied false false
    | .addFriend .. => .befriended false []
    | .deleteFriend .. => .deleted false
    | .createPrivateChat .. => .privateChat false 0
    | .changeGroup .. => .group ErrorCodes.databaseError none

section
variable {held alone : Row → Prop} {seen : Option (Row → Prop)} {thread : ℕ} {r : Row}

/-- The program keeps the discipline whatever is locked. -/
def Free (p : Program) : Prop := ∀ held alone seen, p.Guarded guard held alone seen

theorem Free.finish (commit : Bool) (result : Result) : Free (.finish commit result) :=
  fun _ _ _ => trivial

theorem Free.lock {mode : Mode} {next : Option (Val r) → Program} (h : ∀ row, Free (next row)) :
    Free (.lock mode r next) := fun _ _ _ row => h row _ _ _

theorem Free.modify {change : Option (Val r) → Option (Option (Val r))} {next : Program}
    (hr : guard r = r) (h : Free next) : Free (.modify r change next) :=
  fun _ _ _ => ⟨.inl hr, h _ _ _⟩

theorem Free.fresh {row : ℕ → Row} {next : ℕ → Program} (h : ∀ n, Free (next n)) :
    Free (.fresh row next) := fun _ _ _ n => h n _ _ _

theorem Free.ite {c : Prop} [Decidable c] {p q : Program} (hp : Free p) (hq : Free q) :
    Free (if c then p else q) := by
  split
  · exact hp
  · exact hq

theorem free_addFriendApply (fromUid toUid : ℤ) (description remark tags : String) :
    Free (addFriendApply fromUid toUid description remark tags) := by
  refine .ite (.finish _ _) (.lock fun _ => .lock fun _ => .lock fun _ => .lock fun _ => ?_)
  exact .ite (.finish _ _) (.modify rfl (.finish _ _))

theorem free_privateThread {first second : ℤ} {next : ℕ → Program} (h : ∀ n, Free (next n)) :
    Free (privateThread first second next) := by
  refine .lock fun row => ?_
  cases row with
  | some thread => exact h thread
  | none => exact .fresh fun n => .modify rfl (.modify rfl (h n))

theorem free_addInitialMessage {thread : ℕ} {sender recv : ℤ} {content : String}
    {messages : List (ℕ × ChatMessage)} {next : List (ℕ × ChatMessage) → Program}
    (h : ∀ messages, Free (next messages)) :
    Free (addInitialMessage thread sender recv content messages next) :=
  .ite (h _) (.fresh fun _ => .modify rfl (h _))

theorem free_addFriend (fromUid toUid : ℤ) (remark tags : String) :
    Free (addFriend fromUid toUid remark tags) := by
  refine .ite (.finish _ _) (.lock fun forth => .lock fun back => .lock fun _ => .lock fun _ => ?_)
  refine .ite (.finish _ _) ?_
  have haccept : ∀ (fromUid toUid : ℤ) (application : Option Apply) (next : Program), Free next →
      Free (if application.isSome then
        .update (.friendApply fromUid toUid) (fun a => { a with status := 1 }) next else next) :=
    fun _ _ _ _ h => .ite (.modify rfl h) h
  refine haccept _ _ _ _ (haccept _ _ _ _ (.ite (.finish _ _) ?_))
  have hinsert : ∀ (selfId friendId : ℤ) (present : Option Friend) (row : Friend)
      (next : Program), Free next → Free (insertFriend selfId friendId present row next) :=
    fun _ _ _ _ _ h => .ite h (.modify rfl h)
  refine hinsert _ _ _ _ _ (hinsert _ _ _ _ _ (free_privateThread fun _ => ?_))
  exact free_addInitialMessage fun _ => free_addInitialMessage fun _ => .finish _ _

theorem free_deleteFriend (selfUid friendUid : ℤ) : Free (deleteFriend selfUid friendUid) := by
  refine .ite (.finish _ _) (.lock fun _ => .lock fun _ => .lock fun _ => .lock fun _ => ?_)
  exact .modify rfl (.modify rfl (.modify rfl (.modify rfl (.finish _ _))))

theorem free_createPrivateChat (user1 user2 : ℤ) : Free (createPrivateChat user1 user2) :=
  .ite (.finish _ _) (.lock fun _ => .ite (.finish _ _) (free_privateThread fun _ => .finish _ _))

/-! ## Groups -/

/-- The row of the group is locked, and was before the snapshot. -/
def Covered (thread : ℕ) (held : Row → Prop) (seen : Option (Row → Prop)) : Prop :=
  held (.groupChat thread) ∧ seen.getD held (.groupChat thread)

theorem Covered.more {held' : Row → Prop} (h : Covered thread held seen)
    (hheld : ∀ q, held q → held' q) : Covered thread held' seen := by
  refine ⟨hheld _ h.1, ?_⟩
  cases seen with
  | none => exact hheld _ h.1
  | some _ => exact h.2

theorem Covered.seeing (h : Covered thread held seen) :
    Covered thread held (some (seen.getD held)) := ⟨h.1, h.2⟩

/-- The program keeps the discipline under the lock of the group. -/
def Reads (thread : ℕ) (p : Program) : Prop :=
  ∀ held alone seen, Covered thread held seen → p.Guarded guard held alone seen

/-- The program keeps the discipline under the group's lock for update. -/
def Writes (thread : ℕ) (p : Program) : Prop :=
  ∀ held alone seen, Covered thread held seen → alone (.groupChat thread) →
    p.Guarded guard held alone seen

theorem Free.reads {p : Program} (h : Free p) : Reads thread p := fun _ _ _ _ => h _ _ _

theorem Reads.writes {p : Program} (h : Reads thread p) : Writes thread p :=
  fun _ _ _ hc _ => h _ _ _ hc

theorem Free.writes {p : Program} (h : Free p) : Writes thread p := h.reads.writes

theorem Writes.ite {c : Prop} [Decidable c] {p q : Program} (hp : Writes thread p)
    (hq : Writes thread q) : Writes thread (if c then p else q) := by
  split
  · exact hp
  · exact hq

theorem Reads.read {next : Option (Val r) → Program} (hr : guard r = .groupChat thread)
    (h : ∀ row, Reads thread (next row)) : Reads thread (.read r next) := by
  refine fun held alone seen hc => ⟨fun q hq => ?_, fun view => h _ _ _ _ hc.seeing⟩
  subst hq
  rw [hr]
  exact hc.2

theorem Writes.read {next : Option (Val r) → Program} (hr : guard r = .groupChat thread)
    (h : ∀ row, Writes thread (next row)) : Writes thread (.read r next) := by
  refine fun held alone seen hc ha => ⟨fun q hq => ?_, fun view => h _ _ _ _ hc.seeing ha⟩
  subst hq
  rw [hr]
  exact hc.2

theorem Writes.lock {mode : Mode} {next : Option (Val r) → Program}
    (h : ∀ row, Writes thread (next row)) : Writes thread (.lock mode r next) :=
  fun _ _ _ hc ha row => h row _ _ _ (hc.more fun _ => .inr) (.inr ha)

theorem Writes.modify {change : Option (Val r) → Option (Option (Val r))} {next : Program}
    (hr : guard r = r ∨ guard r = .groupChat thread) (h : Writes thread next) :
    Writes thread (.modify r change next) := by
  refine fun held alone seen hc ha => ⟨hr.imp_right fun hg => ?_, ?_⟩
  · rw [hg]
    exact ha
  · exact h _ _ _ (hc.more fun _ => .inr) (.inr ha)

theorem reads_readGroup {next : Option GroupView → Program} (h : ∀ view, Free (next view)) :
    Reads thread (readGroup thread next) :=
  .read rfl fun _ => .read rfl fun _ => (h _).reads

/-- The lock of the group covers what follows. -/
theorem guarded_lockGroup {mode : Mode} {next : Option (Val (.groupChat thread)) → Program}
    (hnone : Free (next none))
    (h : ∀ group held alone, Covered thread held none →
      (mode.alone true = true → alone (.groupChat thread)) →
      (next (some group)).Guarded guard held alone none) :
    (.lock mode (.groupChat thread) next : Program).Guarded guard held alone none := by
  intro row
  cases row with
  | none => exact hnone _ _ _
  | some group => exact h group _ _ ⟨.inl rfl, .inl rfl⟩ fun hmode => .inl ⟨rfl, hmode⟩

theorem writes_joinAll {ids : List ℤ} {next : Program} (h : Writes thread next) :
    Writes thread (joinAll thread ids next) := by
  induction ids with
  | nil => exact h
  | cons id ids ih => exact .modify (.inr rfl) ih

theorem guarded_checkFriends {uid : ℤ} {ids : List ℤ} {next : Program}
    (h : ∀ held alone, next.Guarded guard held alone none) :
    ∀ held alone, (checkFriends uid ids next).Guarded guard held alone none := by
  induction ids with
  | nil => exact h
  | cons id ids ih =>
    intro held alone
    unfold checkFriends
    split
    · exact ih held alone
    · intro row
      dsimp only
      split
      · exact ih _ _
      · trivial

variable (writeString : Name → Finset ℤ → String)

theorem guarded_createNew {uid : ℤ} {name : Name} {key : String} {ids : Finset ℤ}
    {next : ℕ → Program}
    (h : ∀ thread, Writes thread (next thread)) :
    ∀ held alone,
      (createNew writeString uid name key ids next).Guarded guard held alone none := by
  refine guarded_checkFriends fun held alone thread => ?_
  refine ⟨.inl rfl, .inl rfl, .inl rfl, ?_⟩
  exact writes_joinAll (h thread) _ _ _ ⟨.inl rfl, .inl rfl⟩ (.inl rfl)

theorem guarded_createGroup {uid : ℤ} {request : GroupRequest} {next : ℕ → Program}
    (h : ∀ thread, Writes thread (next thread)) :
    ∀ held alone,
      (createGroup writeString uid request next).Guarded guard held alone none := by
  intro held alone
  unfold createGroup
  split
  · trivial
  next name key ids _ =>
    intro user
    dsimp only
    split
    · trivial
    · intro existing
      cases existing with
      | none => exact guarded_createNew writeString h _ _
      | some thread =>
        intro row
        cases row with
        | none => exact guarded_createNew writeString h _ _
        | some previous =>
          have hfail : ∀ error, Writes thread (failGroup error) :=
            fun error => (Free.finish _ _).writes
          have hreplay : Writes thread
              (if previous.creationSpec ≠ writeString name ids then failGroup ErrorCodes.errorJson
              else if ¬ previous.active then failGroup ErrorCodes.groupForbidden
              else isMember uid thread fun member =>
                if ¬ member then failGroup ErrorCodes.groupForbidden else next thread) :=
            .ite (hfail _) <| .ite (hfail _) <| .read rfl fun _ => .ite (hfail _) (h thread)
          exact hreplay _ _ _ ⟨.inl rfl, .inl rfl⟩ (.inl ⟨rfl, rfl⟩)

theorem writes_updateLocked {uid owner : ℤ} {op : String} {request : GroupRequest}
    {next : Program} (hnext : Writes thread next) :
    Writes thread (updateLocked uid op request owner thread next) := by
  have hfail : ∀ error, Writes thread (failGroup error) := fun error => (Free.finish _ _).writes
  refine .ite (.ite (hfail _) (.modify (.inl rfl) hnext)) <|
    .ite (.modify (.inl rfl) (.modify (.inr rfl) hnext)) <| .ite (hfail _) <| .ite ?_ <|
    .ite ?_ (.modify (.inr rfl) hnext)
  · refine .lock fun row => .ite (hfail _) <| .read rfl fun _ => .ite hnext <|
      .read rfl fun _ => .ite (hfail _) (.modify (.inr rfl) hnext)
  · exact .read rfl fun _ => .ite (hfail _) (.modify (.inl rfl) hnext)

theorem guarded_updateGroup {uid : ℤ} {op : String} {request : GroupRequest}
    {next : ℕ → Program} (h : ∀ thread, Writes thread (next thread)) :
    (updateGroup uid op request next).Guarded guard held alone none := by
  unfold updateGroup
  split
  · trivial
  next threadId _ =>
    split
    · trivial
    · refine guarded_lockGroup (fun _ _ _ => trivial) fun group held alone hc ha => ?_
      have halone := ha rfl
      split
      · trivial
      · have hfail : ∀ error, Writes threadId.toNat (failGroup error) :=
          fun error => (Free.finish _ _).writes
        refine Writes.read rfl (fun members => ?_) _ _ _ hc halone
        exact .ite (hfail _) <| .ite (hfail _) <| .ite (hfail _) <|
          writes_updateLocked (h threadId.toNat)

theorem guarded_getGroup {uid threadId : ℤ} :
    (getGroup uid threadId).Guarded guard held alone none := by
  unfold getGroup
  split
  · trivial
  · refine guarded_lockGroup (fun _ _ _ => trivial) fun group held alone hc _ => ?_
    split
    · trivial
    · have hr : Reads (Int.toNat threadId) (isMember uid threadId.toNat fun member =>
          if ¬ member then failGroup ErrorCodes.groupForbidden
          else readGroup threadId.toNat fun view =>
            .finish true (.group ErrorCodes.success (some (.group view)))) := by
        refine .read rfl fun _ => ?_
        dsimp only
        split
        · exact (Free.finish _ _).reads
        · exact reads_readGroup fun _ => .finish _ _
      exact hr _ _ _ hc

theorem guarded_changeGroup {uid : ℤ} {request : GroupRequest} :
    (changeGroup writeString uid request).Guarded guard held alone none := by
  unfold changeGroup
  split
  · trivial
  split
  · trivial
  split
  · trivial
  split
  · split
    · trivial
    · exact guarded_getGroup
  · have hfinish : ∀ op thread, Writes thread
        (if op = "leave" ∨ op = "disband" then
          .finish true (.group ErrorCodes.success (some (.removed thread)))
        else readGroup thread fun view =>
          .finish true (.group ErrorCodes.success (some (.group view)))) :=
      fun op thread => .ite (Free.finish _ _).writes
        (reads_readGroup fun _ => .finish _ _).writes
    dsimp only
    split
    · exact guarded_createGroup writeString (hfinish _) _ _
    · exact guarded_updateGroup (hfinish _)

theorem service_disciplined : (service writeString).Disciplined guard := by
  intro op
  cases op with
  | addFriendApply => exact free_addFriendApply _ _ _ _ _ _ _ _
  | addFriend => exact free_addFriend _ _ _ _ _ _ _
  | deleteFriend => exact free_deleteFriend _ _ _ _ _
  | createPrivateChat => exact free_createPrivateChat _ _ _ _ _
  | changeGroup => exact guarded_changeGroup writeString

end
end CppChat.Relations
