import CppChat.Relations.Discipline

/-! # What a group operation does

A group and its members as one value, and the changes that the rules allow. Every committed
`ChangeGroup` is one of them, or creates a group, or changes nothing.
-/
namespace CppChat.Relations
open Foundation RowLocks

/-- The changes of an active group by one of its members, by the name of the operation. -/
inductive GroupOp (uid : ℤ) (isFriend : ℤ → Prop) (g : Group) (members : Finset ℤ) :
    String → Group → Finset ℤ → Prop
  | rename (howner : uid = g.owner) (name : Name) :
      GroupOp uid isFriend g members "rename" { g with name } members
  | disband (howner : uid = g.owner) :
      GroupOp uid isFriend g members "disband" { g with active := false } ∅
  | add (howner : uid = g.owner) {target : ℤ} (hfriend : isFriend target)
      (hnot : target ∉ members) (hroom : members.card < 32) :
      GroupOp uid isFriend g members "add" g (insert target members)
  | present (howner : uid = g.owner) {target : ℤ} (htarget : target ∈ members) :
      GroupOp uid isFriend g members "add" g members
  | transfer (howner : uid = g.owner) {target : ℤ} (htarget : target ∈ members) :
      GroupOp uid isFriend g members "transfer" { g with owner := target } members
  | remove (howner : uid = g.owner) {target : ℤ} (htarget : target ≠ g.owner) :
      GroupOp uid isFriend g members "remove" g (members.erase target)
  | leave (howner : uid ≠ g.owner) : GroupOp uid isFriend g members "leave" g (members.erase uid)

variable (writeString : Name → Finset ℤ → String)

/-- What a committed operation on a thread does to the tables. -/
inductive Change (uid : ℤ) (request : GroupRequest) (db : Tables) (thread : ℕ) : Tables → Prop
  | read {g : Group} (hop : request.op = some "info") (hg : db (.groupChat thread) = some g)
      (hactive : g.active = true) (hmember : uid ∈ membersOf db thread) :
      Change uid request db thread db
  | replayed {g : Group} {name : Name} {key : String} {ids : Finset ℤ}
      (hop : request.op = some "create")
      (hcreation : creation uid request = some (name, key, ids))
      (hentry : db (.groupCreation uid key) = some thread)
      (hg : db (.groupChat thread) = some g) (hspec : g.creationSpec = writeString name ids)
      (hactive : g.active = true) (hmember : uid ∈ membersOf db thread) :
      Change uid request db thread db
  | created {name : Name} {key : String} {ids : Finset ℤ} {db' : Tables}
      (hop : request.op = some "create") (huid : 0 < uid)
      (hcreation : creation uid request = some (name, key, ids)) (huser : (db (.user uid)).isSome)
      (hentry : db (.groupCreation uid key) = none) (hthread : db (.chatThread thread) = none)
      (hnew : db (.groupChat thread) = none)
      (hfriends : ∀ id ∈ ids, id ≠ uid → (db (.friend uid id)).isSome)
      (hthread' : db' (.chatThread thread) = some .group)
      (hentry' : db' (.groupCreation uid key) = some thread)
      (hgroup : db' (.groupChat thread) = some ⟨name, uid, uid, key, writeString name ids, true⟩)
      (hmembers : membersOf db' thread = membersOf db thread ∪ ids)
      (hrest : ∀ r, r ≠ .chatThread thread → r ≠ .groupCreation uid key →
        r ≠ .groupChat thread → r ≠ .groupMembers thread → db' r = db r) :
      Change uid request db thread db'
  | changed {op : String} {g g' : Group} {db' : Tables} (hop : request.op = some op)
      (hg : db (.groupChat thread) = some g) (hactive : g.active = true)
      (hmember : uid ∈ membersOf db thread)
      (hchange : GroupOp uid (fun id => (db (.friend uid id)).isSome = true) g
        (membersOf db thread) op g' (membersOf db' thread))
      (hgroup : db' (.groupChat thread) = some g')
      (hrest : ∀ r, r ≠ .groupChat thread → r ≠ .groupMembers thread → db' r = db r) :
      Change uid request db thread db'

/-- A request that is turned down. -/
def Denied (commit : Bool) (result : Result) (error : Int) : Prop :=
  commit = false ∧ result = .group error none

section
variable {writeString} {db db' : Tables} {ns ns' : List Row} {commit : Bool} {result : Result}
  {uid : ℤ} {thread : ℕ} {request : GroupRequest}

/-- What `ReadGroup` returns. -/
def viewOf (db : Tables) (thread : ℕ) : Option GroupView :=
  ((db (.groupChat thread)).filter Group.active).map fun g =>
    ⟨thread, g.name, g.owner, membersOf db thread⟩

def replyOf (op : String) (db : Tables) (thread : ℕ) : GroupReply :=
  if op = "leave" ∨ op = "disband" then .removed thread else .group (viewOf db thread)

theorem failGroup_ends {error : Int}
    (h : (failGroup error).Ends db ns commit result db' ns') : Denied commit result error :=
  ⟨h.1, h.2.1⟩

theorem isMember_ends {next : Bool → Program} :
    (isMember uid thread next).Ends db ns commit result db' ns' ↔
      (next (uid ∈ membersOf db thread)).Ends db ns commit result db' ns' := Iff.rfl

theorem readGroup_ends {next : Option GroupView → Program} :
    (readGroup thread next).Ends db ns commit result db' ns' ↔
      (next (viewOf db thread)).Ends db ns commit result db' ns' := Iff.rfl

theorem membersOf_update (db : Tables) (thread : ℕ) (members : Option (Finset ℤ)) :
    membersOf (Function.update db (.groupMembers thread) members) thread = members.getD ∅ := by
  rw [membersOf, Function.update_self]

theorem membersOf_congr (h : db' (.groupMembers thread) = db (.groupMembers thread)) :
    membersOf db' thread = membersOf db thread := by
  rw [membersOf, h, membersOf]

/-! ## Creating a group -/

theorem checkFriends_ends {ids : List ℤ} {next : Program}
    (h : (checkFriends uid ids next).Ends db ns commit result db' ns') :
    Denied commit result ErrorCodes.friendNotFound ∨
      (∀ id ∈ ids, id ≠ uid → (db (.friend uid id)).isSome) ∧
        next.Ends db ns commit result db' ns' := by
  induction ids with
  | nil => exact .inr ⟨by simp, h⟩
  | cons id ids ih =>
    unfold checkFriends at h
    split at h
    next hself =>
      rcases ih h with hdenied | ⟨hall, hnext⟩
      · exact .inl hdenied
      · refine .inr ⟨fun j hj hne => ?_, hnext⟩
        rcases List.mem_cons.mp hj with rfl | hj
        · exact absurd hself hne
        · exact hall j hj hne
    next =>
      rw [Prog.ends_lock] at h
      split at h
      next hfriend =>
        rcases ih h with hdenied | ⟨hall, hnext⟩
        · exact .inl hdenied
        · refine .inr ⟨fun j hj hne => ?_, hnext⟩
          rcases List.mem_cons.mp hj with rfl | hj
          · exact hfriend
          · exact hall j hj hne
      next => exact .inl (failGroup_ends h)

theorem join_ends {id : ℤ} {next : Program}
    (h : (join thread id next).Ends db ns commit result db' ns') :
    id ∉ membersOf db thread ∧ next.Ends
      (Function.update db (.groupMembers thread) (some (insert id (membersOf db thread))))
      ns commit result db' ns' := by
  obtain ⟨row, hrow, h⟩ := h
  dsimp only at hrow
  split at hrow
  · cases hrow
  next hnot =>
    cases hrow
    exact ⟨hnot, h⟩

theorem joinAll_ends {ids : List ℤ} {next : Program}
    (h : (joinAll thread ids next).Ends db ns commit result db' ns') :
    ∃ db₁ : Tables, next.Ends db₁ ns commit result db' ns' ∧
      membersOf db₁ thread = membersOf db thread ∪ ids.toFinset ∧
      ∀ r, r ≠ .groupMembers thread → db₁ r = db r := by
  induction ids generalizing db with
  | nil => exact ⟨db, h, by simp, fun _ _ => rfl⟩
  | cons id ids ih =>
    obtain ⟨-, h⟩ := join_ends h
    obtain ⟨db₁, hnext, hmembers, hrest⟩ := ih h
    refine ⟨db₁, hnext, ?_, fun r hr => ?_⟩
    · rw [hmembers, membersOf_update, Option.getD_some, List.toFinset_cons,
        Finset.insert_union, Finset.union_insert]
    · rw [hrest r hr, Function.update_of_ne hr]

theorem createNew_ends {name : Name} {key : String} {ids : Finset ℤ} {next : ℕ → Program}
    (hop : request.op = some "create") (huid : 0 < uid)
    (hcreation : creation uid request = some (name, key, ids))
    (huser : (db (.user uid)).isSome)
    (h : (createNew writeString uid name key ids next).Ends db ns commit result db' ns') :
    Denied commit result ErrorCodes.friendNotFound ∨
      db (.groupCreation uid key) = none ∧ ∃ thread db₁ ns₁,
        Change writeString uid request db thread db₁ ∧
          (next thread).Ends db₁ ns₁ commit result db' ns' := by
  refine (checkFriends_ends h).imp_right fun ⟨hfriends, thread, _, h⟩ => ?_
  obtain ⟨hthread, h⟩ := Prog.ends_insert.mp h
  obtain ⟨hentry, h⟩ := Prog.ends_insert.mp h
  obtain ⟨hnew, h⟩ := Prog.ends_insert.mp h
  obtain ⟨db₁, hnext, hmembers, hrest⟩ := joinAll_ends h
  have hids : (ascending ids).toFinset = ids := by
    ext id
    rw [List.mem_toFinset, mem_ascending]
  rw [hids] at hmembers
  refine ⟨by simpa using hentry, thread, db₁, _,
    .created hop huid hcreation huser (by simpa using hentry) hthread (by simpa using hnew)
      (fun id hid hne => hfriends id (mem_ascending.mpr hid) hne) ?_ ?_ ?_ ?_ ?_, hnext⟩
  · rw [hrest (.chatThread thread) nofun]
    simp
  · rw [hrest (.groupCreation uid key) nofun]
    simp
  · rw [hrest (.groupChat thread) nofun]
    simp
  · rw [hmembers]
    congr 1
  · intro r h₁ h₂ h₃ h₄
    rw [hrest r h₄]
    simp [h₁, h₂, h₃]

theorem createGroup_ends {next : ℕ → Program} (hop : request.op = some "create") (huid : 0 < uid)
    (h : (createGroup writeString uid request next).Ends db ns commit result db' ns') :
    (∃ error, error ≠ ErrorCodes.success ∧ Denied commit result error) ∨
      ∃ thread db₁ ns₁, Change writeString uid request db thread db₁ ∧
        (next thread).Ends db₁ ns₁ commit result db' ns' := by
  have hnew : ∀ {name key ids}, creation uid request = some (name, key, ids) →
      (db (.user uid)).isSome →
      (createNew writeString uid name key ids next).Ends db ns commit result db' ns' →
      (∃ error, error ≠ ErrorCodes.success ∧ Denied commit result error) ∨
        ∃ thread db₁ ns₁, Change writeString uid request db thread db₁ ∧
          (next thread).Ends db₁ ns₁ commit result db' ns' := fun hcreation huser h =>
    (createNew_ends hop huid hcreation huser h).imp (fun hdenied => ⟨_, by decide, hdenied⟩) And.right
  unfold createGroup at h
  split at h
  next => exact .inl ⟨_, by decide, failGroup_ends h⟩
  next name key ids hcreation =>
    rw [Prog.ends_lock] at h
    split at h
    next => exact .inl ⟨_, by decide, failGroup_ends h⟩
    next huser =>
      replace huser : (db (.user uid)).isSome := by simpa [Option.isSome_iff_ne_none] using huser
      rw [Prog.ends_lock] at h
      split at h
      next => exact hnew hcreation huser h
      next thread hentry =>
        rw [Prog.ends_lock] at h
        split at h
        next => exact hnew hcreation huser h
        next previous hprevious =>
          split at h
          next => exact .inl ⟨_, by decide, failGroup_ends h⟩
          next hspec =>
            split at h
            next => exact .inl ⟨_, by decide, failGroup_ends h⟩
            next hactive =>
              rw [isMember_ends] at h
              split at h
              next => exact .inl ⟨_, by decide, failGroup_ends h⟩
              next hmember =>
                exact .inr ⟨thread, db, ns, .replayed hop hcreation hentry hprevious
                  (not_not.mp hspec) (by simpa using hactive) (by simpa using hmember), h⟩

/-- A create request whose key was used before. -/
theorem createGroup_again {next : ℕ → Program} {name : Name} {key : String} {ids : Finset ℤ}
    {g : Group}
    (hcreation : creation uid request = some (name, key, ids))
    (huser : (db (.user uid)).isSome) (hentry : db (.groupCreation uid key) = some thread)
    (hg : db (.groupChat thread) = some g) :
    (createGroup writeString uid request next).Ends db ns commit result db' ns' ↔
      if g.creationSpec ≠ writeString name ids then
        (failGroup ErrorCodes.errorJson).Ends db ns commit result db' ns'
      else if g.active = true ∧ uid ∈ membersOf db thread then
        (next thread).Ends db ns commit result db' ns'
      else (failGroup ErrorCodes.groupForbidden).Ends db ns commit result db' ns' := by
  unfold createGroup
  rw [hcreation]
  dsimp only
  rw [Prog.ends_lock, if_neg (by simpa using Option.isSome_iff_ne_none.mp huser), Prog.ends_lock,
    hentry]
  dsimp only
  rw [Prog.ends_lock, hg]
  dsimp only
  by_cases hspec : g.creationSpec ≠ writeString name ids
  · rw [if_pos hspec, if_pos hspec]
  · rw [if_neg hspec, if_neg hspec]
    by_cases hactive : g.active = true
    · rw [if_neg (by simp [hactive]), isMember_ends]
      by_cases hmember : uid ∈ membersOf db thread
      · rw [if_neg (by simp [hmember]), if_pos ⟨hactive, hmember⟩]
      · rw [if_pos (by simp [hmember]), if_neg (fun h => hmember h.2)]
    · rw [if_pos hactive, if_neg (fun h => hactive h.1)]

/-! ## Changing a group -/

/-- A changed group goes on to the reply. -/
theorem Change.of_update {op : String} {g g' : Group} {members : Finset ℤ}
    (hop : request.op = some op) (hg : db (.groupChat thread) = some g)
    (hactive : g.active = true) (hmember : uid ∈ membersOf db thread)
    (hchange : GroupOp uid (fun id => (db (.friend uid id)).isSome = true) g (membersOf db thread)
      op g' members)
    (hgroup : db' (.groupChat thread) = some g') (hmembers : membersOf db' thread = members)
    (hrest : ∀ r, r ≠ .groupChat thread → r ≠ .groupMembers thread → db' r = db r) :
    Change writeString uid request db thread db' := by
  subst hmembers
  exact .changed hop hg hactive hmember hchange hgroup hrest

theorem addMember_ends {target : ℤ} {g : Group} {next : Program}
    (hop : request.op = some "add") (hg : db (.groupChat thread) = some g)
    (hactive : g.active = true) (hmember : uid ∈ membersOf db thread) (howner : uid = g.owner)
    (h : (addMember uid target thread next).Ends db ns commit result db' ns') :
    (∃ error, error ≠ ErrorCodes.success ∧ Denied commit result error) ∨
      ∃ db₁, Change writeString uid request db thread db₁ ∧
        next.Ends db₁ ns commit result db' ns' := by
  unfold addMember at h
  rw [Prog.ends_lock] at h
  split at h
  next => exact .inl ⟨_, by decide, failGroup_ends h⟩
  next hfriend =>
    rw [isMember_ends] at h
    split at h
    next htarget =>
      refine .inr ⟨db, .of_update hop hg hactive hmember
        (.present howner (of_decide_eq_true htarget)) hg rfl fun _ _ _ => rfl, h⟩
    next htarget =>
      rw [Prog.ends_read] at h
      split at h
      next => exact .inl ⟨_, by decide, failGroup_ends h⟩
      next hroom =>
        obtain ⟨hnot, h⟩ := join_ends h
        refine .inr ⟨_, .of_update hop hg hactive hmember
          (.add howner ?_ hnot (not_le.mp hroom)) ?_ ?_ ?_, h⟩
        · simpa [Option.isSome_iff_ne_none] using hfriend
        · simpa using hg
        · rw [membersOf_update, Option.getD_some]
        · intro r _ hr
          rw [Function.update_of_ne hr]

theorem leave_ends {target : ℤ} {next : Program}
    (h : (leave thread target next).Ends db ns commit result db' ns') :
    ∃ db₁ : Tables, next.Ends db₁ ns commit result db' ns' ∧
      membersOf db₁ thread = (membersOf db thread).erase target ∧
      ∀ r, r ≠ .groupMembers thread → db₁ r = db r := by
  refine ⟨_, Prog.ends_update.mp h, ?_, fun r hr => Function.update_of_ne hr _ _⟩
  rw [membersOf_update, membersOf]
  cases db (.groupMembers thread) with
  | none => simp
  | some members => rfl

theorem updateLocked_ends {op : String} {g : Group} {next : Program} (hop : request.op = some op)
    (hops : op ∈ ["rename", "add", "remove", "leave", "transfer", "disband"])
    (hg : db (.groupChat thread) = some g) (hactive : g.active = true)
    (hmember : uid ∈ membersOf db thread) (howner : op ≠ "leave" → uid = g.owner)
    (hleaver : op = "leave" → uid ≠ g.owner)
    (h : (updateLocked uid op request g.owner thread next).Ends db ns commit result db' ns') :
    (∃ error, error ≠ ErrorCodes.success ∧ Denied commit result error) ∨
      ∃ db₁, Change writeString uid request db thread db₁ ∧
        next.Ends db₁ ns commit result db' ns' := by
  unfold updateLocked at h
  split at h
  next hrename =>
    subst hrename
    split at h
    next => exact .inl ⟨_, by decide, failGroup_ends h⟩
    next =>
      rw [Prog.ends_update] at h
      refine .inr ⟨_, .of_update hop hg hactive hmember
        (.rename (howner (by decide)) (request.name.getD [])) ?_ ?_ ?_, h⟩
      · rw [Function.update_self, hg, Option.map_some]
      · exact membersOf_congr (Function.update_of_ne (by simp) _ _)
      · exact fun r hr _ => Function.update_of_ne hr _ _
  next =>
    split at h
    next hdisband =>
      subst hdisband
      rw [Prog.ends_update, Prog.ends_delete] at h
      refine .inr ⟨_, .of_update hop hg hactive hmember
        (.disband (howner (by decide))) ?_ (membersOf_update _ _ _) ?_, h⟩
      · rw [Function.update_of_ne (by simp), Function.update_self, hg, Option.map_some]
      · exact fun r hr hr' => by rw [Function.update_of_ne hr', Function.update_of_ne hr]
    next =>
      generalize htarget : (if op = "leave" then uid else request.memberUid.getD 0) = target at h
      dsimp only at h
      split at h
      next => exact .inl ⟨_, by decide, failGroup_ends h⟩
      next hother =>
        split at h
        next hadd =>
          subst hadd
          exact addMember_ends hop hg hactive hmember (howner (by decide)) h
        next =>
          split at h
          next htransfer =>
            subst htransfer
            rw [isMember_ends] at h
            split at h
            next => exact .inl ⟨_, by decide, failGroup_ends h⟩
            next hpresent =>
              rw [Prog.ends_update] at h
              have htarget : target ∈ membersOf db thread :=
                of_decide_eq_true (not_not.mp hpresent)
              refine .inr ⟨_, .of_update hop hg hactive hmember
                (.transfer (howner (by decide)) htarget) ?_ ?_ ?_, h⟩
              · rw [Function.update_self, hg, Option.map_some]
              · exact membersOf_congr (Function.update_of_ne (by simp) _ _)
              · exact fun r hr _ => Function.update_of_ne hr _ _
          next =>
            obtain ⟨db₁, hnext, hmembers, hrest⟩ := leave_ends h
            have hg₁ : db₁ (.groupChat thread) = some g := (hrest _ (by simp)).trans hg
            by_cases hleave : op = "leave"
            · subst hleave
              rw [← htarget, if_pos rfl] at hmembers
              exact .inr ⟨db₁, .of_update hop hg hactive hmember (.leave (hleaver rfl)) hg₁ hmembers
                fun r _ => hrest r, hnext⟩
            · obtain rfl : op = "remove" := by simp_all
              exact .inr ⟨db₁, .of_update hop hg hactive hmember
                (.remove (howner hleave) fun heq => hother (.inr heq)) hg₁ hmembers
                fun r _ => hrest r, hnext⟩

theorem updateGroup_ends {op : String} {next : ℕ → Program} (hop : request.op = some op)
    (hops : op ∈ ["rename", "add", "remove", "leave", "transfer", "disband"])
    (h : (updateGroup uid op request next).Ends db ns commit result db' ns') :
    (∃ error, error ≠ ErrorCodes.success ∧ Denied commit result error) ∨
      ∃ thread db₁, Change writeString uid request db thread db₁ ∧
        (next thread).Ends db₁ ns commit result db' ns' := by
  unfold updateGroup at h
  split at h
  next => exact .inl ⟨_, by decide, failGroup_ends h⟩
  next threadId _ =>
    split at h
    next => exact .inl ⟨_, by decide, failGroup_ends h⟩
    next =>
      dsimp only at h
      rw [Prog.ends_lock] at h
      generalize threadId.toNat = thread at h
      split at h
      next => exact .inl ⟨_, by decide, failGroup_ends h⟩
      next g hg =>
        obtain ⟨hg, hactive⟩ := Option.filter_eq_some_iff.mp hg
        rw [isMember_ends] at h
        split at h
        next => exact .inl ⟨_, by decide, failGroup_ends h⟩
        next hmember =>
          split at h
          next => exact .inl ⟨_, by decide, failGroup_ends h⟩
          next howner =>
            split at h
            next => exact .inl ⟨_, by decide, failGroup_ends h⟩
            next hleaver =>
              have hmember : uid ∈ membersOf db thread := of_decide_eq_true (not_not.mp hmember)
              rcases updateLocked_ends hop hops hg hactive hmember
                (fun hne => not_not.mp fun howner' => howner ⟨hne, howner'⟩)
                (fun heq howner' => hleaver ⟨heq, howner'⟩) h with
                hdenied | ⟨db₁, hchange, hnext⟩
              · exact .inl hdenied
              · exact .inr ⟨thread, db₁, hchange, hnext⟩

theorem getGroup_ends {threadId : ℤ} (hop : request.op = some "info")
    (h : (getGroup uid threadId).Ends db ns commit result db' ns') :
    (∃ error, error ≠ ErrorCodes.success ∧ Denied commit result error) ∨
      ∃ thread, Change writeString uid request db thread db' ∧ commit = true ∧
        result = .group ErrorCodes.success (some (replyOf "info" db' thread)) := by
  unfold getGroup at h
  split at h
  next => exact .inl ⟨_, by decide, failGroup_ends h⟩
  next =>
    dsimp only at h
    rw [Prog.ends_lock] at h
    split at h
    next => exact .inl ⟨_, by decide, failGroup_ends h⟩
    next hlocked =>
      rw [isMember_ends] at h
      split at h
      next => exact .inl ⟨_, by decide, failGroup_ends h⟩
      next hmember =>
        rw [readGroup_ends] at h
        obtain ⟨rfl, rfl, rfl, -⟩ := h
        obtain ⟨g, hg⟩ := Option.ne_none_iff_exists'.mp (Option.isNone_iff_eq_none.not.mp hlocked)
        obtain ⟨hg, hactive⟩ := Option.filter_eq_some_iff.mp hg
        exact .inr ⟨_, .read hop hg hactive (of_decide_eq_true (not_not.mp hmember)), rfl, rfl⟩

/-- A group operation is turned down, or commits one change of one group. -/
theorem changeGroup_ends
    (h : (changeGroup writeString uid request).Ends db ns commit result db' ns') :
    (∃ error, error ≠ ErrorCodes.success ∧ Denied commit result error) ∨
      ∃ thread op, request.op = some op ∧ Change writeString uid request db thread db' ∧
        commit = true ∧ result = .group ErrorCodes.success (some (replyOf op db' thread)) := by
  have hfinish : ∀ {op : String} {thread : ℕ} {db₁ : Tables} {ns₁ : List Row},
      (if op = "leave" ∨ op = "disband" then
        .finish true (.group ErrorCodes.success (some (.removed thread)))
      else readGroup thread fun view =>
        .finish true (.group ErrorCodes.success (some (.group view))) : Program).Ends
          db₁ ns₁ commit result db' ns' →
      db' = db₁ ∧ commit = true ∧
        result = .group ErrorCodes.success (some (replyOf op db' thread)) := by
    intro op thread db₁ ns₁ h
    rw [replyOf]
    split at h
    next hremoved =>
      obtain ⟨rfl, rfl, rfl, -⟩ := h
      rw [if_pos hremoved]
      exact ⟨rfl, rfl, rfl⟩
    next hkept =>
      rw [readGroup_ends] at h
      obtain ⟨rfl, rfl, rfl, -⟩ := h
      rw [if_neg hkept]
      exact ⟨rfl, rfl, rfl⟩
  unfold changeGroup at h
  split at h
  next => exact .inl ⟨_, by decide, failGroup_ends h⟩
  next huid =>
    split at h
    next => exact .inl ⟨_, by decide, failGroup_ends h⟩
    next op hop =>
      split at h
      next => exact .inl ⟨_, by decide, failGroup_ends h⟩
      next hchanges =>
        split at h
        next hinfo =>
          subst hinfo
          split at h
          next => exact .inl ⟨_, by decide, failGroup_ends h⟩
          next =>
            rcases getGroup_ends hop h with hdenied | ⟨thread, h⟩
            · exact .inl hdenied
            · exact .inr ⟨thread, _, hop, h⟩
        next hinfo =>
          dsimp only at h
          split at h
          next hcreate =>
            subst hcreate
            rcases createGroup_ends hop (not_le.mp huid) h with
              hdenied | ⟨thread, db₁, ns₁, hchange, h⟩
            · exact .inl hdenied
            · obtain ⟨rfl, hcommit, hresult⟩ := hfinish h
              exact .inr ⟨thread, _, hop, hchange, hcommit, hresult⟩
          next hcreate =>
            have hops : op ∈ ["rename", "add", "remove", "leave", "transfer", "disband"] := by
              simpa [changes, hinfo, hcreate] using not_not.mp hchanges
            rcases updateGroup_ends hop hops h with hdenied | ⟨thread, db₁, hchange, h⟩
            · exact .inl hdenied
            · obtain ⟨rfl, hcommit, hresult⟩ := hfinish h
              exact .inr ⟨thread, _, hop, hchange, hcommit, hresult⟩

end
end CppChat.Relations
