import CppChat.Relations.GroupSteps

/-! # The groups of every reachable state

The operations on contacts leave the rows of groups alone, and every change of a group keeps
its owner a member, its size within the bound and the ended groups empty.
-/
namespace CppChat.Relations
open Foundation RowLocks

structure GroupsSound (db : Tables) : Prop where
  active : ∀ thread g, db (.groupChat thread) = some g → g.active = true →
    g.owner ∈ membersOf db thread ∧ (membersOf db thread).card ≤ 32
  inactive : ∀ thread g, db (.groupChat thread) = some g → g.active = false →
    membersOf db thread = ∅
  absent : ∀ thread, db (.groupChat thread) = none → membersOf db thread = ∅
  entry : ∀ creator key thread, db (.groupCreation creator key) = some thread →
    ∃ g, db (.groupChat thread) = some g ∧ g.creator = creator ∧ g.creationKey = key
  indexed : ∀ thread g, db (.groupChat thread) = some g →
    db (.groupCreation g.creator g.creationKey) = some thread
  creator : ∀ thread g, db (.groupChat thread) = some g → (db (.user g.creator)).isSome

/-! ## The rows that contacts touch -/

def OfContacts : Row → Prop
  | .user _ | .groupCreation _ _ | .groupChat _ | .groupMembers _ => False
  | _ => True

section
variable {rows : Row → Prop}

theorem touches_ite {c : Prop} [Decidable c] {p q : Program} (hp : p.Touches rows)
    (hq : q.Touches rows) : (if c then p else q).Touches rows := by
  split
  · exact hp
  · exact hq

theorem touches_addFriendApply (fromUid toUid : ℤ) (description remark tags : String) :
    (addFriendApply fromUid toUid description remark tags).Touches OfContacts :=
  touches_ite trivial fun _ _ _ _ => touches_ite trivial ⟨trivial, trivial⟩

theorem touches_privateThread {first second : ℤ} {next : ℕ → Program}
    (h : ∀ n, (next n).Touches OfContacts) :
    (privateThread first second next).Touches OfContacts := by
  intro row
  cases row with
  | some thread => exact h thread
  | none => exact fun n => ⟨trivial, trivial, h n⟩

theorem touches_addInitialMessage {thread : ℕ} {sender recv : ℤ} {content : String}
    {messages : List (ℕ × ChatMessage)} {next : List (ℕ × ChatMessage) → Program}
    (h : ∀ messages, (next messages).Touches OfContacts) :
    (addInitialMessage thread sender recv content messages next).Touches OfContacts :=
  touches_ite (h _) fun _ => ⟨trivial, h _⟩

theorem touches_acceptApplications {first second : ℤ} {forth back : Option Apply} {next : Program}
    (h : next.Touches OfContacts) :
    (acceptApplications first second forth back next).Touches OfContacts := by
  have hback := touches_ite (c := back.isSome)
    (p := .update (.friendApply second first) (fun a => { a with status := 1 }) next)
    ⟨trivial, h⟩ h
  exact touches_ite ⟨trivial, hback⟩ hback

theorem touches_insertFriend {selfId friendId : ℤ} {present : Option Friend} {row : Friend}
    {next : Program} (h : next.Touches OfContacts) :
    (insertFriend selfId friendId present row next).Touches OfContacts :=
  touches_ite h ⟨trivial, h⟩

theorem touches_addFriend (fromUid toUid : ℤ) (remark tags : String) :
    (addFriend fromUid toUid remark tags).Touches OfContacts :=
  touches_ite trivial fun _ _ _ _ => touches_ite trivial <| touches_acceptApplications <|
    touches_ite trivial <| touches_insertFriend <| touches_insertFriend <|
    touches_privateThread fun _ => touches_addInitialMessage fun _ =>
    touches_addInitialMessage fun _ => trivial

theorem touches_deleteFriend (selfUid friendUid : ℤ) :
    (deleteFriend selfUid friendUid).Touches OfContacts :=
  touches_ite trivial fun _ _ _ _ => ⟨trivial, trivial, trivial, trivial, trivial⟩

theorem touches_createPrivateChat (user1 user2 : ℤ) :
    (createPrivateChat user1 user2).Touches OfContacts :=
  touches_ite trivial fun _ => touches_ite trivial <| touches_privateThread fun _ => trivial

end
variable {writeString : Name → Finset ℤ → String} {db db' : Tables} {ns ns' : List Row}
  {commit : Bool} {result : Result} {uid : ℤ} {request : GroupRequest} {thread : ℕ}

/-- An operation on contacts, as to the rows of groups. -/
theorem ends_cases {op : Operation}
    (h : ((service writeString).program op).Ends db ns commit result db' ns') :
    (∃ uid request, op = .changeGroup uid request) ∨ ∀ r, ¬ OfContacts r → db' r = db r := by
  cases op with
  | addFriendApply => exact .inr fun r => (touches_addFriendApply _ _ _ _ _).frame h
  | addFriend => exact .inr fun r => (touches_addFriend _ _ _ _).frame h
  | deleteFriend => exact .inr fun r => (touches_deleteFriend _ _).frame h
  | createPrivateChat => exact .inr fun r => (touches_createPrivateChat _ _).frame h
  | changeGroup uid request => exact .inl ⟨uid, request, rfl⟩

theorem GroupsSound.of_frame (h : GroupsSound db) (hframe : ∀ r, ¬ OfContacts r → db' r = db r) :
    GroupsSound db' := by
  have hgroup : ∀ thread, db' (.groupChat thread) = db (.groupChat thread) := fun _ =>
    hframe _ id
  have hmembers : ∀ thread, membersOf db' thread = membersOf db thread := fun _ =>
    membersOf_congr (hframe _ id)
  have hentry : ∀ creator key, db' (.groupCreation creator key) = db (.groupCreation creator key) :=
    fun _ _ => hframe _ id
  have huser : ∀ uid, db' (.user uid) = db (.user uid) := fun _ => hframe _ id
  refine ⟨?_, ?_, ?_, ?_, ?_, ?_⟩
  · intro thread
    rw [hgroup, hmembers]
    exact h.active thread
  · intro thread
    rw [hgroup, hmembers]
    exact h.inactive thread
  · intro thread
    rw [hgroup, hmembers]
    exact h.absent thread
  · intro creator key thread
    rw [hentry, hgroup]
    exact h.entry creator key thread
  · intro thread g
    rw [hgroup, hentry]
    exact h.indexed thread g
  · intro thread g
    rw [hgroup, huser]
    exact h.creator thread g

/-! ## A change keeps the groups sound -/

theorem GroupOp.identity {isFriend : ℤ → Prop} {g g' : Group} {members members' : Finset ℤ}
    {op : String} (h : GroupOp uid isFriend g members op g' members') :
    g'.creator = g.creator ∧ g'.creationKey = g.creationKey ∧
      g'.creationSpec = g.creationSpec := by
  cases h <;> exact ⟨rfl, rfl, rfl⟩

/-- What the rules say about a group with its owner. -/
theorem GroupOp.active {isFriend : ℤ → Prop} {g g' : Group} {members members' : Finset ℤ}
    {op : String} (h : GroupOp uid isFriend g members op g' members') (howner : g.owner ∈ members)
    (hcard : members.card ≤ 32) (hactive : g'.active = true) :
    g'.owner ∈ members' ∧ members'.card ≤ 32 := by
  cases h with
  | rename | present => exact ⟨howner, hcard⟩
  | disband => cases hactive
  | add _ _ hnot hroom =>
    refine ⟨Finset.mem_insert_of_mem howner, ?_⟩
    rw [Finset.card_insert_of_notMem hnot]
    exact hroom
  | transfer _ htarget => exact ⟨htarget, hcard⟩
  | remove _ htarget =>
    exact ⟨Finset.mem_erase.mpr ⟨htarget.symm, howner⟩, Finset.card_erase_le.trans hcard⟩
  | leave hne =>
    exact ⟨Finset.mem_erase.mpr ⟨hne.symm, howner⟩, Finset.card_erase_le.trans hcard⟩

theorem GroupOp.ended {isFriend : ℤ → Prop} {g g' : Group} {members members' : Finset ℤ}
    {op : String} (h : GroupOp uid isFriend g members op g' members') (hactive : g.active = true)
    (hended : g'.active = false) : members' = ∅ := by
  cases h with
  | disband => rfl
  | _ =>
    rw [hactive] at hended
    cases hended

theorem creation_ids {name : Name} {key : String} {ids : Finset ℤ}
    (h : creation uid request = some (name, key, ids)) : uid ∈ ids ∧ ids.card ≤ 32 := by
  unfold creation at h
  split at h
  next =>
    split at h
    · cases h
    · split at h
      · cases h
      · dsimp only at h
        split at h
        · cases h
        next hcard =>
          cases h
          exact ⟨Finset.mem_insert_self _ _, by omega⟩
  next => cases h

/-- One group becomes `g'`, whose key is its own. -/
theorem GroupsSound.of_thread {g' : Group} (h : GroupsSound db)
    (hgroup : db' (.groupChat thread) = some g')
    (hactive : g'.active = true → g'.owner ∈ membersOf db' thread ∧ (membersOf db' thread).card ≤ 32)
    (hended : g'.active = false → membersOf db' thread = ∅)
    (hother : ∀ th, th ≠ thread → db' (.groupChat th) = db (.groupChat th) ∧
      membersOf db' th = membersOf db th)
    (huser : ∀ uid, db' (.user uid) = db (.user uid)) (hcreator : (db (.user g'.creator)).isSome)
    (hindex : db' (.groupCreation g'.creator g'.creationKey) = some thread)
    (hentries : ∀ creator key, ¬ (creator = g'.creator ∧ key = g'.creationKey) →
      db' (.groupCreation creator key) = db (.groupCreation creator key))
    (hkey : ∀ th, db (.groupCreation g'.creator g'.creationKey) = some th → th = thread)
    (hsame : ∀ g, db (.groupChat thread) = some g →
      g.creator = g'.creator ∧ g.creationKey = g'.creationKey) : GroupsSound db' := by
  -- the group of the changed thread is `g'`, the others are as before
  have hcases : ∀ th g, db' (.groupChat th) = some g →
      th = thread ∧ g = g' ∨ th ≠ thread ∧ db (.groupChat th) = some g := by
    intro th g hg
    by_cases hth : th = thread
    · subst hth
      exact .inl ⟨rfl, Option.some.inj (hg.symm.trans hgroup)⟩
    · exact .inr ⟨hth, (hother th hth).1.symm.trans hg⟩
  refine ⟨fun th g hg hga => ?_, fun th g hg hge => ?_, fun th hnone => ?_,
    fun creator key th he => ?_, fun th g hg => ?_, fun th g hg => ?_⟩
  · rcases hcases th g hg with ⟨rfl, rfl⟩ | ⟨hth, hg⟩
    · exact hactive hga
    · rw [(hother th hth).2]
      exact h.active th g hg hga
  · rcases hcases th g hg with ⟨rfl, rfl⟩ | ⟨hth, hg⟩
    · exact hended hge
    · rw [(hother th hth).2]
      exact h.inactive th g hg hge
  · have hth : th ≠ thread := by
      rintro rfl
      rw [hgroup] at hnone
      cases hnone
    rw [(hother th hth).2]
    exact h.absent th ((hother th hth).1.symm.trans hnone)
  · by_cases hck : creator = g'.creator ∧ key = g'.creationKey
    · obtain ⟨rfl, rfl⟩ := hck
      rw [hindex] at he
      cases he
      exact ⟨g', hgroup, rfl, rfl⟩
    · rw [hentries creator key hck] at he
      obtain ⟨g, hg, hc, hk⟩ := h.entry creator key th he
      have hth : th ≠ thread := by
        rintro rfl
        obtain ⟨hc', hk'⟩ := hsame g hg
        exact hck ⟨hc.symm.trans hc', hk.symm.trans hk'⟩
      exact ⟨g, (hother th hth).1.trans hg, hc, hk⟩
  · rcases hcases th g hg with ⟨rfl, rfl⟩ | ⟨hth, hg⟩
    · exact hindex
    · have hold := h.indexed th g hg
      rw [hentries, hold]
      rintro ⟨hc, hk⟩
      rw [hc, hk] at hold
      exact hth (hkey th hold)
  · rw [huser]
    rcases hcases th g hg with ⟨rfl, rfl⟩ | ⟨-, hg⟩
    · exact hcreator
    · exact h.creator th g hg

theorem Change.sound (h : GroupsSound db) (hchange : Change writeString uid request db thread db') :
    GroupsSound db' := by
  cases hchange with
  | read | replayed => exact h
  | @created name key ids _ hop huid hcreation huser hentry hthread hnew hfriends hthread' hentry' hgroup
      hmembers hrest =>
    rw [h.absent thread hnew, Finset.empty_union] at hmembers
    obtain ⟨hself, hcard⟩ := creation_ids hcreation
    refine h.of_thread hgroup (fun _ => ?_) nofun (fun th hth => ⟨?_, membersOf_congr ?_⟩)
      (fun _ => hrest _ (by simp) (by simp) (by simp) (by simp)) huser hentry'
      (fun creator k hck => ?_) (fun th hth => ?_) (fun g hg => ?_)
    · rw [hmembers]
      exact ⟨hself, hcard⟩
    · exact hrest _ (by simp) (by simp) (by simpa using hth) (by simp)
    · exact hrest _ (by simp) (by simp) (by simp) (by simpa using hth)
    · exact hrest _ (by simp) (by simpa using hck) (by simp) (by simp)
    · rw [hentry] at hth
      cases hth
    · rw [hnew] at hg
      cases hg
  | changed hop hg hactive hmember hchange hgroup hrest =>
    obtain ⟨howner, hcard⟩ := h.active thread _ hg hactive
    obtain ⟨hcreator, hkey, -⟩ := hchange.identity
    have hindexed := h.indexed thread _ hg
    rw [← hcreator, ← hkey] at hindexed
    refine h.of_thread hgroup (hchange.active howner hcard) (hchange.ended hactive)
      (fun th hth => ⟨?_, membersOf_congr ?_⟩) (fun _ => hrest _ (by simp) (by simp)) ?_ ?_
      (fun creator k _ => hrest _ (by simp) (by simp)) (fun th hth => ?_) (fun g₁ hg₁ => ?_)
    · exact hrest _ (by simpa using hth) (by simp)
    · exact hrest _ (by simp) (by simpa using hth)
    · rw [hcreator]
      exact h.creator thread _ hg
    · rw [hrest _ (by simp) (by simp), hindexed]
    · exact Option.some.inj (hth.symm.trans hindexed)
    · rw [hg] at hg₁
      cases hg₁
      exact ⟨hcreator.symm, hkey.symm⟩

theorem groupsSound_atomic :
    (atomic (service writeString) GroupsSound).Invariant fun t => GroupsSound t.db where
  init _ h := h.1
  step t op t' _ ht h := by
    obtain ⟨result, ns, hends, -⟩ := h
    rcases ends_cases hends with ⟨uid, request, rfl⟩ | hframe
    · rcases changeGroup_ends hends with ⟨_, -, hdenied⟩ | ⟨thread, _, -, hchange, -⟩
      · cases hdenied.1
      · exact hchange.sound ht
    · exact ht.of_frame hframe

/-- In every interleaving. -/
theorem groupsSound {s : State Val Result Operation}
    (hs : (engine (service writeString) GroupsSound).Reachable s) : GroupsSound s.db := by
  obtain ⟨t, -, ⟨hdb, -⟩, ht⟩ :=
    db_of_atomic (service_disciplined writeString) groupsSound_atomic hs
  rw [← hdb]
  exact ht

end CppChat.Relations
