import CppChat.Relations.GroupInvariant

/-! # Groups are safe

Who may do what to a group, said of every step of every interleaving.
-/
namespace CppChat.Relations
open Foundation RowLocks
open RowLocks.State (Reports)

/-- A change of the group by a member, as the rules allow it. -/
structure GroupRules (uid : ℤ) (op : String) (isFriend : ℤ → Prop) (g : Group)
    (members : Finset ℤ) (g' : Group) (members' : Finset ℤ) : Prop where
  active : g.active = true
  member : uid ∈ members
  owner : op ≠ "leave" → uid = g.owner
  leaver : op = "leave" → uid ≠ g.owner
  renamed : g'.name ≠ g.name → op = "rename"
  transferred : g'.owner ≠ g.owner → op = "transfer" ∧ g'.owner ∈ members
  disbanded : g'.active = false → op = "disband"
  added : ∀ m ∈ members', m ∉ members → op = "add" ∧ isFriend m
  removed : ∀ m ∈ members, m ∉ members' →
    op = "disband" ∨ m ≠ g.owner ∧ (op = "remove" ∨ op = "leave" ∧ m = uid)

/-- A new group of the creator and friends of his. -/
structure Founded (uid : ℤ) (isFriend : ℤ → Prop) (before : Option Group) (g : Group)
    (members : Finset ℤ) : Prop where
  absent : before = none
  active : g.active = true
  owner : g.owner = uid
  member : uid ∈ members
  friends : ∀ m ∈ members, m ≠ uid → isFriend m

/-- What a successful operation has done to a thread. -/
inductive Lawful (uid : ℤ) (op : String) (thread : ℕ) (db db' : Tables) : Prop
  | founded {g : Group} (hop : op = "create") (hgroup : db' (.groupChat thread) = some g)
      (hfounded : Founded uid (fun id => (db (.friend uid id)).isSome = true)
        (db (.groupChat thread)) g (membersOf db' thread))
  | same {g : Group} (hop : op = "create" ∨ op = "info") (hgroup : db (.groupChat thread) = some g)
      (hactive : g.active = true) (hmember : uid ∈ membersOf db thread) (hsame : db' = db)
  | changed {g g' : Group} (hg : db (.groupChat thread) = some g)
      (hgroup : db' (.groupChat thread) = some g')
      (hrules : GroupRules uid op (fun id => (db (.friend uid id)).isSome = true) g
        (membersOf db thread) g' (membersOf db' thread))

variable {writeString : Name → Finset ℤ → String} {db db' : Tables} {uid : ℤ}
  {request : GroupRequest} {thread : ℕ}

theorem GroupOp.rules {isFriend : ℤ → Prop} {g g' : Group} {members members' : Finset ℤ}
    {op : String} (h : GroupOp uid isFriend g members op g' members') (hactive : g.active = true)
    (hmember : uid ∈ members) : GroupRules uid op isFriend g members g' members' := by
  cases h with
  | rename howner name =>
    exact ⟨hactive, hmember, fun _ => howner, nofun, fun _ => rfl, fun h => absurd rfl h,
      fun h => absurd (hactive.symm.trans h) nofun, fun m h h' => absurd h h',
      fun m h h' => absurd h h'⟩
  | disband howner =>
    exact ⟨hactive, hmember, fun _ => howner, nofun, fun h => absurd rfl h, fun h => absurd rfl h,
      fun _ => rfl, nofun, fun _ _ _ => .inl rfl⟩
  | @add howner target hfriend hnot hroom =>
    refine ⟨hactive, hmember, fun _ => howner, nofun, fun h => absurd rfl h, fun h => absurd rfl h,
      fun h => absurd (hactive.symm.trans h) nofun, fun m h h' => ⟨rfl, ?_⟩, fun m h h' => ?_⟩
    · rcases Finset.mem_insert.mp h with rfl | h
      · exact hfriend
      · exact absurd h h'
    · exact absurd (Finset.mem_insert_of_mem h) h'
  | present howner htarget =>
    exact ⟨hactive, hmember, fun _ => howner, nofun, fun h => absurd rfl h, fun h => absurd rfl h,
      fun h => absurd (hactive.symm.trans h) nofun, fun m h h' => absurd h h',
      fun m h h' => absurd h h'⟩
  | transfer howner htarget =>
    exact ⟨hactive, hmember, fun _ => howner, nofun, fun h => absurd rfl h,
      fun _ => ⟨rfl, htarget⟩, fun h => absurd (hactive.symm.trans h) nofun,
      fun m h h' => absurd h h', fun m h h' => absurd h h'⟩
  | @remove howner target htarget =>
    refine ⟨hactive, hmember, fun _ => howner, nofun, fun h => absurd rfl h, fun h => absurd rfl h,
      fun h => absurd (hactive.symm.trans h) nofun,
      fun m h h' => absurd (Finset.mem_of_mem_erase h) h', fun m h h' => .inr ⟨?_, .inl rfl⟩⟩
    obtain rfl : m = target := by
      by_contra hne
      exact h' (Finset.mem_erase.mpr ⟨hne, h⟩)
    exact htarget
  | leave hne =>
    refine ⟨hactive, hmember, fun h => absurd rfl h, fun _ => hne, fun h => absurd rfl h,
      fun h => absurd rfl h, fun h => absurd (hactive.symm.trans h) nofun,
      fun m h h' => absurd (Finset.mem_of_mem_erase h) h', fun m h h' => ?_⟩
    obtain rfl : m = uid := by
      by_contra hne
      exact h' (Finset.mem_erase.mpr ⟨hne, h⟩)
    exact .inr ⟨hne, .inr ⟨rfl, rfl⟩⟩

theorem Change.lawful {op : String} (hdb : GroupsSound db) (hop : request.op = some op)
    (h : Change writeString uid request db thread db') : Lawful uid op thread db db' := by
  cases h with
  | read hop' hg hactive hmember =>
    obtain rfl : op = "info" := Option.some.inj (hop.symm.trans hop')
    exact .same (.inr rfl) hg hactive hmember rfl
  | replayed hop' _ _ hg _ hactive hmember =>
    obtain rfl : op = "create" := Option.some.inj (hop.symm.trans hop')
    exact .same (.inl rfl) hg hactive hmember rfl
  | @created name key ids _ hop' huid hcreation huser hentry hthread hnew hfriends hthread' hentry' hgroup
      hmembers hrest =>
    obtain rfl : op = "create" := Option.some.inj (hop.symm.trans hop')
    rw [hdb.absent thread hnew, Finset.empty_union] at hmembers
    refine .founded rfl hgroup ⟨hnew, rfl, rfl, ?_, ?_⟩
    · rw [hmembers]
      exact (creation_ids hcreation).1
    · rw [hmembers]
      exact hfriends
  | changed hop' hg hactive hmember hchange hgroup hrest =>
    obtain rfl := Option.some.inj (hop.symm.trans hop')
    exact .changed hg hgroup (hchange.rules hactive hmember)

/-- All other groups stay as they are. -/
theorem Change.other (h : Change writeString uid request db thread db') {th : ℕ}
    (hth : th ≠ thread) : db' (.groupChat th) = db (.groupChat th) ∧
      membersOf db' th = membersOf db th := by
  cases h with
  | read | replayed => exact ⟨rfl, rfl⟩
  | created _ _ _ _ _ _ _ _ _ _ _ _ hrest =>
    exact ⟨hrest _ (by simp) (by simp) (by simpa using hth) (by simp),
      membersOf_congr (hrest _ (by simp) (by simp) (by simp) (by simpa using hth))⟩
  | changed _ _ _ _ _ _ hrest =>
    exact ⟨hrest _ (by simpa using hth) (by simp),
      membersOf_congr (hrest _ (by simp) (by simpa using hth))⟩

/-- What one step may do to the groups, and report. -/
structure GroupLaws (s : State Val Result Operation) (a : Action Operation)
    (s' : State Val Result Operation) : Prop where
  changed : ∀ thread, s'.db (.groupChat thread) ≠ s.db (.groupChat thread) ∨
      membersOf s'.db thread ≠ membersOf s.db thread →
    ∃ k outcome uid request op, a = .commit k outcome ∧ request.op = some op ∧
      Reports s s' k (.changeGroup uid request) (if outcome = .ok then
        .group ErrorCodes.success (some (replyOf op s'.db thread))
        else .group ErrorCodes.databaseError none) ∧
      Lawful uid op thread s.db s'.db
  succeeded : ∀ k uid request reply,
    Reports s s' k (.changeGroup uid request) (.group ErrorCodes.success reply) →
    ∃ op thread, request.op = some op ∧ reply = some (replyOf op s'.db thread) ∧
      Lawful uid op thread s.db s'.db
  refused : ∀ k uid request error reply,
    Reports s s' k (.changeGroup uid request) (.group error reply) → error ≠ ErrorCodes.success →
    reply = none ∧ ((∃ outcome, a = .commit k outcome) ∨ s'.db = s.db)

variable {s s' : State Val Result Operation} {a : Action Operation}

theorem groupLaws (hs : (engine (service writeString) GroupsSound).Reachable s)
    (h : s.step (service writeString) a = some s') : GroupLaws s a s' := by
  have hdisciplined := service_disciplined writeString
  obtain ⟨t, -, hst⟩ := (engine_simulates hdisciplined).reachable hs
  have hinv := (inv_engine hdisciplined).reachable hs
  have hsound := groupsSound hs
  refine ⟨fun thread hne => ?_, fun k uid request reply hr => ?_,
    fun k uid request error reply hr herror => ?_⟩
  · rcases State.step_abstracts hinv hst h with ⟨-, hdb, -⟩ | ⟨op, result, ns, t', hc, -, -⟩
    · rw [hdb] at hne
      simp at hne
    · obtain ⟨k, outcome, rfl, hr⟩ := hc.action
      rcases ends_cases hc.ends with ⟨uid, request, rfl⟩ | hframe
      · rcases changeGroup_ends hc.ends with ⟨_, -, hdenied⟩ |
          ⟨th, op, hop, hchange, -, hresult⟩
        · cases hdenied.1
        · obtain rfl : thread = th := by
            by_contra hth
            obtain ⟨h₁, h₂⟩ := hchange.other hth
            exact hne.elim (fun h => h h₁) fun h => h h₂
          rw [hresult] at hr
          exact ⟨k, outcome, uid, request, op, rfl, hop, hr, hchange.lawful hsound hop⟩
      · have h₁ := hframe (.groupChat thread) id
        have h₂ := membersOf_congr (hframe (.groupMembers thread) id)
        exact (hne.elim (fun h => h h₁) fun h => h h₂).elim
  · rcases hinv.reports h hr with ⟨hdb, -, hfailed | ⟨db, ns, hends⟩⟩ |
      ⟨outcome, r, db, ns, -, hends, hdb, hresult⟩
    · cases hfailed
    · rcases changeGroup_ends hends with ⟨error, herror, -, hresult⟩ | ⟨_, _, _, _, hcommit, _⟩
      · cases hresult
        exact absurd rfl herror
      · cases hcommit
    · split at hresult
      next hok =>
        subst hok
        rw [if_pos (by decide)] at hdb
        subst hdb
        rcases changeGroup_ends hends with ⟨_, -, hdenied⟩ | ⟨th, op, hop, hchange, -, hr'⟩
        · cases hdenied.1
        · rw [hr'] at hresult
          cases hresult
          exact ⟨op, th, hop, rfl, hchange.lawful hsound hop⟩
      next => cases hresult
  · rcases hinv.reports h hr with ⟨hdb, -, hfailed | ⟨db, ns, hends⟩⟩ |
      ⟨outcome, r, db, ns, ha, hends, hdb, hresult⟩
    · cases hfailed
      exact ⟨rfl, .inr hdb⟩
    · rcases changeGroup_ends hends with ⟨error, -, -, hresult⟩ | ⟨_, _, _, _, hcommit, _⟩
      · cases hresult
        exact ⟨rfl, .inr hdb⟩
      · cases hcommit
    · split at hresult
      next =>
        rcases changeGroup_ends hends with ⟨_, -, hdenied⟩ | ⟨th, op, hop, hchange, -, hr'⟩
        · cases hdenied.1
        · rw [hr'] at hresult
          cases hresult
          exact absurd rfl herror
      next =>
        cases hresult
        exact ⟨rfl, .inl ⟨outcome, ha⟩⟩

/-- A group that has ended stays so. -/
theorem ended_step (hs : (engine (service writeString) GroupsSound).Reachable s)
    (h : s.step (service writeString) a = some s') {g : Group}
    (hg : s.db (.groupChat thread) = some g) (hended : g.active = false) :
    s'.db (.groupChat thread) = some g := by
  by_contra hne
  rw [← hg] at hne
  obtain ⟨k, outcome, uid, request, op, -, -, -, hlawful⟩ := (groupLaws hs h).changed thread (.inl hne)
  cases hlawful with
  | founded _ _ hfounded =>
    rw [hfounded.absent] at hg
    cases hg
  | same _ _ _ _ hsame => exact hne (by rw [hsame])
  | changed hg' _ hrules =>
    rw [hg] at hg'
    cases hg'
    rw [hrules.active] at hended
    cases hended

/-- In every interleaving the groups are sound, an ended group stays ended, and whatever
happens to a group follows its rules. -/
theorem groups_lawful (hs : (engine (service writeString) GroupsSound).Reachable s) :
    (∀ thread g, s.db (.groupChat thread) = some g →
      if g.active then g.owner ∈ membersOf s.db thread ∧ 1 ≤ (membersOf s.db thread).card ∧
        (membersOf s.db thread).card ≤ 32
      else membersOf s.db thread = ∅) ∧
    (∀ s', (engine (service writeString) GroupsSound).Run s s' → ∀ thread g,
      s.db (.groupChat thread) = some g → g.active = false →
        s'.db (.groupChat thread) = some g ∧ membersOf s'.db thread = ∅) ∧
    ∀ a s', (engine (service writeString) GroupsSound).step s a s' → GroupLaws s a s' := by
  refine ⟨fun thread g hg => ?_, fun s' hrun thread g hg hended => ?_, fun a s' => groupLaws hs⟩
  · split
    next hactive =>
      obtain ⟨howner, hcard⟩ := (groupsSound hs).active thread g hg hactive
      exact ⟨howner, Finset.card_pos.mpr ⟨_, howner⟩, hcard⟩
    next hended => exact (groupsSound hs).inactive thread g hg (by simpa using hended)
  · have hstays : s'.db (.groupChat thread) = some g := by
      induction hrun with
      | refl => exact hg
      | tail hrun hnext ih =>
        obtain ⟨a, ha⟩ := hnext
        exact ended_step (hs.run hrun) ha ih hended
    exact ⟨hstays, (groupsSound (hs.run hrun)).inactive thread g hstays hended⟩

/-! ## A run -/

/-- Three users; the first is a friend of the others, and has a group with the second. -/
def sampleTables : Tables
  | .user uid => if uid = 1 ∨ uid = 2 ∨ uid = 3 then some () else none
  | .friend selfId friendId =>
    if (selfId, friendId) ∈ [((1 : ℤ), (2 : ℤ)), (2, 1), (1, 3), (3, 1)] then some ⟨"", none⟩
    else none
  | .chatThread thread => if thread = 7 then some .group else none
  | .groupCreation creator key => if creator = 1 ∧ key = "first" then some 7 else none
  | .groupChat thread => if thread = 7 then some ⟨[0x67], 1, 1, "first", "", true⟩ else none
  | .groupMembers thread => if thread = 7 then some {1, 2} else none
  | _ => none

theorem groupsSound_sampleTables : GroupsSound sampleTables where
  active thread g hg _ := by
    simp only [sampleTables] at hg
    split at hg
    next h =>
      cases hg
      subst h
      decide
    next => cases hg
  inactive thread g hg := by
    simp only [sampleTables] at hg
    split at hg <;> cases hg
    nofun
  absent thread h := by
    simp only [sampleTables] at h
    split at h
    · cases h
    next hne => simp [membersOf, sampleTables, hne]
  entry creator key thread h := by
    simp only [sampleTables] at h
    split at h
    next hck =>
      cases h
      exact ⟨_, rfl, hck.1.symm, hck.2.symm⟩
    next => cases h
  indexed thread g hg := by
    simp only [sampleTables] at hg
    split at hg
    next h =>
      cases hg
      subst h
      rfl
    next => cases hg
  creator thread g hg := by
    simp only [sampleTables] at hg
    split at hg <;> cases hg
    rfl

def sampleStart : State Val Result Operation where
  db := sampleTables
  used := [.user 1, .user 2, .user 3, .friend 1 2, .friend 2 1, .friend 1 3, .friend 3 1,
    .chatThread 7, .groupCreation 1 "first", .groupChat 7, .groupMembers 7]
  locks := fun _ => []
  calls := fun _ => none
  log := []

theorem sampleStart_used (r : Row) (h : (sampleTables r).isSome) : r ∈ sampleStart.used := by
  cases r with
  | user uid =>
    simp only [sampleTables] at h
    split at h
    next huid => rcases huid with rfl | rfl | rfl <;> decide
    next => cases h
  | friend selfId friendId =>
    simp only [sampleTables] at h
    split at h
    next hmem =>
      simp only [List.mem_cons, Prod.mk.injEq, List.not_mem_nil, or_false] at hmem
      rcases hmem with ⟨rfl, rfl⟩ | ⟨rfl, rfl⟩ | ⟨rfl, rfl⟩ | ⟨rfl, rfl⟩ <;> decide
    next => cases h
  | groupCreation creator key =>
    simp only [sampleTables] at h
    split at h
    next hck =>
      obtain ⟨rfl, rfl⟩ := hck
      decide
    next => cases h
  | chatThread thread | groupChat thread | groupMembers thread =>
    simp only [sampleTables] at h
    split at h
    next hthread =>
      subst hthread
      decide
    next => cases h
  | _ => cases h

theorem reachable_sampleStart (writeString : Name → Finset ℤ → String) :
    (engine (service writeString) GroupsSound).Reachable sampleStart :=
  .init ⟨groupsSound_sampleTables, sampleStart_used, rfl, rfl, rfl⟩

def changeRequest (op : String) (memberUid : Option ℤ) : GroupRequest :=
  ⟨some op, none, none, none, some 7, memberUid⟩

/-- The second user wants to leave while the group is handed over to him. -/
def leaveAfterTransfer : List (Action Operation) :=
  [.begin 0 (.changeGroup 1 (changeRequest "transfer" (some 2))),
    .begin 1 (.changeGroup 2 (changeRequest "leave" none))] ++
  List.replicate 6 (.statement 0 0) ++ [.commit 0 .ok] ++ List.replicate 2 (.statement 1 0) ++
  [.rollback 1]

theorem groups_lawful_sample : ∃ s, Machine.runFn (State.step (service fun _ _ => ""))
      sampleStart leaveAfterTransfer = some s ∧
    (s.calls 0).bind Call.result = some (.group ErrorCodes.success
      (some (.group (some ⟨7, [0x67], 2, {1, 2}⟩)))) ∧
    (s.calls 1).bind Call.result = some (.group ErrorCodes.groupOwnerMustTransfer none) ∧
    ∀ a s', (engine (service fun _ _ => "") GroupsSound).step s a s' → GroupLaws s a s' := by
  have hrun : (Machine.runFn (State.step (service fun _ _ => "")) sampleStart
      leaveAfterTransfer).map
        (fun s => ((s.calls 0).bind Call.result, (s.calls 1).bind Call.result)) =
      some (some (.group ErrorCodes.success (some (.group (some ⟨7, [0x67], 2, {1, 2}⟩)))),
        some (.group ErrorCodes.groupOwnerMustTransfer none)) := by
    decide +kernel
  obtain ⟨s, hs, hresults⟩ := Option.map_eq_some_iff.mp hrun
  have hreachable := (reachable_sampleStart fun _ _ => "").runFn hs
  exact ⟨s, hs, congrArg Prod.fst hresults, congrArg Prod.snd hresults,
    (groups_lawful hreachable).2.2⟩

end CppChat.Relations
