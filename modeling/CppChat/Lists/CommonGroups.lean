import CppChat.Lists.Pages

/-! # The groups of two friends

`CommonGroups` answers with up to fifty groups behind a cursor. It reads one row more to see
whether there are others, and its cursor is the last group it keeps.
-/
namespace CppChat.Lists
open Foundation

/-- The request: `none` for a member that is no `int`; `after` may be missing. -/
structure CommonRequest where
  friendUid : Option Int
  after : Option (Option Int)

structure GroupJson where
  threadId : ℕ
  name : String
  ownerUid : ℕ
  deriving DecidableEq

def GroupRow.json (g : GroupRow) : GroupJson := ⟨g.threadId, g.name, g.ownerUid⟩

/-- The `result` of one call. -/
structure Common where
  friendUid : Int
  groups : List GroupJson
  hasMore : Bool
  nextThreadId : Int
  deriving DecidableEq

/-- `group_chat g JOIN group_chat_member a … JOIN group_chat_member b … WHERE g.active=1`. -/
def commonRows (db : Database) (uid friend : ℕ) : List GroupRow :=
  db.groupChat.rows.filter fun g =>
    g.active ∧ ⟨g.threadId, uid⟩ ∈ db.groupChatMember.rows ∧
      ⟨g.threadId, friend⟩ ∈ db.groupChatMember.rows

/-- The cursor of a row. -/
def GroupRow.key (g : GroupRow) : Int := g.threadId

/-- The loop over the rows. -/
def collect : List GroupRow → Common → Common
  | [], result => result
  | g :: rest, result =>
    if result.groups.length = 50 then { result with hasMore := true }
    else collect rest
      { result with groups := result.groups ++ [g.json], nextThreadId := g.threadId }

/-- `CommonGroups`; `fails` when the database cannot be read. -/
def commonGroups (db : Database) (fails : Bool) (uid : ℕ) (request : CommonRequest) :
    Except Int Common :=
  match request.friendUid with
  | none => .error ErrorCodes.errorJson
  | some friend =>
    if friend ≤ 0 ∨ friend = uid then .error ErrorCodes.errorJson
    else match request.after.getD (some 0) with
      | none => .error ErrorCodes.errorJson
      | some after =>
        if after < 0 then .error ErrorCodes.errorJson
        else if fails then .error ErrorCodes.databaseError
        else if ∀ f ∈ db.friend.rows, (f.selfId, f.friendId) ≠ (uid, friend.toNat) then
          .error ErrorCodes.friendNotFound
        else .ok (collect
          ((Paging.above GroupRow.key (commonRows db uid friend.toNat) after).take 51)
          ⟨friend, [], false, after⟩)

/-- A client that follows `next_thread_id` while there is more; `fails` says which of its calls
cannot read the database. -/
def follow (db : Database) (fails : ℕ → Bool) (uid : ℕ) (friend : Int) :
    ℕ → ℕ → Option Int → Option (Except Int (List GroupJson))
  | 0, _, _ => none
  | fuel + 1, call, after =>
    match commonGroups db (fails call) uid ⟨some friend, after.map some⟩ with
    | .error e => some (.error e)
    | .ok page =>
      if page.hasMore then
        (follow db fails uid friend fuel (call + 1) (some page.nextThreadId)).map fun rest =>
          rest.map (page.groups ++ ·)
      else some (.ok page.groups)

/-! ## One page -/

theorem collect_eq (rows : List GroupRow) (result : Common) (h : result.groups.length ≤ 50)
    (hmore : result.hasMore = false) :
    (collect rows result).groups =
        result.groups ++ (rows.take (50 - result.groups.length)).map GroupRow.json ∧
      ((collect rows result).hasMore = true ↔ 50 - result.groups.length < rows.length) ∧
      (collect rows result).nextThreadId =
        (((rows.take (50 - result.groups.length)).getLast?).map GroupRow.key).getD
          result.nextThreadId := by
  induction rows generalizing result with
  | nil => simp [collect, hmore]
  | cons g rest ih =>
    by_cases hfull : result.groups.length = 50
    · simp [collect, hfull]
    · obtain ⟨hgroups, hhas, hnext⟩ := ih
        { result with groups := result.groups ++ [g.json], nextThreadId := g.threadId }
        (by simp only [List.length_append, List.length_singleton]; omega) hmore
      have hsub : 50 - result.groups.length = (50 - (result.groups ++ [g.json]).length) + 1 := by
        simp only [List.length_append, List.length_singleton]
        omega
      rw [collect, if_neg hfull, hsub, List.take_succ_cons]
      refine ⟨?_, ?_, ?_⟩
      · rw [hgroups, List.map_cons, List.append_assoc]
        rfl
      · rw [hhas, List.length_cons]
        exact Nat.add_lt_add_iff_right.symm
      · rw [hnext, List.getLast?_cons, Option.map_some, Option.getD_some]
        cases (rest.take _).getLast? <;> rfl

section Page
variable {db : Database} {uid : ℕ} {request : CommonRequest} {page : Common}

theorem commonRows_keys (db : Database) (uid friend : ℕ) :
    (commonRows db uid friend).Pairwise fun a b => a.key ≠ b.key := by
  apply List.Pairwise.filter
  exact db.groupChat.unique.imp fun hne h => hne (Int.ofNat_inj.mp h)

/-- A page is for a friend, and holds the first groups behind the cursor. -/
theorem commonGroups_ok {fails : Bool} (h : commonGroups db fails uid request = .ok page) :
    fails = false ∧ ∃ friend after, request.friendUid = some friend ∧
      request.after.getD (some 0) = some after ∧ 0 ≤ after ∧
      (∃ f ∈ db.friend.rows, f.selfId = uid ∧ (f.friendId : Int) = friend) ∧
      page.groups = ((Paging.above GroupRow.key (commonRows db uid friend.toNat) after).take
        50).map GroupRow.json ∧
      (page.hasMore = true ↔
        50 < (Paging.above GroupRow.key (commonRows db uid friend.toNat) after).length) ∧
      page.nextThreadId = (((Paging.above GroupRow.key (commonRows db uid friend.toNat)
        after).take 50).getLast?.map GroupRow.key).getD after := by
  unfold commonGroups at h
  cases hfriend : request.friendUid with
  | none =>
    rw [hfriend] at h
    cases h
  | some friend =>
    rw [hfriend] at h
    dsimp only at h
    split at h
    · cases h
    next hvalid =>
      cases hafter : request.after.getD (some 0) with
      | none =>
        rw [hafter] at h
        cases h
      | some after =>
        rw [hafter] at h
        dsimp only at h
        split at h
        · cases h
        next hpos =>
          split at h
          · cases h
          next hok =>
            split at h
            · cases h
            next hrow =>
              cases h
              push Not at hrow
              obtain ⟨f, hf, hkey⟩ := hrow
              obtain ⟨hself, hother⟩ := Prod.mk.inj hkey
              obtain ⟨hgroups, hmore, hnext⟩ := collect_eq
                ((Paging.above GroupRow.key (commonRows db uid friend.toNat) after).take 51)
                ⟨friend, [], false, after⟩ (Nat.zero_le _) rfl
              refine ⟨by simpa using hok, friend, after, rfl, rfl, not_lt.mp hpos,
                ⟨f, hf, hself, by omega⟩, ?_, ?_, ?_⟩
              · simpa [List.take_take] using hgroups
              · rw [hmore]
                simp only [List.length_nil, List.length_take]
                omega
              · simpa [List.take_take] using hnext

/-- A friend, a cursor and a database that can be read are all that a page needs. -/
theorem commonGroups_isOk {fails : Bool} {friend : Int} {after : Option Int} :
    (∃ page, commonGroups db fails uid ⟨some friend, after.map some⟩ = .ok page) ↔
      ¬ (friend ≤ 0 ∨ friend = uid) ∧ 0 ≤ after.getD 0 ∧ fails = false ∧
        ∃ f ∈ db.friend.rows, (f.selfId, f.friendId) = (uid, friend.toNat) := by
  have hget : (after.map some).getD (some 0) = some (after.getD 0) := by
    cases after <;> rfl
  simp only [commonGroups, hget]
  by_cases hfriend : friend ≤ 0 ∨ friend = uid
  · simp [hfriend]
  · by_cases hafter : after.getD 0 < 0
    · simp [hfriend, hafter, not_le.mpr hafter]
    · cases fails with
      | true => simp [hfriend, hafter]
      | false =>
        by_cases hrow : ∀ f ∈ db.friend.rows, (f.selfId, f.friendId) ≠ (uid, friend.toNat)
        · simp only [hfriend, hafter, if_false, Bool.false_eq_true, if_pos hrow]
          refine iff_of_false (by simp) ?_
          rintro ⟨-, -, -, f, hf, hkey⟩
          exact hrow f hf hkey
        · simp only [hfriend, hafter, if_false, Bool.false_eq_true, if_neg hrow]
          push Not at hrow
          exact iff_of_true ⟨_, rfl⟩ ⟨not_false, not_lt.mp hafter, trivial, hrow⟩

end Page

/-! ## All pages -/

/-- The groups that two users share. -/
structure Shared (db : Database) (uid friend : ℕ) (groups : List GroupJson) : Prop where
  exact : ∀ g, g ∈ groups ↔ ∃ r ∈ db.groupChat.rows, r.active = true ∧
    ⟨r.threadId, uid⟩ ∈ db.groupChatMember.rows ∧
    ⟨r.threadId, friend⟩ ∈ db.groupChatMember.rows ∧ g = r.json
  ascending : groups.Pairwise fun a b => a.threadId < b.threadId

theorem follow_above (db : Database) (fails : ℕ → Bool) (uid : ℕ) (friend : Int) (call : ℕ)
    (after : Option Int) (hafter : 0 ≤ after.getD 0) :
    ∃ fuel out, follow db fails uid friend fuel call after = some out ∧
      (∀ groups, out = .ok groups → groups =
        (Paging.above GroupRow.key (commonRows db uid friend.toNat) (after.getD 0)).map
          GroupRow.json) ∧
      ((∃ page, commonGroups db false uid ⟨some friend, after.map some⟩ = .ok page) →
        (∀ i, call ≤ i → fails i = false) → ∃ groups, out = .ok groups) := by
  induction hn : (Paging.above GroupRow.key (commonRows db uid friend.toNat)
    (after.getD 0)).length using Nat.strong_induction_on generalizing call after with
  | _ n ih =>
    subst hn
    cases hpage : commonGroups db (fails call) uid ⟨some friend, after.map some⟩ with
    | error e =>
      refine ⟨1, .error e, by simp [follow, hpage], nofun, ?_⟩
      rintro ⟨page, hok⟩ hfails
      rw [hfails call le_rfl, hok] at hpage
      cases hpage
    | ok page =>
      obtain ⟨hfails, friend', after', hfriend, hget, hpos, hrow, hgroups, hmore, hnext⟩ :=
        commonGroups_ok hpage
      obtain rfl := Option.some_inj.mp hfriend
      obtain rfl : after.getD 0 = after' := by
        cases after <;> simpa using hget
      let rest := Paging.above GroupRow.key (commonRows db uid friend.toNat) (after.getD 0)
      by_cases hhas : page.hasMore = true
      · have hlength : 50 < rest.length := hmore.mp hhas
        obtain ⟨last, hlast⟩ : ∃ last, rest[49]? = some last :=
          ⟨_, List.getElem?_eq_getElem (by omega)⟩
        have hget50 : (rest.take 50).getLast? = some last := by
          rw [Paging.getLast_take (by decide) hlength]
          exact hlast
        have hcursor : page.nextThreadId = last.key := by
          rw [hnext]
          change ((rest.take 50).getLast?.map GroupRow.key).getD _ = _
          rw [hget50]
          rfl
        have hdrop : Paging.above GroupRow.key (commonRows db uid friend.toNat) last.key =
            rest.drop 50 :=
          Paging.above_last (commonRows_keys db uid friend.toNat) (by decide) hlast
        have hless : (Paging.above GroupRow.key (commonRows db uid friend.toNat)
            ((some page.nextThreadId).getD 0)).length < rest.length := by
          rw [Option.getD_some, hcursor, hdrop, List.length_drop]
          omega
        have hnonneg : 0 ≤ (some page.nextThreadId).getD 0 := by
          rw [Option.getD_some, hcursor]
          exact Int.natCast_nonneg _
        obtain ⟨fuel, out, hrun, hout, hok⟩ :=
          ih _ hless (call + 1) (some page.nextThreadId) hnonneg rfl
        refine ⟨fuel + 1, out.map (page.groups ++ ·), ?_, ?_, ?_⟩
        · rw [follow, hpage]
          simp only [if_pos hhas, hrun, Option.map_some]
        · intro groups h
          cases out with
          | error e => cases h
          | ok tail =>
            cases h
            dsimp only
            rw [hgroups, hout tail rfl, Option.getD_some, hcursor, hdrop, ← List.map_append,
              List.take_append_drop]
        · rintro hfirst hall
          obtain ⟨hvalid, -, -, hfriends⟩ := commonGroups_isOk.mp hfirst
          have hcall := commonGroups_isOk.mpr ⟨hvalid, hnonneg, rfl, hfriends⟩
          obtain ⟨tail, rfl⟩ := hok hcall fun i hi => hall i (by omega)
          exact ⟨page.groups ++ tail, rfl⟩
      · refine ⟨1, .ok page.groups, by simp [follow, hpage, hhas], ?_, fun _ _ => ⟨_, rfl⟩⟩
        rintro groups h
        cases h
        rw [hgroups]
        change (rest.take 50).map GroupRow.json = rest.map GroupRow.json
        rw [List.take_of_length_le (not_lt.mp fun hlt => hhas (hmore.mpr hlt))]

/-- Who follows the cursors reads what the two users share, and nothing stops him but a call that
fails or a user who is no friend. -/
theorem follow_shared (db : Database) (fails : ℕ → Bool) (uid : ℕ) (friend : Int) :
    ∃ fuel out, follow db fails uid friend fuel 0 none = some out ∧
      (∀ groups, out = .ok groups → Shared db uid friend.toNat groups) ∧
      (0 < friend → friend ≠ uid → (∃ f ∈ db.friend.rows, f.selfId = uid ∧ f.friendId = friend) →
        (∀ i, fails i = false) → ∃ groups, out = .ok groups) := by
  obtain ⟨fuel, out, hrun, hout, hok⟩ := follow_above db fails uid friend 0 none le_rfl
  refine ⟨fuel, out, hrun, fun groups h => ?_, ?_⟩
  swap
  · rintro hpos hne ⟨f, hf, hself, hid⟩ hfails
    refine hok (commonGroups_isOk.mpr ⟨?_, le_rfl, rfl, f, hf, ?_⟩) fun i _ => hfails i
    · exact not_or.mpr ⟨not_le.mpr hpos, hne⟩
    · rw [hself, ← hid, Int.toNat_natCast]
  have hkeys := commonRows_keys db uid friend.toNat
  have hgroups := hout groups h
  subst hgroups
  constructor
  · intro g
    simp only [List.mem_map, Paging.mem_above, Option.getD_none, commonRows, List.mem_filter,
      decide_eq_true_eq]
    constructor
    · rintro ⟨r, ⟨⟨hr, hactive, hself, hother⟩, -⟩, rfl⟩
      exact ⟨r, hr, hactive, hself, hother, rfl⟩
    · rintro ⟨r, hr, hactive, hself, hother, rfl⟩
      exact ⟨r, ⟨⟨hr, hactive, hself, hother⟩, Int.natCast_pos.mpr (db.group_pos r hr)⟩, rfl⟩
  · apply List.pairwise_map.mpr
    refine (Paging.above_pairwise hkeys).imp fun {a b} hlt => ?_
    exact Int.ofNat_lt.mp hlt

/-- A page that announces more has moved its cursor. -/
theorem nextThreadId_lt {db : Database} {fails : Bool} {uid : ℕ} {request : CommonRequest}
    {page : Common} (h : commonGroups db fails uid request = .ok page)
    (hmore : page.hasMore = true) :
    ∃ after, request.after.getD (some 0) = some after ∧ after < page.nextThreadId := by
  obtain ⟨-, friend, after, -, hafter, -, -, -, hhas, hnext⟩ := commonGroups_ok h
  refine ⟨after, hafter, ?_⟩
  have hlength := hhas.mp hmore
  have hlast := Paging.getLast_take (Nat.succ_pos 49) hlength
  have hget := List.getElem?_eq_getElem (Nat.lt_of_succ_lt hlength)
  have hmem := List.mem_of_getElem? hget
  rw [hnext, hlast]
  change after < ((Paging.above GroupRow.key _ after)[49]?.map GroupRow.key).getD after
  rw [hget]
  exact (Paging.mem_above.mp hmem).2

/-! ## The lists of a user -/

/-- What the lists of a database return, when its reads fail as `fails` says. -/
structure ListsRead (styled : Item → ℕ) (parseTags : String → List String) (db : Database)
    (fails : ℕ → Bool) : Prop where
  friends : ∀ uid : ℕ, 0 < uid → ∃ fuel out, list styled parseTags db fails fuel uid = some out ∧
    Complete UserInfo.uid (fun u => styled (writeProfile parseTags u)) fails (friendRows db uid) out
  applications : ∀ uid : ℕ, 0 < uid → ∃ fuel out,
    applications styled db fails fuel uid = some out ∧
    Complete ApplyInfo.id (fun a => styled (writeApplication a)) fails (applyRows db uid) out
  invalid : ∀ uid : Int, uid ≤ 0 →
    (∃ fuel, list styled parseTags db fails fuel uid =
      some ⟨false, ErrorCodes.databaseError, [], 0⟩) ∧
    ∃ fuel, Lists.applications styled db fails fuel uid =
      some ⟨false, ErrorCodes.databaseError, [], 0⟩
  friendship : ∀ f ∈ db.friend.rows, ∃ u ∈ friendRows db f.selfId, u.uid = f.friendId
  application : ∀ a ∈ db.friendApply.rows, ∃ i ∈ applyRows db a.toUid, i.id = a.id
  common : ∀ (uid : ℕ) (friend : Int), ∃ fuel out,
    follow db fails uid friend fuel 0 none = some out ∧
      (∀ groups, out = .ok groups → Shared db uid friend.toNat groups) ∧
      (0 < friend → friend ≠ uid → (∃ f ∈ db.friend.rows, f.selfId = uid ∧ f.friendId = friend) →
        (∀ i, fails i = false) → ∃ groups, out = .ok groups)
  cursor : ∀ fails uid request page, commonGroups db fails uid request = .ok page →
    page.hasMore = true →
    ∃ after, request.after.getD (some 0) = some after ∧ after < page.nextThreadId
  current : ∀ fails uid request page, commonGroups db fails uid request = .ok page →
    ∃ f ∈ db.friend.rows, f.selfId = uid ∧ request.friendUid = some (f.friendId : Int)

/-- Contact and group lists are read completely. -/
theorem lists_complete (styled : Item → ℕ) (parseTags : String → List String) (db : Database)
    (fails : ℕ → Bool) : ListsRead styled parseTags db fails where
  friends uid h := by
    simp only [list, if_neg (not_le.mpr (Int.natCast_pos.mpr h)), Int.toNat_natCast]
    exact readPages_complete (friendRows_keys db uid) fun _ => friendRows_pos db uid
  applications uid h := by
    simp only [applications, if_neg (not_le.mpr (Int.natCast_pos.mpr h)), Int.toNat_natCast]
    exact readPages_complete (applyRows_keys db uid) fun _ => applyRows_pos db uid
  invalid uid h := ⟨⟨0, if_pos h⟩, ⟨0, if_pos h⟩⟩
  friendship f hf := by
    obtain ⟨u, hu, hid⟩ := db.friend_user f hf
    exact ⟨_, (mem_friendRows db f.selfId).mpr ⟨f, hf, rfl, u, hu, hid, rfl⟩, hid⟩
  application a ha := by
    obtain ⟨u, hu, hid⟩ := db.apply_user a ha
    exact ⟨_, (mem_applyRows db a.toUid).mpr ⟨a, ha, rfl, u, hu, hid, rfl⟩, rfl⟩
  common := follow_shared db fails
  cursor _ _ _ _ := nextThreadId_lt
  current _ uid request page h := by
    obtain ⟨-, friend, after, hfriend, -, -, ⟨f, hf, hself, hid⟩, -⟩ := commonGroups_ok h
    exact ⟨f, hf, hself, by rw [hfriend, hid]⟩

end CppChat.Lists
