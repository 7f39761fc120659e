import CppChat.Relations.Discipline

/-! # What an operation on contacts does

Each operation fails, or commits one of a few effects on the rows of two users.
-/
namespace CppChat.Relations
open Foundation RowLocks

variable {db db' : Tables} {ns ns' : List Row} {commit : Bool} {result : Result}

/-- Both are friends of each other. -/
def Befriended (db : Tables) (u v : ℤ) : Prop :=
  (db (.friend u v)).isSome = true ∧ (db (.friend v u)).isSome = true

theorem befriended_comm {u v : ℤ} : Befriended db u v ↔ Befriended db v u := and_comm

/-- The rows of the two users, in the order in which they are locked. -/
theorem befriended_min_max (u v : ℤ) :
    Befriended db (min u v) (max u v) ↔ Befriended db u v := by
  rcases le_total u v with h | h
  · rw [min_eq_left h, max_eq_right h]
  · rw [min_eq_right h, max_eq_left h, befriended_comm]

/-! ## The effects -/

/-- The messages are new rows, and no other row of the kind has changed. -/
structure Stored (messages : List (ℕ × ChatMessage)) (db db' : Tables) : Prop where
  fresh : ∀ p ∈ messages, db (.chatMessage p.1) = none
  stored : ∀ p ∈ messages, db' (.chatMessage p.1) = some p.2
  nodup : (messages.map Prod.fst).Nodup
  rest : ∀ id, id ∉ messages.map Prod.fst → db' (.chatMessage id) = db (.chatMessage id)

/-- The thread of the pair: the one that is there, or a new one. -/
structure Paired (first second : ℤ) (thread : ℕ) (db db' : Tables) : Prop where
  row : db' (.privateChat first second) = some thread
  reused : ∀ t, db (.privateChat first second) = some t → t = thread
  rest : ∀ u v, ¬ (u = first ∧ v = second) → db' (.privateChat u v) = db (.privateChat u v)

def initialMessages (fromUid toUid : ℤ) (thread : ℕ) (description : String) : List ChatMessage :=
  (if description = "" then [] else [⟨thread, toUid, fromUid, description, 2⟩]) ++
    [⟨thread, fromUid, toUid, greeting, 2⟩]

/-- `fromUid` has accepted the application of `toUid`. -/
structure Established (fromUid toUid : ℤ) (remark tags : String) (a : Apply) (thread : ℕ)
    (messages : List (ℕ × ChatMessage)) (db db' : Tables) : Prop where
  apart : fromUid ≠ toUid
  before : ¬ Befriended db fromUid toUid
  incoming : db (.friendApply toUid fromUid) = some a
  mine : db' (.friend fromUid toUid) =
    some ((db (.friend fromUid toUid)).getD ⟨remark, some tags⟩)
  other : db' (.friend toUid fromUid) =
    some ((db (.friend toUid fromUid)).getD ⟨a.backName, some (a.tags.getD "[]")⟩)
  friends : ∀ u v, ¬ (u = fromUid ∧ v = toUid) → ¬ (u = toUid ∧ v = fromUid) →
    db' (.friend u v) = db (.friend u v)
  applications : ∀ u v, (db' (.friendApply u v)).isSome = (db (.friendApply u v)).isSome
  paired : Paired (min fromUid toUid) (max fromUid toUid) thread db db'
  messages_eq : messages.map Prod.snd = initialMessages fromUid toUid thread a.descs
  stored : Stored messages db db'

/-- The rows that the effects are about, other than applications. -/
structure SameContacts (db db' : Tables) : Prop where
  friends : ∀ u v, db' (.friend u v) = db (.friend u v)
  chats : ∀ u v, db' (.privateChat u v) = db (.privateChat u v)
  messages : ∀ id, db' (.chatMessage id) = db (.chatMessage id)

/-! ## The parts of the programs -/

theorem lockApplications_ends {first second : ℤ} {next : Option Apply → Option Apply → Program} :
    (lockApplications first second next).Ends db ns commit result db' ns' ↔
      (next (db (.friendApply first second)) (db (.friendApply second first))).Ends db ns commit
        result db' ns' := Iff.rfl

theorem lockFriends_ends {first second : ℤ} {next : Option Friend → Option Friend → Program} :
    (lockFriends first second next).Ends db ns commit result db' ns' ↔
      (next (db (.friend first second)) (db (.friend second first))).Ends db ns commit
        result db' ns' := Iff.rfl

theorem insertFriend_ends {selfId friendId : ℤ} {row : Friend} {next : Program}
    (h : (insertFriend selfId friendId (db (.friend selfId friendId)) row next).Ends
      db ns commit result db' ns') :
    next.Ends (Function.update db (.friend selfId friendId)
      (some ((db (.friend selfId friendId)).getD row))) ns commit result db' ns' := by
  unfold insertFriend at h
  split at h
  next hpresent =>
    obtain ⟨old, hold⟩ := Option.isSome_iff_exists.mp hpresent
    rw [hold, Option.getD_some, ← hold, Function.update_eq_self]
    exact h
  next hmissing =>
    obtain ⟨hnone, h⟩ := Prog.ends_insert.mp h
    rw [hnone]
    exact h

theorem accept_ends {fromUid toUid : ℤ} {next : Program}
    (h : (if (db (.friendApply fromUid toUid)).isSome then
      .update (.friendApply fromUid toUid) (fun a : Apply => { a with status := 1 }) next
      else next : Program).Ends db ns commit result db' ns') :
    next.Ends (Function.update db (.friendApply fromUid toUid)
      ((db (.friendApply fromUid toUid)).map fun a => { a with status := 1 }))
      ns commit result db' ns' := by
  split at h
  next => exact Prog.ends_update.mp h
  next hmissing =>
    have hnone := Option.not_isSome_iff_eq_none.mp hmissing
    rw [hnone, Option.map_none, ← hnone, Function.update_eq_self]
    exact h

/-- Only the status of applications changes. -/
theorem acceptApplications_ends {first second : ℤ} {next : Program} (hne : first ≠ second)
    (h : (acceptApplications first second (db (.friendApply first second))
      (db (.friendApply second first)) next).Ends db ns commit result db' ns') :
    ∃ db₁ : Tables, next.Ends db₁ ns commit result db' ns' ∧
      (∀ u v, (db₁ (.friendApply u v)).isSome = (db (.friendApply u v)).isSome) ∧
      ∀ r, (∀ u v, r ≠ .friendApply u v) → db₁ r = db r := by
  unfold acceptApplications at h
  dsimp only at h
  have h₁ := accept_ends h
  have hsecond : Function.update db (.friendApply first second)
      ((db (.friendApply first second)).map fun a => { a with status := 1 })
      (.friendApply second first) = db (.friendApply second first) :=
    Function.update_of_ne (by simp [hne, hne.symm]) _ _
  rw [← hsecond] at h₁
  refine ⟨_, accept_ends h₁, fun u v => ?_, fun r hr => ?_⟩
  · by_cases h₂ : Row.friendApply u v = .friendApply second first
    · cases h₂
      rw [Function.update_self, hsecond, Option.isSome_map]
    · rw [Function.update_of_ne h₂]
      by_cases h₃ : Row.friendApply u v = .friendApply first second
      · cases h₃
        rw [Function.update_self, Option.isSome_map]
      · rw [Function.update_of_ne h₃]
  · rw [Function.update_of_ne (hr _ _), Function.update_of_ne (hr _ _)]

theorem privateThread_ends {first second : ℤ} {next : ℕ → Program}
    (h : (privateThread first second next).Ends db ns commit result db' ns') :
    ∃ thread db₁ ns₁, (next thread).Ends db₁ ns₁ commit result db' ns' ∧
      Paired first second thread db db₁ ∧
      ∀ r, (∀ t, r ≠ .chatThread t) → r ≠ .privateChat first second → db₁ r = db r := by
  unfold privateThread at h
  rw [Prog.ends_lock] at h
  split at h
  next thread hthread =>
    refine ⟨thread, db, ns, h, ⟨hthread, fun t ht => ?_, fun _ _ _ => rfl⟩, fun _ _ _ => rfl⟩
    rw [hthread] at ht
    exact (Option.some.inj ht).symm
  next hnone =>
    obtain ⟨thread, -, h⟩ := h
    obtain ⟨-, h⟩ := Prog.ends_insert.mp h
    obtain ⟨-, h⟩ := Prog.ends_insert.mp h
    refine ⟨thread, _, _, h, ⟨Function.update_self _ _ _, fun t ht => ?_, fun u v huv => ?_⟩,
      fun r ht hr => ?_⟩
    · rw [hnone] at ht
      cases ht
    · rw [Function.update_of_ne (by simpa using huv), Function.update_of_ne (by simp)]
    · rw [Function.update_of_ne hr, Function.update_of_ne (ht _)]

theorem Stored.nil : Stored [] db db := ⟨nofun, nofun, List.nodup_nil, fun _ _ => rfl⟩

theorem Stored.snoc {messages : List (ℕ × ChatMessage)} {db₁ : Tables} {id : ℕ} {m : ChatMessage}
    (h : Stored messages db db₁) (hid : db₁ (.chatMessage id) = none) :
    Stored (messages ++ [(id, m)]) db (Function.update db₁ (.chatMessage id) (some m)) := by
  have hnew : id ∉ messages.map Prod.fst := by
    intro hmem
    obtain ⟨p, hp, rfl⟩ := List.mem_map.mp hmem
    rw [h.stored p hp] at hid
    cases hid
  have hold : ∀ p ∈ messages, p.1 ≠ id := by
    rintro p hp rfl
    exact hnew (List.mem_map_of_mem hp)
  refine ⟨fun p hp => ?_, fun p hp => ?_, ?_, fun j hj => ?_⟩
  · rcases List.mem_append.mp hp with hp | hp
    · exact h.fresh p hp
    · rw [List.mem_singleton.mp hp]
      exact (h.rest id hnew).symm.trans hid
  · rcases List.mem_append.mp hp with hp | hp
    · rw [Function.update_of_ne (by simpa using hold p hp)]
      exact h.stored p hp
    · rw [List.mem_singleton.mp hp, Function.update_self]
  · rw [List.map_append, List.nodup_append]
    refine ⟨h.nodup, by simp, fun x hx y hy => ?_⟩
    rintro rfl
    rw [List.map_singleton, List.mem_singleton] at hy
    rw [hy] at hx
    exact hnew hx
  · rw [List.map_append, List.mem_append, not_or] at hj
    rw [Function.update_of_ne (by simpa using hj.2)]
    exact h.rest j hj.1

theorem addInitialMessage_ends {db₀ : Tables} {thread : ℕ} {sender recv : ℤ} {content : String}
    {messages : List (ℕ × ChatMessage)} {next : List (ℕ × ChatMessage) → Program}
    (hstored : Stored messages db₀ db)
    (h : (addInitialMessage thread sender recv content messages next).Ends db ns commit result
      db' ns') :
    ∃ messages' db₁ ns₁, (next messages').Ends db₁ ns₁ commit result db' ns' ∧
      messages'.map Prod.snd = messages.map Prod.snd ++
        (if content = "" then [] else [⟨thread, sender, recv, content, 2⟩]) ∧
      Stored messages' db₀ db₁ ∧ ∀ r, (∀ id, r ≠ .chatMessage id) → db₁ r = db r := by
  unfold addInitialMessage at h
  split at h
  next hempty =>
    refine ⟨messages, db, ns, h, ?_, hstored, fun _ _ => rfl⟩
    rw [if_pos hempty, List.append_nil]
  next hsome =>
    obtain ⟨id, -, h⟩ := h
    obtain ⟨hid, h⟩ := Prog.ends_insert.mp h
    refine ⟨_, _, _, h, ?_, hstored.snoc hid, fun r hr => Function.update_of_ne (hr id) _ _⟩
    rw [if_neg hsome, List.map_append, List.map_singleton]

/-! ## The operations -/

theorem addFriendApply_ends {fromUid toUid : ℤ} {description remark tags : String}
    (h : (addFriendApply fromUid toUid description remark tags).Ends db ns commit result db' ns') :
    (db' = db ∧ commit = false ∧ result = .applied false false) ∨
      commit = true ∧ fromUid ≠ toUid ∧
        ((db' = db ∧ result = .applied true false ∧ Befriended db fromUid toUid) ∨
          result = .applied true true ∧ ¬ Befriended db fromUid toUid ∧
            db' = Function.update db (.friendApply fromUid toUid)
              (some ⟨description, remark, some tags, 0⟩)) := by
  unfold addFriendApply at h
  split at h
  next =>
    obtain ⟨rfl, rfl, rfl, -⟩ := h
    exact .inl ⟨rfl, rfl, rfl⟩
  next hvalid =>
    have hne : fromUid ≠ toUid := fun heq => hvalid (.inr (.inr heq))
    dsimp only at h
    rw [lockApplications_ends, lockFriends_ends] at h
    split at h
    next hfriends =>
      obtain ⟨rfl, rfl, rfl, -⟩ := h
      exact .inr ⟨rfl, hne, .inl ⟨rfl, rfl, (befriended_min_max _ _).mp hfriends⟩⟩
    next hfriends =>
      obtain ⟨row, hrow, rfl, rfl, rfl, -⟩ := h
      cases hrow
      exact .inr ⟨rfl, hne, .inr ⟨rfl, fun hb => hfriends ((befriended_min_max _ _).mpr hb), rfl⟩⟩

theorem delete_ends {r : Row} {next : Program} :
    (Prog.delete r next).Ends db ns commit result db' ns' ↔
      next.Ends (fun q => if q = r then none else db q) ns commit result db' ns' := by
  have hupdate : Function.update db r none = fun q => if q = r then none else db q := by
    funext q
    split
    next h =>
      subst h
      exact Function.update_self _ _ _
    next h => exact Function.update_of_ne h _ _
  rw [Prog.ends_delete, hupdate]

/-- The four rows of the pair are gone, whichever user is the first. -/
theorem pair_min_max (u v x y : ℤ) :
    (x = min u v ∧ y = max u v ∨ x = max u v ∧ y = min u v) ↔
      (x = u ∧ y = v ∨ x = v ∧ y = u) := by
  rcases le_total u v with h | h
  · rw [min_eq_left h, max_eq_right h]
  · rw [min_eq_right h, max_eq_left h, or_comm]

theorem deleteFriend_ends {selfUid friendUid : ℤ}
    (h : (deleteFriend selfUid friendUid).Ends db ns commit result db' ns') :
    (db' = db ∧ commit = false ∧ result = .deleted false) ∨
      commit = true ∧ result = .deleted true ∧ selfUid ≠ friendUid ∧
        (∀ u v, (u = selfUid ∧ v = friendUid ∨ u = friendUid ∧ v = selfUid) →
          db' (.friend u v) = none ∧ db' (.friendApply u v) = none) ∧
        (∀ u v, ¬ (u = selfUid ∧ v = friendUid ∨ u = friendUid ∧ v = selfUid) →
          db' (.friend u v) = db (.friend u v) ∧ db' (.friendApply u v) = db (.friendApply u v)) ∧
        (∀ u v, db' (.privateChat u v) = db (.privateChat u v)) ∧
        ∀ id, db' (.chatMessage id) = db (.chatMessage id) := by
  unfold deleteFriend at h
  split at h
  next =>
    obtain ⟨rfl, rfl, rfl, -⟩ := h
    exact .inl ⟨rfl, rfl, rfl⟩
  next hvalid =>
    have hne : selfUid ≠ friendUid := fun heq => hvalid (.inr (.inr heq))
    dsimp only at h
    rw [lockApplications_ends, lockFriends_ends] at h
    simp only [delete_ends] at h
    obtain ⟨rfl, rfl, rfl, -⟩ := h
    simp only [Row.friend.injEq, Row.friendApply.injEq, reduceCtorEq, if_false]
    refine .inr ⟨trivial, trivial, hne, fun u v huv => ?_, fun u v huv => ?_, fun _ _ => trivial,
      fun _ => trivial⟩
    · rcases (pair_min_max _ _ _ _).mpr huv with hpair | hpair <;> simp [hpair]
    · rw [← pair_min_max, not_or] at huv
      simp [huv]

theorem createPrivateChat_ends {user1 user2 : ℤ}
    (h : (createPrivateChat user1 user2).Ends db ns commit result db' ns') :
    (db' = db ∧ commit = false ∧ result = .privateChat false 0) ∨
      commit = true ∧ user1 ≠ user2 ∧ (db (.friend user1 user2)).isSome = true ∧
        ∃ thread, result = .privateChat true thread ∧
          Paired (min user1 user2) (max user1 user2) thread db db' ∧
          ∀ r, (∀ t, r ≠ .chatThread t) → r ≠ .privateChat (min user1 user2) (max user1 user2) →
            db' r = db r := by
  unfold createPrivateChat at h
  split at h
  next =>
    obtain ⟨rfl, rfl, rfl, -⟩ := h
    exact .inl ⟨rfl, rfl, rfl⟩
  next hvalid =>
    rw [Prog.ends_lock] at h
    split at h
    next =>
      obtain ⟨rfl, rfl, rfl, -⟩ := h
      exact .inl ⟨rfl, rfl, rfl⟩
    next hfriend =>
      obtain ⟨thread, db₁, ns₁, ⟨rfl, rfl, rfl, -⟩, hpaired, hrest⟩ := privateThread_ends h
      refine .inr ⟨rfl, fun heq => hvalid (.inr (.inr heq)), ?_, thread, rfl, hpaired, hrest⟩
      simpa [Option.isSome_iff_ne_none] using hfriend

/-- The last part of `AddFriend`, for two users who are not yet friends of each other. -/
theorem establish_ends {first second fromUid toUid : ℤ} {row₁ row₂ : Friend} {description : String}
    (hne : first ≠ second)
    (h : (insertFriend first second (db (.friend first second)) row₁ <|
      insertFriend second first (db (.friend second first)) row₂ <|
      privateThread first second fun thread =>
        addInitialMessage thread toUid fromUid description [] fun messages =>
          addInitialMessage thread fromUid toUid greeting messages fun messages =>
            .finish true (.befriended true messages)).Ends db ns commit result db' ns') :
    commit = true ∧ ∃ thread messages, result = .befriended true messages ∧
      db' (.friend first second) = some ((db (.friend first second)).getD row₁) ∧
      db' (.friend second first) = some ((db (.friend second first)).getD row₂) ∧
      (∀ u v, ¬ (u = first ∧ v = second) → ¬ (u = second ∧ v = first) →
        db' (.friend u v) = db (.friend u v)) ∧
      (∀ u v, db' (.friendApply u v) = db (.friendApply u v)) ∧
      Paired first second thread db db' ∧
      messages.map Prod.snd = initialMessages fromUid toUid thread description ∧
      Stored messages db db' := by
  have h₁ := insertFriend_ends h
  have hsecond : Function.update db (.friend first second)
      (some ((db (.friend first second)).getD row₁)) (.friend second first) =
      db (.friend second first) := Function.update_of_ne (by simp [hne, hne.symm]) _ _
  rw [← hsecond] at h₁
  have h₂ := insertFriend_ends h₁
  rw [hsecond] at h₂
  obtain ⟨thread, db₁, ns₁, h₃, hpaired, hrest₁⟩ := privateThread_ends h₂
  obtain ⟨messages₁, db₂, ns₂, h₄, hmap₁, hstored₁, hrest₂⟩ := addInitialMessage_ends .nil h₃
  obtain ⟨messages, db₃, ns₃, ⟨rfl, rfl, rfl, -⟩, hmap, hstored, hrest₃⟩ :=
    addInitialMessage_ends hstored₁ h₄
  have hframe : ∀ r, (∀ t, r ≠ .chatThread t) → r ≠ .privateChat first second →
      (∀ id, r ≠ .chatMessage id) → r ≠ .friend first second → r ≠ .friend second first →
      db' r = db r := by
    intro r ht hp hm hf hf'
    rw [hrest₃ r hm, hrest₂ r hm, hrest₁ r ht hp, Function.update_of_ne hf',
      Function.update_of_ne hf]
  have hold : ∀ u v, db₁ (.friend u v) = db' (.friend u v) := by
    intro u v
    rw [hrest₃ _ (by simp), hrest₂ _ (by simp)]
  refine ⟨rfl, thread, messages, rfl, ?_, ?_, fun u v hu hv => ?_, fun u v => ?_, ?_, ?_, ?_⟩
  · rw [← hold, hrest₁ _ (by simp) (by simp), Function.update_of_ne (by simp [hne]),
      Function.update_self]
  · rw [← hold, hrest₁ _ (by simp) (by simp), Function.update_self]
  · exact hframe _ (by simp) (by simp) (by simp) (by simpa using hu) (by simpa using hv)
  · exact hframe _ (by simp) (by simp) (by simp) (by simp) (by simp)
  · refine ⟨?_, fun t ht => hpaired.reused t ?_, fun u v huv => ?_⟩
    · rw [hrest₃ _ (by simp), hrest₂ _ (by simp), hpaired.row]
    · rw [Function.update_of_ne (by simp), Function.update_of_ne (by simp), ht]
    · exact hframe _ (by simp) (by simpa using huv) (by simp) (by simp) (by simp)
  · have hgreeting : greeting ≠ "" := by decide
    rw [hmap, hmap₁, if_neg hgreeting]
    rfl
  · have hmessage : ∀ id, db₁ (.chatMessage id) = db (.chatMessage id) := fun id => by
      rw [hrest₁ _ (by simp) (by simp), Function.update_of_ne (by simp),
        Function.update_of_ne (by simp)]
    exact ⟨fun p hp => (hmessage p.1).symm.trans (hstored.fresh p hp), hstored.stored,
      hstored.nodup, fun id hid => (hstored.rest id hid).trans (hmessage id)⟩

theorem addFriend_ends {fromUid toUid : ℤ} {remark tags : String}
    (h : (addFriend fromUid toUid remark tags).Ends db ns commit result db' ns') :
    (db' = db ∧ commit = false ∧ result = .befriended false []) ∨
      commit = true ∧ fromUid ≠ toUid ∧
        ((Befriended db fromUid toUid ∧ result = .befriended true [] ∧ SameContacts db db' ∧
            ∀ u v, (db' (.friendApply u v)).isSome = (db (.friendApply u v)).isSome) ∨
          ∃ a thread messages, result = .befriended true messages ∧
            Established fromUid toUid remark tags a thread messages db db') := by
  unfold addFriend at h
  split at h
  next =>
    obtain ⟨rfl, rfl, rfl, -⟩ := h
    exact .inl ⟨rfl, rfl, rfl⟩
  next hvalid =>
    have hne : fromUid ≠ toUid := fun heq => hvalid (.inr (.inr heq))
    have hpair : min fromUid toUid ≠ max fromUid toUid := by
      simpa using hne
    have hincoming : (if toUid = min fromUid toUid then
        db (.friendApply (min fromUid toUid) (max fromUid toUid))
        else db (.friendApply (max fromUid toUid) (min fromUid toUid))) =
        db (.friendApply toUid fromUid) := by
      rcases lt_or_gt_of_ne hne with hlt | hlt
      · rw [min_eq_left hlt.le, max_eq_right hlt.le, if_neg hne.symm]
      · rw [min_eq_right hlt.le, max_eq_left hlt.le, if_pos rfl]
    dsimp only at h
    rw [lockApplications_ends, lockFriends_ends, hincoming] at h
    split at h
    next =>
      obtain ⟨rfl, rfl, rfl, -⟩ := h
      exact .inl ⟨rfl, rfl, rfl⟩
    next hallowed =>
      obtain ⟨db₁, h, happlications, hrest⟩ := acceptApplications_ends hpair h
      have hfriend : ∀ u v, db₁ (.friend u v) = db (.friend u v) := fun u v => hrest _ (by simp)
      split at h
      next hboth =>
        obtain ⟨rfl, rfl, rfl, -⟩ := h
        exact .inr ⟨rfl, hne, .inl ⟨(befriended_min_max _ _).mp hboth, rfl,
          ⟨hfriend, fun _ _ => hrest _ (by simp), fun _ => hrest _ (by simp)⟩, happlications⟩⟩
      next hboth =>
        obtain ⟨a, ha⟩ : ∃ a, db (.friendApply toUid fromUid) = some a := by
          refine Option.ne_none_iff_exists'.mp fun hnone => hallowed ⟨hboth, ?_⟩
          rw [hnone]
          rfl
        rw [← hfriend, ← hfriend, ha] at h
        obtain ⟨rfl, thread, messages, rfl, hmine, hother, hfriends, happly, hpaired, hmap, hstored⟩ :=
          establish_ends hpair h
        have hrows : db' (.friend fromUid toUid) =
              some ((db (.friend fromUid toUid)).getD ⟨remark, some tags⟩) ∧
            db' (.friend toUid fromUid) =
              some ((db (.friend toUid fromUid)).getD ⟨a.backName, some (a.tags.getD "[]")⟩) := by
          rw [hfriend] at hmine hother
          rcases lt_or_gt_of_ne hne with hlt | hlt
          · rw [min_eq_left hlt.le, max_eq_right hlt.le] at hmine hother
            rw [if_pos rfl] at hmine
            rw [if_neg hne.symm] at hother
            exact ⟨hmine, hother⟩
          · rw [min_eq_right hlt.le, max_eq_left hlt.le] at hmine hother
            rw [if_neg hne.symm] at hmine
            rw [if_pos rfl] at hother
            exact ⟨hother, hmine⟩
        have hchats : ∀ u v, db₁ (.privateChat u v) = db (.privateChat u v) :=
          fun u v => hrest _ (by simp)
        have hmessages : ∀ id, db₁ (.chatMessage id) = db (.chatMessage id) :=
          fun id => hrest _ (by simp)
        refine .inr ⟨rfl, hne, .inr ⟨a, thread, messages, rfl, hne,
          fun hb => hboth ((befriended_min_max _ _).mpr hb), ha, hrows.1, hrows.2,
          fun u v hu hv => ?_, fun u v => ?_, ?_, hmap, ?_⟩⟩
        · rw [hfriends u v, hfriend]
          · exact fun h => ((pair_min_max _ _ _ _).mp (.inl h)).elim hu hv
          · exact fun h => ((pair_min_max _ _ _ _).mp (.inr h)).elim hu hv
        · rw [happly, happlications]
        · refine ⟨hpaired.row, fun t ht => hpaired.reused t ?_, fun u v huv => ?_⟩
          · rw [hchats, ht]
          · rw [hpaired.rest u v huv, hchats]
        · exact ⟨fun p hp => (hmessages p.1).symm.trans (hstored.fresh p hp), hstored.stored,
            hstored.nodup, fun id hid => (hstored.rest id hid).trans (hmessages id)⟩

end CppChat.Relations
