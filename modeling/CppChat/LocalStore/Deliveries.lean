import CppChat.LocalStore.Acceptance

/-! # Runs of deliveries

The confirmed rows and the newest summary after any sequence of `SaveMessages` calls, as
functions of the set of messages the calls hand to the store. A call is accepted whole
unless it is interrupted, brings a page that does not continue at the cursor of its thread,
or a message that the store cannot place; none of this depends on the rows stored before.
Two sequences that deliver the same messages therefore agree.
-/
namespace CppChat.LocalStore
open Foundation

/-- What the conversation list shows of the newest message. -/
def Conversation.newest (c : Conversation) : Int × String × String :=
  (c.lastServerId, c.lastTime, c.summary)

/-- The newest message of a conversation after the messages `D` were delivered. -/
inductive Newest (D : Set ServerMessage) (c₀ c : Conversation) : Prop
  | kept (hD : ∀ f ∈ D, f.serverId < c₀.lastServerId) (h : c.newest = c₀.newest)
  | moved {f : ServerMessage} (hf : f ∈ D) (hle : c₀.lastServerId ≤ f.serverId)
      (hmax : ∀ g ∈ D, g.serverId ≤ f.serverId) (hid : c.lastServerId = f.serverId)
      (htime : f.time = some c.lastTime) (hsummary : f.summary = some c.summary)

theorem Newest.unique {M D : Set ServerMessage} {c₀ c c' : Conversation} (hM : ServerHistory M)
    (hD : D ⊆ M) (h : Newest D c₀ c) (h' : Newest D c₀ c') : c.newest = c'.newest := by
  cases h with
  | kept hall h =>
    cases h' with
    | kept _ h' => exact h.trans h'.symm
    | moved hf hle => exact absurd (hall _ hf) (not_lt.mpr hle)
  | @moved f hf hle hmax hid htime hsummary =>
    cases h' with
    | kept hall => exact absurd (hall _ hf) (not_lt.mpr hle)
    | @moved g hg hle' hmax' hid' htime' hsummary' =>
      obtain rfl : f = g :=
        hM.serverId_inj f (hD hf) g (hD hg) ((hmax' f hf).antisymm (hmax g hg))
      have ht : c.lastTime = c'.lastTime := Option.some_inj.mp (htime.symm.trans htime')
      have hs : c.summary = c'.summary := Option.some_inj.mp (hsummary.symm.trans hsummary')
      rw [Conversation.newest, Conversation.newest, ht, hs, hid, hid']

theorem Newest.lastServerId_le {D : Set ServerMessage} {c₀ c : Conversation} (h : Newest D c₀ c) :
    c₀.lastServerId ≤ c.lastServerId ∧ ∀ f ∈ D, f.serverId ≤ c.lastServerId := by
  cases h with
  | kept hall h =>
    have hid : c.lastServerId = c₀.lastServerId := congrArg Prod.fst h
    exact ⟨hid.ge, fun f hf => hid ▸ (hall f hf).le⟩
  | moved _ hle hmax hid => exact ⟨hid ▸ hle, hid ▸ hmax⟩

/-- A message at or above the newest one becomes the newest. -/
theorem Newest.insert {D : Set ServerMessage} {c₀ c c' : Conversation} {f : ServerMessage}
    (h : Newest D c₀ c) (hle : c.lastServerId ≤ f.serverId) (hid : c'.lastServerId = f.serverId)
    (htime : f.time = some c'.lastTime) (hsummary : f.summary = some c'.summary) :
    Newest (D ∪ {f}) c₀ c' := by
  obtain ⟨h₀, hD⟩ := h.lastServerId_le
  refine .moved (.inr rfl) (h₀.trans hle) ?_ hid htime hsummary
  rintro g (hg | rfl)
  · exact (hD g hg).trans hle
  · exact le_rfl

/-- A message below the newest one leaves it. -/
theorem Newest.insert_below {D : Set ServerMessage} {c₀ c : Conversation} {f : ServerMessage}
    (h : Newest D c₀ c) (hlt : f.serverId < c.lastServerId) : Newest (D ∪ {f}) c₀ c := by
  cases h with
  | kept hall h =>
    have hid : c.lastServerId = c₀.lastServerId := congrArg Prod.fst h
    refine .kept ?_ h
    rintro g (hg | rfl)
    · exact hall g hg
    · exact hid ▸ hlt
  | moved hf hle hmax hid htime hsummary =>
    refine .moved (.inl hf) hle ?_ hid htime hsummary
    rintro g (hg | rfl)
    · exact hmax g hg
    · exact hid ▸ hlt.le

namespace Database

variable {db db' db₀ : Database} {m : StoredMessage} {result : SaveResult} {t : Int}
  {M D : Set ServerMessage}

/-- The store after the messages `D` of the thread were delivered to `db₀`. -/
structure Delivered (db₀ : Database) (t : Int) (D : Set ServerMessage) (db : Database) : Prop where
  confirmed : db.confirmedRows t = db₀.confirmedRows t ∪ ServerMessage.row '' D
  deleted : ∀ s, db.isDeleted t s ↔ db₀.isDeleted t s
  conversation : ∀ c, db.conversation? t = some c → ∃ c₀, db₀.conversation? t = some c₀ ∧
    c.hiddenBeforeId = c₀.hiddenBeforeId ∧ Newest D c₀ c
  exists_conversation : ∀ c₀, db₀.conversation? t = some c₀ → ∃ c, db.conversation? t = some c

theorem Delivered.refl (db : Database) (t : Int) : Delivered db t ∅ db where
  confirmed := by rw [Set.image_empty, Set.union_empty]
  deleted _ := Iff.rfl
  conversation c hc := ⟨c, hc, rfl, .kept (fun _ hf => absurd hf (Set.notMem_empty _)) rfl⟩
  exists_conversation c hc := ⟨c, hc⟩

theorem Delivered.congr (h : Delivered db₀ t D db) (hconv : db'.conversations = db.conversations)
    (hmsgs : db'.messages = db.messages) (hdel : db'.deletedMessages = db.deletedMessages) :
    Delivered db₀ t D db' where
  confirmed := by
    rw [confirmedRows, hmsgs]
    exact h.confirmed
  deleted s := by
    rw [isDeleted, hdel]
    exact h.deleted s
  conversation c hc := by
    rw [conversation?, hconv] at hc
    exact h.conversation c hc
  exists_conversation c hc := by
    rw [conversation?, hconv]
    exact h.exists_conversation c hc

theorem Delivered.visible_iff (h : Delivered db₀ t D db) (f : ServerMessage) :
    db.Visible t f ↔ db₀.Visible t f := by
  unfold Visible
  rw [h.deleted]
  refine and_congr_left fun _ => ⟨fun hv c₀ hc₀ => ?_, fun hv c hc => ?_⟩
  · obtain ⟨c, hc⟩ := h.exists_conversation c₀ hc₀
    obtain ⟨c₁, hc₁, hh, -⟩ := h.conversation c hc
    rw [hc₀] at hc₁
    cases hc₁
    exact hh ▸ hv c hc
  · obtain ⟨c₀, hc₀, hh, -⟩ := h.conversation c hc
    exact hh ▸ hv c₀ hc₀

theorem Delivered.added_eq (h : Delivered db₀ t D db) (m : StoredMessage) :
    db.added t m = db₀.added t m := by
  ext f
  simp only [added, Set.mem_ofPred_eq, h.visible_iff]

/-- The conversation after one save: moved forward by a newer visible message, else kept. -/
theorem saveMessage_newest {c₀ c c' : Conversation} (h : db.saveMessage m = .ok (result, db'))
    (hc : db.conversation? t = some c) (hc' : db'.conversation? t = some c')
    (hn : Newest D c₀ c) : c'.hiddenBeforeId = c.hiddenBeforeId ∧ Newest (D ∪ db.added t m) c₀ c' := by
  have hsame : db' = db ∨ db' = db.removePending m → db.added t m = ∅ →
      c'.hiddenBeforeId = c.hiddenBeforeId ∧ Newest (D ∪ db.added t m) c₀ c' := by
    rintro hdb hempty
    have hcc : db'.conversation? t = db.conversation? t := by
      rcases hdb with hdb | hdb <;> rw [hdb]
      rfl
    rw [hcc, hc] at hc'
    cases hc'
    rw [hempty, Set.union_empty]
    exact ⟨rfl, hn⟩
  obtain ⟨-, c₁, hc₁, hcases⟩ := saveMessage_cases h
  rcases hcases with ⟨-, hle, -, hdb⟩ | ⟨-, -, hdel, -, hdb⟩ | ⟨hvisible, hmerge⟩
  · refine hsame (.inr hdb) (Set.eq_empty_of_forall_notMem ?_)
    rintro f ⟨rfl, rfl, -, hv⟩
    exact absurd hle (not_le.mpr (hv.1 c₁ hc₁))
  · refine hsame (.inl hdb) (Set.eq_empty_of_forall_notMem ?_)
    rintro f ⟨rfl, rfl, -, hv⟩
    exact hv.2 hdel
  · rcases mergeMessage_cases hmerge with ⟨_, -, -, -, hle, -, hdb⟩ | ⟨w, -, hwrote⟩
    · refine hsame (.inl hdb) (Set.eq_empty_of_forall_notMem ?_)
      rintro f ⟨-, -, hpos, -⟩
      exact absurd hpos (not_lt.mpr hle)
    · rcases hwrote.conversation t with ⟨heq, hbelow⟩ | ⟨hpos, rfl, c₂, _, _, hc₂, hle, htime, hsum, hnew⟩
      · rw [heq, hc] at hc'
        cases hc'
        refine ⟨rfl, ?_⟩
        by_cases hadd : m.facts ∈ db.added t m
        · have hone : db.added t m = {m.facts} :=
            Set.Subset.antisymm (fun f hf => hf.1) (Set.singleton_subset_iff.mpr hadd)
          rw [hone]
          exact hn.insert_below (hbelow hadd.2.2.1 hadd.2.1.symm c hc)
        · have hempty : db.added t m = ∅ :=
            Set.eq_empty_of_forall_notMem fun f hf => hadd (hf.1 ▸ hf)
          rw [hempty, Set.union_empty]
          exact hn
      · rw [hc] at hc₂
        cases hc₂
        rw [hnew] at hc'
        cases hc'
        have hadd : m.facts ∈ db.added m.threadId m := by
          refine ⟨rfl, rfl, hpos, fun c₃ hc₃ => ?_, (hvisible hpos).2⟩
          rw [hc₁] at hc₃
          cases hc₃
          exact (hvisible hpos).1
        have hone : db.added m.threadId m = {m.facts} :=
          Set.Subset.antisymm (fun f hf => hf.1) (Set.singleton_subset_iff.mpr hadd)
        rw [hone]
        exact ⟨rfl, hn.insert hle rfl htime hsum⟩

theorem saveMessage_exists_conversation (h : db.saveMessage m = .ok (result, db')) (t : Int) :
    (∀ c, db.conversation? t = some c → ∃ c', db'.conversation? t = some c') ∧
      ∀ c', db'.conversation? t = some c' → ∃ c, db.conversation? t = some c := by
  refine ⟨fun c hc => ?_, fun c' hc' => ?_⟩
  · obtain ⟨c', hc', -⟩ := (saveMessage_preserves h).grows t c hc
    exact ⟨c', hc'⟩
  · obtain ⟨-, c₁, hc₁, hcases⟩ := saveMessage_cases h
    rcases hcases with ⟨-, -, -, hdb⟩ | ⟨-, -, -, -, hdb⟩ | ⟨-, hmerge⟩
    · exact ⟨c', by rw [hdb] at hc'; exact hc'⟩
    · exact ⟨c', hdb ▸ hc'⟩
    · rcases mergeMessage_cases hmerge with ⟨_, -, -, -, -, -, hdb⟩ | ⟨w, -, hwrote⟩
      · exact ⟨c', hdb ▸ hc'⟩
      · obtain ⟨c, hc, -⟩ := hwrote.hidden hc'
        exact ⟨c, hc⟩

theorem Delivered.consistent (hcons : Consistent M t db₀) (hD : D ⊆ M) (h : Delivered db₀ t D db) :
    Consistent M t db := by
  unfold Consistent
  rw [h.confirmed]
  exact Set.union_subset hcons (Set.image_mono hD)

/-- One save delivers its message when it is a visible message of the thread. -/
theorem Delivered.save (hM : ServerHistory M) (hcons : Consistent M t db₀) (hD : D ⊆ M)
    (h : Delivered db₀ t D db) (hm : m.threadId = t → 0 < m.serverId → m.facts ∈ M)
    (hsave : db.saveMessage m = .ok (result, db')) : Delivered db₀ t (D ∪ db₀.added t m) db' where
  confirmed := by
    rw [saveMessage_confirmedRows hM (h.consistent hcons hD) hm hsave, h.confirmed, h.added_eq,
      Set.image_union, Set.union_assoc]
  deleted s := ((saveMessage_elsewhere hsave).isDeleted t s).trans (h.deleted s)
  conversation c' hc' := by
    obtain ⟨c, hc⟩ := (saveMessage_exists_conversation hsave t).2 c' hc'
    obtain ⟨c₀, hc₀, hh, hn⟩ := h.conversation c hc
    obtain ⟨hh', hn'⟩ := saveMessage_newest hsave hc hc' hn
    exact ⟨c₀, hc₀, hh'.trans hh, h.added_eq m ▸ hn'⟩
  exists_conversation c₀ hc₀ := by
    obtain ⟨c, hc⟩ := h.exists_conversation c₀ hc₀
    exact (saveMessage_exists_conversation hsave t).1 c hc

/-- The visible messages of the thread among those handed to the store. -/
def deliveries (db₀ : Database) (t : Int) (ms : List StoredMessage) : Set ServerMessage :=
  {f | ∃ m ∈ ms, f ∈ db₀.added t m}

theorem deliveries_append (ms ms' : List StoredMessage) :
    db₀.deliveries t (ms ++ ms') = db₀.deliveries t ms ∪ db₀.deliveries t ms' := by
  ext f
  simp only [deliveries, List.mem_append, Set.mem_union, Set.mem_ofPred_eq, or_and_right, exists_or]

theorem Delivered.conversation_isSome (h : Delivered db₀ t D db) :
    (db.conversation? t).isSome ↔ (db₀.conversation? t).isSome := by
  simp only [Option.isSome_iff_exists]
  constructor
  · rintro ⟨c, hc⟩
    obtain ⟨c₀, hc₀, -⟩ := h.conversation c hc
    exact ⟨c₀, hc₀⟩
  · rintro ⟨c₀, hc₀⟩
    exact h.exists_conversation c₀ hc₀

/-- A message with an identity, of a conversation the store has. -/
def Places (db : Database) (m : StoredMessage) : Prop :=
  m.HasIdentity ∧ (db.conversation? m.threadId).isSome

instance (db : Database) : DecidablePred db.Places := fun _ => inferInstanceAs (Decidable (_ ∧ _))

/-- The messages handed in belong to the histories of their threads. -/
def FromHistories (M : Int → Set ServerMessage) (ms : List StoredMessage) : Prop :=
  ∀ m ∈ ms, 0 < m.serverId → m.facts ∈ M m.threadId

end Database

/-- The histories of all threads, each message with its time and its text. -/
structure Histories (M : Int → Set ServerMessage) : Prop where
  history : ∀ t, ServerHistory (M t)
  text : ∀ t, ∀ f ∈ M t, f.HasText

namespace Database

variable {db db' db₀ : Database} {t : Int} {M D : Int → Set ServerMessage}

theorem deliveries_subset {ms : List StoredMessage} (hms : FromHistories M ms) :
    db₀.deliveries t ms ⊆ M t := by
  rintro f ⟨m, hm, rfl, rfl, hpos, -⟩
  exact hms m hm hpos

/-- The store accepts every list of messages that it can place, and delivers all of them. -/
theorem saveAll_accepts (hM : Histories M) (hcons : ∀ t, Consistent (M t) t db₀)
    {ms : List StoredMessage} (hplaces : ∀ m ∈ ms, db₀.Places m) (hms : FromHistories M ms)
    (hD : ∀ t, D t ⊆ M t) (h : ∀ t, Delivered db₀ t (D t) db) :
    ∃ reply db', db.saveAll ms = .ok (reply, db') ∧
      ∀ t, Delivered db₀ t (D t ∪ db₀.deliveries t ms) db' := by
  induction ms generalizing db D with
  | nil =>
    refine ⟨{}, db, rfl, fun t => ?_⟩
    have hnil : db₀.deliveries t [] = ∅ := by simp [deliveries]
    rw [hnil, Set.union_empty]
    exact h t
  | cons m ms ih =>
    have hm := hms m List.mem_cons_self
    obtain ⟨hid, hconv⟩ := hplaces m List.mem_cons_self
    obtain ⟨outcome, db1, h1⟩ := saveMessage_accepts (hM.history m.threadId)
      ((h m.threadId).consistent (hcons _) (hD _)) hid ((h m.threadId).conversation_isSome.mpr hconv)
      fun hpos => ⟨hm hpos, hM.text _ _ (hm hpos)⟩
    have hadd : ∀ t, db₀.added t m ⊆ M t := by
      rintro t f ⟨rfl, rfl, hpos, -⟩
      exact hm hpos
    have hone : ∀ t, Delivered db₀ t (D t ∪ db₀.added t m) db1 := fun t =>
      (h t).save (hM.history t) (hcons t) (hD t) (fun ht hpos => ht ▸ hm hpos) h1
    obtain ⟨reply, db2, h2, hall⟩ := ih (fun x hx => hplaces x (List.mem_cons_of_mem _ hx))
      (fun x hx => hms x (List.mem_cons_of_mem _ hx))
      (fun t => Set.union_subset (hD t) (hadd t)) hone
    refine ⟨_, db2, bind_eq_ok.mpr ⟨_, h1, bind_eq_ok.mpr ⟨_, h2, rfl⟩⟩, fun t => ?_⟩
    have hset : db₀.deliveries t (m :: ms) = db₀.added t m ∪ db₀.deliveries t ms := by
      ext f
      simp [deliveries]
    rw [hset, ← Set.union_assoc]
    exact hall t

/-- A list with a message that the store cannot place is refused. -/
theorem places_of_saveAll {ms : List StoredMessage} {reply : ChatStoreResult}
    (h : db.saveAll ms = .ok (reply, db')) : ∀ m ∈ ms, db.Places m := by
  induction ms generalizing db reply with
  | nil => exact fun m hm => nomatch hm
  | cons m ms ih =>
    obtain ⟨⟨outcome, db1⟩, h1, h⟩ := bind_eq_ok.mp h
    obtain ⟨⟨reply', db2⟩, h2, h⟩ := bind_eq_ok.mp h
    cases h
    obtain ⟨hid, c, hc, -⟩ := saveMessage_cases h1
    intro x hx
    rcases List.mem_cons.mp hx with rfl | hx
    · exact ⟨hid, Option.isSome_iff_exists.mpr ⟨c, hc⟩⟩
    · obtain ⟨hid, hconv⟩ := ih h2 x hx
      obtain ⟨c', hc'⟩ := Option.isSome_iff_exists.mp hconv
      exact ⟨hid, Option.isSome_iff_exists.mpr
        ((saveMessage_exists_conversation h1 x.threadId).2 c' hc')⟩

end Database

/-- One call of `SaveMessages`; an interrupted one delivers nothing. -/
structure Delivery where
  messages : List StoredMessage
  syncThread : Int
  cursor : Int
  clearDraftThread : Int
  interrupted : Bool

namespace Delivery

def call (d : Delivery) : Call :=
  ⟨.saveMessages d.messages d.syncThread d.cursor d.clearDraftThread, d.interrupted⟩

/-- A history page continues at the cursor of its thread; any other call has none. -/
def Continues (cursors : Int → Int) (d : Delivery) : Prop :=
  0 < d.syncThread →
    checkPageOrder d.syncThread (cursors d.syncThread) d.messages = .ok d.cursor

instance (cursors : Int → Int) (d : Delivery) : Decidable (d.Continues cursors) :=
  inferInstanceAs (Decidable (_ → _))

def advance (cursors : Int → Int) (d : Delivery) : Int → Int :=
  if 0 < d.syncThread ∧ 0 ≤ d.cursor then
    Function.update cursors d.syncThread (max (cursors d.syncThread) d.cursor)
  else cursors

/-- Neither interrupted nor out of order, and with a place for each message. -/
def Arrives (db : Database) (cursors : Int → Int) (d : Delivery) : Prop :=
  d.interrupted = false ∧ d.Continues cursors ∧ ∀ m ∈ d.messages, db.Places m

instance (db : Database) (cursors : Int → Int) (d : Delivery) : Decidable (d.Arrives db cursors) :=
  inferInstanceAs (Decidable (_ ∧ _ ∧ _))

end Delivery

namespace Database

variable {db db' db₀ : Database} {t : Int} {M D : Int → Set ServerMessage}

theorem checkHistoryPage_iff (d : Delivery) :
    db.checkHistoryPage d.messages d.syncThread d.cursor = .ok () ↔
      d.Continues db.confirmedCursor := by
  unfold checkHistoryPage Delivery.Continues
  by_cases hsync : 0 < d.syncThread
  · rw [if_pos hsync, bind_eq_ok]
    constructor
    · rintro ⟨last, hlast, hcursor⟩ -
      split at hcursor
      next heq => rw [hlast, heq]
      next => cases hcursor
    · exact fun h => ⟨d.cursor, h hsync, if_pos rfl⟩
  · rw [if_neg hsync]
    exact iff_of_true rfl fun h => absurd h hsync

def deliver (db : Database) (ds : List Delivery) : Database :=
  ds.foldl (fun db d => d.call.run db) db

/-- The messages that the calls of a run hand to the store: each call counts when it arrives
at the cursors that the counted calls before it left. -/
def handedAt (db : Database) : (Int → Int) → List Delivery → List StoredMessage
  | _, [] => []
  | cursors, d :: ds =>
    if d.Arrives db cursors then d.messages ++ db.handedAt (d.advance cursors) ds
    else db.handedAt cursors ds

def handed (db : Database) (ds : List Delivery) : List StoredMessage :=
  db.handedAt db.confirmedCursor ds

theorem mem_of_handedAt {m : StoredMessage} {cursors : Int → Int} {ds : List Delivery}
    (h : m ∈ db.handedAt cursors ds) : ∃ d ∈ ds, m ∈ d.messages := by
  induction ds generalizing cursors with
  | nil => cases h
  | cons d ds ih =>
    unfold handedAt at h
    split at h
    · rcases List.mem_append.mp h with h | h
      · exact ⟨d, List.mem_cons_self, h⟩
      · obtain ⟨d', hd', hm⟩ := ih h
        exact ⟨d', List.mem_cons_of_mem _ hd', hm⟩
    · obtain ⟨d', hd', hm⟩ := ih h
      exact ⟨d', List.mem_cons_of_mem _ hd', hm⟩

/-- A call of the store is accepted exactly when its page continues and every message of it
has a place. -/
theorem saveMessages_accepts_iff (hM : Histories M) (hcons : ∀ t, Consistent (M t) t db₀)
    {d : Delivery} (hd : FromHistories M d.messages) (hD : ∀ t, D t ⊆ M t)
    (h : ∀ t, Delivered db₀ t (D t) db) :
    (∃ reply db', db.saveMessages d.messages d.syncThread d.cursor d.clearDraftThread =
        .ok (reply, db')) ↔ d.Continues db.confirmedCursor ∧ ∀ m ∈ d.messages, db₀.Places m := by
  constructor
  · rintro ⟨reply, db', hsave⟩
    obtain ⟨hcheck, db1, hall, -⟩ := saveMessages_eq hsave
    refine ⟨(checkHistoryPage_iff d).mp hcheck, fun m hm => ?_⟩
    obtain ⟨hid, hconv⟩ := places_of_saveAll hall m hm
    exact ⟨hid, (h m.threadId).conversation_isSome.mp hconv⟩
  · rintro ⟨hcont, hplaces⟩
    obtain ⟨reply, db1, hall, -⟩ := saveAll_accepts hM hcons hplaces hd hD h
    exact ⟨_, _, bind_eq_ok.mpr ⟨(), (checkHistoryPage_iff d).mpr hcont,
      bind_eq_ok.mpr ⟨_, hall, rfl⟩⟩⟩

/-- A call that arrives delivers all its messages and moves the cursor of its thread. -/
theorem Delivered.call (hM : Histories M) (hcons : ∀ t, Consistent (M t) t db₀)
    {d : Delivery} (hd : FromHistories M d.messages) (hD : ∀ t, D t ⊆ M t)
    (h : ∀ t, Delivered db₀ t (D t) db) (harrives : d.Arrives db₀ db.confirmedCursor) :
    (∀ t, Delivered db₀ t (D t ∪ db₀.deliveries t d.messages) (d.call.run db)) ∧
      (d.call.run db).confirmedCursor = d.advance db.confirmedCursor := by
  obtain ⟨hrun, hcont, hplaces⟩ := harrives
  obtain ⟨reply, db1, hall, hdelivered⟩ := saveAll_accepts hM hcons hplaces hd hD h
  have hsave : db.saveMessages d.messages d.syncThread d.cursor d.clearDraftThread =
      .ok (reply, (db1.advanceCursor d.syncThread d.cursor).clearDraft d.clearDraftThread) :=
    bind_eq_ok.mpr ⟨(), (checkHistoryPage_iff d).mpr hcont, bind_eq_ok.mpr ⟨_, hall, rfl⟩⟩
  have hcall : d.call.run db =
      (db1.advanceCursor d.syncThread d.cursor).clearDraft d.clearDraftThread := by
    unfold Delivery.call Call.run
    simp only [hrun, Bool.false_eq_true, if_false, Operation.run, hsave]
    rfl
  rw [hcall]
  refine ⟨fun t => ?_, funext fun t => ?_⟩
  · obtain ⟨hconv, hmsgs, hdel⟩ := db1.finish_tables d.syncThread d.cursor d.clearDraftThread
    exact (hdelivered t).congr hconv hmsgs hdel
  · rw [saveMessages_cursor hsave]
    unfold Delivery.advance
    by_cases hsync : 0 < d.syncThread ∧ 0 ≤ d.cursor
    · rw [if_pos hsync, Function.update_apply]
      simp only [hsync, and_true]
    · rw [if_neg hsync, if_neg fun hc => hsync hc.2]

/-- Any other call leaves the store. -/
theorem run_of_not_arrives (hM : Histories M) (hcons : ∀ t, Consistent (M t) t db₀)
    {d : Delivery} (hd : FromHistories M d.messages) (hD : ∀ t, D t ⊆ M t)
    (h : ∀ t, Delivered db₀ t (D t) db) (harrives : ¬ d.Arrives db₀ db.confirmedCursor) :
    d.call.run db = db := by
  unfold Delivery.call Call.run
  by_cases hi : d.interrupted = true
  · simp only [hi, if_true]
  · rw [Bool.not_eq_true] at hi
    simp only [hi, Bool.false_eq_true, if_false, Operation.run]
    cases hsave : db.saveMessages d.messages d.syncThread d.cursor d.clearDraftThread with
    | error e => rfl
    | ok p =>
      exact absurd ⟨hi, (saveMessages_accepts_iff hM hcons hd hD h).mp ⟨p.1, p.2, hsave⟩⟩ harrives

theorem Delivered.deliver (hM : Histories M) (hcons : ∀ t, Consistent (M t) t db₀)
    {ds : List Delivery} (hds : ∀ d ∈ ds, FromHistories M d.messages) (hD : ∀ t, D t ⊆ M t)
    (h : ∀ t, Delivered db₀ t (D t) db) (t : Int) :
    Delivered db₀ t (D t ∪ db₀.deliveries t (db₀.handedAt db.confirmedCursor ds))
      (db.deliver ds) := by
  induction ds generalizing db D with
  | nil =>
    have hnil : db₀.deliveries t [] = ∅ := by simp [deliveries]
    rw [handedAt, hnil, Set.union_empty]
    exact h t
  | cons d ds ih =>
    have hd := hds d List.mem_cons_self
    have hrest : ∀ x ∈ ds, FromHistories M x.messages := fun x hx =>
      hds x (List.mem_cons_of_mem _ hx)
    unfold handedAt
    by_cases harrives : d.Arrives db₀ db.confirmedCursor
    · obtain ⟨hone, hcursor⟩ := Delivered.call hM hcons hd hD h harrives
      rw [if_pos harrives, deliveries_append, ← Set.union_assoc, ← hcursor]
      exact ih hrest (fun t => Set.union_subset (hD t) (deliveries_subset hd)) hone
    · have hrun := run_of_not_arrives hM hcons hd hD h harrives
      rw [if_neg harrives]
      have hstep : db.deliver (d :: ds) = db.deliver ds := by
        rw [Database.deliver, List.foldl_cons, hrun]
        rfl
      rw [hstep]
      exact ih hrest hD h

/-- Of the calls of a run, exactly those whose page continues and whose messages have a
place are accepted. -/
def Accepts (db : Database) (ds : List Delivery) : Prop :=
  ∀ before d after, ds = before ++ d :: after →
    ((∃ reply db', (db.deliver before).saveMessages d.messages d.syncThread d.cursor
        d.clearDraftThread = .ok (reply, db')) ↔
      d.Continues (db.deliver before).confirmedCursor ∧ ∀ m ∈ d.messages, db.Places m)

theorem accepts_of_histories (hM : Histories M) (hcons : ∀ t, Consistent (M t) t db)
    {ds : List Delivery} (hds : ∀ d ∈ ds, FromHistories M d.messages) : db.Accepts ds := by
  rintro before d after rfl
  have hbefore : ∀ x ∈ before, FromHistories M x.messages := fun x hx =>
    hds x (List.mem_append_left _ hx)
  have hrun := Delivered.deliver hM hcons hbefore (fun _ => Set.empty_subset _) (Delivered.refl db)
  refine saveMessages_accepts_iff hM hcons
    (hds d (List.mem_append_right _ List.mem_cons_self)) (fun t => ?_) hrun
  rw [Set.empty_union]
  refine deliveries_subset fun m hm => ?_
  obtain ⟨x, hx, hmx⟩ := mem_of_handedAt hm
  exact hbefore x hx m hmx

/-- Every visible message of the thread that a run handed in is its one confirmed row, and
nothing of it is left pending. -/
def Complete (db : Database) (t : Int) (ds : List Delivery) : Prop :=
  ∀ m ∈ db.handed ds, m.threadId = t → 0 < m.serverId → db.Visible t m.facts →
    m.facts.row ∈ (db.deliver ds).confirmedRows t ∧
      ((db.deliver ds).messages.rows.filter fun r =>
        r.threadId = t ∧ r.serverId = some m.serverId).length = 1 ∧
      (m.uniqueId ≠ "" → (db.deliver ds).Settled m)

theorem length_filter_serverId {r : MessageRow} {s : Int} (hr : r ∈ db.messages.rows)
    (ht : r.threadId = t) (hs : r.serverId = some s) :
    (db.messages.rows.filter fun r => r.threadId = t ∧ r.serverId = some s).length = 1 := by
  refine le_antisymm ?_ (List.length_pos_of_mem (List.mem_filter.mpr ⟨hr, by simp [ht, hs]⟩))
  refine db.messages.length_filter_le_one fun a b ha hb => ?_
  simp only [decide_eq_true_eq] at ha hb
  refine .inr (.inl ⟨ha.1.trans hb.1.symm, ?_, ha.2.trans hb.2.symm⟩)
  rw [ha.2]
  exact Option.some_ne_none s

theorem Delivered.complete {ds : List Delivery}
    (h : Delivered db₀ t (db₀.deliveries t (db₀.handed ds)) (db₀.deliver ds)) :
    Complete db₀ t ds := by
  intro m hm ht hpos hvis
  have hrow : m.facts.row ∈ (db₀.deliver ds).confirmedRows t := by
    rw [h.confirmed]
    exact .inr ⟨m.facts, ⟨m, hm, rfl, ht, hpos, hvis⟩, rfl⟩
  obtain ⟨r, hr, hrt, hv⟩ := hrow
  obtain ⟨hserver, hsender, huuid⟩ := confirmed?_eq_some hv
  refine ⟨⟨r, hr, hrt, hv⟩, length_filter_serverId hr hrt hserver, fun hu => ?_⟩
  have huuid : r.uniqueId = some m.uniqueId := huuid.trans (if_neg hu)
  intro r' hr' ht' hs' hu'
  have hne : r'.uniqueId ≠ none := hu' ▸ Option.some_ne_none _
  have heq : r' = r := eq_of_clash hr' hr (.inr (.inr ⟨ht'.trans (ht.trans hrt.symm),
    hs'.trans hsender.symm, hne, hu'.trans huuid.symm⟩))
  rw [heq, hserver]
  exact Option.some_ne_none _

theorem Delivered.newest_eq {M D : Set ServerMessage} (hM : ServerHistory M) (hD : D ⊆ M)
    (h : Delivered db₀ t D db) (h' : Delivered db₀ t D db') :
    (db.conversation? t).map Conversation.newest = (db'.conversation? t).map Conversation.newest := by
  cases hc₀ : db₀.conversation? t with
  | none =>
    have hnone : ∀ {db}, Delivered db₀ t D db → db.conversation? t = none := by
      intro db h
      refine Option.eq_none_iff_forall_not_mem.mpr fun c hc => ?_
      obtain ⟨c₀, hc₁, -⟩ := h.conversation c hc
      rw [hc₀] at hc₁
      cases hc₁
    rw [hnone h, hnone h']
  | some c₀ =>
    obtain ⟨c, hc⟩ := h.exists_conversation c₀ hc₀
    obtain ⟨c', hc'⟩ := h'.exists_conversation c₀ hc₀
    obtain ⟨c₁, hc₁, -, hn⟩ := h.conversation c hc
    obtain ⟨c₂, hc₂, -, hn'⟩ := h'.conversation c' hc'
    rw [hc₀] at hc₁ hc₂
    cases hc₁
    cases hc₂
    rw [hc, hc', Option.map_some, Option.map_some, hn.unique hM hD hn']

end Database

open Database

/-- Two runs of calls that hand in the same messages of a thread end with the same
confirmed rows and the same newest message, each message handed in stored once and
nothing of it pending. -/
theorem delivery_order_independent {db : Database} {M : Int → Set ServerMessage}
    (hM : Histories M) (hcons : ∀ t, Consistent (M t) t db) {ds ds' : List Delivery}
    (hds : ∀ d ∈ ds, FromHistories M d.messages) (hds' : ∀ d ∈ ds', FromHistories M d.messages)
    (t : Int)
    (hsame : ∀ f, (∃ m ∈ db.handed ds, m.threadId = t ∧ 0 < m.serverId ∧ m.facts = f) ↔
      ∃ m ∈ db.handed ds', m.threadId = t ∧ 0 < m.serverId ∧ m.facts = f) :
    (db.deliver ds).confirmedRows t = (db.deliver ds').confirmedRows t ∧
      ((db.deliver ds).conversation? t).map Conversation.newest =
        ((db.deliver ds').conversation? t).map Conversation.newest ∧
      Complete db t ds ∧ Complete db t ds' ∧ Accepts db ds ∧ Accepts db ds' := by
  have hrun : ∀ {ds : List Delivery}, (∀ d ∈ ds, FromHistories M d.messages) →
      Delivered db t (db.deliveries t (db.handed ds)) (db.deliver ds) := by
    intro ds hds
    have h := Delivered.deliver hM hcons hds (fun _ => Set.empty_subset _) (Delivered.refl db) t
    rwa [Set.empty_union] at h
  have hset : db.deliveries t (db.handed ds) = db.deliveries t (db.handed ds') := by
    have hle : ∀ ms ms' : List StoredMessage,
        (∀ f, (∃ m ∈ ms, m.threadId = t ∧ 0 < m.serverId ∧ m.facts = f) →
          ∃ m ∈ ms', m.threadId = t ∧ 0 < m.serverId ∧ m.facts = f) →
        db.deliveries t ms ⊆ db.deliveries t ms' := by
      rintro ms ms' h f ⟨m, hm, rfl, ht, hpos, hvis⟩
      obtain ⟨m', hm', ht', hpos', hf⟩ := h m.facts ⟨m, hm, ht, hpos, rfl⟩
      exact ⟨m', hm', hf.symm, ht', hpos', hvis⟩
    exact Set.Subset.antisymm (hle _ _ fun f => (hsame f).mp) (hle _ _ fun f => (hsame f).mpr)
  have hD : db.deliveries t (db.handed ds') ⊆ M t := by
    refine deliveries_subset fun m hm => ?_
    obtain ⟨d, hd, hmd⟩ := mem_of_handedAt hm
    exact hds' d hd m hmd
  have hleft := hrun hds
  have hright := hrun hds'
  have hcomplete := hleft.complete
  rw [hset] at hleft
  refine ⟨?_, hleft.newest_eq (hM.history t) hD hright, hcomplete, hright.complete,
    accepts_of_histories hM hcons hds, accepts_of_histories hM hcons hds'⟩
  rw [hleft.confirmed, hright.confirmed]

/-! ## A sample pair of runs -/

def otherMessage : StoredMessage := { sampleMessage 6 with uniqueId := "" }

def sampleConversation : Database := (create 5).saveConversation ⟨1, 8, 0, none, none, ""⟩

/-- The pending save first, a history page next, the acknowledgement last. -/
def sampleRun : List Delivery :=
  [⟨[sampleMessage 0], 0, -1, 1, false⟩, ⟨[sampleMessage 5, otherMessage], 1, 6, 0, false⟩,
    ⟨[sampleMessage 5], 0, -1, 0, false⟩]

/-- A live notification, a rejected page, the acknowledgement, and a late pending save. -/
def reorderedRun : List Delivery :=
  [⟨[otherMessage], 0, -1, 0, false⟩, ⟨[otherMessage], 1, 5, 0, false⟩,
    ⟨[sampleMessage 5], 0, -1, 0, false⟩, ⟨[sampleMessage 0], 0, -1, 1, false⟩]

def sampleHistories : Int → Set ServerMessage :=
  fun _ => {(sampleMessage 5).facts, otherMessage.facts}

theorem sampleHistories_spec : Histories sampleHistories := by
  refine ⟨fun _ => ⟨?_, ?_, ?_⟩, fun _ => ?_⟩
  · rintro f (rfl | rfl) <;> decide
  · rintro f (rfl | rfl) g (rfl | rfl) <;> decide
  · rintro f (rfl | rfl) g (rfl | rfl) <;> decide
  · rintro f (rfl | rfl) <;> decide

/-- Both messages end as confirmed rows of both runs. -/
theorem delivery_order_independent_sample :
    ({(sampleMessage 5).facts.row, otherMessage.facts.row} : Set ConfirmedRow) ⊆
        (sampleConversation.deliver sampleRun).confirmedRows 1 ∧
      (sampleConversation.deliver sampleRun).confirmedRows 1 =
        (sampleConversation.deliver reorderedRun).confirmedRows 1 ∧
      ((sampleConversation.deliver sampleRun).conversation? 1).map Conversation.newest =
        some (6, (sampleMessage 6).time.getD "", (sampleMessage 6).content.getD "") ∧
      ((sampleConversation.deliver reorderedRun).conversation? 1).map Conversation.newest =
        some (6, (sampleMessage 6).time.getD "", (sampleMessage 6).content.getD "") := by
  have hcons : ∀ t, Consistent (sampleHistories t) t sampleConversation := by
    rintro t v ⟨r, hr, -⟩
    cases hr
  have hmem : ∀ m ∈ [sampleMessage 0, sampleMessage 5, otherMessage], 0 < m.serverId →
      m.facts ∈ sampleHistories m.threadId := by
    intro m hm hpos
    simp only [List.mem_cons, List.not_mem_nil, or_false] at hm
    rcases hm with rfl | rfl | rfl
    · exact absurd hpos (by decide)
    · exact .inl rfl
    · exact .inr rfl
  have hrun : ∀ d ∈ sampleRun, ∀ m ∈ d.messages,
      m ∈ [sampleMessage 0, sampleMessage 5, otherMessage] := by decide
  have hreordered : ∀ d ∈ reorderedRun, ∀ m ∈ d.messages,
      m ∈ [sampleMessage 0, sampleMessage 5, otherMessage] := by decide
  have hhanded : sampleConversation.handed sampleRun =
      [sampleMessage 0, sampleMessage 5, otherMessage, sampleMessage 5] := by decide
  have hhanded' : sampleConversation.handed reorderedRun =
      [otherMessage, sampleMessage 5, sampleMessage 0] := by decide
  have hzero : ¬ 0 < (sampleMessage 0).serverId := by decide
  obtain ⟨hrows, hnewest, hcomplete, -⟩ := delivery_order_independent sampleHistories_spec hcons
    (fun d hd m hm => hmem m (hrun d hd m hm)) (fun d hd m hm => hmem m (hreordered d hd m hm)) 1
    fun f => by
      rw [hhanded, hhanded']
      simp only [List.mem_cons, List.not_mem_nil, or_false, exists_eq_or_imp, exists_eq_left,
        hzero, false_and, and_false, false_or, or_false]
      tauto
  have hmoved : ((sampleConversation.deliver sampleRun).conversation? 1).map Conversation.newest =
      some (6, (sampleMessage 6).time.getD "", (sampleMessage 6).content.getD "") := by decide
  refine ⟨?_, hrows, hmoved, hnewest.symm.trans hmoved⟩
  have hstored : ∀ m ∈ [sampleMessage 5, otherMessage],
      m.facts.row ∈ (sampleConversation.deliver sampleRun).confirmedRows 1 := by
    intro m hm
    have hin : m ∈ sampleConversation.handed sampleRun :=
      hhanded ▸ List.mem_cons_of_mem _ (List.mem_append_left [sampleMessage 5] hm)
    have hplace : m.threadId = 1 ∧ 0 < m.serverId := by
      revert m
      decide
    refine (hcomplete m hin hplace.1 hplace.2 ⟨fun c hc => ?_, by decide +revert⟩).1
    cases hc
    exact hplace.2
  rintro v (rfl | rfl)
  · exact hstored _ List.mem_cons_self
  · exact hstored _ (List.mem_cons_of_mem _ List.mem_cons_self)

end CppChat.LocalStore
