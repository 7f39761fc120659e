import Mathlib.Algebra.GroupWithZero.Nat
import Mathlib.Algebra.Order.BigOperators.Group.List
import Mathlib.Algebra.Order.Group.Nat
import CppChat.Foundation.Table
import CppChat.Foundation.Walk

/-! # Contact and group lists

The login reads the friends and the applications of a user page by page, a hundred rows at a
time, and stops when their encoded size passes the limit of a snapshot. The groups that two
friends share are read a page at a time by the client. Ids are those that fit an `int`.
-/
namespace CppChat.Lists
open Foundation

namespace ErrorCodes

def success : Int := 0
def errorJson : Int := 1001
def tokenInvalid : Int := 1010
def databaseError : Int := 1014
def internalError : Int := 1016
def friendNotFound : Int := 1017

end ErrorCodes

/-! ## The tables -/

structure UserRow where
  id : ℕ
  username : String
  email : String
  nick : String
  profileDescription : String
  sex : Int
  icon : String
  deriving DecidableEq

structure FriendRow where
  selfId : ℕ
  friendId : ℕ
  back : String
  tags : Option String
  deriving DecidableEq

structure ApplyRow where
  id : ℕ
  fromUid : ℕ
  toUid : ℕ
  descs : String
  status : Int
  deriving DecidableEq

structure GroupRow where
  threadId : ℕ
  name : String
  ownerUid : ℕ
  active : Bool
  deriving DecidableEq

structure MemberRow where
  threadId : ℕ
  userId : ℕ
  deriving DecidableEq

/-- The rows under their primary keys; friends and applicants are users, and ids start at 1. -/
structure Database where
  users : Keyed UserRow UserRow.id
  friend : Keyed FriendRow fun f => (f.selfId, f.friendId)
  friendApply : Keyed ApplyRow ApplyRow.id
  groupChat : Keyed GroupRow GroupRow.threadId
  groupChatMember : Keyed MemberRow id
  friend_user : ∀ f ∈ friend.rows, ∃ u ∈ users.rows, u.id = f.friendId
  apply_user : ∀ a ∈ friendApply.rows, ∃ u ∈ users.rows, u.id = a.fromUid
  users_pos : ∀ u ∈ users.rows, 0 < u.id
  apply_pos : ∀ a ∈ friendApply.rows, 0 < a.id
  group_pos : ∀ g ∈ groupChat.rows, 0 < g.threadId

/-! ## The queries -/

structure UserInfo where
  uid : ℕ
  name : String
  email : String
  nick : String
  desc : String
  sex : Int
  icon : String
  back : String
  tagsJson : String
  deriving DecidableEq

structure ApplyInfo where
  id : ℕ
  uid : ℕ
  name : String
  desc : String
  icon : String
  nick : String
  sex : Int
  status : Int
  deriving DecidableEq

/-- `friend AS f JOIN users AS u ON f.friend_id = u.id WHERE f.self_id = ?`. -/
def friendRows (db : Database) (uid : ℕ) : List UserInfo :=
  db.friend.rows.filterMap fun f =>
    if f.selfId = uid then
      (Keyed.lookup db.users f.friendId).map fun u =>
        ⟨u.id, u.username, u.email, u.nick, u.profileDescription, u.sex, u.icon, f.back,
          f.tags.getD "[]"⟩
    else none

/-- `friend_apply AS a JOIN users AS u ON a.from_uid = u.id WHERE a.to_uid = ?`. -/
def applyRows (db : Database) (uid : ℕ) : List ApplyInfo :=
  db.friendApply.rows.filterMap fun a =>
    if a.toUid = uid then
      (Keyed.lookup db.users a.fromUid).map fun u =>
        ⟨a.id, a.fromUid, u.username, a.descs, u.icon, u.nick, u.sex, a.status⟩
    else none

/-- The rows above a cursor, in order, with a limit; nothing when the query fails. -/
def getPage {ρ : Type} (key : ρ → ℕ) (rows : List ρ) (limit : ℕ) (fails : Bool) (cursor : ℕ) :
    Option (List ρ) :=
  if fails then none else some ((Paging.above key rows cursor).take limit)

def getFriendPage (db : Database) (uid : ℕ) := getPage UserInfo.uid (friendRows db uid)

def getApplyList (db : Database) (uid : ℕ) := getPage ApplyInfo.id (applyRows db uid)

/-! ## Encoded rows -/

/-- The members of an item that is sent, and the texts of an array in it. -/
inductive Field
  | number (n : Int)
  | text (s : String)
  | texts (l : List String)

abbrev Item := List (String × Field)

/-- `UserService::WriteProfile`; `parseTags` is `ParseContactTags`. -/
def writeProfile (parseTags : String → List String) (u : UserInfo) : Item :=
  [("uid", .number u.uid), ("name", .text u.name), ("email", .text u.email),
    ("nick", .text u.nick), ("desc", .text u.desc), ("sex", .number u.sex), ("icon", .text u.icon),
    ("back", .text u.back), ("tags", .texts (parseTags u.tagsJson))]

def writeApplication (a : ApplyInfo) : Item :=
  [("uid", .number a.uid), ("name", .text a.name), ("desc", .text a.desc), ("icon", .text a.icon),
    ("nick", .text a.nick), ("sex", .number a.sex), ("status", .number a.status)]

/-- `LoginSnapshot::MaxBytes`. -/
def maxBytes : ℕ := 4 * 1024 * 1024

/-! ## The loops -/

/-- The output of a list: the rows and the error, with the number of pages it asked for. -/
structure Listed (ρ : Type) where
  ok : Bool
  error : Int
  rows : List ρ
  reads : ℕ
  deriving DecidableEq

section Loop
variable {ρ : Type} (key : ρ → ℕ) (size : ρ → ℕ) (fetch : ℕ → ℕ → Option (List ρ))

/-- The inner loop: the bytes so far, unless a row passes the limit. -/
def measure : ℕ → List ρ → Option ℕ
  | bytes, [] => some bytes
  | bytes, r :: rest => if maxBytes < bytes + size r then none else measure (bytes + size r) rest

def pageSize : ℕ := 100

/-- The loop over the pages; `reads` counts them. -/
def readPages : ℕ → ℕ → ℕ → ℕ → List ρ → Option (Listed ρ)
  | 0, _, _, _, _ => none
  | fuel + 1, reads, cursor, bytes, rows =>
    match fetch reads cursor with
    | none => some ⟨false, ErrorCodes.databaseError, [], reads + 1⟩
    | some page =>
      match measure size bytes page with
      | none => some ⟨false, ErrorCodes.internalError, [], reads + 1⟩
      | some bytes =>
        match page.getLast? with
        | none => some ⟨true, ErrorCodes.success, rows, reads + 1⟩
        | some last =>
          if key last ≤ cursor then some ⟨false, ErrorCodes.databaseError, [], reads + 1⟩
          else if page.length < pageSize then
            some ⟨true, ErrorCodes.success, rows ++ page, reads + 1⟩
          else readPages fuel (reads + 1) (key last) bytes (rows ++ page)

end Loop

section Lists
variable (styled : Item → ℕ) (parseTags : String → List String) (db : Database) (fails : ℕ → Bool)

/-- `FriendService::List`; `fails` says which of its pages cannot be read. -/
def list (fuel : ℕ) (uid : Int) : Option (Listed UserInfo) :=
  if uid ≤ 0 then some ⟨false, ErrorCodes.databaseError, [], 0⟩
  else readPages UserInfo.uid (fun u => styled (writeProfile parseTags u))
    (fun read cursor => getFriendPage db uid.toNat pageSize (fails read) cursor) fuel 0 0 0 []

/-- `FriendService::Applications`. -/
def applications (fuel : ℕ) (uid : Int) : Option (Listed ApplyInfo) :=
  if uid ≤ 0 then some ⟨false, ErrorCodes.databaseError, [], 0⟩
  else readPages ApplyInfo.id (fun a => styled (writeApplication a))
    (fun read cursor => getApplyList db uid.toNat pageSize (fails read) cursor) fuel 0 0 0 []

end Lists

/-! ## Reading all pages -/

theorem success_ne_database : ErrorCodes.success ≠ ErrorCodes.databaseError := by decide

theorem success_ne_internal : ErrorCodes.success ≠ ErrorCodes.internalError := by decide

theorem internal_ne_database : ErrorCodes.internalError ≠ ErrorCodes.databaseError := by decide

section Read
variable {ρ : Type} {key : ρ → ℕ} {size : ρ → ℕ} {table : List ρ} {fails : ℕ → Bool}

theorem measure_eq (l : List ρ) {bytes : ℕ} (h : bytes ≤ maxBytes) : measure size bytes l =
    if maxBytes < bytes + (l.map size).sum then none else some (bytes + (l.map size).sum) := by
  induction l generalizing bytes with
  | nil => simp [measure, h]
  | cons r rest ih =>
    simp only [measure, List.map_cons, List.sum_cons]
    by_cases hr : maxBytes < bytes + size r
    · rw [if_pos hr, if_pos (by omega)]
    · rw [if_neg hr, ih (by omega), Nat.add_assoc]

/-- What a list tells of a table, from some bytes and rows before it. -/
structure Reads (size : ρ → ℕ) (fails : ℕ → Bool) (first bytes : ℕ) (before rest : List ρ)
    (out : Listed ρ) : Prop where
  reads : first < out.reads
  success : out.ok = true → out.error = ErrorCodes.success ∧ out.rows = before ++ rest
  failure : out.ok = false → out.rows = [] ∧
    (out.error = ErrorCodes.databaseError ∨ out.error = ErrorCodes.internalError)
  database : out.error = ErrorCodes.databaseError ↔
    ∃ i, first ≤ i ∧ i < out.reads ∧ fails i = true
  internal : (∀ i, first ≤ i → i < out.reads → fails i = false) →
    (out.error = ErrorCodes.internalError ↔ maxBytes < bytes + (rest.map size).sum)

section
variable {first bytes : ℕ} {before page rest : List ρ} {out : Listed ρ}

theorem not_failed (hok : fails first = false) :
    ¬ ∃ i, first ≤ i ∧ i < first + 1 ∧ fails i = true := by
  rintro ⟨i, hle, hlt, hi⟩
  obtain rfl : i = first := by omega
  rw [hok] at hi
  cases hi

theorem Reads.failed (hfails : fails first = true) :
    Reads size fails first bytes before rest
      ⟨false, ErrorCodes.databaseError, [], first + 1⟩ := by
  refine ⟨Nat.lt_succ_self _, nofun, fun _ => ⟨rfl, .inl rfl⟩, ?_, fun h => ?_⟩
  · exact iff_of_true rfl ⟨first, le_rfl, Nat.lt_succ_self _, hfails⟩
  · have := h first le_rfl (Nat.lt_succ_self _)
    rw [hfails] at this
    cases this

theorem Reads.exceeded (hok : fails first = false)
    (hexcess : maxBytes < bytes + (rest.map size).sum) :
    Reads size fails first bytes before rest
      ⟨false, ErrorCodes.internalError, [], first + 1⟩ := by
  refine ⟨Nat.lt_succ_self _, nofun, fun _ => ⟨rfl, .inr rfl⟩, ?_, fun _ => iff_of_true rfl hexcess⟩
  exact iff_of_false internal_ne_database (not_failed hok)

theorem Reads.last (hok : fails first = false) (hfits : ¬ maxBytes < bytes + (rest.map size).sum) :
    Reads size fails first bytes before rest
      ⟨true, ErrorCodes.success, before ++ rest, first + 1⟩ := by
  refine ⟨Nat.lt_succ_self _, fun _ => ⟨rfl, rfl⟩, nofun, ?_, fun _ => ?_⟩
  · exact iff_of_false success_ne_database (not_failed hok)
  · exact iff_of_false success_ne_internal hfits

/-- A page that is read comes before what the loop tells of the rest. -/
theorem Reads.after (hok : fails first = false)
    (h : Reads size fails (first + 1) (bytes + (page.map size).sum) (before ++ page) rest out) :
    Reads size fails first bytes before (page ++ rest) out := by
  have hreads := h.reads
  refine ⟨by omega, fun hsuccess => ?_, h.failure, ?_, fun hclear => ?_⟩
  · obtain ⟨herror, hrows⟩ := h.success hsuccess
    exact ⟨herror, by rw [hrows, List.append_assoc]⟩
  · rw [h.database]
    constructor
    · rintro ⟨i, hle, hlt, hi⟩
      exact ⟨i, by omega, hlt, hi⟩
    · rintro ⟨i, hle, hlt, hi⟩
      refine ⟨i, Nat.lt_of_le_of_ne hle ?_, hlt, hi⟩
      rintro rfl
      rw [hok] at hi
      cases hi
  · rw [h.internal fun i hle hlt => hclear i (by omega) hlt, List.map_append, List.sum_append,
      Nat.add_assoc]

end

theorem readPages_reads (htable : table.Pairwise fun a b => key a ≠ key b) (first cursor bytes : ℕ)
    (before : List ρ) (hbytes : bytes ≤ maxBytes) :
    ∃ fuel out, readPages key size
        (fun read cursor => getPage key table pageSize (fails read) cursor) fuel first cursor bytes
        before = some out ∧
      Reads size fails first bytes before (Paging.above key table cursor) out := by
  induction hn : (Paging.above key table cursor).length using Nat.strong_induction_on
    generalizing first cursor bytes before with
  | _ n ih =>
    subst hn
    by_cases hfails : fails first = true
    · refine ⟨1, _, ?_, .failed hfails⟩
      simp [readPages, getPage, hfails]
    have hok : fails first = false := by simpa using hfails
    let rest := Paging.above key table cursor
    let page := rest.take pageSize
    have hrest : rest = page ++ rest.drop pageSize := (List.take_append_drop pageSize rest).symm
    have hfetch : getPage key table pageSize (fails first) cursor = some page := by
      simp [getPage, hok, page, rest]
    by_cases hexcess : maxBytes < bytes + (page.map size).sum
    · refine ⟨1, _, ?_, .exceeded hok ?_⟩
      · simp only [readPages, hfetch, measure_eq page hbytes, if_pos hexcess]
      · change maxBytes < bytes + (rest.map size).sum
        rw [hrest, List.map_append, List.sum_append]
        omega
    have hmeasure : measure size bytes page = some (bytes + (page.map size).sum) := by
      rw [measure_eq page hbytes, if_neg hexcess]
    by_cases hshort : page.length < pageSize
    · -- a page that is not full is the last one
      have hall : rest = page := by
        refine (List.take_of_length_le ?_).symm
        simp only [page, List.length_take] at hshort
        omega
      have hlast : Reads size fails first bytes before rest _ := .last hok (hall ▸ hexcess)
      refine ⟨1, _, ?_, hlast⟩
      cases hget : page.getLast? with
      | none =>
        rw [hall, List.getLast?_eq_none_iff.mp hget, List.append_nil]
        simp only [readPages, hfetch, hmeasure, hget]
      | some last =>
        have hmem : last ∈ rest := List.mem_of_mem_take (List.mem_of_getLast? hget)
        have hadvance : ¬ key last ≤ cursor := not_le.mpr (Paging.mem_above.mp hmem).2
        rw [hall]
        simp only [readPages, hfetch, hmeasure, hget, if_neg hadvance, if_pos hshort]
    · have hfull : pageSize ≤ rest.length := by
        simp only [page, List.length_take] at hshort
        omega
      have hne : page ≠ [] := fun hnil => hshort (hnil ▸ Nat.succ_pos 99)
      obtain ⟨last, hget⟩ := Option.isSome_iff_exists.mp (List.getLast?_isSome.mpr hne)
      have hmem : last ∈ rest := List.mem_of_mem_take (List.mem_of_getLast? hget)
      have hadvance : ¬ key last ≤ cursor := not_le.mpr (Paging.mem_above.mp hmem).2
      have hat : rest[pageSize - 1]? = some last := by
        rw [← hget, List.getLast?_eq_getElem?, List.length_take, Nat.min_eq_left hfull,
          List.getElem?_take_of_lt (by decide)]
      have hdrop : Paging.above key table (key last) = rest.drop pageSize :=
        Paging.above_last htable (by decide) hat
      have hless : (Paging.above key table (key last)).length < rest.length := by
        rw [hdrop, List.length_drop]
        have : 0 < pageSize := by decide
        omega
      obtain ⟨fuel, out, hrun, hout⟩ := ih _ hless (first + 1) (key last)
        (bytes + (page.map size).sum) (before ++ page) (by omega) rfl
      rw [hdrop] at hout
      refine ⟨fuel + 1, out, ?_, ?_⟩
      · simp only [readPages, hfetch, hmeasure, hget, if_neg hadvance, if_neg hshort]
        exact hrun
      · change Reads size fails first bytes before rest out
        rw [hrest]
        exact hout.after hok

end Read

/-! ## The rows of a user -/

section Rows
variable (db : Database) (uid : ℕ)

theorem mem_friendRows {u : UserInfo} : u ∈ friendRows db uid ↔
    ∃ f ∈ db.friend.rows, f.selfId = uid ∧ ∃ r ∈ db.users.rows, r.id = f.friendId ∧
      u = ⟨r.id, r.username, r.email, r.nick, r.profileDescription, r.sex, r.icon, f.back,
        f.tags.getD "[]"⟩ := by
  simp only [friendRows, List.mem_filterMap, Option.ite_none_right_eq_some, Option.map_eq_some_iff,
    Keyed.lookup_eq_some]
  constructor
  · rintro ⟨f, hf, hself, r, ⟨hr, hid⟩, rfl⟩
    exact ⟨f, hf, hself, r, hr, hid, rfl⟩
  · rintro ⟨f, hf, hself, r, hr, hid, rfl⟩
    exact ⟨f, hf, hself, r, ⟨hr, hid⟩, rfl⟩

theorem mem_applyRows {a : ApplyInfo} : a ∈ applyRows db uid ↔
    ∃ r ∈ db.friendApply.rows, r.toUid = uid ∧ ∃ u ∈ db.users.rows, u.id = r.fromUid ∧
      a = ⟨r.id, r.fromUid, u.username, r.descs, u.icon, u.nick, u.sex, r.status⟩ := by
  simp only [applyRows, List.mem_filterMap, Option.ite_none_right_eq_some, Option.map_eq_some_iff,
    Keyed.lookup_eq_some]
  constructor
  · rintro ⟨r, hr, hto, u, ⟨hu, hid⟩, rfl⟩
    exact ⟨r, hr, hto, u, hu, hid, rfl⟩
  · rintro ⟨r, hr, hto, u, hu, hid, rfl⟩
    exact ⟨r, hr, hto, u, ⟨hu, hid⟩, rfl⟩

theorem friendRows_keys : (friendRows db uid).Pairwise fun a b => a.uid ≠ b.uid := by
  apply List.pairwise_filterMap.mpr
  refine db.friend.unique.imp fun {f g} hne a ha b hb hab => hne ?_
  simp only [Option.ite_none_right_eq_some, Option.map_eq_some_iff, Keyed.lookup_eq_some] at ha hb
  obtain ⟨hf, r, ⟨-, hrf⟩, rfl⟩ := ha
  obtain ⟨hg, q, ⟨-, hqg⟩, rfl⟩ := hb
  exact Prod.ext (hf.trans hg.symm) (hrf.symm.trans (hab.trans hqg))

theorem applyRows_keys : (applyRows db uid).Pairwise fun a b => a.id ≠ b.id := by
  apply List.pairwise_filterMap.mpr
  refine db.friendApply.unique.imp fun {r q} hne a ha b hb hab => hne ?_
  simp only [Option.ite_none_right_eq_some, Option.map_eq_some_iff] at ha hb
  obtain ⟨-, u, -, rfl⟩ := ha
  obtain ⟨-, v, -, rfl⟩ := hb
  exact hab

theorem friendRows_pos {u : UserInfo} (h : u ∈ friendRows db uid) : 0 < u.uid := by
  obtain ⟨f, hf, hself, r, hr, hid, rfl⟩ := (mem_friendRows db uid).mp h
  exact db.users_pos r hr

theorem applyRows_pos {a : ApplyInfo} (h : a ∈ applyRows db uid) : 0 < a.id := by
  obtain ⟨r, hr, hto, u, hu, hid, rfl⟩ := (mem_applyRows db uid).mp h
  exact db.apply_pos r hr

end Rows

/-! ## What a list returns -/

/-- All rows, each once and in ascending order of their keys, or an empty list and the reason. -/
structure Complete {ρ : Type} (key : ρ → ℕ) (size : ρ → ℕ) (fails : ℕ → Bool) (rows : List ρ)
    (out : Listed ρ) : Prop where
  success : out.ok = true → out.error = ErrorCodes.success ∧
    (∀ r, r ∈ out.rows ↔ r ∈ rows) ∧ out.rows.Pairwise fun a b => key a < key b
  failure : out.ok = false → out.rows = [] ∧
    (out.error = ErrorCodes.databaseError ∨ out.error = ErrorCodes.internalError)
  database : out.error = ErrorCodes.databaseError ↔ ∃ i < out.reads, fails i = true
  internal : (∀ i < out.reads, fails i = false) →
    (out.error = ErrorCodes.internalError ↔ maxBytes < (rows.map size).sum)

theorem readPages_complete {ρ : Type} {key : ρ → ℕ} {size : ρ → ℕ} {rows : List ρ}
    {fails : ℕ → Bool} (hkeys : rows.Pairwise fun a b => key a ≠ key b)
    (hpos : ∀ r ∈ rows, 0 < key r) : ∃ fuel out, readPages key size
      (fun read cursor => getPage key rows pageSize (fails read) cursor) fuel 0 0 0 [] = some out ∧
      Complete key size fails rows out := by
  obtain ⟨fuel, out, hrun, h⟩ := @readPages_reads ρ key size rows fails hkeys 0 0 0 []
    (Nat.zero_le _)
  refine ⟨fuel, out, hrun, fun hok => ?_, h.failure, ?_, fun hfails => ?_⟩
  · obtain ⟨herror, hrows⟩ := h.success hok
    rw [List.nil_append] at hrows
    refine ⟨herror, fun r => ?_, hrows ▸ Paging.above_pairwise hkeys⟩
    rw [hrows, Paging.mem_above]
    exact ⟨And.left, fun hr => ⟨hr, hpos r hr⟩⟩
  · simpa using h.database
  · rw [h.internal fun i _ => hfails i, Nat.zero_add]
    have hperm : (Paging.above key rows 0).Perm rows := by
      refine (List.perm_insertionSort _ _).trans ?_
      rw [List.filter_eq_self.mpr]
      simpa using hpos
    rw [(hperm.map size).sum_eq]

end CppChat.Lists
