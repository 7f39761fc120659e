import Mathlib.Data.Finset.Max
import Mathlib.Data.List.Sort
import Mathlib.Data.Rat.Defs
import Mathlib.Data.String.Basic
import CppChat.Foundation.Rotation
import CppChat.Foundation.Table

/-! # The choice of a chat server

The status service reads the health record of every configured chat server in one pass over
a hash map, keeps those of minimal load, and rotates among them.
-/
namespace CppChat.Status
open Foundation

namespace ErrorCodes

def success : Int := 0
def rpcFailed : Int := 1002
def uidInvalid : Int := 1011
def redisError : Int := 1015

end ErrorCodes

/-! ## The configured servers -/

/-- A section of the configuration file, with its defaults. -/
abbrev SectionInfo := String → Option String

def SectionInfo.getValue (info : SectionInfo) (key : String) (fallback : String) : String :=
  (info key).getD fallback

structure ChatServer where
  host : String
  port : String
  name : String
  conCount : ℕ
  deriving DecidableEq

/-- The map, under the names of the servers; its order is the one of a hash map. -/
abbrev Servers := Keyed ChatServer ChatServer.name

/-- One turn of the loop of the constructor. -/
def addSection (config : String → SectionInfo) (servers : Servers) (sectionName : String) :
    Servers :=
  let info := config sectionName
  if info.getValue "Enabled" "true" ≠ "true" then servers
  else
    let name := info.getValue "Name" sectionName
    let host := info.getValue "Host" ""
    let port := info.getValue "Port" ""
    if name = "" ∨ host = "" ∨ port = "" then servers
    else Keyed.upsert servers ⟨host, port, name, 0⟩
      (fun old => { old with host, port, conCount := 0 }) fun _ => rfl

def construct (config : String → SectionInfo) : Servers :=
  ["ChatServer1", "ChatServer2"].foldl (addSection config) .empty

/-! ## Health records -/

/-- `Json::Value`, as far as the records are read; a real number is the rational it denotes. -/
inductive JsonValue
  | object (members : List (String × JsonValue))
  | string (s : String)
  | number (q : ℚ)
  | other

namespace JsonValue

/-- `value[key]` of an object. -/
def member (members : List (String × JsonValue)) (key : String) : JsonValue :=
  (members.lookup key).getD .other

/-- `asUInt64` of what `isUInt64` accepts. -/
def uint64? : JsonValue → Option ℕ
  | .number q => if q.den = 1 ∧ 0 ≤ q.num ∧ q.num < 2 ^ 64 then some q.num.toNat else none
  | _ => none

end JsonValue

/-- What `RedisMgr::Read` returns. -/
inductive RedisRead
  | found (value : String)
  | missing
  | error
  deriving DecidableEq

def intMax : ℕ := 2 ^ 31 - 1

/-- What the service depends on for one choice: JsonCpp's reader, and the answers of Redis. -/
structure Env where
  parse : String → Option JsonValue
  read : String → RedisRead

variable (env : Env)

/-- The load that a record reports, `none` for a record that is passed over. -/
def Env.online (value : String) : Option ℕ :=
  match env.parse value with
  | some (.object health) =>
    match JsonValue.member health "instance_id" with
    | .string instance_id =>
      if instance_id = "" then none
      else ((JsonValue.member health "online").uint64?).filter (· ≤ intMax)
    | _ => none
  | _ => none

/-! ## The pass -/

/-- The best candidates so far. -/
structure Scan where
  candidates : List ChatServer
  minimum : ℕ

def Scan.offer (acc : Scan) (server : ChatServer) : Scan :=
  let acc := if server.conCount < acc.minimum then ⟨[], server.conCount⟩ else acc
  if server.conCount = acc.minimum then { acc with candidates := acc.candidates ++ [server] }
  else acc

/-- The loop over the map; `none` when a read fails. -/
def scan : List ChatServer → Scan → Option Scan
  | [], acc => some acc
  | server :: rest, acc =>
    match env.read ("chat_node_" ++ server.name) with
    | .error => none
    | .missing => scan rest acc
    | .found value =>
      match env.online value with
      | none => scan rest acc
      | some load => scan rest (acc.offer { server with conCount := load })

def byName (left right : ChatServer) : Bool := left.name ≤ right.name

/-- `getChatServer`, for an order in which the map is run through, with the counter after it. -/
def getChatServer (servers : List ChatServer) (nextChoice : ℕ) : Except Int ChatServer × ℕ :=
  match scan env servers ⟨[], intMax⟩ with
  | none => (.error ErrorCodes.redisError, nextChoice)
  | some acc =>
    match Rotation.pick (acc.candidates.mergeSort byName) nextChoice with
    | none => (.error ErrorCodes.rpcFailed, nextChoice)
    | some server => (.ok server, (nextChoice + 1) % 2 ^ 64)

/-- The answer to a client. -/
structure Reply where
  error : Int
  host : String
  port : String
  token : String
  deriving DecidableEq

def refused (error : Int) : Reply := ⟨error, "", "", ""⟩

/-- `GetChatServer`, with the token it draws and whether it could be stored. -/
def allocate (uid : Int) (token : String) (stored : Bool) (servers : List ChatServer)
    (nextChoice : ℕ) : Reply × ℕ :=
  if uid ≤ 0 then (refused ErrorCodes.uidInvalid, nextChoice)
  else match getChatServer env servers nextChoice with
    | (.error error, next) => (refused error, next)
    | (.ok server, next) =>
      (if stored then ⟨ErrorCodes.success, server.host, server.port, token⟩
        else refused ErrorCodes.redisError, next)

/-- Consecutive calls, each with the order its pass had. -/
def calls : List (List ChatServer) → ℕ → List (Except Int ChatServer)
  | [], _ => []
  | order :: rest, nextChoice =>
    let (result, next) := getChatServer env order nextChoice
    result :: calls rest next

/-! ## What the pass keeps -/

/-- The server has a valid record, with this load. -/
def Env.Valid (server : ChatServer) (load : ℕ) : Prop :=
  ∃ value, env.read ("chat_node_" ++ server.name) = .found value ∧ env.online value = some load

variable {env}

/-- The servers with valid records, with their loads, in the order of the pass. -/
def loaded (env : Env) (servers : List ChatServer) : List ChatServer :=
  servers.filterMap fun server =>
    match env.read ("chat_node_" ++ server.name) with
    | .found value => (env.online value).map fun load => { server with conCount := load }
    | _ => none

theorem mem_loaded {servers : List ChatServer} {server : ChatServer} :
    server ∈ loaded env servers ↔
      ∃ s ∈ servers, env.Valid s server.conCount ∧
        server = { s with conCount := server.conCount } := by
  simp only [loaded, List.mem_filterMap]
  constructor
  · rintro ⟨s, hs, hserver⟩
    split at hserver
    next value hread =>
      obtain ⟨load, hload, rfl⟩ := Option.map_eq_some_iff.mp hserver
      exact ⟨s, hs, ⟨value, hread, hload⟩, rfl⟩
    next => cases hserver
  · rintro ⟨s, hs, ⟨value, hread, hload⟩, hserver⟩
    refine ⟨s, hs, ?_⟩
    simp only [hread, hload, Option.map_some, ← hserver]

theorem Env.Valid.unique {server : ChatServer} {m n : ℕ} (hm : env.Valid server m)
    (hn : env.Valid server n) : m = n := by
  obtain ⟨value, hread, hload⟩ := hm
  obtain ⟨value', hread', hload'⟩ := hn
  rw [hread] at hread'
  cases hread'
  exact Option.some_inj.mp (hload.symm.trans hload')

theorem Env.Valid.le_intMax {server : ChatServer} {load : ℕ} (h : env.Valid server load) :
    load ≤ intMax := by
  obtain ⟨value, -, hload⟩ := h
  unfold Env.online at hload
  split at hload
  · split at hload
    · split at hload
      · cases hload
      · simpa using (Option.filter_eq_some_iff.mp hload).2
    · cases hload
  · cases hload

/-- The pass fails exactly if a read fails, and otherwise offers what is valid in turn. -/
theorem scan_eq (servers : List ChatServer) (acc : Scan) :
    scan env servers acc = if ∃ s ∈ servers, env.read ("chat_node_" ++ s.name) = .error then none
      else some ((loaded env servers).foldl Scan.offer acc) := by
  induction servers generalizing acc with
  | nil => simp [scan, loaded]
  | cons server rest ih =>
    rw [scan]
    cases hread : env.read ("chat_node_" ++ server.name) with
    | error => simp [hread]
    | missing => simp [ih, hread, loaded]
    | found value =>
      cases hload : env.online value with
      | none => simp [ih, hread, hload, loaded]
      | some load => simp [ih, hread, hload, loaded]

/-- The candidates are the offers of minimal load, in their order. -/
structure Best (offers : List ChatServer) (acc : Scan) : Prop where
  candidates : acc.candidates = offers.filter fun s => s.conCount = acc.minimum
  minimum : ∀ s ∈ offers, acc.minimum ≤ s.conCount
  reached : acc.minimum = intMax ∨ ∃ s ∈ offers, s.conCount = acc.minimum

theorem best_nil : Best [] ⟨[], intMax⟩ := ⟨rfl, by simp, .inl rfl⟩

theorem Best.offer {offers : List ChatServer} {acc : Scan} (h : Best offers acc)
    (server : ChatServer) : Best (offers ++ [server]) (acc.offer server) := by
  unfold Scan.offer
  by_cases hlt : server.conCount < acc.minimum
  · -- a new minimum drops the earlier candidates
    have hnone : offers.filter (fun s => s.conCount = server.conCount) = [] := by
      simp only [List.filter_eq_nil_iff, decide_eq_true_eq]
      intro s hs
      have := h.minimum s hs
      omega
    simp only [if_pos hlt, if_true]
    refine ⟨by simp [hnone], fun s hs => ?_, .inr ⟨server, by simp, rfl⟩⟩
    rcases List.mem_append.mp hs with hs | hs
    · have := h.minimum s hs
      dsimp only
      omega
    · obtain rfl := List.mem_singleton.mp hs
      exact le_rfl
  · simp only [if_neg hlt]
    have hmin : ∀ s ∈ offers ++ [server], acc.minimum ≤ s.conCount := by
      intro s hs
      rcases List.mem_append.mp hs with hs | hs
      · exact h.minimum s hs
      · obtain rfl := List.mem_singleton.mp hs
        omega
    have hreached : acc.minimum = intMax ∨ ∃ s ∈ offers ++ [server], s.conCount = acc.minimum := by
      rcases h.reached with hm | ⟨s, hs, hsm⟩
      · exact .inl hm
      · exact .inr ⟨s, List.mem_append_left _ hs, hsm⟩
    by_cases heq : server.conCount = acc.minimum
    · rw [if_pos heq]
      exact ⟨by simp [h.candidates, heq], hmin, hreached⟩
    · rw [if_neg heq]
      exact ⟨by simp [h.candidates, heq], hmin, hreached⟩

theorem best_loaded (offers : List ChatServer) :
    Best offers (offers.foldl Scan.offer ⟨[], intMax⟩) := by
  induction offers using List.reverseRecOn with
  | nil => exact best_nil
  | append_singleton offers server ih =>
    rw [List.foldl_append, List.foldl_cons, List.foldl_nil]
    exact ih.offer server

/-! ## The choice -/

/-- The configured servers of minimal load, in the order of their names. -/
def least (env : Env) (servers : List ChatServer) : List ChatServer :=
  let offers := loaded env servers
  (offers.filter fun s => ∀ t ∈ offers, s.conCount ≤ t.conCount).mergeSort byName

theorem loaded_perm {servers servers' : List ChatServer} (h : servers.Perm servers') :
    (loaded env servers).Perm (loaded env servers') := h.filterMap _

/-- Configured servers have different names, and so have those that are offered. -/
theorem names_loaded {servers : List ChatServer} (h : (servers.map ChatServer.name).Nodup) :
    ((loaded env servers).map ChatServer.name).Nodup := by
  refine List.Nodup.sublist ?_ h
  clear h
  induction servers with
  | nil => simp [loaded]
  | cons server rest ih =>
    simp only [loaded, List.filterMap_cons] at ih ⊢
    split
    next => exact ih.trans (List.sublist_cons_self _ _)
    next s hs =>
      have hname : s.name = server.name := by
        split at hs
        · obtain ⟨load, -, rfl⟩ := Option.map_eq_some_iff.mp hs
          rfl
        · cases hs
      simp only [List.map_cons, hname]
      exact ih.cons_cons _

theorem byName_trans (a b c : ChatServer) (hab : byName a b) (hbc : byName b c) : byName a c := by
  simp only [byName, decide_eq_true_eq] at *
  exact hab.trans hbc

theorem byName_total (a b : ChatServer) : byName a b || byName b a := by
  simp only [byName, Bool.or_eq_true, decide_eq_true_eq]
  exact le_total a.name b.name

/-- Sorting by name forgets the order of the pass. -/
theorem sort_perm {l l' : List ChatServer} (h : l.Perm l') (hl : (l.map ChatServer.name).Nodup) :
    l.mergeSort byName = l'.mergeSort byName := by
  have hperm : (l.mergeSort byName).Perm (l'.mergeSort byName) :=
    (List.mergeSort_perm l byName).trans (h.trans (List.mergeSort_perm l' byName).symm)
  have hsorted := List.pairwise_mergeSort byName_trans byName_total l
  have hsorted' := List.pairwise_mergeSort byName_trans byName_total l'
  refine List.Perm.eq_of_pairwise ?_ hsorted hsorted' hperm
  intro a b ha hb hab hba
  simp only [byName, decide_eq_true_eq] at hab hba
  have ha := (List.mergeSort_perm l byName).mem_iff.mp ha
  have hb := h.mem_iff.mpr ((List.mergeSort_perm l' byName).mem_iff.mp hb)
  exact List.inj_on_of_nodup_map hl ha hb (le_antisymm hab hba)

/-- The candidates of the pass, sorted, are the servers of minimal load. -/
theorem sorted_candidates {servers : List ChatServer} {acc : Scan}
    (h : Best (loaded env servers) acc) : acc.candidates.mergeSort byName = least env servers := by
  unfold least
  rw [h.candidates]
  congr 1
  apply List.filter_congr
  intro s hs
  rw [decide_eq_decide]
  constructor
  · rintro hmin t ht
    exact hmin ▸ h.minimum t ht
  · intro hle
    rcases h.reached with hm | ⟨t, ht, htm⟩
    · obtain ⟨_, _, hvalid, _⟩ := mem_loaded.mp hs
      have := h.minimum s hs
      have := hvalid.le_intMax
      omega
    · have := h.minimum s hs
      have := hle t ht
      omega

theorem getChatServer_eq (servers : List ChatServer) (nextChoice : ℕ) :
    getChatServer env servers nextChoice =
      if ∃ s ∈ servers, env.read ("chat_node_" ++ s.name) = .error then
        (.error ErrorCodes.redisError, nextChoice)
      else match Rotation.pick (least env servers) nextChoice with
        | none => (.error ErrorCodes.rpcFailed, nextChoice)
        | some server => (.ok server, (nextChoice + 1) % 2 ^ 64) := by
  rw [getChatServer, scan_eq]
  by_cases h : ∃ s ∈ servers, env.read ("chat_node_" ++ s.name) = .error
  · rw [if_pos h, if_pos h]
  · rw [if_neg h, if_neg h]
    dsimp only
    rw [sorted_candidates (best_loaded (loaded env servers))]

theorem least_perm {servers servers' : List ChatServer} (h : servers.Perm servers')
    (hl : (servers.map ChatServer.name).Nodup) : least env servers = least env servers' := by
  unfold least
  have hloaded : (loaded env servers).Perm (loaded env servers') := loaded_perm h
  have hcongr : (fun s : ChatServer => decide (∀ t ∈ loaded env servers, s.conCount ≤ t.conCount)) =
      fun s => decide (∀ t ∈ loaded env servers', s.conCount ≤ t.conCount) := by
    ext s
    simp only [hloaded.mem_iff]
  dsimp only
  rw [hcongr]
  exact sort_perm (hloaded.filter _)
    (List.Nodup.sublist (List.filter_sublist.map _) (names_loaded hl))

theorem mem_least {servers : List ChatServer} {server : ChatServer} :
    server ∈ least env servers ↔
      server ∈ loaded env servers ∧ ∀ t ∈ loaded env servers, server.conCount ≤ t.conCount := by
  simp only [least, (List.mergeSort_perm _ _).mem_iff, List.mem_filter, decide_eq_true_eq]

/-- A minimum exists as soon as one server has a valid record. -/
theorem least_ne_nil {servers : List ChatServer} (h : loaded env servers ≠ []) :
    least env servers ≠ [] := by
  obtain ⟨server, hserver, hmin⟩ := (loaded env servers).toFinset.exists_min_image
    ChatServer.conCount (List.toFinset_nonempty_iff _ |>.mpr h)
  simp only [List.mem_toFinset] at hserver hmin
  exact List.ne_nil_of_mem (mem_least.mpr ⟨hserver, hmin⟩)

theorem nodup_least {servers : List ChatServer} (hl : (servers.map ChatServer.name).Nodup) :
    (least env servers).Nodup := by
  apply (List.mergeSort_perm _ _).nodup_iff.mpr
  exact (List.Nodup.of_map _ (names_loaded hl)).filter _

/-- While the records stay, consecutive calls rotate, whatever order each pass has. -/
theorem calls_eq {servers : List ChatServer} (hl : (servers.map ChatServer.name).Nodup)
    (hread : ∀ s ∈ servers, env.read ("chat_node_" ++ s.name) ≠ .error)
    (hleast : least env servers ≠ []) {orders : List (List ChatServer)}
    (horders : ∀ order ∈ orders, servers.Perm order) {nextChoice : ℕ}
    (hwrap : nextChoice + orders.length ≤ 2 ^ 64) :
    (calls env orders nextChoice).map Except.toOption =
      Rotation.picks (least env servers) nextChoice orders.length := by
  induction orders generalizing nextChoice with
  | nil => rfl
  | cons order rest ih =>
    obtain ⟨server, hserver⟩ := Option.isSome_iff_exists.mp (Rotation.pick_isSome hleast nextChoice)
    have hperm := horders order List.mem_cons_self
    have hno : ¬ ∃ s ∈ order, env.read ("chat_node_" ++ s.name) = .error := by
      rintro ⟨s, hs, herror⟩
      exact hread s (hperm.mem_iff.mpr hs) herror
    have hfirst : getChatServer env order nextChoice = (.ok server, (nextChoice + 1) % 2 ^ 64) := by
      rw [getChatServer_eq, if_neg hno, ← least_perm hperm hl, hserver]
    rw [List.length_cons] at hwrap
    rw [calls, hfirst]
    simp only [List.map_cons, List.length_cons, Except.toOption]
    cases rest with
    | nil => simp [calls, Rotation.picks, hserver]
    | cons next rest =>
      rw [List.length_cons] at hwrap
      rw [Nat.mod_eq_of_lt (by omega), ih (fun o ho => horders o (List.mem_cons_of_mem _ ho))
        (by simp only [List.length_cons]; omega), Nat.add_comm (List.length _) 1,
        Rotation.picks_add]
      simp [Rotation.picks, hserver]

/-! ## What one call answers -/

variable {servers order : List ChatServer} {server : ChatServer} {nextChoice next : ℕ}

theorem mem_least_iff : server ∈ least env servers ↔
    ∃ s ∈ servers, env.Valid s server.conCount ∧
      server = { s with conCount := server.conCount } ∧
      ∀ t ∈ servers, ∀ load, env.Valid t load → server.conCount ≤ load := by
  rw [mem_least]
  constructor
  · rintro ⟨hmem, hmin⟩
    obtain ⟨s, hs, hvalid, hserver⟩ := mem_loaded.mp hmem
    refine ⟨s, hs, hvalid, hserver, fun t ht load hload => ?_⟩
    exact hmin { t with conCount := load } (mem_loaded.mpr ⟨t, ht, hload, rfl⟩)
  · rintro ⟨s, hs, hvalid, hserver, hmin⟩
    refine ⟨mem_loaded.mpr ⟨s, hs, hvalid, hserver⟩, fun t ht => ?_⟩
    obtain ⟨u, hu, huvalid, -⟩ := mem_loaded.mp ht
    exact hmin u hu _ huvalid

theorem getChatServer_ok (h : getChatServer env servers nextChoice = (.ok server, next)) :
    (∀ s ∈ servers, env.read ("chat_node_" ++ s.name) ≠ .error) ∧
      Rotation.pick (least env servers) nextChoice = some server := by
  rw [getChatServer_eq] at h
  split at h
  · cases h
  next hread =>
    push Not at hread
    split at h
    · cases h
    next hpick =>
      cases h
      exact ⟨hread, hpick⟩

theorem getChatServer_perm (h : servers.Perm order) (hl : (servers.map ChatServer.name).Nodup) :
    getChatServer env order nextChoice = getChatServer env servers nextChoice := by
  simp only [getChatServer_eq, ← least_perm h hl, ← h.mem_iff]

theorem getChatServer_failed (h : ∃ s ∈ servers, env.read ("chat_node_" ++ s.name) = .error) :
    getChatServer env servers nextChoice = (.error ErrorCodes.redisError, nextChoice) := by
  rw [getChatServer_eq, if_pos h]

theorem getChatServer_succeeds :
    (∃ server, (getChatServer env servers nextChoice).1 = .ok server) ↔
      (∀ s ∈ servers, env.read ("chat_node_" ++ s.name) ≠ .error) ∧
        ∃ s ∈ servers, ∃ load, env.Valid s load := by
  constructor
  · rintro ⟨server, h⟩
    obtain ⟨hread, hpick⟩ := getChatServer_ok (Prod.ext h rfl)
    obtain ⟨s, hs, hvalid, -⟩ := mem_least_iff.mp (Rotation.pick_mem hpick)
    exact ⟨hread, s, hs, _, hvalid⟩
  · rintro ⟨hread, s, hs, load, hvalid⟩
    have hmem : { s with conCount := load } ∈ loaded env servers :=
      mem_loaded.mpr ⟨s, hs, hvalid, rfl⟩
    obtain ⟨server, hserver⟩ := Option.isSome_iff_exists.mp
      (Rotation.pick_isSome (least_ne_nil (List.ne_nil_of_mem hmem)) nextChoice)
    rw [getChatServer_eq, if_neg fun ⟨t, ht, herror⟩ => hread t ht herror, hserver]
    exact ⟨server, rfl⟩

/-- An error is never reported as success. -/
theorem getChatServer_error {error : Int}
    (h : getChatServer env servers nextChoice = (.error error, next)) :
    error ≠ ErrorCodes.success := by
  rw [getChatServer_eq] at h
  split at h
  · cases h
    decide
  · split at h
    · cases h
      decide
    · cases h

theorem allocate_success {uid : Int} {token : String} {stored : Bool}
    (h : (allocate env uid token stored servers nextChoice).1.error = ErrorCodes.success) :
    ∃ server next, getChatServer env servers nextChoice = (.ok server, next) ∧
      (allocate env uid token stored servers nextChoice).1 =
        ⟨ErrorCodes.success, server.host, server.port, token⟩ := by
  unfold allocate at h ⊢
  split at h
  · cases h
  next huid =>
    rw [if_neg huid]
    cases hresult : getChatServer env servers nextChoice with
    | mk result next =>
      rw [hresult] at h
      cases result with
      | error error => exact absurd h (getChatServer_error hresult)
      | ok server =>
        refine ⟨server, next, rfl, ?_⟩
        dsimp only at h ⊢
        split at h
        next hstored => rw [if_pos hstored]
        next => cases h

/-! ## What the configuration names -/

/-- An enabled section with a name, a host and a port. -/
structure SectionInfo.Configures (info : SectionInfo) (sectionName : String) (s : ChatServer) :
    Prop where
  enabled : info.getValue "Enabled" "true" = "true"
  name : s.name = info.getValue "Name" sectionName
  host : s.host = info.getValue "Host" ""
  port : s.port = info.getValue "Port" ""
  nonempty : s.name ≠ "" ∧ s.host ≠ "" ∧ s.port ≠ ""

theorem mem_addSection {config : String → SectionInfo} {servers : Servers} {sectionName : String}
    (h : server ∈ (addSection config servers sectionName).rows) :
    server ∈ servers.rows ∨ (config sectionName).Configures sectionName server := by
  unfold addSection at h
  dsimp only at h
  split at h
  · exact .inl h
  next henabled =>
    split at h
    · exact .inl h
    next hnames =>
      have hlookup := Keyed.lookup_eq_some.mpr ⟨h, rfl⟩
      rw [Keyed.lookup_upsert] at hlookup
      push Not at henabled hnames
      split at hlookup
      next hname =>
        -- the section is new, or rewrites the server of its name
        refine .inr ?_
        cases hold : Keyed.lookup servers server.name with
        | none =>
          rw [hold] at hlookup
          cases hlookup
          exact ⟨henabled, rfl, rfl, rfl, hnames⟩
        | some old =>
          rw [hold] at hlookup
          cases hlookup
          exact ⟨henabled, hname, rfl, rfl, hname ▸ hnames.1, hnames.2⟩
      · exact .inl (Keyed.lookup_eq_some.mp hlookup).1

theorem mem_construct {config : String → SectionInfo}
    (h : server ∈ (construct config).rows) :
    ∃ sectionName ∈ ["ChatServer1", "ChatServer2"],
      (config sectionName).Configures sectionName server := by
  simp only [construct, List.foldl_cons, List.foldl_nil] at h
  rcases mem_addSection h with h | h
  · rcases mem_addSection h with h | h
    · cases h
    · exact ⟨_, by decide, h⟩
  · exact ⟨_, by decide, h⟩

/-- What holds of the choice among some configured servers. -/
structure Choice (env : Env) (servers : Servers) : Prop where
  of_least : ∀ server, server ∈ least env servers.rows ↔
    ∃ s ∈ servers.rows, env.Valid s server.conCount ∧
      server = { s with conCount := server.conCount } ∧
      ∀ t ∈ servers.rows, ∀ load, env.Valid t load → server.conCount ≤ load
  succeeds : ∀ {order nextChoice}, servers.rows.Perm order →
    ((∃ server, (getChatServer env order nextChoice).1 = .ok server) ↔
      (∀ s ∈ servers.rows, env.read ("chat_node_" ++ s.name) ≠ .error) ∧
        ∃ s ∈ servers.rows, ∃ load, env.Valid s load)
  minimal : ∀ {order nextChoice server next}, servers.rows.Perm order →
    getChatServer env order nextChoice = (.ok server, next) →
      ∃ s ∈ servers.rows, env.Valid s server.conCount ∧
        server = { s with conCount := server.conCount } ∧
        ∀ t ∈ servers.rows, ∀ load, env.Valid t load → server.conCount ≤ load
  configured : ∀ {config order nextChoice server next}, servers = construct config →
    servers.rows.Perm order → getChatServer env order nextChoice = (.ok server, next) →
      ∃ sectionName ∈ ["ChatServer1", "ChatServer2"],
        (config sectionName).Configures sectionName server
  order_free : ∀ {order order' nextChoice}, servers.rows.Perm order → servers.rows.Perm order' →
    getChatServer env order nextChoice = getChatServer env order' nextChoice
  failed : ∀ {order nextChoice}, servers.rows.Perm order →
    (∃ s ∈ servers.rows, env.read ("chat_node_" ++ s.name) = .error) →
      getChatServer env order nextChoice = (.error ErrorCodes.redisError, nextChoice) ∧
        ∀ uid token stored, 0 < uid →
          (allocate env uid token stored order nextChoice).1 = refused ErrorCodes.redisError
  answers : ∀ {order nextChoice uid token stored}, servers.rows.Perm order →
    (allocate env uid token stored order nextChoice).1.error = ErrorCodes.success →
      ∃ server next, getChatServer env order nextChoice = (.ok server, next) ∧
        (allocate env uid token stored order nextChoice).1 =
          ⟨ErrorCodes.success, server.host, server.port, token⟩
  rotates : ∀ {orders : List (List ChatServer)} {nextChoice k : ℕ},
    (∀ order ∈ orders, servers.rows.Perm order) →
    (∀ s ∈ servers.rows, env.read ("chat_node_" ++ s.name) ≠ .error) →
    orders.length = k * (least env servers.rows).length → nextChoice + orders.length ≤ 2 ^ 64 →
      ∀ server ∈ least env servers.rows,
        ((calls env orders nextChoice).map Except.toOption).count (some server) = k

theorem choice (env : Env) (servers : Servers) : Choice env servers := by
  have hl : (servers.rows.map ChatServer.name).Nodup := List.pairwise_map.mpr servers.unique
  have hminimal : ∀ {order nextChoice server next}, servers.rows.Perm order →
      getChatServer env order nextChoice = (.ok server, next) →
        server ∈ least env servers.rows := by
    intro order nextChoice server next hperm h
    obtain ⟨-, hpick⟩ := getChatServer_ok h
    rw [← least_perm hperm hl] at hpick
    exact Rotation.pick_mem hpick
  refine ⟨fun server => mem_least_iff, ?_, fun hperm h => mem_least_iff.mp (hminimal hperm h), ?_,
    ?_, ?_, fun _ h => allocate_success h, ?_⟩
  · intro order nextChoice hperm
    rw [getChatServer_perm hperm hl]
    exact getChatServer_succeeds
  · rintro config order nextChoice server next rfl hperm h
    obtain ⟨s, hs, -, hserver, -⟩ := mem_least_iff.mp (hminimal hperm h)
    obtain ⟨sectionName, hsection, hinfo⟩ := mem_construct hs
    refine ⟨sectionName, hsection, ?_⟩
    rw [hserver]
    exact ⟨hinfo.enabled, hinfo.name, hinfo.host, hinfo.port, hinfo.nonempty⟩
  · intro order order' nextChoice hperm hperm'
    rw [getChatServer_perm hperm hl, getChatServer_perm hperm' hl]
  · rintro order nextChoice hperm hread
    have hfailed : getChatServer env order nextChoice =
        (.error ErrorCodes.redisError, nextChoice) := by
      rw [getChatServer_perm hperm hl, getChatServer_failed hread]
    refine ⟨hfailed, fun uid token stored huid => ?_⟩
    rw [allocate, if_neg (by omega), hfailed]
  · intro orders nextChoice k horders hread hlength hwrap server hserver
    rw [calls_eq hl hread (List.ne_nil_of_mem hserver) horders hwrap, hlength]
    exact Rotation.count_rounds (nodup_least hl) hserver nextChoice k

end CppChat.Status
