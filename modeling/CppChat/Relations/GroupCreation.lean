import CppChat.Relations.GroupSafety
import CppChat.Relations.Tags

/-! # Groups are created once for each key

The key of a creation stays with its group. A later request with the key is compared with
the text stored then, and never changes anything. The text spells the name in characters, so
a name with malformed bytes can have the text of another one.
-/
namespace CppChat.Relations
open Foundation RowLocks
open RowLocks.State (Reports)

/-- What was asked for when a group was created. -/
structure CreatedBy (writeString : Name → Finset ℤ → String) (g : Group)
    (request : GroupRequest) (name : Name) (ids : Finset ℤ) : Prop where
  positive : 0 < g.creator
  asked : creation g.creator request = some (name, g.creationKey, ids)
  spec : g.creationSpec = writeString name ids

/-- The JSON writer spells a name in characters, its own where the bytes are well-formed and
others for malformed ones. Its text determines these characters and the ids. -/
structure Spells (decode : Name → List Char) (writeString : Name → Finset ℤ → String) : Prop where
  decode_utf8 : ∀ cs, decode (utf8 cs) = cs
  writeString_inj : ∀ name ids name' ids',
    writeString name ids = writeString name' ids' ↔ decode name = decode name' ∧ ids = ids'

/-- The request asks for a name of the same characters and the same members, in a list that is
short enough. -/
def SameSpec (decode : Name → List Char) (uid : ℤ) (request : GroupRequest) (name : Name)
    (ids : Finset ℤ) : Prop :=
  (∃ name', request.name = some name' ∧ nameValid (some name') = true ∧
    decode name' = decode name) ∧
  ∃ l : List ℤ, request.members = some (l.map some) ∧ l.length ≤ 31 ∧ insert uid l.toFinset = ids

variable {decode : Name → List Char} {writeString : Name → Finset ℤ → String} {db db' : Tables}
  {ns ns' : List Row} {commit : Bool} {result : Result} {uid : ℤ} {request request' : GroupRequest}
  {thread : ℕ} {name name' : Name} {key : String} {ids ids' : Finset ℤ} {g : Group}

/-- Names of characters are the same when they are spelled the same. -/
theorem Spells.name_eq (hspells : Spells decode writeString) (hname : IsUtf8 name)
    (hname' : IsUtf8 name') (h : decode name' = decode name) : name' = name := by
  obtain ⟨cs, rfl⟩ := hname
  obtain ⟨cs', rfl⟩ := hname'
  rw [hspells.decode_utf8, hspells.decode_utf8] at h
  rw [h]

/-! ## Requests -/

theorem map_some_of_positive {members : List (Option ℤ)}
    (h : ∀ member ∈ members, 0 < member.getD 0) : members = (members.filterMap id).map some := by
  induction members with
  | nil => rfl
  | cons member members ih =>
    cases member with
    | none => exact absurd (h none List.mem_cons_self) (lt_irrefl _)
    | some x =>
      have hrest := ih fun m hm => h m (List.mem_cons_of_mem _ hm)
      rw [List.filterMap_cons, id, List.map_cons, ← hrest]

theorem filterMap_map_some (l : List ℤ) : (l.map some).filterMap id = l := by
  rw [List.filterMap_map]
  exact List.filterMap_some

theorem creation_eq_some (huid : 0 < uid) :
    creation uid request = some (name, key, ids) ↔
      request.name = some name ∧ request.creationKey = some key ∧
        nameValid (some name) = true ∧ keyValid key = true ∧
        2 ≤ ids.card ∧ ids.card ≤ 32 ∧ (∀ id ∈ ids, 0 < id) ∧
        ∃ l : List ℤ, request.members = some (l.map some) ∧ l.length ≤ 31 ∧
          insert uid l.toFinset = ids := by
  constructor
  · intro h
    unfold creation at h
    split at h
    next name' members key' hname hmembers hkey =>
      split at h
      · cases h
      next hvalid =>
        split at h
        · cases h
        next hpositive =>
          dsimp only at h
          split at h
          · cases h
          next hcard =>
            cases h
            simp only [not_or, not_not, not_lt] at hvalid hcard
            simp only [not_exists, not_and, not_le] at hpositive
            have hsome := map_some_of_positive hpositive
            refine ⟨hname, hkey, hvalid.1, hvalid.2.2.2, hcard.1, hcard.2, fun id hid => ?_,
              members.filterMap id, by rw [← hsome]; exact hmembers, ?_, rfl⟩
            · rcases Finset.mem_insert.mp hid with rfl | hid
              · exact huid
              · obtain ⟨member, hmem, rfl⟩ := List.mem_filterMap.mp (List.mem_toFinset.mp hid)
                exact hpositive _ hmem
            · exact (List.length_filterMap_le _ _).trans hvalid.2.2.1
    next => cases h
  · rintro ⟨hname, hkey, hnamed, hkeyed, htwo, hmax, hpositive, l, hmembers, hlength, rfl⟩
    have hnonempty : l.map some ≠ [] := by
      rintro hnil
      rw [List.map_eq_nil_iff.mp hnil] at htwo
      simp at htwo
    have hall : ¬ ∃ member ∈ l.map some, member.getD 0 ≤ 0 := by
      rintro ⟨member, hmem, hle⟩
      obtain ⟨x, hx, rfl⟩ := List.mem_map.mp hmem
      exact absurd (hpositive x (Finset.mem_insert_of_mem (List.mem_toFinset.mpr hx)))
        (not_lt.mpr hle)
    unfold creation
    rw [hname, hmembers, hkey]
    dsimp only
    rw [if_neg, if_neg hall, filterMap_map_some, if_neg (by omega)]
    simp only [not_or, not_not, not_lt]
    exact ⟨hnamed, hnonempty, by simpa using hlength, hkeyed⟩

/-! ## A key that was used before -/

theorem CreatedBy.sameSpec (h : CreatedBy writeString g request name ids)
    (hkey : request'.creationKey = some g.creationKey) :
    (∃ name', creation g.creator request' = some (name', g.creationKey, ids) ∧
      decode name' = decode name) ↔ SameSpec decode g.creator request' name ids := by
  obtain ⟨-, -, -, hkeyed, htwo, hmax, hpositive, -⟩ := (creation_eq_some h.positive).mp h.asked
  constructor
  · rintro ⟨name', hasked, hsame⟩
    obtain ⟨hname, -, hnamed, -, -, -, -, hl⟩ := (creation_eq_some h.positive).mp hasked
    exact ⟨⟨name', hname, hnamed, hsame⟩, hl⟩
  · rintro ⟨⟨name', hname, hnamed, hsame⟩, hl⟩
    exact ⟨name', (creation_eq_some h.positive).mpr
      ⟨hname, hkey, hnamed, hkeyed, htwo, hmax, hpositive, hl⟩, hsame⟩

/-- How a create request with a used key ends. -/
theorem changeGroup_again (hspells : Spells decode writeString) (hdb : GroupsSound db)
    (hg : db (.groupChat thread) = some g)
    (hcreated : CreatedBy writeString g request name ids)
    (hop : request'.op = some "create") (hkey : request'.creationKey = some g.creationKey)
    (h : (changeGroup writeString g.creator request').Ends db ns commit result db' ns') :
    db' = db ∧
      (SameSpec decode g.creator request' name ids → g.active = true →
        g.creator ∈ membersOf db thread →
        commit = true ∧
          result = .group ErrorCodes.success (some (.group (viewOf db thread)))) ∧
      (SameSpec decode g.creator request' name ids →
        ¬ (g.active = true ∧ g.creator ∈ membersOf db thread) →
        Denied commit result ErrorCodes.groupForbidden) ∧
      (¬ SameSpec decode g.creator request' name ids →
        Denied commit result ErrorCodes.errorJson) := by
  have hsame : (∃ name', creation g.creator request' = some (name', g.creationKey, ids) ∧
      decode name' = decode name) ↔ SameSpec decode g.creator request' name ids :=
    hcreated.sameSpec hkey
  unfold changeGroup at h
  rw [if_neg (not_le.mpr hcreated.positive), hop] at h
  dsimp only at h
  rw [if_neg (by decide), if_neg (by decide), if_pos rfl] at h
  cases hasked : creation g.creator request' with
  | none =>
    have hother : ¬ SameSpec decode g.creator request' name ids := by
      rw [← hsame, hasked]
      rintro ⟨name', hnone, -⟩
      cases hnone
    unfold createGroup at h
    rw [hasked] at h
    obtain ⟨rfl, rfl, rfl, -⟩ := h
    exact ⟨rfl, fun h => absurd h hother, fun h => absurd h hother, fun _ => ⟨rfl, rfl⟩⟩
  | some asked =>
    obtain ⟨name', key', ids'⟩ := asked
    obtain rfl : key' = g.creationKey := by
      have hkey' := ((creation_eq_some hcreated.positive).mp hasked).2.1
      exact Option.some.inj (hkey'.symm.trans hkey)
    rw [createGroup_again hasked (hdb.creator thread g hg) (hdb.indexed thread g hg) hg] at h
    have hspec : g.creationSpec = writeString name' ids' ↔
        SameSpec decode g.creator request' name ids := by
      rw [hcreated.spec, hspells.writeString_inj, ← hsame, hasked]
      constructor
      · rintro ⟨hname, rfl⟩
        exact ⟨name', rfl, hname.symm⟩
      · rintro ⟨name'', heq, hname⟩
        cases heq
        exact ⟨hname.symm, rfl⟩
    split at h
    next hother =>
      rw [ne_eq, hspec] at hother
      obtain ⟨rfl, rfl, rfl, -⟩ := h
      exact ⟨rfl, fun h => absurd h hother, fun h => absurd h hother, fun _ => ⟨rfl, rfl⟩⟩
    next hequal =>
      rw [ne_eq, hspec, not_not] at hequal
      split at h
      next hmember =>
        rw [if_neg (by decide), readGroup_ends] at h
        obtain ⟨rfl, rfl, rfl, -⟩ := h
        exact ⟨rfl, fun _ _ _ => ⟨rfl, rfl⟩, fun _ h => absurd hmember h,
          fun h => absurd hequal h⟩
      next hmember =>
        obtain ⟨rfl, rfl, rfl, -⟩ := h
        exact ⟨rfl, fun _ h h' => absurd ⟨h, h'⟩ hmember, fun _ _ => ⟨rfl, rfl⟩,
          fun h => absurd hequal h⟩

/-! ## Runs -/

def SameIdentity (g g' : Group) : Prop :=
  g'.creator = g.creator ∧ g'.creationKey = g.creationKey ∧ g'.creationSpec = g.creationSpec

theorem Change.identity (h : Change writeString uid request db thread db') {th : ℕ}
    (hg : db (.groupChat th) = some g) :
    ∃ g', db' (.groupChat th) = some g' ∧ SameIdentity g g' := by
  by_cases hth : th = thread
  · subst hth
    cases h with
    | read | replayed => exact ⟨g, hg, rfl, rfl, rfl⟩
    | created _ _ _ _ _ _ hnew =>
      rw [hnew] at hg
      cases hg
    | changed _ hg' _ _ hchange hgroup =>
      rw [hg] at hg'
      cases hg'
      exact ⟨_, hgroup, hchange.identity⟩
  · exact ⟨g, (h.other hth).1.trans hg, rfl, rfl, rfl⟩

/-- A new group holds what its creator asked for. -/
theorem Change.creates (h : Change writeString uid request db thread db')
    (hnone : db (.groupChat thread) = none) (hempty : membersOf db thread = ∅)
    (hg : db' (.groupChat thread) = some g) :
    g.creator = uid ∧ request.op = some "create" ∧
      ∃ name ids, CreatedBy writeString g request name ids ∧ membersOf db' thread = ids := by
  cases h with
  | read _ hg' | replayed _ _ _ hg' | changed _ hg' =>
    rw [hnone] at hg'
    cases hg'
  | @created name key ids _ hop huid hcreation huser hentry hthread hnew hfriends hthread' hentry'
      hgroup hmembers hrest =>
    rw [hgroup] at hg
    cases hg
    rw [hempty, Finset.empty_union] at hmembers
    exact ⟨rfl, hop, name, ids, ⟨huid, hcreation, rfl⟩, hmembers⟩

variable {s s' : State Val Result Operation} {a : Action Operation}

theorem identity_step (hs : (engine (service writeString) GroupsSound).Reachable s)
    (h : s.step (service writeString) a = some s') (hg : s.db (.groupChat thread) = some g) :
    ∃ g', s'.db (.groupChat thread) = some g' ∧ SameIdentity g g' := by
  have hdisciplined := service_disciplined writeString
  obtain ⟨t, -, hst⟩ := (engine_simulates hdisciplined).reachable hs
  rcases State.step_abstracts ((inv_engine hdisciplined).reachable hs) hst h with
    ⟨-, hdb, -⟩ | ⟨op, result, ns, t', hc, -, -⟩
  · exact ⟨g, by rw [hdb]; exact hg, rfl, rfl, rfl⟩
  · rcases ends_cases hc.ends with ⟨uid, request, rfl⟩ | hframe
    · rcases changeGroup_ends hc.ends with ⟨_, -, hdenied⟩ | ⟨_, _, -, hchange, -, -⟩
      · cases hdenied.1
      · exact hchange.identity hg
    · exact ⟨g, (hframe _ id).trans hg, rfl, rfl, rfl⟩

theorem identity_run (hs : (engine (service writeString) GroupsSound).Reachable s)
    (hrun : (engine (service writeString) GroupsSound).Run s s')
    (hg : s.db (.groupChat thread) = some g) :
    ∃ g', s'.db (.groupChat thread) = some g' ∧ SameIdentity g g' := by
  induction hrun with
  | refl => exact ⟨g, hg, rfl, rfl, rfl⟩
  | tail hrun hnext ih =>
    obtain ⟨a, ha⟩ := hnext
    obtain ⟨g₁, hg₁, hc₁, hk₁, hs₁⟩ := ih
    obtain ⟨g₂, hg₂, hc₂, hk₂, hs₂⟩ := identity_step (hs.run hrun) ha hg₁
    exact ⟨g₂, hg₂, hc₂.trans hc₁, hk₂.trans hk₁, hs₂.trans hs₁⟩

theorem created_step (hs : (engine (service writeString) GroupsSound).Reachable s)
    (h : s.step (service writeString) a = some s') (hnone : s.db (.groupChat thread) = none)
    (hg : s'.db (.groupChat thread) = some g) :
    ∃ k outcome request name ids, a = .commit k outcome ∧
      (∃ result, Reports s s' k (.changeGroup g.creator request) result) ∧
      request.op = some "create" ∧ CreatedBy writeString g request name ids ∧
      membersOf s'.db thread = ids := by
  have hdisciplined := service_disciplined writeString
  obtain ⟨t, -, hst⟩ := (engine_simulates hdisciplined).reachable hs
  rcases State.step_abstracts ((inv_engine hdisciplined).reachable hs) hst h with
    ⟨-, hdb, -⟩ | ⟨op, result, ns, t', hc, -, -⟩
  · rw [hdb, hnone] at hg
    cases hg
  · obtain ⟨k, outcome, ha, hr⟩ := hc.action
    rcases ends_cases hc.ends with ⟨uid, request, rfl⟩ | hframe
    · rcases changeGroup_ends hc.ends with ⟨_, -, hdenied⟩ | ⟨th, _, -, hchange, -, -⟩
      · cases hdenied.1
      · obtain rfl : thread = th := by
          by_contra hth
          rw [(hchange.other hth).1, hnone] at hg
          cases hg
        obtain ⟨rfl, hop, name, ids, hcreated, hmembers⟩ :=
          hchange.creates hnone ((groupsSound hs).absent thread hnone) hg
        exact ⟨k, outcome, request, name, ids, ha, ⟨_, hr⟩, hop, hcreated, hmembers⟩
    · rw [hframe _ id, hnone] at hg
      cases hg

/-- What a create request with a used key does, and reports unless an SQL error ends it. -/
structure Replay (same : Prop) (g : Group) (thread : ℕ) (db db' : Tables) (result : Result) :
    Prop where
  unchanged : db' = db
  again : result ≠ .group ErrorCodes.databaseError none → same → g.active = true →
    g.creator ∈ membersOf db thread →
    result = .group ErrorCodes.success (some (.group (viewOf db thread)))
  gone : result ≠ .group ErrorCodes.databaseError none → same →
    ¬ (g.active = true ∧ g.creator ∈ membersOf db thread) →
    result = .group ErrorCodes.groupForbidden none
  other : result ≠ .group ErrorCodes.databaseError none → ¬ same →
    result = .group ErrorCodes.errorJson none

theorem replay_step (hspells : Spells decode writeString)
    (hs : (engine (service writeString) GroupsSound).Reachable s)
    (h : s.step (service writeString) a = some s') (hg : s.db (.groupChat thread) = some g)
    (hcreated : CreatedBy writeString g request name ids) {k : ℕ}
    (hop : request'.op = some "create") (hkey : request'.creationKey = some g.creationKey)
    (hr : Reports s s' k (.changeGroup g.creator request') result) :
    Replay (SameSpec decode g.creator request' name ids) g thread s.db s'.db result := by
  have hinv := (inv_engine (service_disciplined writeString)).reachable hs
  have hsound := groupsSound hs
  rcases hinv.reports h hr with ⟨hdb, -, hfailed | ⟨db, ns, hends⟩⟩ |
    ⟨outcome, r, db, ns, -, hends, hdb, hresult⟩
  · exact ⟨hdb, fun hne => absurd hfailed hne, fun hne => absurd hfailed hne,
      fun hne => absurd hfailed hne⟩
  · obtain ⟨-, hagain, hgone, hother⟩ :=
      changeGroup_again hspells hsound hg hcreated hop hkey hends
    refine ⟨hdb, fun _ hsame hactive hmember => ?_, fun _ hsame hout => (hgone hsame hout).2,
      fun _ hdiffers => (hother hdiffers).2⟩
    cases (hagain hsame hactive hmember).1
  · obtain ⟨rfl, hagain, hgone, hother⟩ :=
      changeGroup_again hspells hsound hg hcreated hop hkey hends
    rw [ite_self] at hdb
    split at hresult
    · subst hresult
      refine ⟨hdb, fun _ hsame hactive hmember => (hagain hsame hactive hmember).2,
        fun _ hsame hout => (hgone hsame hout).2, fun _ hdiffers => (hother hdiffers).2⟩
    · exact ⟨hdb, fun hne => absurd hresult hne, fun hne => absurd hresult hne,
        fun hne => absurd hresult hne⟩

/-- A group keeps its key for good, no other group has it, and whoever asks for it again gets
the group as it is, or an error. -/
theorem creation_idempotent (hspells : Spells decode writeString)
    (hs : (engine (service writeString) GroupsSound).Reachable s) :
    (∀ a s', (engine (service writeString) GroupsSound).step s a s' → ∀ thread g,
      s.db (.groupChat thread) = none → s'.db (.groupChat thread) = some g →
      ∃ k outcome request name ids, a = .commit k outcome ∧
        (∃ result, Reports s s' k (.changeGroup g.creator request) result) ∧
        request.op = some "create" ∧ CreatedBy writeString g request name ids ∧
        membersOf s'.db thread = ids) ∧
    ∀ thread g, s.db (.groupChat thread) = some g →
      ∀ s₁, (engine (service writeString) GroupsSound).Run s s₁ →
      ∃ g₁, s₁.db (.groupChat thread) = some g₁ ∧ SameIdentity g g₁ ∧
        (∀ th g', s₁.db (.groupChat th) = some g' → g'.creator = g.creator →
          g'.creationKey = g.creationKey → th = thread) ∧
        ∀ request name ids, CreatedBy writeString g request name ids →
        (∀ request' name', SameSpec decode g.creator request' name ids → IsUtf8 name →
          request'.name = some name' → IsUtf8 name' → name' = name) ∧
        ∀ a s₂, (engine (service writeString) GroupsSound).step s₁ a s₂ → ∀ k request' result,
          request'.op = some "create" → request'.creationKey = some g.creationKey →
          Reports s₁ s₂ k (.changeGroup g.creator request') result →
          Replay (SameSpec decode g.creator request' name ids) g₁ thread s₁.db s₂.db result := by
  refine ⟨fun a s' h thread g => created_step hs h, fun thread g hg s₁ hrun => ?_⟩
  obtain ⟨g₁, hg₁, hidentity⟩ := identity_run hs hrun hg
  obtain ⟨hcreator, hkey, hspec⟩ := hidentity
  have hsound := groupsSound (hs.run hrun)
  refine ⟨g₁, hg₁, ⟨hcreator, hkey, hspec⟩, fun th g' hg' hc hk => ?_, ?_⟩
  · have h₁ := hsound.indexed thread g₁ hg₁
    have h₂ := hsound.indexed th g' hg'
    rw [hcreator, hkey] at h₁
    rw [hc, hk, h₁] at h₂
    exact (Option.some.inj h₂).symm
  · intro request name ids hcreated
    refine ⟨?_, fun a s₂ h k request' result hop hkey' hr => ?_⟩
    · rintro request' name' ⟨⟨name'', hasked, -, hsame⟩, -⟩ hname hasked' hname'
      cases hasked.symm.trans hasked'
      exact hspells.name_eq hname hname' hsame
    have hcreated₁ : CreatedBy writeString g₁ request name ids := by
      refine ⟨?_, ?_, hspec.trans hcreated.spec⟩
      · rw [hcreator]
        exact hcreated.positive
      · rw [hcreator, hkey]
        exact hcreated.asked
    rw [← hcreator] at hr ⊢
    rw [← hkey] at hkey'
    exact replay_step hspells (hs.run hrun) h hg₁ hcreated₁ hop hkey' hr

/-! ## A run

The writer spells a malformed byte U+FFFD and writes it, like every character beyond ASCII, as
an escape.
-/

def digits (id : ℤ) : List Char :=
  if 0 ≤ id then Nat.toDigits 10 id.toNat else '-' :: Nat.toDigits 10 (-id).toNat

def idsText : List ℤ → List Char
  | [] => [']']
  | [id] => digits id ++ [']']
  | id :: next :: ids => digits id ++ ',' :: idsText (next :: ids)

def asciiChar (b : UInt8) : Char := .ofNat b.toNat

def specText (name : Name) (ids : Finset ℤ) : String :=
  .ofList ("\x7b\"members\":[".toList ++ (idsText (ascending ids) ++ (",\"name\":".toList ++
    ((JsonText.quoted (Tags.decodeOrReplace name)).map asciiChar ++ "\x7d".toList))))

def DigitChar (c : Char) : Prop := c.isDigit = true ∨ c = '-'

instance (c : Char) : Decidable (DigitChar c) :=
  inferInstanceAs (Decidable (c.isDigit = true ∨ c = '-'))

theorem digits_chars {id : ℤ} {c : Char} (h : c ∈ digits id) : DigitChar c := by
  unfold digits at h
  split at h
  · exact .inl (Nat.isDigit_of_mem_toDigits (by decide) (by decide) h)
  · rcases List.mem_cons.mp h with rfl | h
    · exact .inr rfl
    · exact .inl (Nat.isDigit_of_mem_toDigits (by decide) (by decide) h)

theorem toDigits_injective {m n : ℕ} (h : Nat.toDigits 10 m = Nat.toDigits 10 n) : m = n := by
  rw [← Nat.ofDigitChars_ten_toDigits (n := m), h, Nat.ofDigitChars_ten_toDigits]

theorem not_minus {n : ℕ} {l : List Char} : Nat.toDigits 10 n ≠ '-' :: l := by
  intro h
  have hdigit := Nat.isDigit_of_mem_toDigits (by decide) (by decide)
    (h ▸ List.mem_cons_self : '-' ∈ Nat.toDigits 10 n)
  exact absurd hdigit (by decide)

theorem digits_injective {x y : ℤ} (h : digits x = digits y) : x = y := by
  unfold digits at h
  split at h
  next hx =>
    split at h
    next hy =>
      have := toDigits_injective h
      omega
    next => exact absurd h not_minus
  next hx =>
    split at h
    next => exact absurd h.symm not_minus
    next hy =>
      have := toDigits_injective (List.cons.inj h).2
      omega

theorem append_mark_injective {l l' r r' : List Char} {m m' : Char}
    (hl : ∀ c ∈ l, DigitChar c) (hl' : ∀ c ∈ l', DigitChar c) (hm : ¬ DigitChar m)
    (hm' : ¬ DigitChar m') (h : l ++ m :: r = l' ++ m' :: r') : l = l' ∧ m = m' ∧ r = r' := by
  induction l generalizing l' with
  | nil =>
    cases l' with
    | nil =>
      obtain ⟨rfl, rfl⟩ := List.cons.inj h
      exact ⟨rfl, rfl, rfl⟩
    | cons c l' =>
      obtain ⟨rfl, -⟩ := List.cons.inj h
      exact absurd (hl' m List.mem_cons_self) hm
  | cons c l ih =>
    cases l' with
    | nil =>
      obtain ⟨rfl, -⟩ := List.cons.inj h
      exact absurd (hl c List.mem_cons_self) hm'
    | cons c' l' =>
      rw [List.cons_append, List.cons_append] at h
      obtain ⟨rfl, htail⟩ := List.cons.inj h
      obtain ⟨rfl, hrest⟩ := ih (fun d hd => hl d (List.mem_cons_of_mem _ hd))
        (fun d hd => hl' d (List.mem_cons_of_mem _ hd)) htail
      exact ⟨rfl, hrest⟩

theorem digits_ne_nil (id : ℤ) : digits id ≠ [] := by
  unfold digits
  split
  · exact Nat.toDigits_ne_nil
  · exact List.cons_ne_nil _ _

theorem digits_mark_injective {x y : ℤ} {m m' : Char} {r r' : List Char} (hm : ¬ DigitChar m)
    (hm' : ¬ DigitChar m') (h : digits x ++ m :: r = digits y ++ m' :: r') :
    x = y ∧ m = m' ∧ r = r' := by
  obtain ⟨hdigits, hrest⟩ :=
    append_mark_injective (fun _ => digits_chars) (fun _ => digits_chars) hm hm' h
  exact ⟨digits_injective hdigits, hrest⟩

theorem digits_mark_ne {x : ℤ} {m m' : Char} {r r' : List Char} (hm : ¬ DigitChar m)
    (hm' : ¬ DigitChar m') : digits x ++ m :: r ≠ m' :: r' := fun h =>
  have hempty : ∀ c ∈ ([] : List Char), DigitChar c := nofun
  digits_ne_nil x (append_mark_injective (fun _ => digits_chars) hempty hm hm' h).1

theorem idsText_injective {l l' : List ℤ} {t t' : List Char}
    (h : idsText l ++ t = idsText l' ++ t') : l = l' ∧ t = t' := by
  have hend : ¬ DigitChar ']' := by decide
  have hcomma : ¬ DigitChar ',' := by decide
  induction l generalizing l' with
  | nil =>
    match l' with
    | [] => exact ⟨rfl, (List.cons.inj h).2⟩
    | [_] => exact absurd (by simpa [idsText] using h.symm) (digits_mark_ne hend hend)
    | _ :: _ :: _ => exact absurd (by simpa [idsText] using h.symm) (digits_mark_ne hcomma hend)
  | cons id l ih =>
    match l, l' with
    | [], [] => exact absurd (by simpa [idsText] using h) (digits_mark_ne hend hend)
    | _ :: _, [] => exact absurd (by simpa [idsText] using h) (digits_mark_ne hcomma hend)
    | [], [id'] =>
      have heq : digits id ++ ']' :: t = digits id' ++ ']' :: t' := by simpa [idsText] using h
      obtain ⟨rfl, -, rfl⟩ := digits_mark_injective hend hend heq
      exact ⟨rfl, rfl⟩
    | [], id' :: j' :: r' =>
      have heq : digits id ++ ']' :: t = digits id' ++ ',' :: (idsText (j' :: r') ++ t') := by
        simpa [idsText] using h
      cases (digits_mark_injective hend hcomma heq).2.1
    | j :: r, [id'] =>
      have heq : digits id ++ ',' :: (idsText (j :: r) ++ t) = digits id' ++ ']' :: t' := by
        simpa [idsText] using h
      cases (digits_mark_injective hcomma hend heq).2.1
    | j :: r, id' :: j' :: r' =>
      have heq : digits id ++ ',' :: (idsText (j :: r) ++ t) =
          digits id' ++ ',' :: (idsText (j' :: r') ++ t') := by
        simpa [idsText] using h
      obtain ⟨rfl, -, hrest⟩ := digits_mark_injective hcomma hcomma heq
      obtain ⟨hlist, rfl⟩ := ih hrest
      rw [hlist]
      exact ⟨rfl, rfl⟩

theorem toNat_asciiChar (b : UInt8) : (asciiChar b).toNat = b.toNat := by
  have hvalid : b.toNat.isValidChar := .inl (by have := b.toNat_lt; omega)
  unfold asciiChar Char.ofNat
  rw [dif_pos hvalid]
  rfl

theorem asciiChar_injective : Function.Injective asciiChar := by
  intro a b h
  rw [← UInt8.toNat_inj, ← toNat_asciiChar, h, toNat_asciiChar]

theorem specText_spells : Spells Tags.decodeOrReplace specText where
  decode_utf8 := Tags.decodeOrReplace_utf8
  writeString_inj name ids name' ids' := by
    constructor
    · intro h
      have hlist := String.ofList_injective h
      obtain ⟨hids, hname⟩ := idsText_injective (List.append_cancel_left hlist)
      have hquoted := List.map_injective_iff.mpr asciiChar_injective
        (List.append_cancel_right (List.append_cancel_left hname))
      refine ⟨JsonText.quoted_injective hquoted, ?_⟩
      ext id
      rw [← mem_ascending, hids, mem_ascending]
    · rintro ⟨hname, rfl⟩
      unfold specText
      rw [hname]

def createRequest (name : Name) (members : List (Option ℤ)) : GroupRequest :=
  ⟨some "create", some name, some members, some "second", none, none⟩

/-- The character that malformed bytes are replaced by. -/
def sampleName : Name := utf8 ['\uFFFD']

/-- The first user creates a group with the second. -/
def createPair : List (Action Operation) :=
  [.begin 0 (.changeGroup 1 (createRequest sampleName [some 2]))] ++
    List.replicate 11 (.statement 0 8) ++ [.commit 0 .ok]

def pairGroup : Group := ⟨sampleName, 1, 1, "second", specText sampleName {1, 2}, true⟩

example : pairGroup.creationSpec = "\x7b\"members\":[1,2],\"name\":\"\\ufffd\"\x7d" := by
  decide +kernel

theorem createdBy_pairGroup :
    CreatedBy specText pairGroup (createRequest sampleName [some 2]) sampleName {1, 2} :=
  ⟨by decide, by decide, rfl⟩

/-- The same members with a repeat and the creator. -/
def sameRequest : GroupRequest := createRequest sampleName [some 2, some 1, some 2]

/-- A byte of no character for a name. -/
def malformedRequest : GroupRequest := createRequest [0xFF] [some 2]

/-- The friend, listed 32 times. -/
def longRequest : GroupRequest := createRequest sampleName ((List.replicate 32 2).map some)

/-- A second request with the key has made its statements, and a third one has none to make. -/
def askAgain (request : GroupRequest) : List (Action Operation) :=
  createPair ++ [.begin 1 (.changeGroup 1 request)] ++ List.replicate 6 (.statement 1 0) ++
    [.begin 2 (.changeGroup 1 longRequest)]

def callOf (s : State Val Result Operation) (k : ℕ) : Option (Operation × Option Result) :=
  (s.calls k).map fun c => (c.op, c.result)

theorem reports_of_callOf {k : ℕ} {op : Operation} (hcall : callOf s k = some (op, none))
    (hcall' : callOf s' k = some (op, some result)) : Reports s s' k op result := by
  obtain ⟨⟨_, stage⟩, hc, heq⟩ := Option.map_eq_some_iff.mp hcall
  obtain ⟨⟨_, stage'⟩, hc', heq'⟩ := Option.map_eq_some_iff.mp hcall'
  cases stage with
  | finished _ => cases heq
  | running n x =>
    cases stage' with
    | running _ _ => cases heq'
    | finished _ =>
      cases heq
      cases heq'
      exact ⟨⟨n, x, hc⟩, hc'⟩

/-- The group is there and its creator a member; how the two later requests end. -/
theorem askAgain_run {request : GroupRequest} (h : request ∈ [sameRequest, malformedRequest]) :
    ∃ s s' s'', Machine.runFn (State.step (service specText)) sampleStart (askAgain request) =
        some s ∧
      s.db (.groupChat 8) = some pairGroup ∧ membersOf s.db 8 = {1, 2} ∧
      s.step (service specText) (.commit 1 .ok) = some s' ∧
      Reports s s' 1 (.changeGroup 1 request)
        (.group ErrorCodes.success (some (.group (some ⟨8, sampleName, 1, {2, 1}⟩)))) ∧
      s.step (service specText) (.rollback 2) = some s'' ∧
      Reports s s'' 2 (.changeGroup 1 longRequest) (.group ErrorCodes.errorJson none) := by
  have hrun : ((Machine.runFn (State.step (service specText)) sampleStart (askAgain request)).bind
      fun s => (s.step (service specText) (.commit 1 .ok)).bind fun s' =>
        (s.step (service specText) (.rollback 2)).map fun s'' =>
          decide (s.db (.groupChat 8) = some pairGroup ∧ membersOf s.db 8 = {1, 2} ∧
            callOf s 1 = some (.changeGroup 1 request, none) ∧
            callOf s' 1 = some (.changeGroup 1 request, some (.group ErrorCodes.success
              (some (.group (some ⟨8, sampleName, 1, {2, 1}⟩))))) ∧
            callOf s 2 = some (.changeGroup 1 longRequest, none) ∧
            callOf s'' 2 = some (.changeGroup 1 longRequest,
              some (.group ErrorCodes.errorJson none)))) = some true := by
    simp only [List.mem_cons, List.not_mem_nil, or_false] at h
    rcases h with rfl | rfl <;> decide +kernel
  obtain ⟨s, hs, hview⟩ := Option.bind_eq_some_iff.mp hrun
  obtain ⟨s', hs', hview⟩ := Option.bind_eq_some_iff.mp hview
  obtain ⟨s'', hs'', hview⟩ := Option.map_eq_some_iff.mp hview
  obtain ⟨hgroup, hmembers, hcall, hcall', hlong, hlong'⟩ := of_decide_eq_true hview
  exact ⟨s, s', s'', hs, hgroup, hmembers, hs', reports_of_callOf hcall hcall', hs'',
    reports_of_callOf hlong hlong'⟩

/-- The request is repeated with a list that names the friend twice and the creator. -/
theorem creation_idempotent_sample : ∃ s s' result,
    Machine.runFn (State.step (service specText)) sampleStart (askAgain sameRequest) = some s ∧
    s.db (.groupChat 8) = some pairGroup ∧ s.step (service specText) (.commit 1 .ok) = some s' ∧
    Reports s s' 1 (.changeGroup 1 sameRequest) result ∧
    Replay (SameSpec Tags.decodeOrReplace 1 sameRequest sampleName {1, 2}) pairGroup 8 s.db s'.db
      result ∧
    result = .group ErrorCodes.success (some (.group (viewOf s.db 8))) := by
  obtain ⟨s, s', -, hs, hgroup, hmembers, hstep, hreports, -⟩ := askAgain_run List.mem_cons_self
  have hreachable := (reachable_sampleStart specText).runFn hs
  obtain ⟨g₁, hg₁, -, -, hlater⟩ :=
    (creation_idempotent specText_spells hreachable).2 8 pairGroup hgroup s .refl
  obtain rfl : pairGroup = g₁ := Option.some_inj.mp (hgroup.symm.trans hg₁)
  have hreplay := (hlater _ _ _ createdBy_pairGroup).2 _ _ hstep _ _ _ rfl rfl hreports
  refine ⟨s, s', _, hs, hgroup, hstep, hreports, hreplay, hreplay.again (by decide) ?_ rfl ?_⟩
  · exact ⟨⟨sampleName, rfl, by decide, rfl⟩, [2, 1, 2], rfl, by decide, by decide⟩
  · rw [hmembers]
    decide

/-- The group is there and its creator a member. A request with the same name and the same
members, the friend listed 32 times, is refused as malformed; one with another name, of a
malformed byte that is written like the name of the group, gets the group. -/
theorem same_specification_differs : ∃ s, (engine (service specText) GroupsSound).Reachable s ∧
    s.db (.groupChat 8) = some pairGroup ∧ pairGroup.active = true ∧ 1 ∈ membersOf s.db 8 ∧
    CreatedBy specText pairGroup (createRequest sampleName [some 2]) sampleName {1, 2} ∧
    insert 1 (List.replicate 32 (2 : ℤ)).toFinset = ({1, 2} : Finset ℤ) ∧
    (∃ s', (engine (service specText) GroupsSound).step s (.rollback 2) s' ∧
      Reports s s' 2 (.changeGroup 1 (createRequest sampleName ((List.replicate 32 2).map some)))
        (.group ErrorCodes.errorJson none)) ∧
    [0xFF] ≠ sampleName ∧
    ∃ s', (engine (service specText) GroupsSound).step s (.commit 1 .ok) s' ∧
      Reports s s' 1 (.changeGroup 1 (createRequest [0xFF] [some 2]))
        (.group ErrorCodes.success (some (.group (some ⟨8, sampleName, 1, {2, 1}⟩)))) := by
  obtain ⟨s, s', s'', hs, hgroup, hmembers, hstep, hreports, hstep', hreports'⟩ :=
    askAgain_run (List.mem_cons_of_mem sameRequest (List.mem_singleton_self malformedRequest))
  refine ⟨s, (reachable_sampleStart specText).runFn hs, hgroup, rfl, ?_, createdBy_pairGroup,
    by decide, ⟨s'', hstep', hreports'⟩, by decide, s', hstep, hreports⟩
  rw [hmembers]
  decide

end CppChat.Relations
