import CppChat.Relations.ContactSteps
import CppChat.Relations.GroupSteps

/-! # Contacts in every reachable state

Friend rows come and go in pairs, each private chat is kept under its ordered pair, and the
applications are the ones submitted since the last deletion.
-/
namespace CppChat.Relations
open Foundation RowLocks

/-- The application is in the table at the start, or was submitted later, and the users have
not been deleted since. -/
def Pending (start : Tables) : List (Operation × Result) → ℤ → ℤ → Prop
  | [], fromUid, toUid => (start (.friendApply fromUid toUid)).isSome = true
  | (.addFriendApply u v _ _ _, .applied true true) :: log, fromUid, toUid =>
    (fromUid = u ∧ toUid = v) ∨ Pending start log fromUid toUid
  | (.deleteFriend u v, _) :: log, fromUid, toUid =>
    ¬ (fromUid = u ∧ toUid = v ∨ fromUid = v ∧ toUid = u) ∧ Pending start log fromUid toUid
  | _ :: log, fromUid, toUid => Pending start log fromUid toUid

/-- A symmetric friend table, and private chats as the statements write them. -/
structure ContactStart (db : Tables) : Prop where
  symmetric : ∀ u v, (db (.friend u v)).isSome = (db (.friend v u)).isSome
  ordered : ∀ u v, (db (.privateChat u v)).isSome → u < v

structure ContactsSound (start : Tables) (t : Store Val Result Operation) : Prop where
  symmetric : ∀ u v, (t.db (.friend u v)).isSome = (t.db (.friend v u)).isSome
  ordered : ∀ u v, (t.db (.privateChat u v)).isSome → u < v
  pending : ∀ u v, (t.db (.friendApply u v)).isSome = true ↔ Pending start t.log u v

variable {writeString : Name → Finset ℤ → String} {db db' start : Tables} {ns ns' : List Row}
  {commit : Bool} {result : Result} {uid : ℤ} {request : GroupRequest} {thread : ℕ}

/-! ## The effects keep the contacts sound -/

theorem Change.contacts (h : Change writeString uid request db thread db') :
    SameContacts db db' ∧ ∀ u v, db' (.friendApply u v) = db (.friendApply u v) := by
  cases h with
  | read | replayed => exact ⟨⟨fun _ _ => rfl, fun _ _ => rfl, fun _ => rfl⟩, fun _ _ => rfl⟩
  | created _ _ _ _ _ _ _ _ _ _ _ _ hrest =>
    exact ⟨⟨fun _ _ => hrest _ (by simp) (by simp) (by simp) (by simp),
      fun _ _ => hrest _ (by simp) (by simp) (by simp) (by simp),
      fun _ => hrest _ (by simp) (by simp) (by simp) (by simp)⟩,
      fun _ _ => hrest _ (by simp) (by simp) (by simp) (by simp)⟩
  | changed _ _ _ _ _ _ hrest =>
    exact ⟨⟨fun _ _ => hrest _ (by simp) (by simp), fun _ _ => hrest _ (by simp) (by simp),
      fun _ => hrest _ (by simp) (by simp)⟩, fun _ _ => hrest _ (by simp) (by simp)⟩

theorem Paired.ordered {first second : ℤ} (h : Paired first second thread db db')
    (hlt : first < second) (hdb : ∀ u v, (db (.privateChat u v)).isSome → u < v) (u v : ℤ)
    (hchat : (db' (.privateChat u v)).isSome) : u < v := by
  by_cases huv : u = first ∧ v = second
  · obtain ⟨rfl, rfl⟩ := huv
    exact hlt
  · rw [h.rest u v huv] at hchat
    exact hdb u v hchat

theorem Established.symmetric {fromUid toUid : ℤ} {remark tags : String} {a : Apply}
    {messages : List (ℕ × ChatMessage)}
    (h : Established fromUid toUid remark tags a thread messages db db')
    (hdb : ∀ u v, (db (.friend u v)).isSome = (db (.friend v u)).isSome) (u v : ℤ) :
    (db' (.friend u v)).isSome = (db' (.friend v u)).isSome := by
  by_cases h₁ : u = fromUid ∧ v = toUid
  · obtain ⟨rfl, rfl⟩ := h₁
    rw [h.mine, h.other]
    rfl
  · by_cases h₂ : u = toUid ∧ v = fromUid
    · obtain ⟨rfl, rfl⟩ := h₂
      rw [h.mine, h.other]
      rfl
    · rw [h.friends u v h₁ h₂, h.friends v u (fun h => h₂ ⟨h.2, h.1⟩) fun h => h₁ ⟨h.2, h.1⟩]
      exact hdb u v

variable {t t' : Store Val Result Operation}

theorem ContactsSound.step {op : Operation} (ht : ContactsSound start t)
    (h : t.Commits (service writeString) op result ns t') : ContactsSound start t' := by
  obtain ⟨hends, -, -, -, hlog⟩ := h
  obtain ⟨hsymmetric, hordered, hpending⟩ := ht
  cases op with
  | addFriendApply u v description remark tags =>
    rcases addFriendApply_ends hends with ⟨-, hcommit, -⟩ |
      ⟨-, hne, ⟨hdb, rfl, hboth⟩ | ⟨rfl, hboth, hdb⟩⟩
    · cases hcommit
    · refine ⟨?_, ?_, fun x y => ?_⟩
      · rw [hdb]
        exact hsymmetric
      · rw [hdb]
        exact hordered
      · rw [hdb, hlog]
        exact hpending x y
    · refine ⟨fun x y => ?_, fun x y => ?_, fun x y => ?_⟩
      · rw [hdb, Function.update_of_ne (by simp), Function.update_of_ne (by simp)]
        exact hsymmetric x y
      · rw [hdb, Function.update_of_ne (by simp)]
        exact hordered x y
      · rw [hdb, hlog, Pending, ← hpending x y]
        by_cases hxy : x = u ∧ y = v
        · obtain ⟨rfl, rfl⟩ := hxy
          simp
        · rw [Function.update_of_ne (by simpa using hxy)]
          simp [hxy]
  | addFriend u v remark tags =>
    rcases addFriend_ends hends with ⟨-, hcommit, -⟩ |
      ⟨-, hne, ⟨-, rfl, hsame, happlications⟩ | ⟨a, thread, messages, rfl, hestablished⟩⟩
    · cases hcommit
    · refine ⟨fun x y => ?_, fun x y => ?_, fun x y => ?_⟩
      · rw [hsame.friends, hsame.friends]
        exact hsymmetric x y
      · rw [hsame.chats]
        exact hordered x y
      · rw [happlications, hlog]
        exact hpending x y
    · refine ⟨hestablished.symmetric hsymmetric,
        hestablished.paired.ordered (min_lt_max.mpr hne) hordered, fun x y => ?_⟩
      rw [hestablished.applications, hlog]
      exact hpending x y
  | deleteFriend u v =>
    rcases deleteFriend_ends hends with ⟨-, hcommit, -⟩ |
      ⟨-, rfl, hne, hgone, hrest, hchats, -⟩
    · cases hcommit
    · refine ⟨fun x y => ?_, fun x y => ?_, fun x y => ?_⟩
      · by_cases hxy : x = u ∧ y = v ∨ x = v ∧ y = u
        · rw [(hgone x y hxy).1, (hgone y x (hxy.symm.imp And.symm And.symm)).1]
        · rw [(hrest x y hxy).1, (hrest y x fun h => hxy (h.symm.imp And.symm And.symm)).1]
          exact hsymmetric x y
      · rw [hchats]
        exact hordered x y
      · rw [hlog, Pending, ← hpending x y]
        by_cases hxy : x = u ∧ y = v ∨ x = v ∧ y = u
        · rw [(hgone x y hxy).2]
          simp [hxy]
        · rw [(hrest x y hxy).2]
          simp only [hxy, not_false_eq_true, true_and]
  | createPrivateChat u v =>
    rcases createPrivateChat_ends hends with ⟨-, hcommit, -⟩ |
      ⟨-, hne, -, thread, rfl, hpaired, hrest⟩
    · cases hcommit
    · refine ⟨fun x y => ?_, hpaired.ordered (min_lt_max.mpr hne) hordered, fun x y => ?_⟩
      · rw [hrest _ (by simp) (by simp), hrest _ (by simp) (by simp)]
        exact hsymmetric x y
      · rw [hrest _ (by simp) (by simp), hlog]
        exact hpending x y
  | changeGroup uid request =>
    rcases changeGroup_ends hends with ⟨_, -, hdenied⟩ | ⟨thread, op, -, hchange, -, -⟩
    · cases hdenied.1
    · obtain ⟨hsame, happlications⟩ := hchange.contacts
      refine ⟨fun x y => ?_, fun x y => ?_, fun x y => ?_⟩
      · rw [hsame.friends, hsame.friends]
        exact hsymmetric x y
      · rw [hsame.chats]
        exact hordered x y
      · rw [happlications, hlog]
        exact hpending x y

theorem contactsSound_atomic (hstart : ContactStart start) :
    (atomic (service writeString) (· = start)).Invariant (ContactsSound start) where
  init t h := by
    obtain ⟨rfl, -, hlog⟩ := h
    refine ⟨hstart.symmetric, hstart.ordered, fun u v => ?_⟩
    rw [hlog]
    rfl
  step _ _ _ _ ht h := by
    obtain ⟨result, ns, hcommits⟩ := h
    exact ht.step hcommits

end CppChat.Relations
