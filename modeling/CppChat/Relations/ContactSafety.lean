import CppChat.Relations.ContactInvariant

/-! # Contacts are safe

How friendships, private chats and their first messages come about, said of every step of
every interleaving.
-/
namespace CppChat.Relations
open Foundation RowLocks
open RowLocks.State (Reports)

/-- A commit by which `fromUid` accepts the pending application of `toUid`. -/
structure Accepts (start : Tables) (s : State Val Result Operation) (a : Action Operation)
    (s' : State Val Result Operation) (fromUid toUid : ℤ)
    (messages : List (ℕ × ChatMessage)) : Prop where
  pending : Pending start s.log toUid fromUid
  established : ∃ remark tags application thread,
    Established fromUid toUid remark tags application thread messages s.db s'.db ∧
    ∃ k outcome, a = .commit k outcome ∧ Reports s s' k (.addFriend fromUid toUid remark tags)
      (if outcome = .ok then .befriended true messages else .befriended false [])

/-- What one step may do to the contacts, and report. -/
structure ContactLaws (start : Tables) (s : State Val Result Operation) (a : Action Operation)
    (s' : State Val Result Operation) : Prop where
  committed : (∀ k outcome, a ≠ .commit k outcome) → s'.db = s.db
  befriended : ∀ u v, s.db (.friend u v) = none → (s'.db (.friend u v)).isSome →
    ∃ fromUid toUid messages, (u = fromUid ∧ v = toUid ∨ u = toUid ∧ v = fromUid) ∧
      Accepts start s a s' fromUid toUid messages
  kept : ∀ u v row, s.db (.friend u v) = some row → s'.db (.friend u v) = some row ∨
    s'.db (.friend u v) = none ∧ ∃ k selfUid friendUid result,
      (u = selfUid ∧ v = friendUid ∨ u = friendUid ∧ v = selfUid) ∧
      Reports s s' k (.deleteFriend selfUid friendUid) result
  messages : ∀ id, s'.db (.chatMessage id) ≠ s.db (.chatMessage id) →
    ∃ fromUid toUid messages, Accepts start s a s' fromUid toUid messages ∧
      id ∈ messages.map Prod.fst
  chats : ∀ u v thread, s.db (.privateChat u v) = some thread →
    s'.db (.privateChat u v) = some thread
  accepted : ∀ k fromUid toUid remark tags messages,
    Reports s s' k (.addFriend fromUid toUid remark tags) (.befriended true messages) →
    Accepts start s a s' fromUid toUid messages ∨
      Befriended s.db fromUid toUid ∧ messages = [] ∧ SameContacts s.db s'.db
  failed : ∀ k fromUid toUid remark tags messages,
    Reports s s' k (.addFriend fromUid toUid remark tags) (.befriended false messages) →
    messages = []

variable {writeString : Name → Finset ℤ → String} {start : Tables}
  {s s' : State Val Result Operation} {a : Action Operation}

theorem contactsSound (hstart : ContactStart start)
    (hs : (engine (service writeString) (· = start)).Reachable s) :
    ContactsSound start ⟨s.db, [], s.log⟩ := by
  obtain ⟨t, -, ⟨hdb, hlog, -⟩, ht⟩ :=
    db_of_atomic (service_disciplined writeString) (contactsSound_atomic hstart) hs
  rw [← hdb, ← hlog]
  exact ⟨ht.symmetric, ht.ordered, ht.pending⟩

/-- What a commit does to the friends, the private chats and the messages. -/
theorem committed_cases {op : Operation} {result : Result} {ns : List Row}
    (h : State.Committed (service writeString) s a s' op result ns) :
    SameContacts s.db s'.db ∨
    (∃ u v, op = .deleteFriend u v ∧
      (∀ x y, (x = u ∧ y = v ∨ x = v ∧ y = u) → s'.db (.friend x y) = none) ∧
      (∀ x y, ¬ (x = u ∧ y = v ∨ x = v ∧ y = u) → s'.db (.friend x y) = s.db (.friend x y)) ∧
      (∀ x y, s'.db (.privateChat x y) = s.db (.privateChat x y)) ∧
      ∀ id, s'.db (.chatMessage id) = s.db (.chatMessage id)) ∨
    (∃ first second thread, Paired first second thread s.db s'.db ∧
      (∀ x y, s'.db (.friend x y) = s.db (.friend x y)) ∧
      ∀ id, s'.db (.chatMessage id) = s.db (.chatMessage id)) ∨
    ∃ u v remark tags application thread messages, op = .addFriend u v remark tags ∧
      result = .befriended true messages ∧
      Established u v remark tags application thread messages s.db s'.db := by
  have hends := h.ends
  cases op with
  | addFriendApply =>
    rcases addFriendApply_ends hends with ⟨-, hcommit, -⟩ | ⟨-, -, ⟨hdb, -, -⟩ | ⟨-, -, hdb⟩⟩
    · cases hcommit
    · rw [hdb]
      exact .inl ⟨fun _ _ => rfl, fun _ _ => rfl, fun _ => rfl⟩
    · rw [hdb]
      exact .inl ⟨fun _ _ => Function.update_of_ne (by simp) _ _,
        fun _ _ => Function.update_of_ne (by simp) _ _,
        fun _ => Function.update_of_ne (by simp) _ _⟩
  | addFriend u v remark tags =>
    rcases addFriend_ends hends with ⟨-, hcommit, -⟩ |
      ⟨-, -, ⟨-, -, hsame, -⟩ | ⟨application, thread, messages, hresult, hestablished⟩⟩
    · cases hcommit
    · exact .inl hsame
    · exact .inr (.inr (.inr ⟨u, v, remark, tags, application, thread, messages, rfl, hresult,
        hestablished⟩))
  | deleteFriend u v =>
    rcases deleteFriend_ends hends with ⟨-, hcommit, -⟩ | ⟨-, -, -, hgone, hrest, hchats, hmessages⟩
    · cases hcommit
    · exact .inr (.inl ⟨u, v, rfl, fun x y h => (hgone x y h).1, fun x y h => (hrest x y h).1,
        hchats, hmessages⟩)
  | createPrivateChat u v =>
    rcases createPrivateChat_ends hends with ⟨-, hcommit, -⟩ |
      ⟨-, -, -, thread, -, hpaired, hrest⟩
    · cases hcommit
    · exact .inr (.inr (.inl ⟨_, _, thread, hpaired, fun _ _ => hrest _ (by simp) (by simp),
        fun _ => hrest _ (by simp) (by simp)⟩))
  | changeGroup uid request =>
    rcases changeGroup_ends hends with ⟨_, -, hdenied⟩ | ⟨thread, op, -, hchange, -, -⟩
    · cases hdenied.1
    · exact .inl hchange.contacts.1

theorem Paired.kept {first second x y : ℤ} {thread t : ℕ} {db db' : Tables}
    (h : Paired first second thread db db') (ht : db (.privateChat x y) = some t) :
    db' (.privateChat x y) = some t := by
  by_cases hxy : x = first ∧ y = second
  · obtain ⟨rfl, rfl⟩ := hxy
    rw [h.row, h.reused t ht]
  · rw [h.rest x y hxy, ht]

/-- A friend row that is there keeps its remark and tags. -/
theorem Established.kept {u v x y : ℤ} {remark tags : String} {application : Apply} {thread : ℕ}
    {messages : List (ℕ × ChatMessage)} {db db' : Tables} {row : Friend}
    (h : Established u v remark tags application thread messages db db')
    (hrow : db (.friend x y) = some row) : db' (.friend x y) = some row := by
  by_cases h₁ : x = u ∧ y = v
  · obtain ⟨rfl, rfl⟩ := h₁
    rw [h.mine, hrow, Option.getD_some]
  · by_cases h₂ : x = v ∧ y = u
    · obtain ⟨rfl, rfl⟩ := h₂
      rw [h.other, hrow, Option.getD_some]
    · rw [h.friends x y h₁ h₂, hrow]

theorem Stored.mem_of_ne {messages : List (ℕ × ChatMessage)} {db db' : Tables} {id : ℕ}
    (h : Stored messages db db') (hne : db' (.chatMessage id) ≠ db (.chatMessage id)) :
    id ∈ messages.map Prod.fst := by
  by_contra hid
  exact hne (h.rest id hid)

theorem pending_of_apply (hstart : ContactStart start)
    (hs : (engine (service writeString) (· = start)).Reachable s) {u v : ℤ} {application : Apply}
    (h : s.db (.friendApply u v) = some application) : Pending start s.log u v :=
  ((contactsSound hstart hs).pending u v).mp (Option.isSome_iff_exists.mpr ⟨_, h⟩)

/-- What any step does to the friends, the private chats and the messages. -/
theorem contact_step (hstart : ContactStart start)
    (hs : (engine (service writeString) (· = start)).Reachable s)
    (h : s.step (service writeString) a = some s') :
    SameContacts s.db s'.db ∨
    (∃ u v k result, Reports s s' k (.deleteFriend u v) result ∧
      (∀ x y, (x = u ∧ y = v ∨ x = v ∧ y = u) → s'.db (.friend x y) = none) ∧
      (∀ x y, ¬ (x = u ∧ y = v ∨ x = v ∧ y = u) → s'.db (.friend x y) = s.db (.friend x y)) ∧
      (∀ x y, s'.db (.privateChat x y) = s.db (.privateChat x y)) ∧
      ∀ id, s'.db (.chatMessage id) = s.db (.chatMessage id)) ∨
    (∃ first second thread, Paired first second thread s.db s'.db ∧
      (∀ x y, s'.db (.friend x y) = s.db (.friend x y)) ∧
      ∀ id, s'.db (.chatMessage id) = s.db (.chatMessage id)) ∨
    ∃ u v remark tags application thread messages,
      Established u v remark tags application thread messages s.db s'.db ∧
      Accepts start s a s' u v messages := by
  have hdisciplined := service_disciplined writeString
  obtain ⟨t, -, hst⟩ := (engine_simulates hdisciplined).reachable hs
  rcases State.step_abstracts ((inv_engine hdisciplined).reachable hs) hst h with
    ⟨-, hdb, -⟩ | ⟨op, result, ns, t', hc, -, -⟩
  · rw [hdb]
    exact .inl ⟨fun _ _ => rfl, fun _ _ => rfl, fun _ => rfl⟩
  · rcases committed_cases hc with hsame | ⟨x, y, rfl, hgone, hrest⟩ | hpaired |
      ⟨x, y, remark, tags, application, thread, messages, rfl, rfl, hestablished⟩
    · exact .inl hsame
    · obtain ⟨k, outcome, -, hr⟩ := hc.action
      exact .inr (.inl ⟨x, y, k, _, hr, hgone, hrest⟩)
    · exact .inr (.inr (.inl hpaired))
    · exact .inr (.inr (.inr ⟨x, y, remark, tags, application, thread, messages, hestablished,
        pending_of_apply hstart hs hestablished.incoming, remark, tags, application, thread,
        hestablished, hc.action⟩))

/-- What accepting reports. -/
theorem reports_addFriend (hs : (engine (service writeString) (· = start)).Reachable s)
    (h : s.step (service writeString) a = some s') {k : ℕ} {u v : ℤ} {remark tags : String}
    {success : Bool} {messages : List (ℕ × ChatMessage)}
    (hr : Reports s s' k (.addFriend u v remark tags) (.befriended success messages)) :
    (success = false ∧ messages = []) ∨ success = true ∧ a = .commit k .ok ∧
      ((Befriended s.db u v ∧ messages = [] ∧ SameContacts s.db s'.db) ∨
        ∃ application thread,
          Established u v remark tags application thread messages s.db s'.db) := by
  have hinv := (inv_engine (service_disciplined writeString)).reachable hs
  rcases hinv.reports h hr with ⟨-, -, hfailed | ⟨db, ns, hends⟩⟩ |
    ⟨outcome, r, db, ns, ha, hends, hdb, hresult⟩
  · cases hfailed
    exact .inl ⟨rfl, rfl⟩
  · rcases addFriend_ends hends with ⟨-, -, hresult⟩ | ⟨hcommit, -⟩
    · cases hresult
      exact .inl ⟨rfl, rfl⟩
    · cases hcommit
  · split at hresult
    next hok =>
      subst hok hresult
      rw [if_pos (by decide)] at hdb
      subst hdb
      rcases addFriend_ends hends with ⟨-, hcommit, -⟩ |
        ⟨-, -, ⟨hboth, hresult, hsame, -⟩ | ⟨application, thread, messages', hresult, hest⟩⟩
      · cases hcommit
      · cases hresult
        exact .inr ⟨rfl, ha, .inl ⟨hboth, rfl, hsame⟩⟩
      · cases hresult
        exact .inr ⟨rfl, ha, .inr ⟨application, thread, hest⟩⟩
    next =>
      cases hresult
      exact .inl ⟨rfl, rfl⟩

theorem contactLaws (hstart : ContactStart start)
    (hs : (engine (service writeString) (· = start)).Reachable s)
    (h : s.step (service writeString) a = some s') : ContactLaws start s a s' := by
  have hcases := contact_step hstart hs h
  refine ⟨fun hne => ?_, fun u v hnone hsome => ?_, fun u v row hrow => ?_, fun id hid => ?_,
    fun u v thread hthread => ?_, fun k u v remark tags messages hr => ?_,
    fun k u v remark tags messages hr => ?_⟩
  · have hdisciplined := service_disciplined writeString
    obtain ⟨t, -, hst⟩ := (engine_simulates hdisciplined).reachable hs
    rcases State.step_abstracts ((inv_engine hdisciplined).reachable hs) hst h with
      ⟨-, hdb, -⟩ | ⟨op, result, ns, t', hc, -, -⟩
    · exact hdb
    · obtain ⟨k, outcome, ha, -⟩ := hc.action
      exact absurd ha (hne k outcome)
  · rcases hcases with hsame | ⟨x, y, _, _, -, hgone, hrest, -⟩ | ⟨_, _, _, -, hfriends, -⟩ |
      ⟨x, y, _, _, _, _, messages, hestablished, haccepts⟩
    · rw [hsame.friends, hnone] at hsome
      cases hsome
    · by_cases hxy : u = x ∧ v = y ∨ u = y ∧ v = x
      · rw [hgone u v hxy] at hsome
        cases hsome
      · rw [hrest u v hxy, hnone] at hsome
        cases hsome
    · rw [hfriends, hnone] at hsome
      cases hsome
    · refine ⟨x, y, messages, ?_, haccepts⟩
      by_contra hother
      rw [not_or] at hother
      rw [hestablished.friends u v hother.1 hother.2, hnone] at hsome
      cases hsome
  · rcases hcases with hsame | ⟨x, y, k, result, hr, hgone, hrest, -⟩ | ⟨_, _, _, -, hfriends, -⟩ |
      ⟨x, y, _, _, _, _, messages, hestablished, -⟩
    · exact .inl ((hsame.friends u v).trans hrow)
    · by_cases hxy : u = x ∧ v = y ∨ u = y ∧ v = x
      · exact .inr ⟨hgone u v hxy, k, x, y, result, hxy, hr⟩
      · exact .inl ((hrest u v hxy).trans hrow)
    · exact .inl ((hfriends u v).trans hrow)
    · exact .inl (hestablished.kept hrow)
  · rcases hcases with hsame | ⟨_, _, _, _, -, -, -, -, hmessages⟩ | ⟨_, _, _, -, -, hmessages⟩ |
      ⟨x, y, _, _, _, _, messages, hestablished, haccepts⟩
    · exact absurd (hsame.messages id) hid
    · exact absurd (hmessages id) hid
    · exact absurd (hmessages id) hid
    · exact ⟨x, y, messages, haccepts, hestablished.stored.mem_of_ne hid⟩
  · rcases hcases with hsame | ⟨_, _, _, _, -, -, -, hchats, -⟩ | ⟨_, _, _, hpaired, -, -⟩ |
      ⟨_, _, _, _, _, _, _, hestablished, -⟩
    · exact (hsame.chats u v).trans hthread
    · exact (hchats u v).trans hthread
    · exact hpaired.kept hthread
    · exact hestablished.paired.kept hthread
  · rcases reports_addFriend hs h hr with ⟨hfalse, -⟩ | ⟨-, ha, hsame | ⟨application, thread, hest⟩⟩
    · cases hfalse
    · exact .inr hsame
    · exact .inl ⟨pending_of_apply hstart hs hest.incoming, remark, tags, application, thread, hest,
        k, .ok, ha, hr⟩
  · rcases reports_addFriend hs h hr with ⟨-, hempty⟩ | ⟨htrue, -⟩
    · exact hempty
    · cases htrue

theorem attempts_le_three (op : Operation) : (service writeString).attempts op ≤ 3 := by
  cases op <;> simp [service]

/-- In every interleaving friendships are mutual, a pair has one private chat, no operation is
tried more than three times, and friendships begin by an accepted application only. -/
theorem contacts_safe (hstart : ContactStart start)
    (hs : (engine (service writeString) (· = start)).Reachable s) :
    (∀ u v, (s.db (.friend u v)).isSome ↔ (s.db (.friend v u)).isSome) ∧
    (∀ u v u' v', (s.db (.privateChat u v)).isSome → (s.db (.privateChat u' v')).isSome →
      (u' = u ∧ v' = v ∨ u' = v ∧ v' = u) → u' = u ∧ v' = v) ∧
    (∀ k op n x, s.calls k = some ⟨op, .running n x⟩ → n < 3) ∧
    ∀ a s', (engine (service writeString) (· = start)).step s a s' → ContactLaws start s a s' := by
  have hsound := contactsSound hstart hs
  refine ⟨fun u v => ?_, fun u v u' v' h h' hpair => ?_, fun k op n x hk => ?_,
    fun a s' => contactLaws hstart hs⟩
  · exact Bool.eq_iff_iff.mp (hsound.symmetric u v)
  · rcases hpair with hpair | ⟨rfl, rfl⟩
    · exact hpair
    · exact absurd (hsound.ordered _ _ h) (hsound.ordered _ _ h').asymm
  · have hpositive : ∀ op, 0 < (service writeString).attempts op := by
      intro op
      cases op <;> simp [service]
    exact ((State.attempts_engine hpositive).reachable hs k op n x hk).trans_le
      (attempts_le_three op)

/-! ## A run -/

def twoUsers : Tables
  | .user uid => if uid = 1 ∨ uid = 2 then some () else none
  | _ => none

def twoUsersStart : State Val Result Operation where
  db := twoUsers
  used := [.user 1, .user 2]
  locks := fun _ => []
  calls := fun _ => none
  log := []

theorem contactStart_twoUsers : ContactStart twoUsers where
  symmetric _ _ := rfl
  ordered _ _ := nofun

theorem twoUsers_used (r : Row) (h : (twoUsers r).isSome) : r ∈ twoUsersStart.used := by
  cases r with
  | user uid =>
    simp only [twoUsers] at h
    split at h
    next huid => rcases huid with rfl | rfl <;> decide
    next => cases h
  | _ => cases h

/-- Both users apply and both accept; the second of them meets a deadlock first. -/
def mutualAccepts : List (Action Operation) :=
  [.begin 0 (.addFriendApply 1 2 "hi" "two" "[]")] ++ List.replicate 5 (.statement 0 0) ++
  [.commit 0 .ok, .begin 1 (.addFriendApply 2 1 "" "one" "[]")] ++
  List.replicate 5 (.statement 1 0) ++
  [.commit 1 .ok, .begin 2 (.addFriend 2 1 "first" "[]"), .begin 3 (.addFriend 1 2 "second" "[]"),
    .statement 3 0, .fail 3 true] ++ List.replicate 10 (.statement 2 7) ++
  List.replicate 2 (.statement 2 7) ++ List.replicate 2 (.statement 2 8) ++
  List.replicate 2 (.statement 2 9) ++ [.commit 2 .ok] ++ List.replicate 6 (.statement 3 0) ++
  [.commit 3 .ok]

theorem contacts_safe_sample :
    ∃ s, Machine.runFn (State.step (service fun _ _ => "")) twoUsersStart mutualAccepts =
        some s ∧
      (s.calls 2).bind Call.result = some (.befriended true
        [(8, ⟨7, 1, 2, "hi", 2⟩), (9, ⟨7, 2, 1, "We are friends now!", 2⟩)]) ∧
      (s.calls 3).bind Call.result = some (.befriended true []) ∧
      s.db (.friend 1 2) = some ⟨"two", some "[]"⟩ ∧
      s.db (.friend 2 1) = some ⟨"first", some "[]"⟩ ∧
      ∀ a s', (engine (service fun _ _ => "") (· = twoUsers)).step s a s' →
        ContactLaws twoUsers s a s' := by
  have hrun : (Machine.runFn (State.step (service fun _ _ => "")) twoUsersStart
      mutualAccepts).map (fun s => ((s.calls 2).bind Call.result, (s.calls 3).bind Call.result,
        s.db (.friend 1 2), s.db (.friend 2 1))) = some (some (.befriended true
          [(8, ⟨7, 1, 2, "hi", 2⟩), (9, ⟨7, 2, 1, "We are friends now!", 2⟩)]),
        some (.befriended true []), some ⟨"two", some "[]"⟩, some ⟨"first", some "[]"⟩) := by
    decide +kernel
  obtain ⟨s, hs, hview⟩ := Option.map_eq_some_iff.mp hrun
  simp only [Prod.mk.injEq] at hview
  obtain ⟨h₂, h₃, hf, hf'⟩ := hview
  have hinit : (engine (service fun _ _ => "") (· = twoUsers)).Reachable twoUsersStart :=
    .init ⟨rfl, twoUsers_used, rfl, rfl, rfl⟩
  exact ⟨s, hs, h₂, h₃, hf, hf', (contacts_safe contactStart_twoUsers (hinit.runFn hs)).2.2.2⟩

end CppChat.Relations
