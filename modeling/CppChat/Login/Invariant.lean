import CppChat.Login.Flows

/-! # What a connection still has to undo

A slot or a `UserMgr` entry that names a connection is always owed by it: a login that has
not published yet revokes it, and a published one is removed by the cleanup, whose snapshot
of the user cannot miss a bound login.
-/
namespace CppChat.Login
open Foundation Session

/-- The login has not touched the slot yet. -/
def LoginFlow.early : LoginFlow → Bool
  | .idle | .bind _ | .publish _ | .revoke _ _ => false
  | _ => true

/-- The cleanup has not released this device yet. -/
def CleanupFlow.Releases (flow : CleanupFlow) (d : Device) : Prop :=
  match flow with
  | .idle | .remove _ => True
  | .release _ ds => d ∈ ds
  | _ => False

/-- The cleanup has not removed the connection from `UserMgr` yet. -/
def CleanupFlow.Removes (flow : CleanupFlow) : Prop :=
  match flow with
  | .idle | .remove _ => True
  | _ => False

namespace Connection

/-- What the program counter of a login says about the connection. -/
def LoginOk (c : Connection) : Prop :=
  match c.login with
  | .idle => True
  | .status _ => c.userId = 0
  | .credential q | .route q | .retire q _ | .remove q _ | .kick q _ | .offline q _ | .register q
  | .bind q => c.userId = 0 ∧ 0 < q.uid
  | .publish q => c.userId = q.uid ∧ c.device = q.device ∧ 0 < q.uid ∧ c.cleanup = .idle
  | .revoke _ _ => c.userId = 0 ∧ c.isClosed = true

def CleanupOk (c : Connection) : Prop :=
  match c.cleanup with
  | .idle => True
  | .remove uid | .release uid _ | .clearUser uid => c.closed = true ∧ uid = c.userId
  | .clear | .done => c.closed = true

def Ok (c : Connection) : Prop := c.LoginOk ∧ c.CleanupOk

/-- Some registration carried the id of this connection, and no other one will. -/
def Registered (c : Connection) : Prop :=
  0 < c.userId ∨
    match c.login with
    | .bind _ | .publish _ | .revoke _ _ => True
    | .idle => c.isClosed = true
    | _ => False

/-- A flow of the connection is still going to release the slot. -/
def Owes (c : Connection) (u : ℕ) (d : Device) : Prop :=
  match c.login with
  | .bind q | .publish q => q.uid = u ∧ q.device = d
  | .revoke q ds => q.uid = u ∧ d ∈ ds
  | .idle => 0 < u ∧ c.userId = u ∧ c.cleanup.Releases d
  | _ => False

/-- `UserMgr` may name the connection in this place. -/
def Published (c : Connection) (node : String) (u : ℕ) (d : Device) : Prop :=
  c.node = node ∧ c.userId = u ∧ c.device = d ∧ 0 < u ∧ c.cleanup.Removes

/-- A change of the connection that drops no obligation. -/
structure Keeps (c c' : Connection) : Prop where
  ok : c'.Ok
  registered : c.Registered → c'.Registered
  owes : ∀ u d, c.Owes u d → c'.Owes u d
  published : ∀ node u d, c.Published node u d → c'.Published node u d

variable {c c' : Connection} {flow : LoginFlow} {q : Request}

theorem LoginOk.of_eq (h : c.LoginOk) (hl : c.login = flow) :
    ({ c with login := flow } : Connection).LoginOk := by
  subst hl
  exact h

theorem CleanupOk.of_eq {flow : CleanupFlow} (h : c.CleanupOk) (hl : c.cleanup = flow) :
    ({ c with cleanup := flow } : Connection).CleanupOk := by
  subst hl
  exact h

/-- A cleanup that started excludes a publication, so it may move on. -/
theorem Ok.cleanup {flow : CleanupFlow} (h : c.Ok) (hs : c.cleanup ≠ .idle)
    (hf : ({ c with cleanup := flow } : Connection).CleanupOk) :
    ({ c with cleanup := flow } : Connection).Ok := by
  refine ⟨?_, hf⟩
  have hl := h.1
  unfold LoginOk at hl ⊢
  cases hlog : c.login <;> simp_all [isClosed]

theorem Owes.cleanup {flow : CleanupFlow} {u : ℕ} {d : Device} (h : c.Owes u d)
    (hr : 0 < c.userId → c.cleanup.Releases d → flow.Releases d) :
    ({ c with cleanup := flow } : Connection).Owes u d := by
  unfold Owes at h ⊢
  cases hl : c.login <;> simp_all

theorem Ok.early_userId (h : c.Ok) (he : c.login.early) : c.userId = 0 := by
  have hl := h.1
  unfold LoginOk at hl
  split at hl <;> simp_all [LoginFlow.early]

/-- An early login has nothing to lose. -/
theorem Ok.keeps_of_early (h : c.Ok) (he : c.login.early)
    (hok : ({ c with login := flow } : Connection).LoginOk) :
    c.Keeps { c with login := flow } := by
  have huid := h.early_userId he
  refine ⟨⟨hok, h.2⟩, fun hr => ?_, fun u d ho => ?_, fun node u d hp => ?_⟩
  · exfalso
    rcases hr with hr | hr
    · exact Nat.ne_of_gt hr huid
    · cases hl : c.login <;> simp_all [LoginFlow.early]
  · exfalso
    unfold Owes at ho
    cases hl : c.login <;> simp_all [LoginFlow.early]
  · obtain ⟨-, rfl, -, hpos, -⟩ := hp
    exact absurd huid (Nat.ne_of_gt hpos)

/-- Closing, retiring and the sweep leave every obligation where it is. -/
theorem Ok.keeps_of_flags (h : c.Ok) (hnode : c'.node = c.node) (huser : c'.userId = c.userId)
    (hdevice : c'.device = c.device) (hlogin : c'.login = c.login) (hcleanup : c'.cleanup = c.cleanup)
    (hclosed : c.closed = true → c'.closed = true)
    (hretiring : c.isClosed = true → c'.isClosed = true) : c.Keeps c' := by
  refine ⟨⟨?_, ?_⟩, fun hr => ?_, fun u d ho => ?_, fun node u d hp => ?_⟩
  · have hl := h.1
    unfold LoginOk at hl ⊢
    rw [hlogin, huser, hdevice, hcleanup]
    cases hlog : c.login <;> simp_all
  · have hl := h.2
    unfold CleanupOk at hl ⊢
    rw [hcleanup, huser]
    cases hcl : c.cleanup <;> simp_all
  · unfold Registered at hr ⊢
    rw [hlogin, huser]
    refine hr.imp_right fun hr => ?_
    cases hlog : c.login <;> simp_all
  · unfold Owes at ho ⊢
    rw [hlogin, huser, hcleanup]
    exact ho
  · unfold Published at hp ⊢
    rw [hnode, huser, hdevice, hcleanup]
    exact hp

theorem Ok.keeps_notifyOffline (h : c.Ok) (overloaded : Bool) :
    c.Keeps (c.notifyOffline overloaded) := by
  unfold notifyOffline
  split
  · exact h.keeps_of_flags rfl rfl rfl rfl rfl id id
  · split <;> exact h.keeps_of_flags rfl rfl rfl rfl rfl (by simp) (by simp [isClosed])

theorem Ok.keeps_drain (h : c.Ok) : c.Keeps c.drain := by
  unfold drain
  split
  · exact h.keeps_of_flags rfl rfl rfl rfl rfl id id
  · exact h.keeps_of_flags rfl rfl rfl rfl rfl id (by simp [isClosed])

end Connection

namespace UserMgr
variable {m : UserMgr} {uid u : ℕ} {d d' : Device} {id x : String}

theorem erase_some (h : m.erase uid d u d' = some x) : m u d' = some x := by
  unfold erase at h
  split at h
  · cases h
  · exact h

theorem rmvUserSession_some (h : m.rmvUserSession uid id u d = some x) : m u d = some x := by
  unfold rmvUserSession at h
  split at h
  · exact erase_some h
  · split at h
    · exact erase_some h
    · exact h

theorem rmvUserSession_other (h : m u d = some x) (hx : x ≠ id) :
    m.rmvUserSession uid id u d = some x := by
  have herase : ∀ d', m uid d' = some id → m.erase uid d' u d = some x := by
    intro d' hd'
    unfold erase
    rw [if_neg, h]
    rintro ⟨rfl, rfl⟩
    rw [h] at hd'
    exact hx (Option.some.inj hd')
  unfold rmvUserSession
  split
  next hd => exact herase _ hd
  · split
    next hd => exact herase _ hd
    · exact h

/-- The entry is gone when only one device of the user can hold it. -/
theorem rmvUserSession_gone (honce : ∀ d d', m uid d = some id → m uid d' = some id → d = d') :
    m.rmvUserSession uid id uid d ≠ some id := by
  intro h
  have hd := rmvUserSession_some h
  unfold rmvUserSession at h
  split at h
  next hdesk =>
    rw [honce d .desktop hd hdesk] at h
    simp [erase] at h
  next hdesk =>
    split at h
    next hand =>
      rw [honce d .android hd hand] at h
      simp [erase] at h
    next hand =>
      cases d
      · exact hdesk hd
      · exact hand hd

end UserMgr

namespace State
variable {s : State} {id : String} {c c' : Connection}

structure Inv (s : State) : Prop where
  redis : slots.Reachable s.redis
  ok : ∀ id c, s.connections id = some c → c.Ok
  registered : ∀ r ∈ s.redis.registrations,
    ∃ c, s.connections r.session = some c ∧ c.Registered
  slot : ∀ id u d, s.redis.text? (.session u d) = some id →
    ∃ c, s.connections id = some c ∧ c.Owes u d
  user : ∀ node u d id, s.users node u d = some id →
    ∃ c, s.connections id = some c ∧ c.Published node u d

/-- A step of one connection, with what it does to Redis and `UserMgr`: the other
connections keep what names them, and this one accounts for what names it. -/
theorem Inv.update {redis : Session.State} {users : String → UserMgr} (h : s.Inv)
    (hok : c'.Ok) (hredis : slots.Reachable redis)
    (hreg : ∀ r ∈ redis.registrations, (r.session = id → c'.Registered) ∧
      (r.session ≠ id → r ∈ s.redis.registrations))
    (hslot : ∀ x u d, redis.text? (.session u d) = some x → (x = id → c'.Owes u d) ∧
      (x ≠ id → s.redis.text? (.session u d) = some x))
    (huser : ∀ node u d x, users node u d = some x → (x = id → c'.Published node u d) ∧
      (x ≠ id → s.users node u d = some x)) :
    Inv ⟨redis, Function.update s.connections id (some c'), users⟩ := by
  have hself : Function.update s.connections id (some c') id = some c' := Function.update_self ..
  have hother : ∀ x, x ≠ id → Function.update s.connections id (some c') x = s.connections x :=
    fun x hx => Function.update_of_ne hx ..
  refine ⟨hredis, fun x cx hx => ?_, fun r hx => ?_, fun x u d hx => ?_,
    fun node u d x hx => ?_⟩ <;> dsimp only at hx ⊢
  · by_cases he : x = id
    · subst he
      rw [hself] at hx
      cases hx
      exact hok
    · rw [hother x he] at hx
      exact h.ok x cx hx
  · by_cases he : r.session = id
    · exact ⟨c', he ▸ hself, (hreg r hx).1 he⟩
    · rw [hother _ he]
      exact h.registered r ((hreg r hx).2 he)
  · by_cases he : x = id
    · exact ⟨c', he ▸ hself, (hslot x u d hx).1 he⟩
    · rw [hother _ he]
      exact h.slot x u d ((hslot x u d hx).2 he)
  · by_cases he : x = id
    · exact ⟨c', he ▸ hself, (huser node u d x hx).1 he⟩
    · rw [hother _ he]
      exact h.user node u d x ((huser node u d x hx).2 he)

/-- What names a connection in a state is accounted for by the connection itself. -/
theorem Inv.self (h : s.Inv) (hc : s.connections id = some c) :
    (∀ r ∈ s.redis.registrations, r.session = id → c.Registered) ∧
      (∀ u d, s.redis.text? (.session u d) = some id → c.Owes u d) ∧
      ∀ node u d, s.users node u d = some id → c.Published node u d := by
  refine ⟨fun r hr he => ?_, fun u d ht => ?_, fun node u d hu => ?_⟩
  · obtain ⟨c₁, hc₁, hreg⟩ := h.registered r hr
    rw [he, hc] at hc₁
    cases hc₁
    exact hreg
  · obtain ⟨c₁, hc₁, howes⟩ := h.slot id u d ht
    rw [hc] at hc₁
    cases hc₁
    exact howes
  · obtain ⟨c₁, hc₁, hpub⟩ := h.user node u d id hu
    rw [hc] at hc₁
    cases hc₁
    exact hpub

theorem Inv.put (h : s.Inv) (hc : s.connections id = some c) (hk : c.Keeps c') :
    (s.put id c').Inv := by
  obtain ⟨hreg, hslot, huser⟩ := h.self hc
  refine h.update hk.ok h.redis (fun r hr => ⟨fun he => hk.registered (hreg r hr he), fun _ => hr⟩)
    (fun x u d ht => ⟨?_, fun _ => ht⟩) fun node u d x hu => ⟨?_, fun _ => hu⟩
  · rintro rfl
    exact hk.owes u d (hslot u d ht)
  · rintro rfl
    exact hk.published node u d (huser node u d hu)

theorem Inv.call (h : s.Inv) {f : Connection → Connection} (hf : ∀ c : Connection, c.Ok → c.Keeps (f c)) :
    (s.call id f).Inv := by
  cases hc : s.connections id with
  | none =>
    have hsame : s.call id f = s := by
      rw [State.call, hc, Option.map_none, ← hc, Function.update_eq_self]
    rw [hsame]
    exact h
  | some c =>
    have hput : s.call id f = s.put id (f c) := by rw [State.call, hc, Option.map_some, State.put]
    rw [hput]
    exact h.put hc (hf c (h.ok id c hc))

/-- Removing entries of `UserMgr` harms nobody. -/
theorem Inv.onUsers {node : String} {f : UserMgr → UserMgr} (h : s.Inv)
    (hf : ∀ (m : UserMgr) u d x, f m u d = some x → m u d = some x) : (s.onUsers node f).Inv := by
  refine ⟨h.redis, h.ok, h.registered, h.slot, fun n u d x hx => h.user n u d x ?_⟩
  by_cases he : n = node
  · subst he
    simp only [State.onUsers, Function.update_self] at hx
    exact hf _ u d x hx
  · simpa only [State.onUsers, Function.update_of_ne he] using hx

end State
end CppChat.Login
