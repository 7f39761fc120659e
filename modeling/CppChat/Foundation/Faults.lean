import Mathlib.Data.Nat.Notation

/-! # Programs whose operations may fail

An operation succeeds, fails or loses the process, after some part of its work. A program
stops with an exception or with the process; what it did to the store until then stays. The
plan says how each operation goes; each is named once, since the programs have no loops.
-/
namespace CppChat.Foundation.Faults

/-- How an operation goes; `n` says how much of it is done before it goes wrong. -/
inductive Fate
  | done
  | fails (n : ℕ)
  | crashes (n : ℕ)
  deriving DecidableEq

inductive Stop
  | thrown
  | crashed
  deriving DecidableEq

/-- A program over the store `σ`, with the operations `ι`. -/
def Faulty (ι σ α : Type) : Type := (ι → Fate) → σ → Except Stop α × σ

variable {ι σ α β : Type}

namespace Faulty

instance : Monad (Faulty ι σ) where
  pure a := fun _ s => (.ok a, s)
  bind m f := fun plan s =>
    match m plan s with
    | (.ok a, s') => f a plan s'
    | (.error e, s') => (.error e, s')

/-- One operation. -/
def op (i : ι) (f : Fate → σ → Except Stop α × σ) : Faulty ι σ α := fun plan s => f (plan i) s

/-- A look at the store, that throws when it fails. -/
def look (i : ι) (f : σ → α) : Faulty ι σ α := op i fun
  | .done, s => (.ok (f s), s)
  | .fails _, s => (.error .thrown, s)
  | .crashes _, s => (.error .crashed, s)

/-- A look at the store, that may also have a value when it fails. -/
def tryLook (i : ι) (f : σ → α) (other : α) : Faulty ι σ α := op i fun
  | .done, s => (.ok (f s), s)
  | .fails 0, s => (.ok other, s)
  | .fails (_ + 1), s => (.error .thrown, s)
  | .crashes _, s => (.error .crashed, s)

/-- A change of the store that happens at once or not at all. -/
def act (i : ι) (f : σ → σ) : Faulty ι σ Unit := op i fun
  | .done, s => (.ok (), f s)
  | .fails _, s => (.error .thrown, s)
  | .crashes _, s => (.error .crashed, s)

/-! ## Weakest preconditions -/

/-- The program ends in `Q`, or stops in `E`. -/
def wp (m : Faulty ι σ α) (plan : ι → Fate) (Q : α → σ → Prop) (E : Stop → σ → Prop) (s : σ) :
    Prop :=
  match m plan s with
  | (.ok a, s') => Q a s'
  | (.error e, s') => E e s'

section
variable {plan : ι → Fate} {Q Q' : α → σ → Prop} {E E' : Stop → σ → Prop} {s : σ} {i : ι}

theorem wp_mono {m : Faulty ι σ α} (h : m.wp plan Q E s) (hQ : ∀ a s', Q a s' → Q' a s')
    (hE : ∀ e s', E e s' → E' e s') : m.wp plan Q' E' s := by
  unfold wp at h ⊢
  split
  next a s' hm =>
    rw [hm] at h
    exact hQ a s' h
  next e s' hm =>
    rw [hm] at h
    exact hE e s' h

@[simp]
theorem wp_pure {a : α} : (pure a : Faulty ι σ α).wp plan Q E s ↔ Q a s := Iff.rfl

@[simp]
theorem wp_bind {m : Faulty ι σ β} {f : β → Faulty ι σ α} :
    (m >>= f).wp plan Q E s ↔ m.wp plan (fun b s' => (f b).wp plan Q E s') E s := by
  show (match (match m plan s with
      | (.ok b, s') => f b plan s'
      | (.error e, s') => (.error e, s')) with
    | (.ok a, s') => Q a s'
    | (.error e, s') => E e s') ↔
    match m plan s with
    | (.ok b, s') => (f b).wp plan Q E s'
    | (.error e, s') => E e s'
  obtain ⟨_ | _, _⟩ := m plan s
  · rfl
  · rfl

theorem wp_ite {c : Prop} [Decidable c] {m m' : Faulty ι σ α} :
    (if c then m else m').wp plan Q E s ↔ if c then m.wp plan Q E s else m'.wp plan Q E s := by
  split <;> rfl

theorem wp_op {f : Fate → σ → Except Stop α × σ} :
    (op i f).wp plan Q E s ↔ match f (plan i) s with
      | (.ok a, s') => Q a s'
      | (.error e, s') => E e s' := Iff.rfl

theorem wp_look {f : σ → α} (hQ : Q (f s) s) (hE : ∀ e, E e s) :
    (look i f).wp plan Q E s := by
  rw [look, wp_op]
  cases plan i with
  | done => exact hQ
  | fails => exact hE _
  | crashes => exact hE _

theorem wp_tryLook {f : σ → α} {other : α} (hQ : Q (f s) s) (hother : Q other s)
    (hE : ∀ e, E e s) : (tryLook i f other).wp plan Q E s := by
  rw [tryLook, wp_op]
  match plan i with
  | .done => exact hQ
  | .fails 0 => exact hother
  | .fails (_ + 1) => exact hE _
  | .crashes _ => exact hE _

theorem wp_act {f : σ → σ} {Q : Unit → σ → Prop} (hQ : Q () (f s)) (hE : ∀ e, E e s) :
    (act i f).wp plan Q E s := by
  rw [act, wp_op]
  cases plan i with
  | done => exact hQ
  | fails => exact hE _
  | crashes => exact hE _

end

/-! ## What a program keeps, however its operations go -/

def Keeps (I : σ → Prop) (m : Faulty ι σ α) : Prop :=
  ∀ plan s, I s → m.wp plan (fun _ => I) (fun _ => I) s

section
variable {I : σ → Prop} {i : ι}

theorem keeps_pure {a : α} : (pure a : Faulty ι σ α).Keeps I := fun _ _ h => h

theorem Keeps.bind {m : Faulty ι σ β} {f : β → Faulty ι σ α} (hm : m.Keeps I)
    (hf : ∀ b, (f b).Keeps I) : (m >>= f).Keeps I := by
  intro plan s h
  rw [wp_bind]
  exact wp_mono (hm plan s h) (fun b s' h' => hf b plan s' h') fun _ _ h' => h'

theorem Keeps.ite {c : Prop} [Decidable c] {m m' : Faulty ι σ α} (h : c → m.Keeps I)
    (h' : ¬ c → m'.Keeps I) : (if c then m else m').Keeps I := by
  split
  next hc => exact h hc
  next hc => exact h' hc

theorem keeps_op {f : Fate → σ → Except Stop α × σ} (h : ∀ fate s, I s → I (f fate s).2) :
    (op i f).Keeps I := by
  intro plan s hs
  have := h (plan i) s hs
  rw [wp_op]
  split
  next heq => rwa [heq] at this
  next heq => rwa [heq] at this

theorem keeps_look {f : σ → α} : (look i f).Keeps I := fun _ _ h => wp_look h fun _ => h

theorem keeps_tryLook {f : σ → α} {other : α} : (tryLook i f other).Keeps I :=
  fun _ _ h => wp_tryLook h h fun _ => h

theorem keeps_act {f : σ → σ} (h : ∀ s, I s → I (f s)) : (act i f).Keeps I :=
  fun _ s hs => wp_act (h s hs) fun _ => hs

end

/-! ## Runs in which every operation succeeds -/

/-- The program comes to its end, and its value and store then. -/
def Succeeds (m : Faulty ι σ α) (s : σ) (a : α) (s' : σ) : Prop :=
  m (fun _ => .done) s = (.ok a, s')

section
variable {s s' s'' : σ} {a : α} {b : β} {i : ι}

theorem succeeds_pure : (pure a : Faulty ι σ α).Succeeds s a s := rfl

theorem Succeeds.bind {m : Faulty ι σ β} {f : β → Faulty ι σ α} (h : m.Succeeds s b s')
    (h' : (f b).Succeeds s' a s'') : (m >>= f).Succeeds s a s'' := by
  show (match m _ s with
    | (.ok a, s') => f a _ s'
    | (.error e, s') => (.error e, s')) = _
  rw [h]
  exact h'

theorem succeeds_look {f : σ → α} : (look i f : Faulty ι σ α).Succeeds s (f s) s := rfl

theorem succeeds_tryLook {f : σ → α} {other : α} :
    (tryLook i f other : Faulty ι σ α).Succeeds s (f s) s := rfl

theorem succeeds_act {f : σ → σ} : (act i f : Faulty ι σ Unit).Succeeds s () (f s) := rfl

end

end Faulty
end CppChat.Foundation.Faults
