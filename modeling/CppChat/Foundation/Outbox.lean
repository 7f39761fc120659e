import Mathlib.Data.List.Basic
import CppChat.Foundation.Transition

/-! # A queue with one item in flight

Items are offered to a queue and leave it one at a time: while one is in flight no other leaves.
An item may be discarded from the queue, and given up in flight.
-/
namespace CppChat.Foundation

structure Outbox (α : Type*) where
  offered : List α
  queue : List α
  flight : Option α
  delivered : List α

namespace Outbox

variable {α : Type*}

inductive Act (α : Type*)
  | offer (x : α)
  | discard (keep : α → Bool)
  | launch
  | deliver
  | giveUp

def empty : Outbox α := ⟨[], [], none, []⟩

def next (o : Outbox α) : Act α → Option (Outbox α)
  | .offer x => some { o with offered := o.offered ++ [x], queue := o.queue ++ [x] }
  | .discard keep => some { o with queue := o.queue.filter keep }
  | .launch =>
    match o.flight, o.queue with
    | none, x :: queue => some { o with queue, flight := some x }
    | _, _ => none
  | .deliver => o.flight.map fun x =>
    { o with flight := none, delivered := o.delivered ++ [x] }
  | .giveUp => some { o with flight := none }

def machine : Machine (Outbox α) (Act α) := .ofFn (· = empty) next

/-- What was delivered, is in flight and waits was offered in this order, every item once for each
time that it was offered. -/
def Ordered (o : Outbox α) : Prop := (o.delivered ++ o.flight.toList ++ o.queue).Sublist o.offered

variable {o o' : Outbox α}

theorem Ordered.next {a : Act α} (h : o.Ordered) (hstep : o.next a = some o') : o'.Ordered := by
  unfold Ordered at h ⊢
  cases a with
  | offer x =>
    cases hstep
    rw [← List.append_assoc]
    exact h.append_right [x]
  | discard keep =>
    cases hstep
    exact ((List.filter_sublist).append_left _).trans h
  | launch =>
    simp only [Outbox.next] at hstep
    split at hstep
    next hflight hqueue =>
      cases hstep
      simpa [hflight, hqueue] using h
    next => cases hstep
  | deliver =>
    obtain ⟨x, hflight, rfl⟩ := Option.map_eq_some_iff.mp hstep
    simpa [hflight] using h
  | giveUp =>
    cases hstep
    refine List.Sublist.trans ?_ h
    rw [Option.toList_none, List.append_nil]
    exact (List.sublist_append_left _ _).append_right _

theorem ordered_invariant : (machine : Machine (Outbox α) (Act α)).Invariant Ordered := by
  refine ⟨?_, fun o a o' _ h hstep => h.next hstep⟩
  rintro _ rfl
  exact List.nil_sublist _

/-! ## Runs of several acts -/

theorem run_next {a : Act α} (h : o.next a = some o') : machine.Run o o' := .single ⟨a, h⟩

/-- The first item leaves and is delivered, with nothing in flight before and after. -/
theorem run_through {x : α} {queue : List α} (hflight : o.flight = none)
    (hqueue : o.queue = x :: queue) :
    machine.Run o { o with queue, delivered := o.delivered ++ [x] } := by
  have hlaunch : o.next .launch = some { o with queue, flight := some x } := by
    simp only [next, hflight, hqueue]
  refine (run_next hlaunch).tail ⟨.deliver, ?_⟩
  change some _ = some _
  rw [← hflight]

/-- The first item leaves and is given up. -/
theorem run_drop {x : α} {queue : List α} (hflight : o.flight = none)
    (hqueue : o.queue = x :: queue) : machine.Run o { o with queue } := by
  have hlaunch : o.next .launch = some { o with queue, flight := some x } := by
    simp only [next, hflight, hqueue]
  refine (run_next hlaunch).tail ⟨.giveUp, ?_⟩
  change some _ = some _
  rw [← hflight]

end Outbox
end CppChat.Foundation
