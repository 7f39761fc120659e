import CppChat.Foundation.TokenBucket
import CppChat.Voice.Safety

/-! # The media of one call

The frames and pictures of the two parties of a call, over exact rationals, from a call
without media until the call is over: what each command does to the four streams.
-/
namespace CppChat.Voice
open Foundation

/-! ## Streams of a side -/

def burstOf (picture : Bool) : ℚ := if picture then 2 else 10

/-- Per millisecond. -/
def rateOf (picture : Bool) : ℚ := if picture then 8 / 1000 else 6 / 100

namespace Side

def bucket (s : Side) (picture : Bool) : Bucket ℚ :=
  if picture then ⟨s.videoLast, s.videoCredit⟩ else ⟨s.audioLast, s.audioCredit⟩

def sequence (s : Side) (picture : Bool) : Int := if picture then s.videoSeq else s.audioSeq

def available (s : Side) (picture : Bool) (now : ℚ) : ℚ :=
  (s.bucket picture).available (burstOf picture) (rateOf picture) now

/-- What a frame does to its side, in terms of the bucket. -/
theorem takeFrame_cases (s : Side) (picture : Bool) (n : Int) (now : ℚ) :
    (n ≤ s.sequence picture ∧ s.takeFrame picture n now = .error voiceInvalid) ∨
    (s.sequence picture < n ∧ s.available picture now < 1 ∧
      s.takeFrame picture n now = .error voiceRateLimited) ∨
    (s.sequence picture < n ∧ 1 ≤ s.available picture now ∧
      ∃ s', s.takeFrame picture n now = .ok s' ∧ s'.sequence picture = n ∧
        s'.bucket picture = (s.bucket picture).take (burstOf picture) (rateOf picture) now ∧
        s'.sequence (!picture) = s.sequence (!picture) ∧
        s'.bucket (!picture) = s.bucket (!picture)) := by
  by_cases hseq : n ≤ s.sequence picture
  · refine .inl ⟨hseq, ?_⟩
    cases picture <;> exact if_pos hseq
  · have hseq' : s.sequence picture < n := not_le.mp hseq
    by_cases havailable : s.available picture now < 1
    · refine .inr (.inl ⟨hseq', havailable, ?_⟩)
      cases picture <;> exact (if_neg hseq).trans (if_pos havailable)
    · refine .inr (.inr ⟨hseq', not_lt.mp havailable, ?_⟩)
      cases picture
      · exact ⟨_, (if_neg hseq).trans (if_neg havailable), rfl, rfl, rfl, rfl⟩
      · exact ⟨_, (if_neg hseq).trans (if_neg havailable), rfl, rfl, rfl, rfl⟩

theorem takeFrame_ok {s s' : Side} {picture : Bool} {n : Int} {now : ℚ}
    (h : s.takeFrame picture n now = .ok s') :
    s'.sequence picture = n ∧
      s'.bucket picture = (s.bucket picture).take (burstOf picture) (rateOf picture) now ∧
      s'.sequence (!picture) = s.sequence (!picture) ∧
      s'.bucket (!picture) = s.bucket (!picture) := by
  rcases s.takeFrame_cases picture n now with ⟨-, ht⟩ | ⟨-, -, ht⟩ | ⟨-, -, side, ht, htaken⟩
  · rw [h] at ht
    cases ht
  · rw [h] at ht
    cases ht
  · rw [h] at ht
    cases ht
    exact htaken

theorem encode_id (s : Side) : s.encode id = s := by simp [encode]

end Side

theorem encode_call_id (c : Call) : c.encode id = c := by simp [Call.encode, Side.encode_id]

/-- A stream of a call: the caller's or the callee's, of pictures or of sound. -/
structure Stream where
  caller : Bool
  picture : Bool
  deriving DecidableEq

namespace Call

def bucket (c : Call) (σ : Stream) : Bucket ℚ := (c.side σ.caller).bucket σ.picture

def sequence (c : Call) (σ : Stream) : Int := (c.side σ.caller).sequence σ.picture

theorem setSide_side (c : Call) (first : Bool) (s : Side) (caller : Bool) :
    (c.setSide first s).side caller = if caller = first then s else c.side caller := by
  cases first <;> cases caller <;> rfl

/-- The streams of two records agree. -/
def SameStreams (c c' : Call) : Prop :=
  ∀ σ, c'.bucket σ = c.bucket σ ∧ c'.sequence σ = c.sequence σ

theorem sameStreams_setSide {c : Call} {first : Bool} {s : Side}
    (h : ∀ picture, s.bucket picture = (c.side first).bucket picture ∧
      s.sequence picture = (c.side first).sequence picture) : c.SameStreams (c.setSide first s) := by
  intro σ
  rw [bucket, sequence, setSide_side]
  split
  next hcaller =>
    rw [bucket, sequence, hcaller]
    exact h σ.picture
  next => exact ⟨rfl, rfl⟩

end Call

def Op.picture? : Op → Option Bool
  | .frame => some false
  | .video => some true
  | _ => none

/-! ## What a command does to the streams -/

/-- What a command does to the record it is for. -/
inductive Plays (s : State) (cmd : Command) : ℕ × State → Prop
  | refused {e : ℕ} (he : e ≠ success)
      (hlimited : ∀ picture, cmd.op.picture? = some picture → e = voiceRateLimited →
        ∃ c first, Bound s cmd c first ∧ (c.side first).available picture s.now < 1) :
      Plays s cmd (e, s)
  | removed {c : Call} {first : Bool} {e : ℕ} (h : Bound s cmd c first)
      (hplays : cmd.op.picture? ≠ none →
        e = voiceInvalid ∧ timeoutMs < s.now - (c.side (!first)).seen) :
      Plays s cmd (e, s.delBoth cmd.uid cmd.peer)
  | kept {c c' : Call} {first : Bool} (h : Bound s cmd c first) (hop : cmd.op.picture? = none)
      (hsame : c.Same c') (hstreams : c.SameStreams c') :
      Plays s cmd (success, s.setBoth cmd.uid cmd.peer c' leaseMs)
  | played {c : Call} {first picture : Bool} {side : Side} (h : Bound s cmd c first)
      (hop : cmd.op.picture? = some picture)
      (hseq : (c.side first).sequence picture < cmd.sequence)
      (havailable : 1 ≤ (c.side first).available picture s.now)
      (hside : (c.side first).takeFrame picture cmd.sequence s.now = .ok side) :
      Plays s cmd (success, s.setBoth cmd.uid cmd.peer (c.setSide first side) leaseMs)

variable {s : State} {cmd : Command} {c : Call} {first : Bool}

theorem frame_plays (h : Bound s cmd c first) {picture : Bool}
    (hop : cmd.op.picture? = some picture) :
    Plays s cmd (match ((c.side first).takeFrame picture cmd.sequence s.now >>= fun side =>
        Except.ok (c.setSide first side)) with
      | .ok c' => (success, s.setBoth cmd.uid cmd.peer (c'.encode id) leaseMs)
      | .error e => (e, s)) := by
  rcases (c.side first).takeFrame_cases picture cmd.sequence s.now with
    ⟨-, hframe⟩ | ⟨-, havailable, hframe⟩ | ⟨hseq, havailable, side, hframe, -⟩
  · rw [hframe]
    exact .refused (by decide) fun _ _ he => absurd he (by decide)
  · rw [hframe]
    refine .refused (by decide) fun picture' hop' _ => ?_
    rw [hop] at hop'
    cases hop'
    exact ⟨c, first, h, havailable⟩
  · rw [hframe]
    show Plays s cmd (success, s.setBoth _ _ ((c.setSide first side).encode id) leaseMs)
    rw [encode_call_id]
    exact .played h hop hseq havailable hframe

theorem advance_plays (h : Bound s cmd c first) : Plays s cmd (s.advance id cmd c first) := by
  have hrefused : ∀ e, e ≠ success → e ≠ voiceRateLimited → Plays s cmd (e, s) := fun e he hne =>
    .refused he fun _ _ hlimited => absurd hlimited hne
  unfold State.advance
  split
  next hop =>
    have hnone : cmd.op.picture? = none := by
      rcases hop with hop | hop | hop <;> rw [hop] <;> rfl
    split
    · exact hrefused _ (by decide) (by decide)
    · split
      · exact hrefused _ (by decide) (by decide)
      · exact .removed h fun hne => absurd hnone hne
  next =>
    split
    · exact hrefused _ (by decide) (by decide)
    · split
      next haccept =>
        split
        · exact hrefused _ (by decide) (by decide)
        · dsimp only
          rw [encode_call_id]
          refine .kept h (by rw [haccept]; rfl) ⟨rfl, rfl, rfl, rfl, rfl, rfl, rfl, rfl⟩ ?_
          intro σ
          rcases σ with ⟨caller, picture⟩
          cases caller <;> cases picture <;> exact ⟨rfl, rfl⟩
      next =>
        split
        · exact hrefused _ (by decide) (by decide)
        · split
          next hsilent => exact .removed h fun _ => ⟨rfl, hsilent⟩
          next =>
            have hkept : ∀ side : Side, cmd.op.picture? = none →
                (∀ picture, side.bucket picture = (c.side first).bucket picture ∧
                  side.sequence picture = (c.side first).sequence picture) →
                Plays s cmd (success,
                  s.setBoth cmd.uid cmd.peer ((c.setSide first side).encode id) leaseMs) := by
              intro side hop hside
              rw [encode_call_id]
              exact .kept h hop (c.setSide_same first side) (Call.sameStreams_setSide hside)
            unfold Call.update
            cases hop : cmd.op with
            | frame => exact frame_plays h (by rw [hop]; rfl)
            | video =>
              dsimp only
              by_cases hoff : c.video = false ∨ (c.side first).enabled = false
              · rw [if_pos hoff]
                exact hrefused _ (by decide) (by decide)
              · rw [if_neg hoff]
                exact frame_plays h (by rw [hop]; rfl)
            | ping =>
              exact hkept _ (by rw [hop]; rfl) fun picture => by cases picture <;> exact ⟨rfl, rfl⟩
            | camera =>
              dsimp only
              by_cases hoff : c.video = false
              · rw [if_pos hoff]
                exact hrefused _ (by decide) (by decide)
              · rw [if_neg hoff]
                exact hkept _ (by rw [hop]; rfl) fun picture => by
                  cases picture <;> exact ⟨rfl, rfl⟩
            | _ => exact hrefused _ (by decide) (by decide)

/-- Everything but an invitation. -/
theorem voiceTransition_plays (hop : cmd.op ≠ .invite) :
    Plays s cmd (s.voiceTransition id cmd) := by
  have hrefused : ∀ e, e ≠ success → e ≠ voiceRateLimited → Plays s cmd (e, s) := fun e he hne =>
    .refused he fun _ _ hlimited => absurd hlimited hne
  unfold State.voiceTransition
  split
  · exact hrefused _ (by decide) (by decide)
  next hsession =>
    split
    · exact hrefused _ (by decide) (by decide)
    next ps hps =>
      split
      · exact hrefused _ (by decide) (by decide)
      · split
        next c d hc hd =>
          split
          · exact hrefused _ (by decide) (by decide)
          next hid =>
            split
            · exact hrefused _ (by decide) (by decide)
            next first hparty =>
              split
              · exact hrefused _ (by decide) (by decide)
              next hdev =>
                split
                · exact hrefused _ (by decide) (by decide)
                next hsess =>
                  push Not at hid hdev hsess
                  refine advance_plays ⟨hc, hid.1, hparty, hdev, ⟨by rw [hsess], ?_⟩, ?_⟩
                  · exact not_not.mp hsession
                  · rw [hps, hsess]
        · exact hrefused _ (by decide) (by decide)

end CppChat.Voice
