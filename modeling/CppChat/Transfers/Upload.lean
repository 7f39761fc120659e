import CppChat.Foundation.Strides
import CppChat.Foundation.Transition
import CppChat.Transfers.Download

/-! # Uploads to any resource server

The worker of `ResourceMgr::startUpload`: it sends up to a window of chunks and then reads a reply
for each. A failed exchange is told from a good one by its error text alone.
-/
namespace CppChat.Transfers
open Foundation

/-- The fields that the client reads from a reply, as Qt converts them. -/
structure UploadReply where
  ok : Bool
  error : String
  offset : ℤ
  uploadWindow : ℤ
  complete : Bool

/-- How an exchange fails on the side of the client. -/
inductive Loss
  | requestTooLarge
  | writeFailed
  | writeTimeout
  | noAnswer
  | malformed
  | bodyTimeout
  | invalidJson

def Loss.text : Loss → String
  | .requestTooLarge => "资源请求过大"
  | .writeFailed => "资源服务写入超时"
  | .writeTimeout => "资源服务写入超时或传输已取消"
  | .noAnswer => "资源服务无响应"
  | .malformed => "资源服务响应格式错误"
  | .bodyTimeout => "资源数据接收超时"
  | .invalidJson => "资源服务返回了无效 JSON"

inductive UploadAnswer
  | reply (r : UploadReply)
  | lost (loss : Loss)

def invalidOffset : String := "资源服务返回了无效断点"
def offsetMismatch : String := "资源服务确认的上传断点与分块不一致"
def notComplete : String := "资源服务未确认上传完成"

/-- Where the worker is: it waits for the answer to its first request, sends the chunks of a
window, or reads the answers to them; each is expected to confirm one offset. -/
inductive Stage
  | init
  | sending (sent : ℕ) (expectedOffsets : List ℕ)
  | receiving (expectedOffsets : List ℕ)
  | finished

/-- The variables of the worker; `complete` is the field of the last reply. The last three are
history: the offset of the first reply, the chunks that were sent and the number of steps. -/
structure Upload where
  image : Bytes
  offset : ℕ
  window : ℕ
  complete : Bool
  error : String
  stage : Stage
  first : ℕ
  chunks : List (ℕ × Bytes)
  steps : ℕ

namespace Upload

def start (image : Bytes) : Upload where
  image := image
  offset := 0
  window := 1
  complete := false
  error := ""
  stage := .init
  first := 0
  chunks := []
  steps := 0

/-- Behind the loop. -/
def finish (s : Upload) : Upload :=
  { s with
    stage := .finished
    error :=
      if s.error = "" ∧ s.offset = s.image.length ∧ ¬ s.complete then notComplete else s.error }

/-- The test of the loop. -/
def again (s : Upload) : Upload :=
  if s.error = "" ∧ s.offset < s.image.length then { s with stage := .sending s.offset [] }
  else s.finish

/-- The worker ends without the last check when the first exchange fails. -/
def initAnswered (s : Upload) : UploadAnswer → Upload
  | .lost loss => { s with error := loss.text, stage := .finished }
  | .reply r =>
    if r.ok then
      let s := { s with
        complete := r.complete
        window := (max 1 (min r.uploadWindow 4)).toNat
        offset := r.offset.toNat }
      if r.offset < 0 ∨ s.image.length < r.offset then { s with error := invalidOffset }.finish
      else { s with first := s.offset }.again
    else { s with error := r.error, complete := r.complete, stage := .finished }

def sendChunk (s : Upload) (sent : ℕ) (expectedOffsets : List ℕ) : Upload :=
  let bytes := (s.image.drop sent).take kChunkSize
  let sent' := sent + bytes.length
  let expected := expectedOffsets ++ [sent']
  { s with
    chunks := s.chunks ++ [(sent, bytes)]
    stage :=
      if expected.length < s.window ∧ sent' < s.image.length then .sending sent' expected
      else .receiving expected }

def chunkAnswered (s : Upload) (expected : ℕ) (rest : List ℕ) : UploadAnswer → Upload
  | .lost loss => { s with error := loss.text }.again
  | .reply r =>
    let s := { s with complete := r.complete }
    if r.ok then
      if r.offset ≠ expected then { s with error := offsetMismatch }.again
      else
        let s := { s with offset := expected }
        if rest = [] then s.again else { s with stage := .receiving rest }
    else { s with error := r.error }.again

end Upload

inductive UploadEvent
  | send
  | sendFailed (loss : Loss)
  | answer (a : UploadAnswer)

namespace Upload

/-- What the worker does in a stage; in the others it does not wait for the event. -/
def react (s : Upload) : Stage → UploadEvent → Option Upload
  | .init, .sendFailed loss => some (s.initAnswered (.lost loss))
  | .init, .answer a => some (s.initAnswered a)
  | .sending sent expected, .send => some (s.sendChunk sent expected)
  | .sending _ _, .sendFailed loss => some { s with error := loss.text }.again
  | .receiving (expected :: rest), .answer a => some (s.chunkAnswered expected rest a)
  | _, _ => none

def next (s : Upload) (e : UploadEvent) : Option Upload :=
  { s with steps := s.steps + 1 }.react s.stage e

theorem next_of_stage {s : Upload} {stage : Stage} (h : s.stage = stage) (e : UploadEvent) :
    s.next e = { s with steps := s.steps + 1 }.react stage e := by
  rw [← h]
  rfl

/-- Any upload of an image to any server. -/
def machine (image : Bytes) : Machine Upload UploadEvent := .ofFn (fun s => s = start image) next

/-- A refusal says why. -/
def Explained : UploadEvent → Prop
  | .answer (.reply r) => r.ok = false → r.error ≠ ""
  | _ => True

/-! ## What a run keeps -/

/-- The chunk of an image at an offset. -/
def chunkAt (image : Bytes) (offset : ℕ) : ℕ × Bytes :=
  (offset, (image.drop offset).take kChunkSize)

/-- Chunks that carry the bytes of an image from one offset to another without a gap. -/
def Cover (image : Bytes) : ℕ → List (ℕ × Bytes) → ℕ → Prop :=
  Strides image.length kChunkSize fun a chunk => chunk = chunkAt image a

/-- The offsets at which the chunks behind an offset end. -/
def Ends (image : Bytes) : ℕ → List ℕ → ℕ → Prop :=
  Strides image.length kChunkSize fun a e => e = min (a + kChunkSize) image.length

variable {image : Bytes} {a b : ℕ} {chunks : List (ℕ × Bytes)}

theorem chunk_end (h : a < image.length) :
    a + ((image.drop a).take kChunkSize).length = min (a + kChunkSize) image.length := by
  simp only [List.length_take, List.length_drop]
  omega

/-- Together the chunks are these bytes of the image, each once. -/
theorem Cover.bytes (h : Cover image a chunks b) :
    image.take a ++ chunks.flatMap Prod.snd = image.take b := by
  induction chunks generalizing a with
  | nil =>
    cases h
    simp
  | cons chunk chunks ih =>
    obtain ⟨hlt, rfl, hrest⟩ := h
    have hend := chunk_end hlt
    rw [← ih hrest, List.flatMap_cons, ← List.append_assoc]
    congr 1
    rw [chunkAt, ← hend, ← List.take_add, List.take_eq_take_iff]
    omega

/-- How many replies are still to come. -/
def outstanding (s : Upload) : ℕ :=
  match s.stage with
  | .init => 0
  | .sending _ expected => expected.length
  | .receiving expected => expected.length
  | .finished => 0

/-- The chunks go on from the first offset, and those behind the confirmed one are outstanding. -/
def Good (image : Bytes) (s : Upload) : Prop :=
  s.image = image ∧ 1 ≤ s.window ∧ s.window ≤ 4 ∧
    match s.stage with
    | .init => s.error = "" ∧ s.first = 0 ∧ s.chunks = [] ∧ s.steps = 0
    | .sending sent expected => s.error = "" ∧ s.first ≤ image.length ∧
        Cover image s.first s.chunks sent ∧ Ends image s.offset expected sent ∧
        sent < image.length ∧ expected.length < s.window ∧
        s.steps + expected.length = 1 + 2 * s.chunks.length
    | .receiving expected => s.error = "" ∧ s.first ≤ image.length ∧ expected ≠ [] ∧
        (∃ sent, Cover image s.first s.chunks sent ∧ Ends image s.offset expected sent) ∧
        expected.length ≤ s.window ∧ s.steps + expected.length = 1 + 2 * s.chunks.length
    | .finished => s.first ≤ image.length ∧ (∃ sent, Cover image s.first s.chunks sent ∧
        (s.error = "" → s.complete = true ∧ sent = image.length)) ∧
        s.steps ≤ 2 + 2 * s.chunks.length

variable {s : Upload}

theorem Loss.text_ne (loss : Loss) : loss.text ≠ "" := by
  cases loss <;> simp [Loss.text]

theorem good_failed (himage : s.image = image) (hwindow : 1 ≤ s.window ∧ s.window ≤ 4)
    (herror : s.error ≠ "") (hfirst : s.first ≤ image.length) {sent : ℕ}
    (hcover : Cover image s.first s.chunks sent) (hsteps : s.steps ≤ 2 + 2 * s.chunks.length) :
    Good image s.again := by
  unfold again finish
  rw [if_neg (by simp [herror])]
  refine ⟨himage, hwindow.1, hwindow.2, hfirst, ⟨sent, hcover, fun h => ?_⟩, hsteps⟩
  rw [if_neg (by simp [herror])] at h
  exact absurd h herror

/-- All chunks are confirmed. -/
theorem good_confirmed (himage : s.image = image) (hwindow : 1 ≤ s.window ∧ s.window ≤ 4)
    (herror : s.error = "") (hfirst : s.first ≤ image.length)
    (hcover : Cover image s.first s.chunks s.offset)
    (hsteps : s.steps = 1 + 2 * s.chunks.length) : Good image s.again := by
  have hle := (Strides.le hcover hfirst).2
  unfold again finish
  split
  next h =>
    rw [himage] at h
    exact ⟨himage, hwindow.1, hwindow.2, herror, hfirst, hcover, rfl, h.2, hwindow.1, hsteps⟩
  next h =>
    rw [himage, not_and, not_lt] at h
    have hoffset : s.offset = image.length := le_antisymm hle (h herror)
    refine ⟨himage, hwindow.1, hwindow.2, hfirst, ⟨s.offset, hcover, fun hdone => ?_⟩, ?_⟩
    · refine ⟨?_, hoffset⟩
      by_contra hnot
      rw [if_pos ⟨herror, by rw [hoffset, himage], hnot⟩] at hdone
      exact absurd hdone (by simp [notComplete])
    · change s.steps ≤ 2 + 2 * s.chunks.length
      omega

theorem good_initAnswered (h : Good image s) (hstage : s.stage = .init) {a : UploadAnswer}
    (hexplained : ∀ r, a = .reply r → r.ok = false → r.error ≠ "") :
    Good image ({ s with steps := s.steps + 1 }.initAnswered a) := by
  obtain ⟨himage, hone, hfour, h⟩ := h
  rw [hstage] at h
  obtain ⟨herror, hfirst, hchunks, hsteps⟩ := h
  have hcover : Cover image s.first s.chunks 0 := by rw [hfirst, hchunks]; rfl
  have hzero : s.first ≤ image.length := by omega
  have hsteps' : s.steps + 1 ≤ 2 + 2 * s.chunks.length := by omega
  cases a with
  | lost loss =>
    exact ⟨himage, hone, hfour, hzero, ⟨0, hcover, fun h => absurd h (Loss.text_ne loss)⟩, hsteps'⟩
  | reply r =>
    simp only [initAnswered]
    split
    next hok =>
      have hwindow : 1 ≤ (max 1 (min r.uploadWindow 4)).toNat ∧
          (max 1 (min r.uploadWindow 4)).toNat ≤ 4 := by omega
      split
      next =>
        unfold finish
        refine ⟨himage, hwindow.1, hwindow.2, hzero, ⟨0, hcover, fun h => ?_⟩, hsteps'⟩
        simp [invalidOffset] at h
      next hvalid =>
        rw [himage] at hvalid
        refine good_confirmed himage hwindow herror (by dsimp only; omega) ?_ ?_
        · simp only [hchunks]
          rfl
        · simp [hsteps, hchunks]
    next hrefused =>
      have hne := hexplained r rfl (Bool.not_eq_true _ ▸ hrefused)
      exact ⟨himage, hone, hfour, hzero, ⟨0, hcover, fun h => absurd h hne⟩, hsteps'⟩

theorem good_sendChunk (h : Good image s) {sent : ℕ} {expected : List ℕ}
    (hstage : s.stage = .sending sent expected) :
    Good image ({ s with steps := s.steps + 1 }.sendChunk sent expected) := by
  obtain ⟨himage, hone, hfour, h⟩ := h
  rw [hstage] at h
  obtain ⟨herror, hfirst, hcover, hends, hlt, hroom, hsteps⟩ := h
  have hend := chunk_end hlt
  have hcover' := Strides.snoc hcover hlt rfl
  have hends' := Strides.snoc hends hlt rfl
  unfold sendChunk
  dsimp only
  rw [himage, hend]
  split
  next hmore =>
    refine ⟨rfl, hone, hfour, herror, hfirst, hcover', hends', hmore.2, hmore.1, ?_⟩
    simp only [List.length_append, List.length_singleton]
    omega
  next =>
    refine ⟨rfl, hone, hfour, herror, hfirst, by simp, ⟨_, hcover', hends'⟩, ?_, ?_⟩
    · simp only [List.length_append, List.length_singleton]
      omega
    · simp only [List.length_append, List.length_singleton]
      omega

theorem good_chunkAnswered (h : Good image s) {e : ℕ} {rest : List ℕ}
    (hstage : s.stage = .receiving (e :: rest)) {a : UploadAnswer}
    (hexplained : ∀ r, a = .reply r → r.ok = false → r.error ≠ "") :
    Good image ({ s with steps := s.steps + 1 }.chunkAnswered e rest a) := by
  obtain ⟨himage, hone, hfour, h⟩ := h
  rw [hstage] at h
  obtain ⟨herror, hfirst, -, ⟨sent, hcover, hends⟩, hroom, hsteps⟩ := h
  simp only [List.length_cons] at hroom hsteps
  have hsteps' : s.steps + 1 ≤ 2 + 2 * s.chunks.length := by omega
  cases a with
  | lost loss =>
    exact good_failed himage ⟨hone, hfour⟩ (Loss.text_ne loss) hfirst hcover hsteps'
  | reply r =>
    simp only [chunkAnswered]
    split
    next hok =>
      split
      next =>
        exact good_failed himage ⟨hone, hfour⟩ (by simp [offsetMismatch]) hfirst hcover hsteps'
      next =>
        obtain ⟨-, rfl, hends⟩ := hends
        split
        next hlast =>
          subst hlast
          cases hends
          refine good_confirmed himage ⟨hone, hfour⟩ herror hfirst hcover ?_
          simp only [List.length_nil] at hsteps
          dsimp only
          omega
        next hmore =>
          refine ⟨himage, hone, hfour, herror, hfirst, hmore, ⟨sent, hcover, hends⟩, ?_, ?_⟩
          · dsimp only
            omega
          · dsimp only
            omega
    next hrefused =>
      have hne := hexplained r rfl (Bool.not_eq_true _ ▸ hrefused)
      exact good_failed himage ⟨hone, hfour⟩ hne hfirst hcover hsteps'

theorem good_invariant (image : Bytes) :
    ((machine image).restrict fun _ e => Explained e).Invariant (Good image) where
  init s h := by
    cases h
    exact ⟨rfl, by simp [start], by simp [start], rfl, rfl, rfl, rfl⟩
  step s e t _ h hstep := by
    obtain ⟨hexplained, hnext⟩ := hstep
    replace hnext : s.next e = some t := hnext
    unfold next react at hnext
    split at hnext
    next loss hstage =>
      cases hnext
      exact good_initAnswered h hstage (by simp)
    next a hstage =>
      cases hnext
      exact good_initAnswered h hstage fun r hr => by subst hr; exact hexplained
    next sent expected hstage =>
      cases hnext
      exact good_sendChunk h hstage
    next sent expected loss hstage =>
      cases hnext
      obtain ⟨himage, hone, hfour, h⟩ := h
      rw [hstage] at h
      obtain ⟨-, hfirst, hcover, -, -, -, hsteps⟩ := h
      refine good_failed himage ⟨hone, hfour⟩ (Loss.text_ne loss) hfirst hcover ?_
      dsimp only
      omega
    next e rest a hstage =>
      cases hnext
      exact good_chunkAnswered h hstage fun r hr => by subst hr; exact hexplained
    next => cases hnext

theorem Good.cover (h : Good image s) : s.first ≤ image.length ∧
    ∃ sent, Cover image s.first s.chunks sent := by
  obtain ⟨-, -, -, h⟩ := h
  cases hstage : s.stage with
  | init =>
    rw [hstage] at h
    obtain ⟨-, hfirst, hchunks, -⟩ := h
    refine ⟨by omega, 0, ?_⟩
    rw [hfirst, hchunks]
    rfl
  | sending sent expected =>
    rw [hstage] at h
    exact ⟨h.2.1, sent, h.2.2.1⟩
  | receiving expected =>
    rw [hstage] at h
    obtain ⟨-, hfirst, -, ⟨sent, hcover, -⟩, -⟩ := h
    exact ⟨hfirst, sent, hcover⟩
  | finished =>
    rw [hstage] at h
    obtain ⟨hfirst, ⟨sent, hcover, -⟩, -⟩ := h
    exact ⟨hfirst, sent, hcover⟩

theorem Good.bounds (h : Good image s) : s.steps ≤ 2 + 2 * s.chunks.length ∧
    kChunkSize * s.chunks.length < image.length + kChunkSize := by
  obtain ⟨hfirst, sent, hcover⟩ := h.cover
  have hle := Strides.le hcover hfirst
  have hcount := Strides.count hcover (by decide) hfirst
  refine ⟨?_, by omega⟩
  obtain ⟨-, -, -, h⟩ := h
  cases hstage : s.stage with
  | init =>
    rw [hstage] at h
    have := h.2.2.2
    omega
  | sending sent expected =>
    rw [hstage] at h
    have := h.2.2.2.2.2.2
    omega
  | receiving expected =>
    rw [hstage] at h
    have := h.2.2.2.2.2
    omega
  | finished =>
    rw [hstage] at h
    exact h.2.2

theorem Good.outstanding (h : Good image s) : s.outstanding ≤ s.window ∧ s.window ≤ 4 := by
  obtain ⟨-, -, hfour, h⟩ := h
  refine ⟨?_, hfour⟩
  unfold Upload.outstanding
  cases hstage : s.stage with
  | init => exact Nat.zero_le _
  | sending sent expected =>
    rw [hstage] at h
    exact h.2.2.2.2.2.1.le
  | receiving expected =>
    rw [hstage] at h
    exact h.2.2.2.2.1
  | finished => exact Nat.zero_le _

theorem Good.finished (h : Good image s) (hstage : s.stage = .finished) (herror : s.error = "") :
    s.complete = true ∧ image.take s.first ++ s.chunks.flatMap Prod.snd = image := by
  obtain ⟨-, -, -, h⟩ := h
  rw [hstage] at h
  obtain ⟨-, ⟨sent, hcover, hdone⟩, -⟩ := h
  obtain ⟨hcomplete, rfl⟩ := hdone herror
  refine ⟨hcomplete, ?_⟩
  rw [hcover.bytes, List.take_length]

/-- Whatever a server answers, as long as its refusals say why: at most the window of chunks is
outstanding, the chunks are the bytes of the image behind the first offset, each once and none
longer than a chunk, the worker ends after a bounded number of steps, and it reports a success only
behind a reply that announced completion and with all bytes sent. -/
theorem upload_safe {image : Bytes} {s : Upload}
    (hs : ((machine image).restrict fun _ e => Explained e).Reachable s) :
    s.outstanding ≤ s.window ∧ s.window ≤ 4 ∧
      (∃ sent, s.first ≤ sent ∧ sent ≤ image.length ∧ Cover image s.first s.chunks sent ∧
        image.take s.first ++ s.chunks.flatMap Prod.snd = image.take sent) ∧
      kChunkSize * s.chunks.length < image.length + kChunkSize ∧
      s.steps ≤ 2 + 2 * s.chunks.length ∧
      (s.stage = .finished → s.error = "" → s.complete = true ∧
        image.take s.first ++ s.chunks.flatMap Prod.snd = image) := by
  have hgood := (good_invariant image).reachable hs
  obtain ⟨hfirst, sent, hcover⟩ := hgood.cover
  obtain ⟨hsteps, hcount⟩ := hgood.bounds
  have hle := Strides.le hcover hfirst
  exact ⟨hgood.outstanding.1, hgood.outstanding.2, ⟨sent, hle.1, hle.2, hcover, hcover.bytes⟩,
    hcount, hsteps, hgood.finished⟩

/-- One byte is there already, and the server confirms the rest of it. -/
def sampleEvents : List UploadEvent :=
  [.answer (.reply ⟨true, "", 1, 4, false⟩), .send, .answer (.reply ⟨true, "", 3, 1, true⟩)]

theorem sample_uploaded : ∃ s, ((machine [7, 8, 9]).restrict fun _ e => Explained e).Reachable s ∧
    s.chunks = [(1, [8, 9])] ∧ s.error = "" ∧ s.complete = true ∧
    [7] ++ s.chunks.flatMap Prod.snd = [7, 8, 9] := by
  have hrun : (Machine.runFn next (start [7, 8, 9]) sampleEvents).isSome = true := by decide
  have hs : ((machine [7, 8, 9]).restrict fun _ e => Explained e).Reachable _ :=
    Machine.Reachable.runFn_labels (by simp [sampleEvents, Explained]) (.init rfl)
      (Option.some_get hrun).symm
  obtain ⟨hcomplete, hall⟩ := (upload_safe hs).2.2.2.2.2 rfl rfl
  exact ⟨_, hs, rfl, rfl, hcomplete, hall⟩

/-! ## Refusals without a text -/

def refusal : UploadAnswer := .reply ⟨false, "", 0, 1, false⟩

/-- The worker is at the start of a window again when the reply to its first chunk is a refusal. -/
theorem refused_again {s : Upload} {sent : ℕ} (hstage : s.stage = .sending sent [])
    (herror : s.error = "") (hwindow : s.window = 1) (hmore : s.offset < s.image.length) :
    ∃ t, Machine.runFn next s [.send, .answer refusal] = some t ∧
      t.stage = .sending t.offset [] ∧ t.error = "" ∧ t.window = 1 ∧
      t.offset < t.image.length ∧ s.steps < t.steps := by
  have hsend : s.next .send = some { s with
      steps := s.steps + 1
      chunks := s.chunks ++ [chunkAt s.image sent]
      stage := .receiving [sent + ((s.image.drop sent).take kChunkSize).length] } := by
    rw [next_of_stage hstage]
    simp [react, sendChunk, hwindow, chunkAt]
  refine ⟨{ s with
    steps := s.steps + 1 + 1
    chunks := s.chunks ++ [chunkAt s.image sent]
    complete := false
    stage := .sending s.offset [] }, ?_, ?_⟩
  · simp only [Machine.runFn, hsend, Option.bind_some]
    rw [next_of_stage rfl]
    simp [react, chunkAnswered, refusal, again, herror, hmore]
  · exact ⟨rfl, herror, hwindow, hmore, by dsimp only; omega⟩

/-- A server that refuses without a text is not found out: the refusal of the first request ends the
worker with success and nothing sent, and refusals of chunks keep it sending for ever. -/
theorem unexplained_refusals {image : Bytes} (himage : image ≠ []) :
    (∃ s, (machine image).Reachable s ∧ s.stage = .finished ∧ s.error = "" ∧ s.chunks = []) ∧
      ∀ n, ∃ s, (machine image).Reachable s ∧ n ≤ s.steps ∧ s.stage ≠ .finished := by
  have hpos := List.length_pos_iff.mpr himage
  constructor
  · have hrun : Machine.runFn next (start image) [.answer refusal] = some
        { start image with steps := 1, stage := .finished } := rfl
    exact ⟨_, Machine.Reachable.runFn (.init rfl) hrun, rfl, rfl, rfl⟩
  · have hloop : ∀ n, ∃ s, (machine image).Reachable s ∧ n ≤ s.steps ∧
        s.stage = .sending s.offset [] ∧ s.error = "" ∧ s.window = 1 ∧
        s.offset < s.image.length := by
      intro n
      induction n with
      | zero =>
        have hrun : Machine.runFn next (start image) [.answer (.reply ⟨true, "", 0, 1, false⟩)] =
            some { start image with steps := 1, stage := .sending 0 [] } := by
          simp [Machine.runFn, next, react, start, initAnswered, again, hpos]
        exact ⟨_, Machine.Reachable.runFn (.init rfl) hrun, Nat.zero_le _, rfl, rfl, rfl, hpos⟩
      | succ n ih =>
        obtain ⟨s, hs, hn, hstage, herror, hwindow, hmore⟩ := ih
        obtain ⟨t, hrun, hstage', herror', hwindow', hmore', hsteps⟩ :=
          refused_again hstage herror hwindow hmore
        exact ⟨t, hs.runFn hrun, by omega, hstage', herror', hwindow', hmore'⟩
    intro n
    obtain ⟨s, hs, hn, hstage, -⟩ := hloop n
    exact ⟨s, hs, hn, by simp [hstage]⟩

theorem sample_unexplained : ∃ s, (machine [7]).Reachable s ∧ s.stage = .finished ∧ s.error = "" ∧
    s.chunks = [] :=
  (unexplained_refusals (by decide)).1

end Upload
end CppChat.Transfers
