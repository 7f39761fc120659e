import Mathlib.Algebra.BigOperators.Group.List.Basic
import Mathlib.Algebra.Order.Group.Nat
import Mathlib.Data.Int.Order.Basic

/-! # Downloads from any resource server

The loop of `ResourceMgr::downloadImage` over the replies of a server that is not trusted. It starts
from the part that an earlier attempt has kept.
-/
namespace CppChat.Transfers

abbrev Bytes := List UInt8

def kChunkSize : ℕ := 32 * 1024
def kMaxImageSize : ℕ := 20 * 1024 * 1024

/-- The fields that the client reads from a reply, as Qt converts them. -/
structure DataReply where
  data : Bytes
  offset : ℤ
  size : ℤ
  sha256 : String
  complete : Bool

/-- What `exchange` comes back with: a reply with `ok`, or an error text. The text of a refusal is
the server's own, and may be empty. -/
inductive DownloadAnswer
  | data (reply : DataReply)
  | failed (error : String)

def invalidData : String := "下载数据无效"
def checksumFailure : String := "图片校验失败"

/-- The variables of the worker; `received` is history: the replies in their order. -/
structure Download where
  image : Bytes
  offset : ℤ
  size : ℤ
  checksum : String
  error : String
  looping : Bool
  received : List DataReply

namespace Download

def start (kept : Bytes) : Download where
  image := kept
  offset := kept.length
  size := -1
  checksum := ""
  error := ""
  looping := true
  received := []

/-- The test on a reply. -/
def rejected (offset : ℤ) (r : DataReply) : Bool :=
  r.size ≤ 0 ∨ kMaxImageSize < r.size ∨ kChunkSize < r.data.length ∨
    r.offset ≠ offset + r.data.length ∨ r.size < r.offset ∨ (r.data = [] ∧ ¬ r.complete)

/-- One turn of the loop. -/
def turn (d : Download) : DownloadAnswer → Download
  | .failed error => { d with error, looping := false }
  | .data r =>
    let d := { d with size := r.size, checksum := r.sha256, received := d.received ++ [r] }
    if rejected d.offset r then { d with error := invalidData, looping := false }
    else { d with image := d.image ++ r.data, offset := r.offset, looping := !r.complete }

/-- The loop, as far as the answers go. -/
def loop : List DownloadAnswer → Download → Download
  | [], d => d
  | answer :: answers, d =>
    let d := d.turn answer
    if d.looping then loop answers d else d

variable (sha256 : Bytes → String)

/-- The image and the error that the worker reports. -/
def report (d : Download) : Bytes × String :=
  if d.error = "" ∧ (d.image.length ≠ d.size ∨ sha256 d.image ≠ d.checksum) then
    ([], checksumFailure)
  else (d.image, d.error)

/-! ## What the loop keeps -/

variable {sha256} {kept : Bytes} {d : Download}

/-- While the loop goes on, every reply has brought bytes. -/
structure Inv (kept : Bytes) (d : Download) : Prop where
  offset : d.offset = d.image.length
  bound : d.image.length ≤ kMaxImageSize
  progress : kept.length + d.received.length ≤ d.image.length + 1
  strict : d.looping = true → kept.length + d.received.length ≤ d.image.length
  running : d.looping = true → d.error = ""
  last : ∀ r ∈ d.received.getLast?, d.size = r.size ∧ d.checksum = r.sha256
  fresh : d.received = [] → d.size = -1
  content : d.error = "" → d.image = kept ++ d.received.flatMap DataReply.data

theorem Inv.start (h : kept.length ≤ kMaxImageSize) : Inv kept (start kept) := by
  refine ⟨rfl, h, ?_, fun _ => ?_, fun _ => rfl, ?_, fun _ => rfl, fun _ => ?_⟩ <;>
    simp [Download.start]

theorem Inv.turn (h : Inv kept d) (hlooping : d.looping = true) (answer : DownloadAnswer) :
    Inv kept (d.turn answer) := by
  have hstrict := h.strict hlooping
  cases answer with
  | failed error =>
    refine ⟨h.offset, h.bound, h.progress, by simp [Download.turn], by simp [Download.turn], h.last,
      h.fresh, fun _ => h.content (h.running hlooping)⟩
  | data r =>
    have hlast : ∀ x ∈ (d.received ++ [r]).getLast?, r.size = x.size ∧ r.sha256 = x.sha256 := by
      intro x hx
      rw [List.getLast?_concat, Option.mem_some_iff] at hx
      exact hx ▸ ⟨rfl, rfl⟩
    unfold Download.turn
    dsimp only
    split
    next =>
      refine ⟨h.offset, h.bound, ?_, by simp, by simp, hlast, by simp, fun herror => ?_⟩
      · simp only [List.length_append, List.length_singleton]
        omega
      · exact absurd herror (by simp [invalidData])
    next hok =>
      simp only [rejected, decide_eq_true_eq, not_or, not_le, not_lt, not_not, not_and] at hok
      obtain ⟨-, hmax, -, hnext, hsize, hempty⟩ := hok
      have himage : ((d.image ++ r.data).length : ℤ) = r.offset := by
        rw [hnext, h.offset, List.length_append, Int.natCast_add]
      refine ⟨himage.symm, ?_, ?_, fun hmore => ?_, fun _ => h.running hlooping, hlast, by simp,
        fun herror => ?_⟩
      · have hle : ((d.image ++ r.data).length : ℤ) ≤ kMaxImageSize :=
          himage.trans_le (hsize.trans hmax)
        exact_mod_cast hle
      · simp only [List.length_append, List.length_singleton]
        omega
      · have hdata : r.data ≠ [] := by
          intro hnil
          have hcomplete := hempty hnil
          simp [hcomplete] at hmore
        have hpos := List.length_pos_iff.mpr hdata
        simp only [List.length_append, List.length_singleton]
        omega
      · rw [h.content herror, List.flatMap_append, List.flatMap_singleton, List.append_assoc]

theorem Inv.loop (h : Inv kept d) (hlooping : d.looping = true) (answers : List DownloadAnswer) :
    Inv kept (loop answers d) := by
  induction answers generalizing d with
  | nil => exact h
  | cons answer answers ih =>
    have hturn := h.turn hlooping answer
    simp only [Download.loop]
    split
    next hmore => exact ih hturn hmore
    next => exact hturn

/-- A loop that goes on has taken every answer for a reply. -/
theorem loop_looping (answers : List DownloadAnswer) (hmore : (loop answers d).looping = true) :
    (loop answers d).received.length = d.received.length + answers.length := by
  induction answers generalizing d with
  | nil => rfl
  | cons answer answers ih =>
    simp only [Download.loop] at hmore ⊢
    split at hmore
    next hturn =>
      rw [if_pos hturn, ih hmore, List.length_cons]
      have hone : (d.turn answer).received.length = d.received.length + 1 := by
        cases answer with
        | failed error => simp [Download.turn] at hturn
        | data r =>
          unfold Download.turn
          dsimp only
          split <;> simp
      omega
    next hturn => exact absurd hmore hturn

/-- Whatever the server answers, the loop ends after at most one reply more than there are bytes
left to the limit, and the image never grows over the limit. A success is the kept part and the
received data, of the size and the digest that the last reply named; a failed check leaves
nothing. -/
theorem download_safe (sha256 : Bytes → String) (kept : Bytes) (hkept : kept.length ≤ kMaxImageSize)
    (answers : List DownloadAnswer) :
    let d := loop answers (start kept)
    d.image.length ≤ kMaxImageSize ∧
      kept.length + d.received.length ≤ kMaxImageSize + 1 ∧
      (d.looping = true → kept.length + answers.length ≤ kMaxImageSize) ∧
      ((d.report sha256).2 = "" → ∃ r, d.received.getLast? = some r ∧
        (d.report sha256).1 = kept ++ d.received.flatMap DataReply.data ∧
        ((d.report sha256).1.length : ℤ) = r.size ∧ sha256 (d.report sha256).1 = r.sha256) ∧
      (d.error = "" → (d.report sha256).2 ≠ "" → (d.report sha256).1 = []) := by
  intro d
  have hinv : Inv kept d := (Inv.start hkept).loop rfl answers
  refine ⟨hinv.bound, ?_, fun hmore => ?_, fun hsuccess => ?_, fun herror hfailed => ?_⟩
  · have := hinv.progress
    have := hinv.bound
    omega
  · have hall : d.received.length = 0 + answers.length := loop_looping answers hmore
    have := hinv.strict hmore
    have := hinv.bound
    omega
  · unfold report at hsuccess ⊢
    split at hsuccess
    next => exact absurd hsuccess (by simp [checksumFailure])
    next hok =>
      rw [if_neg hok]
      have herror : d.error = "" := hsuccess
      rw [not_and, not_or, not_not, not_not] at hok
      obtain ⟨hsize, hsha⟩ := hok herror
      have hne : d.received ≠ [] := by
        intro hnil
        rw [hinv.fresh hnil] at hsize
        omega
      obtain ⟨r, hr⟩ := Option.ne_none_iff_exists'.mp (mt List.getLast?_eq_none_iff.mp hne)
      obtain ⟨hrsize, hrsha⟩ := hinv.last r hr
      exact ⟨r, hr, hinv.content herror, hsize.trans hrsize, hsha.trans hrsha⟩
  · unfold report at hfailed ⊢
    split
    next => rfl
    next hok =>
      rw [if_neg hok] at hfailed
      exact absurd herror hfailed

theorem sample_downloaded :
    let d := loop [.data ⟨[2], 2, 3, "6", false⟩, .data ⟨[3], 3, 3, "6", true⟩] (start [1])
    d.report (fun b => toString (b.foldl (fun n x => n + x.toNat) 0)) = ([1, 2, 3], "") ∧
      d.image.length ≤ kMaxImageSize := by
  exact ⟨by decide, (download_safe (fun b => toString (b.foldl (fun n x => n + x.toNat) 0)) [1]
    (by decide) [.data ⟨[2], 2, 3, "6", false⟩, .data ⟨[3], 3, 3, "6", true⟩]).1⟩

end Download
end CppChat.Transfers
