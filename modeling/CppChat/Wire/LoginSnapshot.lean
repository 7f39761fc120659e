import Mathlib.Data.List.Induction
import CppChat.Wire.Styled

/-! # Login snapshots

`LoginSnapshot.h` sends a large login reply in numbered frames. It goes through the elements of
the two lists and closes a frame where the next element does not fit. What is measured is the
styled text; a frame that is still open is measured with the longer of the two flags.
-/
namespace CppChat.Wire.LoginSnapshot

def maxLength : ℕ := 1024 * 16
def maxChunks : ℕ := 256
def maxBytes : ℕ := 4 * 1024 * 1024

inductive ListName
  | applyList
  | friendList
  deriving DecidableEq

/-- A reply: its lists, `login_chunk`, `login_chunk_more` and the rest of its members. -/
structure Reply (φ J : Type*) where
  fields : φ
  list : ListName → Option (List J)
  loginChunk : Option ℕ
  loginChunkMore : Option Bool

namespace Reply

variable {φ J : Type*}

/-- The elements that a loop over a member goes through. -/
def items (r : Reply φ J) (l : ListName) : List J := (r.list l).getD []

def append (r : Reply φ J) (l : ListName) (item : J) : Reply φ J :=
  { r with list := Function.update r.list l (some (r.items l ++ [item])) }

/-- The reply without elements, as the first frame. -/
def base (r : Reply φ J) : Reply φ J :=
  { r with list := fun _ => some [], loginChunk := some 0, loginChunkMore := some false }

end Reply

/-- The length of the styled text; `false` is longer than `true`. -/
structure Styled (φ J : Type*) where
  size : Reply φ J → ℕ
  more_le : ∀ r : Reply φ J, size { r with loginChunkMore := some true } ≤
    size { r with loginChunkMore := some false }

/-- The frames so far, their bytes, and the open frame. -/
structure Build (φ J : Type*) where
  frames : List (Reply φ J)
  totalBytes : ℕ
  current : Reply φ J

/-- Replies with scalar members and lists of flat objects, as the writer of the servers or any
other lays them out. -/
def Reply.toDocument (r : Reply Object Object) : Document where
  members := r.fields ++ (r.loginChunk.map fun n => ("login_chunk", .number n)).toList ++
    (r.loginChunkMore.map fun b => ("login_chunk_more", .bool b)).toList
  arrays := (r.list .applyList).toList.map (("apply_list", ·)) ++
    (r.list .friendList).toList.map (("friend_list", ·))

def Writer.styled (w : Writer) : Styled Object Object where
  size r := r.toDocument.size w
  more_le r := by
    simp [Reply.toDocument, Document.size, Scalar.size]

variable {φ J : Type*} (w : Styled φ J)

def appendFrame (base : Reply φ J) (b : Build φ J) (more : Bool) : Option (Build φ J) :=
  let body : Reply φ J := { b.current with loginChunkMore := some more }
  if maxChunks ≤ b.frames.length ∨ maxLength < w.size body ∨
      maxBytes < b.totalBytes + w.size body then none
  else some {
    frames := b.frames ++ [body]
    totalBytes := b.totalBytes + w.size body
    current := { base with loginChunk := some (b.frames.length + 1) } }

/-- The body of the loops. -/
def addItem (base : Reply φ J) (b : Build φ J) (l : ListName) (item : J) : Option (Build φ J) :=
  if w.size (b.current.append l item) ≤ maxLength then
    some { b with current := b.current.append l item }
  else if b.current.items .applyList = [] ∧ b.current.items .friendList = [] then none
  else
    match appendFrame w base b true with
    | none => none
    | some b =>
      if w.size (b.current.append l item) ≤ maxLength then
        some { b with current := b.current.append l item }
      else none

def addItems (base : Reply φ J) (l : ListName) : Build φ J → List J → Option (Build φ J)
  | b, [] => some b
  | b, item :: rest => (addItem w base b l item).bind fun b => addItems base l b rest

/-- Whether there is a snapshot, and its frames. -/
def buildFrames (response : Reply φ J) (allowChunks : Bool) : Bool × List (Reply φ J) :=
  if w.size response ≤ maxLength then (true, [response])
  else if allowChunks = false ∨ maxBytes < w.size response then (false, [])
  else if maxLength < w.size response.base then (false, [])
  else
    let built := (addItems w response.base .applyList ⟨[], 0, response.base⟩
      (response.items .applyList)).bind fun b =>
        (addItems w response.base .friendList b (response.items .friendList)).bind fun b =>
          appendFrame w response.base b false
    match built with
    | none => (false, [])
    | some b => (true, b.frames)

/-! ## What frames hold -/

/-- The part of the elements that a frame has. -/
abbrev Part (J : Type*) := ListName → List J

def frame (response : Reply φ J) (number : ℕ) (more : Bool) (part : Part J) : Reply φ J :=
  ⟨response.fields, fun l => some (part l), some number, some more⟩

/-- Frames that others follow. -/
def frames (response : Reply φ J) (parts : List (Part J)) : List (Reply φ J) :=
  parts.mapIdx fun i part => frame response i true part

variable {w} {response : Reply φ J} {parts : List (Part J)} {part done : Part J} {b b' : Build φ J}
  {l : ListName} {item : J}

@[simp] theorem frame_items {i : ℕ} {more : Bool} :
    (frame response i more part).items = part := rfl

theorem frame_append {i : ℕ} {more : Bool} : (frame response i more part).append l item =
    frame response i more (Function.update part l (part l ++ [item])) := by
  unfold frame Reply.append
  congr 1
  funext l'
  by_cases h : l' = l
  · subst h
    rw [Function.update_self, Function.update_self]
    rfl
  · rw [Function.update_of_ne h, Function.update_of_ne h]

theorem base_eq : response.base = frame response 0 false fun _ => [] := rfl

theorem frames_append : frames response (parts ++ [part]) =
    frames response parts ++ [frame response parts.length true part] := by
  rw [frames, List.mapIdx_concat]
  rfl

/-- Elements in the order of the loops: those to apply for, and then the friends. -/
def elements (part : Part J) : List (ListName × J) :=
  (part .applyList).map (ListName.applyList, ·) ++ (part .friendList).map (ListName.friendList, ·)

theorem elements_add (hlast : l = .applyList → part .friendList = []) :
    elements (Function.update part l (part l ++ [item])) = elements part ++ [(l, item)] := by
  cases l with
  | applyList => simp [elements, hlast rfl]
  | friendList => simp [elements]

theorem length_elements :
    (elements part).length = (part .applyList).length + (part .friendList).length := by
  simp [elements]

/-- A frame is closed where it holds an element and the next one does not fit it. -/
def Full (w : Styled φ J) (response : Reply φ J) (parts : List (Part J)) : Prop :=
  ∀ i part, parts[i]? = some part → (∃ l, part l ≠ []) ∧
    ∃ l item, elements (fun l => (parts.take (i + 1)).flatMap (· l)) ++ [(l, item)] <+:
        elements response.items ∧
      maxLength < w.size ((frame response i false part).append l item)

theorem Full.concat (h : Full w response parts) (hpart : ∃ l, part l ≠ [])
    (hnext : ∃ l item, elements (fun l => (parts ++ [part]).flatMap (· l)) ++ [(l, item)] <+:
        elements response.items ∧
      maxLength < w.size ((frame response parts.length false part).append l item)) :
    Full w response (parts ++ [part]) := by
  intro i p hp
  rcases Nat.lt_or_ge i parts.length with hlt | hge
  · rw [List.getElem?_append_left hlt] at hp
    rw [List.take_append_of_le_length (Nat.succ_le_of_lt hlt)]
    exact h i p hp
  · have hi := (List.getElem?_eq_some_iff.mp hp).1
    rw [List.length_append, List.length_singleton] at hi
    obtain rfl : i = parts.length := by omega
    rw [List.getElem?_concat_length, Option.some_inj] at hp
    subst hp
    rw [List.take_of_length_le (by simp)]
    exact ⟨hpart, hnext⟩

/-- What was gone through so far: `parts` are the closed frames and `part` is the open one. -/
structure Inv (w : Styled φ J) (response : Reply φ J) (parts : List (Part J)) (part done : Part J)
    (b : Build φ J) : Prop where
  frames : b.frames = LoginSnapshot.frames response parts
  current : b.current = frame response parts.length false part
  total : b.totalBytes = (b.frames.map w.size).sum
  count : parts.length ≤ maxChunks
  fits : ∀ f ∈ b.frames, w.size f ≤ maxLength
  bytes : b.totalBytes ≤ maxBytes
  done : ∀ l, parts.flatMap (· l) ++ part l = done l
  full : Full w response parts

/-- Why there is no snapshot: chunks are not allowed, a limit is exceeded, or the members beside
the lists, alone or with the element that follows full frames, do not fit a frame. The limits are
those of the number of frames, where 256 full frames leave something, and of their bytes, where
full frames and the one behind them, of the elements that follow, have too many. -/
inductive Refused (w : Styled φ J) (response : Reply φ J) (allowChunks : Bool) : Prop
  | notAllowed (h : allowChunks = false)
  | reply (h : maxBytes < w.size response)
  | fields (h : maxLength < w.size response.base)
  | element (parts : List (Part J)) (l : ListName) (item : J) (hcount : parts.length < maxChunks)
      (hfits : ∀ f ∈ frames response parts, w.size f ≤ maxLength)
      (hnext : elements (fun l => parts.flatMap (· l)) ++ [(l, item)] <+: elements response.items)
      (hfull : Full w response parts)
      (h : maxLength < w.size ((frame response parts.length false fun _ => []).append l item))
  | limit (parts : List (Part J)) (part : Part J) (more : Bool)
      (hfits : ∀ f ∈ frames response parts, w.size f ≤ maxLength)
      (hleads : elements (fun l => parts.flatMap (· l) ++ part l) <+: elements response.items)
      (hfull : Full w response parts)
      (hrest : ∃ l, parts.flatMap (· l) ≠ response.items l)
      (h : maxChunks ≤ parts.length ∨
        maxBytes < ((frames response parts).map w.size).sum +
          w.size (frame response parts.length more part))

theorem Inv.length (h : Inv w response parts part done b) : b.frames.length = parts.length := by
  rw [h.frames, LoginSnapshot.frames, List.length_mapIdx]

/-- Closing a frame fails only at a limit, since the flag of an open frame is the longer one. -/
theorem Inv.limit {more : Bool} (h : Inv w response parts part done b)
    (hopen : w.size b.current ≤ maxLength) (happend : appendFrame w response.base b more = none) :
    maxChunks ≤ parts.length ∨ maxBytes < ((LoginSnapshot.frames response parts).map w.size).sum +
      w.size (frame response parts.length more part) := by
  have hbody : ({ b.current with loginChunkMore := some more } : Reply φ J) =
      frame response parts.length more part := by
    rw [h.current]
    rfl
  have hle : w.size (frame response parts.length more part) ≤ maxLength := by
    rw [h.current] at hopen
    cases more with
    | false => exact hopen
    | true => exact (w.more_le (frame response parts.length true part)).trans hopen
  unfold appendFrame at happend
  rw [hbody] at happend
  dsimp only at happend
  split at happend
  · rename_i hlimit
    rw [h.length, h.total, h.frames] at hlimit
    rcases hlimit with hcount | hlength | hbytes
    · exact .inl hcount
    · exact absurd hle (not_le.mpr hlength)
    · exact .inr hbytes
  · cases happend

theorem Inv.appendFrame_none {allowChunks more : Bool} (h : Inv w response parts part done b)
    (hopen : w.size b.current ≤ maxLength) (hleads : elements done <+: elements response.items)
    (hrest : ∃ l, parts.flatMap (· l) ≠ response.items l)
    (happend : appendFrame w response.base b more = none) : Refused w response allowChunks :=
  .limit parts part more (h.frames ▸ h.fits) (funext h.done ▸ hleads) h.full hrest
    (h.limit hopen happend)

/-- The last frame holds something where others are closed, so a limit says that something is
left. -/
theorem Inv.last_none {allowChunks : Bool} (h : Inv w response parts part response.items b)
    (hopen : w.size b.current ≤ maxLength) (hheld : parts = [] ∨ ∃ l, part l ≠ [])
    (happend : appendFrame w response.base b false = none) : Refused w response allowChunks := by
  by_cases hpart : ∃ l, part l ≠ []
  · obtain ⟨l, hl⟩ := hpart
    refine h.appendFrame_none hopen List.prefix_rfl ⟨l, fun heq => hl ?_⟩ happend
    rw [← h.done l] at heq
    exact (List.append_cancel_left ((List.append_nil _).trans heq)).symm
  · obtain rfl := hheld.resolve_right hpart
    have hsize : w.size (frame response 0 false part) ≤ maxLength := h.current ▸ hopen
    have hmax : maxLength ≤ maxBytes := by decide
    rcases h.limit hopen happend with hcount | hbytes
    · exact absurd hcount (Nat.not_le.mpr (by rw [List.length_nil]; decide))
    · have hnone : ((LoginSnapshot.frames response ([] : List (Part J))).map w.size).sum = 0 := rfl
      rw [hnone, Nat.zero_add, List.length_nil] at hbytes
      omega

/-- What a closed frame leaves. -/
theorem Inv.appendFrame_some {more : Bool} (h : Inv w response parts part done b)
    (happend : appendFrame w response.base b more = some b') :
    parts.length < maxChunks ∧
      b'.frames = b.frames ++ [frame response parts.length more part] ∧
      b'.current = frame response (parts.length + 1) false (fun _ => []) ∧
      b'.totalBytes = (b'.frames.map w.size).sum ∧ (∀ f ∈ b'.frames, w.size f ≤ maxLength) ∧
      b'.totalBytes ≤ maxBytes := by
  have hbody : ({ b.current with loginChunkMore := some more } : Reply φ J) =
      frame response parts.length more part := by
    rw [h.current]
    rfl
  unfold appendFrame at happend
  rw [hbody] at happend
  dsimp only at happend
  split at happend
  · cases happend
  · rename_i hlimit
    obtain rfl := Option.some_inj.mp happend
    rw [h.length] at hlimit
    obtain ⟨hcount, hlength, hbytes⟩ : parts.length < maxChunks ∧
        w.size (frame response parts.length more part) ≤ maxLength ∧
        b.totalBytes + w.size (frame response parts.length more part) ≤ maxBytes := by omega
    refine ⟨hcount, rfl, ?_, ?_, fun f hf => ?_, hbytes⟩
    · rw [h.length]
      rfl
    · rw [List.map_append, List.sum_append, ← h.total]
      rfl
    · rcases List.mem_append.mp hf with hf | hf
      · exact h.fits f hf
      · rw [List.mem_singleton.mp hf]
        exact hlength

theorem Inv.close (h : Inv w response parts part done b) (hpart : ∃ l, part l ≠ [])
    (hnext : elements done ++ [(l, item)] <+: elements response.items)
    (hlong : maxLength < w.size (b.current.append l item))
    (happend : appendFrame w response.base b true = some b') :
    Inv w response (parts ++ [part]) (fun _ => []) done b' := by
  obtain ⟨hcount, hframes, hcurrent, htotal, hfits, hbytes⟩ := h.appendFrame_some happend
  have hdone : (fun l' => (parts ++ [part]).flatMap (· l')) = done := by
    funext l'
    rw [List.flatMap_append, List.flatMap_singleton]
    exact h.done l'
  refine ⟨?_, ?_, htotal, ?_, hfits, hbytes, fun l => ?_, h.full.concat hpart ⟨l, item, ?_, ?_⟩⟩
  · rw [hframes, h.frames, frames_append]
  · rw [hcurrent, List.length_append, List.length_singleton]
  · rw [List.length_append, List.length_singleton]
    exact hcount
  · rw [List.append_nil]
    exact congrFun hdone l
  · rw [hdone]
    exact hnext
  · rw [← h.current]
    exact hlong

theorem Inv.add (h : Inv w response parts part done b) :
    Inv w response parts (Function.update part l (part l ++ [item]))
      (Function.update done l (done l ++ [item]))
      { b with current := b.current.append l item } := by
  refine ⟨h.frames, ?_, h.total, h.count, h.fits, h.bytes, fun l' => ?_, h.full⟩
  · dsimp only
    rw [h.current, frame_append]
  · by_cases hl : l' = l
    · subst hl
      rw [Function.update_self, Function.update_self, ← List.append_assoc, h.done]
    · rw [Function.update_of_ne hl, Function.update_of_ne hl]
      exact h.done l'

theorem Inv.addItem (allowChunks : Bool) (h : Inv w response parts part done b)
    (hopen : w.size b.current ≤ maxLength)
    (hnext : elements done ++ [(l, item)] <+: elements response.items) :
    (addItem w response.base b l item = none ∧ Refused w response allowChunks) ∨
      ∃ b' parts' part', addItem w response.base b l item = some b' ∧
        Inv w response parts' part' (Function.update done l (done l ++ [item])) b' ∧
        w.size b'.current ≤ maxLength ∧ ∃ l, part' l ≠ [] := by
  have hdone : elements done <+: elements response.items := (List.prefix_append _ _).trans hnext
  -- the item is left, whatever the frames so far hold
  have hrest (parts : List (Part J)) (part : Part J)
      (hparts : ∀ l, parts.flatMap (· l) ++ part l = done l) :
      ∃ l, parts.flatMap (· l) ≠ response.items l := by
    by_contra hall
    rw [not_exists] at hall
    have hle := hnext.length_le
    rw [List.length_append, List.length_singleton, length_elements, length_elements, ← hparts,
      ← hparts, List.length_append, List.length_append, not_not.mp (hall .applyList),
      not_not.mp (hall .friendList)] at hle
    omega
  have hheld (part : Part J) : ∃ l', Function.update part l (part l ++ [item]) l' ≠ [] :=
    ⟨l, by simp⟩
  -- a frame without elements does not take the item
  have halone : ∀ parts (b : Build φ J), Inv w response parts (fun _ => []) done b →
      maxLength < w.size (b.current.append l item) → Refused w response allowChunks := by
    intro parts b hb hlong
    rcases Nat.lt_or_ge parts.length maxChunks with hlt | hge
    · have hheldAll : (fun l => parts.flatMap (· l)) = done :=
        funext fun l => (List.append_nil _).symm.trans (hb.done l)
      rw [hb.current] at hlong
      exact .element parts l item hlt (hb.frames ▸ hb.fits) (hheldAll ▸ hnext) hb.full hlong
    · exact .limit parts (fun _ => []) true (hb.frames ▸ hb.fits) (funext hb.done ▸ hdone) hb.full
        (hrest parts (fun _ => []) hb.done) (.inl hge)
  unfold LoginSnapshot.addItem
  split
  · exact .inr ⟨_, parts, _, rfl, h.add, ‹_›, hheld part⟩
  · rename_i hlong
    split
    · rename_i hempty
      refine .inl ⟨rfl, halone parts b ?_ (not_le.mp hlong)⟩
      have hpart : part = fun _ => [] := by
        rw [h.current, frame_items] at hempty
        funext l
        cases l with
        | applyList => exact hempty.1
        | friendList => exact hempty.2
      exact hpart ▸ h
    · rename_i hempty
      split
      · exact .inl ⟨rfl, h.appendFrame_none hopen hdone (hrest parts part h.done) ‹_›⟩
      · rename_i b' hclose
        have hpart : ∃ l, part l ≠ [] := by
          rw [h.current, frame_items, not_and_or] at hempty
          exact hempty.elim (⟨_, ·⟩) (⟨_, ·⟩)
        have hb' := h.close hpart hnext (not_le.mp hlong) hclose
        split
        · exact .inr ⟨_, _, _, rfl, hb'.add, ‹_›, hheld _⟩
        · exact .inl ⟨rfl, halone _ b' hb' (not_le.mp ‹_›)⟩

theorem Inv.addItems (allowChunks : Bool) (rest : List J)
    (h : Inv w response parts part done b) (hopen : w.size b.current ≤ maxLength)
    (hheld : parts = [] ∨ ∃ l, part l ≠ [])
    (hlast : l = .applyList → done .friendList = [])
    (hleads : elements done ++ rest.map (l, ·) <+: elements response.items) :
    (addItems w response.base l b rest = none ∧ Refused w response allowChunks) ∨
      ∃ b' parts' part', addItems w response.base l b rest = some b' ∧
        Inv w response parts' part' (Function.update done l (done l ++ rest)) b' ∧
        w.size b'.current ≤ maxLength ∧ (parts' = [] ∨ ∃ l, part' l ≠ []) := by
  induction rest generalizing parts part done b with
  | nil =>
    rw [List.append_nil, Function.update_eq_self]
    exact .inr ⟨b, parts, part, rfl, h, hopen, hheld⟩
  | cons item rest ih =>
    rw [List.map_cons, List.append_cons] at hleads
    rw [LoginSnapshot.addItems]
    rcases h.addItem allowChunks hopen ((List.prefix_append _ _).trans hleads) with
      ⟨hnone, hrefused⟩ | ⟨b', parts', part', hsome, hb', hopen', hheld'⟩
    · exact .inl ⟨by rw [hnone, Option.bind_none], hrefused⟩
    · rw [hsome, Option.bind_some]
      have hdone : ∀ x, Function.update (Function.update done l (done l ++ [item])) l
          (Function.update done l (done l ++ [item]) l ++ x) =
          Function.update done l (done l ++ item :: x) := by
        intro x
        rw [Function.update_self, Function.update_idem, List.append_assoc, List.singleton_append]
      have := ih hb' hopen' (.inr hheld') (fun hl => by subst hl; exact hlast rfl)
        (by rwa [elements_add hlast])
      rwa [hdone] at this

/-- A snapshot of several frames for a reply. -/
structure Snapshot (w : Styled φ J) (response : Reply φ J) (fs : List (Reply φ J)) : Prop where
  nonempty : fs ≠ []
  count : fs.length ≤ maxChunks
  fits : ∀ f ∈ fs, w.size f ≤ maxLength
  bytes : (fs.map w.size).sum ≤ maxBytes
  numbered : ∀ i (f : Reply φ J), fs[i]? = some f → f.loginChunk = some i
  more : ∀ i (f : Reply φ J), fs[i]? = some f → f.loginChunkMore = some (decide (i + 1 < fs.length))
  fields : ∀ f ∈ fs, f.fields = response.fields
  lists : ∀ l, fs.flatMap (·.items l) = response.items l

theorem frames_getElem? {i : ℕ} {f : Reply φ J} (h : (frames response parts)[i]? = some f) :
    ∃ part, parts[i]? = some part ∧ f = frame response i true part := by
  rw [frames, List.getElem?_mapIdx, Option.map_eq_some_iff] at h
  obtain ⟨part, hpart, rfl⟩ := h
  exact ⟨part, hpart, rfl⟩

theorem frames_flatMap : (frames response parts).flatMap (·.items l) = parts.flatMap (· l) := by
  induction parts using List.reverseRecOn with
  | nil => rfl
  | append_singleton parts part ih =>
    rw [frames_append, List.flatMap_append, List.flatMap_append, ih, List.flatMap_singleton,
      List.flatMap_singleton, frame_items]

/-- The last frame completes a snapshot. -/
theorem Inv.finish (h : Inv w response parts part response.items b)
    (happend : appendFrame w response.base b false = some b') :
    Snapshot w response b'.frames := by
  obtain ⟨hcount, hframes, -, htotal, hfits, hbytes⟩ := h.appendFrame_some happend
  have hlength : b'.frames.length = parts.length + 1 := by
    rw [hframes, List.length_append, h.length, List.length_singleton]
  have hget : ∀ i f, b'.frames[i]? = some f →
      ∃ part, f = frame response i (decide (i + 1 < b'.frames.length)) part := by
    intro i f hf
    have hi := (List.getElem?_eq_some_iff.mp hf).1
    rw [hlength] at hi ⊢
    rw [hframes] at hf
    rcases Nat.lt_or_ge i parts.length with hlt | hge
    · rw [List.getElem?_append_left (by rwa [h.length]), h.frames] at hf
      obtain ⟨p, -, rfl⟩ := frames_getElem? hf
      exact ⟨p, by rw [decide_eq_true (Nat.succ_lt_succ hlt)]⟩
    · obtain rfl : i = parts.length := by omega
      rw [← h.length, List.getElem?_concat_length] at hf
      refine ⟨part, ?_⟩
      rw [← Option.some_inj.mp hf, h.length, decide_eq_false (Nat.lt_irrefl _)]
  refine ⟨?_, ?_, hfits, htotal ▸ hbytes, fun i f hf => ?_, fun i f hf => ?_, fun f hf => ?_,
    fun l => ?_⟩
  · rw [hframes]
    exact List.append_ne_nil_of_right_ne_nil _ (List.cons_ne_nil _ _)
  · rw [hlength]
    exact hcount
  · obtain ⟨p, rfl⟩ := hget i f hf
    rfl
  · obtain ⟨p, hp⟩ := hget i f hf
    rw [hp]
    rfl
  · obtain ⟨i, hi⟩ := List.mem_iff_getElem?.mp hf
    obtain ⟨p, rfl⟩ := hget i f hi
    rfl
  · rw [hframes, List.flatMap_append, h.frames, frames_flatMap, List.flatMap_singleton,
      frame_items]
    exact h.done l

/-- A reply that fits is its only frame. Another is split into a snapshot, or there is a reason
why not and no frame. -/
theorem buildFrames_spec (w : Styled φ J) (response : Reply φ J) (allowChunks : Bool) :
    (w.size response ≤ maxLength → buildFrames w response allowChunks = (true, [response])) ∧
    (maxLength < w.size response →
      (allowChunks = true ∧ (buildFrames w response allowChunks).1 = true ∧
        Snapshot w response (buildFrames w response allowChunks).2) ∨
      (buildFrames w response allowChunks = (false, []) ∧ Refused w response allowChunks)) := by
  refine ⟨fun hfits => by rw [buildFrames, if_pos hfits], fun hlong => ?_⟩
  rw [buildFrames, if_neg (not_le.mpr hlong)]
  split
  · rename_i hrefused
    exact .inr ⟨rfl, hrefused.elim .notAllowed .reply⟩
  · rename_i hallowed
    rw [not_or, not_lt, Bool.not_eq_false] at hallowed
    split
    · exact .inr ⟨rfl, .fields ‹_›⟩
    · rename_i hbase
      have hstart : Inv w response [] (fun _ => []) (fun _ => []) ⟨[], 0, response.base⟩ :=
        ⟨rfl, base_eq, rfl, Nat.zero_le _, nofun, Nat.zero_le _, fun _ => rfl, nofun⟩
      have hall : Function.update (Function.update (fun _ => []) ListName.applyList
          ([] ++ response.items .applyList)) ListName.friendList
          ([] ++ response.items .friendList) = response.items := by
        funext l
        cases l <;> rfl
      rcases hstart.addItems allowChunks (response.items .applyList) (not_lt.mp hbase) (.inl rfl)
        (fun _ => rfl) (List.prefix_append _ _) with
        ⟨hnone, hrefused⟩ | ⟨b, parts, part, hsome, hb, hopen, hheld⟩
      · rw [hnone]
        exact .inr ⟨rfl, hrefused⟩
      · rw [hsome, Option.bind_some]
        have hfriends : elements (Function.update (fun _ => []) ListName.applyList
            ([] ++ response.items .applyList)) ++ (response.items .friendList).map
              (ListName.friendList, ·) = elements response.items := by
          simp [elements]
        rcases hb.addItems (l := .friendList) allowChunks (response.items .friendList) hopen hheld
          nofun (hfriends ▸ List.prefix_rfl) with
          ⟨hnone, hrefused⟩ | ⟨b', parts', part', hsome', hb', hopen', hheld'⟩
        · rw [hnone]
          exact .inr ⟨rfl, hrefused⟩
        · rw [hsome', Option.bind_some]
          have hb'' : Inv w response parts' part' response.items b' := hall ▸ hb'
          cases happend : appendFrame w response.base b' false with
          | none =>
            exact .inr ⟨rfl, hb''.last_none hopen' hheld' happend⟩
          | some b'' => exact .inl ⟨hallowed.1, rfl, hb''.finish happend⟩

/-! ## A reply that is split -/

def sampleFriend (desc : String) : Object := [("desc", .text desc)]

def sampleReply (desc : String) : Reply Object Object where
  fields := [("error", .number 0)]
  list
    | .applyList => some []
    | .friendList => some [sampleFriend desc, sampleFriend desc]
  loginChunk := none
  loginChunkMore := none

theorem sampleFriend_size (desc : String) :
    objectSize jsoncpp (sampleFriend desc) = 18 + quotedSize desc := by
  have hkey : jsoncpp.quoted "desc" = 6 := by decide
  rw [objectSize, sampleFriend, membersSize_cons, membersSize_nil, hkey, Scalar.size]
  change 4 + (8 + 6 + quotedSize desc + 0) = _
  omega

def sampleFriends (desc : String) (n : ℕ) : Part Object
  | .applyList => []
  | .friendList => List.replicate n (sampleFriend desc)

/-- A frame of some of the friends. -/
def sampleFrame (desc : String) (i : ℕ) (more : Bool) (n : ℕ) : Reply Object Object :=
  frame (sampleReply desc) i more (sampleFriends desc n)

theorem sampleFrame_base (desc : String) :
    (sampleReply desc).base = sampleFrame desc 0 false 0 := by
  rw [base_eq, sampleFrame]
  congr 1
  funext l
  cases l <;> rfl

theorem sampleFrame_append (desc : String) (i : ℕ) (more : Bool) (n : ℕ) :
    (sampleFrame desc i more n).append .friendList (sampleFriend desc) =
      sampleFrame desc i more (n + 1) := by
  rw [sampleFrame, frame_append, sampleFrame]
  congr 1
  funext l
  cases l with
  | applyList => rfl
  | friendList => exact (List.replicate_succ').symm

/-- A friend takes 9024 bytes. -/
theorem sampleFrame_size {desc : String} (h : quotedSize desc = 9002) :
    (Writer.styled jsoncpp).size (sampleReply desc) = 18109 ∧
    ∀ i ≤ 1, ∀ more n, (Writer.styled jsoncpp).size (sampleFrame desc i more n) =
      100 + (if more then 4 else 5) + if n = 0 then 2 else 5 + n * 9024 := by
  have hfriend := sampleFriend_size desc
  rw [h] at hfriend
  have hkeys : jsoncpp.quoted "error" = 7 ∧ jsoncpp.quoted "apply_list" = 12 ∧
      jsoncpp.quoted "friend_list" = 13 ∧ jsoncpp.quoted "login_chunk" = 13 ∧
      jsoncpp.quoted "login_chunk_more" = 18 := by decide
  have hlayout : jsoncpp.document = 3 ∧ jsoncpp.member = 6 ∧ jsoncpp.emptyArray = 2 ∧
      jsoncpp.array = 5 ∧ jsoncpp.element = 4 := ⟨rfl, rfl, rfl, rfl, rfl⟩
  have hzero : jsoncpp.number 0 = 1 := by decide
  constructor
  · have hmembers : (sampleReply desc).toDocument.members = [("error", .number 0)] := rfl
    have hlists : (sampleReply desc).toDocument.arrays =
        [("apply_list", []), ("friend_list", [sampleFriend desc, sampleFriend desc])] := rfl
    rw [Writer.styled]
    dsimp only
    rw [Document.size, hmembers, hlists]
    simp [Scalar.size, arraySize, hfriend, hzero, hkeys, hlayout]
  · intro i hi more n
    have hnumber : jsoncpp.number i = 1 := by
      revert i
      decide
    have hmembers : (sampleFrame desc i more n).toDocument.members = [("error", .number 0),
        ("login_chunk", .number i), ("login_chunk_more", .bool more)] := rfl
    have hlists : (sampleFrame desc i more n).toDocument.arrays =
        [("apply_list", []), ("friend_list", List.replicate n (sampleFriend desc))] := rfl
    rw [Writer.styled]
    dsimp only
    rw [Document.size, hmembers, hlists]
    simp only [membersSize_cons, membersSize_nil, Scalar.size, List.map_cons, List.map_nil,
      List.sum_cons, List.sum_nil, arraySize, List.map_replicate, List.sum_replicate_nat, hfriend,
      hzero, hnumber, hkeys, hlayout, List.replicate_eq_nil_iff, if_true, Nat.reduceAdd]
    omega

/-- A friend fits a frame, and two do not. -/
theorem sampleFrame_fits {desc : String} (h : quotedSize desc = 9002) :
    (∀ i ≤ 1, ∀ more, (Writer.styled jsoncpp).size (sampleFrame desc i more 1) ≤ 9134) ∧
    maxLength < (Writer.styled jsoncpp).size (sampleFrame desc 0 false 2) := by
  obtain ⟨-, hframe⟩ := sampleFrame_size h
  constructor
  · intro i hi more
    rw [hframe i hi]
    cases more <;> decide
  · rw [hframe 0 (by omega)]
    decide

theorem sampleFrame_close {desc : String} (h : quotedSize desc = 9002) {i : ℕ} (hi : i ≤ 1)
    (more : Bool) {frames : List (Reply Object Object)} {total : ℕ} (hcount : frames.length ≤ 1)
    (htotal : total ≤ 9134) :
    appendFrame (Writer.styled jsoncpp) (sampleFrame desc 0 false 0)
        ⟨frames, total, sampleFrame desc i false 1⟩ more =
      some ⟨frames ++ [sampleFrame desc i more 1],
        total + (Writer.styled jsoncpp).size (sampleFrame desc i more 1),
        sampleFrame desc (frames.length + 1) false 0⟩ := by
  have hsize := (sampleFrame_fits h).1 i hi more
  have hmax : maxLength = 16384 ∧ maxChunks = 256 ∧ maxBytes = 4194304 := ⟨rfl, rfl, rfl⟩
  exact if_neg (show ¬ (maxChunks ≤ frames.length ∨
    maxLength < (Writer.styled jsoncpp).size (sampleFrame desc i more 1) ∨
    maxBytes < total + (Writer.styled jsoncpp).size (sampleFrame desc i more 1)) by omega)

/-- The first friend fits the open frame. -/
theorem sampleReply_first {desc : String} (h : quotedSize desc = 9002) :
    addItem (Writer.styled jsoncpp) (sampleFrame desc 0 false 0)
        ⟨[], 0, sampleFrame desc 0 false 0⟩ .friendList (sampleFriend desc) =
      some ⟨[], 0, sampleFrame desc 0 false 1⟩ := by
  have hfits := ((sampleFrame_fits h).1 0 (by omega) false).trans (by decide : 9134 ≤ maxLength)
  rw [addItem, sampleFrame_append, if_pos hfits]

/-- The second friend needs a frame of its own. -/
theorem sampleReply_second {desc : String} (h : quotedSize desc = 9002) :
    addItem (Writer.styled jsoncpp) (sampleFrame desc 0 false 0)
        ⟨[], 0, sampleFrame desc 0 false 1⟩ .friendList (sampleFriend desc) =
      some ⟨[sampleFrame desc 0 true 1],
        0 + (Writer.styled jsoncpp).size (sampleFrame desc 0 true 1),
        sampleFrame desc 1 false 1⟩ := by
  have hfits := ((sampleFrame_fits h).1 1 le_rfl false).trans (by decide : 9134 ≤ maxLength)
  have hheld : ¬ ((sampleFrame desc 0 false 1).items .applyList = [] ∧
      (sampleFrame desc 0 false 1).items .friendList = []) := fun h => nomatch h.2
  rw [addItem, sampleFrame_append, if_neg (not_le.mpr (sampleFrame_fits h).2), if_neg hheld,
    sampleFrame_close h (by omega) true (by simp) (by omega)]
  dsimp only
  rw [sampleFrame_append, List.length_nil, if_pos hfits, List.nil_append]

theorem sampleReply_split {desc : String} (h : quotedSize desc = 9002) :
    maxLength < (Writer.styled jsoncpp).size (sampleReply desc) ∧
    buildFrames (Writer.styled jsoncpp) (sampleReply desc) true =
      (true, [sampleFrame desc 0 true 1, sampleFrame desc 1 false 1]) := by
  obtain ⟨hreply, hframe⟩ := sampleFrame_size h
  have hlong : maxLength < (Writer.styled jsoncpp).size (sampleReply desc) := by
    rw [hreply]
    decide
  have hbase : ¬ maxLength < (Writer.styled jsoncpp).size (sampleFrame desc 0 false 0) := by
    rw [hframe 0 (by omega)]
    decide
  have hfirst := (sampleFrame_fits h).1 0 (by omega) true
  have hfriends : (sampleReply desc).items .friendList =
      [sampleFriend desc, sampleFriend desc] := rfl
  have hnone : (sampleReply desc).items .applyList = [] := rfl
  refine ⟨hlong, ?_⟩
  rw [buildFrames, if_neg (not_le.mpr hlong), if_neg (by rw [hreply]; decide), sampleFrame_base,
    if_neg hbase, hnone, hfriends, addItems, Option.bind_some, addItems, sampleReply_first h,
    Option.bind_some, addItems, sampleReply_second h, Option.bind_some, addItems, Option.bind_some,
    sampleFrame_close h le_rfl false le_rfl (by omega)]
  rfl

def longDesc : String := String.ofList (List.replicate 9000 'a')

theorem longDesc_size : quotedSize longDesc = 9002 := by
  have hsize : quotedSize longDesc = 9000 * escaped 'a' + 2 := quotedSize_replicate 9000 'a'
  have hchar : escaped 'a' = 1 := by decide
  rw [hsize, hchar]

theorem buildFrames_split :
    maxLength < (Writer.styled jsoncpp).size (sampleReply longDesc) ∧
    (buildFrames (Writer.styled jsoncpp) (sampleReply longDesc) true).2.length = 2 ∧
    Snapshot (Writer.styled jsoncpp) (sampleReply longDesc)
      (buildFrames (Writer.styled jsoncpp) (sampleReply longDesc) true).2 := by
  obtain ⟨hlong, hbuilt⟩ := sampleReply_split longDesc_size
  refine ⟨hlong, by rw [hbuilt]; rfl, ?_⟩
  rcases (buildFrames_spec (Writer.styled jsoncpp) (sampleReply longDesc) true).2 hlong with
    ⟨-, -, hsnapshot⟩ | ⟨hfailed, -⟩
  · exact hsnapshot
  · rw [hfailed] at hbuilt
    cases hbuilt

end CppChat.Wire.LoginSnapshot
