import Mathlib.Data.List.TakeWhile
import CppChat.Foundation.Utf16

/-! # Emoji in texts

An emoji is sent as its token. `InsertText` looks for tokens with a regular expression and hands
the characters between them and the images to a cursor; here a document is what a cursor got so
far. The expression finds nothing in a text with an unpaired surrogate.
-/
namespace CppChat.Texts
open Foundation.Utf16

def openBracket : UInt16 := 0x5B
def closeBracket : UInt16 := 0x5D

/-- `[^\[\]\r\n]`. -/
def IsInner (u : UInt16) : Prop := u ≠ openBracket ∧ u ≠ closeBracket ∧ u ≠ 0x0D ∧ u ≠ 0x0A

instance : DecidablePred IsInner := fun _ => inferInstanceAs (Decidable (_ ∧ _ ∧ _ ∧ _))

def maximumTokenLength : ℕ := 66

/-! ## The catalog -/

structure EmojiEntry where
  token : Text
  resource : String

/-- What the tokens of both catalogs look like. -/
def IsToken (token : Text) : Prop :=
  ∃ body, token = openBracket :: (body ++ [closeBracket]) ∧ body ≠ [] ∧
    body.length ≤ maximumTokenLength - 2 ∧
    ∀ u ∈ body, IsInner u ∧ ¬ IsHighSurrogate u ∧ ¬ IsLowSurrogate u

structure EmojiCatalog where
  entries : List EmojiEntry
  shape : ∀ emoji ∈ entries, IsToken emoji.token

namespace EmojiCatalog

variable (C : EmojiCatalog)

def findByToken (token : Text) : Option EmojiEntry :=
  C.entries.find? fun emoji => emoji.token = token

end EmojiCatalog

/-! ## Rendering -/

/-- The characters of a text whose surrogates are paired. -/
def characters (t : Text) : ℕ := (t.filter fun u => ¬ IsLowSurrogate u).length

/-- `\[[^\[\]\r\n]{1,64}\]` at the start of a text. -/
def matchAt : Text → Option Text
  | [] => none
  | c :: rest =>
    let body := rest.takeWhile IsInner
    if c = openBracket ∧ (rest.dropWhile IsInner).head? = some closeBracket ∧
        1 ≤ characters body ∧ characters body ≤ maximumTokenLength - 2 then
      some (openBracket :: (body ++ [closeBracket]))
    else none

/-- The matches from a position on, none of which overlaps another. -/
def matchesFrom : ℕ → ℕ → Text → List (ℕ × Text)
  | _, _, [] => []
  | position, skip + 1, _ :: rest => matchesFrom (position + 1) skip rest
  | position, 0, c :: rest =>
    match matchAt (c :: rest) with
    | none => matchesFrom (position + 1) 0 rest
    | some captured => (position, captured) :: matchesFrom (position + 1) (captured.length - 1) rest

/-- `QRegularExpression::globalMatch`, which fails on text that is not UTF-16. -/
def globalMatch (text : Text) : List (ℕ × Text) := if Paired text then matchesFrom 0 0 text else []

inductive Item
  | char (u : UInt16)
  | image (resource : String) (token : Text)
  deriving DecidableEq

abbrev Document := List Item

/-- The text that a document stands for. -/
def Document.plain (document : Document) : Text :=
  document.flatMap fun
    | .char u => [u]
    | .image _ token => token

section Insert
variable (C : EmojiCatalog) (isNull : String → Bool)

/-- `InsertEmoji`: an image that cannot be read is left as its token. -/
def insertEmoji (emoji : EmojiEntry) : Document :=
  if isNull emoji.resource then emoji.token.map .char else [.image emoji.resource emoji.token]

/-- The loop over the matches. -/
def insertMatches (text : Text) : Document → ℕ → List (ℕ × Text) → Document
  | document, position, [] => document ++ (text.drop position).map .char
  | document, position, (start, captured) :: rest =>
    match C.findByToken captured with
    | none => insertMatches text document position rest
    | some found =>
      insertMatches text
        (document ++ ((text.drop position).take (start - position)).map .char ++
          insertEmoji isNull found) (start + captured.length) rest

def insertText (document : Document) (text : Text) : Document :=
  insertMatches C isNull text document 0 (globalMatch text)

end Insert

/-! ## Tokens and matches -/

section Match
variable {t : Text} {token captured : Text} {c : UInt16}

theorem takeWhile_isInner {body rest : Text} (h : ∀ u ∈ body, IsInner u) :
    (body ++ closeBracket :: rest).takeWhile IsInner = body := by
  rw [List.takeWhile_append_of_pos (by simpa using h), List.takeWhile_cons_of_neg (by decide),
    List.append_nil]

/-- A match is a prefix, and no bracket opens in its rest. -/
theorem matchAt_some (h : matchAt t = some captured) :
    captured <+: t ∧ openBracket ∉ captured.tail ∧ captured ≠ [] := by
  cases t with
  | nil => cases h
  | cons c rest =>
    simp only [matchAt, Option.ite_none_right_eq_some, Option.some.injEq] at h
    obtain ⟨⟨rfl, hclose, -⟩, rfl⟩ := h
    refine ⟨?_, ?_, nofun⟩
    · obtain ⟨after, hafter⟩ := List.head?_eq_some_iff.mp hclose
      refine (List.prefix_cons_inj _).mpr ⟨after, ?_⟩
      rw [List.append_assoc, List.singleton_append, ← hafter]
      exact List.takeWhile_append_dropWhile
    · intro hmem
      rw [List.tail_cons, List.mem_append, List.mem_singleton] at hmem
      rcases hmem with hmem | heq
      · exact (by simpa using List.mem_takeWhile_imp hmem : IsInner openBracket).1 rfl
      · cases heq

/-- A token of the catalog matches where it stands. -/
theorem matchAt_token (htoken : IsToken token) (h : token <+: t) : matchAt t = some token := by
  obtain ⟨body, rfl, hne, hlength, hbody⟩ := htoken
  obtain ⟨rest, rfl⟩ := h
  have hinner := @takeWhile_isInner body rest fun u hu => (hbody u hu).1
  have hdrop : (body ++ closeBracket :: rest).dropWhile IsInner = closeBracket :: rest := by
    rw [List.dropWhile_append_of_pos (by simpa using fun u hu => (hbody u hu).1),
      List.dropWhile_cons_of_neg (by decide)]
  have hcharacters : characters body = body.length := by
    rw [characters, List.filter_eq_self.mpr]
    intro u hu
    simpa using (hbody u hu).2.2
  have hpos := List.length_pos_of_ne_nil hne
  simp only [List.cons_append, List.append_assoc, List.nil_append, matchAt, hinner, hdrop,
    List.head?_cons, hcharacters]
  rw [if_pos ⟨trivial, trivial, hpos, hlength⟩]

end Match

namespace EmojiCatalog

variable (C : EmojiCatalog) {t u v : Text} {token : Text} {emoji : EmojiEntry}

/-- The emoji whose token stands at the start of a text. -/
def tokenAt (t : Text) : Option EmojiEntry := (matchAt t).bind C.findByToken

theorem findByToken_some (h : C.findByToken token = some emoji) :
    emoji ∈ C.entries ∧ emoji.token = token :=
  ⟨List.mem_of_find?_eq_some h, by simpa using List.find?_some h⟩

theorem tokenAt_iff : C.tokenAt t = some emoji ↔
    C.findByToken emoji.token = some emoji ∧ emoji.token <+: t := by
  constructor
  · intro h
    obtain ⟨captured, hmatch, hfind⟩ := Option.bind_eq_some_iff.mp h
    obtain ⟨-, rfl⟩ := C.findByToken_some hfind
    exact ⟨hfind, (matchAt_some hmatch).1⟩
  · rintro ⟨hfind, hprefix⟩
    rw [tokenAt, matchAt_token (C.shape _ (C.findByToken_some hfind).1) hprefix]
    exact hfind

/-- The token of an emoji finds an emoji with it. -/
theorem exists_findByToken (h : emoji ∈ C.entries) :
    ∃ found, C.findByToken emoji.token = some found ∧ found.token = emoji.token := by
  cases hfind : C.findByToken emoji.token with
  | none => exact absurd (List.find?_eq_none.mp hfind emoji h) (by simp)
  | some found => exact ⟨found, rfl, (C.findByToken_some hfind).2⟩

/-! ## What a text renders to -/

variable (isNull : String → Bool)

/-- The items of a text behind its first `skip` units: every token is an emoji. -/
def rendered : ℕ → Text → Document
  | _, [] => []
  | skip + 1, _ :: rest => rendered skip rest
  | 0, c :: rest =>
    match C.tokenAt (c :: rest) with
    | none => .char c :: rendered 0 rest
    | some emoji => insertEmoji isNull emoji ++ rendered (emoji.token.length - 1) rest

/-- A cut inside a token. -/
def CutsToken (u v : Text) : Prop :=
  ∃ before start, u = before ++ start ∧ start ≠ [] ∧
    ∃ emoji ∈ C.entries, emoji.token <+: start ++ v ∧ start.length < emoji.token.length

theorem CutsToken.cons {c : UInt16} (h : C.CutsToken u v) : C.CutsToken (c :: u) v := by
  obtain ⟨before, start, rfl, hrest⟩ := h
  exact ⟨c :: before, start, rfl, hrest⟩

/-- A text that is not cut inside a token renders as its two parts. -/
theorem rendered_append {skip : ℕ} (hskip : skip ≤ u.length) (hcut : ¬ C.CutsToken u v) :
    C.rendered isNull skip (u ++ v) = C.rendered isNull skip u ++ C.rendered isNull 0 v := by
  induction u generalizing skip with
  | nil =>
    obtain rfl := Nat.le_zero.mp hskip
    rfl
  | cons c u ih =>
    have htail : ¬ C.CutsToken u v := fun h => hcut (h.cons C)
    cases skip with
    | succ skip => exact ih (Nat.le_of_succ_le_succ hskip) htail
    | zero =>
      have hsame : C.tokenAt (c :: u ++ v) = C.tokenAt (c :: u) := by
        ext emoji
        rw [C.tokenAt_iff, C.tokenAt_iff]
        refine and_congr_right fun hfind => ⟨fun hprefix => ?_, fun hprefix => ?_⟩
        · refine List.prefix_of_prefix_length_le hprefix (List.prefix_append _ _) ?_
          by_contra hlong
          exact hcut ⟨[], c :: u, rfl, nofun, emoji, (C.findByToken_some hfind).1, hprefix,
            not_le.mp hlong⟩
        · exact hprefix.trans (List.prefix_append _ _)
      rw [List.cons_append] at hsame ⊢
      simp only [rendered, hsame]
      cases htoken : C.tokenAt (c :: u) with
      | none =>
        dsimp only
        rw [ih (Nat.zero_le _) htail, List.cons_append]
      | some emoji =>
        have hlength := ((C.tokenAt_iff).mp htoken).2.length_le
        rw [List.length_cons] at hlength
        dsimp only
        rw [ih (by omega) htail, List.append_assoc]

theorem plain_char (t : Text) : Document.plain (t.map .char) = t := by
  induction t with
  | nil => rfl
  | cons u t ih => exact congrArg (u :: ·) ih

/-- With its tokens for the images, what is rendered is the text. -/
theorem rendered_plain (skip : ℕ) (t : Text) :
    (C.rendered isNull skip t).plain = t.drop skip := by
  induction t generalizing skip with
  | nil => cases skip <;> rfl
  | cons c t ih =>
    cases skip with
    | succ skip => exact ih skip
    | zero =>
      cases htoken : C.tokenAt (c :: t) with
      | none =>
        simp only [rendered, htoken]
        exact congrArg (c :: ·) (ih 0)
      | some emoji =>
        have hprefix := ((C.tokenAt_iff).mp htoken).2
        have hplain : (insertEmoji isNull emoji).plain = emoji.token := by
          unfold insertEmoji
          split
          · exact plain_char _
          · exact List.append_nil _
        simp only [rendered, htoken, List.drop_zero]
        rw [Document.plain, List.flatMap_append]
        change (insertEmoji isNull emoji).plain ++ Document.plain _ = _
        rw [hplain, ih]
        obtain ⟨rest, hrest⟩ := hprefix
        obtain ⟨hmem, -⟩ := C.findByToken_some ((C.tokenAt_iff).mp htoken).1
        obtain ⟨body, hbody, -⟩ := C.shape emoji hmem
        rw [hbody] at hrest ⊢
        obtain ⟨rfl, rfl⟩ := List.cons.inj hrest
        rw [List.length_cons, Nat.add_sub_cancel, List.append_eq, List.drop_left]
        rfl

/-! ## Rendering finds the tokens -/

/-- Nothing matches where no bracket opens. -/
theorem matchesFrom_inner {skip position : ℕ} (h : openBracket ∉ t.take skip) :
    matchesFrom position skip t = matchesFrom position 0 t := by
  induction t generalizing skip position with
  | nil => cases skip <;> rfl
  | cons c t ih =>
    cases skip with
    | zero => rfl
    | succ skip =>
      rw [List.take_succ_cons, List.mem_cons, not_or] at h
      have hnone : matchAt (c :: t) = none := if_neg fun hmatch => h.1 hmatch.1.symm
      simp only [matchesFrom, hnone]
      exact ih h.2

/-- The loop over the matches inserts what is rendered. -/
theorem insertMatches_eq {text : Text} {document : Document} {position start skip : ℕ}
    (hdrop : text.drop start = t) (hposition : position ≤ start + skip)
    (hskip : 0 < skip → position = start + skip) :
    insertMatches C isNull text document position (matchesFrom start skip t) =
      document ++ ((text.drop position).take (start + skip - position)).map .char ++
        C.rendered isNull skip t := by
  induction t generalizing document position start skip with
  | nil =>
    have hend : text.length ≤ start := List.drop_eq_nil_iff.mp hdrop
    have hall : (text.drop position).take (start + skip - position) = text.drop position := by
      rw [List.take_of_length_le]
      rw [List.length_drop]
      omega
    rw [hall]
    cases skip <;> simp only [matchesFrom, insertMatches, rendered, List.append_nil]
  | cons c t ih =>
    have hnext : text.drop (start + 1) = t := by
      rw [← List.drop_drop, hdrop, List.drop_one, List.tail_cons]
    -- one more unit is copied
    have hcopy : position ≤ start →
        ((text.drop position).take (start + 1 - position)).map Item.char =
          ((text.drop position).take (start - position)).map Item.char ++ [.char c] := by
      intro hle
      have hget : (text.drop position)[start - position]? = some c := by
        rw [List.getElem?_drop, Nat.add_sub_cancel' hle, ← List.head?_drop, hdrop, List.head?_cons]
      rw [Nat.sub_add_comm hle, List.take_add_one, hget, Option.toList_some, List.map_append,
        List.map_singleton]
    cases skip with
    | succ skip =>
      obtain rfl := hskip (Nat.succ_pos _)
      rw [matchesFrom, rendered, ih hnext (by omega) (by omega)]
      congr 4
      omega
    | zero =>
      have hnone : C.tokenAt (c :: t) = none →
          insertMatches C isNull text document position (matchesFrom (start + 1) 0 t) =
            document ++ ((text.drop position).take (start + 0 - position)).map .char ++
              C.rendered isNull 0 (c :: t) := by
        intro htoken
        rw [ih hnext (by omega) (by omega), Nat.add_zero, Nat.add_zero, hcopy hposition]
        simp only [rendered, htoken, List.append_assoc, List.singleton_append, Nat.add_zero]
      cases hmatch : matchAt (c :: t) with
      | none =>
        simp only [matchesFrom, hmatch]
        exact hnone (by rw [tokenAt, hmatch, Option.bind_none])
      | some captured =>
        obtain ⟨hpre, hinner, hne⟩ := matchAt_some hmatch
        have htoken : C.tokenAt (c :: t) = C.findByToken captured := by
          rw [tokenAt, hmatch, Option.bind_some]
        simp only [matchesFrom, hmatch, insertMatches]
        cases hfind : C.findByToken captured with
        | none =>
          have hskipped : openBracket ∉ t.take (captured.length - 1) := by
            obtain ⟨rest, hrest⟩ := hpre
            cases captured with
            | nil => exact absurd rfl hne
            | cons d captured =>
              obtain ⟨-, rfl⟩ := List.cons.inj hrest
              rw [List.length_cons, Nat.add_sub_cancel]
              simpa using hinner
          dsimp only
          rw [matchesFrom_inner hskipped]
          exact hnone (htoken.trans hfind)
        | some emoji =>
          obtain ⟨-, htext⟩ := C.findByToken_some hfind
          have hlength : start + captured.length = start + 1 + (captured.length - 1) := by
            have := List.length_pos_of_ne_nil hne
            omega
          dsimp only
          rw [ih hnext (le_of_eq hlength) fun _ => hlength, ← hlength, Nat.sub_self, List.take_zero,
            List.map_nil, List.append_nil]
          simp only [rendered, htoken.trans hfind, htext, Nat.add_zero, List.append_assoc]

/-- What `InsertText` inserts. -/
theorem insertText_eq (document : Document) (text : Text) : insertText C isNull document text =
    document ++ if Paired text then C.rendered isNull 0 text else text.map .char := by
  unfold insertText globalMatch
  by_cases h : Paired text
  · rw [if_pos h, if_pos h, C.insertMatches_eq isNull List.drop_zero (Nat.zero_le _)
      fun _ => rfl]
    simp
  · rw [if_neg h, if_neg h]
    simp [insertMatches]

end EmojiCatalog

end CppChat.Texts
