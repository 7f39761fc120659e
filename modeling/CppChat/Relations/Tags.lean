import Mathlib.Data.List.DropRight
import Mathlib.Data.List.Nodup
import CppChat.Foundation.JsonText

/-! # The tags of a contact

The owner of a friendship row puts tags on it. They are normalised, stored as a JSON list and
normalised again when they are read. Strings are bytes; what JsonCpp takes a malformed string for
is given.
-/
namespace CppChat.Relations.Tags
open Foundation

abbrev Bytes := List UInt8

/-- An element of the offered list. -/
inductive Item
  | string (text : Bytes)
  | other
  deriving DecidableEq

inductive Input
  | array (items : List Item)
  | other
  deriving DecidableEq

/-- `" \t\r\n"`. -/
def IsBlank (b : UInt8) : Prop := b ∈ [0x20, 0x09, 0x0D, 0x0A]

instance : DecidablePred IsBlank := fun b => inferInstanceAs (Decidable (b ∈ _))

/-- From the first to the last byte that is no blank. -/
def trim (text : Bytes) : Bytes :=
  (text.dropWhile fun b => IsBlank b).rdropWhile fun b => IsBlank b

/-- The loop over the elements, with the tags it has kept. -/
def normalizeItems : List Item → List Bytes → Bool × List Bytes
  | [], tags => (true, tags)
  | .other :: _, tags => (false, tags)
  | .string text :: rest, tags =>
    let text := trim text
    if text = [] then (false, tags)
    else if 128 < text.length then (false, tags)
    else if text.any (· < 32) then (false, tags)
    else normalizeItems rest (if text ∈ tags then tags else tags ++ [text])

/-- The tags are written whether or not the list is accepted. -/
def normalizeContactTags : Input → Bool × List Bytes
  | .other => (false, [])
  | .array items => if 12 < items.length then (false, []) else normalizeItems items []

/-- The writer and the reader of JsonCpp. The writer escapes what it makes of a string: the
characters of a well-formed one, and replacements for malformed sequences. -/
structure JsonCpp where
  decode : Bytes → List Char
  writeString : List Bytes → Bytes
  parse : Bytes → Option Input
  decode_utf8 : ∀ cs, decode (utf8 cs) = cs
  parse_writeString : ∀ tags,
    parse (writeString tags) = some (.array (tags.map fun tag => .string (utf8 (decode tag))))

variable (json : JsonCpp)

def serializeContactTags (tags : List Bytes) : Bytes := json.writeString tags

def parseContactTags (text : Bytes) : List Bytes :=
  match json.parse text with
  | some input => (normalizeContactTags input).2
  | none => []

/-! ## What is accepted -/

/-- The limits of one tag. -/
structure IsTag (tag : Bytes) : Prop where
  nonempty : tag ≠ []
  size : tag.length ≤ 128
  printable : ∀ b ∈ tag, 32 ≤ b
  trimmed : trim tag = tag

variable {json} {items : List Item} {input : Input} {tags kept : List Bytes} {text : Bytes}

theorem trim_trim (text : Bytes) : trim (trim text) = trim text := by
  have hfront : (trim text).dropWhile (fun b => IsBlank b) = trim text := by
    rw [List.dropWhile_eq_self_iff]
    intro hlength
    have hsource : 0 < (text.dropWhile fun b => IsBlank b).length :=
      Nat.lt_of_lt_of_le hlength (List.rdropWhile_prefix _ _).length_le
    have hhead := List.dropWhile_get_zero_not _ text hsource
    rwa [List.get_eq_getElem, ← (List.rdropWhile_prefix _ _).getElem hlength] at hhead
  rw [trim, hfront, trim, List.rdropWhile_idempotent]

/-- Blanks are characters of one byte. -/
theorem isUtf8_trim (h : IsUtf8 text) : IsUtf8 (trim text) := by
  have hblank : ∀ b, IsBlank b → b.toNat < 0x80 := by
    simp only [IsBlank, List.mem_cons, List.not_mem_nil, or_false]
    rintro b (rfl | rfl | rfl | rfl) <;> decide
  have hfront : IsUtf8 (text.dropWhile fun b => IsBlank b) := by
    induction text with
    | nil => exact h
    | cons b text ih =>
      rw [List.dropWhile_cons]
      split
      next hb => exact ih (h.of_cons (hblank b (of_decide_eq_true hb)))
      · exact h
  rw [trim]
  generalize (text.dropWhile fun b => IsBlank b) = rest at hfront ⊢
  induction rest using List.reverseRecOn with
  | nil => exact hfront
  | append_singleton rest b ih =>
    rw [List.rdropWhile_concat]
    split
    next hb => exact ih (hfront.of_snoc (hblank b (of_decide_eq_true hb)))
    · exact hfront

/-- What is kept are tags, all different, each from an element of the list. -/
structure Kept (items : List Item) (tags kept : List Bytes) : Prop where
  isTag : ∀ tag ∈ kept, IsTag tag
  nodup : kept.Nodup
  length : kept.length ≤ tags.length + items.length
  source : ∀ tag ∈ kept, tag ∈ tags ∨ ∃ text, Item.string text ∈ items ∧ tag = trim text

theorem Kept.stop (htags : ∀ tag ∈ tags, IsTag tag) (hnodup : tags.Nodup) (items : List Item) :
    Kept items tags tags :=
  ⟨htags, hnodup, Nat.le_add_right .., fun _ htag => .inl htag⟩

theorem normalizeItems_kept (items : List Item) {tags : List Bytes}
    (htags : ∀ tag ∈ tags, IsTag tag) (hnodup : tags.Nodup) :
    Kept items tags (normalizeItems items tags).2 := by
  induction items generalizing tags with
  | nil => exact .stop htags hnodup []
  | cons item rest ih =>
    cases item with
    | other => exact .stop htags hnodup _
    | string text =>
      rw [normalizeItems]
      split
      · exact .stop htags hnodup _
      split
      · exact .stop htags hnodup _
      split
      · exact .stop htags hnodup _
      next hempty hsize hcontrol =>
        have htag : IsTag (trim text) := by
          refine ⟨hempty, Nat.le_of_not_lt hsize, fun b hb => ?_, trim_trim text⟩
          by_contra hlt
          exact hcontrol (List.any_eq_true.mpr ⟨b, hb, by simpa using hlt⟩)
        have hnext : Kept [.string text] tags
            (if trim text ∈ tags then tags else tags ++ [trim text]) := by
          split
          · exact .stop htags hnodup _
          next hnew =>
            refine ⟨fun tag h => ?_, ?_, ?_, fun tag h => ?_⟩
            · rcases List.mem_append.mp h with h | h
              · exact htags tag h
              · exact List.mem_singleton.mp h ▸ htag
            · exact List.Nodup.append hnodup (List.nodup_singleton _)
                (List.disjoint_singleton.mpr hnew)
            · rw [List.length_append, List.length_singleton, List.length_singleton]
            · rcases List.mem_append.mp h with h | h
              · exact .inl h
              · exact .inr ⟨text, List.mem_singleton_self _, List.mem_singleton.mp h⟩
        have hkept := ih hnext.isTag hnext.nodup
        refine ⟨hkept.isTag, hkept.nodup, ?_, fun tag h => ?_⟩
        · have h1 := hnext.length
          have h2 := hkept.length
          rw [List.length_singleton] at h1
          rw [List.length_cons]
          omega
        · rcases hkept.source tag h with h | ⟨source, hsource, rfl⟩
          · rcases hnext.source tag h with h | ⟨source, hsource, rfl⟩
            · exact .inl h
            · obtain rfl := Item.string.inj (List.mem_singleton.mp hsource)
              exact .inr ⟨source, List.mem_cons_self, rfl⟩
          · exact .inr ⟨source, List.mem_cons_of_mem _ hsource, rfl⟩

/-- A list of tags is taken as it is. -/
theorem normalizeItems_tags (tags rest : List Bytes) (hrest : ∀ tag ∈ rest, IsTag tag)
    (hnodup : (tags ++ rest).Nodup) :
    normalizeItems (rest.map .string) tags = (true, tags ++ rest) := by
  induction rest generalizing tags with
  | nil => rw [List.append_nil]; rfl
  | cons tag rest ih =>
    obtain ⟨hempty, hsize, hprintable, htrim⟩ := hrest tag List.mem_cons_self
    have hnew : tag ∉ tags := by
      intro hmem
      exact (List.nodup_append.mp hnodup).2.2 tag hmem tag List.mem_cons_self rfl
    have hcontrol : ¬ tag.any (· < 32) := by
      intro hany
      obtain ⟨b, hb, hlt⟩ := List.any_eq_true.mp hany
      have := hprintable b hb
      exact absurd (of_decide_eq_true hlt) (UInt8.not_lt.mpr this)
    rw [List.map_cons, normalizeItems]
    simp only [htrim, if_neg hempty, if_neg (Nat.not_lt.mpr hsize), if_neg hcontrol, if_neg hnew]
    rw [ih (tags ++ [tag]) (fun t ht => hrest t (List.mem_cons_of_mem _ ht))
      (by rwa [List.append_assoc, List.singleton_append]), List.append_assoc,
      List.singleton_append]

/-- What the function leaves in `tags`, whether it accepts the list or not. -/
theorem normalizeContactTags_kept (items : List Item) :
    Kept items [] (normalizeContactTags (.array items)).2 ∧
      (normalizeContactTags (.array items)).2.length ≤ 12 := by
  have hkept : Kept items [] (normalizeItems items []).2 := normalizeItems_kept items nofun .nil
  rw [normalizeContactTags]
  split
  · exact ⟨⟨nofun, .nil, Nat.zero_le _, nofun⟩, Nat.zero_le _⟩
  · have := hkept.length
    rw [List.length_nil] at this
    exact ⟨hkept, by omega⟩

theorem normalizeContactTags_tags (hlength : tags.length ≤ 12) (htags : ∀ tag ∈ tags, IsTag tag)
    (hnodup : tags.Nodup) : normalizeContactTags (.array (tags.map .string)) = (true, tags) := by
  rw [normalizeContactTags, List.length_map, if_neg (Nat.not_lt.mpr hlength),
    normalizeItems_tags [] tags htags hnodup]
  rfl

/-! ## Stored and read again -/

theorem parse_serialize (json : JsonCpp) (tags : List Bytes) :
    parseContactTags json (serializeContactTags json tags) =
      (normalizeContactTags (.array (tags.map fun tag => .string (utf8 (json.decode tag))))).2 := by
  rw [parseContactTags, serializeContactTags, json.parse_writeString]

/-- Every tag that is read from the database is well-formed. -/
theorem isUtf8_of_parse (h : text ∈ parseContactTags json (serializeContactTags json tags)) :
    IsUtf8 text := by
  rw [parse_serialize] at h
  rcases (normalizeContactTags_kept _).1.source text h with h | ⟨source, hsource, rfl⟩
  · cases h
  · obtain ⟨tag, -, htag⟩ := List.mem_map.mp hsource
    obtain rfl := Item.string.inj htag
    exact isUtf8_trim isUtf8_utf8

/-- An accepted list is within the limits, without duplicates and fixed by the function, and it
is the same after it was stored and read exactly when its tags are well-formed UTF-8. -/
theorem tags_codec (json : JsonCpp) (input : Input) (tags : List Bytes)
    (h : normalizeContactTags input = (true, tags)) :
    tags.length ≤ 12 ∧ (∀ tag ∈ tags, IsTag tag) ∧ tags.Nodup ∧
    normalizeContactTags (.array (tags.map .string)) = (true, tags) ∧
    (parseContactTags json (serializeContactTags json tags) = tags ↔ ∀ tag ∈ tags, IsUtf8 tag) := by
  cases input with
  | other => cases h
  | array items =>
    obtain ⟨hkept, hlength⟩ := normalizeContactTags_kept items
    rw [h] at hkept hlength
    have hfixed := normalizeContactTags_tags hlength hkept.isTag hkept.nodup
    refine ⟨hlength, hkept.isTag, hkept.nodup, hfixed, fun hread tag htag => ?_, fun hutf8 => ?_⟩
    · rw [← hread] at htag
      exact isUtf8_of_parse htag
    · have hsame : tags.map (fun tag => Item.string (utf8 (json.decode tag))) =
          tags.map .string := by
        refine List.map_congr_left fun tag htag => ?_
        obtain ⟨cs, rfl⟩ := hutf8 tag htag
        rw [json.decode_utf8]
      rw [parse_serialize, hsame, hfixed]

/-! ## A tag that is no text -/

/-- A byte that starts no character is replaced by U+FFFD. -/
def decodeOrReplace (text : Bytes) : List Char :=
  match utf8Decode? text with
  | some cs => cs
  | none => text.map fun b => if b < 0x80 then .ofNat b.toNat else '\uFFFD'

theorem decodeOrReplace_utf8 (cs : List Char) : decodeOrReplace (utf8 cs) = cs := by
  rw [decodeOrReplace, utf8Decode?_utf8]

def readTags (text : Bytes) : Option Input :=
  (JsonText.readArray text).map fun items => .array (items.map .string)

theorem readTags_arrayText (tags : List Bytes) :
    readTags (JsonText.arrayText (tags.map decodeOrReplace)) =
      some (.array (tags.map fun tag => .string (utf8 (decodeOrReplace tag)))) := by
  rw [readTags, JsonText.readArray_arrayText, Option.map_some, List.map_map, List.map_map]
  rfl

def sampleJson : JsonCpp :=
  ⟨decodeOrReplace, fun tags => JsonText.arrayText (tags.map decodeOrReplace), readTags,
    decodeOrReplace_utf8, readTags_arrayText⟩

/-- The tags w, 家人, w and é, with blanks around some of them. -/
def offered : Input := .array
  [.string [0x20, 0x77], .string [0xE5, 0xAE, 0xB6, 0xE4, 0xBA, 0xBA, 0x09], .string [0x77],
    .string [0xC3, 0xA9]]

def keptTags : List Bytes := [[0x77], [0xE5, 0xAE, 0xB6, 0xE4, 0xBA, 0xBA], [0xC3, 0xA9]]

theorem tags_codec_sample : normalizeContactTags offered = (true, keptTags) ∧
    normalizeContactTags (.array (keptTags.map .string)) = (true, keptTags) ∧
    parseContactTags sampleJson (serializeContactTags sampleJson keptTags) = keptTags := by
  have hkept : normalizeContactTags offered = (true, keptTags) := by decide
  obtain ⟨-, -, -, hfixed, hread⟩ := tags_codec sampleJson offered keptTags hkept
  refine ⟨hkept, hfixed, hread.mpr fun tag htag => ?_⟩
  simp only [keptTags, List.mem_cons, List.not_mem_nil, or_false] at htag
  rcases htag with rfl | rfl | rfl
  · exact ⟨['w'], by decide⟩
  · exact ⟨['家', '人'], by decide⟩
  · exact ⟨['é'], by decide⟩

/-- One byte of no character is an accepted tag that is not read again. -/
theorem malformed_tag_changes : ¬ ∀ (json : JsonCpp) (input : Input) (tags : List Bytes),
    normalizeContactTags input = (true, tags) →
      parseContactTags json (serializeContactTags json tags) = tags := by
  intro h
  have hread := h sampleJson (.array [.string [0xFF]]) [[0xFF]] (by decide)
  have hmem : [0xFF] ∈ parseContactTags sampleJson (serializeContactTags sampleJson [[0xFF]]) := by
    rw [hread]
    exact List.mem_singleton_self _
  exact absurd (isUtf8_singleton.mp (isUtf8_of_parse hmem)) (by decide)

end CppChat.Relations.Tags
