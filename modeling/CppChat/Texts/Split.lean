import CppChat.Texts.Emoji
import CppChat.Wire.Frames

/-! # Splitting long texts

`SplitText` goes through the characters and emoji tokens of a text and closes a part where the next
one would make it too large.
-/
namespace CppChat.Texts
open Foundation.Utf16

/-! ## Sizes -/

def escapedUnit (u : UInt16) : ℕ :=
  if u.toNat < 0x20 ∨ 0x7E < u.toNat then 6 else if u = 0x22 ∨ u = 0x5C then 2 else 1

def escapedJsonSize (t : Text) : ℕ := (t.map escapedUnit).sum

/-- A unit that is no half of a pair, as `QJsonDocument` writes it. -/
def compactUnit (u : UInt16) : ℕ :=
  if u ∈ [0x22, 0x5C, 0x08, 0x0C, 0x0A, 0x0D, 0x09] then 2
  else if u.toNat < 0x20 then 6
  else if u.toNat < 0x80 then 1
  else if u.toNat < 0x800 then 2
  else if IsHighSurrogate u ∨ IsLowSurrogate u then 6
  else 3

/-- The UTF-8 bytes between the quotes. -/
def compactText : Text → ℕ
  | [] => 0
  | [u] => compactUnit u
  | u :: v :: rest =>
    if IsHighSurrogate u ∧ IsLowSurrogate v then 4 + compactText rest
    else compactUnit u + compactText (v :: rest)

def compactString (t : Text) : ℕ := compactText t + 2

/-- `QJsonDocument::Compact`: the names of the members are ASCII. -/
def compactObject (members : List (String × ℕ)) : ℕ :=
  2 + (members.map fun m => m.1.length + 2 + 1 + m.2).sum + (members.length - 1)

def compactArray (items : List ℕ) : ℕ := 2 + items.sum + (items.length - 1)

/-- `QUuid::WithoutBraces`. -/
def Uuid : Type := { id : String // id.utf8ByteSize = 36 }

/-- Where a text goes: three `int`s. -/
structure ChatThreadData where
  sender : Int
  receiver : Int
  thread : Int
  sender_isInt : Wire.IsInt sender
  receiver_isInt : Wire.IsInt receiver
  thread_isInt : Wire.IsInt thread

/-- The size of `textPacket` for a text message. -/
def textPacket (t : Text) (uniqueId : Uuid) (data : ChatThreadData) : ℕ :=
  compactObject [("fromuid", Wire.numberSize data.sender), ("touid", Wire.numberSize data.receiver),
    ("thread_id", Wire.numberSize data.thread),
    ("text_array", compactArray [compactObject [("content", compactString t),
      ("unique_id", compactString (utf16 uniqueId.1)), ("msg_type", Wire.numberSize 0)]])]

/-! ## The loop -/

section Loop
variable (C : EmojiCatalog) (sampleId : Uuid) (data : ChatThreadData)

/-- The `symbol` at `text[i]`: a token, a pair or a unit. -/
def symbol (c : UInt16) (rest : Text) : Text :=
  if c = openBracket then
    match rest.findIdx? (· = closeBracket) with
    | none => [c]
    | some i =>
      if i + 1 < maximumTokenLength then
        if (C.findByToken (c :: rest.take (i + 1))).isSome then c :: rest.take (i + 1) else [c]
      else [c]
  else if IsHighSurrogate c then
    match rest with
    | [] => [c]
    | d :: _ => if IsLowSurrogate d then [c, d] else [c]
  else [c]

def TooLarge (candidate : Text) : Prop :=
  600 < escapedJsonSize candidate ∨ 1800 < textPacket candidate sampleId data

instance (candidate : Text) : Decidable (TooLarge sampleId data candidate) :=
  inferInstanceAs (Decidable (_ ∨ _))

/-- The loop over the units, `skip` of which belong to the last symbol. -/
def splitLoop (parts : List Text) (part : Text) : ℕ → Text → List Text
  | _, [] => if part ≠ [] then parts ++ [part] else parts
  | skip + 1, _ :: rest => splitLoop parts part skip rest
  | 0, c :: rest =>
    let symbol := symbol C c rest
    if part ≠ [] ∧ TooLarge sampleId data (part ++ symbol) then
      splitLoop (parts ++ [part]) symbol (symbol.length - 1) rest
    else splitLoop parts (part ++ symbol) (symbol.length - 1) rest

def splitText (text : Text) : List Text := splitLoop C sampleId data [] [] 0 text

end Loop

end CppChat.Texts
