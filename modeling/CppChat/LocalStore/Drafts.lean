import CppChat.LocalStore.Safety

/-! # Drafts

A draft is stored as one row for each element. Saving trims the rows behind the new length and
inserts or updates the others; an update that would change nothing is skipped. Loading gives
back the last draft, whatever was stored before it.
-/
namespace CppChat.LocalStore
open Foundation

namespace Database
variable {db db' : Database} {t : Int} {draft : List MsgInfo}

/-! ## Saving and loading -/

def draftRow (thread : Int) (ordinal : ℕ) (info : MsgInfo) : DraftRow :=
  ⟨thread, ordinal, info.msgFlag, info.content.getD "",
    if info.imageData = [] then none else some info.imageData⟩

end Database

/-- Qt compares a null string equal to an empty one. -/
def MsgInfo.loaded (info : MsgInfo) : MsgInfo :=
  { info with content := some (info.content.getD "") }

namespace Database
variable {db db' : Database} {t : Int} {draft : List MsgInfo}

/-- The rows of a thread are exactly those of a draft. -/
def Holds (db : Database) (t : Int) (draft : List MsgInfo) : Prop :=
  ∀ i, Keyed.lookup db.drafts (t, i) = draft[i]?.map (draftRow t i)

theorem Holds.congr (h : ∀ i, Keyed.lookup db'.drafts (t, i) = Keyed.lookup db.drafts (t, i))
    (hdb : db.Holds t draft) : db'.Holds t draft := fun i => (h i).trans (hdb i)

/-! ## Every other operation leaves the drafts alone -/

end Database

/-! ## Runs -/

/-- The draft a call leaves in a thread: the one it saved, none where it cleared it. -/
def Call.draft (db : Database) (c : Call) (t : Int) (last : List MsgInfo) : List MsgInfo :=
  if c.interrupted then last
  else match c.operation with
    | .saveDraft s draft => if t = s then draft else last
    | .saveMessages ms s cursor d =>
      match db.saveMessages ms s cursor d with
      | .ok _ => if 0 < d ∧ t = d then [] else last
      | .error _ => last
    | _ => last

end CppChat.LocalStore
