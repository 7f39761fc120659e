import CppChat.Relations.Schema

/-! # Contacts

The transactions of `MysqlDaoContacts.cpp` and `CreatePrivateChat`.
-/
namespace CppChat.Relations
open Foundation RowLocks

/-- The two applications between the users, the one by the first user first. -/
def lockApplications (first second : ℤ) (next : Option Apply → Option Apply → Program) : Program :=
  .lock .update (.friendApply first second) fun forth =>
    .lock .update (.friendApply second first) fun back => next forth back

def lockFriends (first second : ℤ) (next : Option Friend → Option Friend → Program) : Program :=
  .lock .update (.friend first second) fun forth =>
    .lock .update (.friend second first) fun back => next forth back

def addFriendApply (fromUid toUid : ℤ) (description remark tags : String) : Program :=
  if fromUid ≤ 0 ∨ toUid ≤ 0 ∨ fromUid = toUid then .finish false (.applied false false)
  else
    let first := min fromUid toUid
    let second := max fromUid toUid
    lockApplications first second fun _ _ =>
      lockFriends first second fun forth back =>
        if forth.isSome ∧ back.isSome then .finish true (.applied true false)
        else
          .modify (.friendApply fromUid toUid)
            (fun _ => some (some ⟨description, remark, some tags, 0⟩))
            (.finish true (.applied true true))

/-- `INSERT INTO chat_message` and its id; an empty text stores nothing. -/
def addInitialMessage (thread : ℕ) (sender recv : ℤ) (content : String)
    (messages : List (ℕ × ChatMessage)) (next : List (ℕ × ChatMessage) → Program) : Program :=
  if content = "" then next messages
  else
    let message : ChatMessage := ⟨thread, sender, recv, content, 2⟩
    .fresh .chatMessage fun id =>
      .insert (.chatMessage id) message (next (messages ++ [(id, message)]))

/-- The thread of the two users, which is created when there is none. -/
def privateThread (first second : ℤ) (next : ℕ → Program) : Program :=
  .lock .update (.privateChat first second) fun
    | some thread => next thread
    | none =>
      .fresh .chatThread fun thread =>
        .insert (.chatThread thread) .privateChat
          (.insert (.privateChat first second) thread (next thread))

/-- Both applications that exist become accepted. -/
def acceptApplications (first second : ℤ) (forth back : Option Apply) (next : Program) : Program :=
  let accept (fromUid toUid : ℤ) (application : Option Apply) (next : Program) : Program :=
    if application.isSome then
      .update (.friendApply fromUid toUid) (fun a => { a with status := 1 }) next
    else next
  accept first second forth (accept second first back next)

def insertFriend (selfId friendId : ℤ) (present : Option Friend) (row : Friend) (next : Program) :
    Program :=
  if present.isSome then next else .insert (.friend selfId friendId) row next

def greeting : String := "We are friends now!"

def addFriend (fromUid toUid : ℤ) (remark tags : String) : Program :=
  if fromUid ≤ 0 ∨ toUid ≤ 0 ∨ fromUid = toUid then .finish false (.befriended false [])
  else
    let first := min fromUid toUid
    let second := max fromUid toUid
    lockApplications first second fun forth back =>
      lockFriends first second fun friends₁ friends₂ =>
        let incoming := if toUid = first then forth else back
        let both := friends₁.isSome ∧ friends₂.isSome
        if ¬ both ∧ incoming.isNone then .finish false (.befriended false [])
        else
          acceptApplications first second forth back <|
            if both then .finish true (.befriended true [])
            else
              let row (selfId : ℤ) : Friend :=
                if selfId = fromUid then ⟨remark, some tags⟩
                else ⟨(incoming.map Apply.backName).getD "",
                  some ((incoming.bind Apply.tags).getD "[]")⟩
              insertFriend first second friends₁ (row first) <|
                insertFriend second first friends₂ (row second) <|
                  privateThread first second fun thread =>
                    addInitialMessage thread toUid fromUid
                        ((incoming.map Apply.descs).getD "") [] fun messages =>
                      addInitialMessage thread fromUid toUid greeting messages fun messages =>
                        .finish true (.befriended true messages)

def deleteFriend (selfUid friendUid : ℤ) : Program :=
  if selfUid ≤ 0 ∨ friendUid ≤ 0 ∨ selfUid = friendUid then .finish false (.deleted false)
  else
    let first := min selfUid friendUid
    let second := max selfUid friendUid
    lockApplications first second fun _ _ =>
      lockFriends first second fun _ _ =>
        .delete (.friendApply first second) <|
          .delete (.friendApply second first) <|
            .delete (.friend first second) <|
              .delete (.friend second first) <| .finish true (.deleted true)

def createPrivateChat (user1 user2 : ℤ) : Program :=
  if user1 ≤ 0 ∨ user2 ≤ 0 ∨ user1 = user2 then .finish false (.privateChat false 0)
  else
    .lock .update (.friend user1 user2) fun row =>
      if row.isNone then .finish false (.privateChat false 0)
      else privateThread (min user1 user2) (max user1 user2) fun thread =>
        .finish true (.privateChat true thread)

end CppChat.Relations
