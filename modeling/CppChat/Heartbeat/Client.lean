import Mathlib.Data.List.Sort
import CppChat.Foundation.Transition

/-! # Friend lists and heartbeats

A heartbeat remembers the friends of the list at its sending, and its answer brings the friends
that the server read. A friend that is missing there is removed where the list still holds the
object that it held at the sending. An acceptance makes a new object, or writes into the one of
the list.
-/
namespace CppChat.Heartbeat
open Foundation

/-! ## The server -/

structure Request where
  friendSnapshotId : Option ℕ
  requestId : Option String
  deriving DecidableEq

structure Response where
  error : ℕ
  uid : Option ℕ
  friendSnapshotId : Option ℕ
  friendIds : Option (List ℕ)
  requestId : Option String
  deriving DecidableEq

namespace ErrorCodes

def success : ℕ := 0
def errorJson : ℕ := 1001

end ErrorCodes

/-- `MAX_LENGTH`. -/
def maxLength : ℕ := 16 * 1024

/-- `SELECT friend_id FROM friend WHERE self_id = ? ORDER BY friend_id ASC`. -/
def getFriendIds (rows : List ℕ) : List ℕ := rows.insertionSort (· ≤ ·)

section Server
variable (styled : Response → ℕ) (uid : ℕ)

/-- `SessionService::Heartbeat`; `friendIds` is `none` when the rows cannot be read. -/
def heartbeat (snapshotId : Option ℕ) (friendIds : Option (List ℕ)) : Response :=
  let response := ⟨ErrorCodes.success, some uid, snapshotId, friendIds, none⟩
  if friendIds.isSome ∧ maxLength ≤ styled response then { response with friendIds := none }
  else response

/-- `LogicSystem::HeartBeatHandler`; a request that cannot be parsed is `none`. -/
def heartBeatHandler (request : Option Request) (friendIds : Option (List ℕ)) : Response :=
  match request with
  | none => ⟨ErrorCodes.errorJson, none, none, none, none⟩
  | some request =>
    let response := { heartbeat styled uid request.friendSnapshotId friendIds with
      requestId := request.requestId }
    if maxLength ≤ styled response then { response with friendIds := none } else response

end Server

/-! ## The client -/

/-- A `shared_ptr` of the list: the user, and which object it is. -/
structure UserInfo where
  uid : ℕ
  object : ℕ
  deriving DecidableEq

/-- What `TcpMgr` and `UserMgr` hold; `objects` counts the objects made so far. -/
structure Client where
  loggedIn : Bool := false
  friendList : List UserInfo := []
  heartbeatSnapshotId : ℕ := 0
  heartbeatFriends : ℕ → Option ℕ := fun _ => none
  objects : ℕ := 0

namespace Client

def friends (c : Client) : List ℕ := c.friendList.map UserInfo.uid

/-- `AddFriend`: the object that a list has is written over. -/
def addFriend (c : Client) (uid : ℕ) (addToFront : Bool) : Client :=
  let c' := { c with objects := c.objects + 1 }
  if uid = 0 ∨ uid ∈ c.friends then c'
  else if addToFront then { c' with friendList := ⟨uid, c.objects⟩ :: c.friendList }
  else { c' with friendList := c.friendList ++ [⟨uid, c.objects⟩] }

/-- The effect of `RemoveFriend` on the list. -/
def removeFriend (c : Client) (uid : ℕ) : Client :=
  { c with friendList := c.friendList.filter fun user => user.uid ≠ uid }

/-- The heartbeat timer: a request, unless the last answer is too long ago. -/
def sendHeartbeat (c : Client) : Client × Request :=
  ({ c with
      heartbeatFriends := fun uid =>
        (c.friendList.find? fun user => user.uid = uid).map UserInfo.object
      heartbeatSnapshotId := c.heartbeatSnapshotId + 1 },
    ⟨some (c.heartbeatSnapshotId + 1), none⟩)

/-- The friends that the answer to a heartbeat removes. -/
def removed (c : Client) (response : Response) : List ℕ :=
  match response.friendIds with
  | none => []
  | some friends =>
    if c.heartbeatSnapshotId = 0 ∨ response.friendSnapshotId.getD 0 ≠ c.heartbeatSnapshotId then []
    else (c.friendList.filter fun user =>
      user.uid ∉ friends ∧ c.heartbeatFriends user.uid = some user.object).map UserInfo.uid

/-- The handler of `ID_HEARTBEAT_RSP`. -/
def heartbeatRsp (c : Client) (response : Response) : Client :=
  (c.removed response).foldl removeFriend c

def resetConnectionState (c : Client) : Client :=
  { c with loggedIn := false, heartbeatSnapshotId := 0, heartbeatFriends := fun _ => none }

/-- `UserMgr::Reset` and `AppendFriendList` of a login. -/
def login (c : Client) (friends : List ℕ) : Client :=
  friends.foldl (fun c uid => c.addFriend uid false) { c with loggedIn := true, friendList := [] }

end Client

/-! ## The system -/

/-- The frames that a client gets; the answer to a deletion counts as its notification, and the
answer to an acceptance too. -/
inductive Frame
  | deleteFriend (uid : ℕ)
  | authFriend (uid : ℕ)
  | heartbeat (response : Response)
  deriving DecidableEq

/-- A friend comes or goes. -/
inductive Change
  | added (uid : ℕ)
  | removed (uid : ℕ)
  deriving DecidableEq

/-- The notification of a change. -/
def Change.frame : Change → Frame
  | .added uid => .authFriend uid
  | .removed uid => .deleteFriend uid

/-- One user on a server. Notifications wait in `notices` until they are sent or lost. The last two
fields are a history that nothing reads: the friends at the sending of the last heartbeat, and the
changes that the client has processed since. -/
structure World where
  client : Client := {}
  rows : List ℕ := []
  notices : List Change := []
  requests : List Request := []
  responses : List Response := []
  frames : List Frame := []
  listed : List ℕ := []
  since : List Change := []

inductive Step
  /-- A login reads the rows on a new connection. -/
  | login
  /-- The connection is lost, or the timer finds that the last answer is too long ago. -/
  | close
  | timer
  | befriend (uid : ℕ)
  | unfriend (uid : ℕ)
  | send (i : ℕ)
  | lose (i : ℕ)
  /-- The server answers a request, reading the rows if it can. -/
  | answer (i : ℕ) (readable : Bool)
  /-- An answer becomes a frame. -/
  | respond (i : ℕ)
  /-- The client handles its next frame. -/
  | handle
  deriving DecidableEq

namespace World

/-- A client handles a frame. -/
def receive (w : World) : Frame → World
  | .deleteFriend uid =>
    { w with
      client := if 0 < uid then w.client.removeFriend uid else w.client
      since := w.since ++ [.removed uid] }
  | .authFriend uid =>
    { w with
      client := w.client.addFriend uid true
      since := w.since ++ [.added uid] }
  | .heartbeat response =>
    { w with
      client := w.client.heartbeatRsp response
      since := w.since ++ (w.client.removed response).map .removed }

def close (w : World) : World :=
  { w with
    client := w.client.resetConnectionState
    requests := []
    responses := []
    frames := [] }

def next (styled : Response → ℕ) (uid : ℕ) (w : World) : Step → Option World
  | .login =>
    if w.client.loggedIn then none
    else some { w with client := w.client.login (getFriendIds w.rows) }
  | .close => some w.close
  | .timer =>
    if w.client.loggedIn then
      some { w with
        client := w.client.sendHeartbeat.1
        requests := w.requests ++ [w.client.sendHeartbeat.2]
        listed := w.client.friends
        since := [] }
    else none
  | .befriend friend =>
    if friend = 0 ∨ friend ∈ w.rows then none
    else some { w with
      rows := friend :: w.rows
      notices := w.notices ++ [.added friend] }
  | .unfriend friend =>
    if friend ∈ w.rows then
      some { w with
        rows := w.rows.filter (· ≠ friend)
        notices := w.notices ++ [.removed friend] }
    else none
  | .send i =>
    (w.notices[i]?).map fun notice =>
      { w with
        notices := w.notices.eraseIdx i
        frames := if w.client.loggedIn then w.frames ++ [notice.frame] else w.frames }
  | .lose i =>
    (w.notices[i]?).map fun _ => { w with notices := w.notices.eraseIdx i }
  | .answer i readable =>
    (w.requests[i]?).map fun request =>
      { w with
        requests := w.requests.eraseIdx i
        responses := w.responses ++ [heartBeatHandler styled uid (some request)
          (if readable then some (getFriendIds w.rows) else none)] }
  | .respond i =>
    (w.responses[i]?).map fun response =>
      { w with
        responses := w.responses.eraseIdx i
        frames := w.frames ++ [.heartbeat response] }
  | .handle =>
    match w.frames with
    | [] => none
    | frame :: frames => some ({ w with frames }.receive frame)

/-- The runs of a system that starts with any rows and no connection. -/
def machine (styled : Response → ℕ) (uid : ℕ) : Machine World Step :=
  .ofFn (fun w => ∃ rows, w = { rows }) (next styled uid)

end World
end CppChat.Heartbeat
