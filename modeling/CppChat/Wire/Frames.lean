import CppChat.Foundation.Transaction
import CppChat.ServerStore.ExactlyOnce
import CppChat.Wire.Handlers

/-! # Which stored messages fit a frame

An acknowledgement repeats every stored content twice, escaped, and is not measured before
it is sent. A history page is measured, and a first message that does not fit stays behind.
-/
namespace CppChat.Wire
open ServerStore Foundation

variable {w : Writer}

/-! ## Sizes -/

/-- A member that may be absent. -/
def optionSize (w : Writer) (key : String) (x : Option Scalar) : ℕ :=
  (x.map fun x => w.member + w.quoted key + x.size w).getD 0

/-- The bytes of a message: its layout, its numbers, its id, and its content twice. -/
def ChatJson.bytes (w : Writer) (c : ChatJson) : ℕ :=
  w.object + 11 * w.field +
    (["message_id", "thread_id", "sender", "recv_id", "unique_id", "content", "msg_content",
      "chat_time", "status", "msg_type", "media_size"].map w.quoted).sum +
    w.number c.messageId + w.number c.threadId + w.number c.sender + w.number c.recvId +
    w.quoted c.uniqueId + w.quoted c.content + w.quoted c.msgContent + w.quoted c.chatTime +
    w.number c.status + w.number c.msgType + w.number c.mediaSize +
    (c.media.map fun x => 2 * w.field + w.quoted "media_format" + w.quoted "duration_ms" +
      w.quoted x.1 + w.number x.2).getD 0

theorem objectSize_toObject (c : ChatJson) : objectSize w c.toObject = c.bytes w := by
  unfold objectSize ChatJson.toObject ChatJson.bytes
  rw [membersSize_append]
  rcases hmedia : c.media with _ | ⟨format, duration⟩ <;>
  · simp [Scalar.size]
    omega

/-- The bytes of `chat_datas`. -/
def chatDatasSize (w : Writer) (cs : List ChatJson) : ℕ :=
  if cs = [] then w.emptyArray else w.array + (cs.map fun c => w.element + c.bytes w).sum

theorem arraySize_toObject (cs : List ChatJson) :
    arraySize w (cs.map ChatJson.toObject) = chatDatasSize w cs := by
  simp [arraySize, chatDatasSize, objectSize_toObject, Function.comp_def]

theorem membersSize_option {α : Type*} (key : String) (f : α → Scalar) (x : Option α) :
    membersSize w w.member (x.map fun a => (key, f a)).toList = optionSize w key (x.map f) := by
  cases x <;> simp [optionSize]

theorem Reply.size_eq (r : Reply) : r.size w = w.document +
    (optionSize w "request_id" (r.requestId.map fun id => .text id.1) +
      optionSize w "error" (r.error.map .number) + optionSize w "fromuid" (r.fromUid.map .number) +
      optionSize w "touid" (r.toUid.map .number) + optionSize w "thread_id" (r.threadId.map .number) +
      optionSize w "last_message_id" (r.lastMessageId.map .number) +
      optionSize w "load_more" (r.loadMore.map .bool)) +
    (r.chatDatas.map fun cs => w.member + w.quoted "chat_datas" + chatDatasSize w cs).getD 0 := by
  unfold Reply.size Document.size Reply.toDocument
  simp only [membersSize_append, membersSize_option]
  congr 1
  cases r.chatDatas with
  | none => rfl
  | some cs => simp [arraySize_toObject]

theorem quoted_le_of_size {s : String} {n : ℕ} (h : s.utf8ByteSize ≤ n) : w.quoted s ≤ 6 * n + 2 :=
  (w.quoted_le s).trans (by omega)

theorem optionSize_le {key : String} {x : Option Scalar} {k n : ℕ} (hkey : key.utf8ByteSize ≤ k)
    (hx : ∀ a ∈ x, a.size w ≤ n) : optionSize w key x ≤ w.member + 6 * k + 2 + n := by
  have hquoted := @quoted_le_of_size w key k hkey
  cases x with
  | none => simp [optionSize]
  | some a =>
    have ha := hx a rfl
    simp only [optionSize, Option.map_some, Option.getD_some]
    omega

/-- A history reply without messages is small. -/
theorem Reply.size_le (r : Reply) (hfrom : r.fromUid = none) (hto : r.toUid = none)
    (herror : ∀ n ∈ r.error, IsInt n) (hthread : ∀ n ∈ r.threadId, IsInt n)
    (hlast : ∀ n ∈ r.lastMessageId, IsInt n) (hdatas : r.chatDatas.getD [] = []) :
    r.size w ≤ 1024 := by
  have hnumber : ∀ x : Option Int, (∀ n ∈ x, IsInt n) → ∀ a ∈ x.map Scalar.number, a.size w ≤ 11 := by
    intro x hx a ha
    obtain ⟨n, hn, rfl⟩ := Option.mem_map.mp ha
    exact w.number_le n (hx n hn)
  have h1 : optionSize w "request_id" (r.requestId.map fun id => .text id.1) ≤
      w.member + 6 * 10 + 2 + 386 := by
    refine @optionSize_le w "request_id" _ 10 386 (by decide) fun a ha => ?_
    obtain ⟨id, -, rfl⟩ := Option.mem_map.mp ha
    exact quoted_le_of_size id.2.2
  have h2 := @optionSize_le w "error" _ 5 11 (by decide) (hnumber _ herror)
  have h3 := @optionSize_le w "thread_id" _ 9 11 (by decide) (hnumber _ hthread)
  have h4 := @optionSize_le w "last_message_id" _ 15 11 (by decide) (hnumber _ hlast)
  have h5 : optionSize w "load_more" (r.loadMore.map .bool) ≤ w.member + 6 * 9 + 2 + 5 := by
    refine @optionSize_le w "load_more" _ 9 5 (by decide) fun a ha => ?_
    obtain ⟨b, -, rfl⟩ := Option.mem_map.mp ha
    cases b <;> simp [Scalar.size]
  have h6 : (r.chatDatas.map fun cs => w.member + w.quoted "chat_datas" + chatDatasSize w cs).getD 0 ≤
      w.member + 62 + w.emptyArray := by
    have hkey := @quoted_le_of_size w "chat_datas" 10 (by decide)
    cases hr : r.chatDatas with
    | none => simp
    | some cs =>
      rw [hr, Option.getD_some] at hdatas
      simp only [hdatas, Option.map_some, Option.getD_some, chatDatasSize, if_true]
      omega
  have hlayout := w.document_le
  rw [Reply.size_eq, hfrom, hto]
  simp only [Option.map_none, optionSize, Option.getD_none] at h1 h2 h3 h4 h5 ⊢
  omega

/-! ## The loop over a page -/

variable {session : Session}

/-- Giving up on a message changes the reply by less than the reserve. -/
theorem Reply.size_giveUp (r : Reply) {b : Bool} (herror : r.error = some ErrorCodes.success)
    (hmore : r.loadMore = some b) :
    ({ r with error := some ErrorCodes.loadChatFailed, loadMore := some false } : Reply).size w ≤
      r.size w + 16 ∧ ({ r with loadMore := some true } : Reply).size w ≤ r.size w := by
  have hfailed := w.number_le ErrorCodes.loadChatFailed (by decide)
  rw [Reply.size_eq, Reply.size_eq, Reply.size_eq, herror, hmore]
  simp only [optionSize, Option.map_some, Option.getD_some, Scalar.size, Bool.false_eq_true, if_false,
    if_true]
  constructor <;> cases b <;> simp only [Bool.false_eq_true, if_false, if_true] <;> omega

/-- Every page fits. -/
theorem addMessages_size (ms : List ChatMessage) {r : Reply} {b : Bool}
    (hsize : r.size w ≤ maxLength - 16) (herror : r.error = some ErrorCodes.success)
    (hmore : r.loadMore = some b) : (addMessages w session r ms).size w ≤ maxLength := by
  induction ms generalizing r with
  | nil => exact hsize.trans (Nat.sub_le ..)
  | cons m ms ih =>
    obtain ⟨hfailed, htrue⟩ := @Reply.size_giveUp w r b herror hmore
    unfold addMessages
    split
    · split
      · exact hfailed.trans (by unfold maxLength at *; omega)
      · exact htrue.trans (hsize.trans (Nat.sub_le ..))
    next hfits => exact ih (not_lt.mp hfits) herror hmore

/-- Once a message is kept, the page stays a success that moves the cursor. -/
theorem addMessages_progress (ms : List ChatMessage) {r : Reply} {cursor : Int}
    (herror : r.error = some ErrorCodes.success) (hne : r.chatDatas.getD [] ≠ [])
    (hlast : ∃ next, r.lastMessageId = some next ∧ cursor < next)
    (hms : ∀ m ∈ ms, cursor < m.messageId) :
    let reply := addMessages w session r ms
    reply.error = some ErrorCodes.success ∧ reply.chatDatas.getD [] ≠ [] ∧
      ∃ next, reply.lastMessageId = some next ∧ cursor < next := by
  induction ms generalizing r with
  | nil => exact ⟨herror, hne, hlast⟩
  | cons m ms ih =>
    unfold addMessages
    dsimp only
    split
    · exact ⟨herror, hne, hlast⟩
    · refine ih herror (by simp [candidate]) ⟨m.messageId, rfl, hms m List.mem_cons_self⟩ fun x hx => ?_
      exact hms x (List.mem_cons_of_mem _ hx)

/-! ## Committed batches -/

/-- The request passes the access checks of `MessageService::Load`. -/
def Services.Grants (v : Services) (uid : Int) (q : LoadRequest) : Prop :=
  (v.checkPrivateChatAccess uid q.threadId = ErrorCodes.success ∨
    v.getGroup uid q.threadId = ErrorCodes.success) ∧ 0 < q.threadId

def requestIdSize (w : Writer) (id : Option RequestId) : ℕ :=
  (id.map fun id => w.member + w.quoted "request_id" + w.quoted id.1).getD 0

/-- The acknowledgement of a stored batch, by what was sent and stored. -/
def ackBytes (w : Writer) (request : TextRequest) (done : List ChatMessage) : ℕ :=
  w.document + requestIdSize w request.requestId + 5 * w.member +
    (["error", "fromuid", "touid", "thread_id", "chat_datas"].map w.quoted).sum +
    w.number ErrorCodes.success + w.number request.fromUid + w.number request.toUid +
    w.number request.threadId + w.array +
    (done.map fun m => w.element + (fillChatJson m true true).bytes w).sum

/-- A history page with one message, as it is measured. -/
def pageBytes (w : Writer) (reader : Session) (q : LoadRequest) (loadMore : Bool) (m : ChatMessage) :
    ℕ :=
  w.document + requestIdSize w q.requestId + 5 * w.member +
    (["error", "thread_id", "last_message_id", "load_more", "chat_datas"].map w.quoted).sum +
    w.number ErrorCodes.success + w.number q.threadId + w.number m.messageId +
    (if loadMore then 4 else 5) + w.array + w.element +
    (fillChatJson m reader.voiceMessages reader.fileMessages).bytes w

/-- A text costs its escaped content twice. -/
theorem content_le_ackBytes {request : TextRequest} {done : List ChatMessage} {m : ChatMessage}
    (hm : m ∈ done) (htext : m.msgType = 0) : 2 * w.quoted m.content ≤ ackBytes w request done := by
  have hfill : fillChatJson m true true = ⟨m.messageId, m.threadId, m.senderId, m.recvId, m.uniqueId,
      m.content, m.content, m.chatTime, m.status, m.msgType, m.mediaSize, none⟩ := by
    simp [fillChatJson, ChatJson.present, htext]
  have hbytes : 2 * w.quoted m.content ≤ w.element + (fillChatJson m true true).bytes w := by
    rw [hfill]
    unfold ChatJson.bytes
    dsimp only
    omega
  have hsum := List.le_sum_of_mem
    (List.mem_map_of_mem (f := fun m => w.element + (fillChatJson m true true).bytes w) hm)
  exact (hbytes.trans hsum).trans (Nat.le_add_left ..)

variable {W : Type} [DecidableEq W] {D : Deployment W} {v : Services} {s : State D} {k : ℕ}
  {reader : Session} {timestamp : String} {request : TextRequest} {done : List ChatMessage}
  {q : LoadRequest} {r : ChatRow}

/-- A text batch that passed every check and that call `k` committed. -/
structure Committed (v : Services) (s : State D) (k : ℕ) (session : Session) (timestamp : String)
    (request : TextRequest) (done : List ChatMessage) : Prop where
  accepted : ¬ request.Refused session
  stored : ∃ messages batch,
    readItems session request timestamp request.textArray = .ok messages ∧
      checkBatch v request.fromUid messages = .ok batch ∧ s.calls k = some (.stored batch done)

/-- The sender gets its answer, every history reply is a frame, and history that continues
with a message of the batch moves on. -/
structure Served (w : Writer) (v : Services) (s : State D) (session : Session) (timestamp : String)
    (request : TextRequest) (done : List ChatMessage) : Prop where
  acknowledged :
    FitsFrame ((dealChatTextMsg v (fun _ => some done) session timestamp request).size w)
  present : ∀ m ∈ done, ∃ r ∈ s.table, r.messageId = m.messageId ∧ r.threadId = m.threadId
  framed : ∀ reader q, FitsFrame ((loadChatMsg w v reader s.table q).size w)
  loaded : ∀ reader q r, v.Grants reader.userId q →
    (rowsAfter s.table q.threadId q.cursor).head? = some r →
    r.messageId ∈ done.map ChatMessage.messageId →
    (loadChatMsg w v reader s.table q).error = some ErrorCodes.success ∧
      (loadChatMsg w v reader s.table q).chatDatas.getD [] ≠ [] ∧
      ∃ next, (loadChatMsg w v reader s.table q).lastMessageId = some next ∧ q.cursor < next

/-- The batch is small enough as a whole, and each of its messages is on its own. -/
structure Fitting (w : Writer) (v : Services) (s : State D) (request : TextRequest)
    (done : List ChatMessage) : Prop where
  acknowledgement : ackBytes w request done ≤ maxLength
  pages : ∀ reader q r, v.Grants reader.userId q →
    (rowsAfter s.table q.threadId q.cursor).head? = some r →
    r.messageId ∈ done.map ChatMessage.messageId →
    pageBytes w reader q (10 < (rowsAfter s.table q.threadId q.cursor).length) (toMessage r) ≤
      maxLength - 16

theorem fitsFrame_iff {r : Reply} : FitsFrame (r.size w) ↔ r.size w ≤ maxLength := by
  have hpos : r.size w ≠ 0 := by
    have hdocument := w.document_pos
    rw [Reply.size_eq]
    omega
  refine ⟨fun h => h.2.1, fun h => ⟨hpos, h, h.trans (by decide)⟩⟩

theorem mapM_ok {f : ChatMessage → Except Int ChatMessage} {ms batch : List ChatMessage}
    (h : ms.mapM f = .ok batch) : List.Forall₂ (fun m m' => f m = .ok m') ms batch := by
  induction ms generalizing batch with
  | nil =>
    cases h
    exact .nil
  | cons m ms ih =>
    rw [List.mapM_cons] at h
    obtain ⟨m', hm, h⟩ := bind_eq_ok.mp h
    obtain ⟨rest, hrest, h⟩ := bind_eq_ok.mp h
    cases h
    exact .cons hm (ih hrest)

/-- Every element of a batch that is handed over has passed its checks. -/
theorem checkBatch_ok {actor : Int} {messages batch : List ChatMessage}
    (h : checkBatch v actor messages = .ok batch) :
    ∃ first rest, messages = first :: rest ∧
      List.Forall₂ (fun m m' => checkMessage v actor (first.senderId = first.recvId) m = .ok m')
        messages batch := by
  unfold checkBatch at h
  split at h
  · cases h
  next first rest =>
    split at h
    · cases h
    dsimp only at h
    by_cases haccess : (if first.senderId = first.recvId then v.getGroup actor first.threadId
      else ErrorCodes.success) ≠ ErrorCodes.success
    · rw [if_pos haccess] at h
      cases h
    · rw [if_neg haccess] at h
      obtain ⟨checked, hchecked, h⟩ := bind_eq_ok.mp h
      refine ⟨first, rest, rfl, ?_⟩
      split at h <;> split at h <;> cases h
      all_goals exact mapM_ok hchecked

theorem checkBatch_ne_nil {actor : Int} {messages batch : List ChatMessage}
    (h : checkBatch v actor messages = .ok batch) : batch ≠ [] := by
  obtain ⟨first, rest, rfl, hchecked⟩ := checkBatch_ok h
  rintro rfl
  cases hchecked

omit [DecidableEq W] in
/-- The reply to a committed batch carries every stored message. -/
theorem Committed.reply (h : Committed v s k session timestamp request done) :
    dealChatTextMsg v (fun _ => some done) session timestamp request =
      { Reply.empty request.requestId with
        fromUid := some request.fromUid, toUid := some request.toUid
        threadId := some request.threadId, error := some ErrorCodes.success
        chatDatas := some (done.map fun m => fillChatJson m true true) } := by
  obtain ⟨messages, batch, hread, hcheck, -⟩ := h.stored
  have hstore : store v request.fromUid (fun _ => some done) messages = .ok done := by
    unfold store
    rw [hcheck]
    rfl
  unfold dealChatTextMsg
  rw [if_neg h.accepted, hread]
  dsimp only
  rw [hstore]

theorem Committed.original (hs : (server D).Reachable s)
    (h : Committed v s k session timestamp request done) :
    done ≠ [] ∧ ∀ m ∈ done, ∃ r ∈ s.table, r.messageId = m.messageId ∧ r.threadId = m.threadId := by
  obtain ⟨messages, batch, -, hcheck, hcall⟩ := h.stored
  have horiginal := (inv_of_reachable hs).original hcall
  constructor
  · rintro rfl
    exact checkBatch_ne_nil hcheck (List.forall₂_nil_right_iff.mp horiginal)
  · intro m hm
    obtain ⟨m₀, r, hr, hkey, -, rfl⟩ := State.exists_of_mem_forall₂ horiginal.flip hm
    exact ⟨r, hr, rfl, hkey.1⟩

theorem acknowledgement_size (hs : (server D).Reachable s)
    (h : Committed v s k session timestamp request done) :
    (dealChatTextMsg v (fun _ => some done) session timestamp request).size w =
      ackBytes w request done := by
  rw [h.reply, Reply.size_eq]
  have hne : (done.map fun m => fillChatJson m true true) ≠ [] := by
    simpa using (h.original hs).1
  simp only [Reply.empty, Option.map_some, Option.map_none, optionSize, Option.getD_some,
    Option.getD_none, Scalar.size, chatDatasSize, if_neg hne, List.map_map, Function.comp_def,
    ackBytes, requestIdSize, List.map_cons, List.map_nil, List.sum_cons, List.sum_nil]
  cases request.requestId with
  | none => simp only [Option.map_none, Option.getD_none]; omega
  | some id => simp only [Option.map_some, Option.getD_some]; omega

theorem mem_rowsAfter {table : List ChatRow} {thread cursor : Int} :
    r ∈ rowsAfter table thread cursor ↔ r ∈ table ∧ r.threadId = thread ∧ cursor < r.messageId := by
  simp [rowsAfter]

/-- The page of a granted request starts with the first row after its cursor. -/
theorem loadPage_first {table : List ChatRow} {thread cursor : Int}
    (hr : (rowsAfter table thread cursor).head? = some r) :
    ∃ rest, (loadPage table thread cursor 10).messages = toMessage r :: rest ∧
      (∀ m ∈ rest, cursor < m.messageId) ∧
      (loadPage table thread cursor 10).loadMore =
        decide (10 < (rowsAfter table thread cursor).length) := by
  obtain ⟨rs, hrows⟩ : ∃ rs, rowsAfter table thread cursor = r :: rs := List.head?_eq_some_iff.mp hr
  refine ⟨(rs.take 9).map toMessage, ?_, fun m hm => ?_, ?_⟩
  · simp [loadPage, hrows, List.take_take]
  · obtain ⟨x, hx, rfl⟩ := List.mem_map.mp hm
    have hmem : x ∈ rowsAfter table thread cursor :=
      hrows ▸ List.mem_cons_of_mem _ (List.mem_of_mem_take hx)
    exact (mem_rowsAfter.mp hmem).2.2
  · simp only [loadPage, List.length_take, decide_eq_decide]
    omega

/-- The first page as it starts, before its messages are added. -/
def firstReply (q : LoadRequest) (loadMore : Bool) : Reply :=
  { Reply.empty q.requestId with
    threadId := some q.threadId, error := some ErrorCodes.success
    lastMessageId := some q.cursor, loadMore := some loadMore, chatDatas := some [] }

theorem loadChatMsg_granted {table : List ChatRow} (hv : v.Grants reader.userId q) :
    loadChatMsg w v reader table q =
      addMessages w reader (firstReply q (loadPage table q.threadId q.cursor 10).loadMore)
        (loadPage table q.threadId q.cursor 10).messages := by
  have hload : load v table reader.userId q.threadId q.cursor =
      .ok (loadPage table q.threadId q.cursor 10) := by
    unfold load
    rw [if_neg fun hdenied => hv.1.elim hdenied.1 hdenied.2, if_neg (not_le.mpr hv.2)]
  unfold loadChatMsg
  dsimp only
  rw [hload]
  rfl

theorem cursor_isInt (q : LoadRequest) : IsInt q.cursor := by
  unfold LoadRequest.cursor
  cases h : q.messageId with
  | none => decide
  | some n => exact q.messageId_isInt n h

theorem firstReply_size (loadMore : Bool) : (firstReply q loadMore).size w ≤ maxLength - 16 := by
  have hsize := @Reply.size_le w (firstReply q loadMore) rfl rfl
    (fun n hn => by obtain rfl := Option.some.inj hn; decide)
    (fun n hn => by obtain rfl := Option.some.inj hn; exact q.threadId_isInt)
    (fun n hn => by obtain rfl := Option.some.inj hn; exact cursor_isInt q) rfl
  exact hsize.trans (by decide)

/-- Every reply of `LoadChatMsg` is sent. -/
theorem loadChatMsg_fits (table : List ChatRow) :
    FitsFrame ((loadChatMsg w v reader table q).size w) := by
  rw [fitsFrame_iff]
  unfold loadChatMsg
  dsimp only
  split
  next e hload =>
    have herror : IsInt e := by
      unfold load at hload
      dsimp only at hload
      split at hload
      · cases hload
        exact v.access_isInt _ _
      · split at hload
        · cases hload
          decide
        · cases hload
    refine le_trans (Reply.size_le _ rfl rfl ?_ ?_ ?_ rfl) (by decide)
    · rintro n hn
      obtain rfl := Option.some.inj hn
      exact herror
    · rintro n hn
      obtain rfl := Option.some.inj hn
      exact q.threadId_isInt
    · rintro n hn
      cases hn
  next page _ => exact addMessages_size _ (firstReply_size page.loadMore) rfl rfl

/-- A granted request moves on exactly when its first message fits a page of its own. -/
theorem loadChatMsg_moves_iff {table : List ChatRow} (hv : v.Grants reader.userId q)
    (hr : (rowsAfter table q.threadId q.cursor).head? = some r) :
    ((loadChatMsg w v reader table q).error = some ErrorCodes.success ∧
      (loadChatMsg w v reader table q).chatDatas.getD [] ≠ [] ∧
      ∃ next, (loadChatMsg w v reader table q).lastMessageId = some next ∧ q.cursor < next) ↔
    pageBytes w reader q (10 < (rowsAfter table q.threadId q.cursor).length) (toMessage r) ≤
      maxLength - 16 := by
  obtain ⟨rest, hmessages, hrest, hmore⟩ := loadPage_first hr
  have hfirst : q.cursor < (toMessage r).messageId :=
    (mem_rowsAfter.mp (List.mem_of_mem_head? hr)).2.2
  rw [loadChatMsg_granted hv, hmessages, hmore]
  generalize decide (10 < (rowsAfter table q.threadId q.cursor).length) = more
  have hsize : (candidate reader (firstReply q more) (toMessage r)).size w =
      pageBytes w reader q more (toMessage r) := by
    rw [Reply.size_eq]
    simp only [candidate, firstReply, Reply.empty, Option.map_some, Option.map_none, optionSize,
      Option.getD_some, Option.getD_none, Scalar.size, chatDatasSize, List.nil_append,
      List.cons_ne_nil, if_false, List.map_cons, List.map_nil, List.sum_cons, List.sum_nil,
      pageBytes, requestIdSize]
    cases q.requestId with
    | none => simp only [Option.map_none, Option.getD_none]; omega
    | some id => simp only [Option.map_some, Option.getD_some]; omega
  rw [← hsize]
  constructor
  · rintro ⟨-, hne, -⟩
    by_contra hlarge
    unfold addMessages at hne
    rw [if_pos (not_le.mp hlarge)] at hne
    exact hne rfl
  · intro hfits
    unfold addMessages
    rw [if_neg (not_lt.mpr hfits)]
    exact addMessages_progress rest rfl (List.cons_ne_nil _ _) ⟨_, rfl, hfirst⟩ hrest

/-- A committed batch is acknowledged and can be loaded exactly when it is small enough. -/
theorem served_iff (hs : (server D).Reachable s)
    (h : Committed v s k session timestamp request done) :
    Served w v s session timestamp request done ↔ Fitting w v s request done := by
  constructor
  · intro hserved
    refine ⟨?_, fun reader q r hv hr hmem => ?_⟩
    · rw [← acknowledgement_size hs h, ← fitsFrame_iff]
      exact hserved.acknowledged
    · exact (loadChatMsg_moves_iff hv hr).mp (hserved.loaded reader q r hv hr hmem)
  · intro hfitting
    refine ⟨?_, (h.original hs).2, fun reader q => loadChatMsg_fits s.table,
      fun reader q r hv hr hmem => ?_⟩
    · rw [fitsFrame_iff, acknowledgement_size hs h]
      exact hfitting.acknowledgement
    · exact (loadChatMsg_moves_iff hv hr).mpr (hfitting.pages reader q r hv hr hmem)

/-! ## A message that is stored and stays behind -/

def sampleServices : Services where
  getGroup _ _ := 1017
  checkFriendship _ _ := 0
  checkPrivateChatAccess _ _ := 0
  redis _ := none
  access_isInt _ _ := by decide

def sampleRequest (content : String) : TextRequest :=
  ⟨none, 1, 2, 5, [⟨some content, some "uuid", none, none⟩]⟩

def sampleMessage (id : ℕ) (content : String) : ChatMessage :=
  ⟨id, 5, 1, 2, "uuid", content, "2026-01-01 00:00:00", 2, 0, 0⟩

/-- Any content of a text message is stored. -/
theorem sample_committed (content : String) : ∃ s, (server sampleDeployment).Reachable s ∧
    Committed sampleServices s 0 ⟨1, true, true⟩ "2026-01-01 00:00:00" (sampleRequest content)
      [sampleMessage 1 content] ∧ s.table.map toMessage = [sampleMessage 1 content] := by
  have hinit : (server sampleDeployment).Reachable emptyServer := .init ⟨rfl, rfl, rfl⟩
  have hrun : Machine.runFn State.step emptyServer
      [.begin 0 [sampleMessage 0 content], .statement 0 1, .commit 0] = some _ := rfl
  refine ⟨_, hinit.runFn hrun, ⟨by simp [TextRequest.Refused, sampleRequest],
    [sampleMessage 0 content], [sampleMessage 0 content], rfl, rfl, rfl⟩, rfl⟩

theorem requestIdSize_le (id : Option RequestId) :
    requestIdSize w id ≤ w.member + 62 + 386 := by
  have hkey := @quoted_le_of_size w "request_id" 10 (by decide)
  cases id with
  | none => exact Nat.zero_le _
  | some id =>
    have hid := @quoted_le_of_size w id.1 64 id.2.2
    simp only [requestIdSize, Option.map_some, Option.getD_some]
    omega

/-- The short text fits every page that starts with it. -/
theorem hello_page (q : LoadRequest) (loadMore : Bool) :
    pageBytes jsoncpp reader q loadMore (sampleMessage 1 "hello") ≤ maxLength - 16 := by
  have hid := @requestIdSize_le jsoncpp q.requestId
  have hkeys : (["error", "thread_id", "last_message_id", "load_more", "chat_datas"].map
      jsoncpp.quoted).sum ≤ 64 := by decide
  have hthread : jsoncpp.number q.threadId ≤ 11 := numberSize_le q.threadId_isInt
  have hmessage : jsoncpp.number ((sampleMessage 1 "hello").messageId : Int) ≤ 11 := by decide
  have herror : jsoncpp.number ErrorCodes.success ≤ 11 := by decide
  have hfill : fillChatJson (sampleMessage 1 "hello") reader.voiceMessages reader.fileMessages =
      fillChatJson (sampleMessage 1 "hello") true true := rfl
  have hbytes : (fillChatJson (sampleMessage 1 "hello") true true).bytes jsoncpp ≤ 1024 := by
    decide
  have hflag : (if loadMore then 4 else 5) ≤ 5 := by split <;> decide
  have hlayout : jsoncpp.document + jsoncpp.array + jsoncpp.element ≤ 12 := by decide
  have hmember : jsoncpp.member = 6 := rfl
  have hmax : maxLength - 16 = 16368 := by decide
  rw [pageBytes, hfill, hmax]
  omega

/-- A short text is stored and served. -/
theorem served_iff_sample : ∃ s, (server sampleDeployment).Reachable s ∧
    s.table.map toMessage = [sampleMessage 1 "hello"] ∧
    Served jsoncpp sampleServices s ⟨1, true, true⟩ "2026-01-01 00:00:00" (sampleRequest "hello")
      [sampleMessage 1 "hello"] := by
  obtain ⟨s, hs, hcommitted, htable⟩ := sample_committed "hello"
  refine ⟨s, hs, htable, (served_iff hs hcommitted).mpr ⟨by decide, ?_⟩⟩
  intro reader q r hv hr hmem
  have hrow : r ∈ s.table := (mem_rowsAfter.mp (List.mem_of_mem_head? hr)).1
  have hmessage := List.mem_map_of_mem (f := toMessage) hrow
  rw [htable, List.mem_singleton] at hmessage
  rw [hmessage]
  exact hello_page q _

/-- 3000 Chinese characters: 9 kB in the request, 36 kB in each reply. -/
def longText : String := String.ofList (List.replicate 3000 '中')

theorem sample_ackBytes (content : String) :
    2 * w.quoted content ≤ ackBytes w (sampleRequest content) [sampleMessage 1 content] :=
  content_le_ackBytes (List.mem_singleton_self (sampleMessage 1 content)) rfl

theorem long_text_unanswered : ¬ ∀ (w : Writer) (v : Services) (s : State sampleDeployment) (k : ℕ)
    (session : Session) (timestamp : String) (request : TextRequest) (done : List ChatMessage),
    (server sampleDeployment).Reachable s → Committed v s k session timestamp request done →
      Served w v s session timestamp request done := by
  intro h
  obtain ⟨s, hs, hcommitted, -⟩ := sample_committed longText
  have hserved := h jsoncpp _ s 0 _ _ _ _ hs hcommitted
  have hsize := hserved.acknowledged.2.1
  rw [acknowledgement_size hs hcommitted] at hsize
  have hcontent : 2 * jsoncpp.quoted longText ≤ _ := (sample_ackBytes longText).trans hsize
  have hquoted : jsoncpp.quoted longText = 3000 * escaped '中' + 2 := quotedSize_replicate 3000 '中'
  have hescaped : escaped '中' = 6 := by decide
  rw [hquoted, hescaped] at hcontent
  exact absurd hcontent (by decide)

end CppChat.Wire
