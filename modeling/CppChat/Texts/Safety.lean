import CppChat.Texts.Parts

/-! # Long texts are split without loss

A part has at most six hundred escaped bytes, so the acknowledgement of a part, which repeats it
twice, stays far below the frame limit.
-/
namespace CppChat.Texts
open Foundation Foundation.Utf16 ServerStore Wire

/-! ## The acknowledgement of a part -/

/-- The packet of a part, as the server reads it. -/
def ChatThreadData.textRequest (data : ChatThreadData) (requestId : Option RequestId)
    (uniqueId : Uuid) (content : String) : TextRequest :=
  ⟨requestId, data.sender, data.receiver, data.thread,
    [⟨some content, some uniqueId.1, none, some 0⟩]⟩

/-- What the columns of `chat_message` hold: `message_id` and `status` are `INT`, and `created_at`
is a `DATETIME`. -/
def Columns (r : ChatRow) : Prop :=
  IsInt r.messageId ∧ IsInt r.status ∧ r.createdAt.utf8ByteSize ≤ 26

section Acknowledgement
variable {W : Type} [DecidableEq W] {D : Deployment W} {v : Services} {s : State D} {k : ℕ}
  {session : Session} {timestamp : String} {requestId : Option RequestId} {uniqueId : Uuid}
  {data : ChatThreadData} {content : String} {done : List ChatMessage}

/-- A part is acknowledged with the message and the id, time and status of a row. -/
theorem acknowledged_message (hs : (server D).Reachable s)
    (h : Committed v s k session timestamp (data.textRequest requestId uniqueId content) done) :
    ∃ r ∈ s.table, done = [⟨r.messageId, data.thread, data.sender,
      if data.receiver = 0 then data.sender else data.receiver, uniqueId.1, content, r.createdAt,
      r.status, 0, 0⟩] := by
  obtain ⟨messages, batch, hread, hcheck, hcall⟩ := h.stored
  have horiginal := (inv_of_reachable hs).original hcall
  let m : ChatMessage := ⟨0, data.thread, data.sender,
    if data.receiver = 0 then data.sender else data.receiver, uniqueId.1, content, timestamp, 2, 0,
    0⟩
  have hmessages : messages = [m] := by
    simp only [ChatThreadData.textRequest, readItems, TextItem.toMessage, Option.getD_some] at hread
    cases hread
    rfl
  obtain ⟨first, rest, hfirst, hchecked⟩ := checkBatch_ok hcheck
  rw [hmessages] at hchecked
  have hbatch : batch = [m] := by
    cases hchecked with
    | cons hm hrest =>
      cases hrest
      unfold checkMessage at hm
      split at hm
      · cases hm
      · cases hm
        rfl
  rw [hbatch] at horiginal
  cases horiginal with
  | cons hm hrest =>
    cases hrest
    obtain ⟨r, hr, -, -, rfl⟩ := hm
    exact ⟨r, hr, rfl⟩

theorem escapedJsonSize_append (t u : Text) :
    escapedJsonSize (t ++ u) = escapedJsonSize t + escapedJsonSize u := by
  simp [escapedJsonSize]

theorem escaped_le_encode (c : Char) : escaped c ≤ escapedJsonSize (encode c) := by
  by_cases hlarge : c.toNat < 0x10000
  · have hunit : (UInt16.ofNat c.toNat).toNat = c.toNat := UInt16.toNat_ofNat_of_lt hlarge
    by_cases hescape : c ∈ ['"', '\\', '\x08', '\x0c', '\n', '\r', '\t']
    · simp only [List.mem_cons, List.not_mem_nil, or_false] at hescape
      rcases hescape with rfl | rfl | rfl | rfl | rfl | rfl | rfl <;> decide
    · rw [encode, if_pos hlarge, escaped, if_neg hescape]
      simp only [escapedJsonSize, List.map_cons, List.map_nil, List.sum_cons, List.sum_nil,
        escapedUnit, hunit]
      split_ifs <;> omega
  · have hwide : ∀ n, 0x7E < n → n < 0x10000 → escapedUnit (.ofNat n) = 6 := by
      intro n hlow hhigh
      have hnat : (UInt16.ofNat n).toNat = n := UInt16.toNat_ofNat_of_lt hhigh
      exact if_pos (.inr (hnat.symm ▸ hlow))
    have hchar : c.toNat < 0x110000 := by
      rcases c.valid with h | h
      · exact Nat.lt_trans h (by decide)
      · exact h.2
    have hbound : escaped c ≤ 12 := by
      unfold escaped
      split_ifs <;> omega
    generalize hn : c.toNat - 0x10000 = n
    have hlt : n < 0x100000 := by omega
    have hhigh := hwide (0xD800 + n / 0x400) (by omega) (by omega)
    have hlow := hwide (0xDC00 + n % 0x400) (by omega) (by omega)
    rw [encode, if_neg hlarge, hn]
    simp only [escapedJsonSize, List.map_cons, List.map_nil, List.sum_cons, List.sum_nil, hhigh,
      hlow]
    exact hbound

/-- A server sees no more escaped bytes than a client. -/
theorem quotedSize_le_escaped (s : String) : quotedSize s ≤ escapedJsonSize (utf16 s) + 2 := by
  have hlist : ∀ l : List Char, (l.map escaped).sum ≤ escapedJsonSize (l.flatMap encode) := by
    intro l
    induction l with
    | nil => exact le_rfl
    | cons c l ih =>
      have := escaped_le_encode c
      rw [List.map_cons, List.sum_cons, List.flatMap_cons, escapedJsonSize_append]
      omega
  exact Nat.add_le_add_right (hlist s.toList) 2

theorem acknowledgement_fits (hs : (server D).Reachable s)
    (h : Committed v s k session timestamp (data.textRequest requestId uniqueId content) done)
    (hcolumns : ∀ r ∈ s.table, Columns r) (hsize : escapedJsonSize (utf16 content) ≤ 600) :
    FitsFrame ((dealChatTextMsg v (fun _ => some done) session timestamp
      (data.textRequest requestId uniqueId content)).size jsoncpp) := by
  obtain ⟨r, hr, rfl⟩ := acknowledged_message hs h
  obtain ⟨hid, hstatus, htime⟩ := hcolumns r hr
  rw [fitsFrame_iff, acknowledgement_size hs h]
  have hcontent := quotedSize_le_escaped content
  have hunique := quotedSize_le uniqueId.1
  have hcreated := quotedSize_le r.createdAt
  rw [uniqueId.2] at hunique
  have hrequest : requestIdSize jsoncpp requestId ≤ 500 := by
    cases requestId with
    | none => exact Nat.zero_le _
    | some id =>
      have hname : quotedSize "request_id" = 12 := by decide
      have hquoted := quotedSize_le id.1
      have hlength := id.2.2
      change 6 + quotedSize "request_id" + quotedSize id.1 ≤ 500
      omega
  have hzero : numberSize 0 ≤ 11 := numberSize_le (by decide)
  have hmessage := numberSize_le hid
  have hstate := numberSize_le hstatus
  have hsender := numberSize_le data.sender_isInt
  have hreceiver := numberSize_le data.receiver_isInt
  have hthread := numberSize_le data.thread_isInt
  have hto : numberSize (if data.receiver = 0 then data.sender else data.receiver) ≤ 11 := by
    split <;> assumption
  have hnames : (["message_id", "thread_id", "sender", "recv_id", "unique_id", "content",
    "msg_content", "chat_time", "status", "msg_type", "media_size"].map quotedSize).sum = 114 := by
    decide
  have hmembers : (["error", "fromuid", "touid", "thread_id", "chat_datas"].map quotedSize).sum =
    46 := by decide
  have hfill : fillChatJson ⟨r.messageId, data.thread, data.sender,
      if data.receiver = 0 then data.sender else data.receiver, uniqueId.1, content, r.createdAt,
      r.status, 0, 0⟩ true true = ⟨r.messageId, data.thread, data.sender,
      if data.receiver = 0 then data.sender else data.receiver, uniqueId.1, content, content,
      r.createdAt, r.status, 0, 0, none⟩ := by
    simp [fillChatJson, ChatJson.present]
  have hquoted : jsoncpp.quoted = quotedSize := rfl
  have hnumber : jsoncpp.number = numberSize := rfl
  have hcast : ((0 : ℕ) : ℤ) = 0 := rfl
  have hdocument : jsoncpp.document = 3 ∧ jsoncpp.member = 6 ∧ jsoncpp.array = 5 ∧
      jsoncpp.element = 4 ∧ jsoncpp.object = 4 ∧ jsoncpp.field = 8 := ⟨rfl, rfl, rfl, rfl, rfl, rfl⟩
  simp only [ackBytes, ChatThreadData.textRequest, List.map_singleton, List.sum_singleton, hfill,
    ChatJson.bytes, hquoted, hnumber, hdocument, hnames, hmembers, Option.map_none, Option.getD_none,
    ErrorCodes.success, hcast]
  unfold maxLength
  omega

end Acknowledgement

/-! ## Splitting -/

/-- What the parts of a text are good for: they are the text, cut inside no pair and no token, each
is small, and they show and send what the whole text says. -/
structure Lossless (C : EmojiCatalog) (isNull : String → Bool) (data : ChatThreadData) (text : Text)
    (parts : List Text) : Prop where
  split : Split C text parts
  packet : ∀ part ∈ parts, ∀ uniqueId, textPacket part uniqueId data ≤ 1800
  rendered : Paired text → ∀ document,
    parts.foldl (insertText C isNull) document = insertText C isNull document text
  plain : ∀ document : Document,
    (insertText C isNull document text).plain = document.plain ++ text
  strings : Paired text → ∀ part ∈ parts, ∃ content, utf16 content = part
  acknowledged : ∀ content, utf16 content ∈ parts → ∀ (W : Type) [DecidableEq W] (D : Deployment W)
    (v : Services) (s : State D) k session timestamp requestId uniqueId done,
    (server D).Reachable s → (∀ r ∈ s.table, Columns r) →
    Committed v s k session timestamp (data.textRequest requestId uniqueId content) done →
    FitsFrame ((dealChatTextMsg v (fun _ => some done) session timestamp
      (data.textRequest requestId uniqueId content)).size jsoncpp)

/-- Long texts are split without loss. -/
theorem splitText_lossless (C : EmojiCatalog) (isNull : String → Bool) (sampleId : Uuid)
    (data : ChatThreadData) (text : Text) :
    Lossless C isNull data text (splitText C sampleId data text) where
  split := splitText_split text
  packet part hpart uniqueId := textPacket_le uniqueId data ((splitText_split text).size part hpart)
  rendered htext := (splitText_split text).insertText htext isNull
  plain document := by
    rw [C.insertText_eq, Document.plain, List.flatMap_append]
    congr 1
    split
    · exact C.rendered_plain isNull 0 text
    · exact EmojiCatalog.plain_char text
  strings htext part hpart := exists_utf16 ((splitText_split text).paired htext part hpart)
  acknowledged content hpart _ _ _ _ _ _ _ _ _ _ _ hs hcolumns h :=
    acknowledgement_fits hs h hcolumns ((splitText_split text).size _ hpart)

/-! ## A text that is no string -/

/-- `[微笑]`. -/
def smile : EmojiEntry :=
  ⟨[openBracket, 0x5FAE, 0x7B11, closeBracket], ":/emojis/qq/smile.png"⟩

theorem smile_isToken : ∀ emoji ∈ [smile], IsToken emoji.token := by
  intro emoji h
  obtain rfl := List.mem_singleton.mp h
  refine ⟨[0x5FAE, 0x7B11], rfl, nofun, by decide, ?_⟩
  rw [List.forall_mem_cons, List.forall_mem_singleton]
  exact ⟨by decide, by decide⟩

def smiles : EmojiCatalog := ⟨[smile], smile_isToken⟩

def sampleThread : ChatThreadData := ⟨1, 2, 5, by decide, by decide, by decide⟩

def sampleUuid : Uuid := ⟨"00000000-0000-0000-0000-000000000000", by decide⟩

/-- An emoji, a hundred characters and half a pair: the expression finds nothing in the text, and
the emoji in its first part. -/
def halfPair : Text := smile.token ++ List.replicate 100 0x4E2D ++ [0xD83D]

theorem halfPair_differs : ¬ ∀ (C : EmojiCatalog) (isNull : String → Bool) (sampleId : Uuid)
    (data : ChatThreadData) (text : Text) (document : Document),
    (splitText C sampleId data text).foldl (insertText C isNull) document =
      insertText C isNull document text := by
  intro h
  have hfirst := congrArg List.head?
    (h smiles (fun _ => false) sampleUuid sampleThread halfPair [])
  revert hfirst
  decide +kernel

end CppChat.Texts
