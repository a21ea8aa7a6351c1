import MobiusAgent.AgentWorld
import MobiusAgent.RoutinePolling

/-!
# Queued messages load again

A message is checked once, at ingress, and enters the durable queue without
another check. Loading the checkpoint checks every queued message again, with
other limits and another encoding. The encodings and decoders are those that
`serde` derives for `protocol/mod.rs`, `protocol/events.rs` and
`backend/checkpoint/mod.rs`; the syntax of a UUID stays a parameter.
-/

namespace MobiusAgent.MessageReload

open JsonValue ProtocolEvents CheckpointRecords CheckpointValidation MessageQueue AgentWorld
  HookRecords RoutinePolling

section Encoding

/-- The encoding of a message's source. -/
def sourceJson : MessageSource → Json
  | .session sessionId => tagged "session" [("session_id", .str sessionId)]
  | .external sourceId eventId =>
    tagged "external" [("source_id", .str sourceId), ("event_id", .str eventId)]
  | .call callId => tagged "call" [("call_id", .str callId)]

/-- The encoding of an author; an absent symbol is skipped. -/
def authorJson : MessageAuthor → Json
  | .user => tagged "user" []
  | .source messageId source causeId ancestry handle symbol =>
    tagged "source" ([("message_id", .str messageId), ("source", sourceJson source),
      ("cause_id", optionalJson causeId), ("ancestry", .arr (ancestry.map .str)),
      ("handle", .str handle)] ++ symbol.toList.map fun name => ("symbol", .str name))

def referenceJson (file : SessionFileReference) : Json :=
  .obj [("id", .str file.id), ("name", .str file.name), ("size", .number file.size),
    ("media_type", .str file.mediaType)]

/-- The encoding of a transcript position. -/
def targetJson (target : MessageTarget) : Json :=
  .obj [("checkpoint_sequence", .number target.checkpointSequence),
    ("batch_item_count", .number target.batchItemCount)]

/-- The encoding of an optional transcript position. -/
def optionalTargetJson : Option MessageTarget → Json
  | none => .null
  | some target => targetJson target

/-- The encoding of an optional quote. -/
def replyJson : Option MessageReply → Json
  | none => .null
  | some reply => .obj [("target", targetJson reply.target), ("text", .str reply.text)]

def deliveryText : MessageDelivery → String
  | .turn => "turn"
  | .steer => "steer"
  | .queue => "queue"

def requestedJson : Option ActiveMessageDelivery → Json
  | none => .null
  | some .steer => .str "steer"
  | some .queue => .str "queue"

/-- The encoding of a submitted message. -/
def submissionJson (message : MessageSubmission) : Json :=
  .obj [("author", authorJson message.author), ("text", .str message.text),
    ("attachments", .arr (message.attachments.map referenceJson)),
    ("reply", replyJson message.reply),
    ("requested_delivery", requestedJson message.requestedDelivery),
    ("target_turn_id", optionalJson message.targetTurnId)]

/-- The encoding of a message event, which that of a borrowed event equals. -/
def eventJson (event : MessageEvent) : Json :=
  .obj [("author", authorJson event.author), ("delivery", .str (deliveryText event.delivery)),
    ("text", .str event.text), ("attachments", .arr (event.attachments.map referenceJson)),
    ("reply", replyJson event.reply),
    ("message_target", optionalTargetJson event.messageTarget)]

/-- The encoding of a delivery boundary. -/
def boundaryJson : QueuedMessageBoundary → Json
  | .turn => tagged "turn" []
  | .steer turnId => tagged "steer" [("turn_id", .str turnId)]
  | .queue => tagged "queue" []

def queuedJson (queued : QueuedMessage) : Json :=
  .obj [("owner", .str queued.owner), ("id", .str queued.id),
    ("boundary", boundaryJson queued.boundary), ("author", authorJson queued.author),
    ("message", .str queued.message),
    ("attachments", .arr (queued.attachments.map referenceJson)),
    ("reply", replyJson queued.reply)]

/-- The encoding of the field `pending_messages` of a checkpoint. -/
def pendingJson (queue : List QueuedMessage) : Json := .arr (queue.map queuedJson)

end Encoding

section Decoding

/-- An unsigned 64-bit number. -/
def natOf : Json → Option Nat
  | .number value => if 0 ≤ value ∧ value ≤ (u64Max : Int) then some value.toNat else none
  | _ => none

/-- A value that may be absent or null. -/
def optionOf {α : Type} (decode : Json → Option α) : Option Json → Option (Option α)
  | none => some none
  | some .null => some none
  | some value => (decode value).map some

def listOf {α : Type} (decode : Json → Option α) : Json → Option (List α)
  | .arr items => items.mapM decode
  | _ => none

/-- `deny_unknown_fields`: an object with no other field than these. -/
def onlyFields (names : List String) : Json → Bool
  | .obj fields => fields.all fun field => names.contains field.1
  | _ => false

/-- `SessionId::new`. -/
def sessionIdOf (text : String) : Option SessionId :=
  if isBlank text ∨ 4096 < text.utf8ByteSize then none else some text

/-- The decoder of a message's source. -/
def sourceOf (item : Json) : Option MessageSource :=
  if item.getStr "type" = some "session" ∧ onlyFields ["type", "session_id"] item then
    ((item.getStr "session_id").bind sessionIdOf).map .session
  else if item.getStr "type" = some "external" ∧
      onlyFields ["type", "source_id", "event_id"] item then do
    let sourceId ← item.getStr "source_id"
    let eventId ← item.getStr "event_id"
    some (.external sourceId eventId)
  else if item.getStr "type" = some "call" ∧ onlyFields ["type", "call_id"] item then
    ((item.getStr "call_id").bind sessionIdOf).map .call
  else none

def authorOf (item : Json) : Option MessageAuthor :=
  if item.getStr "type" = some "user" then some .user
  else if item.getStr "type" = some "source" ∧ onlyFields ["type", "message_id", "source",
      "cause_id", "ancestry", "handle", "symbol"] item then do
    let messageId ← item.getStr "message_id"
    let source ← (item.get "source").bind sourceOf
    let causeId ← optionOf Json.asStr (item.get "cause_id")
    let ancestry ← (item.get "ancestry").bind (listOf Json.asStr)
    let handle ← item.getStr "handle"
    let symbol ← optionOf Json.asStr (item.get "symbol")
    some (.source messageId source causeId ancestry handle symbol)
  else none

def referenceOf (item : Json) : Option SessionFileReference :=
  if onlyFields ["id", "name", "size", "media_type"] item then do
    let id ← item.getStr "id"
    let name ← item.getStr "name"
    let size ← (item.get "size").bind natOf
    let mediaType ← item.getStr "media_type"
    some ⟨id, name, size, mediaType⟩
  else none

/-- The decoder of a transcript position; its item count is not zero. -/
def targetOf (item : Json) : Option MessageTarget := do
  let checkpointSequence ← (item.get "checkpoint_sequence").bind natOf
  let batchItemCount ← (item.get "batch_item_count").bind natOf
  if batchItemCount = 0 then none else some ⟨checkpointSequence, batchItemCount⟩

/-- The decoder of a quote. -/
def replyOf (item : Json) : Option MessageReply :=
  if onlyFields ["target", "text"] item then do
    let target ← (item.get "target").bind targetOf
    let text ← item.getStr "text"
    some ⟨target, text⟩
  else none

/-- The decoder of a delivery boundary. -/
def boundaryOf (item : Json) : Option QueuedMessageBoundary :=
  if item.getStr "type" = some "turn" then some .turn
  else if item.getStr "type" = some "steer" then (item.getStr "turn_id").map .steer
  else if item.getStr "type" = some "queue" then some .queue
  else none

def queuedDataOf (item : Json) : Option QueuedMessage := do
  let owner ← item.getStr "owner"
  let id ← item.getStr "id"
  let boundary ← (item.get "boundary").bind boundaryOf
  let author ← (item.get "author").bind authorOf
  let message ← item.getStr "message"
  let attachments ← (item.get "attachments").bind (listOf referenceOf)
  let reply ← optionOf replyOf (item.get "reply")
  some ⟨owner, id, boundary, author, message, attachments, reply⟩

variable (checks : ExternalChecks)

/-- `QueuedMessage::deserialize`: the data, if it is valid. -/
def queuedOf (item : Json) : Option QueuedMessage := do
  let queued ← queuedDataOf item
  match validateQueuedMessage checks queued with
  | .ok () => some queued
  | .error _ => none

/-- The decoder of the field `pending_messages` of a checkpoint. -/
def pendingOf (item : Json) : Option (List QueuedMessage) := listOf (queuedOf checks) item

end Decoding

section Ingress

def maxAttachmentReferences : Nat := 16

/-- `MAX_FILE_BYTES` of the session files. -/
def maxFileBytes : Nat := 250 * 1024 * 1024

def maxSessionBytes : Nat := 250 * 1024 * 1024

/-- The sizes of attachments, added to those before them. -/
def attachmentBytes (bytes : Nat) : List SessionFileReference → Except Error Nat
  | [] => .ok bytes
  | attachment :: rest => do
    rejectIf (maxFileBytes < attachment.size)
      (.config ("attachment size must be 1–" ++ toString maxFileBytes ++ " bytes"))
    match checkedAdd bytes attachment.size with
    | none => .error (.config "attachment sizes overflowed")
    | some total => attachmentBytes total rest

/-- `validate_message_attachments`, with `session_file_limits`. -/
def validateMessageAttachments (attachments : List SessionFileReference) : Check := do
  rejectIf (maxAttachmentReferences < attachments.length)
    (.config ("message cannot reference more than " ++ toString maxAttachmentReferences ++
      " attachments"))
  let bytes ← attachmentBytes 0 attachments
  rejectIf (maxSessionBytes < bytes)
    (.config ("message attachments exceed the " ++ toString maxSessionBytes ++
      "-byte session limit"))

variable (isUuid : String → Bool)

/-- The checks of a queued message, run when it is decoded. -/
def queueChecks : ExternalChecks := ⟨isUuid, fun event => some (jsonLength (eventJson event))⟩

def ingressChecks : IngressChecks where
  content := queueChecks isUuid
  attachments := validateMessageAttachments
  serializedLen := fun message => .ok (jsonLength (submissionJson message))
  maxOperationBytes := 256
  maxCapabilityInputBytes := 64 * 1024

/-- `ValidatedSubmission::with_queued_delivery`, on the message. -/
def withQueuedDelivery (message : MessageSubmission) : MessageSubmission :=
  { message with requestedDelivery := some .queue }

def IsSessionId (text : String) : Prop := isBlank text = false ∧ text.utf8ByteSize ≤ 4096

def sourceSessions : MessageSource → List SessionId
  | .session sessionId => [sessionId]
  | .external _ _ => []
  | .call callId => [callId]

def authorSessions : MessageAuthor → List SessionId
  | .user => []
  | .source _ source _ _ _ _ => sourceSessions source

/-- What the types of the source say of an author and a quote. -/
structure Typed (author : MessageAuthor) (reply : Option MessageReply) : Prop where
  sessions : ∀ sessionId ∈ authorSessions author, IsSessionId sessionId
  sequence : ∀ quote ∈ reply, quote.target.checkpointSequence ≤ u64Max
  /-- An item count is a `NonZeroUsize`. -/
  count : ∀ quote ∈ reply, 1 ≤ quote.target.batchItemCount ∧ quote.target.batchItemCount ≤ u64Max

/-- A submitted message, as its type holds it. -/
structure TypedMessage extends MessageSubmission where
  /-- Its values fit their types. -/
  typed : Typed author reply

/-- The id of a turn: the canonical text of a fresh UUID. -/
structure TurnId where
  text : String
  length : text.toList.length = 36
  /-- They are hexadecimal digits and hyphens. -/
  alphabet : ∀ c ∈ text.toList, c ∈ uuidAlphabet

end Ingress

section Sizes

theorem delivery_length (delivery : MessageDelivery) :
    jsonLength (.str (deliveryText delivery)) ≤ 7 := by
  cases delivery <;> decide

theorem requested_length (requested : Option ActiveMessageDelivery) :
    4 ≤ jsonLength (requestedJson requested) := by
  cases requested with
  | none => decide
  | some delivery => cases delivery <;> decide

theorem optional_length (text : Option String) : 2 ≤ jsonLength (optionalJson text) := by
  cases text with
  | none => decide
  | some text =>
    simp only [optionalJson, jsonLength, stringLength]
    omega

theorem keys_length :
    stringLength "requested_delivery" = 20 ∧ stringLength "target_turn_id" = 16 ∧
      stringLength "delivery" = 10 ∧ stringLength "message_target" = 16 := by
  decide

theorem event_length (message : MessageSubmission) (boundary : QueuedMessageBoundary) :
    jsonLength (eventJson (submittedEvent message boundary)) ≤
      jsonLength (submissionJson message) := by
  obtain ⟨hrequestedKey, htargetKey, hdeliveryKey, hmessageKey⟩ := keys_length
  have hdelivery := delivery_length boundary.delivery
  have hrequested := requested_length message.requestedDelivery
  have htarget := optional_length message.targetTurnId
  have hnone : jsonLength (optionalTargetJson none) = 4 := rfl
  simp only [eventJson, submissionJson, submittedEvent]
  unfold jsonLength
  simp only [fieldsLength, hrequestedKey, htargetKey, hdeliveryKey, hmessageKey, hnone]
  omega

theorem submittedEvent_withQueued (message : MessageSubmission)
    (boundary : QueuedMessageBoundary) :
    submittedEvent (withQueuedDelivery message) boundary = submittedEvent message boundary := rfl

end Sizes

section RoundTrip

theorem listOf_map {α : Type} {encode : α → Json} {decode : Json → Option α} {values : List α}
    (h : ∀ value ∈ values, decode (encode value) = some value) :
    listOf decode (.arr (values.map encode)) = some values := by
  unfold listOf
  induction values with
  | nil => rfl
  | cons value rest ih =>
    have hvalue := h value List.mem_cons_self
    have hrest := ih fun other hother => h other (List.mem_cons_of_mem value hother)
    simp only at hrest
    simp [hvalue, hrest]

theorem natOf_number {value : Nat} (h : value ≤ u64Max) : natOf (.number value) = some value := by
  have hrange : (0 : Int) ≤ value ∧ (value : Int) ≤ (u64Max : Int) := by omega
  simp [natOf, hrange]

theorem optionOf_string (text : Option String) :
    optionOf Json.asStr (some (optionalJson text)) = some text := by
  cases text with
  | none | some text => rfl

theorem listOf_strings (texts : List String) :
    listOf Json.asStr (.arr (texts.map .str)) = some texts :=
  listOf_map fun _ _ => rfl

theorem sessionIdOf_valid {text : String} (h : IsSessionId text) :
    sessionIdOf text = some text := by
  have hlimit := h.2
  simp [sessionIdOf, h.1, hlimit]

theorem sourceOf_json {source : MessageSource}
    (h : ∀ sessionId ∈ sourceSessions source, IsSessionId sessionId) :
    sourceOf (sourceJson source) = some source := by
  cases source with
  | session sessionId =>
    have hid := sessionIdOf_valid (h sessionId List.mem_cons_self)
    simp [sourceOf, sourceJson, tagged, Json.getStr, Json.get, Json.lookup, Json.asStr, onlyFields,
      hid]
  | external sourceId eventId =>
    simp [sourceOf, sourceJson, tagged, Json.getStr, Json.get, Json.lookup, Json.asStr, onlyFields]
  | call callId =>
    have hid := sessionIdOf_valid (h callId List.mem_cons_self)
    simp [sourceOf, sourceJson, tagged, Json.getStr, Json.get, Json.lookup, Json.asStr, onlyFields,
      hid]

theorem authorOf_json {author : MessageAuthor}
    (h : ∀ sessionId ∈ authorSessions author, IsSessionId sessionId) :
    authorOf (authorJson author) = some author := by
  cases author with
  | user => rfl
  | source messageId source causeId ancestry handle symbol =>
    have hsource : sourceOf (sourceJson source) = some source := sourceOf_json h
    have hcause := optionOf_string causeId
    have hancestry := listOf_strings ancestry
    cases symbol with
    | none =>
      have habsent : optionOf Json.asStr none = some none := rfl
      simp [authorOf, authorJson, tagged, Json.getStr, Json.get, Json.lookup, Json.asStr,
        onlyFields, hsource, hcause, hancestry, habsent]
    | some name =>
      have hname : optionOf Json.asStr (some (.str name)) = some (some name) := rfl
      simp [authorOf, authorJson, tagged, Json.getStr, Json.get, Json.lookup, Json.asStr,
        onlyFields, hsource, hcause, hancestry, hname]

theorem referenceOf_json {file : SessionFileReference} (h : file.size ≤ u64Max) :
    referenceOf (referenceJson file) = some file := by
  have hsize := natOf_number h
  simp [referenceOf, referenceJson, Json.getStr, Json.get, Json.lookup, Json.asStr, onlyFields,
    hsize]

theorem targetOf_json {target : MessageTarget} (hsequence : target.checkpointSequence ≤ u64Max)
    (hcount : 1 ≤ target.batchItemCount ∧ target.batchItemCount ≤ u64Max) :
    targetOf (targetJson target) = some target := by
  have hs := natOf_number hsequence
  have hc := natOf_number hcount.2
  have hpositive : target.batchItemCount ≠ 0 := by omega
  have hfirst : (targetJson target).get "checkpoint_sequence" =
      some (.number target.checkpointSequence) := by
    simp [targetJson, Json.get, Json.lookup]
  have hsecond : (targetJson target).get "batch_item_count" =
      some (.number target.batchItemCount) := by
    simp [targetJson, Json.get, Json.lookup]
  unfold targetOf
  rw [hfirst, hsecond]
  simp only [Option.bind_some, hs, hc]
  exact if_neg hpositive

theorem replyOf_json {reply : Option MessageReply}
    (hsequence : ∀ quote ∈ reply, quote.target.checkpointSequence ≤ u64Max)
    (hcount : ∀ quote ∈ reply, 1 ≤ quote.target.batchItemCount ∧
      quote.target.batchItemCount ≤ u64Max) :
    optionOf replyOf (some (replyJson reply)) = some reply := by
  cases reply with
  | none => rfl
  | some quote =>
    have htarget := targetOf_json (hsequence quote rfl) (hcount quote rfl)
    simp [optionOf, replyJson, replyOf, Json.getStr, Json.get, Json.lookup, Json.asStr, onlyFields,
      htarget]

theorem boundaryOf_json (boundary : QueuedMessageBoundary) :
    boundaryOf (boundaryJson boundary) = some boundary := by
  cases boundary with
  | turn => rfl
  | steer turnId =>
    simp [boundaryOf, boundaryJson, tagged, Json.getStr, Json.get, Json.lookup, Json.asStr]
  | queue => rfl

/-- What makes a queued message one that loads again. -/
structure Loadable (checks : ExternalChecks) (queued : QueuedMessage) : Prop where
  valid : validateQueuedMessage checks queued = .ok ()
  typed : Typed queued.author queued.reply
  sizes : ∀ file ∈ queued.attachments, file.size ≤ u64Max

theorem Loadable.reloads {checks : ExternalChecks} {queued : QueuedMessage}
    (h : Loadable checks queued) : queuedOf checks (queuedJson queued) = some queued := by
  have hauthor := authorOf_json h.typed.sessions
  have hreply := replyOf_json h.typed.sequence h.typed.count
  have hfiles : listOf referenceOf (.arr (queued.attachments.map referenceJson)) =
      some queued.attachments :=
    listOf_map fun file hfile => referenceOf_json (h.sizes file hfile)
  have hboundary := boundaryOf_json queued.boundary
  have hdata : queuedDataOf (queuedJson queued) = some queued := by
    simp [queuedDataOf, queuedJson, Json.getStr, Json.get, Json.lookup, Json.asStr, hauthor,
      hreply, hfiles, hboundary]
  simp [queuedOf, hdata, h.valid]

theorem pendingOf_json {checks : ExternalChecks} {queue : List QueuedMessage}
    (h : ∀ queued ∈ queue, Loadable checks queued) :
    pendingOf checks (pendingJson queue) = some queue :=
  listOf_map fun queued hqueued => (h queued hqueued).reloads

end RoundTrip

section Admission

variable {isUuid : String → Bool}

/-- What the checks at ingress say of a message. -/
structure Admitted (isUuid : String → Bool) (id : String) (message : MessageSubmission) : Prop where
  named : isBlank id = false
  idBytes : id.utf8ByteSize ≤ maxIdentifierBytes
  content : validateMessageContent (queueChecks isUuid) message.author message.text
    message.attachments = .ok ()
  attachments : validateMessageAttachments message.attachments = .ok ()
  bytes : jsonLength (submissionJson message) ≤ maxSerializedMessageBytes

theorem validateIdentifier_ok {name value : String} {limit : Nat}
    (h : validateIdentifier name value limit = .ok ()) :
    isBlank value = false ∧ value.utf8ByteSize ≤ limit := by
  obtain ⟨hblank, hbytes⟩ := bind_ok_iff.mp h
  have hlong := rejectIf_ok_iff.mp hbytes
  exact ⟨rejectIf_ok_iff.mp hblank, Nat.not_lt.mp (of_decide_eq_false hlong)⟩

variable {message : MessageSubmission} {id : String}

theorem admitted_of_valid
    (h : validateSubmission (ingressChecks isUuid) ⟨id, .message message⟩ = .ok ()) :
    Admitted isUuid id message := by
  obtain ⟨hid, hmessage⟩ := bind_ok_iff.mp h
  obtain ⟨hnamed, hidBytes⟩ := validateIdentifier_ok hid
  obtain ⟨_, hrest⟩ := bind_ok_iff.mp hmessage
  obtain ⟨_, hrest⟩ := bind_ok_iff.mp hrest
  obtain ⟨hcontent, hrest⟩ := bind_ok_iff.mp hrest
  obtain ⟨hattachments, hrest⟩ := bind_ok_iff.mp hrest
  have hsize := rejectIf_ok_iff.mp hrest
  exact ⟨hnamed, hidBytes, hcontent, hattachments, Nat.not_lt.mp (of_decide_eq_false hsize)⟩

theorem attachmentBytes_sizes {attachments : List SessionFileReference} {bytes total : Nat}
    (h : attachmentBytes bytes attachments = .ok total) :
    ∀ file ∈ attachments, file.size ≤ maxFileBytes := by
  induction attachments generalizing bytes with
  | nil => simp
  | cons attachment rest ih =>
    unfold attachmentBytes at h
    obtain ⟨_, hlimit, hrest⟩ := bind_ok h
    have hsize := of_decide_eq_false (rejectIf_ok_iff.mp hlimit)
    cases hsum : checkedAdd bytes attachment.size with
    | none =>
      rw [hsum] at hrest
      cases hrest
    | some sum =>
      rw [hsum] at hrest
      intro file hfile
      cases List.mem_cons.mp hfile with
      | inl hfirst =>
        rw [hfirst]
        exact Nat.not_lt.mp hsize
      | inr hlater => exact ih hrest file hlater

theorem Admitted.sizes (h : Admitted isUuid id message) :
    ∀ file ∈ message.attachments, file.size ≤ u64Max := by
  obtain ⟨_, hsum⟩ := bind_ok_iff.mp h.attachments
  obtain ⟨total, htotal, _⟩ := bind_ok hsum
  intro file hfile
  have hsize := attachmentBytes_sizes htotal file hfile
  have hlimit : maxFileBytes ≤ u64Max := by decide
  omega

theorem TurnId.named (turn : TurnId) : isBlank turn.text = false := by
  cases htext : turn.text.toList with
  | nil =>
    have hlength := turn.length
    rw [htext] at hlength
    cases hlength
  | cons c rest =>
    have hmem := turn.alphabet c (by rw [htext]; exact List.mem_cons_self)
    unfold isBlank
    rw [htext, List.all_cons, (uuidAlphabet_plain c hmem).2.2.1, Bool.false_and]

theorem TurnId.bytes (turn : TurnId) : turn.text.utf8ByteSize = 36 := by
  have hsizes : turn.text.toList.map Char.utf8Size = List.replicate 36 1 := by
    refine List.eq_replicate_iff.mpr ⟨by rw [List.length_map, turn.length], ?_⟩
    intro size hsize
    obtain ⟨c, hc, rfl⟩ := List.mem_map.mp hsize
    exact (uuidAlphabet_plain c (turn.alphabet c hc)).1
  rw [utf8ByteSize_eq, hsizes]
  rfl

/-- What the loading checks ask of a boundary. -/
def BoundaryValid : QueuedMessageBoundary → Prop
  | .turn => True
  | .steer turnId => isBlank turnId = false ∧ turnId.utf8ByteSize ≤ maxQueuedTurnIdBytes
  | .queue => True

theorem prepareBoundary_valid {settings : MessageSettings} {activeTurn : Option TurnId}
    {boundary : QueuedMessageBoundary}
    (h : prepareBoundary settings (activeTurn.map TurnId.text) message = .ok boundary) :
    BoundaryValid boundary := by
  unfold prepareBoundary at h
  cases activeTurn with
  | none =>
    simp only [Option.map_none] at h
    split at h
    · cases h
    · cases h
      trivial
  | some turn =>
    simp only [Option.map_some] at h
    split at h
    · cases h
    · cases hdelivery : message.requestedDelivery.getD settings.delivery with
      | steer =>
        rw [hdelivery] at h
        cases h
        have hbytes := turn.bytes
        have hlimit : maxQueuedTurnIdBytes = 4096 := rfl
        exact ⟨turn.named, by omega⟩
      | queue =>
        rw [hdelivery] at h
        cases h
        trivial

theorem validateQueuedMessage_ok {checks : ExternalChecks} {queued : QueuedMessage} {size : Nat}
    (howner : isBlank queued.owner = false) (hownerBytes : queued.owner.utf8ByteSize ≤
      maxQueuedOwnerBytes) (hid : isBlank queued.id = false)
    (hidBytes : queued.id.utf8ByteSize ≤ maxQueuedIdBytes)
    (hboundary : BoundaryValid queued.boundary)
    (hcontent : validateMessageContent checks queued.author queued.message queued.attachments =
      .ok ()) (hlen : checks.serializedLen queued.event = some size)
    (hsize : size ≤ maxSerializedMessageBytes) : validateQueuedMessage checks queued = .ok () := by
  unfold validateQueuedMessage
  refine bind_ok_iff.mpr ⟨rejectIf_ok_iff.mpr ?_, ?_⟩
  · rw [howner, Bool.false_or]
    exact decide_eq_false (Nat.not_lt.mpr hownerBytes)
  refine bind_ok_iff.mpr ⟨rejectIf_ok_iff.mpr ?_, ?_⟩
  · rw [hid, Bool.false_or]
    exact decide_eq_false (Nat.not_lt.mpr hidBytes)
  have hlast : validateMessageContent checks queued.author queued.message queued.attachments >>=
      (fun _ => rejectIf ((checks.serializedLen queued.event).all (maxSerializedMessageBytes < ·))
        (.config "queued message is invalid")) = .ok () := by
    refine bind_ok_iff.mpr ⟨hcontent, rejectIf_ok_iff.mpr ?_⟩
    rw [hlen, Option.all_some]
    exact decide_eq_false (Nat.not_lt.mpr hsize)
  cases hsteer : queued.boundary with
  | turn | queue => exact hlast
  | steer turnId =>
    rw [hsteer] at hboundary
    refine bind_ok_iff.mpr ⟨rejectIf_ok_iff.mpr ?_, hlast⟩
    rw [hboundary.1, Bool.false_or]
    exact decide_eq_false (Nat.not_lt.mpr hboundary.2)

theorem validateQueuedMessage_parts {queued : QueuedMessage}
    (h : validateQueuedMessage (queueChecks isUuid) queued = .ok ()) :
    isBlank queued.owner = false ∧ queued.owner.utf8ByteSize ≤ maxQueuedOwnerBytes ∧
      isBlank queued.id = false ∧ queued.id.utf8ByteSize ≤ maxQueuedIdBytes ∧
      validateMessageContent (queueChecks isUuid) queued.author queued.message queued.attachments =
        .ok () ∧ jsonLength (eventJson queued.event) ≤ maxSerializedMessageBytes := by
  unfold validateQueuedMessage at h
  obtain ⟨howner, h⟩ := bind_ok_iff.mp h
  obtain ⟨hid, h⟩ := bind_ok_iff.mp h
  obtain ⟨howner, hownerBytes⟩ := Bool.or_eq_false_iff.mp (rejectIf_ok_iff.mp howner)
  obtain ⟨hid, hidBytes⟩ := Bool.or_eq_false_iff.mp (rejectIf_ok_iff.mp hid)
  have hlast : validateMessageContent (queueChecks isUuid) queued.author queued.message
      queued.attachments = .ok () ∧ jsonLength (eventJson queued.event) ≤
        maxSerializedMessageBytes := by
    have hrest : validateMessageContent (queueChecks isUuid) queued.author queued.message
        queued.attachments >>= (fun _ => rejectIf
          (((queueChecks isUuid).serializedLen queued.event).all (maxSerializedMessageBytes < ·))
          (.config "queued message is invalid")) = .ok () := by
      cases hsteer : queued.boundary with
      | turn | queue =>
        rw [hsteer] at h
        exact h
      | steer turnId =>
        rw [hsteer] at h
        exact (bind_ok_iff.mp h).2
    obtain ⟨hcontent, hsize⟩ := bind_ok_iff.mp hrest
    have hlong := rejectIf_ok_iff.mp hsize
    exact ⟨hcontent, Nat.not_lt.mp (of_decide_eq_false hlong)⟩
  exact ⟨howner, Nat.not_lt.mp (of_decide_eq_false hownerBytes), hid,
    Nat.not_lt.mp (of_decide_eq_false hidBytes), hlast.1, hlast.2⟩

theorem Admitted.loadable (h : Admitted isUuid id message)
    (htyped : Typed message.author message.reply) {boundary : QueuedMessageBoundary}
    (hboundary : BoundaryValid boundary) :
    Loadable (queueChecks isUuid) ⟨messagesOwner, id, boundary, message.author, message.text,
      message.attachments, message.reply⟩ := by
  refine ⟨?_, htyped, h.sizes⟩
  have howner : isBlank messagesOwner = false ∧ messagesOwner.utf8ByteSize ≤
      maxQueuedOwnerBytes := by
    decide
  have hlength := event_length message boundary
  exact validateQueuedMessage_ok howner.1 howner.2 h.named h.idBytes hboundary h.content rfl
    (Nat.le_trans hlength h.bytes)

end Admission

section Queue

variable {isUuid : String → Bool}

/-- One change of the durable queue of a session. -/
inductive QueueStep (isUuid : String → Bool) : List QueuedMessage → List QueuedMessage → Prop where
  /-- A submission accepted at ingress is routed, perhaps with queued delivery. -/
  | submit {queue next : List QueuedMessage} {settings : MessageSettings}
      {widget : String → MessageEvent → Json} {id : String} {message : TypedMessage}
      {delivered : MessageSubmission} {activeTurn : Option TurnId} {result : SubmissionResult}
      {events : List EventMsg}
      (valid : validateSubmission (ingressChecks isUuid)
        ⟨id, .message message.toMessageSubmission⟩ = .ok ())
      (delivery : delivered = message.toMessageSubmission ∨
        delivered = withQueuedDelivery message.toMessageSubmission)
      (routed : enqueue settings widget queue id (activeTurn.map TurnId.text) delivered =
        .ok (result, next, events)) : QueueStep isUuid queue next
  | edit {queue next : List QueuedMessage} {widget : String → MessageEvent → Json}
      {id arguments : String} {input : Option String} {result : SubmissionResult}
      {events : List EventMsg}
      (edited : edit (queueChecks isUuid) widget queue id arguments input =
        .ok (result, next, events)) : QueueStep isUuid queue next
  /-- Messages leave the queue for a model boundary or a new turn. -/
  | leave {queue next : List QueuedMessage} (left : next.Sublist queue) :
      QueueStep isUuid queue next
  /-- The messages that steered a turn wait for a later one. -/
  | promote {queue : List QueuedMessage} (turnId : String) :
      QueueStep isUuid queue (promoteFailedTurn queue turnId)

/-- What holds of the durable queue. -/
structure QueueSound (isUuid : String → Bool) (queue : List QueuedMessage) : Prop where
  loadable : ∀ queued ∈ queue, Loadable (queueChecks isUuid) queued
  short : queue.length ≤ maxQueuedMessages
  distinct : (queue.map fun queued => (queued.owner, queued.id)).Nodup

variable {events : List EventMsg} {result : SubmissionResult} {id : String}
  {queue next : List QueuedMessage} {widget : String → MessageEvent → Json}

theorem enqueue_result {settings : MessageSettings} {activeTurnId : Option String}
    {message : MessageSubmission}
    (h : enqueue settings widget queue id activeTurnId message = .ok (result, next, events)) :
    next = queue ∨ ∃ inputChanged, result = .accepted inputChanged := by
  unfold enqueue at h
  split at h
  · cases h
    exact .inl rfl
  split at h
  · cases h
    exact .inl rfl
  dsimp only at h
  split at h
  · cases h
  split at h
  · cases h
    exact .inl rfl
  · cases h
    exact .inr ⟨_, rfl⟩

theorem edit_result {checks : ExternalChecks} {arguments : String} {input : Option String}
    (h : edit checks widget queue id arguments input = .ok (result, next, events)) :
    next = queue ∨ ∃ inputChanged, result = .accepted inputChanged := by
  unfold edit at h
  split at h
  · cases h
    exact .inl rfl
  split at h
  · cases h
    exact .inl rfl
  split at h
  · cases h
    exact .inl rfl
  dsimp only at h
  split at h
  · cases h
  · cases h
    exact .inl rfl
  · cases h
    exact .inr ⟨_, rfl⟩

theorem QueueSound.push {item : QueuedMessage} (h : QueueSound isUuid queue)
    (hitem : Loadable (queueChecks isUuid) item) (hpush : push queue item = some next) :
    QueueSound isUuid next := by
  obtain ⟨hnext, hroom, hother⟩ := push_eq_some hpush
  rw [hnext]
  constructor
  · intro queued hqueued
    cases List.mem_append.mp hqueued with
    | inl hold => exact h.loadable queued hold
    | inr hnew =>
      rw [List.mem_singleton.mp hnew]
      exact hitem
  · rw [List.length_append, List.length_singleton]
    omega
  · rw [List.map_append, List.map_singleton]
    refine List.Nodup.append h.distinct (List.nodup_singleton _) ?_
    intro key hkey hlast
    obtain ⟨other, hmem, hsame⟩ := List.mem_map.mp hkey
    rw [List.mem_singleton.mp hlast] at hsame
    exact hother other hmem hsame

theorem QueueSound.submit {settings : MessageSettings} {message delivered : MessageSubmission}
    {activeTurn : Option TurnId} (h : QueueSound isUuid queue)
    (hadmitted : Admitted isUuid id message) (htyped : Typed message.author message.reply)
    (hdelivered : delivered = message ∨ delivered = withQueuedDelivery message)
    (hrouted : enqueue settings widget queue id (activeTurn.map TurnId.text) delivered =
      .ok (result, next, events)) : QueueSound isUuid next := by
  cases enqueue_result hrouted with
  | inl hsame =>
    rw [hsame]
    exact h
  | inr haccepted =>
    obtain ⟨inputChanged, hresult⟩ := haccepted
    rw [hresult] at hrouted
    obtain ⟨boundary, hboundary, hpush⟩ := enqueue_accepted hrouted
    have hitem := hadmitted.loadable htyped (prepareBoundary_valid hboundary)
    have hfields : delivered.author = message.author ∧ delivered.text = message.text ∧
        delivered.attachments = message.attachments ∧ delivered.reply = message.reply := by
      cases hdelivered with
      | inl hplain =>
        rw [hplain]
        exact ⟨rfl, rfl, rfl, rfl⟩
      | inr hqueued =>
        rw [hqueued]
        exact ⟨rfl, rfl, rfl, rfl⟩
    obtain ⟨hauthor, htext, hattachments, hreply⟩ := hfields
    rw [hauthor, htext, hattachments, hreply] at hpush
    exact h.push hitem hpush

theorem QueueSound.edit {arguments : String} {input : Option String} (h : QueueSound isUuid queue)
    (hedit : MessageQueue.edit (queueChecks isUuid) widget queue id arguments input =
      .ok (result, next, events)) : QueueSound isUuid next := by
  cases edit_result hedit with
  | inl hsame =>
    rw [hsame]
    exact h
  | inr haccepted =>
    obtain ⟨inputChanged, hresult⟩ := haccepted
    rw [hresult] at hedit
    obtain ⟨index, queued, text, hqueued, hold, _, _, _, hother, hvalid, _, hnext⟩ :=
      edit_accepted hedit
    obtain ⟨hlt, hget⟩ := List.getElem?_eq_some_iff.mp hqueued
    have hsource := h.loadable queued (List.mem_of_getElem? hqueued)
    have hitem : Loadable (queueChecks isUuid) (editedMessage queued id text) := by
      refine ⟨hvalid, ⟨?_, hsource.typed.sequence, hsource.typed.count⟩, hsource.sizes⟩
      intro sessionId hmem
      cases hmem
    rw [hnext]
    constructor
    · intro other hmem
      cases List.mem_or_eq_of_mem_set hmem with
      | inl hkept => exact h.loadable other hkept
      | inr hnew =>
        rw [hnew]
        exact hitem
    · rw [List.length_set]
      exact h.short
    · rw [List.map_set]
      refine ((List.set_perm_cons_eraseIdx (by rwa [List.length_map]) _).nodup_iff).mpr
        (List.nodup_cons.mpr ⟨?_, h.distinct.sublist (List.eraseIdx_sublist _ _)⟩)
      intro hmem
      rw [List.eraseIdx_map] at hmem
      obtain ⟨other, hkept, hsame⟩ := List.mem_map.mp hmem
      have hfree := hother other hkept
      have howned : queued.owner = messagesOwner := by
        simp only [hasId, Bool.and_eq_true, beq_iff_eq] at hold
        exact hold.1
      have hsameOwner : other.owner = messagesOwner := (Prod.mk.inj hsame).1.trans howned
      have hsameId : other.id = id := (Prod.mk.inj hsame).2
      simp [hasId, hsameOwner, hsameId] at hfree

theorem Loadable.promote {queued : QueuedMessage} (h : Loadable (queueChecks isUuid) queued)
    (turnId : String) : Loadable (queueChecks isUuid) (promote turnId queued) := by
  unfold MessageQueue.promote
  by_cases hsteers : steers turnId queued = true
  · rw [if_pos hsteers]
    simp only [steers, Bool.and_eq_true, decide_eq_true_eq] at hsteers
    obtain ⟨howner, hownerBytes, hid, hidBytes, hcontent, hsize⟩ :=
      validateQueuedMessage_parts h.valid
    have hlength : jsonLength (eventJson (QueuedMessage.event { queued with boundary := .queue })) =
        jsonLength (eventJson queued.event) := by
      have hdelivery : jsonLength (.str (deliveryText .queue)) =
          jsonLength (.str (deliveryText .steer)) := rfl
      have hboundary : queued.boundary.delivery = .steer := by
        rw [hsteers.2]
        rfl
      have hqueue : QueuedMessageBoundary.delivery .queue = .queue := rfl
      simp only [eventJson, QueuedMessage.event, hboundary, hqueue]
      unfold jsonLength
      simp only [fieldsLength, hdelivery]
    refine ⟨validateQueuedMessage_ok howner hownerBytes hid hidBytes trivial hcontent rfl ?_,
      h.typed, h.sizes⟩
    rw [hlength]
    exact hsize
  · rw [if_neg hsteers]
    exact h

theorem promote_key (turnId : String) (queued : QueuedMessage) :
    ((promote turnId queued).owner, (promote turnId queued).id) = (queued.owner, queued.id) := by
  unfold promote
  split <;> rfl

theorem QueueSound.step {queue next : List QueuedMessage} (h : QueueSound isUuid queue)
    (hstep : QueueStep isUuid queue next) : QueueSound isUuid next := by
  cases hstep with
  | submit valid delivery routed =>
    rename_i message _ _ _ _
    exact h.submit (admitted_of_valid valid) message.typed delivery routed
  | edit edited => exact h.edit edited
  | leave left =>
    constructor
    · intro queued hqueued
      exact h.loadable queued (left.subset hqueued)
    · exact Nat.le_trans left.length_le h.short
    · exact h.distinct.sublist (left.map _)
  | promote turnId =>
    have hkeys : (promoteFailedTurn queue turnId).map (fun queued => (queued.owner, queued.id)) =
        queue.map fun queued => (queued.owner, queued.id) := by
      unfold promoteFailedTurn
      rw [List.map_map]
      exact List.map_congr_left fun queued _ => promote_key turnId queued
    constructor
    · intro queued hqueued
      obtain ⟨old, hold, rfl⟩ := List.mem_map.mp hqueued
      exact (h.loadable old hold).promote turnId
    · unfold promoteFailedTurn
      rw [List.length_map]
      exact h.short
    · rw [hkeys]
      exact h.distinct

/-- A queue of a session, reached from the empty one. -/
def Reached (isUuid : String → Bool) (queue : List QueuedMessage) : Prop :=
  Relation.ReflTransGen (QueueStep isUuid) [] queue

theorem Reached.sound (h : Reached isUuid queue) : QueueSound isUuid queue := by
  induction h with
  | refl => exact ⟨by simp, Nat.zero_le _, List.nodup_nil⟩
  | tail _ hstep ih => exact ih.step hstep

theorem QueueSound.checkpoint (h : QueueSound isUuid queue) {header : CheckpointHeader}
    (hvalid : validateCheckpoint { header with pendingMessages := [] } = .ok ()) :
    validateCheckpoint { header with pendingMessages := queue } = .ok () := by
  unfold validateCheckpoint at hvalid ⊢
  obtain ⟨hversion, hvalid⟩ := bind_ok_iff.mp hvalid
  obtain ⟨hactive, hvalid⟩ := bind_ok_iff.mp hvalid
  obtain ⟨happroval, hvalid⟩ := bind_ok_iff.mp hvalid
  obtain ⟨hcontext, hvalid⟩ := bind_ok_iff.mp hvalid
  obtain ⟨hstep, _⟩ := bind_ok_iff.mp hvalid
  refine bind_ok_iff.mpr ⟨hversion, bind_ok_iff.mpr ⟨hactive,
    bind_ok_iff.mpr ⟨happroval, bind_ok_iff.mpr ⟨hcontext,
      bind_ok_iff.mpr ⟨hstep, ?_⟩⟩⟩⟩⟩
  refine bind_ok_iff.mpr ⟨rejectIf_ok_iff.mpr ?_, ?_⟩
  · exact decide_eq_false (Nat.not_lt.mpr h.short)
  · refine (validateQueueIds_ok_iff _ _).mpr ⟨h.distinct, ?_⟩
    intro queued _ hmem
    cases hmem

def fromValidated (owner id : String) (boundary : QueuedMessageBoundary) (event : MessageEvent) :
    Except Error QueuedMessage := assemble owner id boundary event

/-- A message accepted at ingress, at any boundary chosen for it and with any later
queued delivery, passes the checks on loading; every queue a session reaches
decodes to itself and passes those of the checkpoint; and no event is longer
than its submission. -/
theorem accepted_message_reloads {settings : MessageSettings} {id : String}
    {message : TypedMessage} {delivered : MessageSubmission} {activeTurn : Option TurnId}
    {boundary : QueuedMessageBoundary}
    (hvalid : validateSubmission (ingressChecks isUuid)
      ⟨id, .message message.toMessageSubmission⟩ = .ok ())
    (hdelivered : delivered = message.toMessageSubmission ∨
      delivered = withQueuedDelivery message.toMessageSubmission)
    (hboundary : prepareBoundary settings (activeTurn.map TurnId.text) delivered = .ok boundary) :
    (∃ queued, fromValidated messagesOwner id boundary (submittedEvent delivered boundary) =
        .ok queued ∧ validateQueuedMessage (queueChecks isUuid) queued = .ok () ∧
      queuedOf (queueChecks isUuid) (queuedJson queued) = some queued) ∧
    (∀ queue, Reached isUuid queue →
      pendingOf (queueChecks isUuid) (pendingJson queue) = some queue ∧
      ∀ header : CheckpointHeader, validateCheckpoint { header with pendingMessages := [] } = .ok () →
        validateCheckpoint { header with pendingMessages := queue } = .ok ()) ∧
    jsonLength (eventJson (submittedEvent delivered boundary)) ≤
      jsonLength (submissionJson message.toMessageSubmission) := by
  have hadmitted := admitted_of_valid hvalid
  have hevent : submittedEvent delivered boundary =
      submittedEvent message.toMessageSubmission boundary := by
    cases hdelivered with
    | inl hplain => rw [hplain]
    | inr hqueued => rw [hqueued, submittedEvent_withQueued]
  have hloadable := hadmitted.loadable message.typed (prepareBoundary_valid hboundary)
  rw [hevent]
  refine ⟨⟨_, ?_, hloadable.valid, hloadable.reloads⟩, ?_, event_length _ _⟩
  · simp [fromValidated, assemble, submittedEvent]
  · intro queue hqueue
    have hsound := hqueue.sound
    exact ⟨pendingOf_json hsound.loadable, fun header hheader => hsound.checkpoint hheader⟩

def sampleTurn : TurnId where
  text := "00000000-0000-4000-8000-000000000001"
  length := by decide
  alphabet := by
    have hall : ("00000000-0000-4000-8000-000000000001".toList.all fun c =>
        uuidAlphabet.contains c) = true := by rfl
    intro c hc
    exact List.contains_iff_mem.mp (List.all_eq_true.mp hall c hc)

/-- A message of a peer session, with an escaped character and a quote. -/
def sampleMessage : TypedMessage where
  author := .source "m-1" (.session "s-2") (some "e-1") ["e-1"] "peer" none
  text := "first\nsecond"
  attachments := []
  reply := some ⟨⟨7, 1⟩, "earlier"⟩
  requestedDelivery := none
  targetTurnId := none
  typed := by
    constructor
    · intro sessionId hmem
      rw [List.mem_singleton.mp hmem]
      exact ⟨rfl, by decide⟩
    · intro quote hquote
      cases hquote
      decide
    · intro quote hquote
      cases hquote
      decide

theorem sampleMessage_valid : validateSubmission (ingressChecks fun _ => false)
    ⟨"sub-1", .message sampleMessage.toMessageSubmission⟩ = .ok () := by
  decide +kernel

/-- The sample steers an active turn. -/
theorem accepted_message_reloads_steering :
    (∃ queued, fromValidated messagesOwner "sub-1" (.steer sampleTurn.text)
        (submittedEvent sampleMessage.toMessageSubmission (.steer sampleTurn.text)) =
        .ok queued ∧ validateQueuedMessage (queueChecks fun _ => false) queued = .ok () ∧
      queuedOf (queueChecks fun _ => false) (queuedJson queued) = some queued) ∧
    (∀ queue, Reached (fun _ => false) queue →
      pendingOf (queueChecks fun _ => false) (pendingJson queue) = some queue ∧
      ∀ header : CheckpointHeader, validateCheckpoint { header with pendingMessages := [] } = .ok () →
        validateCheckpoint { header with pendingMessages := queue } = .ok ()) ∧
    jsonLength (eventJson (submittedEvent sampleMessage.toMessageSubmission
        (.steer sampleTurn.text))) ≤
      jsonLength (submissionJson sampleMessage.toMessageSubmission) :=
  @accepted_message_reloads (fun _ => false) ⟨8, .steer⟩ "sub-1" sampleMessage _ (some sampleTurn)
    _ sampleMessage_valid (.inl rfl) rfl

end Queue

end MobiusAgent.MessageReload
