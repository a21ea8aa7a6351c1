import Mathlib.Data.List.DropRight
import MobiusAgent.CheckpointValidation
import MobiusAgent.ContextItems

/-!
# The queue of conversation messages

The queue operations of `middleware/context.rs` and the admission and edit
of `middleware/messages.rs`. The queue is the list of pending messages,
always scoped to the one middleware that handles messages. Each operation is
followed by the fact its callers use.
-/

namespace MobiusAgent.MessageQueue

open JsonValue ProtocolEvents CheckpointRecords CheckpointValidation ContextItems

/-- The middleware that handles messages. -/
def messagesOwner : String := "messages"

/-- One submitted conversation message. -/
structure MessageSubmission where
  author : MessageAuthor
  text : String
  attachments : List SessionFileReference
  reply : Option MessageReply
  requestedDelivery : Option ActiveMessageDelivery
  /-- The turn the message is meant for. -/
  targetTurnId : Option String

/-- What a middleware makes of one submission. -/
inductive SubmissionResult where
  | accepted (inputChanged : Bool)
  | handled
  | rejected (message : String)

structure MessageSettings where
  /-- The bound on waiting messages. -/
  maxPending : Nat
  /-- The delivery of a message that requests none. -/
  delivery : ActiveMessageDelivery

/-- One queued message prepared for its model boundary. -/
structure PreparedMessage where
  submissionId : String
  input : Json
  event : MessageEvent
  /-- The title it gives to an untitled session. -/
  titleSeed : Option String
  /-- The events that leave the queue with it. -/
  boundaryEvents : List EventMsg

/-- `trim` of a string. -/
def trim (text : String) : String :=
  String.ofList ((text.toList.dropWhile isWhitespace).reverse.dropWhile isWhitespace).reverse

theorem dropWhile_of_front {text rest : List Char}
    (h : (text ++ rest).dropWhile isWhitespace = text ++ rest) :
    text.dropWhile isWhitespace = text := by
  cases text with
  | nil => rfl
  | cons c tail =>
    rw [List.cons_append, List.dropWhile_cons] at h
    rw [List.dropWhile_cons]
    split at h
    · have hlength := (List.dropWhile_sublist (l := tail ++ rest) isWhitespace).length_le
      rw [h, List.length_cons] at hlength
      omega
    · rename_i hblank
      rw [if_neg hblank]

theorem trim_trim (text : String) : trim (trim text) = trim text := by
  unfold trim
  rw [String.toList_ofList]
  have hidle : (text.toList.dropWhile isWhitespace).dropWhile isWhitespace =
      text.toList.dropWhile isWhitespace :=
    List.dropWhile_idempotent _ _
  generalize text.toList.dropWhile isWhitespace = front at hidle ⊢
  have hback : (front.reverse.dropWhile isWhitespace).reverse <+: front := by
    have hsuffix := List.reverse_prefix.mpr (List.dropWhile_suffix (l := front.reverse) isWhitespace)
    rw [List.reverse_reverse] at hsuffix
    exact hsuffix
  obtain ⟨rest, hrest⟩ := hback
  have hfront : ((front.reverse.dropWhile isWhitespace).reverse).dropWhile isWhitespace =
      (front.reverse.dropWhile isWhitespace).reverse := by
    refine @dropWhile_of_front _ rest ?_
    rw [hrest]
    exact hidle
  rw [hfront, List.reverse_reverse, List.dropWhile_idempotent]

/-- `Messages::remove_widget`, as the event of a message that leaves the queue. -/
def removeWidget (id : String) : EventMsg := .frontend (.removeWidget messagesOwner id)

/-- `Messages::queued_widget`; its payload is read by no modelled function. -/
def queuedWidget (widget : String → MessageEvent → Json) (id : String) (event : MessageEvent) :
    EventMsg :=
  .frontend (.widget (widget id event))

/-- `PreparedMessage::new`, with the boundary events of the handler. -/
def prepareMessage (encoding : Encoding) (queued : QueuedMessage) : PreparedMessage where
  submissionId := queued.id
  input := messageInput encoding queued.event
  event := queued.event
  titleSeed :=
    let title := trim queued.message
    if title.isEmpty then none else some title
  boundaryEvents := [removeWidget queued.id]

def assemble (owner id : String) (boundary : QueuedMessageBoundary) (event : MessageEvent) :
    Except Error QueuedMessage :=
  if event.delivery ≠ boundary.delivery ∨ event.messageTarget.isSome then
    .error (.config "queued message event is inconsistent")
  else .ok ⟨owner, id, boundary, event.author, event.text, event.attachments, event.reply⟩

/-- `MessageQueue::push`: the longer queue, or `none` when it is full or has the id. -/
def push (queue : List QueuedMessage) (item : QueuedMessage) : Option (List QueuedMessage) :=
  if maxQueuedMessages ≤ queue.length ∨
      (queue.any fun other => other.owner == item.owner && other.id == item.id) then none
  else some (queue ++ [item])

def steers (turnId : String) (queued : QueuedMessage) : Bool :=
  queued.owner == messagesOwner && decide (queued.boundary = .steer turnId)

def messagesReady (queue : List QueuedMessage) (turnId : String) : Bool :=
  queue.any (steers turnId)

/-- `stage_model_messages`: the messages that steer the turn, and the queue without them. -/
def stageModelMessages (queue : List QueuedMessage) (turnId : String) :
    List QueuedMessage × List QueuedMessage :=
  (queue.filter (steers turnId), queue.filter fun queued => !steers turnId queued)

def startsTurn (queued : QueuedMessage) : Bool :=
  queued.owner == messagesOwner && queued.boundary.startsTurn

/-- `consume_next_turn`: the place and the message, and the queue without it. -/
def consumeNextTurn (queue : List QueuedMessage) (id : String) :
    Except Error (Nat × QueuedMessage × List QueuedMessage) :=
  match queue.findIdx? fun queued => startsTurn queued && queued.id == id with
  | none => .error (.checkpoint "prepared message is no longer queued")
  | some index =>
    match queue[index]? with
    | none => .error (.checkpoint "prepared message is no longer queued")
    | some queued => .ok (index, queued, queue.eraseIdx index)

variable {id : String} {queue longer : List QueuedMessage} {events : List EventMsg}
  {widget : String → MessageEvent → Json}

theorem consumeNextTurn_ok {rest : List QueuedMessage} {index : Nat} {queued : QueuedMessage}
    (h : consumeNextTurn queue id = .ok (index, queued, rest)) :
    queue[index]? = some queued ∧ rest = queue.eraseIdx index ∧ startsTurn queued = true ∧
      queued.id = id := by
  unfold consumeNextTurn at h
  cases hfound : queue.findIdx? fun queued => startsTurn queued && queued.id == id with
  | none =>
    rw [hfound] at h
    cases h
  | some found =>
    rw [hfound] at h
    dsimp only at h
    cases hqueued : queue[found]? with
    | none =>
      rw [hqueued] at h
      cases h
    | some other =>
      rw [hqueued] at h
      cases h
      obtain ⟨hlt, hstarts, _⟩ := List.findIdx?_eq_some_iff_getElem.mp hfound
      obtain ⟨_, hget⟩ := List.getElem?_eq_some_iff.mp hqueued
      rw [hget, Bool.and_eq_true, beq_iff_eq] at hstarts
      exact ⟨hqueued, rfl, hstarts⟩

theorem insertIdx_eraseIdx_self {index : Nat} {queued : QueuedMessage}
    (h : queue[index]? = some queued) : (queue.eraseIdx index).insertIdx index queued = queue := by
  induction queue generalizing index with
  | nil => cases h
  | cons first rest ih =>
    cases index with
    | zero =>
      obtain rfl := Option.some.inj h
      rfl
    | succ index => simpa using ih h

/-- A message that steered a turn, waiting for a later one. -/
def promote (turnId : String) (queued : QueuedMessage) : QueuedMessage :=
  if steers turnId queued then { queued with boundary := .queue } else queued

def promoteFailedTurn (queue : List QueuedMessage) (turnId : String) : List QueuedMessage :=
  queue.map (promote turnId)

def finishMessageTurn (queue : List QueuedMessage) (turnId : String)
    (outcome : ExecutionOutcome) : List QueuedMessage :=
  if outcome = .completed then queue else promoteFailedTurn queue turnId

/-- `QueuedMessage::replace`: the message under another id with another event. -/
def replaceMessage (checks : ExternalChecks) (queued : QueuedMessage) (id : String)
    (event : MessageEvent) : Except Error QueuedMessage := do
  let replacement ← assemble queued.owner id queued.boundary event
  validateQueuedMessage checks replacement
  pure replacement

/-- Whether a message of the handler has this id. -/
def hasId (id : String) (queued : QueuedMessage) : Bool :=
  queued.owner == messagesOwner && queued.id == id

/-- `MessageQueue::replace`: the queue with one message replaced at its place, or
`none` when it is not there or the new id belongs to another message. -/
def replace (checks : ExternalChecks) (queue : List QueuedMessage) (id replacementId : String)
    (event : MessageEvent) : Except Error (Option (List QueuedMessage)) :=
  match queue.findIdx? (hasId id) with
  | none => .ok none
  | some index =>
    if (queue.eraseIdx index).any (hasId replacementId) then .ok none
    else match queue[index]? with
      | none => .ok none
      | some queued =>
        match replaceMessage checks queued replacementId event with
        | .error error => .error error
        | .ok replacement => .ok (some (queue.set index replacement))

/-- `Messages::prepare`: the boundary of a submitted message, or why it has none. -/
def prepareBoundary (settings : MessageSettings) (activeTurnId : Option String)
    (message : MessageSubmission) : Except String QueuedMessageBoundary :=
  match activeTurnId with
  | none =>
    if message.targetTurnId.isSome then .error "message targeted a stale turn" else .ok .turn
  | some turnId =>
    if message.targetTurnId.any (· != turnId) then .error "message targeted a stale turn"
    else match message.requestedDelivery.getD settings.delivery with
      | .steer => .ok (.steer turnId)
      | .queue => .ok .queue

def submittedEvent (message : MessageSubmission) (boundary : QueuedMessageBoundary) :
    MessageEvent :=
  ⟨message.author, boundary.delivery, message.text, message.attachments, message.reply, none⟩

/-- `Messages::enqueue`: the result, the queue and the events of one admission. -/
def enqueue (settings : MessageSettings) (widget : String → MessageEvent → Json)
    (queue : List QueuedMessage) (id : String) (activeTurnId : Option String)
    (message : MessageSubmission) :
    Except Error (SubmissionResult × List QueuedMessage × List EventMsg) :=
  match prepareBoundary settings activeTurnId message with
  | .error reason => .ok (.rejected reason, queue, [])
  | .ok boundary =>
    if settings.maxPending ≤ (queue.filter fun queued => queued.owner == messagesOwner).length then
      .ok (.rejected "message queue is full", queue, [])
    else
      let event := submittedEvent message boundary
      match assemble messagesOwner id boundary event with
      | .error error => .error error
      | .ok item =>
        match push queue item with
        | none => .ok (.rejected "message could not be queued", queue, [])
        | some longer =>
          let events := if boundary = .turn then [] else [queuedWidget widget id event]
          .ok (.accepted (boundary.delivery = .steer), longer, events)

def editedEvent (queued : QueuedMessage) (input : String) : MessageEvent :=
  ⟨.user, queued.boundary.delivery, input, queued.attachments, queued.reply, none⟩

/-- `Messages::edit`: the result, the queue and the events of one edit. -/
def edit (checks : ExternalChecks) (widget : String → MessageEvent → Json)
    (queue : List QueuedMessage) (id arguments : String) (input : Option String) :
    Except Error (SubmissionResult × List QueuedMessage × List EventMsg) :=
  match input.filter fun text => !isBlank text with
  | none => .ok (.rejected "message edit requires non-empty text", queue, [])
  | some text =>
    match queue.find? (hasId arguments) with
    | none => .ok (.rejected "message is no longer queued", queue, [])
    | some queued =>
      if queued.author ≠ .user then .ok (.rejected "peer messages cannot be edited", queue, [])
      else
        let event := editedEvent queued text
        match replace checks queue arguments id event with
        | .error error => .error error
        | .ok none => .ok (.rejected "message is no longer queued", queue, [])
        | .ok (some replaced) =>
          .ok (.accepted (event.delivery = .steer), replaced,
            [removeWidget arguments, queuedWidget widget id event])

theorem enqueue_accepted {settings : MessageSettings} {activeTurnId : Option String}
    {message : MessageSubmission} {inputChanged : Bool}
    (h : enqueue settings widget queue id activeTurnId message =
      .ok (.accepted inputChanged, longer, events)) :
    ∃ boundary, prepareBoundary settings activeTurnId message = .ok boundary ∧
      push queue ⟨messagesOwner, id, boundary, message.author, message.text, message.attachments,
        message.reply⟩ = some longer := by
  unfold enqueue at h
  cases hboundary : prepareBoundary settings activeTurnId message with
  | error reason =>
    rw [hboundary] at h
    cases h
  | ok boundary =>
    rw [hboundary] at h
    dsimp only at h
    split at h
    · cases h
    have hassemble : assemble messagesOwner id boundary (submittedEvent message boundary) =
        .ok ⟨messagesOwner, id, boundary, message.author, message.text, message.attachments,
          message.reply⟩ := by
      simp [assemble, submittedEvent]
    rw [hassemble] at h
    dsimp only at h
    cases hpush : push queue ⟨messagesOwner, id, boundary, message.author, message.text,
        message.attachments, message.reply⟩ with
    | none =>
      rw [hpush] at h
      cases h
    | some pushed =>
      rw [hpush] at h
      simp only [Except.ok.injEq, Prod.mk.injEq] at h
      exact ⟨boundary, rfl, by rw [hpush, h.2.1]⟩

theorem push_eq_some {item : QueuedMessage} (h : push queue item = some longer) :
    longer = queue ++ [item] ∧
      queue.length < maxQueuedMessages ∧
      ∀ other ∈ queue, (other.owner, other.id) ≠ (item.owner, item.id) := by
  unfold push at h
  split at h
  · cases h
  · rename_i hroom
    obtain ⟨hlength, hany⟩ := not_or.mp hroom
    refine ⟨(Option.some.inj h).symm, by omega, ?_⟩
    intro other hother hsame
    refine hany (List.any_eq_true.mpr ⟨other, hother, ?_⟩)
    obtain ⟨howner, hid⟩ := Prod.mk.inj hsame
    simp [howner, hid]

/-- A message of the user with another text under another name. -/
def editedMessage (queued : QueuedMessage) (id text : String) : QueuedMessage :=
  ⟨queued.owner, id, queued.boundary, .user, text, queued.attachments, queued.reply⟩

theorem replaceMessage_edited (checks : ExternalChecks) (queued : QueuedMessage)
    (id text : String) : replaceMessage checks queued id (editedEvent queued text) =
      (validateQueuedMessage checks (editedMessage queued id text)).map
        fun _ => editedMessage queued id text := by
  have hassemble : assemble queued.owner id queued.boundary (editedEvent queued text) =
      .ok (editedMessage queued id text) := by
    simp [assemble, editedEvent, editedMessage]
  unfold replaceMessage
  rw [hassemble]
  change (validateQueuedMessage checks (editedMessage queued id text)).bind _ = _
  cases validateQueuedMessage checks (editedMessage queued id text) <;> rfl

theorem find_at {index : Nat} {found : QueuedMessage} {id : String}
    (hindex : queue.findIdx? (hasId id) = some index) (hfound : queue.find? (hasId id) = some found) :
    queue[index]? = some found := by
  obtain ⟨hlt, hhas, hbefore⟩ := List.findIdx?_eq_some_iff_getElem.mp hindex
  obtain ⟨hmatch, place, hplace, rfl, hearlier⟩ := List.find?_eq_some_iff_getElem.mp hfound
  have hsame : index = place := by
    rcases Nat.lt_trichotomy index place with hless | hsame | hless
    · have hnot := hearlier index hless
      rw [hhas] at hnot
      cases hnot
    · exact hsame
    · exact absurd hmatch (hbefore place hless)
  subst hsame
  exact List.getElem?_eq_getElem hlt

theorem edit_accepted {checks : ExternalChecks} {edited : List QueuedMessage} {arguments : String}
    {input : Option String} {inputChanged : Bool}
    (h : edit checks widget queue id arguments input = .ok (.accepted inputChanged, edited, events)) :
    ∃ index queued text, queue[index]? = some queued ∧ hasId arguments queued = true ∧
      queued.author = .user ∧ input = some text ∧ isBlank text = false ∧
      (∀ other ∈ queue.eraseIdx index, hasId id other = false) ∧
      validateQueuedMessage checks (editedMessage queued id text) = .ok () ∧
      inputChanged = decide (queued.boundary.delivery = .steer) ∧
      edited = queue.set index (editedMessage queued id text) := by
  unfold edit at h
  split at h
  · cases h
  rename_i text hinput
  obtain ⟨hinput, hblank⟩ := Option.filter_eq_some_iff.mp hinput
  split at h
  · cases h
  rename_i queued hqueued
  split at h
  · cases h
  rename_i hauthor
  dsimp only at h
  unfold replace at h
  cases hindex : queue.findIdx? (hasId arguments) with
  | none =>
    rw [hindex] at h
    cases h
  | some index =>
    have hplace := find_at hindex hqueued
    rw [hindex] at h
    dsimp only at h
    by_cases hother : (queue.eraseIdx index).any (hasId id) = true
    · rw [if_pos hother] at h
      cases h
    rw [if_neg hother, hplace] at h
    dsimp only at h
    rw [replaceMessage_edited] at h
    cases hvalid : validateQueuedMessage checks (editedMessage queued id text) with
    | error error =>
      rw [hvalid] at h
      cases h
    | ok _ =>
      rw [hvalid] at h
      simp only [Except.map, Except.ok.injEq, Prod.mk.injEq, SubmissionResult.accepted.injEq] at h
      refine ⟨index, queued, text, hplace, List.find?_some hqueued, not_not.mp hauthor, hinput,
        by simpa using hblank, fun other hmem => ?_, hvalid, h.1.symm, h.2.1.symm⟩
      by_contra hhas
      exact hother (List.any_eq_true.mpr ⟨other, hmem, by simpa using hhas⟩)

end MobiusAgent.MessageQueue
