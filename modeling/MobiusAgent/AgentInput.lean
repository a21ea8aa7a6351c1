import MobiusAgent.AgentAccounting

/-!
# Routing of submissions

The functions of `agent/input.rs` and the drains of `agent/turn.rs`: how a
submission is admitted while the agent is idle, how it is routed during a
turn, and how an awaited value and the inbox take turns. The reply to the
sender of a message changes nothing here and is left out.
-/

namespace MobiusAgent.AgentInput

open JsonValue ProtocolEvents CheckpointRecords CheckpointValidation ContextItems MessageQueue
  AgentWorld EffectLogic

def frontendDisconnectedReason : String := "frontend disconnected"

/-- What an awaited value came to. -/
inductive Wait (α : Type) where
  /-- It is there; input may have changed meanwhile. -/
  | ready (value : α) (inputChanged : Bool)
  | interrupted (submissionId : String)

/-- What a submission means for the active turn. -/
inductive ActiveRoute where
  | proceed (inputChanged : Bool)
  | interrupted (submissionId : String)
  /-- The awaited approval was decided. -/
  | approval (submissionId : String) (decision : ReviewDecision)

/-- A route before its changes are saved. -/
inductive UncommittedRoute where
  | proceed
  /-- The submission was refused. -/
  | rejected (message : String)
  | changed (submissionId : String) (pendingMessages : List QueuedMessage)
      (events : List EventMsg) (inputChanged : Bool)
  | interrupted (submissionId : String)
  /-- The awaited approval was decided. -/
  | approval (submissionId : String) (decision : ReviewDecision)

/-- Submissions received before a moment. -/
structure SubmissionDrain where
  inputChanged : Bool
  /-- The submission that interrupted the turn. -/
  interrupted : Option String

/-- `MessageEvent::reply_text`. -/
def messageReplyText (message : MessageEvent) : Option String :=
  if !message.text.isEmpty then some message.text
  else if message.attachments.isEmpty then none
  else some (", ".intercalate (message.attachments.map (·.name)))

/-- `AssistantMessageEvent::reply_text`. -/
def assistantReplyText (message : AssistantMessageEvent) : Option String :=
  (message.content.reverse.find? fun item =>
    decide (item.phase ≠ .reasoning) && !item.text.isEmpty).map (·.text)

def originalText (target : MessageTarget) (event : Event) : Option (Option String) :=
  match event.msg with
  | .message message =>
    if message.messageTarget = some target then some (messageReplyText message) else none
  | .assistantMessage message =>
    if message.messageTarget = some target then some (assistantReplyText message) else none
  | _ => none

/-- `validate_reply`: why a reply does not quote a durable message exactly. -/
def validateReply (events : List Event) (reply : MessageReply) : Option String :=
  match events.findSome? (originalText reply.target) with
  | none => some "reply target is not a safe durable message in this chat"
  | some none => some "reply target is not a safe durable message in this chat"
  | some (some original) =>
    if original = reply.text then none
    else some "quoted message does not match its durable original"

section Routing

variable {config : Config} (env : Surroundings config)

def messageAccepted (submissionId : String) : Agent Bool := do
  askOk env.read
  let world ← Proc.get
  pure ((receiptIds world.log).contains submissionId)

def replyRejection (message : MessageSubmission) : Agent (Option String) :=
  match message.reply with
  | none => pure none
  | some reply => do
    askOk env.read
    let world ← Proc.get
    pure (validateReply (journal world.log) reply)

/-- `route_message`: the result, the staged queue and the events. -/
def routeMessage (submissionId : String) (message : MessageSubmission)
    (activeTurnId : Option String) :
    Agent (SubmissionResult × List QueuedMessage × List EventMsg) := do
  let state ← getState
  match ← replyRejection env message with
  | some rejection => pure (.rejected rejection, state.pendingMessages, [])
  | none =>
    Proc.ofExcept (enqueue config.messages config.widget state.pendingMessages submissionId
      activeTurnId message)

def routeSubmissionResult (submissionId : String) (result : SubmissionResult)
    (pendingMessages : List QueuedMessage) (messages : List EventMsg) :
    Agent UncommittedRoute := do
  match result with
  | .accepted inputChanged => pure (.changed submissionId pendingMessages messages inputChanged)
  | .handled => do
    sendEvents env (messages.map (turnEvent submissionId))
    pure .proceed
  | .rejected message => do
    sendEvents env (messages.map (turnEvent submissionId))
    emit env submissionId (.submissionRejected message)
    pure (.rejected message)

def warn (submissionId message : String) : Agent UncommittedRoute := do
  emit env submissionId (.warning message)
  pure .proceed

def persistSubmissionChange (submissionId : String) (pendingMessages : List QueuedMessage)
    (events : List EventMsg) : Agent Unit := do
  let previous ← getState
  modifyState fun state => { state with pendingMessages := pendingMessages }
  Proc.restoring (persistWithEvents env (events.map (turnEvent submissionId)) none)
    (onState fun state => { state with pendingMessages := previous.pendingMessages })

def noteEdit (submissionId arguments : String) (result : SubmissionResult) : Agent Unit :=
  match result with
  | .accepted _ => note (.edited submissionId arguments)
  | _ => pure ()

/-- The `edit` command of the message middleware. -/
def routeEdit (submissionId arguments : String) (input : Option String) :
    Agent UncommittedRoute := do
  let state ← getState
  let (result, pendingMessages, messages) ← Proc.ofExcept
    (edit config.ingress.content config.widget state.pendingMessages submissionId arguments input)
  noteEdit submissionId arguments result
  routeSubmissionResult env submissionId result pendingMessages messages

/-- `active_command`: only the message middleware reaches the queue. -/
def routeCommand (submissionId capability command arguments : String) (input : Option String) :
    Agent UncommittedRoute := do
  if capability = messagesOwner then
    if command = "edit" then routeEdit env submissionId arguments input
    else warn env submissionId "command is unavailable during an active turn"
  else do
    let (result, events) ← askOk env.activeCommand
    match result with
    | none => warn env submissionId "command is unavailable during an active turn"
    | some result => do
      let state ← getState
      routeSubmissionResult env submissionId result state.pendingMessages (events.map (·.msg))

def route (submission : Submission) (turnId : String) (expectedApproval : Option String) :
    Agent UncommittedRoute := do
  match submission.op with
  | .message message => do
    let (result, pendingMessages, messages) ←
      routeMessage env submission.id message (some turnId)
    routeSubmissionResult env submission.id result pendingMessages messages
  | .interrupt target =>
    if target = turnId then pure (.interrupted submission.id)
    else warn env submission.id "interrupt targeted a stale turn"
  | .execApproval id decision =>
    if expectedApproval = some id then pure (.approval submission.id decision)
    else warn env submission.id "approval response targeted a stale request"
  | .capabilityCommand capability command arguments input _ =>
    routeCommand env submission.id capability command arguments input
  | .setModel _ => warn env submission.id "operation is unavailable during an active turn"
  | .resumeSession _ => warn env submission.id "operation is unavailable during an active turn"

def routeActiveSubmissionInner (submission : Submission) (turnId : String)
    (expectedApproval : Option String) : Agent ActiveRoute := do
  match ← route env submission turnId expectedApproval with
  | .changed submissionId pendingMessages events inputChanged => do
    persistSubmissionChange env submissionId pendingMessages events
    pure (.proceed inputChanged)
  | .proceed => pure (.proceed false)
  | .rejected _ => pure (.proceed false)
  | .interrupted submissionId => pure (.interrupted submissionId)
  | .approval submissionId decision => pure (.approval submissionId decision)

/-- Whether a submission is a message that was accepted before. -/
def alreadyAccepted (submission : Submission) : Agent Bool :=
  match submission.op with
  | .message _ => messageAccepted env submission.id
  | _ => pure false

def routeActiveSubmission (received : Received config.ingress) (turnId : String)
    (expectedApproval : Option String) : Agent ActiveRoute := do
  if ← alreadyAccepted env received.toSubmission then pure (.proceed false)
  else routeActiveSubmissionInner env received.toSubmission turnId expectedApproval

/-- Receive and route this many submissions. -/
def drainUpTo (turnId : String) : Nat → Bool → Agent SubmissionDrain
  | 0, inputChanged => pure ⟨inputChanged, none⟩
  | remaining + 1, inputChanged => do
    match ← ask env.inbox with
    | none => Proc.fail (.stopped "agent submission channel closed before terminal cutoff")
    | some received => do
      match ← routeActiveSubmission env received turnId none with
      | .interrupted submissionId => pure ⟨inputChanged, some submissionId⟩
      | .proceed changed => drainUpTo turnId remaining (inputChanged || changed)
      | .approval _ _ => drainUpTo turnId remaining inputChanged

def drainSubmissions (turnId : String) : Agent SubmissionDrain := do
  let cutoff ← askOk env.cutoff
  drainUpTo env turnId cutoff false

/-- Another submission arrives while a value is awaited. -/
def waitForSubmission {α : Type} (turnId : String) (inputChanged : Bool) :
    Agent (Bool ⊕ Wait α) := do
  match ← ask env.inbox with
  | none => Proc.fail (.stopped frontendDisconnectedReason)
  | some received => do
    match ← routeActiveSubmission env received turnId none with
    | .interrupted submissionId => pure (.inr (.interrupted submissionId))
    | .proceed changed => pure (.inl (inputChanged || changed))
    | .approval _ _ => pure (.inl inputChanged)

/-- The awaited value is there; submissions sent before it are routed first. -/
def waitForValue {α : Type} (turnId : String) (inputChanged : Bool) (future : Agent α) :
    Agent (Bool ⊕ Wait α) := do
  let value ← future
  let drained ← drainSubmissions env turnId
  match drained.interrupted with
  | some submissionId => pure (.inr (.interrupted submissionId))
  | none => pure (.inr (.ready value (inputChanged || drained.inputChanged)))

def waitRound {α : Type} (turnId : String) (future : Agent α) (inputChanged : Bool) :
    Agent (Bool ⊕ Wait α) := do
  let drained ← drainSubmissions env turnId
  match drained.interrupted with
  | some submissionId => pure (.inr (.interrupted submissionId))
  | none => do
    if ← ask env.ready then waitForValue env turnId (inputChanged || drained.inputChanged) future
    else waitForSubmission env turnId (inputChanged || drained.inputChanged)

def waitActive {α : Type} (turnId : String) (future : Agent α) : Agent (Wait α) :=
  Proc.iterate (waitRound env turnId future) config.fuel false

end Routing

end MobiusAgent.AgentInput
