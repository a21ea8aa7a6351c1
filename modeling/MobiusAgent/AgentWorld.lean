import MobiusAgent.EffectLogic
import MobiusAgent.MessageQueue

/-!
# The agent, its surroundings and what it leaves behind

The agent is a computation over a `World`: the live checkpoint, the
transcript items that wait for the next save, and the log of everything that
left the agent. What the agent asks of others (the clock, the store, the
frontends, middleware hooks, the model and the tools) is a `Surroundings`:
one answer for each moment, for every answer there can be. The log keeps
commits and side effects in their order, newest first, so that a crash is a
shorter log.
-/

namespace MobiusAgent.AgentWorld

open JsonValue ProtocolEvents CheckpointRecords CheckpointValidation ContextItems MessageQueue
  EffectLogic

/-- The decision on a paused tool batch. -/
inductive ReviewDecision where
  | approved
  /-- The calls and later equal ones may run. -/
  | approvedForSession
  /-- The calls may not run. -/
  | denied (rejection : String)
  | abort

/-- An operation submitted by a frontend. -/
inductive Op where
  | message (message : MessageSubmission)
  | interrupt (turnId : String)
  /-- Resolve a paused tool batch. -/
  | execApproval (id : String) (decision : ReviewDecision)
  | capabilityCommand (capability command arguments : String) (input : Option String)
      (target : Option MessageTarget)
  | setModel (route : String)
  | resumeSession (sessionId : SessionId)

structure Submission where
  id : String
  op : Op

/-- The checks at ingress that depend on limits or on a serializer. -/
structure IngressChecks where
  content : ExternalChecks
  /-- `validate_message_attachments` with the session's file limits. -/
  attachments : List SessionFileReference → Check
  /-- The encoded size of a submitted message. -/
  serializedLen : MessageSubmission → Except Error Nat
  /-- The byte limit of an operation's name. -/
  maxOperationBytes : Nat
  /-- The byte limit of a command's input. -/
  maxCapabilityInputBytes : Nat

/-- `MessageSubmission::validate`. -/
def validateMessage (checks : IngressChecks) (message : MessageSubmission) : Check := do
  message.targetTurnId.toList.forM fun turnId =>
    validateIdentifier "target turn ID" turnId maxIdentifierBytes
  message.reply.toList.forM fun reply => do
    rejectIf reply.text.isEmpty (.config "quoted message cannot be empty")
    rejectIf (maxMessageBytes < reply.text.utf8ByteSize)
      (.config "quoted message exceeds size limit")
  validateMessageContent checks.content message.author message.text message.attachments
  checks.attachments message.attachments
  let size ← checks.serializedLen message
  rejectIf (maxSerializedMessageBytes < size) (.config "message exceeds serialized size limit")

/-- The checks on the operation of a submission. -/
def validateOp (checks : IngressChecks) : Op → Check
  | .message message => validateMessage checks message
  | .interrupt turnId => validateIdentifier "turn ID" turnId maxIdentifierBytes
  | .execApproval id _ => validateIdentifier "approval ID" id maxIdentifierBytes
  | .capabilityCommand capability command arguments input _ => do
    validateIdentifier "capability ID" capability checks.maxOperationBytes
    validateIdentifier "command" command checks.maxOperationBytes
    rejectIf (checks.maxCapabilityInputBytes < arguments.utf8ByteSize)
      (.config "middleware command arguments exceed size limit")
    rejectIf (input.any fun text => checks.maxCapabilityInputBytes < text.utf8ByteSize)
      (.config "middleware command input exceeds size limit")
  | .setModel route => validateIdentifier "model route" route maxIdentifierBytes
  | .resumeSession _ => .ok ()

/-- `validate_submission`, run before a submission enters the inbox. -/
def validateSubmission (checks : IngressChecks) (submission : Submission) : Check := do
  validateIdentifier "submission ID" submission.id maxIdentifierBytes
  validateOp checks submission.op

structure Received (checks : IngressChecks) extends Submission where
  /-- It was checked at ingress. -/
  valid : validateSubmission checks toSubmission = .ok ()

/-- An event of a hook or a tool; messages enter a conversation by delivery only. -/
structure HookEvent where
  msg : EventMsg
  aside : msg.isMessage = false

/-- What the hooks made of one message. -/
structure MessageSubmitResult where
  /-- Items put before the message. -/
  input : List Json
  rejection : Option String
  events : List HookEvent

/-- One operation of a `PreModel` hook on its `ModelContext`. -/
inductive ModelHookOp where
  /-- Account for a preparation call. -/
  | recordUsage (route : String) (usage : TokenUsage)
  | appendModelInput (item : Json)
  | recordTranscriptItem (item : Json)
  /-- `push_input` of a plain item. -/
  | pushInput (item : Json)
  /-- `push_input` of a message, announced with the target it returns. -/
  | pushMessage (event : MessageEvent)
  | rewriteInput (reason : ContextRewriteReason) (input : List Json)
  | event (event : HookEvent)
  /-- A stop at a compaction boundary. -/
  | stop (reason : String)
  /-- The `SessionStart` hooks after a compaction, with the items they push. -/
  | sessionStart (input : List Json)

/-- What the hooks did while a model request was prepared. -/
structure Preparation where
  /-- Their operations in order. -/
  ops : List ModelHookOp
  /-- The error that ended them, or the input that replaces the context in the request. -/
  outcome : Except Error (Option (List Json))
  /-- The notices shown when preparation is accepted. -/
  completions : List HookEvent
  /-- The notices shown when preparation is cancelled. -/
  cancellations : List HookEvent

/-- What the hooks made of one tool call. -/
structure PreToolUse where
  /-- The replacements of its name and arguments, in order. -/
  replacements : List (String × Json)
  /-- Items put before the call. -/
  input : List Json
  denial : Option String
  events : List HookEvent

/-- What the hooks made of one tool result. -/
structure PostToolUse where
  /-- The output that replaces the tool's. -/
  output : Option (List ContentPart)
  /-- Items put after the result. -/
  input : List Json
  events : List HookEvent

/-- What the hooks made of a permission request. -/
structure PermissionRequest where
  /-- The decision, if they made one. -/
  decision : Option ReviewDecision
  events : List HookEvent

/-- What the `Stop` hooks decided. -/
structure StopDecision where
  /-- The prompt that continues the turn. -/
  continuation : Option String
  events : List HookEvent

/-- What the `SessionStart` hooks did. -/
structure SessionStart where
  /-- Items pushed to the context. -/
  input : List Json
  /-- The reason to stop a resumed turn. -/
  stopReason : Option String
  frontend : List FrontendEvent

/-- What a tool handler returned. -/
structure ToolOutcome where
  output : List ContentPart
  isError : Bool
  /-- The usage it was paid with, and its route. -/
  usage : Option (String × TokenUsage)
  handlerExecuted : Bool
  /-- Items put after the output. -/
  additionalInput : List Json
  events : List HookEvent

/-- Completed output of a model response, as `ModelOutput::from_output` admits it. -/
structure ModelOutput (encoding : Encoding) where
  output : List Json
  text : String
  /-- The normalized text items. -/
  content : List ModelStepContent
  /-- The calls of its function-call items, in order. -/
  toolCalls : List ToolCall
  endTurn : Bool
  usage : TokenUsage
  decoded : List.Forall₂ (Holds encoding) (output.filter isFunctionCall) toolCalls
  distinct : (toolCalls.map (·.callId)).Nodup
  named : ∀ call ∈ toolCalls, isBlank call.callId = false
  plain : ∀ item ∈ output, item.get GuidanceReceipts.receiptField = none

/-- What happens next while a response streams. -/
inductive Progress (encoding : Encoding) where
  | response (output : Except Error (ModelOutput encoding))
  /-- A call is complete, or no more will come. -/
  | call (call : Option ToolCall)
  /-- The first running tool ends. -/
  | tool (outcome : Except Error ToolOutcome)

/-- What the idle agent receives next. -/
inductive IdleEvent (checks : IngressChecks) where
  | submission (received : Received checks)
  | deadline
  | closed

/-- The settings of one agent and of its tools. -/
structure Config where
  sessionId : SessionId
  contextWindow : Int
  /-- The bound on model steps of one turn. -/
  maxModelSteps : Nat
  messages : MessageSettings
  ingress : IngressChecks
  /-- What the serializer writes. -/
  encoding : Encoding
  /-- The payload of a queued message's widget. -/
  widget : String → MessageEvent → Json
  /-- A tool's text within the output limit. -/
  capped : String → String
  /-- Whether a tool always requires approval. -/
  requiresApproval : String → Bool
  /-- Whether newer input cancels a tool. -/
  cancelOnInput : String → Bool
  sessionContext : SessionContext
  metadata : Option (List (String × Json))
  /-- Whether the catalog shows a new session. -/
  catalogVisible : Bool
  modelRoute : Option String
  /-- The bound on the rounds of each loop. -/
  fuel : Nat

/-- The answers the agent gets from outside, one for each moment. -/
structure Surroundings (config : Config) where
  /-- `unix_timestamp_ms`. -/
  clock : Nat → Except Error Nat
  uuid : Nat → String
  uuid_named : ∀ tick, isBlank (uuid tick) = false
  /-- Whether the recorder and the store accept a save. -/
  save : Nat → Except Error Unit
  /-- Whether the recorder accepts an event or a flush. -/
  record : Nat → Except Error Unit
  /-- Whether a read of the store succeeds. -/
  read : Nat → Except Error Unit
  /-- Whether an operation succeeds whose value no modelled function reads. -/
  service : Nat → Except Error Unit
  /-- The submissions sent before now and not yet received. -/
  cutoff : Nat → Except Error Nat
  /-- The next submission; `none` when the inbox is closed. -/
  inbox : Nat → Option (Received config.ingress)
  /-- Whether the awaited value is ready before another submission. -/
  ready : Nat → Bool
  /-- What the idle agent receives. -/
  idle : Nat → IdleEvent config.ingress
  /-- `active_command` of another capability, with its events. -/
  activeCommand : Nat → Except Error (Option SubmissionResult × List HookEvent)
  /-- `command` of a capability while idle. -/
  command : Nat → Except Error (List FrontendEvent)
  resume : Nat → Except Error SessionContext
  selectModel : Nat → Except Error ModelChangedEvent
  messageSubmit : Nat → Except Error MessageSubmitResult
  turnEnd : Nat → Except Error (List HookEvent)
  prepareModel : Nat → Preparation
  sameContextModel : Nat → Bool
  /-- The stream of a model response. -/
  progress : Nat → Progress config.encoding
  /-- Unfinished streamed content that ends with a model step. -/
  interrupted : Nat → Except Error (List HookEvent)
  /-- The limit on stream retries, by the transport settings. -/
  retryLimit : Nat → Except Error Nat
  fallbackTransport : Nat → Except Error Bool
  /-- `accept_materialized`: the catalog revision and the schemas the provider loaded. -/
  acceptMaterialized : Nat → Except Error (String × List String)
  /-- The observations reported with a completed step. -/
  diagnostics : Nat → Except Error Json
  /-- The parts of the last request reported with its usage. -/
  breakdown : Nat → Option Json
  /-- `bind_in_place`: an error, or the repaired arguments if the call needed it. -/
  bind : Nat → Except Error (Option Json)
  preToolUse : Nat → Except Error PreToolUse
  postToolUse : Nat → Except Error PostToolUse
  /-- The calls the sandbox lets run without asking. -/
  approved : Nat → Except Error (String → Bool)
  sandboxMode : SandboxMode
  networkAccess : NetworkAccess
  permissionRequest : Nat → Except Error PermissionRequest
  /-- What one executed call returned. -/
  toolOutcome : Nat → ToolOutcome
  /-- What one streamed call returned after its response. -/
  streamedOutcome : Nat → Except Error ToolOutcome
  stop : Nat → Except Error StopDecision
  sessionStart : Nat → Except Error SessionStart

/-- One accepted save. -/
structure Commit where
  checkpoint : Checkpoint
  /-- The transcript items saved with it. -/
  delta : List Json
  execution : Option ExecutionRecord
  events : List Event

/-- Something that left the agent. -/
inductive Entry where
  | offered (checkpoint : Checkpoint) (execution : Option ExecutionRecord)
  | committed (commit : Commit)
  /-- An event was recorded outside a save. -/
  | recorded (event : Event)
  /-- A queued message was edited: the command's id and the message's id before. -/
  | edited (id previous : String)
  /-- A model step read the clock, in an execution that started at the second time. -/
  | stepStarted (modelStepId : String) (startedAtMs executionStartedAtMs : Int)
  /-- A response streamed a complete call. -/
  | streamed (modelStepId : String) (call : ToolCall)
  /-- A response completed with these calls. -/
  | responded (modelStepId : String) (calls : List ToolCall)
  /-- The pre-tool hooks ran for a call. -/
  | hooked (modelStepId callId : String)
  | dispatched (modelStepId : String) (call : ToolCall)
  /-- The catalog repaired the arguments of a call for its execution. -/
  | repaired (modelStepId callId : String)
  /-- A response was discarded to be requested again. -/
  | discarded (modelStepId : String)
  /-- An agent started on this durable checkpoint. -/
  | restarted (checkpoint : Checkpoint)

/-- The state of the agent and the log of what left it, newest first. -/
structure World where
  state : Checkpoint
  /-- Transcript items not yet saved. -/
  transcriptDelta : List Json
  provider : String
  /-- The context window of the selected model. -/
  contextWindow : Int
  /-- The reason to stop a resumed turn. -/
  pendingSessionStartStop : Option String
  /-- The turn whose end hooks ran. -/
  turnEndTurnId : Option String
  idleSpent : Bool
  log : List Entry
  /-- The number of answers received. -/
  tick : Nat

abbrev Agent (α : Type) := Proc World Error α

def Entry.commit : Entry → Option Commit
  | .committed commit => some commit
  | _ => none

/-- The commits of a log, newest first. -/
def commits (log : List Entry) : List Commit := log.filterMap Entry.commit

def durable (log : List Entry) : Option Checkpoint := (commits log).head?.map (·.checkpoint)

/-- The submissions in `message_receipts`: every save adds those of its queue. -/
def receiptIds (log : List Entry) : List String :=
  (commits log).flatMap fun commit => commit.checkpoint.pendingMessages.map (·.id)

/-- The events of an entry, newest first. -/
def Entry.events : Entry → List Event
  | .committed commit => commit.events.reverse
  | .recorded event => [event]
  | _ => []

/-- The event journal, newest first. -/
def journal (log : List Entry) : List Event := log.flatMap Entry.events

def Entry.startedStep : Entry → Option String
  | .stepStarted modelStepId _ _ => some modelStepId
  | _ => none

def lastStarted (log : List Entry) : Option String := log.findSome? Entry.startedStep

/-- The model step a call comes from: one step is open at a time, so it is the last one. -/
def World.originStep (world : World) : String := (lastStarted world.log).getD ""

def turnEvent (submissionId : String) (msg : EventMsg) : Event := ⟨some submissionId, msg⟩

def hookEvents (submissionId : String) (events : List HookEvent) : List Event :=
  events.map fun event => turnEvent submissionId event.msg

section Primitives

variable {config : Config} (env : Surroundings config)

def ask {α : Type} (answers : Nat → α) : Agent α := fun world =>
  (.ok (answers world.tick), { world with tick := world.tick + 1 })

def askOk {α : Type} (answers : Nat → Except Error α) : Agent α := ask answers >>= Proc.ofExcept

/-- The world with another live checkpoint. -/
def onState (change : Checkpoint → Checkpoint) (world : World) : World :=
  { world with state := change world.state }

def modifyState (change : Checkpoint → Checkpoint) : Agent Unit := Proc.modify (onState change)

def getState : Agent Checkpoint := fun world => (.ok world.state, world)

/-- Note something in the log. -/
def note (entry : Entry) : Agent Unit :=
  Proc.modify fun world => { world with log := entry :: world.log }

def sendEvent (event : Event) : Agent Unit := do
  askOk env.record
  note (.recorded event)

/-- Send events one after another. -/
def sendEvents : List Event → Agent Unit
  | [] => pure ()
  | event :: rest => do
    sendEvent env event
    sendEvents rest

def emit (submissionId : String) (msg : EventMsg) : Agent Unit :=
  sendEvent env (turnEvent submissionId msg)

/-- The world after an accepted save of the checkpoint. -/
def World.committed (world : World) (checkpoint : Checkpoint) (execution : Option ExecutionRecord)
    (events : List Event) : World :=
  { world with
    state := checkpoint
    transcriptDelta := []
    log := .committed ⟨checkpoint, world.transcriptDelta, execution, events⟩ ::
      .offered checkpoint execution :: world.log
    tick := world.tick + 1 }

def World.refused (world : World) (checkpoint : Checkpoint) (execution : Option ExecutionRecord) :
    World :=
  { world with log := .offered checkpoint execution :: world.log, tick := world.tick + 1 }

/-- Ask the recorder to save a checkpoint with the waiting transcript items. -/
def offer (checkpoint : Checkpoint) (execution : Option ExecutionRecord) (events : List Event) :
    Agent Unit := fun world =>
  match env.save world.tick with
  | .ok () => (.ok (), world.committed checkpoint execution events)
  | .error error => (.error (.failed error), world.refused checkpoint execution)

/-- `persist_with_events`. The sequence goes back when the save fails. -/
def persistWithEvents (events : List Event) (execution : Option ExecutionRecord) : Agent Unit := do
  let state ← getState
  match checkedAdd state.sequence 1 with
  | none => Proc.fail (.checkpoint "checkpoint sequence overflow")
  | some sequence => offer env { state with sequence := sequence } execution events

def save : Agent Unit := persistWithEvents env [] none

def pushContext (item : Json) : Agent Unit :=
  Proc.modify fun world =>
    { world with
      state := { world.state with context := world.state.context ++ [item] }
      transcriptDelta := world.transcriptDelta ++ [item] }

def extendContext (items : List Json) : Agent Unit :=
  Proc.modify fun world =>
    let accepted := GuidanceReceipts.acceptAll world.state.deliveredOnce items
    { world with
      state := { world.state with
        context := world.state.context ++ accepted.1
        deliveredOnce := accepted.2 }
      transcriptDelta := world.transcriptDelta ++ accepted.1 }

/-- The running execution, or an error. -/
def activeExecution (message : String) : Agent ActiveExecution := do
  let state ← getState
  match state.activeExecution with
  | none => Proc.fail (.checkpoint message)
  | some active => pure active

/-- Change the running execution. -/
def setExecution (active : ActiveExecution) : Agent Unit :=
  modifyState fun state => { state with activeExecution := some active }

/-- Whether the running execution is idle. -/
def isIdle (state : Checkpoint) : Bool := (state.activeExecution.map (·.idle)).getD false

end Primitives

end MobiusAgent.AgentWorld
