import MobiusAgent.AgentTurn

/-!
# Input before a model request

The first half of `agent/turn/model.rs`: messages that steer the turn enter
the context in one save, and the `PreModel` hooks change a staged copy of the
context. The targets that they receive belong to the next save.
-/

namespace MobiusAgent.AgentPreparation

open JsonValue ProtocolEvents CheckpointRecords ContextItems MessageQueue AgentWorld
  AgentAccounting AgentInput AgentTools AgentTurn EffectLogic

/-- The messages of one steered batch, before they are saved. -/
structure Staging where
  /-- The context with the accepted messages. -/
  context : List Json
  deliveredOnce : GuidanceReceipts.Receipts
  /-- The transcript items of the accepted messages. -/
  transcript : List Json
  events : List Event
  /-- The author and the submission that turn an idle turn into a normal one. -/
  idleOrigin : Option (MessageAuthor × String)

/-- One message of a batch: its hooks rejected it, or it is put at the end. -/
def stageMessage (sequence batchBefore : Nat) (idle : Bool) (staging : Staging)
    (message : PreparedMessage) (submitted : MessageSubmitResult) : Staging :=
  let events := staging.events ++ hookEvents message.submissionId submitted.events ++
    message.boundaryEvents.map (turnEvent message.submissionId)
  match submitted.rejection with
  | some rejection =>
    { staging with
      events := events ++ [turnEvent message.submissionId (.submissionRejected rejection)] }
  | none =>
    let accepted := GuidanceReceipts.acceptAll staging.deliveredOnce submitted.input
    let context := staging.context ++ accepted.1
    let input := prepareTurnInput context message.input
    let position := 1 + (batchBefore + staging.transcript.length)
    let origin := if idle then some (message.event.author, message.submissionId) else none
    ⟨context ++ [input], accepted.2, staging.transcript ++ [input],
      events ++ [deliveredEvent message sequence position],
      staging.idleOrigin.orElse fun _ => origin⟩

/-- A staged message ends the idleness of a turn and gives it its author. -/
def promoteExecution (staging : Staging) (execution : ActiveExecution) : ActiveExecution :=
  { execution with
    idle := execution.idle && staging.transcript.isEmpty
    author := (staging.idleOrigin.map Prod.fst).getD execution.author }

/-- The events of a batch; a promoted idle turn is announced first. -/
def stagedEvents (contextWindow : Int) (turnId : String) (wasIdle : Bool) (staging : Staging) :
    List Event :=
  match wasIdle, staging.idleOrigin with
  | true, some (_, submissionId) =>
    turnStartedEvent contextWindow submissionId false turnId :: staging.events
  | _, _ => staging.events

/-- The world with a batch, before it is saved. -/
def applyStaging (pendingMessages : List QueuedMessage) (staging : Staging) (world : World) :
    World :=
  { world with
    state := { world.state with
      pendingMessages := pendingMessages
      activeExecution := world.state.activeExecution.map (promoteExecution staging)
      context := staging.context
      deliveredOnce := staging.deliveredOnce }
    transcriptDelta := world.transcriptDelta ++ staging.transcript }

/-- The execution as it was before a batch. -/
def demoteExecution (wasIdle : Bool) (staging : Staging) (previous : Option ActiveExecution)
    (execution : ActiveExecution) : ActiveExecution :=
  if wasIdle then
    let author := match staging.idleOrigin, previous with
      | some _, some before => before.author
      | _, _ => execution.author
    { execution with idle := true, author := author }
  else execution

/-- The world before a batch, when it cannot be saved. -/
def undoStaging (wasIdle : Bool) (staging : Staging) (previous world : World) : World :=
  { world with
    state := { world.state with
      pendingMessages := previous.state.pendingMessages
      activeExecution := world.state.activeExecution.map
        (demoteExecution wasIdle staging previous.state.activeExecution)
      context := world.state.context.take previous.state.context.length
      deliveredOnce := previous.state.deliveredOnce }
    transcriptDelta := world.transcriptDelta.take previous.transcriptDelta.length }

/-- Changes of the hooks to a staged copy of the live context. -/
structure StagedInput where
  /-- Items put at the end. -/
  appended : List Json
  /-- The context that replaces the original. -/
  replacement : Option (List Json)

def StagedInput.input (staged : StagedInput) (original : List Json) : List Json :=
  staged.replacement.getD original ++ staged.appended

def StagedInput.commit (staged : StagedInput) (history : List Json) : List Json :=
  match staged.replacement with
  | some input => input ++ staged.appended
  | none => history ++ staged.appended

/-- What the hooks changed while a request was prepared. -/
structure ModelStaging where
  durableInput : StagedInput
  deliveredOnce : GuidanceReceipts.Receipts
  transcript : List Json
  contextEpoch : Nat
  rewriteReasons : List ContextRewriteReason
  turnStop : Option String
  events : List EventMsg
  usage : List TokenUsage
  checkpointChanged : Bool

def epochOverflow : Error := .checkpoint "context rewrite epoch overflow"

/-- The next epoch and reasons of a rewrite; the epoch advances once for a boundary. -/
def recordRewrite (reason : ContextRewriteReason) (staging : ModelStaging) :
    Except Error ModelStaging :=
  let reasons := if staging.rewriteReasons.contains reason then staging.rewriteReasons
    else staging.rewriteReasons ++ [reason]
  if staging.rewriteReasons.isEmpty then
    match checkedAdd staging.contextEpoch 1 with
    | none => .error epochOverflow
    | some epoch => .ok { staging with contextEpoch := epoch, rewriteReasons := reasons }
  else .ok { staging with rewriteReasons := reasons }

/-- `push_input`: the item in the context and in the transcript, and its target. -/
def pushStaged (sequence : Nat) (item : Json) (staging : ModelStaging) :
    ModelStaging × MessageTarget :=
  ({ staging with
    durableInput := { staging.durableInput with appended := staging.durableInput.appended ++ [item] }
    transcript := staging.transcript ++ [item]
    checkpointChanged := true }, ⟨sequence, 1 + staging.transcript.length⟩)

/-- One operation of a hook, where targets belong to the save of this sequence. -/
def applyHookOp (encoding : Encoding) (sequence : Nat) (original : List Json)
    (staging : ModelStaging) : ModelHookOp → Except Error ModelStaging
  | .recordUsage _ usage => .ok { staging with usage := staging.usage ++ [usage] }
  | .appendModelInput item =>
    .ok { staging with
      durableInput :=
        { staging.durableInput with appended := staging.durableInput.appended ++ [item] }
      checkpointChanged := true }
  | .recordTranscriptItem item =>
    .ok { staging with transcript := staging.transcript ++ [item], checkpointChanged := true }
  | .pushInput item => .ok (pushStaged sequence item staging).1
  | .pushMessage event =>
    let (pushed, target) := pushStaged sequence (messageInput encoding event) staging
    .ok { pushed with
      events := pushed.events ++ [.message { event with messageTarget := some target }] }
  | .rewriteInput reason input =>
    if staging.durableInput.input original = input then .ok staging
    else match recordRewrite reason staging with
      | .error error => .error error
      | .ok recorded =>
        .ok { recorded with
          durableInput := ⟨[], some (resetPromptCacheBreakpoint input).1⟩
          checkpointChanged := true }
  | .event event => .ok { staging with events := staging.events ++ [event.msg] }
  | .stop reason => .ok { staging with turnStop := staging.turnStop.orElse fun _ => some reason }
  | .sessionStart input =>
    let context := staging.durableInput.input original ++ input
    .ok { staging with
      durableInput := ⟨[], some context⟩
      deliveredOnce := (GuidanceReceipts.record staging.deliveredOnce context).1 }

/-- The operations of the hooks, up to the first that fails. -/
def applyHookOps (encoding : Encoding) (sequence : Nat) (original : List Json) :
    ModelStaging → List ModelHookOp → ModelStaging × Option Error
  | staging, [] => (staging, none)
  | staging, op :: rest =>
    match applyHookOp encoding sequence original staging op with
    | .error error => (staging, some error)
    | .ok next => applyHookOps encoding sequence original next rest

/-- Reasoning of another model is stripped before this one replays the context. -/
def stripForeignReasoning (original : List Json) (staging : ModelStaging) :
    Except Error ModelStaging :=
  let input := staging.durableInput.input original
  if input.any hasProviderReasoning then
    match recordRewrite .modelChange staging with
    | .error error => .error error
    | .ok recorded =>
      .ok { recorded with
        durableInput := ⟨[], some (resetPromptCacheBreakpoint (stripProviderReasoning input)).1⟩
        checkpointChanged := true }
  else .ok staging

section Preparing

variable {config : Config} (env : Surroundings config)

/-- The messages of a batch, one after another. -/
def stageMessages (sequence batchBefore : Nat) (idle : Bool) :
    Staging → List QueuedMessage → Agent Staging
  | staging, [] => pure staging
  | staging, queued :: rest => do
    let _ ← activeExecution "active turn has no initiating message"
    let submitted ← askOk env.messageSubmit
    stageMessages sequence batchBefore idle
      (stageMessage sequence batchBefore idle staging (prepareMessage config.encoding queued)
        submitted) rest

/-- An idle turn that received a message lets the idle timer run again. -/
def renewIdleTimer (wasIdle : Bool) : Agent Unit :=
  Proc.modify fun world => { world with idleSpent := world.idleSpent && !wasIdle }

/-- A batch is saved with its events. -/
def saveStaging (turnId : String) (pendingMessages : List QueuedMessage) (staging : Staging) :
    Agent Unit := do
  let previous ← Proc.get
  let wasIdle := !staging.transcript.isEmpty && isIdle previous.state
  Proc.modify (applyStaging pendingMessages staging)
  Proc.restoring (persistWithEvents env
      (stagedEvents previous.contextWindow turnId wasIdle staging) none)
    (undoStaging wasIdle staging previous)
  renewIdleTimer wasIdle

def stageMessageInput (turnId : String) : Agent Unit := do
  let world ← Proc.get
  let staged := stageModelMessages world.state.pendingMessages turnId
  if staged.1.isEmpty then pure ()
  else match checkedAdd world.state.sequence 1 with
    | none => Proc.fail (.checkpoint "checkpoint sequence overflow")
    | some sequence => do
      let staging ← stageMessages env sequence world.transcriptDelta.length (isIdle world.state)
        ⟨world.state.context, world.state.deliveredOnce, [], [], none⟩ staged.1
      saveStaging env turnId staged.2 staging

/-- The staged changes a preparation ends with; a failed one changes nothing. -/
def settleStaging (previous : Checkpoint) (foreign : Bool) (staging : ModelStaging)
    (outcome : Except Error (Option (List Json))) : Except Error ModelStaging :=
  match outcome with
  | .ok _ =>
    if foreign && staging.turnStop.isNone then stripForeignReasoning previous.context staging
    else .ok staging
  | .error _ =>
    .ok { staging with
      contextEpoch := previous.contextEpoch
      transcript := []
      rewriteReasons := []
      events := []
      checkpointChanged := false }

/-- The staged changes before any hook ran. -/
def emptyStaging (state : Checkpoint) : ModelStaging :=
  ⟨⟨[], none⟩, state.deliveredOnce, [], state.contextEpoch, [], none, [], [], false⟩

end Preparing

end MobiusAgent.AgentPreparation
