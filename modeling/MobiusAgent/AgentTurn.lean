import MobiusAgent.AgentTools

/-!
# Starting and ending turns

The functions of `agent/turn.rs`: how a queued message or the idle timer
starts a turn, and how a turn completes, fails or is aborted. Each start and
each abort undoes its own changes by hand when its save fails.
-/

namespace MobiusAgent.AgentTurn

open JsonValue ProtocolEvents CheckpointRecords ContextItems MessageQueue AgentWorld
  AgentAccounting AgentInput AgentTools EffectLogic

def turnInterruptedReason : String := "interrupted"

/-- The reason shown for an error that ends a turn. -/
def failureReason (error : Error) : String :=
  match error with
  | .stopped reason =>
    if reason = frontendDisconnectedReason then frontendDisconnectedReason else error.display
  | _ => error.display

variable {config : Config} (env : Surroundings config)

/-- `turn_end_events`: the end hooks run once for a turn. -/
def turnEndEvents (submissionId turnId : String) : Agent (List Event) := do
  let world ← Proc.get
  if world.turnEndTurnId = some turnId then pure []
  else do
    Proc.modify fun world => { world with turnEndTurnId := some turnId }
    let events ← askOk env.turnEnd
    pure (hookEvents submissionId events)

def finishTurn (submissionId turnId : String) (outcome : ExecutionOutcome) (terminal : EventMsg)
    (events : List Event) : Agent Unit := do
  modifyState fun state =>
    { state with pendingMessages := finishMessageTurn state.pendingMessages turnId outcome }
  let endEvents ← turnEndEvents env submissionId turnId
  finishAndPersistExecution env outcome
    (events ++ endEvents ++ [turnEvent submissionId terminal])

/-- The tools, the model step and the approval of an aborted turn end with it. -/
def abortTurn (submissionId turnId reason : String) (outcome : ExecutionOutcome)
    (events : List Event) : Agent Unit := do
  let toolEvents ← finishPendingTools env submissionId turnId reason
  modifyState fun state => { state with activeModelStep := none, pendingApproval := none }
  let state ← getState
  finishTurn env submissionId turnId outcome (.turnAborted (isIdle state) turnId reason)
    (events ++ toolEvents)

def abortWithEvents (submissionId turnId reason : String) (outcome : ExecutionOutcome)
    (events : List Event) : Agent Unit := do
  let previous ← Proc.get
  Proc.restoring (abortTurn env submissionId turnId reason outcome events)
    (fun world =>
      { world with
        state := previous.state
        transcriptDelta := world.transcriptDelta.take previous.transcriptDelta.length })

def abort (submissionId turnId reason : String) (outcome : ExecutionOutcome) : Agent Unit :=
  abortWithEvents env submissionId turnId reason outcome []

def failTurnWithEvents (submissionId : String) (error : Error) (events : List Event) :
    Agent Unit := do
  let state ← getState
  match state.activeExecution with
  | none => Proc.fail error
  | some execution =>
    abortWithEvents env submissionId execution.turnId (failureReason error) .failed
      (events ++ [turnEvent submissionId (.error error)])

def readyOrAborted {α : Type} (wait : Wait α) (turnId : String) : Agent (Option α) :=
  match wait with
  | .ready value _ => pure (some value)
  | .interrupted submissionId => do
    abort env submissionId turnId turnInterruptedReason .aborted
    pure none

def beginTurn (submissionId turnId : String) (author : MessageAuthor) : Agent Unit := do
  let state ← getState
  if state.activeExecution.isSome then
    Proc.fail (.checkpoint "cannot start a turn while another execution is active")
  else do
    let startedAtMs ← askOk env.clock
    setExecution ⟨submissionId, author, turnId, startedAtMs, 0, 0, 0, {}, 0, false, .model, false⟩

/-- The queue with a message back at its place. -/
def reinsertMessage (index : Nat) (queued : QueuedMessage) : World → World :=
  onState fun state =>
    { state with pendingMessages := state.pendingMessages.insertIdx index queued }

/-- The message that starts a turn leaves the queue. -/
def consumeMessage (submissionId : String) : Agent (Nat × QueuedMessage) := do
  let state ← getState
  let (index, queued, rest) ← Proc.ofExcept (consumeNextTurn state.pendingMessages submissionId)
  modifyState fun state => { state with pendingMessages := rest }
  pure (index, queued)

def turnStartedEvent (contextWindow : Int) (submissionId : String) (idle : Bool)
    (turnId : String) : Event :=
  turnEvent submissionId (.turnStarted idle turnId (some contextWindow))

def turnStartEvents (contextWindow : Int) (message : PreparedMessage) (turnId : String)
    (submitted : MessageSubmitResult) : List Event :=
  turnStartedEvent contextWindow message.submissionId false turnId ::
    (hookEvents message.submissionId submitted.events ++
      message.boundaryEvents.map (turnEvent message.submissionId))

/-- A hook rejected the message: its turn starts and is aborted at once. -/
def rejectMessageTurn (message : PreparedMessage) (turnId : String)
    (submitted : MessageSubmitResult) (rejection : String) : Agent Unit := do
  let before ← Proc.get
  let (index, queued) ← consumeMessage message.submissionId
  Proc.restoring (beginTurn env message.submissionId turnId message.event.author)
    (reinsertMessage index queued)
  Proc.restoring (abortWithEvents env message.submissionId turnId rejection .aborted
      (turnStartEvents before.contextWindow message turnId submitted))
    (reinsertMessage index queued)

/-- The context, the receipts and the title with an accepted message. -/
def deliverMessage (message : PreparedMessage) (submitted : MessageSubmitResult)
    (input : Json) (world : World) : World :=
  let accepted := GuidanceReceipts.acceptAll world.state.deliveredOnce submitted.input
  { world with
    state := { world.state with
      context := world.state.context ++ accepted.1 ++ [input]
      deliveredOnce := accepted.2
      firstUserMessage := world.state.firstUserMessage.orElse fun _ => message.titleSeed }
    transcriptDelta := world.transcriptDelta ++ [input] }

/-- The world before a message was delivered, when its turn cannot be saved. -/
def undoMessageTurn (index : Nat) (queued : QueuedMessage) (previous world : World) : World :=
  let length := previous.state.context.length
  { world with
    state := { world.state with
      pendingMessages := world.state.pendingMessages.insertIdx index queued
      deliveredOnce :=
        GuidanceReceipts.rollback world.state.deliveredOnce (world.state.context.drop length)
      context := world.state.context.take length
      firstUserMessage :=
        if previous.state.firstUserMessage.isSome then world.state.firstUserMessage else none
      activeExecution := none }
    transcriptDelta := world.transcriptDelta.take previous.transcriptDelta.length }

def deliveredEvent (message : PreparedMessage) (sequence position : Nat) : Event :=
  turnEvent message.submissionId
    (.message { message.event with messageTarget := some ⟨sequence, position⟩ })

def acceptMessageTurn (message : PreparedMessage) (turnId : String)
    (submitted : MessageSubmitResult) : Agent Unit := do
  let before ← Proc.get
  let input := prepareTurnInput before.state.context message.input
  match checkedAdd before.state.sequence 1 with
  | none => Proc.fail (.checkpoint "checkpoint sequence overflow")
  | some sequence => do
    let delivered := deliveredEvent message sequence (1 + before.transcriptDelta.length)
    let (index, queued) ← consumeMessage message.submissionId
    Proc.restoring (beginTurn env message.submissionId turnId message.event.author)
      (reinsertMessage index queued)
    let previous ← Proc.get
    Proc.modify (deliverMessage message submitted input)
    Proc.restoring (persistWithEvents env
        (turnStartEvents before.contextWindow message turnId submitted ++ [delivered]) none)
      (undoMessageTurn index queued previous)

/-- `start_message_turn` up to its save: the turn to continue, if there is one. -/
def openMessageTurn (message : PreparedMessage) : Agent (Option String) := do
  let turnId ← ask env.uuid
  let submitted ← askOk env.messageSubmit
  match submitted.rejection with
  | some rejection => do
    rejectMessageTurn env message turnId submitted rejection
    pure none
  | none => do
    acceptMessageTurn env message turnId submitted
    pure (some turnId)

/-- The turn of the idle timer starts. -/
def beginIdleTurn (submissionId turnId : String) : Agent Unit := do
  let before ← Proc.get
  beginTurn env submissionId turnId .user
  modifyState fun state =>
    { state with
      activeExecution := state.activeExecution.map fun execution => { execution with idle := true } }
  Proc.restoring
    (persistWithEvents env [turnStartedEvent before.contextWindow submissionId true turnId] none)
    (onState fun state => { state with activeExecution := none })

end MobiusAgent.AgentTurn
