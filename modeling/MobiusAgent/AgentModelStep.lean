import MobiusAgent.AgentApproval

/-!
# Model steps and the turn loop

The second half of `agent/turn/model.rs`: a model request with its retries,
and the completed response with its calls. The answer of the model is
committed with the calls it asks for before any of them runs.
-/

namespace MobiusAgent.AgentModelStep

open JsonValue ProtocolEvents CheckpointRecords ContextItems MessageQueue AgentWorld
  AgentAccounting AgentInput AgentTools AgentTurn AgentPreparation AgentStreaming AgentApproval
  EffectLogic

/-- A model step that became active. -/
structure StartedStep where
  turnId : String
  modelStepId : String
  stepIndex : Nat
  startedAtMs : Int

structure CompletedModelStep (encoding : Encoding) where
  started : StartedStep
  output : ModelOutput encoding
  streamed : StreamedTools

/-- A response after its calls were prepared and it was saved. -/
structure NormalizedModelStep where
  /-- The calls, rewritten where hooks did so. -/
  toolCalls : List ToolCall
  /-- The indexes of the calls still to be executed. -/
  executable : List Nat
  /-- The results of denied and unavailable calls. -/
  denied : List ToolResult
  streamed : StreamedTools

/-- What a model request came to. -/
inductive ModelStepRequest (encoding : Encoding) where
  | completed (step : CompletedModelStep encoding)
  /-- New input needs a new request. -/
  | restart
  | finished

/-- What became of the calls of a response. -/
structure CallPlan where
  calls : List ToolCall
  /-- Whether a hook rewrote one. -/
  changed : Bool
  /-- The indexes of the calls to be executed. -/
  executable : List Nat
  /-- The results of denied and unavailable calls. -/
  denied : List ToolResult
  events : List HookEvent
  /-- Items put before the calls. -/
  input : List Json

/-- The control item of loaded schemas. -/
def toolLoadInput (revision : String) (tools : List String) : Json :=
  .obj [(internalMessageField, .str "tool_load"), ("catalog_revision", .str revision),
    ("tools", .arr (tools.map .str)), ("type", .str "tool_load")]

/-- `materialization_effects`: the items of loaded schemas. -/
def toolLoadItems (loaded : String × List String) : List Json :=
  if loaded.2.isEmpty then [] else [toolLoadInput loaded.1 loaded.2]

/-- `materialization_effects`: the events of loaded schemas. -/
def toolLoadEvents (submissionId turnId loadId : String) (loaded : String × List String) :
    List Event :=
  if loaded.2.isEmpty then []
  else [turnEvent submissionId (.toolLoad turnId loadId loaded.1 loaded.2)]

section Steps

variable {config : Config} (env : Surroundings config)

def modelStepCompletedEvent (submissionId : String) (started : StartedStep)
    (outcome : ModelStepOutcome) (diagnostics : Option Json) : Agent Event := do
  let now ← askOk env.clock
  let state ← getState
  pure (turnEvent submissionId (.modelStepCompleted
    ⟨state.sessionId, started.turnId, started.modelStepId, started.stepIndex,
      started.startedAtMs, max (now : Int) started.startedAtMs, outcome, diagnostics⟩))

def modelStepTerminalEvents (submissionId : String) (started : StartedStep)
    (outcome : ModelStepOutcome) : Agent (List Event) := do
  let interrupted ← askOk env.interrupted
  let completed ← modelStepCompletedEvent env submissionId started outcome none
  pure (hookEvents submissionId interrupted ++ [completed])

def retryModelStep (submissionId : String) (started : StartedStep) : Agent Unit := do
  let events ← modelStepTerminalEvents env submissionId started .retrying
  let previous ← getState
  modifyState fun state => { state with activeModelStep := none }
  Proc.restoring (persistWithEvents env events none)
    (onState fun state => { state with activeModelStep := previous.activeModelStep })

def failModelStep (submissionId : String) (started : StartedStep) (error : Error) :
    Agent Unit := do
  let events ← modelStepTerminalEvents env submissionId started .failed
  failTurnWithEvents env submissionId error events

def interruptModelStep (submissionId interruptId : String) (started : StartedStep) :
    Agent Unit := do
  let events ← modelStepTerminalEvents env submissionId started .interrupted
  abortWithEvents env interruptId started.turnId turnInterruptedReason .aborted events

/-- A model step becomes active, durably before its request is sent. -/
def startModelStep (submissionId turnId : String) (modelStep : Nat) : Agent StartedStep := do
  let modelStepId ← ask env.uuid
  let startedAtMs ← askOk env.clock
  recordModelCall
  let active ← activeExecution "model called without an active execution"
  note (.stepStarted modelStepId startedAtMs active.startedAtMs)
  modifyState fun state =>
    { state with activeModelStep := some ⟨modelStepId, modelStep, startedAtMs⟩ }
  let state ← getState
  persistWithEvents env [turnEvent submissionId
    (.modelStepStarted state.sessionId turnId modelStepId modelStep startedAtMs)] none
  pure ⟨turnId, modelStepId, modelStep, startedAtMs⟩

def abortRequest (interruptId turnId : String) : Agent (Nat ⊕ ModelStepRequest config.encoding) := do
  abort env interruptId turnId turnInterruptedReason .aborted
  pure (.inr .finished)

/-- The delay before a retry, during which input may arrive. -/
def waitForRetry (turnId : String) (retries : Nat) : Agent (Nat ⊕ ModelStepRequest config.encoding) := do
  match ← waitActive env turnId (pure ()) with
  | .interrupted interruptId => abortRequest env interruptId turnId
  | .ready _ inputChanged => do
    let drained ← drainSubmissions env turnId
    match drained.interrupted with
    | some interruptId => abortRequest env interruptId turnId
    | none => do
      let state ← getState
      if inputChanged || messagesReady state.pendingMessages turnId then pure (.inr .restart)
      else pure (.inl retries)

/-- The response is discarded and requested again. -/
def discardResponse (submissionId turnId : String) (started : StartedStep) (inputChanged : Bool)
    (retries : Nat) : Agent (Nat ⊕ ModelStepRequest config.encoding) := do
  retryModelStep env submissionId started
  note (.discarded started.modelStepId)
  if inputChanged then pure (.inr .restart) else waitForRetry env turnId retries

/-- A failed response ends the turn. -/
def failRequest (submissionId : String) (started : StartedStep) (error : Error) :
    Agent (Nat ⊕ ModelStepRequest config.encoding) := do
  failModelStep env submissionId started error
  pure (.inr .finished)

/-- A retryable failure before any hook ran: retry, fall back to another transport or fail. -/
def retryRequest (submissionId turnId : String) (started : StartedStep) (error : Error)
    (inputChanged : Bool) (retries : Nat) : Agent (Nat ⊕ ModelStepRequest config.encoding) := do
  let limit ← askOk env.retryLimit
  if retries < limit then
    discardResponse env submissionId turnId started inputChanged (retries + 1)
  else do
    match ← ask env.fallbackTransport with
    | .ok true => discardResponse env submissionId turnId started inputChanged 0
    | .ok false => failRequest env submissionId started error
    | .error outcome => failRequest env submissionId started outcome

/-- A failed response. -/
def resolveFailure (submissionId turnId : String) (started : StartedStep) (error : Error)
    (streamed : StreamedTools) (inputChanged : Bool) (retries : Nat) :
    Agent (Nat ⊕ ModelStepRequest config.encoding) :=
  match error with
  | .provider _ true =>
    if streamed.originals.isEmpty then
      retryRequest env submissionId turnId started error inputChanged retries
    else failRequest env submissionId started error
  | _ => failRequest env submissionId started error

/-- How a streamed response goes on. -/
def resolveResponse (submissionId turnId : String) (started : StartedStep) (finished : StreamEnd config.encoding)
    (retries : Nat) : Agent (Nat ⊕ ModelStepRequest config.encoding) :=
  match finished.outcome with
  | .ok (.ready (.ok output) _) => do
    note (.responded started.modelStepId output.toolCalls)
    pure (.inr (.completed ⟨started, output, finished.streamed⟩))
  | .ok (.ready (.error error) inputChanged) =>
    resolveFailure env submissionId turnId started error finished.streamed inputChanged retries
  | .error error => failRequest env submissionId started error
  | .ok (.interrupted interruptId) => do
    interruptModelStep env submissionId interruptId started
    pure (.inr .finished)

/-- The events of a response are flushed before it counts. -/
def flushed {encoding : Encoding} (finished : StreamEnd encoding) (flush : Except Error Unit) :
    StreamEnd encoding :=
  match flush with
  | .ok () => finished
  | .error error => { finished with outcome := .error error }

def requestRound (submissionId turnId : String) (modelStep retries : Nat) :
    Agent (Nat ⊕ ModelStepRequest config.encoding) := do
  let started ← startModelStep env submissionId turnId modelStep
  askOk env.service
  let finished ← waitStreamedResponse env
  let flush ← ask env.record
  resolveResponse env submissionId turnId started (flushed finished flush) retries

def requestModelStep (submissionId turnId : String) (modelStep : Nat) :
    Agent (ModelStepRequest config.encoding) := do
  askOk env.service
  Proc.iterate (requestRound env submissionId turnId modelStep) config.fuel 0

/-- A call bound for its execution at the end of the response. -/
def bindPlanned (plan : CallPlan) (index : Nat) (call : ToolCall) : Agent CallPlan := do
  match ← bindCall env call with
  | .error error =>
    pure { plan with
      calls := plan.calls ++ [call]
      denied := plan.denied ++ [errorResult config call error.display] }
  | .ok (bound, _) =>
    pure { plan with calls := plan.calls ++ [bound], executable := plan.executable ++ [index] }

/-- A call that is bound already, or a rewritten one that is bound on its own. -/
def planBound (plan : CallPlan) (index : Nat) (call : ToolCall) (bound : Bool) :
    Agent CallPlan := do
  if bound then
    pure { plan with calls := plan.calls ++ [call], executable := plan.executable ++ [index] }
  else bindPlanned env plan index call

/-- A call that was prepared while the response streamed. -/
def planPrepared (started : List String) (plan : CallPlan) (index : Nat) (call : ToolCall)
    (prepared : PreparedCall) : Agent CallPlan := do
  let plan := { plan with changed := plan.changed || prepared.rewritten }
  let call := prepared.call.getD call
  if started.contains call.callId ||
      plan.denied.any fun result => result.callId == call.callId then
    pure { plan with calls := plan.calls ++ [call] }
  else planBound env plan index call prepared.bound

/-- A call that arrives with the completed response. -/
def planCompleted (plan : CallPlan) (index : Nat) (call : ToolCall) : Agent CallPlan := do
  match ← bindCall env call with
  | .error error =>
    pure { plan with
      calls := plan.calls ++ [call]
      denied := plan.denied ++ [errorResult config call error.display] }
  | .ok (call, _) => do
    let use ← prepareToolCall env call
    let plan := { plan with
      changed := plan.changed || use.changed
      events := plan.events ++ use.events
      input := plan.input ++ use.input }
    match use.denial with
    | some denial =>
      pure { plan with calls := plan.calls ++ [use.call], denied := plan.denied ++ [denial] }
    | none => planBound env plan index use.call (!use.changed)

/-- The calls of a completed response, in order. -/
def planCalls (started : List String) :
    CallPlan → Nat → List ToolCall → List PreparedCall → Agent CallPlan
  | plan, _, [], _ => pure plan
  | plan, index, call :: rest, [] => do
    let next ← planCompleted env plan index call
    planCalls started next (index + 1) rest []
  | plan, index, call :: rest, prepared :: later => do
    let next ← planPrepared env started plan index call prepared
    planCalls started next (index + 1) rest later

/-- The output items with rewritten calls; repaired arguments stay out of the history. -/
def plannedOutput (config : Config) (output : ModelOutput config.encoding) (plan : CallPlan) :
    Except Error (List Json) :=
  if plan.changed then syncToolCalls config.encoding output.output plan.calls
  else .ok output.output

/-- Everything about a completed response that may fail its step. -/
def planStep (step : CompletedModelStep config.encoding) :
    Agent ((String × List String) × CallPlan × List Json) := do
  recordUsage env step.output.usage
  modifyState fun state => { state with lastUsage := some step.output.usage }
  if step.streamed.originals.isPrefixOf step.output.toolCalls then do
    let loaded ← askOk env.acceptMaterialized
    let plan ← planCalls env step.streamed.started
      ⟨[], false, [], step.streamed.denied, step.streamed.hookEvents, step.streamed.hookInput⟩ 0
      step.output.toolCalls step.streamed.calls
    let output ← Proc.ofExcept (plannedOutput config step.output plan)
    pure (loaded, plan, output)
  else Proc.fail (.provider "completed response changed streamed tool calls" false)

/-- The world with the items of a completed response and its calls pending. -/
def applyOutput (output : List Json) (calls : List ToolCall) (world : World) : World :=
  let accepted := GuidanceReceipts.acceptAll world.state.deliveredOnce output
  { world with
    state := { world.state with
      context := world.state.context ++ accepted.1
      deliveredOnce := accepted.2
      pendingTools := calls
      activeModelStep := none }
    transcriptDelta := world.transcriptDelta ++ accepted.1 }

/-- The phase after a completed response. -/
def nextPhase {encoding : Encoding} (output : ModelOutput encoding) (calls : List ToolCall) : ExecutionPhase :=
  if output.endTurn && calls.isEmpty then
    .completion (if output.text.isEmpty then none else some output.text)
  else .model

/-- The event of the assistant's message, at its transcript position. -/
def assistantEvents (submissionId : String) (sessionId : SessionId) (started : StartedStep)
    (content : List ModelStepContent) (target : Option MessageTarget) : List Event :=
  if content.isEmpty then []
  else [turnEvent submissionId (.assistantMessage
    ⟨sessionId, started.turnId, started.modelStepId, content, target⟩)]

/-- The completed response is saved with the events of its step. -/
def persistModelStep (submissionId turnId : String) (step : CompletedModelStep config.encoding)
    (loaded : String × List String) (plan : CallPlan) (output : List Json) : Agent Unit := do
  let before ← Proc.get
  let durable := insertBeforeOpenToolCalls (output ++ toolLoadItems loaded) plan.input
  Proc.modify (applyOutput durable plan.calls)
  let world ← Proc.get
  let contextBefore := before.state.context.length
  let messageIndex := durableVisibleMessageIndex (world.state.context.drop contextBefore)
    world.state.context contextBefore
  match checkedAdd step.started.stepIndex 1 with
  | none => Proc.fail (.checkpoint "model step index overflow")
  | some nextModelStep => do
    let active ← activeExecution "completed model step has no active execution"
    setExecution { active with
      nextModelStep := nextModelStep, phase := nextPhase step.output plan.calls }
    let diagnostics ← askOk env.diagnostics
    match checkedAdd world.state.sequence 1 with
    | none => Proc.fail (.checkpoint "checkpoint sequence overflow")
    | some sequence => do
      let completed ← modelStepCompletedEvent env submissionId step.started
        (.completed step.output.endTurn (plan.calls.map (·.callId)) step.output.usage)
        (some diagnostics)
      let target := messageIndex.map fun index =>
        (⟨sequence, 1 + (before.transcriptDelta.length + index)⟩ : MessageTarget)
      let usage ← usageEvent env submissionId none
      let events := completed :: (assistantEvents submissionId world.state.sessionId step.started
        step.output.content target ++
          toolLoadEvents submissionId turnId step.started.modelStepId loaded ++
          hookEvents submissionId plan.events ++ usage.toList)
      let previous ← getState
      modifyState fun state => { state with contextModelRoute := some world.provider }
      Proc.restoring (persistWithEvents env events none)
        (onState fun state => { state with contextModelRoute := previous.contextModelRoute })

def normalizeAndPersistModelStep (submissionId turnId : String) (step : CompletedModelStep config.encoding) :
    Agent (Option NormalizedModelStep) := do
  match ← Proc.attempt (planStep env step) with
  | .error error => do
    failModelStep env submissionId step.started error
    pure none
  | .ok (loaded, plan, output) => do
    let drained ← drainSubmissions env turnId
    match drained.interrupted with
    | some interruptId => do
      interruptModelStep env submissionId interruptId step.started
      pure none
    | none => do
      persistModelStep env submissionId turnId step loaded plan output
      pure (some ⟨plan.calls, plan.executable, plan.denied, step.streamed⟩)

def callsAt (indexes : List Nat) (calls : List ToolCall) : List ToolCall :=
  calls.zipIdx.filterMap fun entry => if indexes.contains entry.2 then some entry.1 else none

/-- The calls of a saved response: streamed results first, then the rest. -/
def runToolStep (submissionId turnId : String) (step : NormalizedModelStep) :
    Agent (Unit ⊕ Unit) := do
  let streamed ← waitActive env turnId (finishStreamed env step.streamed)
  match ← readyOrAborted env streamed turnId with
  | none => pure (.inr ())
  | some results => do
    let results ← Proc.ofExcept results
    let completion ← postToolResults env step.toolCalls results
    let ordered := orderResults step.toolCalls (completion.results ++ step.denied)
    persistToolResults env submissionId turnId ⟨ordered, completion.events⟩
    if step.executable.isEmpty then pure (.inl ())
    else do
      if ← authorizeAndExecute env submissionId turnId (callsAt step.executable step.toolCalls)
          step.executable.length then pure (.inr ())
      else pure (.inl ())

end Steps

end MobiusAgent.AgentModelStep
