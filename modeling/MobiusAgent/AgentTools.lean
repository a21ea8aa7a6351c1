import MobiusAgent.AgentInput

/-!
# Tool execution and result persistence

The functions of `agent/tool_step.rs` with the parts of
`middleware/tools.rs` they call: the hooks around a call, the execution of a
batch while submissions arrive, and the results that enter the context. A
call counts as handed to its tool when its batch starts, so the log may name
a call that an interrupt kept from its handler, never the other way round.
-/

namespace MobiusAgent.AgentTools

open JsonValue ProtocolEvents CheckpointRecords ContextItems MessageQueue AgentWorld
  AgentAccounting AgentInput EffectLogic

/-- The result returned to the model for one tool call. -/
structure ToolResult where
  callId : String
  name : String
  output : List ContentPart
  isError : Bool
  /-- The usage it was paid with, and its route. -/
  usage : Option (String × TokenUsage)
  handlerExecuted : Bool
  /-- Items put after the output. -/
  additionalInput : List Json
  events : List HookEvent

/-- Results and the events of their hooks. -/
structure ToolCompletion where
  results : List ToolResult
  events : List HookEvent

/-- Calls bound for execution, apart from those that cannot run. -/
structure BoundBatch where
  /-- The bound calls, as they will run. -/
  bound : List ToolCall
  /-- The same calls, as they were given. -/
  callable : List ToolCall
  rejected : List ToolResult

/-- What the hooks left of one call. -/
structure PreparedUse where
  call : ToolCall
  /-- Whether a hook rewrote it. -/
  changed : Bool
  denial : Option ToolResult
  /-- Items put before the call. -/
  input : List Json
  events : List HookEvent

/-- The byte limit of a tool's name. -/
def maxToolNameBytes : Nat := 256

/-- The byte limit of a call's arguments. -/
def maxToolArgumentBytes : Nat := 4 * 1024 * 1024

section Results

variable (config : Config)

/-- `ToolResult::error`. -/
def errorResult (call : ToolCall) (text : String) : ToolResult :=
  ⟨call.callId, call.name, [.text (config.capped text)], true, none, false, [], []⟩

def outcomeResult (call : ToolCall) (outcome : ToolOutcome) : ToolResult :=
  ⟨call.callId, call.name, outcome.output, outcome.isError, outcome.usage,
    outcome.handlerExecuted, outcome.additionalInput, outcome.events⟩

def interruptedResults (calls : List ToolCall) (message : String) : List ToolResult :=
  calls.map fun call => errorResult config call message

/-- `ToolCall::replace`. -/
def replaceCall (call : ToolCall) (name : String) (arguments : Json) : Except Error ToolCall :=
  let about := "tool call `" ++ call.callId ++ "` "
  if isBlank name then .error (.tool (about ++ "name is empty"))
  else if maxToolNameBytes < name.utf8ByteSize then
    .error (.tool (about ++ "name exceeded size limit"))
  else if arguments.asObject.isNone then
    .error (.tool (about ++ "arguments must be a JSON object"))
  else if maxToolArgumentBytes < (config.encoding.arguments arguments).utf8ByteSize then
    .error (.tool (about ++ "arguments exceeded size limit"))
  else .ok { call with name := name, arguments := arguments }

/-- The replacements of a call in order, and whether one changed it. -/
def replaceAll (call : ToolCall) (changed : Bool) :
    List (String × Json) → Except Error (ToolCall × Bool)
  | [] => .ok (call, changed)
  | (name, arguments) :: rest =>
    match replaceCall config call name arguments with
    | .error error => .error error
    | .ok replaced =>
      replaceAll replaced (changed || call.name != name || call.arguments != arguments) rest

/-- `swap_remove`: the last element takes the place of the removed one. -/
def swapRemove {α : Type} (items : List α) (index : Nat) : List α :=
  match items.getLast? with
  | none => items
  | some last => (items.set index last).dropLast

/-- `order_results`: the results in the order of their calls. -/
def orderResults : List ToolCall → List ToolResult → List ToolResult
  | [], _ => []
  | call :: rest, results =>
    match rposition (fun result : ToolResult => result.callId == call.callId) results with
    | none => orderResults rest results
    | some index =>
      match results[index]? with
      | none => orderResults rest results
      | some result => result :: orderResults rest (swapRemove results index)

def batchUsage (total : Option TokenUsage) : List ToolResult → Except Error (Option TokenUsage)
  | [] => .ok total
  | result :: rest =>
    match result.usage with
    | none => batchUsage total rest
    | some (_, usage) =>
      match (total.getD {}).checkedSum usage with
      | none => .error usageOverflow
      | some sum => batchUsage (some sum) rest

def toolResultEvent (submissionId turnId : String) (result : ToolResult) : List Event :=
  turnEvent submissionId
      (.toolCallEnd turnId result.callId result.name result.output result.isError) ::
    hookEvents submissionId result.events

def toolResultEvents (submissionId turnId : String) (results : List ToolResult) : List Event :=
  results.flatMap (toolResultEvent submissionId turnId)

/-- `cancels_on_input`: every call, and at least one, is cancelled by newer input. -/
def cancelsOnInput (calls : List ToolCall) : Bool :=
  !calls.isEmpty && calls.all fun call => config.cancelOnInput call.name

/-- `bind_batch` with a number of bindings made before. -/
def bindGiven : Nat → List ToolCall → BoundBatch
  | _, [] => ⟨[], [], []⟩
  | 0, call :: rest =>
    let later := bindGiven 0 rest
    { later with
      rejected :=
        errorResult config call (Error.tool "tool call has no binding").display :: later.rejected }
  | bindings + 1, call :: rest =>
    let later := bindGiven bindings rest
    { later with bound := call :: later.bound, callable := call :: later.callable }

end Results

section Steps

variable {config : Config} (env : Surroundings config)

def usageEvent (submissionId : String) (accounting : Option TokenUsage) : Agent (Option Event) := do
  let world ← Proc.get
  let breakdown ← ask env.breakdown
  match accounting.orElse fun _ => world.state.lastUsage with
  | none => pure none
  | some last =>
    let context := if accounting.isNone then breakdown else none
    let info := ⟨world.state.totalUsage, last, some world.contextWindow, context⟩
    pure (some (turnEvent submissionId (.tokenCount (some info) none)))

/-- `bind_in_place`: the call as it will run and whether its arguments were repaired. -/
def bindCall (call : ToolCall) : Agent (Except Error (ToolCall × Bool)) := do
  match ← ask env.bind with
  | .error error => pure (.error error)
  | .ok none => pure (.ok (call, false))
  | .ok (some arguments) => pure (.ok ({ call with arguments := arguments }, true))

def prepareToolCall (call : ToolCall) : Agent PreparedUse := do
  let world ← Proc.get
  let _ ← activeExecution "active turn has no initiating message"
  note (.hooked world.originStep call.callId)
  let use ← askOk env.preToolUse
  let (replaced, changed) ← Proc.ofExcept (replaceAll config call false use.replacements)
  let denial := use.denial.map fun reason =>
    errorResult config replaced ("tool call denied: " ++ reason)
  pure ⟨replaced, changed, denial, use.input, use.events⟩

/-- One result after its hooks. -/
def postToolResult (calls : List ToolCall) (result : ToolResult) :
    Agent (ToolResult × List HookEvent) := do
  match calls.find? fun call => call.callId == result.callId with
  | none => Proc.fail (.tool "tool result has no matching call")
  | some _ =>
    if result.handlerExecuted then do
      let _ ← activeExecution "active turn has no initiating message"
      let use ← askOk env.postToolUse
      let output := use.output.getD result.output
      pure ({ result with
        output := output, additionalInput := result.additionalInput ++ use.input }, use.events)
    else pure (result, [])

def postToolResults (calls : List ToolCall) : List ToolResult → Agent ToolCompletion
  | [] => pure ⟨[], []⟩
  | result :: rest => do
    let (result, events) ← postToolResult env calls result
    let later ← postToolResults calls rest
    pure ⟨result :: later.results, events ++ later.events⟩

/-- `bind_batch` after an approval wait: each call is bound again. -/
def bindLive : List ToolCall → Agent BoundBatch
  | [] => pure ⟨[], [], []⟩
  | call :: rest => do
    let binding ← bindCall env call
    let later ← bindLive rest
    match binding with
    | .error error =>
      pure { later with rejected := errorResult config call error.display :: later.rejected }
    | .ok (bound, _) =>
      pure { later with bound := bound :: later.bound, callable := call :: later.callable }

/-- Announce the start of calls. -/
def beginCalls (submissionId turnId : String) : List ToolCall → Agent Unit
  | [] => pure ()
  | call :: rest => do
    emit env submissionId (.toolCallBegin turnId call.callId call.name call.arguments)
    beginCalls submissionId turnId rest

/-- Note that calls are handed to their tools. -/
def dispatchAll : List ToolCall → Agent Unit
  | [] => pure ()
  | call :: rest => do
    let world ← Proc.get
    note (.dispatched world.originStep call)
    dispatchAll rest

/-- `execute_batch`: one result for each bound call. -/
def executeBatch : List ToolCall → Agent (List ToolResult)
  | [] => pure []
  | call :: rest => do
    let outcome ← ask env.toolOutcome
    let later ← executeBatch rest
    pure (outcomeResult call outcome :: later)

/-- The results of calls that newer input cancelled while they ran. -/
def cancelledResults (config : Config) (callable : List ToolCall) : List ToolResult :=
  interruptedResults config callable "execution cancelled by newer input; result unknown"

/-- The end of a batch: its results and whether it was executed. -/
abbrev BatchEnd := Wait (List ToolResult × Bool)

/-- The batch is done; submissions sent before it are routed first. -/
def batchDone (turnId : String) (cancelOnInput : Bool) (batch : BoundBatch)
    (inputChanged : Bool) : Agent (Bool ⊕ BatchEnd) := do
  let results ← executeBatch env batch.bound
  let drained ← drainSubmissions env turnId
  match drained.interrupted with
  | some submissionId => pure (.inr (.interrupted submissionId))
  | none =>
    if cancelOnInput && drained.inputChanged then
      pure (.inr (.ready (cancelledResults config batch.callable, false) true))
    else pure (.inr (.ready (results, true) (inputChanged || drained.inputChanged)))

/-- A submission arrives while the batch runs. -/
def batchSubmission (turnId : String) (cancelOnInput : Bool) (batch : BoundBatch)
    (inputChanged : Bool) : Agent (Bool ⊕ BatchEnd) := do
  match ← ask env.inbox with
  | none => Proc.fail (.stopped frontendDisconnectedReason)
  | some received => do
    match ← routeActiveSubmission env received turnId none with
    | .interrupted submissionId => pure (.inr (.interrupted submissionId))
    | .approval _ _ => pure (.inl inputChanged)
    | .proceed changed =>
      if changed && cancelOnInput then
        pure (.inr (.ready (cancelledResults config batch.callable, false) true))
      else pure (.inl (inputChanged || changed))

/-- One round of the loop of `execute_tools`. -/
def batchRound (turnId : String) (cancelOnInput : Bool) (batch : BoundBatch)
    (inputChanged : Bool) : Agent (Bool ⊕ BatchEnd) := do
  let drained ← drainSubmissions env turnId
  match drained.interrupted with
  | some submissionId => pure (.inr (.interrupted submissionId))
  | none =>
    if cancelOnInput && drained.inputChanged then
      pure (.inr (.ready (cancelledResults config batch.callable, false) true))
    else do
      if ← ask env.ready then
        batchDone env turnId cancelOnInput batch (inputChanged || drained.inputChanged)
      else batchSubmission env turnId cancelOnInput batch (inputChanged || drained.inputChanged)

/-- The batch runs while submissions are routed, and its results are completed. -/
def runBatch (turnId : String) (calls : List ToolCall) (batch : BoundBatch) (cancelOnInput : Bool)
    (inputChanged : Bool) : Agent (Wait ToolCompletion) := do
  let _ ← activeExecution "active turn has no initiating message"
  dispatchAll batch.bound
  match ← Proc.iterate (batchRound env turnId cancelOnInput batch) config.fuel inputChanged with
  | .interrupted submissionId => pure (.interrupted submissionId)
  | .ready (results, executed) inputChanged =>
    let ordered := orderResults calls (results ++ batch.rejected)
    if executed then do
      let completion ← postToolResults env calls ordered
      pure (.ready completion inputChanged)
    else pure (.ready ⟨ordered, []⟩ inputChanged)

/-- The batch of `execute_tools`, bound before or bound again. -/
def bindCalls (calls : List ToolCall) (bindings : Option Nat) : Agent BoundBatch :=
  match bindings with
  | some bindings => pure (bindGiven config bindings calls)
  | none => do
    askOk env.service
    bindLive env calls

def executeTools (submissionId turnId : String) (calls : List ToolCall) (bindings : Option Nat) :
    Agent (Wait ToolCompletion) := do
  let batch ← bindCalls env calls bindings
  beginCalls env submissionId turnId batch.callable
  let cancelOnInput := cancelsOnInput config batch.callable
  let drained ← drainSubmissions env turnId
  match drained.interrupted with
  | some submissionId => pure (.interrupted submissionId)
  | none => do
    let state ← getState
    if cancelOnInput && (drained.inputChanged || messagesReady state.pendingMessages turnId) then
      let cancelled := interruptedResults config batch.callable
        "execution cancelled before start because newer input is ready"
      pure (.ready ⟨orderResults calls (cancelled ++ batch.rejected), []⟩ true)
    else runBatch env turnId calls batch cancelOnInput drained.inputChanged

/-- The context items of results, in order. -/
def pushResults (encoding : Encoding) : List ToolResult → Agent Unit
  | [] => pure ()
  | result :: rest => do
    pushContext (toolOutput encoding result.callId result.output result.isError)
    extendContext result.additionalInput
    pushResults encoding rest

def appendToolResults (results : List ToolResult) : Agent Unit := do
  recordTools results.length (results.filter (·.isError)).length
  recordUsages env ((results.filterMap (·.usage)).map Prod.snd)
  modifyState fun state =>
    { state with
      pendingTools := state.pendingTools.filter fun call =>
        !(results.map (·.callId)).contains call.callId }
  pushResults config.encoding results

def restoreCounters (previous : Option ActiveExecution) (active : ActiveExecution) :
    ActiveExecution :=
  match previous with
  | none => active
  | some before =>
    { active with
      toolCalls := before.toolCalls
      failedToolCalls := before.failedToolCalls
      usage := before.usage }

/-- The world before results were appended, when they cannot be saved. -/
def undoToolResults (previous world : World) : World :=
  let length := previous.state.context.length
  { world with
    state := { world.state with
      pendingTools := previous.state.pendingTools
      activeExecution := world.state.activeExecution.map
        (restoreCounters previous.state.activeExecution)
      totalUsage := previous.state.totalUsage
      deliveredOnce :=
        GuidanceReceipts.rollback world.state.deliveredOnce (world.state.context.drop length)
      context := world.state.context.take length }
    transcriptDelta := world.transcriptDelta.take previous.transcriptDelta.length }

def toolUsageEvent (submissionId : String) (usage : Option TokenUsage) : Agent (List Event) := do
  if usage.isSome then
    let event ← usageEvent env submissionId usage
    pure event.toList
  else pure []

/-- Append the results and save them with their events. -/
def saveToolResults (submissionId turnId : String) (completion : ToolCompletion)
    (usage : Option TokenUsage) : Agent Unit := do
  appendToolResults env completion.results
  let usageEvents ← toolUsageEvent env submissionId usage
  persistWithEvents env (hookEvents submissionId completion.events ++
    toolResultEvents submissionId turnId completion.results ++ usageEvents) none

def persistToolResults (submissionId turnId : String) (completion : ToolCompletion) :
    Agent Unit := do
  if completion.results.isEmpty && completion.events.isEmpty then pure ()
  else do
    let usage ← Proc.ofExcept (batchUsage none completion.results)
    let previous ← Proc.get
    Proc.restoring (saveToolResults env submissionId turnId completion usage)
      (undoToolResults previous)

def completeToolStep (submissionId turnId : String) (completion : ToolCompletion) :
    Agent Unit := do
  let previous ← getState
  modifyState fun state => { state with pendingApproval := none }
  Proc.restoring (persistToolResults env submissionId turnId completion)
    (onState fun state => { state with pendingApproval := previous.pendingApproval })

/-- The calls of an unfinished model step enter the context before their results. -/
def recordStreamedCalls (encoding : Encoding) (state : Checkpoint) : Agent Unit :=
  if state.activeModelStep.isSome then
    extendContext (state.pendingTools.map (toolCallInput encoding))
  else pure ()

def finishPendingTools (submissionId turnId reason : String) : Agent (List Event) := do
  let state ← getState
  modifyState fun state => { state with pendingTools := [] }
  recordStreamedCalls config.encoding state
  let results := interruptedResults config state.pendingTools
    ("execution interrupted; result unknown: " ++ reason)
  if results.isEmpty then pure []
  else do
    appendToolResults env results
    pure (toolResultEvents submissionId turnId results)

end Steps

end MobiusAgent.AgentTools
