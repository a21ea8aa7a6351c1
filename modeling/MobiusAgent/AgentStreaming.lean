import MobiusAgent.AgentPreparation

/-!
# Tools that start while a response streams

The functions of `agent/turn/streaming.rs`: a complete call is bound, passes
its hooks, is listed in the durable checkpoint and is then handed to its
tool, all while the response still streams. The first call that cannot run at
once defers every later one to the end of the response.
-/

namespace MobiusAgent.AgentStreaming

open JsonValue ProtocolEvents CheckpointRecords ContextItems AgentWorld AgentInput AgentTools
  EffectLogic

/-- One streamed call prepared before the response completed. -/
structure PreparedCall where
  /-- The normalized or rewritten call, when it differs from the provider's. -/
  call : Option ToolCall
  /-- Whether a hook rewrote the call. -/
  rewritten : Bool
  /-- Whether the current call is bound. -/
  bound : Bool

/-- The calls of a streaming response. -/
structure StreamedTools where
  /-- The calls as the provider sent them. -/
  originals : List ToolCall
  calls : List PreparedCall
  denied : List ToolResult
  /-- Items put before the calls. -/
  hookInput : List Json
  hookEvents : List HookEvent
  /-- The calls handed to their tools. -/
  started : List String
  /-- Those that still run, oldest first. -/
  running : List ToolCall
  results : List ToolResult
  /-- Whether later calls wait for the end of the response. -/
  deferred : Bool

/-- Nothing was streamed. -/
def StreamedTools.empty : StreamedTools := ⟨[], [], [], [], [], [], [], [], false⟩

/-- The state of a streaming response. -/
structure StreamState where
  streamed : StreamedTools
  /-- The ids that `StreamingToolCalls` accepted. -/
  seen : List String
  /-- Whether calls may still come. -/
  callsOpen : Bool
  inputChanged : Bool

/-- How a streaming response ended. -/
structure StreamEnd (encoding : Encoding) where
  /-- The response, an interrupt or an error. -/
  outcome : Except Error (Wait (Except Error (ModelOutput encoding)))
  streamed : StreamedTools

/-- `StreamingToolCalls::accept`, as far as it names calls. -/
def acceptStreamedCall (seen : List String) (call : ToolCall) : Bool :=
  !isBlank call.callId && !isBlank call.name && call.arguments.asObject.isSome &&
    !seen.contains call.callId

section Streaming

variable {config : Config} (env : Surroundings config)

/-- The calls of a batch that need a decision before they run. -/
def requestedCalls (config : Config) (approved : String → Bool) (calls : List ToolCall) :
    List String :=
  ((calls.filter fun call => config.requiresApproval call.name).map (·.callId)).filter
    fun callId => !approved callId

def authorizeStreamedTool (call : ToolCall) : Agent Bool := do
  let approved ← askOk env.approved
  pure (requestedCalls config approved [call]).isEmpty

/-- The call is listed in the durable checkpoint and handed to its tool. -/
def launchStreamedTool (call : ToolCall) : Agent Unit := do
  modifyState fun state => { state with pendingTools := state.pendingTools ++ [call] }
  Proc.restoring (save env)
    (onState fun state => { state with pendingTools := state.pendingTools.dropLast })
  let _ ← activeExecution "active turn has no initiating message"
  let world ← Proc.get
  note (.dispatched world.originStep call)

/-- The binding of a prepared call: a rewritten one is bound again. -/
def bindPrepared (use : PreparedUse) : Agent (Option ToolCall) := do
  if use.changed then
    if cancelsOnInput config [use.call] then pure none
    else do
      match ← bindCall env use.call with
      | .error _ => pure none
      | .ok (bound, _) => pure (some bound)
  else pure (some use.call)

/-- A slot for a call that waits for the end of the response. -/
def deferCall (streamed : StreamedTools) (prepared : PreparedCall) : StreamedTools :=
  { streamed with calls := streamed.calls ++ [prepared], deferred := true }

/-- A prepared call is authorized and launched, or deferred. -/
def startPreparedTool (streamed : StreamedTools) (use : PreparedUse) (repaired : Bool) :
    Agent StreamedTools := do
  let rewritten := use.changed || repaired
  match ← bindPrepared env use with
  | none =>
    pure (deferCall streamed ⟨if rewritten then some use.call else none, use.changed, false⟩)
  | some call =>
    let snapshot := if rewritten then some call else none
    if ← authorizeStreamedTool env call then do
      launchStreamedTool env call
      pure { streamed with
        calls := streamed.calls ++ [⟨snapshot, use.changed, false⟩]
        started := streamed.started ++ [call.callId]
        running := streamed.running ++ [call] }
    else pure (deferCall streamed ⟨snapshot, use.changed, true⟩)

/-- A call after its hooks: a denied or annotated one waits. -/
def streamHookedTool (streamed : StreamedTools) (use : PreparedUse) (repaired : Bool) :
    Agent StreamedTools := do
  if use.denial.isSome || !use.input.isEmpty || !use.events.isEmpty then
    let call := if use.changed || repaired then some use.call else none
    let waiting := deferCall streamed ⟨call, use.changed, !use.changed⟩
    pure { waiting with
      hookInput := streamed.hookInput ++ use.input
      hookEvents := streamed.hookEvents ++ use.events
      denied := streamed.denied ++ use.denial.toList }
  else startPreparedTool env streamed use repaired

def noteRepair (repaired : Bool) (callId : String) : Agent Unit := do
  let world ← Proc.get
  if repaired then note (.repaired world.originStep callId) else pure ()

/-- `start_streamed_tool`. Once hooks run, the response may no longer be retried. -/
def startStreamedTool (streamed : StreamedTools) (original : ToolCall) :
    Agent (Except Error Unit × StreamedTools) := do
  if streamed.deferred || cancelsOnInput config [original] then
    pure (.ok (), { streamed with deferred := true })
  else do
    match ← bindCall env original with
    | .error _ => pure (.ok (), { streamed with deferred := true })
    | .ok (call, repaired) => do
      noteRepair repaired call.callId
      let hooked := { streamed with originals := streamed.originals ++ [original] }
      let result ← Proc.attempt (do
        let use ← prepareToolCall env call
        streamHookedTool env hooked use repaired)
      match result with
      | .ok next => pure (.ok (), next)
      | .error error => pure (.error error, hooked)

def finishRunningTool (encoding : Encoding) (state : StreamState)
    (outcome : Except Error ToolOutcome) : StreamState ⊕ StreamEnd encoding :=
  match state.streamed.running, outcome with
  | [], _ => .inl state
  | _ :: rest, .error error => .inr ⟨.error error, { state.streamed with running := rest }⟩
  | call :: rest, .ok outcome =>
    .inl { state with
      streamed := { state.streamed with
        running := rest
        results := state.streamed.results ++ [outcomeResult call outcome] } }

def streamCall (state : StreamState) (call : ToolCall) :
    Agent (StreamState ⊕ StreamEnd config.encoding) := do
  if state.callsOpen && acceptStreamedCall state.seen call then do
    let world ← Proc.get
    note (.streamed world.originStep call)
    let (started, streamed) ← startStreamedTool env state.streamed call
    match started with
    | .error error => pure (.inr ⟨.error error, streamed⟩)
    | .ok () =>
      pure (.inl { state with streamed := streamed, seen := state.seen ++ [call.callId] })
  else pure (.inl state)

/-- One round of `wait_streamed_response`. -/
def streamRound (turnId : String) (state : StreamState) :
    Agent (StreamState ⊕ StreamEnd config.encoding) := do
  match ← Proc.attempt (waitActive env turnId (ask env.progress)) with
  | .error error => pure (.inr ⟨.error error, state.streamed⟩)
  | .ok (.interrupted submissionId) =>
    pure (.inr ⟨.ok (.interrupted submissionId), state.streamed⟩)
  | .ok (.ready progress changed) =>
    let state := { state with inputChanged := state.inputChanged || changed }
    match progress with
    | .response output => pure (.inr ⟨.ok (.ready output state.inputChanged), state.streamed⟩)
    | .tool outcome => pure (finishRunningTool config.encoding state outcome)
    | .call none => pure (.inl { state with callsOpen := false })
    | .call (some call) => streamCall env state call

def waitStreamedResponse : Agent (StreamEnd config.encoding) := do
  let state ← getState
  match state.activeExecution with
  | none =>
    pure ⟨.error (.checkpoint "streaming response has no active execution"), .empty⟩
  | some active =>
    Proc.iterate (streamRound env active.turnId) config.fuel ⟨.empty, [], true, false⟩

/-- The results of the tools that still run. -/
def awaitRunning : List ToolCall → Agent (Except Error (List ToolResult))
  | [] => pure (.ok [])
  | call :: rest => do
    match ← ask env.streamedOutcome with
    | .error error => pure (.error error)
    | .ok outcome => do
      match ← awaitRunning rest with
      | .error error => pure (.error error)
      | .ok later => pure (.ok (outcomeResult call outcome :: later))

/-- `StreamedTools::finish`. -/
def finishStreamed (streamed : StreamedTools) : Agent (Except Error (List ToolResult)) := do
  match ← awaitRunning env streamed.running with
  | .error error => pure (.error error)
  | .ok later => pure (.ok (streamed.results ++ later))

end Streaming

end MobiusAgent.AgentStreaming
