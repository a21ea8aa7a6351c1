import MobiusAgent.AgentStreaming

/-!
# Tool authorization and paused approvals

The functions of `agent/approval.rs` with the authorization of
`backend/sandbox/approval.rs`: calls that need a decision wait for it in the
durable checkpoint, and a decision that arrived is noted there before any
call runs.
-/

namespace MobiusAgent.AgentApproval

open JsonValue ProtocolEvents CheckpointRecords AgentWorld AgentInput AgentTools AgentTurn
  AgentStreaming EffectLogic

/-- A decision of a frontend. -/
structure ApprovalResponse where
  submissionId : String
  decision : ReviewDecision

def approvalEvent (pending : PendingApproval) : Event :=
  turnEvent pending.submissionId pending.requestEvent

def deniedResults (config : Config) (calls : List ToolCall) (rejection : String) :
    List ToolResult :=
  calls.map fun call => errorResult config call ("tool denied: " ++ rejection)

variable {config : Config} (env : Surroundings config)

def approvalRound (pending : PendingApproval) (_ : Unit) :
    Agent (Unit ⊕ Wait ApprovalResponse) := do
  match ← ask env.inbox with
  | none => Proc.fail (.stopped "frontend disconnected during approval")
  | some received => do
    match ← routeActiveSubmission env received pending.turnId (some pending.requestId) with
    | .approval submissionId decision => pure (.inr (.ready ⟨submissionId, decision⟩ false))
    | .interrupted submissionId => pure (.inr (.interrupted submissionId))
    | .proceed _ => pure (.inl ())

def waitForApproval (pending : PendingApproval) : Agent (Wait ApprovalResponse) :=
  Proc.iterate (approvalRound env pending) config.fuel ()

/-- The calls of a denied batch that needed no decision still run. -/
def executeAllowed (pending : PendingApproval) (allowed : List ToolCall) :
    Agent (Option ToolCompletion) :=
  if allowed.isEmpty then pure (some ⟨[], []⟩)
  else do
    let execution ← executeTools env pending.submissionId pending.turnId allowed none
    readyOrAborted env execution pending.turnId

def applyApproval (pending : PendingApproval) (decision : ReviewDecision)
    (abortSubmissionId : String) : Agent (Option ToolCompletion) := do
  askOk env.service
  match decision with
  | .approved => do
    let execution ← executeTools env pending.submissionId pending.turnId pending.calls none
    readyOrAborted env execution pending.turnId
  | .approvedForSession => do
    let execution ← executeTools env pending.submissionId pending.turnId pending.calls none
    readyOrAborted env execution pending.turnId
  | .denied rejection => do
    let asked := fun call : ToolCall => pending.approvalCallIds.contains call.callId
    match ← executeAllowed env pending (pending.calls.filter fun call => !asked call) with
    | none => pure none
    | some completion =>
      let denied := deniedResults config (pending.calls.filter asked) rejection
      pure (some ⟨orderResults pending.calls (completion.results ++ denied), completion.events⟩)
  | .abort => do
    abort env abortSubmissionId pending.turnId "approval aborted" .aborted
    pure none

/-- A received decision is noted before it is applied. -/
def noteDecision (pending : PendingApproval) : Agent Unit := do
  let state ← getState
  match state.pendingApproval with
  | none => pure ()
  | some current =>
    if current.requestId = pending.requestId then do
      modifyState fun state =>
        { state with pendingApproval := some { current with decisionReceived := true } }
      save env
    else pure ()

/-- The decision on a paused batch is awaited and applied. -/
def resolveDecision (pending : PendingApproval) : Agent (Option ToolCompletion) := do
  let approval ← waitForApproval env pending
  match ← readyOrAborted env approval pending.turnId with
  | none => pure none
  | some response => do
    noteDecision env pending
    applyApproval env pending response.decision response.submissionId

def resolvePending (pending : PendingApproval) (reassertRequest : Bool) :
    Agent (Option ToolCompletion) := do
  if reassertRequest then do
    sendEvent env (approvalEvent pending)
    resolveDecision env pending
  else resolveDecision env pending

/-- The batch waits for a decision of the frontend. -/
def pauseForApproval (pending : PendingApproval) (events : List Event) :
    Agent (Option ToolCompletion) := do
  modifyState fun state => { state with pendingApproval := some pending }
  persistWithEvents env (events ++ [approvalEvent pending]) none
  resolvePending env pending false

/-- The events of a decision made by hooks are saved before it is applied. -/
def persistHookEvents (events : List Event) : Agent Unit :=
  if events.isEmpty then pure () else persistWithEvents env events none

def resolveToolApproval (submissionId turnId : String) (calls : List ToolCall)
    (requestId : String) (requested authorized : List String) : Agent (Option ToolCompletion) := do
  let _ ← activeExecution "active turn has no initiating message"
  let request ← askOk env.permissionRequest
  let events := hookEvents submissionId request.events
  let pending : PendingApproval := ⟨submissionId, turnId, requestId, requested, authorized, calls,
    "one or more tools require approval", env.sandboxMode, env.networkAccess, false⟩
  match request.decision with
  | some decision => do
    persistHookEvents env events
    applyApproval env pending decision submissionId
  | none => pauseForApproval env pending events

/-- The calls that a sandbox lets run and those that need a decision. -/
def authorizedCalls (config : Config) (approved : String → Bool) (calls : List ToolCall) :
    List String :=
  ((calls.filter fun call => config.requiresApproval call.name).map (·.callId)).filter approved

/-- `authorize_and_execute`: the turn ended, or it goes on. -/
def authorizeAndExecute (submissionId turnId : String) (calls : List ToolCall) (bindings : Nat) :
    Agent Bool := do
  let approved ← askOk env.approved
  let requested := requestedCalls config approved calls
  let results ← (do
    if requested.isEmpty then do
      let tools ← executeTools env submissionId turnId calls (some bindings)
      readyOrAborted env tools turnId
    else do
      let requestId ← ask env.uuid
      resolveToolApproval env submissionId turnId calls requestId requested
        (authorizedCalls config approved calls))
  match results with
  | none => pure true
  | some results => do
    completeToolStep env submissionId turnId results
    pure false

end MobiusAgent.AgentApproval
