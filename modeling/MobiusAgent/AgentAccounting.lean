import MobiusAgent.AgentWorld

/-!
# Accounting of executions

The counters of `agent/mod.rs`: model calls, token usage and tool calls of
the running execution, and the terminal record that ends it. Each counter is
staged, so that an overflow leaves all of them as they were.
-/

namespace MobiusAgent.AgentAccounting

open JsonValue ProtocolEvents CheckpointRecords AgentWorld EffectLogic

variable {config : Config} (env : Surroundings config)

def usageOverflow : Error := .provider "provider token usage exceeds the supported range" false

def recordModelCall : Agent Unit := do
  let active ← activeExecution "model called without an active execution"
  match checkedAdd active.modelCalls 1 with
  | none => Proc.fail (.checkpoint "execution model-call count overflow")
  | some modelCalls => setExecution { active with modelCalls := modelCalls }

def recordUsage (usage : TokenUsage) : Agent Unit := do
  let state ← getState
  match state.totalUsage.checkedSum usage with
  | none => Proc.fail usageOverflow
  | some totalUsage => do
    let active ← activeExecution "usage recorded without an active execution"
    match active.usage.checkedSum usage with
    | none => Proc.fail usageOverflow
    | some executionUsage => do
      askOk env.service
      modifyState fun state =>
        { state with
          totalUsage := totalUsage
          activeExecution := some { active with usage := executionUsage } }

def recordTools (toolCalls failedToolCalls : Nat) : Agent Unit := do
  let active ← activeExecution "tools recorded without an active execution"
  match checkedAdd active.toolCalls toolCalls with
  | none => Proc.fail (.checkpoint "execution tool-call count overflow")
  | some toolCalls =>
    match checkedAdd active.failedToolCalls failedToolCalls with
    | none => Proc.fail (.checkpoint "execution failed-tool count overflow")
    | some failedToolCalls =>
      setExecution { active with toolCalls := toolCalls, failedToolCalls := failedToolCalls }

/-- Record usages one after another. -/
def recordUsages : List TokenUsage → Agent Unit
  | [] => pure ()
  | usage :: rest => do
    recordUsage env usage
    recordUsages rest

def finishExecution (outcome : ExecutionOutcome) : Agent ExecutionRecord := do
  let finishedAtMs ← askOk env.clock
  let state ← getState
  let finished := state.finishExecution outcome finishedAtMs
  match finished.1 with
  | .error error => Proc.fail error
  | .ok execution => do
    modifyState fun _ => finished.2
    pure execution

def finishAndPersistExecution (outcome : ExecutionOutcome) (events : List Event) : Agent Unit := do
  let previous ← getState
  let execution ← finishExecution env outcome
  Proc.restoring (persistWithEvents env events (some execution)) (onState fun state =>
    { state with
      activeExecution := previous.activeExecution
      executionStats := previous.executionStats })

end MobiusAgent.AgentAccounting
