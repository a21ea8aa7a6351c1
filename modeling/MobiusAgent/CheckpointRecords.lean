import Mathlib.Data.Finset.Insert
import MobiusAgent.ProtocolEvents

/-!
# Durable checkpoint records

The records of `backend/checkpoint/mod.rs`: the checkpoint with its header
and context, the running execution, the terminal execution record, the
aggregate statistics and the queued messages. The header is a structure of
its own, because the store keeps it apart from the context.
-/

namespace MobiusAgent.CheckpointRecords

open JsonValue ProtocolEvents

def checkpointVersion : Nat := 21

/-- The durable limit on queued messages. -/
def maxQueuedMessages : Nat := 1024

/-- The byte limit of a queued message's owner. -/
def maxQueuedOwnerBytes : Nat := 256

/-- The byte limit of a queued message's id. -/
def maxQueuedIdBytes : Nat := 4 * 1024

/-- The byte limit of the turn id a queued message steers. -/
def maxQueuedTurnIdBytes : Nat := 4 * 1024

/-- Durable phase of the turn currently running. -/
inductive ExecutionPhase where
  | model
  | completion (lastAssistantMessage : Option String)
  deriving DecidableEq

/-- Mutable state for the turn currently running. -/
structure ActiveExecution where
  submissionId : String
  /-- Provenance of the message that initiated this execution. -/
  author : MessageAuthor
  turnId : String
  /-- The start time in milliseconds. -/
  startedAtMs : Int
  modelCalls : Nat
  toolCalls : Nat
  failedToolCalls : Nat
  usage : TokenUsage
  nextModelStep : Nat
  /-- Whether a stop hook asked the turn to continue. -/
  stopHookActive : Bool
  phase : ExecutionPhase
  /-- A hidden turn started by the idle timer. -/
  idle : Bool
  deriving DecidableEq

/-- The model step currently in flight. -/
structure ActiveModelStep where
  modelStepId : String
  stepIndex : Nat
  /-- The start time in milliseconds. -/
  startedAtMs : Int
  deriving DecidableEq

/-- Terminal outcome of one turn. -/
inductive ExecutionOutcome where
  | completed
  | aborted
  | failed
  deriving DecidableEq

/-- Durable observability record for one completed turn. -/
structure ExecutionRecord where
  sessionId : SessionId
  submissionId : String
  author : MessageAuthor
  turnId : String
  /-- The start time in milliseconds. -/
  startedAtMs : Int
  /-- The finish time in milliseconds. -/
  finishedAtMs : Int
  elapsedMs : Nat
  outcome : ExecutionOutcome
  modelCalls : Nat
  toolCalls : Nat
  failedToolCalls : Nat
  usage : TokenUsage
  deriving DecidableEq

/-- Aggregate execution metrics for one session. -/
structure ExecutionStats where
  runCount : Nat := 0
  failedRunCount : Nat := 0
  abortedRunCount : Nat := 0
  modelCalls : Nat := 0
  toolCalls : Nat := 0
  failedToolCalls : Nat := 0
  elapsedMs : Nat := 0
  usage : TokenUsage := {}
  deriving DecidableEq

namespace ExecutionStats

/-- Componentwise sum, without a range check. -/
def sum (a b : ExecutionStats) : ExecutionStats :=
  ⟨a.runCount + b.runCount, a.failedRunCount + b.failedRunCount,
    a.abortedRunCount + b.abortedRunCount, a.modelCalls + b.modelCalls,
    a.toolCalls + b.toolCalls, a.failedToolCalls + b.failedToolCalls,
    a.elapsedMs + b.elapsedMs, a.usage.sum b.usage⟩

def checkedSum (a b : ExecutionStats) : Option ExecutionStats := do
  let runCount ← checkedAdd a.runCount b.runCount
  let failedRunCount ← checkedAdd a.failedRunCount b.failedRunCount
  let abortedRunCount ← checkedAdd a.abortedRunCount b.abortedRunCount
  let modelCalls ← checkedAdd a.modelCalls b.modelCalls
  let toolCalls ← checkedAdd a.toolCalls b.toolCalls
  let failedToolCalls ← checkedAdd a.failedToolCalls b.failedToolCalls
  let elapsedMs ← checkedAdd a.elapsedMs b.elapsedMs
  let usage ← a.usage.checkedSum b.usage
  some ⟨runCount, failedRunCount, abortedRunCount, modelCalls, toolCalls, failedToolCalls,
    elapsedMs, usage⟩

/-- What one record contributes to the counters, its usage apart. -/
def contribution (record : ExecutionRecord) : ExecutionStats where
  runCount := 1
  failedRunCount := if record.outcome = .failed then 1 else 0
  abortedRunCount := if record.outcome = .aborted then 1 else 0
  modelCalls := record.modelCalls
  toolCalls := record.toolCalls
  failedToolCalls := record.failedToolCalls
  elapsedMs := record.elapsedMs

/-- Stage the sum so overflow leaves the existing aggregate unchanged. -/
def checkedRecord (stats : ExecutionStats) (record : ExecutionRecord) : Option ExecutionStats := do
  let usage ← stats.usage.checkedSum record.usage
  let next ← stats.checkedSum (contribution record)
  some { next with usage := usage }

/-- The statistics of one record alone. -/
def ofRecord (record : ExecutionRecord) : ExecutionStats :=
  { contribution record with usage := record.usage }

theorem checkedSum_eq_some {a b c : ExecutionStats} (h : a.checkedSum b = some c) :
    c = a.sum b := by
  simp only [checkedSum, Option.bind_eq_bind, Option.bind_eq_some_iff] at h
  obtain ⟨r, hr, f, hf, ab, hab, m, hm, t, ht, ft, hft, e, he, u, hu, h⟩ := h
  rw [Option.some.injEq] at h
  subst h
  rw [checkedAdd_eq_some hr, checkedAdd_eq_some hf, checkedAdd_eq_some hab,
    checkedAdd_eq_some hm, checkedAdd_eq_some ht, checkedAdd_eq_some hft,
    checkedAdd_eq_some he, TokenUsage.checkedSum_eq_some hu]
  rfl

theorem checkedRecord_eq_some {stats next : ExecutionStats} {record : ExecutionRecord}
    (h : stats.checkedRecord record = some next) : next = stats.sum (ofRecord record) := by
  simp only [checkedRecord, Option.bind_eq_bind, Option.bind_eq_some_iff] at h
  obtain ⟨usage, husage, counts, hcounts, h⟩ := h
  rw [Option.some.injEq] at h
  subst h
  rw [checkedSum_eq_some hcounts, TokenUsage.checkedSum_eq_some husage]
  rfl

end ExecutionStats

/-- One intentional replacement of active model history. -/
inductive ContextRewriteReason where
  /-- Attachment images were bounded. -/
  | attachments
  /-- The context was compacted. -/
  | compaction
  /-- Another model route replays the context. -/
  | modelChange
  | memory
  deriving DecidableEq

/-- The latest deliberate active-context rewrite. -/
structure ContextRewrite where
  epoch : Nat
  reasons : List ContextRewriteReason
  deriving DecidableEq

/-- Isolation of a sandboxed operation. -/
inductive SandboxMode where
  | workspaceWrite
  | dangerFullAccess
  deriving DecidableEq

/-- Network access of a sandboxed operation. -/
inductive NetworkAccess where
  | denied
  | allowed
  deriving DecidableEq

/-- A tool batch waiting for a frontend decision. -/
structure PendingApproval where
  submissionId : String
  turnId : String
  requestId : String
  approvalCallIds : List String
  authorizedCallIds : List String
  calls : List ToolCall
  reason : String
  sandboxMode : SandboxMode
  networkAccess : NetworkAccess
  decisionReceived : Bool
  deriving DecidableEq

/-- The request shown to frontends: only the calls awaiting approval. -/
def PendingApproval.requestEvent (approval : PendingApproval) : EventMsg :=
  .execApprovalRequest approval.requestId approval.turnId
    (approval.calls.filter fun call => approval.approvalCallIds.contains call.callId)
    approval.reason

inductive QueuedMessageBoundary where
  | turn
  | steer (turnId : String)
  /-- It waits for a later turn. -/
  | queue
  deriving DecidableEq

def QueuedMessageBoundary.delivery : QueuedMessageBoundary → MessageDelivery
  | .turn => .turn
  | .steer _ => .steer
  | .queue => .queue

def QueuedMessageBoundary.startsTurn : QueuedMessageBoundary → Bool
  | .turn => true
  | .steer _ => false
  | .queue => true

/-- One typed conversation message waiting for its delivery boundary. -/
structure QueuedMessage where
  owner : String
  id : String
  boundary : QueuedMessageBoundary
  author : MessageAuthor
  message : String
  attachments : List SessionFileReference
  reply : Option MessageReply
  deriving DecidableEq

def QueuedMessage.event (queued : QueuedMessage) : MessageEvent :=
  ⟨queued.author, queued.boundary.delivery, queued.message, queued.attachments, queued.reply,
    none⟩

/-- The durable checkpoint without its context, as the store's header keeps it. -/
structure CheckpointHeader where
  version : Nat
  sessionId : SessionId
  sessionContext : SessionContext
  metadata : List (String × Json)
  /-- Whether the catalog shows the session. -/
  catalogVisible : Bool
  firstUserMessage : Option String
  modelRoute : Option String
  /-- The route whose output last contributed to active context. -/
  contextModelRoute : Option String
  /-- The durable checkpoint revision. -/
  sequence : Nat
  /-- Receipts for guidance durably added to context, as owner and key. -/
  deliveredOnce : Finset (String × String)
  /-- Revision of the active context prefix. -/
  contextEpoch : Nat
  lastContextRewrite : Option ContextRewrite
  totalUsage : TokenUsage
  lastUsage : Option TokenUsage
  pendingMessages : List QueuedMessage
  activeExecution : Option ActiveExecution
  activeModelStep : Option ActiveModelStep
  executionStats : ExecutionStats
  pendingTools : List ToolCall
  pendingApproval : Option PendingApproval
  deriving DecidableEq

/-- Versioned state persisted at each durable loop boundary. -/
structure Checkpoint extends CheckpointHeader where
  /-- The complete active model context. -/
  context : List Json
  deriving DecidableEq

def Checkpoint.empty (sessionId : SessionId) : Checkpoint where
  version := checkpointVersion
  sessionId := sessionId
  sessionContext := {}
  metadata := []
  catalogVisible := true
  firstUserMessage := none
  modelRoute := none
  contextModelRoute := none
  sequence := 0
  deliveredOnce := ∅
  contextEpoch := 0
  lastContextRewrite := none
  totalUsage := {}
  lastUsage := none
  pendingMessages := []
  activeExecution := none
  activeModelStep := none
  executionStats := {}
  pendingTools := []
  pendingApproval := none
  context := []

/-- The terminal record of a running execution. -/
def ActiveExecution.finish (active : ActiveExecution) (sessionId : SessionId)
    (outcome : ExecutionOutcome) (finishedAtMs : Int) : ExecutionRecord :=
  let finished := max finishedAtMs active.startedAtMs
  ⟨sessionId, active.submissionId, active.author, active.turnId, active.startedAtMs, finished,
    (finished - active.startedAtMs).natAbs, outcome, active.modelCalls, active.toolCalls,
    active.failedToolCalls, active.usage⟩

/-- Ends the active execution. The record is returned with the checkpoint that
counts it; on an error the checkpoint is the one given. -/
def Checkpoint.finishExecution (checkpoint : Checkpoint) (outcome : ExecutionOutcome)
    (finishedAtMs : Int) : Except Error ExecutionRecord × Checkpoint :=
  if checkpoint.activeModelStep.isSome then
    (.error (.checkpoint "turn ended with an active model step"), checkpoint)
  else match checkpoint.activeExecution with
    | none => (.error (.checkpoint "turn ended without an active execution"), checkpoint)
    | some active =>
      let record := active.finish checkpoint.sessionId outcome finishedAtMs
      match checkpoint.executionStats.checkedRecord record with
      | none =>
        (.error (.checkpoint "execution statistics exceed the supported range"), checkpoint)
      | some stats =>
        (.ok record, { checkpoint with activeExecution := none, executionStats := stats })

theorem finishExecution_ok {checkpoint next : Checkpoint} {outcome : ExecutionOutcome}
    {finishedAtMs : Int} {record : ExecutionRecord}
    (h : checkpoint.finishExecution outcome finishedAtMs = (.ok record, next)) :
    checkpoint.activeModelStep = none ∧
      ∃ active, checkpoint.activeExecution = some active ∧
        record = active.finish checkpoint.sessionId outcome finishedAtMs ∧
        next = { checkpoint with
          activeExecution := none
          executionStats := checkpoint.executionStats.sum (.ofRecord record) } := by
  unfold Checkpoint.finishExecution at h
  split at h
  · cases congrArg Prod.fst h
  · rename_i hstep
    refine ⟨by simpa using hstep, ?_⟩
    split at h
    · cases congrArg Prod.fst h
    · rename_i active hactive
      dsimp only at h
      split at h
      · cases congrArg Prod.fst h
      · rename_i stats hstats
        obtain ⟨hrecord, hnext⟩ := Prod.mk.inj h
        cases Except.ok.inj hrecord
        refine ⟨active, hactive, rfl, ?_⟩
        rw [← hnext, ExecutionStats.checkedRecord_eq_some hstats]

end MobiusAgent.CheckpointRecords
