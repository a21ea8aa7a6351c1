import MobiusAgent.JsonValue

/-!
# Protocol records shared by the agent, the recorder and the store

The records of `protocol/mod.rs`, `protocol/events.rs` and
`protocol/content.rs` that the modelled code builds or reads. Strings stand
for shared strings, 64-bit counters are naturals and integers whose overflow
is checked where the code checks it. A payload that no modelled function
reads (search actions, widgets, restored histories) is kept as JSON.
-/

namespace MobiusAgent.ProtocolEvents

open JsonValue

abbrev SessionId := String

/-- The largest value of a `u64`. -/
def u64Max : Nat := 18446744073709551615

/-- The largest value of an `i64`. -/
def i64Max : Int := 9223372036854775807

/-- The smallest value of an `i64`. -/
def i64Min : Int := -9223372036854775808

def checkedAdd (a b : Nat) : Option Nat :=
  if a + b ≤ u64Max then some (a + b) else none

/-- `i64::checked_add`. -/
def checkedAddInt (a b : Int) : Option Int :=
  if i64Min ≤ a + b ∧ a + b ≤ i64Max then some (a + b) else none

theorem checkedAdd_eq_some {a b c : Nat} (h : checkedAdd a b = some c) : c = a + b := by
  unfold checkedAdd at h
  split at h
  · exact (Option.some.inj h).symm
  · cases h

theorem checkedAddInt_eq_some {a b c : Int} (h : checkedAddInt a b = some c) : c = a + b := by
  unfold checkedAddInt at h
  split at h
  · exact (Option.some.inj h).symm
  · cases h

/-- The framework's error type. -/
inductive Error where
  /-- An internal mutex was poisoned by a panic. -/
  | poisoned (name : String)
  /-- The gateway data allowance cannot admit another file. -/
  | storageFull
  /-- Invalid configuration or input. -/
  | config (message : String)
  | duplicate (message : String)
  /-- A name that is not registered. -/
  | unknown (message : String)
  /-- A model provider failure and whether it may be retried. -/
  | provider (message : String) (retryable : Bool)
  | auth (message : String)
  | sandbox (message : String)
  | tool (message : String)
  | checkpoint (message : String)
  | busy (message : String)
  /-- The agent or one of its tasks stopped. -/
  | stopped (message : String)
  /-- A failure whose rollback failed too. -/
  | rollback (primary undo : Error)
  /-- A replaced destination whose durability is unknown. -/
  | publicationDurability (message : String)
  | io (message : String)
  | http (message : String)
  | json (message : String)
  | sqlite
  deriving DecidableEq

def Error.display : Error → String
  | .poisoned name => "internal lock poisoned: " ++ name
  | .storageFull => "storage is full; free up space before adding files"
  | .config message => "configuration error: " ++ message
  | .duplicate message => "duplicate registration: " ++ message
  | .unknown message => "unknown registration: " ++ message
  | .provider message _ => "provider error: " ++ message
  | .auth message => "authentication error: " ++ message
  | .sandbox message => "sandbox: " ++ message
  | .tool message => "tool error: " ++ message
  | .checkpoint message => "checkpoint error: " ++ message
  | .busy message => "agent busy: " ++ message
  | .stopped message => "agent stopped: " ++ message
  | .rollback primary undo => primary.display ++ "; rollback failed: " ++ undo.display
  | .publicationDurability message =>
    "state was replaced, but its durability could not be confirmed: " ++ message
  | .io message => message
  | .http message => message
  | .json message => message
  | .sqlite => "checkpoint storage error"

/-- The text of a failed conversion of an integer that is too large. -/
def intConversionError : String := "number too large to fit in target type"

/-- The text of a failed conversion of a negative integer. -/
def negativeConversionError : String := "number too small to fit in target type"

/-- A character with the Unicode `White_Space` property. -/
def isWhitespace (c : Char) : Bool :=
  let n := c.toNat
  (9 ≤ n && n ≤ 13) || n == 32 || n == 0x85 || n == 0xA0 || n == 0x1680 ||
    (0x2000 ≤ n && n ≤ 0x200A) || n == 0x2028 || n == 0x2029 || n == 0x202F || n == 0x205F ||
    n == 0x3000

/-- `value.trim().is_empty()`. -/
def isBlank (value : String) : Bool := value.toList.all isWhitespace

/-- One immutable, session-bound file addressed by an opaque reference. -/
structure SessionFileReference where
  id : String
  name : String
  size : Nat
  mediaType : String
  deriving DecidableEq

/-- Frontend-visible context for the session owner, workspace and origin. -/
structure SessionContext where
  /-- Identity of the framework host that owns this session. -/
  ownerId : String := ""
  tenantId : Option String := none
  /-- Identifier of the user who owns the session. -/
  userId : Option String := none
  userName : Option String := none
  workspaceId : Option String := none
  workspaceLabel : Option String := none
  /-- Label describing what created the session. -/
  originLabel : Option String := none
  deriving DecidableEq

/-- One model-requested function call. -/
structure ToolCall where
  callId : String
  name : String
  arguments : Json
  deriving DecidableEq

/-- A non-user message's source, assigned by the trusted host. -/
inductive MessageSource where
  /-- Coordination from another conversation. -/
  | session (sessionId : SessionId)
  /-- Evidence from a host-owned integration. -/
  | external (sourceId eventId : String)
  /-- A request relayed by a live voice call. -/
  | call (callId : SessionId)
  deriving DecidableEq

/-- Who submitted one conversation message. -/
inductive MessageAuthor where
  | user
  /-- A trusted host-attributed source. -/
  | source (messageId : String) (source : MessageSource) (causeId : Option String)
      (ancestry : List String) (handle : String) (symbol : Option String)
  deriving DecidableEq

/-- Exact durable transcript position selected by a message action. -/
structure MessageTarget where
  /-- Checkpoint sequence containing the message. -/
  checkpointSequence : Nat
  /-- One-based item count within the checkpoint's transcript batch. -/
  batchItemCount : Nat
  deriving DecidableEq

/-- Durable message identity and the text shown when replying. -/
structure MessageReply where
  target : MessageTarget
  text : String
  deriving DecidableEq

/-- How one accepted message entered the conversation. -/
inductive MessageDelivery where
  | turn
  /-- It steered the active turn. -/
  | steer
  | queue
  deriving DecidableEq

/-- Requested delivery for a message submitted while a turn is active. -/
inductive ActiveMessageDelivery where
  | steer
  | queue
  deriving DecidableEq

/-- One accepted conversation message. -/
structure MessageEvent where
  author : MessageAuthor
  delivery : MessageDelivery
  text : String
  attachments : List SessionFileReference
  reply : Option MessageReply
  messageTarget : Option MessageTarget
  deriving DecidableEq

/-- Semantic role of text in a model step. -/
inductive ModelStepContentPhase where
  | reasoning
  | commentary
  | finalAnswer
  deriving DecidableEq

/-- One complete normalized text item produced by a model step. -/
structure ModelStepContent where
  outputIndex : Nat
  partIndex : Nat
  phase : ModelStepContentPhase
  text : String
  /-- The annotations, read by no modelled function. -/
  annotations : List Json
  deriving DecidableEq

/-- Token counts of one or more responses. -/
structure TokenUsage where
  inputTokens : Int := 0
  cachedInputTokens : Int := 0
  cacheWriteInputTokens : Int := 0
  outputTokens : Int := 0
  reasoningOutputTokens : Int := 0
  totalTokens : Int := 0
  deriving DecidableEq

/-- Componentwise sum, without a range check. -/
def TokenUsage.sum (a b : TokenUsage) : TokenUsage :=
  ⟨a.inputTokens + b.inputTokens, a.cachedInputTokens + b.cachedInputTokens,
    a.cacheWriteInputTokens + b.cacheWriteInputTokens, a.outputTokens + b.outputTokens,
    a.reasoningOutputTokens + b.reasoningOutputTokens, a.totalTokens + b.totalTokens⟩

/-- The combined usage without changing either value, or `none` on overflow. -/
def TokenUsage.checkedSum (a b : TokenUsage) : Option TokenUsage := do
  let inputTokens ← checkedAddInt a.inputTokens b.inputTokens
  let cachedInputTokens ← checkedAddInt a.cachedInputTokens b.cachedInputTokens
  let cacheWriteInputTokens ← checkedAddInt a.cacheWriteInputTokens b.cacheWriteInputTokens
  let outputTokens ← checkedAddInt a.outputTokens b.outputTokens
  let reasoningOutputTokens ← checkedAddInt a.reasoningOutputTokens b.reasoningOutputTokens
  let totalTokens ← checkedAddInt a.totalTokens b.totalTokens
  some ⟨inputTokens, cachedInputTokens, cacheWriteInputTokens, outputTokens,
    reasoningOutputTokens, totalTokens⟩

theorem TokenUsage.checkedSum_eq_some {a b c : TokenUsage} (h : a.checkedSum b = some c) :
    c = a.sum b := by
  simp only [TokenUsage.checkedSum, Option.bind_eq_bind, Option.bind_eq_some_iff] at h
  obtain ⟨i, hi, ci, hci, cw, hcw, o, ho, r, hr, t, ht, h⟩ := h
  rw [Option.some.injEq] at h
  subst h
  rw [checkedAddInt_eq_some hi, checkedAddInt_eq_some hci, checkedAddInt_eq_some hcw,
    checkedAddInt_eq_some ho, checkedAddInt_eq_some hr, checkedAddInt_eq_some ht]
  rfl

theorem TokenUsage.sum_assoc (a b c : TokenUsage) : (a.sum b).sum c = a.sum (b.sum c) := by
  simp only [TokenUsage.sum, Int.add_assoc]

theorem TokenUsage.sum_comm (a b : TokenUsage) : a.sum b = b.sum a := by
  simp only [TokenUsage.sum, Int.add_comm]

theorem TokenUsage.sum_default (a : TokenUsage) : a.sum {} = a := by
  simp only [TokenUsage.sum, Int.add_zero]

/-- Token totals shown to frontends. -/
structure TokenUsageInfo where
  totalTokenUsage : TokenUsage
  lastTokenUsage : TokenUsage
  modelContextWindow : Option Int
  /-- Where the last request's input tokens went, read by no modelled function. -/
  context : Option Json
  deriving DecidableEq

/-- One ordered observation of a tool. -/
inductive ContentPart where
  | text (text : String)
  /-- An image attachment, by its reference. -/
  | image (image : Json)
  | file (file : SessionFileReference)
  deriving DecidableEq

/-- Provider-neutral outcome of a model step. -/
inductive ModelStepOutcome where
  | completed (endTurn : Bool) (toolCallIds : List String) (usage : TokenUsage)
  | failed
  | interrupted
  /-- The stream failed and the step restarts under a fresh id. -/
  | retrying
  deriving DecidableEq

/-- The terminal record for one provider request. -/
structure ModelStepCompletedEvent where
  sessionId : SessionId
  turnId : String
  modelStepId : String
  stepIndex : Nat
  /-- The start time in milliseconds. -/
  startedAtMs : Int
  /-- The completion time in milliseconds. -/
  completedAtMs : Int
  outcome : ModelStepOutcome
  /-- Cost and prompt-cache observations, read by no modelled function. -/
  diagnostics : Option Json
  deriving DecidableEq

/-- Incremental assistant text. -/
structure AssistantContentDeltaEvent where
  sessionId : SessionId
  turnId : String
  modelStepId : String
  delta : String
  phase : ModelStepContentPhase
  deriving DecidableEq

/-- The complete assistant message of one model step. -/
structure AssistantMessageEvent where
  sessionId : SessionId
  turnId : String
  modelStepId : String
  content : List ModelStepContent
  messageTarget : Option MessageTarget
  deriving DecidableEq

/-- The selected model route. -/
structure ModelChangedEvent where
  route : String
  model : String
  reasoningEffort : Option String
  modelContextWindow : Option Int
  deriving DecidableEq

/-- A presentation record; only its kind and block identity are read. -/
inductive FrontendEvent where
  | render (capability : String) (blockId : Option String) (block : Json)
  | widget (payload : Json)
  | removeWidget (capability id : String)
  | picker (payload : Json)
  | preview (payload : Json)
  | openSession (sessionId : SessionId)
  deriving DecidableEq

/-- Events supported by the frontend contract. -/
inductive EventMsg where
  | messageDelta (text : String)
  | error (error : Error)
  | warning (message : String)
  /-- A submission rejected without changing durable turn state. -/
  | submissionRejected (message : String)
  /-- Session data emitted when an agent starts or resumes. -/
  | sessionConfigured (sessionId : SessionId) (context : SessionContext)
      (model : ModelChangedEvent)
  | turnStarted (idle : Bool) (turnId : String) (modelContextWindow : Option Int)
  | turnComplete (idle : Bool) (turnId : String)
  | turnAborted (idle : Bool) (turnId reason : String)
  /-- One accepted conversation message. -/
  | message (message : MessageEvent)
  /-- The complete assistant message of one model step. -/
  | assistantMessage (message : AssistantMessageEvent)
  | assistantContentDelta (delta : AssistantContentDeltaEvent)
  /-- A provider request became active. -/
  | modelStepStarted (sessionId : SessionId) (turnId modelStepId : String) (stepIndex : Nat)
      (startedAtMs : Int)
  | modelStepCompleted (step : ModelStepCompletedEvent)
  | sessionHistory (events : Json)
  | modelChanged (model : ModelChangedEvent)
  /-- The frontend should reopen a session. -/
  | sessionResumeRequested (sessionId : SessionId) (context : SessionContext)
  | toolCallBegin (turnId callId name : String) (arguments : Json)
  | toolCallEnd (turnId callId name : String) (output : List ContentPart) (isError : Bool)
  /-- Deferred tool schemas were loaded. -/
  | toolLoad (turnId loadId catalogRevision : String) (tools : List String)
  | execApprovalRequest (id turnId : String) (calls : List ToolCall) (reason : String)
  | tokenCount (info : Option TokenUsageInfo) (rateLimits : Option Json)
  | contextCompacted
  | webSearchBegin (sessionId : SessionId) (turnId modelStepId callId : String)
  | webSearchEnd (sessionId : SessionId) (turnId modelStepId callId : String) (action : Json)
  | frontend (event : FrontendEvent)
  deriving DecidableEq

/-- An event emitted to a frontend. -/
structure Event where
  /-- Submission that caused this event, if it was command-driven. -/
  submissionId : Option String
  msg : EventMsg
  deriving DecidableEq

/-- An event with the time it was recorded. -/
structure TimestampedEvent where
  /-- The recording time in milliseconds. -/
  recordedAtMs : Int
  event : Event
  deriving DecidableEq

/-- Whether an event is a complete message of a conversation. -/
def EventMsg.isMessage : EventMsg → Bool
  | .message _ => true
  | .assistantMessage _ => true
  | _ => false

end MobiusAgent.ProtocolEvents
