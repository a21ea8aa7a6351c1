import Mathlib.Data.List.Forall2
import Mathlib.Data.List.Nodup
import MobiusAgent.CheckpointRecords

/-!
# Validation of messages, checkpoints and execution records

The checks of `protocol/mod.rs`, `backend/checkpoint/mod.rs` and
`backend/checkpoint/sqlite.rs`, with their error texts. Each check is
followed by the proposition it decides. What third-party code decides (a
UUID's syntax, the encoded size of a message) is a parameter.
-/

namespace MobiusAgent.CheckpointValidation

open JsonValue ProtocolEvents CheckpointRecords

def maxIdentifierBytes : Nat := 4 * 1024

/-- The byte limit of a source handle. -/
def maxHandleBytes : Nat := 256

/-- The byte limit of a message text. -/
def maxMessageBytes : Nat := 1024 * 1024

/-- The encoded byte limit of one message. -/
def maxSerializedMessageBytes : Nat := maxMessageBytes * 2

/-- Decisions of third-party code. -/
structure ExternalChecks where
  /-- `Uuid::parse_str` accepts the text. -/
  isUuid : String → Bool
  /-- The encoded size of a message event, if it can be encoded. -/
  serializedLen : MessageEvent → Option Nat

/-- A check that passes or fails with an error. -/
abbrev Check := Except Error Unit

/-- Fail with an error if a condition holds. -/
def rejectIf (condition : Bool) (error : Error) : Check :=
  if condition then .error error else .ok ()

theorem rejectIf_ok_iff {condition : Bool} {error : Error} :
    rejectIf condition error = .ok () ↔ condition = false := by
  cases condition <;> simp [rejectIf]

variable {β ε α : Type} {result : β} {first : Except ε α}

theorem except_bind_ok_iff {second : α → Except ε β} :
    (first >>= second) = .ok result ↔ ∃ value, first = .ok value ∧ second value = .ok result := by
  cases first with
  | error e | ok value => simp [bind, Except.bind]

theorem bind_ok {second : α → Except ε β} (h : (first >>= second) = .ok result) :
    ∃ value, first = .ok value ∧ second value = .ok result :=
  except_bind_ok_iff.mp h

theorem except_map_ok {change : α → β} {value : β} (h : first.map change = .ok value) :
    ∃ found, first = .ok found ∧ change found = value := by
  cases first with
  | error error => cases h
  | ok found => exact ⟨found, rfl, Except.ok.inj h⟩

theorem mapError_ok {ε' : Type} {result : Except ε α} {change : ε → ε'} {value : α}
    (h : result.mapError change = .ok value) : result = .ok value := by
  cases result with
  | error error => cases h
  | ok found => exact congrArg Except.ok (Except.ok.inj h)

theorem mapM_forall₂ {items : List α} {step : α → Except ε β} {results : List β}
    (h : items.mapM step = .ok results) :
    List.Forall₂ (fun item result => step item = .ok result) items results := by
  induction items generalizing results with
  | nil =>
    cases h
    exact .nil
  | cons first rest ih =>
    rw [List.mapM_cons] at h
    obtain ⟨value, hvalue, h⟩ := bind_ok h
    obtain ⟨later, hlater, h⟩ := bind_ok h
    cases h
    exact .cons hvalue (ih hlater)

theorem exists_related {related : α → β → Prop} {first : List α} {second : List β}
    (h : List.Forall₂ related first second) {a : α} (ha : a ∈ first) :
    ∃ b ∈ second, related a b := by
  induction h with
  | nil => cases ha
  | cons hfirst _ ih =>
    cases List.mem_cons.mp ha with
    | inl hsame => exact ⟨_, List.mem_cons_self, hsame ▸ hfirst⟩
    | inr hmem =>
      obtain ⟨b, hb, hrelated⟩ := ih hmem
      exact ⟨b, List.mem_cons_of_mem _ hb, hrelated⟩

theorem forall₂_mem_right {related : α → β → Prop} {items : List α} {results : List β}
    (h : List.Forall₂ related items results) (hresult : result ∈ results) :
    ∃ item ∈ items, related item result :=
  exists_related h.flip hresult

theorem bind_ok_iff {first : Check} {second : Unit → Check} :
    (first >>= second) = .ok () ↔ first = .ok () ∧ second () = .ok () := by
  cases first with
  | error e | ok u => simp [bind, Except.bind]

theorem forM_ok_iff (check : α → Check) (items : List α) :
    (items.forM check) = .ok () ↔ ∀ item ∈ items, check item = .ok () := by
  induction items with
  | nil => simp [pure, Except.pure]
  | cons item rest ih =>
    rw [List.forall_mem_cons, ← ih]
    exact bind_ok_iff

def validateIdentifier (name value : String) (limit : Nat) : Check := do
  rejectIf (isBlank value) (.config (name ++ " cannot be empty"))
  rejectIf (limit < value.utf8ByteSize) (.config (name ++ " exceeds size limit"))

def validateAuthor (author : MessageAuthor) (text : String)
    (attachments : List SessionFileReference) : Check :=
  match author with
  | .user =>
    rejectIf (isBlank text && attachments.isEmpty) (.config "user message cannot be empty")
  | .source messageId source causeId ancestry handle symbol => do
    rejectIf (decide (16 < ancestry.length) || decide (¬ancestry.Nodup))
      (.config "source causal ancestry exceeds its bound or repeats an event")
    (causeId.toList ++ ancestry).forM
      fun id => validateIdentifier "source cause ID" id maxIdentifierBytes
    validateIdentifier "source message ID" messageId maxIdentifierBytes
    match source with
    | .external sourceId eventId => do
      validateIdentifier "message source ID" sourceId maxIdentifierBytes
      validateIdentifier "source event ID" eventId maxIdentifierBytes
    | .session _ => .ok ()
    | .call _ => .ok ()
    validateIdentifier "source handle" handle maxHandleBytes
    symbol.toList.forM fun symbol => validateIdentifier "source symbol" symbol maxHandleBytes
    rejectIf (isBlank text) (.config "source message cannot be empty")
    rejectIf (!attachments.isEmpty) (.config "source messages cannot carry attachments")

/-- The checks on one attachment, after those with the ids seen before. -/
def validateAttachments (checks : ExternalChecks) (seen : List String) :
    List SessionFileReference → Check
  | [] => .ok ()
  | attachment :: rest => do
    rejectIf (seen.contains attachment.id) (.config "attachment IDs must be unique per message")
    rejectIf (!checks.isUuid attachment.id) (.config "attachment ID must be a UUID")
    validateIdentifier "attachment name" attachment.name 255
    validateIdentifier "attachment media type" attachment.mediaType 127
    rejectIf (attachment.size == 0) (.config "attachment size must be positive")
    validateAttachments checks (attachment.id :: seen) rest

def validateMessageContent (checks : ExternalChecks) (author : MessageAuthor) (text : String)
    (attachments : List SessionFileReference) : Check := do
  rejectIf (maxMessageBytes < text.utf8ByteSize) (.config "message exceeds size limit")
  validateAuthor author text attachments
  validateAttachments checks [] attachments

/-- `validate_queued_message`, also run when a queued message is decoded. -/
def validateQueuedMessage (checks : ExternalChecks) (queued : QueuedMessage) : Check := do
  rejectIf (isBlank queued.owner || decide (maxQueuedOwnerBytes < queued.owner.utf8ByteSize))
    (.config "queued message owner is invalid")
  rejectIf (isBlank queued.id || decide (maxQueuedIdBytes < queued.id.utf8ByteSize))
    (.config "queued message ID is invalid")
  match queued.boundary with
  | .steer turnId =>
    rejectIf (isBlank turnId || decide (maxQueuedTurnIdBytes < turnId.utf8ByteSize))
      (.config "queued message turn ID is invalid")
  | _ => .ok ()
  validateMessageContent checks queued.author queued.message queued.attachments
  rejectIf ((checks.serializedLen queued.event).all (maxSerializedMessageBytes < ·))
    (.config "queued message is invalid")

/-- `SessionContext::validate`, with the store's error kind. -/
def validateSessionContext (context : SessionContext) : Check := do
  rejectIf (isBlank context.ownerId) (.checkpoint "session owner ID cannot be empty")
  rejectIf (maxIdentifierBytes < context.ownerId.utf8ByteSize)
    (.checkpoint "session owner ID exceeds size limit")

def ExecutionPhase.isCompletion : ExecutionPhase → Bool
  | .completion _ => true
  | .model => false

/-- Model or tool work that is not finished. -/
def pendingWork (header : CheckpointHeader) : Bool :=
  header.activeModelStep.isSome || !header.pendingTools.isEmpty || header.pendingApproval.isSome

def validateActiveExecution (header : CheckpointHeader) : Check :=
  match header.activeExecution with
  | some active => do
    rejectIf (isBlank active.submissionId || isBlank active.turnId)
      (.checkpoint "active execution identifiers cannot be empty")
    rejectIf (active.startedAtMs < 0)
      (.checkpoint "active execution start time cannot be negative")
    rejectIf (active.toolCalls < active.failedToolCalls)
      (.checkpoint "active execution failed-tool count exceeds tool count")
    rejectIf (ExecutionPhase.isCompletion active.phase && pendingWork header)
      (.checkpoint "turn completion conflicts with pending model or tool work")
  | none =>
    rejectIf (pendingWork header)
      (.checkpoint "pending model or tool work has no active execution")

def validateApproval (approval : PendingApproval) : Check :=
  rejectIf (approval.approvalCallIds.isEmpty || decide (¬approval.approvalCallIds.Nodup) ||
      !approval.approvalCallIds.all fun id => (approval.calls.map (·.callId)).contains id)
    (.checkpoint "pending approval selects unknown or repeated tool calls")

def validateModelStep (header : CheckpointHeader) (step : ActiveModelStep) : Check :=
  match header.activeExecution with
  | none => .error (.checkpoint "active model step has no active execution")
  | some execution => do
    rejectIf (isBlank step.modelStepId)
      (.checkpoint "active model-step identifier cannot be empty")
    rejectIf (step.startedAtMs < execution.startedAtMs)
      (.checkpoint "active model step predates its execution")

/-- No two queued messages share owner and id. -/
def validateQueueIds (seen : List (String × String)) : List QueuedMessage → Check
  | [] => .ok ()
  | queued :: rest => do
    rejectIf (seen.contains (queued.owner, queued.id))
      (.checkpoint ("duplicate queued message `" ++ queued.owner ++ "/" ++ queued.id ++ "`"))
    validateQueueIds ((queued.owner, queued.id) :: seen) rest

/-- `validate_checkpoint`: it reads the header only. -/
def validateCheckpoint (header : CheckpointHeader) : Check := do
  rejectIf (header.version != checkpointVersion)
    (.checkpoint ("unsupported checkpoint version " ++ toString header.version))
  validateActiveExecution header
  header.pendingApproval.toList.forM validateApproval
  validateSessionContext header.sessionContext
  header.activeModelStep.toList.forM (validateModelStep header)
  rejectIf (maxQueuedMessages < header.pendingMessages.length)
    (.checkpoint "queued messages exceed the durable item limit")
  validateQueueIds [] header.pendingMessages

def validateExecutionRecord (checks : ExternalChecks) (execution : ExecutionRecord) : Check := do
  validateMessageContent checks execution.author "execution origin" []
  rejectIf (isBlank execution.submissionId || isBlank execution.turnId)
    (.checkpoint "execution record identifiers cannot be empty")
  rejectIf (decide (execution.startedAtMs < 0) ||
      decide (execution.finishedAtMs < execution.startedAtMs))
    (.checkpoint "execution record has invalid timestamps")
  rejectIf (execution.elapsedMs != (execution.finishedAtMs - execution.startedAtMs).toNat)
    (.checkpoint "execution elapsed time does not match its timestamps")
  rejectIf (execution.toolCalls < execution.failedToolCalls)
    (.checkpoint "execution failed-tool count exceeds tool count")

def validateExecution (checks : ExternalChecks) (header : CheckpointHeader)
    (execution : ExecutionRecord) : Check := do
  rejectIf header.activeExecution.isSome
    (.checkpoint "a terminal execution requires an idle checkpoint")
  rejectIf (execution.sessionId != header.sessionId)
    (.checkpoint "execution record does not match its checkpoint")
  validateExecutionRecord checks execution

/-- An author the host may attribute an execution to, whatever the text. -/
def ValidAuthor (author : MessageAuthor) : Prop :=
  validateAuthor author "execution origin" [] = .ok ()

theorem validateQueueIds_ok_iff (seen : List (String × String)) (queue : List QueuedMessage) :
    validateQueueIds seen queue = .ok () ↔
      (queue.map fun queued => (queued.owner, queued.id)).Nodup ∧
        ∀ queued ∈ queue, (queued.owner, queued.id) ∉ seen := by
  induction queue generalizing seen with
  | nil => simp [validateQueueIds]
  | cons queued rest ih =>
    rw [List.map_cons, List.nodup_cons, List.forall_mem_cons, validateQueueIds, bind_ok_iff,
      rejectIf_ok_iff, ih]
    simp only [List.mem_map, not_exists, not_and, List.mem_cons, not_or, Bool.eq_false_iff,
      ne_eq, List.contains_iff_mem]
    constructor
    · rintro ⟨hseen, hnodup, hrest⟩
      exact ⟨⟨fun other hother => (hrest other hother).1, hnodup⟩, hseen,
        fun other hother => (hrest other hother).2⟩
    · rintro ⟨⟨hfirst, hnodup⟩, hseen, hrest⟩
      exact ⟨hseen, hnodup, fun other hother => ⟨hfirst other hother, hrest other hother⟩⟩

end MobiusAgent.CheckpointValidation
