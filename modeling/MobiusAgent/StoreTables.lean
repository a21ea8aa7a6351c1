import Mathlib.Data.List.Sort
import MobiusAgent.CheckpointValidation

/-!
# The SQLite tables of the checkpoint store

The rows of `backend/checkpoint/sqlite.rs`, the event journal of
`sqlite_event.rs` and the split context of `sqlite_context.rs`. A
transaction is a function on the tables that may fail; what a failed
transaction wrote is never kept. Text columns hold encoded records, so the
encoding is a parameter; that a record is read back as it was written is
asked where it is used. Creation and update times, page reclamation and query
plans are left out.
-/

namespace MobiusAgent.StoreTables

open JsonValue ProtocolEvents CheckpointRecords CheckpointValidation

/-- A text encoding of one type of record. -/
structure Codec (Text α : Type) where
  /-- `serde_json::to_string`. -/
  encode : α → Text
  /-- `serde_json::from_str`. -/
  decode : Text → Except Error α

/-- What was written of a record is read back as that record. -/
def Codec.ReadsBack {Text α : Type} (codec : Codec Text α) (value : α) : Prop :=
  codec.decode (codec.encode value) = .ok value

/-- One stream's timing in the journal. -/
structure StreamMetrics where
  phase : ModelStepContentPhase
  firstDeltaAtMs : Int
  lastDeltaAtMs : Int
  chunkCount : Nat
  utf8Bytes : Nat
  /-- The longest gap between two of them. -/
  longestGapMs : Nat
  deriving DecidableEq

/-- The stored form of a journal event. -/
inductive StoredEvent where
  | inline (event : Event)
  /-- A tool output committed in the same transcript batch, by reference. -/
  | toolOutput (submissionId : Option String) (turnId callId name : String) (isError : Bool)
      (transcriptSequence : Int) (itemIndex : Nat)
  deriving DecidableEq

/-- The encodings of all text columns. -/
structure Codecs (Text : Type) where
  header : Codec Text CheckpointHeader
  item : Codec Text Json
  items : Codec Text (List Json)
  sessionContext : Codec Text SessionContext
  executionStats : Codec Text ExecutionStats
  execution : Codec Text ExecutionRecord
  event : Codec Text StoredEvent
  metrics : Codec Text (List StreamMetrics)

/-- Headers and context items are read back, whatever they hold. -/
structure Codecs.Lossless {Text : Type} (codecs : Codecs Text) : Prop where
  header : ∀ header, codecs.header.ReadsBack header
  item : ∀ item, codecs.item.ReadsBack item

/-- One row of `sessions`. -/
structure SessionRow (Text : Type) where
  sessionId : SessionId
  /-- The session this one was forked from. -/
  parentSessionId : Option SessionId
  /-- The parent's sequence at the fork. -/
  parentSequence : Option Int
  latestSequence : Int
  latestEventSequence : Int
  latestCheckpointJson : Text
  contextEpoch : Int
  contextCount : Int
  sessionContextJson : Text
  executionStatsJson : Text
  /-- Whether the catalog shows the session. -/
  catalogVisible : Bool
  firstUserMessage : Option String

/-- One row of `context_items`. -/
structure ContextRow (Text : Type) where
  sessionId : SessionId
  epoch : Int
  itemIndex : Int
  itemJson : Text

/-- One row of `transcript_delta`. -/
structure TranscriptRow (Text : Type) where
  sessionId : SessionId
  sequence : Int
  itemsJson : Text

/-- One row of `execution_journal`. -/
structure ExecutionRow (Text : Type) where
  sessionId : SessionId
  sequence : Int
  recordJson : Text
  startedAtMs : Int

/-- One row of `event_journal`. -/
structure EventRow (Text : Type) where
  sessionId : SessionId
  sequence : Int
  recordedAtMs : Int
  eventKind : String
  modelStepId : Option String
  streamPhase : Option ModelStepContentPhase
  deltaBytes : Option Int
  eventJson : Text
  streamMetricsJson : Text

structure Tables (Text : Type) where
  sessions : List (SessionRow Text)
  contextItems : List (ContextRow Text)
  transcriptDelta : List (TranscriptRow Text)
  /-- `message_receipts`, as session and submission. -/
  messageReceipts : List (SessionId × String)
  executionJournal : List (ExecutionRow Text)
  eventJournal : List (EventRow Text)
  /-- `middleware_state`, as scope, key and encoded value. -/
  middlewareState : List (String × String × Text)

/-- A fresh database. -/
def Tables.empty {Text : Type} : Tables Text := ⟨[], [], [], [], [], [], []⟩

/-- `Option::ok_or`. -/
def orError {α : Type} (value : Option α) (error : Error) : Except Error α :=
  match value with
  | some value => .ok value
  | none => .error error

/-- A recorded event with its journal sequence and metrics. -/
structure JournalEvent where
  sequence : Int
  recordedAtMs : Int
  event : Event
  /-- The metrics of the step it completes. -/
  streamMetrics : List StreamMetrics

section Queries

variable {Text : Type}

def Tables.session? (tables : Tables Text) (id : SessionId) : Option (SessionRow Text) :=
  tables.sessions.find? (·.sessionId = id)

/-- Rewrite the row of one session. -/
def Tables.updateSession (tables : Tables Text) (id : SessionId)
    (change : SessionRow Text → SessionRow Text) : Tables Text :=
  { tables with sessions :=
      tables.sessions.map fun row => if row.sessionId = id then change row else row }

/-- Row order of `ORDER BY epoch, item_index`. -/
def contextOrder (a b : ContextRow Text) : Prop :=
  a.epoch < b.epoch ∨ a.epoch = b.epoch ∧ a.itemIndex ≤ b.itemIndex

/-- The row order can be decided. -/
instance : DecidableRel (@contextOrder Text) :=
  fun a b => inferInstanceAs (Decidable (a.epoch < b.epoch ∨ _))

def Tables.contextRows (tables : Tables Text) (id : SessionId) : List (ContextRow Text) :=
  (tables.contextItems.filter (·.sessionId = id)).insertionSort contextOrder

/-- `PRAGMA`-free integer conversion of a `u64`. -/
def sqliteInteger (value : Nat) (name : String) : Except Error Int :=
  if (value : Int) ≤ i64Max then .ok value
  else .error (.checkpoint (name ++ " exceeds SQLite INTEGER: " ++ intConversionError))

end Queries

/-- Whether the payload of an event is only of interest while it is delivered. -/
def isTransientEvent : EventMsg → Bool
  | .sessionHistory _ => true
  | .sessionResumeRequested _ _ => true
  | .frontend (.picker _) => true
  | .frontend (.preview _) => true
  | .frontend (.widget _) => true
  | .frontend (.removeWidget _ _) => true
  | .frontend (.render _ blockId _) => blockId.any (·.startsWith "transient:")
  | _ => false

/-- The indexed columns of an event. -/
structure EventIndex where
  kind : String
  modelStepId : Option String
  streamPhase : Option ModelStepContentPhase
  deltaBytes : Option Int

def eventIndex : EventMsg → Except Error EventIndex
  | .error _ => .ok ⟨"error", none, none, none⟩
  | .warning _ => .ok ⟨"warning", none, none, none⟩
  | .submissionRejected _ => .ok ⟨"submission_rejected", none, none, none⟩
  | .sessionConfigured .. => .ok ⟨"session_configured", none, none, none⟩
  | .turnStarted .. => .ok ⟨"turn_started", none, none, none⟩
  | .turnComplete .. => .ok ⟨"turn_complete", none, none, none⟩
  | .turnAborted .. => .ok ⟨"turn_aborted", none, none, none⟩
  | .message _ => .ok ⟨"message", none, none, none⟩
  | .messageDelta _ => .ok ⟨"message_delta", none, none, none⟩
  | .assistantMessage message => .ok ⟨"assistant_message", some message.modelStepId, none, none⟩
  | .assistantContentDelta delta =>
    if (delta.delta.utf8ByteSize : Int) ≤ i64Max then
      .ok ⟨"assistant_content_delta", some delta.modelStepId, some delta.phase,
        some delta.delta.utf8ByteSize⟩
    else .error (.checkpoint
      ("stream delta length exceeds SQLite INTEGER: " ++ intConversionError))
  | .modelStepStarted _ _ modelStepId _ _ =>
    .ok ⟨"model_step_started", some modelStepId, none, none⟩
  | .modelStepCompleted step => .ok ⟨"model_step_completed", some step.modelStepId, none, none⟩
  | .sessionHistory _ => .ok ⟨"session_history", none, none, none⟩
  | .modelChanged _ => .ok ⟨"model_changed", none, none, none⟩
  | .sessionResumeRequested .. => .ok ⟨"session_resume_requested", none, none, none⟩
  | .toolCallBegin .. => .ok ⟨"tool_call_begin", none, none, none⟩
  | .toolCallEnd .. => .ok ⟨"tool_call_end", none, none, none⟩
  | .toolLoad .. => .ok ⟨"tool_load", none, none, none⟩
  | .execApprovalRequest .. => .ok ⟨"exec_approval_request", none, none, none⟩
  | .tokenCount .. => .ok ⟨"token_count", none, none, none⟩
  | .contextCompacted => .ok ⟨"context_compacted", none, none, none⟩
  | .webSearchBegin _ _ modelStepId _ => .ok ⟨"web_search_begin", some modelStepId, none, none⟩
  | .webSearchEnd _ _ modelStepId _ _ => .ok ⟨"web_search_end", some modelStepId, none, none⟩
  | .frontend _ => .ok ⟨"frontend", none, none, none⟩

def textBytes : List ContentPart → Option Nat
  | [] => some 0
  | .text text :: rest => (textBytes rest).map (text.utf8ByteSize + ·)
  | _ :: _ => none

def matchingPart (stored : Json) : ContentPart → Bool
  | .text text =>
    (stored.asObject.any fun fields => fields.length == 2) &&
      stored.getStr "type" == some "input_text" && stored.getStr "text" == some text
  | _ => false

/-- `matching_output`: a transcript item that is exactly this tool output. -/
def matchingOutput (item : Json) (callId : String) (output : List ContentPart)
    (isError : Bool) : Bool :=
  item.getStr "type" == some "function_call_output" && item.getStr "call_id" == some callId &&
    item.getBool "_mobius_is_error" == some isError &&
    ((item.get "output").bind Json.asArray).any fun parts =>
      parts.length == output.length && (parts.zip output).all fun (part, text) =>
        matchingPart part text

/-- `stored_event`: long text outputs are stored by reference to the transcript. -/
def storedEvent (event : Event) (transcript : Option (Int × List Json)) : StoredEvent :=
  match event.msg, transcript with
  | .toolCallEnd turnId callId name output isError, some (sequence, items) =>
    if (textBytes output).any (4096 < ·) then
      match items.findIdx? (matchingOutput · callId output isError) with
      | some index => .toolOutput event.submissionId turnId callId name isError sequence index
      | none => .inline event
    else .inline event
  | _, _ => .inline event

structure StreamMetricAccumulator where
  firstDeltaAtMs : Option Int := none
  lastDeltaAtMs : Option Int := none
  chunkCount : Nat := 0
  utf8Bytes : Nat := 0
  longestGapMs : Nat := 0

def StreamMetricAccumulator.observe (acc : StreamMetricAccumulator) (recordedAtMs bytes : Int) :
    Except Error StreamMetricAccumulator := do
  rejectIf (bytes < 0)
    (.checkpoint ("stream delta has a negative length: " ++ negativeConversionError))
  let acc := match acc.lastDeltaAtMs with
    | some previous =>
      let recorded := max recordedAtMs previous
      { acc with
        longestGapMs := max acc.longestGapMs (recorded - previous).toNat
        lastDeltaAtMs := some recorded }
    | none => { acc with firstDeltaAtMs := some recordedAtMs, lastDeltaAtMs := some recordedAtMs }
  let chunkCount ← orError (checkedAdd acc.chunkCount 1) (.checkpoint "stream chunk count overflow")
  let utf8Bytes ← orError (checkedAdd acc.utf8Bytes bytes.toNat)
    (.checkpoint "stream byte count overflow")
  return { acc with chunkCount := chunkCount, utf8Bytes := utf8Bytes }

def StreamMetricAccumulator.finish (acc : StreamMetricAccumulator)
    (phase : ModelStepContentPhase) : Option StreamMetrics := do
  let first ← acc.firstDeltaAtMs
  let last ← acc.lastDeltaAtMs
  some ⟨phase, first, last, acc.chunkCount, acc.utf8Bytes, acc.longestGapMs⟩

/-- The accumulators of the three phases. -/
structure PhaseMetrics where
  reasoning : StreamMetricAccumulator := {}
  commentary : StreamMetricAccumulator := {}
  finalAnswer : StreamMetricAccumulator := {}

/-- Observe one row in the accumulator of its phase. -/
def PhaseMetrics.observe (accs : PhaseMetrics) (phase : ModelStepContentPhase)
    (recordedAtMs bytes : Int) : Except Error PhaseMetrics :=
  match phase with
  | .reasoning => do return { accs with reasoning := ← accs.reasoning.observe recordedAtMs bytes }
  | .commentary => do
    return { accs with commentary := ← accs.commentary.observe recordedAtMs bytes }
  | .finalAnswer => do
    return { accs with finalAnswer := ← accs.finalAnswer.observe recordedAtMs bytes }

/-- Observe the delta rows of one model step in order. -/
def observeRows {Text : Type} (accs : PhaseMetrics) :
    List (EventRow Text) → Except Error PhaseMetrics
  | [] => .ok accs
  | row :: rest => do
    let accs ← match row.streamPhase with
      | some phase => accs.observe phase row.recordedAtMs (row.deltaBytes.getD 0)
      | none => .ok accs
    observeRows accs rest

def deltaRows {Text : Type} (tables : Tables Text) (id : SessionId) (modelStepId : String) :
    List (EventRow Text) :=
  (tables.eventJournal.filter fun row =>
    decide (row.sessionId = id) && row.modelStepId == some modelStepId &&
      row.streamPhase.isSome).insertionSort fun a b => a.sequence ≤ b.sequence

def loadStreamMetrics {Text : Type} (tables : Tables Text) (id : SessionId)
    (modelStepId : String) : Except Error (List StreamMetrics) := do
  let accs ← observeRows {} (deltaRows tables id modelStepId)
  return ((accs.reasoning.finish .reasoning).toList ++
    (accs.commentary.finish .commentary).toList ++ (accs.finalAnswer.finish .finalAnswer).toList)

/-- An insertion whose primary key is taken. -/
def constraintViolation : Error := .sqlite

section Transactions

variable {Text : Type} (codecs : Codecs Text)

/-- A journal row that an event makes redundant: the deltas of a complete
message, and the token count before the latest one. -/
def redundantRow (id : SessionId) (event : Event) (index : EventIndex) (sequence : Int)
    (row : EventRow Text) : Bool :=
  match event.msg with
  | .message _ =>
    decide (row.sessionId = id) && row.eventKind == "message_delta" &&
      match codecs.event.decode row.eventJson with
      | .ok (.inline delta) =>
        delta.submissionId.isSome && delta.submissionId == event.submissionId
      | _ => false
  | .assistantMessage message =>
    !message.content.isEmpty && decide (row.sessionId = id) &&
      row.modelStepId == some message.modelStepId && row.eventKind == "assistant_content_delta"
  | _ =>
    index.kind == "token_count" && decide (row.sessionId = id) &&
      row.eventKind == "token_count" && decide (row.sequence < sequence)

/-- The metrics stored with an event: those of the model step it completes. -/
def eventMetrics (tables : Tables Text) (id : SessionId) (index : EventIndex) :
    Except Error (List StreamMetrics) :=
  if index.kind = "model_step_completed" then
    match index.modelStepId with
    | some step => loadStreamMetrics tables id step
    | none => .ok []
  else .ok []

/-- Whether a journal row has this primary key. -/
def hasEvent (tables : Tables Text) (id : SessionId) (sequence : Int) : Bool :=
  tables.eventJournal.any fun row =>
    decide (row.sessionId = id) && decide (row.sequence = sequence)

/-- The journal after one event: its row, without the rows it makes
redundant, and without itself if it is only of interest while delivered. -/
def journalRows (id : SessionId) (event : Event) (index : EventIndex)
    (journal : List (EventRow Text)) (row : EventRow Text) : List (EventRow Text) :=
  (journal ++ [row]).filter fun other =>
    !redundantRow codecs id event index row.sequence other &&
      !(isTransientEvent event.msg && decide (other.sessionId = id) &&
        decide (other.sequence = row.sequence))

def journalEvent (tables : Tables Text) (id : SessionId) (event : Event) (index : EventIndex)
    (row : EventRow Text) : Tables Text where
  sessions := tables.sessions.map fun session =>
    if session.sessionId = id then { session with latestEventSequence := row.sequence }
    else session
  contextItems := tables.contextItems
  transcriptDelta := tables.transcriptDelta
  messageReceipts := tables.messageReceipts
  executionJournal := tables.executionJournal
  eventJournal := journalRows codecs id event index tables.eventJournal row
  middlewareState := tables.middlewareState

def storeEvent (tables : Tables Text) (id : SessionId) (timestamped : TimestampedEvent)
    (transcript : Option (Int × List Json)) : Except Error (JournalEvent × Tables Text) := do
  let event := timestamped.event
  rejectIf (timestamped.recordedAtMs < 0)
    (.checkpoint "event journal timestamp cannot be negative")
  let index ← eventIndex event.msg
  let session ← orError (tables.session? id)
    (.checkpoint "event journal session does not exist")
  let sequence ← orError (checkedAddInt session.latestEventSequence 1)
    (.checkpoint "event journal sequence overflow")
  let metrics ← eventMetrics tables id index
  rejectIf (hasEvent tables id sequence) constraintViolation
  let row : EventRow Text :=
    ⟨id, sequence, timestamped.recordedAtMs, index.kind, index.modelStepId, index.streamPhase,
      index.deltaBytes, codecs.event.encode (storedEvent event transcript),
      codecs.metrics.encode metrics⟩
  return (⟨sequence, timestamped.recordedAtMs, event, metrics⟩,
    journalEvent codecs tables id event index row)

/-- Store the events of one save in order. -/
def storeEvents (tables : Tables Text) (id : SessionId)
    (transcript : Option (Int × List Json)) :
    List TimestampedEvent → Except Error (List JournalEvent × Tables Text)
  | [] => .ok ([], tables)
  | event :: rest => do
    let (record, tables) ← storeEvent codecs tables id event transcript
    let (records, tables) ← storeEvents tables id transcript rest
    return (record :: records, tables)

end Transactions

end MobiusAgent.StoreTables
