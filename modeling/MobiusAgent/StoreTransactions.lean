import MobiusAgent.StoreTables

/-!
# Transactions of the checkpoint store

`save_with_events`, `load`, `fork`, `delete_sessions` and `append_event` of
`backend/checkpoint/sqlite.rs`, with `prepare_append`, `append_context` and
`load_context` of `sqlite_context.rs`. Context items are shared: an item is
its allocation's address with the value stored there. A connection may hold
an identity hint for a session, the addresses of the items it last wrote or
read, and compares addresses before it compares rows.
-/

namespace MobiusAgent.StoreTransactions

open JsonValue ProtocolEvents CheckpointRecords CheckpointValidation StoreTables

/-- The address of one shared allocation. -/
abbrev Address := Nat

structure SharedItem where
  address : Address
  value : Json
  deriving DecidableEq

/-- A checkpoint as the runtime holds it, with shared context items. -/
structure SharedCheckpoint where
  /-- Everything but the context. -/
  header : CheckpointHeader
  context : List SharedItem
  deriving DecidableEq

def SharedCheckpoint.checkpoint (shared : SharedCheckpoint) : Checkpoint :=
  ⟨shared.header, shared.context.map (·.value)⟩

/-- `ContextCache`: an identity hint for one session on one connection. -/
structure ContextCache where
  /-- The sequence of the checkpoint it was recorded for. -/
  sequence : Nat
  epoch : Nat
  /-- The connection's data version captured with it. -/
  dataVersion : Nat
  items : List Address
  deriving DecidableEq

/-- The hints of one connection, by session. -/
abbrev ContextCaches := List (SessionId × ContextCache)

def cachedContext (caches : ContextCaches) (id : SessionId) : Option ContextCache :=
  (caches.find? (·.1 = id)).map (·.2)

/-- `HashMap::remove`. -/
def removeCache (caches : ContextCaches) (id : SessionId) : ContextCaches :=
  caches.filter (·.1 ≠ id)

/-- `ContextCache::record`: drop hints without a live item, then replace the
hint of this session. -/
def recordCache (live : Address → Bool) (caches : ContextCaches) (shared : SharedCheckpoint)
    (dataVersion : Nat) : ContextCaches :=
  let kept := caches.filter fun (_, cache) => cache.items.any live
  let others := removeCache kept shared.header.sessionId
  if shared.context.isEmpty then others
  else (shared.header.sessionId, ⟨shared.header.sequence, shared.header.contextEpoch,
    dataVersion, shared.context.map (·.address)⟩) :: others

section Context

variable {Text : Type} (codecs : Codecs Text)

/-- The hint applies: same stored sequence, epoch, data version and length. -/
def hintApplies (cache : ContextCache) (shared : SharedCheckpoint) (sequence : Int)
    (dataVersion count : Nat) : Bool :=
  decide ((cache.sequence : Int) ≤ i64Max) && decide ((cache.sequence : Int) = sequence) &&
    cache.epoch == shared.header.contextEpoch && cache.dataVersion == dataVersion &&
    cache.items.length == count

/-- Every item of the hint is the item offered at its place. -/
def wholeHintMatches (cache : ContextCache) (shared : SharedCheckpoint) : Bool :=
  (cache.items.zip shared.context).all fun (old, item) => old == item.address

/-- Compare the stored prefix with the offered items, row by row; items whose
address the hint knows are skipped. -/
def comparePrefix (hint : Option ContextCache) :
    Nat → List (ContextRow Text) → List SharedItem → Except Error Unit
  | _, _, [] => .ok ()
  | _, [], _ :: _ => .error (.checkpoint "stored context item is missing")
  | index, row :: rows, item :: items => do
    rejectIf (row.itemIndex ≠ index) (.checkpoint "stored context item is missing")
    if hint.any fun cache => cache.items[index]? == some item.address then
      comparePrefix hint (index + 1) rows items
    else do
      let previous ← codecs.item.decode row.itemJson
      rejectIf (previous ≠ item.value)
        (.checkpoint "context prefix changed without advancing its epoch")
      comparePrefix hint (index + 1) rows items

/-- The rows of `CONTEXT_PREFIX_SQL`. -/
def prefixRows (tables : Tables Text) (id : SessionId) (epoch count : Int) :
    List (ContextRow Text) :=
  (tables.contextItems.filter fun row =>
    decide (row.sessionId = id) && decide (row.epoch = epoch) &&
      decide (row.itemIndex < count)).insertionSort contextOrder

def storedLength (count : Int) : Except Error Nat :=
  if 0 ≤ count then .ok count.toNat
  else .error (.checkpoint ("stored context length is invalid: " ++ negativeConversionError))

/-- `DELETE FROM context_items WHERE session_id = ?1`. -/
def dropContext (tables : Tables Text) (id : SessionId) : Tables Text :=
  { tables with contextItems := tables.contextItems.filter fun row => !decide (row.sessionId = id) }

/-- `prepare_append`: where appending starts, whether the context was
rewritten, and the tables without a rewritten context. -/
def prepareAppend (tables : Tables Text) (shared : SharedCheckpoint)
    (cached : Option ContextCache) (dataVersion : Nat) :
    Except Error ((Nat × Bool) × Tables Text) :=
  match tables.session? shared.header.sessionId with
  | none => .ok ((0, false), tables)
  | some row => do
    let nextSequence ← sqliteInteger shared.header.sequence "checkpoint sequence"
    let nextEpoch ← sqliteInteger shared.header.contextEpoch "context epoch"
    rejectIf (nextSequence ≤ row.latestSequence)
      (.checkpoint "checkpoint sequence did not advance")
    rejectIf (nextEpoch < row.contextEpoch) (.checkpoint "context epoch cannot move backwards")
    if nextEpoch ≠ row.contextEpoch then
      return ((0, true), dropContext tables shared.header.sessionId)
    else do
      let count ← storedLength row.contextCount
      rejectIf (shared.context.length < count)
        (.checkpoint "context prefix was truncated without advancing its epoch")
      let hint := cached.filter (hintApplies · shared row.latestSequence dataVersion count)
      if count = 0 ∨ hint.any (wholeHintMatches · shared) then return ((count, false), tables)
      else do
        let rows := prefixRows tables shared.header.sessionId row.contextEpoch row.contextCount
        comparePrefix codecs hint 0 rows (shared.context.take count)
        return ((count, false), tables)

/-- Whether a context row has this primary key. -/
def hasContext (tables : Tables Text) (id : SessionId) (epoch index : Int) : Bool :=
  tables.contextItems.any fun row => decide (row.sessionId = id) &&
    decide (row.epoch = epoch) && decide (row.itemIndex = index)

/-- Insert context items from a position on. -/
def insertContext (tables : Tables Text) (id : SessionId) (epoch : Int) :
    Nat → List SharedItem → Except Error (Tables Text)
  | _, [] => .ok tables
  | index, item :: items => do
    rejectIf (i64Max < (index : Int))
      (.checkpoint ("context index exceeds SQLite INTEGER: " ++ intConversionError))
    rejectIf (hasContext tables id epoch index) constraintViolation
    let row : ContextRow Text := ⟨id, epoch, index, codecs.item.encode item.value⟩
    insertContext { tables with contextItems := tables.contextItems ++ [row] } id epoch
      (index + 1) items

def appendContext (tables : Tables Text) (shared : SharedCheckpoint) (start : Nat) :
    Except Error (Tables Text) := do
  let epoch ← sqliteInteger shared.header.contextEpoch "context epoch"
  insertContext codecs tables shared.header.sessionId epoch start (shared.context.drop start)

/-- The rows of a session's context against its header. -/
def collectContext (epoch : Int) (count : Nat) :
    List Json → List (ContextRow Text) → Except Error (List Json)
  | items, [] => .ok items
  | items, row :: rows => do
    rejectIf (row.epoch ≠ epoch ∨ row.itemIndex ≠ items.length ∨ count ≤ items.length)
      (.checkpoint "stored context rows do not match their header")
    let item ← codecs.item.decode row.itemJson
    collectContext epoch count (items ++ [item]) rows

def loadContext (tables : Tables Text) (id : SessionId) (epoch count : Int) :
    Except Error (List Json) := do
  let count ← storedLength count
  let items ← collectContext codecs epoch count [] (tables.contextRows id)
  rejectIf (items.length ≠ count)
    (.checkpoint "stored context length does not match its header")
  return items

end Context

section Checkpoints

variable {Text : Type} (codecs : Codecs Text) (checks : ExternalChecks)

def contextCount (shared : SharedCheckpoint) : Except Error Int :=
  if (shared.context.length : Int) ≤ i64Max then .ok shared.context.length
  else .error (.checkpoint ("context length exceeds SQLite INTEGER: " ++ intConversionError))

def newRow (shared : SharedCheckpoint) (parent : Option (SessionId × Int))
    (sequence epoch count : Int) : SessionRow Text :=
  ⟨shared.header.sessionId, parent.map (·.1), parent.map (·.2), sequence, 0,
    codecs.header.encode shared.header, epoch, count,
    codecs.sessionContext.encode shared.header.sessionContext,
    codecs.executionStats.encode shared.header.executionStats, shared.header.catalogVisible,
    shared.header.firstUserMessage⟩

/-- The row of a session advanced to a checkpoint. -/
def advanceRow (shared : SharedCheckpoint) (sequence epoch count : Int)
    (row : SessionRow Text) : SessionRow Text :=
  { row with
    latestSequence := sequence
    latestCheckpointJson := codecs.header.encode shared.header
    contextEpoch := epoch
    contextCount := count
    sessionContextJson := codecs.sessionContext.encode shared.header.sessionContext
    executionStatsJson := codecs.executionStats.encode shared.header.executionStats
    catalogVisible := shared.header.catalogVisible
    firstUserMessage := row.firstUserMessage.or shared.header.firstUserMessage }

/-- Insert or advance the row of a session. -/
def upsertSession (tables : Tables Text) (shared : SharedCheckpoint)
    (sequence epoch count : Int) : Except Error (Tables Text) :=
  match tables.session? shared.header.sessionId with
  | none => .ok { tables with
      sessions := tables.sessions ++ [newRow codecs shared none sequence epoch count] }
  | some row => do
    rejectIf (sequence ≤ row.latestSequence) (.checkpoint "checkpoint sequence did not advance")
    return tables.updateSession shared.header.sessionId
      (advanceRow codecs shared sequence epoch count)

/-- `INSERT OR IGNORE INTO message_receipts` for every pending message. -/
def insertReceipts (id : SessionId) (queue : List QueuedMessage)
    (receipts : List (SessionId × String)) : List (SessionId × String) :=
  queue.foldl (fun receipts queued =>
    if receipts.contains (id, queued.id) then receipts
    else receipts ++ [(id, queued.id)]) receipts

def insertTranscript (tables : Tables Text) (id : SessionId) (sequence : Int)
    (items : List Json) : Except Error (Tables Text) := do
  rejectIf (tables.transcriptDelta.any fun row =>
    decide (row.sessionId = id) && decide (row.sequence = sequence)) constraintViolation
  let row : TranscriptRow Text := ⟨id, sequence, codecs.items.encode items⟩
  return { tables with transcriptDelta := tables.transcriptDelta ++ [row] }

/-- A batch is only written if it has items. -/
def insertNonemptyTranscript (tables : Tables Text) (id : SessionId) (sequence : Int)
    (items : List Json) : Except Error (Tables Text) :=
  if items.isEmpty then .ok tables else insertTranscript codecs tables id sequence items

def insertExecution (tables : Tables Text) (id : SessionId) (sequence : Int)
    (record : ExecutionRecord) : Except Error (Tables Text) := do
  rejectIf (tables.executionJournal.any fun row =>
    decide (row.sessionId = id) && decide (row.sequence = sequence)) constraintViolation
  let row : ExecutionRow Text :=
    ⟨id, sequence, codecs.execution.encode record, record.startedAtMs⟩
  return { tables with executionJournal := tables.executionJournal ++ [row] }

def storeCheckpoint (tables : Tables Text) (shared : SharedCheckpoint) (sequence : Int)
    (transcriptDelta : List Json) (execution : Option ExecutionRecord) :
    Except Error (Tables Text) := do
  let id := shared.header.sessionId
  let epoch ← sqliteInteger shared.header.contextEpoch "context epoch"
  let count ← contextCount shared
  let tables ← upsertSession codecs tables shared sequence epoch count
  let tables := { tables with
    messageReceipts := insertReceipts id shared.header.pendingMessages tables.messageReceipts }
  let tables ← insertNonemptyTranscript codecs tables id sequence transcriptDelta
  match execution with
  | some record => insertExecution codecs tables id sequence record
  | none => .ok tables

def validateOptionalExecution (header : CheckpointHeader) (execution : Option ExecutionRecord) :
    Check :=
  match execution with
  | some record => validateExecution checks header record
  | none => .ok ()

/-- The checks and the transaction of `save_with_events`. -/
def saveWithEvents (tables : Tables Text) (shared : SharedCheckpoint)
    (transcriptDelta : List Json) (execution : Option ExecutionRecord)
    (events : List TimestampedEvent) (cached : Option ContextCache) (dataVersion : Nat) :
    Except Error (List JournalEvent × Tables Text) := do
  validateCheckpoint shared.header
  validateOptionalExecution checks shared.header execution
  let sequence ← sqliteInteger shared.header.sequence "checkpoint sequence"
  let ((start, _), tables) ← prepareAppend codecs tables shared cached dataVersion
  let tables ← storeCheckpoint codecs tables shared sequence transcriptDelta execution
  let tables ← appendContext codecs tables shared start
  storeEvents codecs tables shared.header.sessionId (some (sequence, transcriptDelta)) events

/-- `decode_checkpoint`: decode and check a header. Decoding a queued message
checks it. -/
def decodeCheckpoint (id : SessionId) (sequence : Int) (json : Text) :
    Except Error CheckpointHeader := do
  let header ← codecs.header.decode json
  (header.pendingMessages.forM (validateQueuedMessage checks)).mapError fun error =>
    .json error.display
  rejectIf (sequence < 0)
    (.checkpoint ("checkpoint row has a negative sequence: " ++ negativeConversionError))
  validateCheckpoint header
  rejectIf (header.sessionId ≠ id ∨ (header.sequence : Int) ≠ sequence)
    (.checkpoint "checkpoint row does not match its index")
  return header

/-- The read transaction of `load`. -/
def load (tables : Tables Text) (id : SessionId) : Except Error (Option Checkpoint) :=
  match tables.session? id with
  | none => .ok none
  | some row => do
    let header ← decodeCheckpoint codecs checks id row.latestSequence row.latestCheckpointJson
    let epoch ← sqliteInteger header.contextEpoch "context epoch"
    rejectIf (epoch ≠ row.contextEpoch)
      (.checkpoint "checkpoint context epoch does not match its index")
    let context ← loadContext codecs tables id row.contextEpoch row.contextCount
    return some ⟨header, context⟩

/-- A forked session may only start clean, at sequence zero. -/
def cleanFork (header : CheckpointHeader) : Bool :=
  header.sequence == 0 && header.activeExecution.isNone && header.pendingApproval.isNone &&
    header.pendingMessages.isEmpty

/-- Catalog data of a forked session. -/
structure SessionSummary where
  sessionId : SessionId
  sessionContext : SessionContext
  parentSessionId : Option SessionId
  parentSequence : Option Int
  sequence : Int
  /-- Whether the catalog shows the session. -/
  catalogVisible : Bool
  firstUserMessage : Option String
  executionStats : ExecutionStats

def summaryFromRow (row : SessionRow Text) : Except Error SessionSummary := do
  let context ← codecs.sessionContext.decode row.sessionContextJson
  validateSessionContext context
  let stats ← codecs.executionStats.decode row.executionStatsJson
  return ⟨row.sessionId, context, row.parentSessionId, row.parentSequence, row.latestSequence,
    row.catalogVisible, row.firstUserMessage, stats⟩

/-- The checks and the transaction of `fork`. -/
def fork (tables : Tables Text) (parent : SessionId) (parentSequence : Nat)
    (shared : SharedCheckpoint) : Except Error (SessionSummary × Tables Text) := do
  let header := shared.header
  rejectIf (parent = header.sessionId) (.checkpoint "a session cannot fork itself")
  rejectIf (!cleanFork header)
    (.checkpoint "a fork must begin at a clean sequence-zero checkpoint")
  let parentSequence ← sqliteInteger parentSequence "parent sequence"
  let sequence ← sqliteInteger header.sequence "checkpoint sequence"
  validateCheckpoint header
  let durable ← orError (tables.session? parent) (.checkpoint "fork parent does not exist")
  rejectIf (durable.latestSequence < parentSequence)
    (.checkpoint "fork point is newer than the parent checkpoint")
  let epoch ← sqliteInteger header.contextEpoch "context epoch"
  let count ← contextCount shared
  rejectIf (tables.session? header.sessionId).isSome constraintViolation
  let row := newRow codecs shared (some (parent, parentSequence)) sequence epoch count
  let tables := { tables with sessions := tables.sessions ++ [row] }
  let tables ← appendContext codecs tables shared 0
  let tables ← insertNonemptyTranscript codecs tables header.sessionId sequence
    (shared.context.map (·.value))
  let summary ← summaryFromRow codecs row
  return (summary, tables)

/-- The sessions of the tree so far and their children. -/
def addChildren (tables : Tables Text) (tree : List SessionId) : List SessionId :=
  tree ++ (tables.sessions.filter fun row =>
    (row.parentSessionId.any fun parent => tree.contains parent) &&
      !tree.contains row.sessionId).map (·.sessionId)

/-- The recursive query `session_tree`: the roots that exist and all their
descendants. Every round but the last adds a session, so as many rounds as
there are sessions are enough. -/
def sessionTree (tables : Tables Text) (roots : List SessionId) : List SessionId :=
  (addChildren tables)^[tables.sessions.length]
    ((tables.sessions.filter fun row => roots.contains row.sessionId).map (·.sessionId))

/-- The tables without some sessions; the foreign keys cascade. -/
def Tables.withoutSessions (tables : Tables Text) (gone : List SessionId) : Tables Text where
  sessions := tables.sessions.filter fun row => !gone.contains row.sessionId
  contextItems := tables.contextItems.filter fun row => !gone.contains row.sessionId
  transcriptDelta := tables.transcriptDelta.filter fun row => !gone.contains row.sessionId
  messageReceipts := tables.messageReceipts.filter fun row => !gone.contains row.1
  executionJournal := tables.executionJournal.filter fun row => !gone.contains row.sessionId
  eventJournal := tables.eventJournal.filter fun row => !gone.contains row.sessionId
  middlewareState := tables.middlewareState.filter fun row => !gone.contains row.1

/-- The transaction of `delete_sessions`: the deleted tree and the tables
without it, or nothing if a root does not exist. -/
def deleteSessions (tables : Tables Text) (roots : List SessionId) :
    Except Error (Option (List SessionId × Tables Text)) :=
  let tree := sessionTree tables roots
  if !roots.all tree.contains then .ok none
  else do
    let remaining := Tables.withoutSessions tables tree
    rejectIf (remaining.sessions.any fun row => row.parentSessionId.any tree.contains)
      constraintViolation
    rejectIf (tables.sessions.length - remaining.sessions.length ≠ tree.length)
      (.checkpoint "session tree changed during deletion")
    return some (tree, remaining)

end Checkpoints

end MobiusAgent.StoreTransactions
