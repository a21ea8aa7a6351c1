import MobiusAgent.HookDispatch

/-!
# The projection of session journals into hooks

`host/bot_events.rs` reads the journal of every session from its cursor on and
records a hook event for each lifecycle record. The cursor of a session and
the events are in the Bot database; every change of them is a transaction of
its own, and the gateway may stop before any of them. A projection is a
program over the database that ends, fails or is stopped. What it records is
also kept in a log.
-/

namespace MobiusAgent.SessionProjection

open JsonValue ProtocolEvents CheckpointRecords CheckpointValidation HookRecords
open RoutineSchedules HookStore RoutineCatalog HookDispatch

section Sessions

/-- A record of a journal. -/
structure SessionRecord where
  sequence : Nat
  recordedAtMs : Int
  msg : EventMsg
  /-- Why its row is not decoded, as when the stored JSON nests too deep for its reader. -/
  undecoded : Option Error := none

/-- What the checkpoint store keeps of a session. -/
structure StoredSession where
  id : SessionId
  ownerId : String
  records : List SessionRecord
  executions : List ExecutionRecord
  /-- The active turn of the checkpoint, if `load` reads it. -/
  active : Except Error (Option ActiveExecution)
  /-- The last sequence that the journal assigned. -/
  lastSequence : Nat

/-- The rows of a page, which are all decoded or none. -/
def decodeRows (rows : List SessionRecord) : Except Error (List SessionRecord) :=
  match rows.findSome? (·.undecoded) with
  | some error => .error error
  | none => .ok rows

def StoredSession.rowsAfter (session : StoredSession) (cursor limit : Nat) :
    List SessionRecord :=
  (session.records.filter fun record => decide (cursor < record.sequence)).take limit

def StoredSession.eventsAfter (session : StoredSession) (cursor limit : Nat) :
    Except Error (List SessionRecord) :=
  decodeRows (session.rowsAfter cursor limit)

/-- The newest page of `event_page`. -/
def StoredSession.newestEvents (session : StoredSession) (limit : Nat) :
    Except Error (List SessionRecord) :=
  decodeRows (session.records.reverse.take limit)

def StoredSession.executionForTurn (session : StoredSession) (turnId : String) :
    Option ExecutionRecord :=
  session.executions.find? (·.turnId = turnId)

def StoredSession.turnAuthor (session : StoredSession) (turnId : String) :
    Except Error (Option MessageAuthor) :=
  match session.executionForTurn turnId with
  | some execution => .ok (some execution.author)
  | none => session.active.map fun active => (active.filter (·.turnId = turnId)).map (·.author)

end Sessions

section Causality

/-- The lineage with an identity that is not in it yet. -/
def pushNew (lineage : List String) (id : String) : List String :=
  if lineage.contains id then lineage else lineage ++ [id]

def causalEvent (source : MessageSource) (causeId : Option String) : Option String :=
  causeId.or (match source with
    | .external _ eventId => some eventId
    | .session _ => none
    | .call _ => none)

def causalOrigin : MessageAuthor → Option String × List String
  | .user => (none, [])
  | .source messageId source causeId ancestry _ _ =>
    (some messageId, ((causalEvent source causeId).toList ++ [messageId]).foldl pushNew ancestry)

def sessionCausality (author : MessageAuthor) : Option String × List String :=
  match author with
  | .source messageId _ _ ancestry _ _ =>
    if ancestry.length = maxHookAncestry then (some messageId, ancestry) else causalOrigin author
  | .user => causalOrigin author

end Causality

section Events

variable (host : Host)

/-- `history`: all runs, the newest first. -/
def history (database : BotDatabase) : Except Error (List RoutineRun) := do
  let _ ← freshState host database
  database.runs.reverse.forM (validateRun host)
  return database.runs.reverse

/-- The identity of the event of a run that started. -/
def runningId (runId : String) : String := "run-" ++ runId ++ "-running"

def runCausality (database : BotDatabase) (sessionId : SessionId) :
    Except Error (Option String × List String) := do
  let runs ← history host database
  match runs.find? (·.sessionId = some sessionId) with
  | none => return (none, [])
  | some run => match database.hooks.event? (runningId run.id) with
    | none => return (none, [])
    | some cause => return (some cause.id,
        if cause.ancestry.length < maxHookAncestry then cause.ancestry ++ [cause.id]
        else cause.ancestry)

/-- The identity of the event of a journal record. -/
def sessionEventId (sessionId : SessionId) (sequence : Nat) : String :=
  "session-" ++ sessionId ++ "-" ++ toString sequence

def turnCausality (session : StoredSession) (turnId : Option String) :
    Except Error (Option String × List String) :=
  match turnId with
  | none => .ok (none, [])
  | some turnId => (session.turnAuthor turnId).map fun author => match author with
    | none => (none, [])
    | some author => sessionCausality author

def recordCausality (database : BotDatabase) (session : StoredSession) (turnId : Option String) :
    Except Error (Option String × List String) := do
  match ← turnCausality session turnId with
  | (some causeId, ancestry) => return (some causeId, ancestry)
  | (none, _) => runCausality host database session.id

def sessionHook (database : BotDatabase) (botId : String) (session : StoredSession)
    (record : SessionRecord) (data : HookData) (turnId : Option String) :
    Except Error HookEvent := do
  let causality ← recordCausality host database session turnId
  return {
    id := sessionEventId session.id record.sequence
    botId := botId
    source := .session session.id
    data := data
    occurredAt := record.recordedAtMs / 1000
    causeId := causality.1
    ancestry := causality.2 }

/-- `turn_lifecycle` of a turn that is not idle. -/
inductive TurnLifecycle where
  | started (turnId : String)
  | approvalRequested (turnId requestId : String)
  | finished (turnId : String)

/-- `turn_lifecycle`, after the test for idle turns. -/
def turnLifecycle : EventMsg → Option TurnLifecycle
  | .turnStarted idle turnId _ => if idle then none else some (.started turnId)
  | .execApprovalRequest id turnId _ _ => some (.approvalRequested turnId id)
  | .turnComplete idle turnId => if idle then none else some (.finished turnId)
  | .turnAborted idle turnId _ => if idle then none else some (.finished turnId)
  | _ => none

/-- The owner that a configuration names. -/
def configuredOwner : EventMsg → Option String
  | .sessionConfigured _ context _ => some context.ownerId
  | _ => none

def announces (record : SessionRecord) : Bool :=
  (configuredOwner record.msg).isSome && record.sequence == 1

/-- The fact of a lifecycle boundary. -/
def lifecycleData (session : StoredSession) : TurnLifecycle → Except Error (HookData × String)
  | .started turnId => .ok (.sessionTurnStarted session.id turnId, turnId)
  | .approvalRequested turnId requestId =>
    .ok (.sessionApproval session.id turnId requestId, turnId)
  | .finished turnId => match session.executionForTurn turnId with
    | none => .error (.config "terminal event has no execution record")
    | some execution => .ok (.sessionTurnFinished session.id turnId execution.outcome, turnId)

def lifecycleEvent (database : BotDatabase) (botId : String) (session : StoredSession)
    (record : SessionRecord) : Except Error (Option HookEvent) :=
  if announces record then do
    let event ← sessionHook host database botId session record (.sessionCreated session.id) none
    return some event
  else match turnLifecycle record.msg with
    | none => .ok none
    | some lifecycle => do
      let data ← lifecycleData session lifecycle
      let event ← sessionHook host database botId session record data.1 (some data.2)
      return some event

structure AttentionItem where
  capability : String
  widgetId : String
  itemId : String
  text : String

def textField (value : Json) (key : String) : String := (value.getStr key).getD ""

def actionListItems (widget : Json) : List Json :=
  match widget.get "content" with
  | some content =>
    if textField content "type" = "action_list" then
      ((content.get "items").bind Json.asArray).getD []
    else []
  | none => []

/-- `pending_attention_items` of a widget record. -/
def pendingAttentionItems : EventMsg → List AttentionItem
  | .frontend (.widget payload) => match payload.get "item" with
    | some widget =>
      if textField widget "slot" = "attention" then
        ((actionListItems widget).filter fun item => textField item "state" == "pending").map
          fun item => ⟨textField payload "capability", textField widget "id",
            textField item "id", textField item "text"⟩
      else []
    | none => []
  | _ => []

end Events

section Programs

/-- How a projection ends. -/
inductive Outcome (α : Type) where
  | done (value : α)
  | failed (error : Error)
  /-- The gateway stopped, perhaps between the two transactions of an owner change. -/
  | stopped (closing : Bool)

/-- The state of a projection. -/
structure Progress where
  database : BotDatabase
  /-- The transactions before the gateway stops. -/
  budget : Nat
  /-- The journal records whose events were recorded, in order. -/
  projected : List (SessionId × Nat) := []
  /-- The lifecycle records that were read while their owner was no Bot. -/
  skipped : List (SessionId × Nat) := []

/-- A program over the state of a projection. -/
def Projecting (α : Type) : Type := Progress → Outcome α × Progress

/-- Programs in sequence. -/
instance : Monad Projecting where
  pure value := fun progress => (.done value, progress)
  bind first second := fun progress => match first progress with
    | (.done value, after) => second value after
    | (.failed error, after) => (.failed error, after)
    | (.stopped closing, after) => (.stopped closing, after)

/-- What a program reads from the database. -/
def inspect {α : Type} (query : BotDatabase → Except Error α) : Projecting α := fun progress =>
  match query progress.database with
  | .ok value => (.done value, progress)
  | .error error => (.failed error, progress)

def fail {α : Type} (error : Error) : Projecting α := fun progress => (.failed error, progress)

/-- One transaction; it is not reached if the gateway stops. -/
def transact {α : Type} (closing : Bool)
    (change : BotDatabase → Except Error (α × BotDatabase)) : Projecting α := fun progress =>
  match progress.budget with
  | 0 => (.stopped closing, progress)
  | budget + 1 => match change progress.database with
    | .error error => (.failed error, progress)
    | .ok (value, database) =>
      (.done value, { progress with database := database, budget := budget })

/-- The record was projected. -/
def logProjected (sessionId : SessionId) (sequence : Nat) : Projecting Unit := fun progress =>
  (.done (), { progress with projected := progress.projected ++ [(sessionId, sequence)] })

/-- The record was read without its Bot. -/
def logSkipped (sessionId : SessionId) (sequence : Nat) : Projecting Unit := fun progress =>
  (.done (), { progress with skipped := progress.skipped ++ [(sessionId, sequence)] })

end Programs

section Journals

variable (host : Host) (attentionKey : SessionId → String → String → String → String)

/-- `bots.bot(id).is_ok()`. -/
def isBot (database : BotDatabase) (id : String) : Bool :=
  match freshState host database with
  | .ok state => state.bots.any fun bot => decide (bot.id = id)
  | .error _ => false

/-- The first characters of a text. -/
def takeChars (count : Nat) (text : String) : String := String.ofList (text.toList.take count)

def attentionEvent (database : BotDatabase) (botId : String) (session : StoredSession)
    (record : SessionRecord) (item : AttentionItem) : Except Error HookEvent := do
  let event ← sessionHook host database botId session record
    (.sessionAttention session.id item.capability item.itemId (takeChars 200 item.text)) none
  return { event with
    id := "attention-" ++ attentionKey session.id item.capability item.widgetId item.itemId }

/-- One attention item: its stable identity makes repeated widgets and replays idempotent. -/
def projectItem (botId : String) (session : StoredSession) (record : SessionRecord)
    (item : AttentionItem) : Projecting Unit := do
  let id := "attention-" ++ attentionKey session.id item.capability item.widgetId item.itemId
  let known ← inspect fun database => .ok (database.hooks.event? id).isSome
  if known then return ()
  else do
    let event ← inspect fun database =>
      attentionEvent host attentionKey database botId session record item
    transact false fun database => (recordHook host database event).map ((), ·)

def projectAttention (botId : String) (session : StoredSession) (record : SessionRecord) :
    List AttentionItem → Projecting Unit
  | [] => pure ()
  | item :: rest => do
    projectItem host attentionKey botId session record item
    projectAttention botId session record rest

structure Position where
  /-- The last record that was read. -/
  cursor : Nat
  owner : Option String
  persisted : Nat

def ownerChangedEvent (session : StoredSession) (previous : String) (record : SessionRecord) :
    HookEvent where
  id := sessionEventId session.id record.sequence
  botId := previous
  source := .session session.id
  data := .sessionOwnerChanged session.id previous
  occurredAt := record.recordedAtMs / 1000
  causeId := none
  ancestry := []

/-- `close_owner_change`: the second transaction follows the first. -/
def closeOwnerChange (session : StoredSession) (previous next : String)
    (record : SessionRecord) : Projecting Unit := do
  transact false fun database =>
    (closeSessionSources host database [ownerChangedEvent session previous record]).map ((), ·)
  logProjected session.id record.sequence
  transact true fun database =>
    (advanceSourceCursor database.hooks session.id next record.sequence).map
      fun hooks => ((), { database with hooks := hooks })

def projectLifecycle (botId : String) (session : StoredSession) (record : SessionRecord)
    (position : Position) : Projecting Position := do
  let event ← inspect fun database => lifecycleEvent host database botId session record
  match event with
  | none => return position
  | some event => do
    let isNew ← transact false fun database =>
      (projectSession host database.hooks event record.sequence).map
        fun projected => (projected.1, { database with hooks := projected.2 })
    if isNew then logProjected session.id record.sequence else pure ()
    return { position with persisted := record.sequence }

def projectOwned (session : StoredSession) (fallbackOwner : String) (record : SessionRecord)
    (position : Position) : Projecting Position := do
  let botId := position.owner.getD fallbackOwner
  let known ← inspect fun database => .ok (isBot host database botId)
  if known then do
    projectAttention host attentionKey botId session record (pendingAttentionItems record.msg)
    projectLifecycle host botId session record position
  else do
    logSkipped session.id record.sequence
    return position

def projectRecord (session : StoredSession) (fallbackOwner : String) (record : SessionRecord)
    (position : Position) : Projecting Position :=
  match configuredOwner record.msg with
  | none => projectOwned host attentionKey session fallbackOwner record
      { position with cursor := record.sequence }
  | some next => match position.owner with
    | none => projectOwned host attentionKey session fallbackOwner record
        { position with cursor := record.sequence, owner := some next }
    | some previous =>
      if previous = next then
        projectOwned host attentionKey session fallbackOwner record
          { position with cursor := record.sequence, owner := some next }
      else do
        closeOwnerChange host session previous next record
        return ⟨record.sequence, some next, record.sequence⟩

def projectRecords (session : StoredSession) (fallbackOwner : String) :
    List SessionRecord → Position → Projecting Position
  | [], position => pure position
  | record :: rest, position => do
    let position ← projectRecord host attentionKey session fallbackOwner record position
    projectRecords session fallbackOwner rest position

def upTo (through : Option Nat) (page : List SessionRecord) : List SessionRecord :=
  page.takeWhile fun record => through.all fun bound => decide (record.sequence ≤ bound)

/-- One page, with the cursor saved after it. -/
def projectPage (session : StoredSession) (fallbackOwner : String) (through : Option Nat)
    (position : Position) : Projecting Position := do
  let page ← inspect fun _ => session.eventsAfter position.cursor 100
  let position ← projectRecords host attentionKey session fallbackOwner (upTo through page)
    { position with persisted := position.cursor }
  if position.persisted < position.cursor then
    transact false fun database =>
      (advanceSourceCursor database.hooks session.id (position.owner.getD fallbackOwner)
        position.cursor).map fun hooks => ((), { database with hooks := hooks })
  else pure ()
  return position

/-- The loop of `project_session_journal` up to a bound; every page but the last moves on. -/
def projectThrough (session : StoredSession) (fallbackOwner : String) (bound : Nat) :
    Nat → Position → Projecting Unit
  | 0, _ => fail (.config "session journal ended before the owner change")
  | fuel + 1, position =>
    if bound ≤ position.cursor then pure ()
    else do
      let next ← projectPage host attentionKey session fallbackOwner (some bound) position
      if next.cursor = position.cursor then
        fail (.config "session journal ended before the owner change")
      else projectThrough session fallbackOwner bound fuel next

def sourceCursor (database : BotDatabase) (sessionId : SessionId) :
    Except Error (Nat × Option String) :=
  match database.hooks.cursors.find? (·.sessionId = sessionId) with
  | none => .ok (0, none)
  | some row =>
    if row.sequence < 0 then
      .error (.config ("negative session cursor: " ++ negativeConversionError))
    else .ok (row.sequence.toNat, some row.botId)

def projectSessionJournal (session : StoredSession) (fallbackOwner : String)
    (through : Option Nat) : Projecting Unit := do
  let start ← inspect fun database => sourceCursor database session.id
  match through with
  | none => do
    let _ ← projectPage host attentionKey session fallbackOwner none ⟨start.1, start.2, start.1⟩
    return ()
  | some bound =>
    projectThrough host attentionKey session fallbackOwner bound (session.records.length + 1)
      ⟨start.1, start.2, start.1⟩

/-- `close_reassigned_source`: the newest configuration is on the last page of events. -/
def closeReassignedSource (session : StoredSession) (previous : String) :
    Projecting Unit := do
  let page ← inspect fun _ => session.newestEvents 100
  match page.find? fun record => (configuredOwner record.msg).isSome with
  | none => fail (.config "reassigned session has no configuration event")
  | some record =>
    projectSessionJournal host attentionKey session previous (some record.sequence)

/-- The loop of `dispatch_stored_bot_events` over all sessions. -/
def projectSessions : List StoredSession → Projecting Unit
  | [] => pure ()
  | session :: rest => do
    projectSessionJournal host attentionKey session session.ownerId none
    projectSessions rest

/-- `dispatch_stored_bot_events` up to the actions that it executes. -/
def dispatchStoredBotEvents (sessions : List StoredSession) (now : Int) :
    Projecting (List OutboxRow) := do
  projectSessions host attentionKey sessions
  inspect fun database => .ok (pendingActions database.hooks now)

end Journals

section Hubs

/-- The Bot database and the sessions of a gateway, with what its projections did. -/
structure Hub where
  database : BotDatabase
  /-- The sessions of the checkpoint store. -/
  sessions : List StoredSession := []
  /-- The identifiers of all sessions so far. -/
  minted : List SessionId := []
  /-- The journal records whose events were recorded. -/
  projected : List (SessionId × Nat) := []
  /-- The records that were read while their owner was no Bot. -/
  skipped : List (SessionId × Nat) := []
  failures : List Error := []

def Hub.session? (hub : Hub) (id : SessionId) : Option StoredSession :=
  hub.sessions.find? (·.id = id)

def Hub.replace (hub : Hub) (session : StoredSession) : Hub :=
  { hub with sessions := hub.sessions.map fun other =>
      if other.id = session.id then session else other }

/-- The hub while a projection begins. -/
def Hub.start (hub : Hub) (budget : Nat) : Progress :=
  ⟨hub.database, budget, hub.projected, hub.skipped⟩

def Hub.after {α : Type} (hub : Hub) (result : Outcome α × Progress) : Hub :=
  { hub with
    database := result.2.database
    projected := result.2.projected
    skipped := result.2.skipped
    failures := hub.failures ++ match result.1 with
      | .failed error => [error]
      | _ => [] }

variable (host : Host) (attentionKey : SessionId → String → String → String → String)

/-- A step of a gateway. -/
inductive HubOp where
  | openSession (session : StoredSession)
  | commit (session : StoredSession)
  | deleteSession (sessionId : SessionId)
  /-- Another transaction of the Bot store. -/
  | elsewhere (statements : List HookStatement) (catalog : BotState) (runs : List RoutineRun)
      (commands : List CommandRow)
  /-- The stored events are dispatched until the gateway stops. -/
  | dispatch (budget : Nat) (now : Int)
  /-- The owner of a session has changed. -/
  | reassigned (sessionId : SessionId) (previous : String) (budget : Nat)

/-- The Bot database after another transaction; one that fails changes nothing. -/
def elsewhereDatabase (database : BotDatabase) (statements : List HookStatement)
    (catalog : BotState) (runs : List RoutineRun) (commands : List CommandRow) : BotDatabase :=
  match replay host.digest database.hooks statements with
  | .ok hooks => ⟨some catalog, hooks, runs, commands⟩
  | .error _ => database

def HubOp.step (hub : Hub) : HubOp → Hub
  | .openSession session =>
    { hub with sessions := hub.sessions ++ [session], minted := hub.minted ++ [session.id] }
  | .commit session => hub.replace session
  | .deleteSession sessionId =>
    { hub with sessions := hub.sessions.filter fun session => decide (session.id ≠ sessionId) }
  | .elsewhere statements catalog runs commands =>
    { hub with database :=
        elsewhereDatabase host hub.database statements catalog runs commands }
  | .dispatch budget now =>
    hub.after (dispatchStoredBotEvents host attentionKey hub.sessions now (hub.start budget))
  | .reassigned sessionId previous budget => match hub.session? sessionId with
    | none => hub
    | some session =>
      hub.after (closeReassignedSource host attentionKey session previous (hub.start budget))

def runHub (hub : Hub) (operations : List HubOp) : Hub :=
  operations.foldl (HubOp.step host attentionKey) hub

end Hubs

end MobiusAgent.SessionProjection
