import MobiusAgent.HookTransactions

/-!
# The dispatch of hook actions

`bots.rs` commits every change of the hook tables, the catalog and the runs in
a transaction. `host/bot_events.rs` reads the pending rows of the outbox and
executes their actions; any number of dispatch loops do so at once, and all of
them end when the gateway stops. A loop is the tasks of its page here, and a
step is one section between two awaits: their orders include those of all
loops. What a section learns from outside is an argument.
-/

namespace MobiusAgent.HookDispatch

open JsonValue ProtocolEvents CheckpointRecords CheckpointValidation HookRecords
open RoutineSchedules HookStore RoutineCatalog

section Statements

/-- A statement of a transaction on the hook tables. -/
inductive HookStatement where
  /-- `accept_action`. -/
  | accept (id : String)
  /-- `action_failed`. -/
  | fail (id error : String) (retryAt : Option Int)
  /-- `save_binding`. -/
  | save (botId : String) (routineId : Option String) (binding : HookBinding BotAction)
      (enabled : Bool) (afterSequence : Nat) (now : Int)
  /-- A binding that no routine holds is removed with its pending rows. -/
  | remove (botId id : String)
  /-- The bindings of a routine are removed. -/
  | unbindRoutine (routineId : String)
  /-- The bindings to a session are removed. -/
  | unbindSession (sessionId : SessionId)
  /-- `cancel_source_pending`. -/
  | cancel (source : HookSource)
  /-- `record_event`. -/
  | record (event : HookEvent) (sequence : Option Nat)
  /-- `advance_cursor`. -/
  | advance (sessionId : SessionId) (botId : String) (sequence : Nat)
  /-- The cursor of a session is removed. -/
  | forget (sessionId : SessionId)
  /-- The bindings, events and cursors of a Bot are removed. -/
  | deleteBot (botId : String)

def selectsSession (sessionId : SessionId) : HookSelector → Bool
  | .event (.session source) _ _ _ _ => source == sessionId
  | _ => false

/-- The hook tables without a Bot; its rows and journal sequences go with its events. -/
def removeBot (tables : HookTables) (botId : String) : HookTables :=
  let removed := fun id => tables.events.any fun event =>
    decide (event.id = id) && decide (event.botId = botId)
  { bindings := tables.bindings.filter fun row => decide (row.botId ≠ botId)
    events := tables.events.filter fun event => decide (event.botId ≠ botId)
    journalSequences := tables.journalSequences.filter fun entry => !removed entry.1
    outbox := tables.outbox.filter fun row => !removed row.eventId
    cursors := tables.cursors.filter fun row => decide (row.botId ≠ botId) }

variable (digest : String → String → String)

def HookStatement.apply (tables : HookTables) : HookStatement → Except Error HookTables
  | .accept id => .ok (acceptAction tables (some id))
  | .fail id error retryAt => .ok (actionFailed tables id error retryAt)
  | .save botId routineId binding enabled afterSequence now =>
    saveBinding tables botId routineId binding enabled afterSequence now
  | .remove botId id => .ok (removeBinding tables botId id)
  | .unbindRoutine routineId => .ok { tables with
      bindings := tables.bindings.filter fun row => decide (row.routineId ≠ some routineId) }
  | .unbindSession sessionId => .ok { tables with
      bindings := tables.bindings.filter fun row => !selectsSession sessionId row.selector }
  | .cancel source => .ok (cancelSourcePending tables source)
  | .record event sequence => (recordEvent digest tables event sequence).map Prod.snd
  | .advance sessionId botId sequence =>
    (advanceCursorRow tables sessionId botId sequence).map Prod.snd
  | .forget sessionId => .ok { tables with
      cursors := tables.cursors.filter fun row => decide (row.sessionId ≠ sessionId) }
  | .deleteBot botId => .ok (removeBot tables botId)

def replay : HookTables → List HookStatement → Except Error HookTables
  | tables, [] => .ok tables
  | tables, statement :: rest => do
    let after ← statement.apply digest tables
    replay after rest

end Statements

section Runs

/-- One row of `routine_stop_requests`. -/
structure StopRequest where
  runId : String
  commandId : String
  cause : Option HookEvent

variable (host : Host)

def runData (run : RoutineRun) : HookData :=
  match run.status with
  | .running => .runStarted run.routineId run.id run.sessionId
  | .skipped => .runSkipped run.routineId run.id (run.message.getD "invocation was skipped")
  | status => .runFinished run.routineId run.id status run.sessionId run.message

def runCause (stops : List StopRequest) (commands : List CommandRow) (runId : String) :
    Option HookEvent :=
  ((stops.find? (·.runId = runId)).bind (·.cause)).or
    ((commands.find? (·.runId = runId)).bind (·.cause))

def recordRun (tables : HookTables) (stops : List StopRequest) (commands : List CommandRow)
    (run : RoutineRun) : Except Error HookTables := do
  let event ← causedEvent ("run-" ++ run.id ++ "-" ++ run.status.text) run.botId
    (.routine run.routineId) (runData run) (run.finishedAt.getD run.startedAt)
    (runCause stops commands run.id)
  let recorded ← recordEvent host.digest tables event none
  return recorded.2

def insertRunWithCause (database : BotDatabase) (stops : List StopRequest) (run : RoutineRun)
    (commandId : String) (cause : Option HookEvent) : Except Error BotDatabase := do
  rejectIf (database.runs.any fun other => decide (other.id = run.id)) .sqlite
  rejectIf (database.commands.any fun row => decide (row.commandId = commandId)) .sqlite
  let commands := database.commands ++ [⟨commandId, run.id, cause⟩]
  let accepted := acceptAction database.hooks (cause.map fun _ => commandId)
  let recorded ← recordRun host accepted stops commands run
  return { database with
    runs := database.runs ++ [run]
    commands := commands
    hooks := recorded }

def newRun (routine : StoredRoutine) (status : RoutineRunStatus) (message : Option String)
    (runId : Uuid host) (sessionId : SessionId) (now : Int) : RoutineRun where
  id := runId.1
  routineId := routine.id
  botId := routine.botId
  startedAt := now
  finishedAt := if status = .running then none else some now
  status := status
  sessionId := if status = .running then some sessionId else none
  message := message

/-- What `begin_run_with_cause` did. -/
inductive BeginRun where
  | started
  /-- The command already has a run. -/
  | alreadyRecorded
  | skipped
  deriving DecidableEq

def storedRoutine (state : BotState) (id : String) : Except Error StoredRoutine :=
  match state.routines.find? (·.id = id) with
  | some routine => .ok routine
  | none => .error (.config ("unknown routine `" ++ id ++ "`"))

def commandRun (database : BotDatabase) (commandId : String) :
    Except Error (Option RoutineRun) :=
  match database.commands.find? (·.commandId = commandId) with
  | none => .ok none
  | some row => match database.runs.find? (·.id = row.runId) with
    | some run => .ok (some run)
    | none => .error (.config "routine command receipt has no run")

/-- A run of a routine without a receipt. -/
def reserveRun (database : BotDatabase) (stops : List StopRequest) (routine : StoredRoutine)
    (commandId : String) (cause : Option HookEvent) (lockFree : Bool) (runId : Uuid host)
    (sessionId : SessionId) (now : Int) : Except Error (BeginRun × BotDatabase) := do
  rejectIf (!routine.enabled) (.config "routine is paused")
  if lockFree then do
    let database ← insertRunWithCause host database stops
      (newRun host routine .running none runId sessionId now) commandId cause
    return (.started, database)
  else do
    rejectIf (!database.runs.any fun run =>
        decide (run.routineId = routine.id) && decide (run.status = .running))
      (.config "routine is currently being modified")
    let database ← insertRunWithCause host database stops
      (newRun host routine .skipped (some "the previous invocation is still running") runId
        sessionId now) commandId cause
    return (.skipped, database)

/-- `begin_run_with_cause`. -/
def beginRun (database : BotDatabase) (stops : List StopRequest) (id commandId : String)
    (cause : Option HookEvent) (lockFree : Bool) (runId : Uuid host) (sessionId : SessionId)
    (now : Int) : Except Error (BeginRun × BotDatabase) := do
  let state ← freshState host database
  let routine ← storedRoutine state id
  rejectIfDeleting state
  match ← commandRun database commandId with
  | some run => do
    rejectIf (decide (run.routineId ≠ routine.id))
      (.config "routine command identity targets another routine")
    return (.alreadyRecorded, database)
  | none => reserveRun host database stops routine commandId cause lockFree runId sessionId now

def requestRunStop (database : BotDatabase) (stops : List StopRequest) (runId commandId : String)
    (cause : Option HookEvent) : Except Error (List StopRequest) :=
  match stops.find? (·.commandId = commandId) with
  | some previous => do
    rejectIf (decide (previous.runId ≠ runId)) (.config "stop command identity targets another run")
    return stops
  | none => match database.runs.find? (·.id = runId) with
    | none => .error (.config "unknown routine run")
    | some run => do
      rejectIf (decide (run.status ≠ .running))
        (.config "only an active invocation can be stopped")
      return if stops.any fun stop => decide (stop.runId = runId) then stops
        else stops ++ [⟨runId, commandId, cause⟩]

/-- `validate_run` of a finished run. -/
def validateRun (run : RoutineRun) : Check := do
  match host.parseUuid run.id with
  | .error _ => .error (.config "invalid persisted routine run ID")
  | .ok _ => .ok ()
  rejectIf (run.routineId.isEmpty || run.botId.isEmpty)
    (.config "persisted routine run has an empty owner ID")
  rejectIf (decide (run.status = .running) && run.finishedAt.isSome)
    (.config "running routine run has a finish time")
  rejectIf (decide (run.status = .running) && run.sessionId.isNone)
    (.config "running routine run has no session")
  rejectIf (decide (run.status ≠ .running) && run.finishedAt.isNone)
    (.config "completed routine run has no finish time")

def finishRunRow (database : BotDatabase) (stops : List StopRequest) (run : RoutineRun) :
    Except Error BotDatabase := do
  validateRun host run
  let recorded ← recordRun host database.hooks stops database.commands run
  return { database with
    runs := database.runs.map fun other => if other.id = run.id then run else other
    hooks := recorded }

/-- `finish_run`, and `recover_run`. -/
def finishRun (database : BotDatabase) (stops : List StopRequest) (id : String)
    (status : RoutineRunStatus) (finishedAt : Int) (message : Option String) :
    Except Error BotDatabase :=
  match database.runs.find? (·.id = id) with
  | none => .error (.config ("unknown routine run `" ++ id ++ "`"))
  | some run =>
    if status = .running then .error (.config "cannot finish a run with running status")
    else if run.status ≠ .running then
      if run.status = status ∧ run.message = message then .ok database
      else .error (.config "routine run already has a different terminal result")
    else finishRunRow host database stops
      { run with status := status, finishedAt := some finishedAt, message := message }

/-- The database without runs; their receipts go with them. -/
def removeRuns (database : BotDatabase) (removed : RoutineRun → Bool) : BotDatabase :=
  { database with
    runs := database.runs.filter fun run => !removed run
    commands := database.commands.filter fun row =>
      !(database.runs.any fun run => removed run && decide (run.id = row.runId)) }

def deleteRun (database : BotDatabase) (id : String) : Except Error BotDatabase := do
  let state ← freshState host database
  rejectIf state.pendingBotDeletion.isSome
    (.config "Bot deletion recovery must finish before changing Bot state")
  match database.runs.find? (·.id = id) with
  | none => .error (.config ("unknown routine run `" ++ id ++ "`"))
  | some run => do
    rejectIf (decide (run.status = .running))
      (.config ("routine run " ++ id ++ " is currently running"))
    return removeRuns database fun run => decide (run.id = id)

/-- The stop requests of the runs that are left. -/
def keptStops (database : BotDatabase) (stops : List StopRequest) : List StopRequest :=
  stops.filter fun stop => database.runs.any fun run => decide (run.id = stop.runId)

end Runs

section Sources

variable (host : Host)

def setSubscription (database : BotDatabase) (botId : String) (binding : HookBinding BotAction)
    (enabled : Bool) (afterSequence : Nat) (now : Int) : Except Error BotDatabase := do
  let state ← freshState host database
  rejectIf (!state.bots.any fun bot => decide (bot.id = botId))
    (.config ("unknown Bot `" ++ botId ++ "`"))
  let hooks ← saveBinding database.hooks botId none binding enabled afterSequence now
  return { database with hooks := hooks }

def recordHook (database : BotDatabase) (event : HookEvent) : Except Error BotDatabase := do
  let recorded ← recordEvent host.digest database.hooks event none
  return { database with hooks := recorded.2 }

/-- The event of a session is recorded unless its sequence was projected before. -/
def projectEvent (tables : HookTables) (sessionId : SessionId) (event : HookEvent)
    (sequence : Nat) : Except Error (Bool × HookTables) := do
  let advanced ← advanceCursorRow tables sessionId event.botId sequence
  if advanced.1 then recordEvent host.digest advanced.2 event (some sequence)
  else return (false, advanced.2)

def projectSession (tables : HookTables) (event : HookEvent) (sequence : Nat) :
    Except Error (Bool × HookTables) :=
  match event.source with
  | .session sessionId => projectEvent host tables sessionId event sequence
  | _ => .error (.config "session projection requires a session source")

def advanceSourceCursor (tables : HookTables) (sessionId : SessionId) (botId : String)
    (sequence : Nat) : Except Error HookTables := do
  let advanced ← advanceCursorRow tables sessionId botId sequence
  return advanced.2

def closedSession (event : HookEvent) : Except Error SessionId :=
  match event.source with
  | .session sessionId => match event.data with
    | .sessionDeleted _ => .ok sessionId
    | .sessionOwnerChanged .. => .ok sessionId
    | _ => .error (.config "closing a source requires deletion or owner change")
  | _ => .error (.config "closing a source requires a session event")

def closeSource (tables : HookTables) (event : HookEvent) : Except Error HookTables := do
  let sessionId ← closedSession event
  match tables.event? event.id with
  | some existing => do
    rejectIf (decide (existing ≠ event))
      (.config "closure event identity has conflicting content")
    return tables
  | none => do
    let recorded ← recordEvent host.digest (cancelSourcePending tables event.source) event none
    return { recorded.2 with
      bindings := recorded.2.bindings.filter fun row => !selectsSession sessionId row.selector
      cursors := recorded.2.cursors.filter fun row => decide (row.sessionId ≠ sessionId) }

/-- The loop of `close_session_sources`. -/
def closeSources (tables : HookTables) : List HookEvent → Except Error HookTables
  | [] => .ok tables
  | event :: rest => do
    let closed ← closeSource host tables event
    closeSources closed rest

/-- A routine without its bindings to closed sessions. -/
def unsubscribed (routine : StoredRoutine) (events : List HookEvent) :
    StoredRoutine :=
  { routine with
    bindings := routine.bindings.filter fun stored => !events.any fun event =>
      match event.source with
      | .session sessionId => selectsSession sessionId stored.definition.on
      | _ => false }

def closeSessionSources (database : BotDatabase) (events : List HookEvent) :
    Except Error BotDatabase := do
  let state ← freshState host database
  let closed := { state with
    routines := state.routines.map fun routine => unsubscribed routine events }
  validateState closed
  let row ← catalogJson host closed
  let hooks ← closeSources host database.hooks events
  return { database with catalog := some row, hooks := hooks }

/-- The handle of the built-in Bot. -/
def mobiusHandle : String := "mobius"

/-- Whether two collections have the same members. -/
def sameMembers (first second : List String) : Bool :=
  first.all second.contains && second.all first.contains

def checkBotDeletion (state : BotState) (botId : String) (expectedRevision : Nat)
    (routineIds instructions : List String) : Check := do
  rejectIf (state.pendingBotDeletion.any fun pending =>
      decide (pending.botId ≠ botId) || decide (pending.expectedRevision ≠ expectedRevision))
    (.config "a different Bot deletion is awaiting recovery")
  match state.bots.find? (·.id = botId) with
  | none => .error (.config ("unknown Bot `" ++ botId ++ "`"))
  | some bot => do
    rejectIf (bot.handle == mobiusHandle) (.config "the built-in @mobius Bot cannot be deleted")
    rejectIf (decide (bot.revision ≠ expectedRevision))
      (.config ("Bot configuration revision changed from " ++ toString expectedRevision ++
        " to " ++ toString bot.revision))
    let owned := state.routines.filter fun routine => decide (routine.botId = botId)
    rejectIf (!sameMembers (owned.map (·.id)) routineIds)
      (.config "Bot routine state changed during deletion")
    rejectIf (!sameMembers (owned.map (·.instructions)) instructions)
      (.config "Bot routine instructions changed during deletion")

def deleteBot (store : BotStore) (botId : String) (expectedRevision : Nat)
    (routineIds instructions : List String) : Except Error BotStore := do
  let state ← freshState host store.database
  checkBotDeletion state botId expectedRevision routineIds instructions
  let deleted := { state with
    bots := state.bots.eraseP fun bot => decide (bot.id = botId)
    routines := state.routines.filter fun routine => decide (routine.botId ≠ botId) }
  validateState deleted
  let row ← catalogJson host deleted
  let database := removeRuns store.database fun run => decide (run.botId = botId)
  return {
    database := { database with catalog := some row, hooks := removeBot database.hooks botId }
    files := instructions.foldl removeIfPresent store.files }

/-- A change of the Bots or of the pending deletion: `update_locked` and `save`. -/
def saveBots (database : BotDatabase) (bots : List StoredBot)
    (pending : Option PendingBotDeletion) : Except Error BotDatabase := do
  let state ← freshState host database
  let changed := { state with bots := bots, pendingBotDeletion := pending }
  validateState changed
  let row ← catalogJson host changed
  return { database with catalog := some row }

end Sources

section Dispatch

/-- A rejection, and whether its code lets a loop retry. -/
structure Rejection where
  message : String
  /-- Whether the action is retried. -/
  retry : Bool

/-- `invalid_routine`, which is not retried. -/
def invalidRoutine {α : Type} (result : Except Error α) : Except Rejection α :=
  result.mapError fun error => ⟨error.display, false⟩

/-- `internal`, which is retried. -/
def internal {α : Type} (result : Except Error α) : Except Rejection α :=
  result.mapError fun error => ⟨error.display, true⟩

/-- How the execution of an action ended. -/
inductive ActionResult where
  | accepted
  | rejected (rejection : Rejection)

/-- How far the execution of an action is. -/
inductive Stage where
  | fetched
  /-- Its message is on the way to a session. -/
  | delivering (sessionId : SessionId)
  | ended (result : ActionResult)

/-- A pending action in a dispatch loop. -/
structure Task where
  row : OutboxRow
  event : HookEvent
  stage : Stage

/-- What the actions of rows did. -/
inductive Effect where
  | message (sessionId : SessionId) (submissionId : String)
  /-- A command reserved a run, or changed or deleted a routine. -/
  | command (commandId : String)
  deriving DecidableEq

/-- The gateway: the Bot store, the sessions with the receipts of their messages, and the tasks
of all dispatch loops. -/
structure Gateway where
  store : BotStore := {}
  /-- `routine_stop_requests`. -/
  stops : List StopRequest := []
  /-- The sessions of the checkpoint store. -/
  sessions : List SessionId := []
  /-- Their `message_receipts`. -/
  receipts : List (SessionId × String) := []
  /-- The sessions that were deleted; an identifier is minted once. -/
  deleted : List SessionId := []
  tasks : List Task := []
  effects : List Effect := []

def Gateway.hooks (gateway : Gateway) : HookTables := gateway.store.database.hooks

/-- The gateway with another database; stop requests go with their runs. -/
def Gateway.withDatabase (gateway : Gateway) (database : BotDatabase) : Gateway :=
  { gateway with
    store := { gateway.store with database := database }
    stops := keptStops database gateway.stops }

def Gateway.withStore (gateway : Gateway) (store : BotStore) : Gateway :=
  { gateway with store := store, stops := keptStops store.database gateway.stops }

def Gateway.withHooks (gateway : Gateway) (hooks : HookTables) : Gateway :=
  gateway.withDatabase { gateway.store.database with hooks := hooks }

variable (host : Host)

/-- What the section of a routine command learns from outside. -/
structure Outside where
  /-- A rejection by the checks of the workspace or the sources of an update. -/
  rejection : Option Rejection
  workspace : CanonicalWorkspace
  lockFree : Bool
  fileId : Uuid host
  eventId : Uuid host
  runId : Uuid host
  sessionId : SessionId
  /-- Whether the session of a run to stop has a turn. -/
  turnActive : Bool
  now : Int

def routineOwner (database : BotDatabase) (id : String) : Except Error String := do
  let state ← freshState host database
  let index ← resolveRoutine state.routines id
  let routine ← routineAt state.routines index
  return routine.botId

def requireRoutineOwner (database : BotDatabase) (id : String) (owner : Option String) :
    Except Rejection Unit :=
  match owner with
  | none => .ok ()
  | some owner => do
    let botId ← invalidRoutine (routineOwner host database id)
    if botId = owner then return () else throw ⟨"the requested chat does not exist", false⟩

def commandPending (tables : HookTables) (cause : Option HookEvent) (commandId : String) : Bool :=
  cause.isNone || actionPending tables commandId

def stopRun (gateway : Gateway) (routineId runId commandId : String) (cause : Option HookEvent)
    (outside : Outside host) : Except Rejection Gateway :=
  match gateway.store.database.runs.find? (·.id = runId) with
  | none => .error ⟨(Error.config ("unknown routine run `" ++ runId ++ "`")).display, false⟩
  | some run =>
    if run.routineId ≠ routineId then .error ⟨"run does not belong to this routine", false⟩
    else if run.status ≠ .running then .ok gateway
    else if outside.turnActive then do
      let stops ← internal
        (requestRunStop gateway.store.database gateway.stops runId commandId cause)
      return { gateway with stops := stops }
    else .error ⟨"run admission has not started a turn yet; retry", true⟩

def startRun (gateway : Gateway) (routineId commandId : String) (cause : Option HookEvent)
    (outside : Outside host) : Except Rejection (BeginRun × Gateway) := do
  let begun ← invalidRoutine (beginRun host gateway.store.database gateway.stops routineId
    commandId cause outside.lockFree outside.runId outside.sessionId outside.now)
  return (begun.1, gateway.withDatabase begun.2)

/-- What a command did, for the loop that sent it. -/
inductive CommandResult where
  /-- Nothing was left to do. -/
  | unchanged
  | changed
  /-- A run was skipped as an earlier one goes on. -/
  | overlapped
  deriving DecidableEq

/-- What a start did. -/
def BeginRun.result : BeginRun → CommandResult
  | .started => .changed
  | .alreadyRecorded => .unchanged
  | .skipped => .overlapped

/-- The action of a routine command, with the row that it accepts. -/
def performRoutineAction (gateway : Gateway) (routineId : String) (cause : Option HookEvent)
    (commandId : String) (outside : Outside host) :
    RoutineAction → Except Rejection (CommandResult × Gateway)
  | .start => do
    let started ← startRun host gateway routineId commandId cause outside
    return (started.1.result, started.2)
  | .stop runId => do
    let stopped ← stopRun host gateway routineId runId commandId cause outside
    return (.unchanged, stopped)
  | .pause => do
    let store ← invalidRoutine (setRoutineEnabled host gateway.store routineId false cause
      (cause.map fun _ => commandId) outside.eventId outside.now)
    return (.changed, gateway.withStore store)
  | .resume => do
    let store ← invalidRoutine (setRoutineEnabled host gateway.store routineId true cause
      (cause.map fun _ => commandId) outside.eventId outside.now)
    return (.changed, gateway.withStore store)
  | .update workspace instructions bindings =>
    match outside.rejection with
    | some rejection => .error rejection
    | none => do
      let store ← invalidRoutine (updateRoutine host gateway.store routineId
        ⟨workspace, instructions, bindings⟩ outside.workspace cause
        (cause.map fun _ => commandId) outside.lockFree outside.fileId outside.eventId
        outside.now)
      return (.changed, gateway.withStore store)
  | .delete => do
    let store ← invalidRoutine (deleteRoutine host gateway.store routineId cause
      (cause.map fun _ => commandId) outside.lockFree outside.eventId outside.now)
    return (.changed, gateway.withStore store)

/-- The section of `execute_routine_command` under the state lock. -/
def executeRoutineCommand (gateway : Gateway) (command : RoutineCommand) (owner : Option String)
    (cause : Option HookEvent) (commandId : String) (outside : Outside host) :
    Except Rejection (CommandResult × Gateway) :=
  if commandPending gateway.hooks cause commandId then do
    requireRoutineOwner host gateway.store.database command.routineId owner
    performRoutineAction host gateway command.routineId cause commandId outside command.action
  else .ok (.unchanged, gateway)

def conversationSessionId (botId : String) : SessionId := "persistent-" ++ botId

/-- The session that receives the message of an action. -/
def messageTarget (row : OutboxRow) : Option SessionId :=
  match row.action with
  | .report _ => some (conversationSessionId row.botId)
  | .session sessionId (.message ..) => some sessionId
  | _ => none

/-- A task replaced by its next stage. -/
def Gateway.setStage (gateway : Gateway) (index : Nat) (task : Task) (stage : Stage) : Gateway :=
  { gateway with tasks := gateway.tasks.set index { task with stage := stage } }

/-- The effects after a routine command of a row. -/
def commandEffects (result : CommandResult) (commandId : String) : List Effect :=
  match result with
  | .unchanged => []
  | _ => [.command commandId]

def commandStage (result : CommandResult) (routineId : String) : Stage :=
  match result with
  | .overlapped => .ended (.rejected ⟨"routine " ++ routineId ++ " is already running", false⟩)
  | _ => .ended .accepted

/-- The section of `execute_hook_action` under the state lock, unless the checks before it
reject; an interrupt of a session has no effect on the tables. -/
def executeTask (gateway : Gateway) (index : Nat) (task : Task) (rejection : Option Rejection)
    (outside : Outside host) : Gateway :=
  match rejection, task.row.action with
  | some rejection, _ => gateway.setStage index task (.ended (.rejected rejection))
  | none, .routine command =>
    match executeRoutineCommand host gateway command (some task.row.botId) (some task.event)
        task.row.id outside with
    | .error rejection => gateway.setStage index task (.ended (.rejected rejection))
    | .ok (result, after) =>
      { after.setStage index task (commandStage result command.routineId) with
        effects := after.effects ++ commandEffects result task.row.id }
  | none, _ =>
    match messageTarget task.row with
    | none => gateway.setStage index task (.ended .accepted)
    | some sessionId =>
      if actionPending gateway.hooks task.row.id then
        gateway.setStage index task (.delivering sessionId)
      else gateway.setStage index task (.ended .accepted)

/-- A message reaches its session; the agent accepts an identity once. -/
def deliver (gateway : Gateway) (sessionId : SessionId) (submissionId : String) (admitted : Bool) :
    Gateway :=
  if admitted = true ∧ sessionId ∈ gateway.sessions ∧
      (sessionId, submissionId) ∉ gateway.receipts then
    { gateway with
      receipts := gateway.receipts ++ [(sessionId, submissionId)]
      effects := gateway.effects ++ [.message sessionId submissionId] }
  else gateway

/-- The end of a task in the dispatch loop. -/
def finishTask (gateway : Gateway) (index : Nat) (task : Task) (now : Int) : Gateway :=
  let rest := { gateway with tasks := gateway.tasks.eraseIdx index }
  match task.stage with
  | .ended .accepted => rest.withHooks (acceptAction rest.hooks (some task.row.id))
  | .ended (.rejected rejection) =>
    rest.withHooks (actionFailed rest.hooks task.row.id rejection.message
      (if rejection.retry then some (now + 15) else none))
  | _ => gateway

/-- The tasks of the pending rows, with their events. -/
def fetchTasks (tables : HookTables) (now : Int) : List Task :=
  (pendingActions tables now).filterMap fun row =>
    (tables.event? row.eventId).map fun event => ⟨row, event, .fetched⟩

inductive GatewayOp where
  | create (botId : String) (definition : RoutineDefinition) (workspace : CanonicalWorkspace)
      (cause : Option HookEvent) (routineId fileId eventId : Uuid host) (now : Int)
  | command (command : RoutineCommand) (commandId : String) (outside : Outside host)
  | poll (now : Int)
  | subscribe (botId : String) (binding : HookBinding BotAction) (enabled : Bool)
      (afterSequence : Nat) (now : Int)
  | emit (event : HookEvent)
  /-- A journal record of a session is projected. -/
  | project (event : HookEvent) (sequence : Nat)
  | advance (sessionId : SessionId) (botId : String) (sequence : Nat)
  | close (events : List HookEvent)
  | bots (bots : List StoredBot) (pending : Option PendingBotDeletion)
  | deleteBot (botId : String) (expectedRevision : Nat) (routineIds instructions : List String)
  | finishRun (id : String) (status : RoutineRunStatus) (finishedAt : Int)
      (message : Option String)
  | deleteRun (id : String)
  | openSession (sessionId : SessionId)
  | deleteSession (sessionId : SessionId)
  | message (sessionId : SessionId) (submissionId : String)
  /-- A dispatch loop reads its page. -/
  | fetch (now : Int)
  /-- A task finds its row settled. -/
  | check (index : Nat)
  | execute (index : Nat) (rejection : Option Rejection) (outside : Outside host)
  /-- The message of a task reaches its session. -/
  | deliver (index : Nat) (admitted : Bool) (result : ActionResult)
  | finish (index : Nat) (now : Int)
  | crash

def onTask (gateway : Gateway) (index : Nat) (change : Task → Gateway) : Gateway :=
  match gateway.tasks[index]? with
  | none => gateway
  | some task => change task

/-- The gateway after a transaction; one that fails changes nothing. -/
def committed {α ε : Type} (gateway : Gateway) (change : α → Gateway) : Except ε α → Gateway
  | .ok result => change result
  | .error _ => gateway

def GatewayOp.step (gateway : Gateway) : GatewayOp host → Gateway
  | .create botId definition workspace cause routineId fileId eventId now =>
    committed gateway gateway.withStore (createRoutine host gateway.store botId definition
      workspace cause routineId fileId eventId now)
  | .command sent commandId outside =>
    committed gateway Prod.snd
      (executeRoutineCommand host gateway sent none none commandId outside)
  | .poll now =>
    committed gateway (fun polled => gateway.withStore polled.2) (pollDue host gateway.store now)
  | .subscribe botId binding enabled afterSequence now =>
    committed gateway gateway.withDatabase
      (setSubscription host gateway.store.database botId binding enabled afterSequence now)
  | .emit event =>
    committed gateway gateway.withDatabase (recordHook host gateway.store.database event)
  | .project event sequence =>
    committed gateway (fun projected => gateway.withHooks projected.2)
      (projectSession host gateway.hooks event sequence)
  | .advance sessionId botId sequence =>
    committed gateway gateway.withHooks
      (advanceSourceCursor gateway.hooks sessionId botId sequence)
  | .close events =>
    committed gateway gateway.withDatabase
      (closeSessionSources host gateway.store.database events)
  | .bots changed pending =>
    committed gateway gateway.withDatabase (saveBots host gateway.store.database changed pending)
  | .deleteBot botId expectedRevision routineIds instructions =>
    committed gateway gateway.withStore (HookDispatch.deleteBot host gateway.store botId
      expectedRevision routineIds instructions)
  | .finishRun id status finishedAt text =>
    committed gateway gateway.withDatabase (HookDispatch.finishRun host gateway.store.database
      gateway.stops id status finishedAt text)
  | .deleteRun id =>
    committed gateway gateway.withDatabase
      (HookDispatch.deleteRun host gateway.store.database id)
  | .openSession sessionId =>
    if sessionId ∈ gateway.sessions ∨ sessionId ∈ gateway.deleted then gateway
    else { gateway with sessions := gateway.sessions ++ [sessionId] }
  | .deleteSession sessionId =>
    { gateway with
      sessions := gateway.sessions.filter fun other => decide (other ≠ sessionId)
      receipts := gateway.receipts.filter fun receipt => decide (receipt.1 ≠ sessionId)
      deleted := gateway.deleted ++ [sessionId] }
  | .message sessionId submissionId =>
    if sessionId ∈ gateway.sessions ∧ (sessionId, submissionId) ∉ gateway.receipts then
      { gateway with receipts := gateway.receipts ++ [(sessionId, submissionId)] }
    else gateway
  | .fetch now => { gateway with tasks := gateway.tasks ++ fetchTasks gateway.hooks now }
  | .check index => onTask gateway index fun task =>
    if actionPending gateway.hooks task.row.id then gateway
    else gateway.setStage index task (.ended .accepted)
  | .execute index rejection outside => onTask gateway index fun task =>
    match task.stage with
    | .fetched => executeTask host gateway index task rejection outside
    | _ => gateway
  | .deliver index admitted result => onTask gateway index fun task =>
    match task.stage with
    | .delivering sessionId =>
      (HookDispatch.deliver gateway sessionId task.row.id admitted).setStage index task
        (.ended result)
    | _ => gateway
  | .finish index now => onTask gateway index fun task => finishTask gateway index task now
  | .crash => { gateway with tasks := [] }

def runGateway (gateway : Gateway) (operations : List (GatewayOp host)) : Gateway :=
  operations.foldl (GatewayOp.step host) gateway

end Dispatch

end MobiusAgent.HookDispatch
