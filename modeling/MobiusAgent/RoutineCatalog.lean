import MobiusAgent.HookStore
import MobiusAgent.MessageQueue

/-!
# The catalog of routines and its operations

`bots.rs` keeps the Bots and their routines in one catalog row of the Bot
database, beside the hook tables and the runs. An operation reads the catalog
under the state lock, changes it and commits it with its events in one
transaction. A file of instructions belongs to every routine. What the
operations learn from outside is an argument: the clock, minted identifiers
and whether the lock of a routine is free.
-/

namespace MobiusAgent.RoutineCatalog

open JsonValue ProtocolEvents CheckpointRecords CheckpointValidation HookRecords
open RoutineSchedules HookStore MessageQueue

section Paths

inductive PathComponent where
  | rootDir
  | curDir
  | parentDir
  | normal (name : List Char)
  deriving DecidableEq

/-- The named components between separators. -/
def namedComponents (segments : List (List Char)) : List PathComponent :=
  (segments.filter fun segment => !segment.isEmpty && segment != ['.']).map fun segment =>
    if segment = ['.', '.'] then .parentDir else .normal segment

/-- `Path::components`; paths are equal if their components are. -/
def pathComponents (path : String) : List PathComponent :=
  match path.toList.splitOnP (· == '/') with
  | [] => []
  | first :: rest =>
    if path.toList.head? = some '/' then .rootDir :: namedComponents (first :: rest)
    else if first = ['.'] then .curDir :: namedComponents rest
    else namedComponents (first :: rest)

def isAbsolute (path : String) : Bool := path.toList.head? == some '/'

def parentIs (path directory : String) : Bool :=
  match (pathComponents path).getLast? with
  | none => false
  | some .rootDir => false
  | some _ => (pathComponents path).dropLast == pathComponents directory

/-- `==` of paths. -/
def samePath (first second : String) : Bool := pathComponents first == pathComponents second

mutual
/-- `==` of actions, whose workspaces are compared as paths. -/
def sameAction : RoutineAction → RoutineAction → Bool
  | .start, .start => true
  | .stop first, .stop second => first == second
  | .pause, .pause => true
  | .resume, .resume => true
  | .delete, .delete => true
  | .update workspace instructions bindings, .update workspace' instructions' bindings' =>
    samePath workspace workspace' && instructions == instructions' &&
      sameBindings bindings bindings'
  | _, _ => false

/-- `==` of the bindings of an update. -/
def sameBindings : List RoutineBinding → List RoutineBinding → Bool
  | [], [] => true
  | ⟨id, on, action⟩ :: rest, ⟨id', on', action'⟩ :: rest' =>
    id == id' && decide (on = on') && sameAction action action' &&
      sameBindings rest rest'
  | _, _ => false
end

/-- `==` of bindings. -/
def sameBinding (first second : RoutineBinding) : Bool :=
  first.id == second.id && decide (first.on = second.on) && sameAction first.action second.action

end Paths

section Records

structure StoredBot where
  id : String
  handle : String
  name : String
  description : String
  revision : Nat
  config : Json

structure StoredRoutine where
  id : String
  botId : String
  workspace : String
  instructions : String
  bindings : List (StoredRoutineBinding RoutineAction)
  enabled : Bool

/-- Durable forward-recovery record of a Bot deletion. -/
structure PendingBotDeletion where
  botId : String
  expectedRevision : Nat
  sessionRoots : List SessionId
  sessionIds : List SessionId
  instructionPaths : List String

def stateVersion : Nat := 10

structure BotState where
  version : Nat := stateVersion
  bots : List StoredBot := []
  routines : List StoredRoutine := []
  /-- A deletion that has not finished. -/
  pendingBotDeletion : Option PendingBotDeletion := none

/-- One durable invocation. -/
structure RoutineRun where
  id : String
  routineId : String
  botId : String
  startedAt : Int
  finishedAt : Option Int
  status : RoutineRunStatus
  sessionId : Option SessionId
  message : Option String

/-- One row of `routine_commands`. -/
structure CommandRow where
  commandId : String
  runId : String
  cause : Option HookEvent

structure BotDatabase where
  catalog : Option BotState := none
  hooks : HookTables := {}
  /-- `routine_runs`. -/
  runs : List RoutineRun := []
  /-- `routine_commands`. -/
  commands : List CommandRow := []

/-- The Bot store: its database and the files of instructions. -/
structure BotStore where
  database : BotDatabase := {}
  files : List (String × String) := []

/-- What the store uses from outside. -/
structure Host where
  library : CronLibrary
  /-- The hexadecimal SHA-256 of two parts. -/
  digest : String → String → String
  /-- `Uuid::parse_str`, with the text of the result. -/
  parseUuid : String → Except String String
  validateStored : Json → Check
  /-- The private directory of routines. -/
  routinesDir : String
  /-- The bytes of the encoded catalog besides the values of its timers. -/
  frameBytes : BotState → Nat

/-- A minted identifier. -/
def Uuid (host : Host) : Type := { text : String // host.parseUuid text = .ok text }

end Records

section Encoding

/-- The encoded bytes of an optional number. -/
def optionalLength (value : Option Int) : Nat := (value.map integerLength).getD 4

/-- The encoded bytes of the values of a timer. -/
def timerBytes (binding : StoredRoutineBinding RoutineAction) : Nat :=
  optionalLength binding.nextDueAt + optionalLength binding.lastMatchedMinute

/-- A routine whose timers are not set. -/
def StoredRoutine.untimed (routine : StoredRoutine) : StoredRoutine :=
  { routine with bindings := routine.bindings.map fun binding => ⟨binding.definition, none, none⟩ }

/-- The catalog without its timers. -/
def BotState.untimed (state : BotState) : BotState :=
  { state with routines := state.routines.map StoredRoutine.untimed }

/-- All timers of the catalog. -/
def BotState.timers (state : BotState) : List (StoredRoutineBinding RoutineAction) :=
  state.routines.flatMap StoredRoutine.bindings

def catalogBytes (host : Host) (state : BotState) : Nat :=
  host.frameBytes state.untimed + (state.timers.map timerBytes).sum

/-- The byte limit of the catalog. -/
def maxStateBytes : Nat := 1024 * 1024

/-- `catalog_json`: the row keeps the record itself. -/
def catalogJson (host : Host) (state : BotState) : Except Error BotState := do
  rejectIf (maxStateBytes < catalogBytes host state) (.config "Bot state is too large")
  return state

end Encoding

section Validation

/-- The text before the instructions of a routine. -/
def routineSubmissionPrefix : String :=
  "# Routine\n\nThe instructions below relate to a routine task."

def maxRoutineInstructionsBytes : Nat := maxMessageBytes - routineSubmissionPrefix.utf8ByteSize - 2

def validateStoredWorkspace (workspace : String) : Check :=
  rejectIf (!isAbsolute workspace || (pathComponents workspace).any fun component =>
      decide (component = .curDir) || decide (component = .parentDir))
    (.config "persisted routine workspace must be an absolute normalized path")

def validateInstructions (instructions : String) : Check := do
  rejectIf (trim instructions).isEmpty (.config "routine instructions cannot be empty")
  rejectIf (maxRoutineInstructionsBytes < (trim instructions).utf8ByteSize)
    (.config ("routine instructions exceed the " ++ toString maxRoutineInstructionsBytes ++
      "-byte input limit"))

variable (library : CronLibrary) (limit : Option Int)

def validateTrigger (on : HookSelector) : Check := do
  validateSelector on
  match on with
  | .schedule schedule endsAt => validateSchedule library schedule endsAt limit
  | .event .. => .ok ()

/-- The check of the identity of a binding after others. -/
def validateBindingId (id : String) (ids : List String) : Check :=
  rejectIf (id.isEmpty || decide (128 < id.utf8ByteSize) || id.toList.any isControl ||
      ids.contains id)
    (.config "routine binding identities must be distinct and contain 1 to 128 safe bytes")

def validateBindingBounds (count depth : Nat) : Check :=
  rejectIf (decide (4 < depth) || decide (maxRoutineBindings < count))
    (.config "routine bindings exceed their count or nesting bound")

mutual
/-- `validate_routine_action`; an update is checked as a definition one level deeper. -/
def validateRoutineAction : RoutineAction → Nat → Check
  | .update workspace instructions bindings, depth => do
    validateStoredWorkspace workspace
    validateInstructions instructions
    validateBindingBounds bindings.length (depth + 1)
    validateBindingList bindings (depth + 1) []
  | .stop runId, _ =>
    rejectIf (isBlank runId || decide (256 < runId.utf8ByteSize) || runId.toList.any isControl)
      (.config "stop action requires a safe invocation identity")
  | .start, _ => .ok ()
  | .pause, _ => .ok ()
  | .resume, _ => .ok ()
  | .delete, _ => .ok ()

/-- The loop of `validate_bindings`. -/
def validateBindingList : List RoutineBinding → Nat → List String → Check
  | [], _, _ => .ok ()
  | ⟨id, on, action⟩ :: rest, depth, ids => do
    validateBindingId id ids
    validateTrigger library limit on
    validateRoutineAction action depth
    validateBindingList rest depth (id :: ids)
end

def validateBindings (bindings : List RoutineBinding) (depth : Nat) : Check := do
  validateBindingBounds bindings.length depth
  validateBindingList library limit bindings depth []

def validateDefinition (definition : RoutineDefinition) (depth : Nat) : Check := do
  validateStoredWorkspace definition.workspace
  validateInstructions definition.instructions
  validateBindings library limit definition.bindings depth

/-- A workspace that canonicalization found. -/
def CanonicalWorkspace : Type := { path : String // validateStoredWorkspace path = .ok () }

end Validation

section Catalog

variable (host : Host)

/-- The check of an identifier read from disk. -/
def validateUuid (id invalid : String) : Check :=
  match host.parseUuid id with
  | .error error => .error (.config (invalid ++ ": " ++ error))
  | .ok text => rejectIf (text != id) (.config invalid)

def validateHandle (handle : String) : Except Error String := do
  let handle := trim handle
  rejectIf (handle.isEmpty || decide (64 < handle.utf8ByteSize) ||
      !handle.toList.all fun c => c.isLower || c.isDigit || c == '_' || c == '-')
    (.config ("Bot handle must be 1–64 lowercase ASCII letters, digits, dashes, or underscores"))
  rejectIf (handle == "user") (.config "Bot handle `user` is reserved")
  return handle

/-- `validate_name` and `validate_description`. -/
def validateText (what : String) (limit : Nat) (value : String) : Except Error String := do
  let value := trim value
  rejectIf (value.isEmpty || decide (limit < value.utf8ByteSize))
    (.config ("Bot " ++ what ++ " must be 1–" ++ toString limit ++ " bytes"))
  return value

def validateName (name : String) : Except Error String := validateText "name" 128 name

def validateDescription (description : String) : Except Error String :=
  validateText "description" 2048 description

/-- The check of one Bot read from disk. -/
def validateBotRecord (bot : StoredBot) : Check := do
  validateUuid host bot.id "invalid persisted Bot ID"
  let changed : Error := .config "persisted Bot identity is not normalized"
  let handle ← validateHandle bot.handle
  rejectIf (handle != bot.handle) changed
  let name ← validateName bot.name
  rejectIf (name != bot.name) changed
  let description ← validateDescription bot.description
  rejectIf (description != bot.description) changed
  rejectIf (bot.revision == 0) (.config "persisted Bot revision must be positive")

/-- The check of one routine read from disk. -/
def validateRoutineRecord (routine : StoredRoutine) : Check := do
  validateUuid host routine.id "invalid persisted routine ID"
  validateStoredWorkspace routine.workspace
  rejectIf (!isAbsolute routine.instructions || !parentIs routine.instructions host.routinesDir)
    (.config "persisted routine path is outside the private gateway routine directory")
  validateBindings host.library none (routine.bindings.map (·.definition)) 0
  rejectIf (routine.bindings.any fun binding => binding.nextDueAt.any fun next => decide (next ≤ 0))
    (.config "invalid persisted routine next run")

def validatePendingId (pending : PendingBotDeletion) : Check :=
  match host.parseUuid pending.botId with
  | .error error => .error (.config ("invalid pending Bot deletion ID: " ++ error))
  | .ok text =>
    rejectIf (text != pending.botId || pending.expectedRevision == 0)
      (.config "invalid pending Bot deletion")

/-- The check of a deletion read from disk. -/
def validatePendingDeletion (pending : PendingBotDeletion) : Check := do
  validatePendingId host pending
  rejectIf (pending.sessionRoots.any fun root => !pending.sessionIds.contains root)
    (.config "pending Bot deletion root is outside its session set")
  rejectIf (pending.instructionPaths.any fun path =>
      !isAbsolute path || !parentIs path host.routinesDir)
    (.config "pending Bot deletion instructions are outside the private routine directory")

/-- The loop of `validate_state` over the Bots. -/
def validateBotSet : List StoredBot → List String → List String → Check
  | [], _, _ => .ok ()
  | bot :: rest, ids, handles => do
    rejectIf (ids.contains bot.id) (.config "duplicate persisted Bot ID")
    rejectIf (handles.contains bot.handle) (.config "duplicate persisted Bot handle")
    validateBotSet rest (bot.id :: ids) (bot.handle :: handles)

/-- The loop of `validate_state` over the routines. -/
def validateRoutineSet (botIds : List String) :
    List StoredRoutine → List String → List (List PathComponent) → Check
  | [], _, _ => .ok ()
  | routine :: rest, ids, paths => do
    rejectIf (ids.contains routine.id) (.config "duplicate persisted routine ID")
    rejectIf (!botIds.contains routine.botId) (.config "persisted routine has no Bot")
    rejectIf (paths.contains (pathComponents routine.instructions))
      (.config "persisted routine path is outside the private gateway routine directory")
    validateRoutineSet botIds rest (routine.id :: ids)
      (pathComponents routine.instructions :: paths)

def validateState (state : BotState) : Check := do
  validateBotSet state.bots [] []
  validateRoutineSet (state.bots.map (·.id)) state.routines [] []
  rejectIf (state.pendingBotDeletion.any fun pending =>
      (state.bots.find? (·.id = pending.botId)).any fun bot =>
        decide (bot.revision ≠ pending.expectedRevision))
    (.config "pending Bot deletion revision changed")

def validateRecords (state : BotState) : Check := do
  rejectIf (state.version != stateVersion)
    (.config ("unsupported Bot state version " ++ toString state.version))
  state.bots.forM (validateBotRecord host)
  state.routines.forM (validateRoutineRecord host)
  state.pendingBotDeletion.toList.forM (validatePendingDeletion host)
  validateState state

/-- `fresh_state`, and `current_state`, whose cache holds the last catalog it read. The
configurations of Bots are checked as they are parsed. -/
def freshState (database : BotDatabase) : Except Error BotState :=
  match database.catalog with
  | none => .ok {}
  | some state => do
    rejectIf (maxStateBytes < catalogBytes host state) (.config "Bot state is too large")
    state.bots.forM fun bot => host.validateStored bot.config
    validateRecords host state
    return state

/-- `reject_bot_mutation_if_deleting`. -/
def rejectIfDeleting (state : BotState) : Check :=
  rejectIf state.pendingBotDeletion.isSome
    (.config "Bot deletion recovery must finish before changing Bot work")

/-- `resolve_routine`: an identifier, or the only one with a prefix. -/
def resolveRoutine (routines : List StoredRoutine) (id : String) : Except Error Nat := do
  rejectIf (id.isEmpty || id.toList.any isWhitespace) (.config "routine ID cannot be empty")
  match routines.findIdx? (·.id = id) with
  | some index => return index
  | none =>
    match routines.zipIdx.filter fun entry => id.toList.isPrefixOf entry.1.id.toList with
    | [] => .error (.config ("unknown routine `" ++ id ++ "`"))
    | [entry] => return entry.2
    | _ => .error (.config ("routine ID prefix `" ++ id ++ "` is ambiguous"))

def routineAt (routines : List StoredRoutine) (index : Nat) : Except Error StoredRoutine :=
  match routines[index]? with
  | some routine => .ok routine
  | none => .error (.config "resolved routine is missing from the catalog")

def routineEvent (eventId : String) (routine : StoredRoutine) (data : String → HookData)
    (now : Int) (cause : Option HookEvent) : Except Error HookEvent :=
  causedEvent eventId routine.botId (.routine routine.id) (data routine.id) now cause

end Catalog

section Commit

/-- Whether a routine of the catalog holds a row of `hook_bindings`. -/
def holdsBinding (routines : List StoredRoutine) (row : BindingRow) : Bool :=
  routines.any fun routine => decide (row.routineId = some routine.id) &&
    decide (routine.botId = row.botId) &&
    routine.bindings.any fun binding => decide (binding.definition.id = row.id)

/-- Remove a binding and its pending rows. -/
def removeBinding (tables : HookTables) (botId id : String) : HookTables :=
  let tables := dropPending tables botId id
  { tables with bindings := tables.bindings.filter fun row =>
      !(decide (row.botId = botId) && decide (row.id = id)) }

/-- The first loop of `sync_routine_bindings`: rows that no routine holds are removed. -/
def removeClosed (routines : List StoredRoutine) : List BindingRow → HookTables → HookTables
  | [], tables => tables
  | row :: rest, tables =>
    if row.routineId.isSome && !holdsBinding routines row then
      removeClosed routines rest (removeBinding tables row.botId row.id)
    else removeClosed routines rest tables

/-- The journal sequence from which a binding consumes. -/
def startSequence (tables : HookTables) : HookSelector → Except Error Nat
  | .event (.session sessionId) _ _ _ _ => cursorOf tables sessionId
  | _ => .ok 0

def hookBinding (routineId : String) (binding : RoutineBinding) : HookBinding BotAction :=
  ⟨binding.id, binding.on, .routine ⟨routineId, binding.action⟩⟩

def saveRoutineBindings (routine : StoredRoutine) (now : Int) :
    List (StoredRoutineBinding RoutineAction) → HookTables → Except Error HookTables
  | [], tables => .ok tables
  | stored :: rest, tables => do
    let after ← startSequence tables stored.definition.on
    let saved ← saveBinding tables routine.botId (some routine.id)
      (hookBinding routine.id stored.definition) true after now
    saveRoutineBindings routine now rest saved

/-- The second loop of `sync_routine_bindings`. -/
def saveRoutines (now : Int) : List StoredRoutine → HookTables → Except Error HookTables
  | [], tables => .ok tables
  | routine :: rest, tables => do
    let saved ← saveRoutineBindings routine now routine.bindings tables
    saveRoutines now rest saved

def syncRoutineBindings (tables : HookTables) (routines : List StoredRoutine) (now : Int) :
    Except Error HookTables :=
  saveRoutines now routines (removeClosed routines tables.bindings tables)

variable (host : Host)

/-- Events are recorded one after another. -/
def recordEvents : List HookEvent → HookTables → Except Error HookTables
  | [], tables => .ok tables
  | event :: rest, tables => do
    let recorded ← recordEvent host.digest tables event none
    recordEvents rest recorded.2

/-- `save_catalog_with_hooks`, without subscriptions. -/
def saveCatalogWithHooks (database : BotDatabase) (state : BotState) (events : List HookEvent)
    (now : Int) (acceptedActionId : Option String) : Except Error BotDatabase := do
  let tables := acceptAction database.hooks acceptedActionId
  let synced ← syncRoutineBindings tables state.routines now
  let recorded ← recordEvents host events synced
  return { database with catalog := some state, hooks := recorded }

/-- Remove the pending rows of the events of a source. -/
def cancelSourcePending (tables : HookTables) (source : HookSource) : HookTables :=
  { tables with
    outbox := tables.outbox.filter fun row =>
      row.accepted || !(tables.events.any fun event =>
        decide (event.id = row.eventId) && decide (event.source = source)) }

/-- `delete_runs_and_save_catalog` for a routine. -/
def deleteRunsAndSaveCatalog (database : BotDatabase) (state : BotState) (routineId : String)
    (event : HookEvent) (acceptedActionId : Option String) : Except Error BotDatabase := do
  let tables := acceptAction database.hooks acceptedActionId
  let bindings := tables.bindings.filter fun row => decide (row.routineId ≠ some routineId)
  let unbound := { tables with bindings := bindings }
  let recorded ← recordEvent host.digest (cancelSourcePending unbound (.routine routineId))
    event none
  let removed := database.runs.filter fun run => decide (run.routineId = routineId)
  return { database with
    catalog := some state
    hooks := recorded.2
    runs := database.runs.filter fun run => decide (run.routineId ≠ routineId)
    commands := database.commands.filter fun row =>
      !(removed.any fun run => run.id == row.runId) }

end Commit

section Files

variable (host : Host)

def newInstructionPath (fileId : String) : String := host.routinesDir ++ "/" ++ fileId ++ ".md"

/-- `publish` of a new file. -/
def publishNew (files : List (String × String)) (path contents : String) :
    Except Error (List (String × String)) := do
  rejectIf (files.any fun file => samePath file.1 path) (.io "File exists (os error 17)")
  return files ++ [(path, contents)]

def removeIfPresent (files : List (String × String)) (path : String) : List (String × String) :=
  files.filter fun file => !samePath file.1 path

/-- `read_routine_instructions`; no file of the private directory is a link. -/
def readRoutineInstructions (files : List (String × String)) (routine : StoredRoutine) :
    Except Error String :=
  match files.find? fun file => samePath file.1 routine.instructions with
  | none => .error (.io "No such file or directory (os error 2)")
  | some (path, input) => do
    rejectIf (!parentIs path host.routinesDir)
      (.config "routine instructions must remain inside the private gateway routine directory")
    validateInstructions input
    return input

end Files

section Operations

variable (host : Host)

def createRoutine (store : BotStore) (botId : String) (definition : RoutineDefinition)
    (workspace : CanonicalWorkspace) (cause : Option HookEvent)
    (routineId fileId eventId : Uuid host) (now : Int) : Except Error BotStore := do
  validateDefinition host.library (some maxScheduleTimestamp) definition 0
  let path := newInstructionPath host fileId.1
  let files ← publishNew store.files path (trim definition.instructions)
  let state ← freshState host store.database
  rejectIfDeleting state
  rejectIf (!state.bots.any fun bot => decide (bot.id = botId))
    (.config ("unknown Bot `" ++ botId ++ "`"))
  let bindings ← definition.bindings.mapM fun binding =>
    StoredRoutineBinding.new host.library binding now false
  let routine : StoredRoutine := ⟨routineId.1, botId, workspace.1, path, bindings, true⟩
  let created := { state with routines := state.routines ++ [routine] }
  validateState created
  let event ← routineEvent eventId.1 routine .routineCreated now cause
  let row ← catalogJson host created
  let database ← saveCatalogWithHooks host store.database row [event] now none
  return ⟨database, files⟩

def swapRemove {α : Type} (items : List α) (index : Nat) : List α :=
  match items.getLast? with
  | none => []
  | some last => (items.set index last).dropLast

/-- A binding whose definition is unchanged keeps its timer, another is armed. -/
def rebuildBindings (now : Int) :
    List RoutineBinding → List (StoredRoutineBinding RoutineAction) →
      Except Error (List (StoredRoutineBinding RoutineAction))
  | [], _ => .ok []
  | binding :: rest, previous =>
    let unchanged := fun prior : StoredRoutineBinding RoutineAction =>
      sameBinding prior.definition binding
    match previous.find? unchanged with
    | some kept => do
      let others ← rebuildBindings now rest (swapRemove previous (previous.findIdx unchanged))
      return kept :: others
    | none => do
      let armed ← StoredRoutineBinding.new host.library binding now false
      let others ← rebuildBindings now rest previous
      return armed :: others

/-- An accepted action of a command that changes nothing. -/
def acceptUnchanged (store : BotStore) (acceptedActionId : Option String) : BotStore :=
  { store with database := { store.database with
      hooks := acceptAction store.database.hooks acceptedActionId } }

/-- Whether an update changes nothing. -/
def isUnchanged (routine : StoredRoutine) (definition : RoutineDefinition)
    (workspace : CanonicalWorkspace) (files : List (String × String)) : Except Error Bool := do
  if samePath routine.workspace workspace.1 then
    let instructions ← readRoutineInstructions host files routine
    return instructions == trim definition.instructions &&
      sameBindings (routine.bindings.map (·.definition)) definition.bindings
  else return false

def updateRoutine (store : BotStore) (id : String) (definition : RoutineDefinition)
    (workspace : CanonicalWorkspace) (cause : Option HookEvent) (acceptedActionId : Option String)
    (lockFree : Bool) (fileId eventId : Uuid host) (now : Int) : Except Error BotStore := do
  validateDefinition host.library (some maxScheduleTimestamp) definition 0
  let state ← freshState host store.database
  rejectIfDeleting state
  let index ← resolveRoutine state.routines id
  let existing ← routineAt state.routines index
  let unchanged ← isUnchanged host existing definition workspace store.files
  if unchanged then return acceptUnchanged store acceptedActionId
  else do
    rejectIf (!lockFree) (.config ("routine " ++ existing.id ++ " is currently running"))
    let path := newInstructionPath host fileId.1
    let files ← publishNew store.files path (trim definition.instructions)
    let bindings ← rebuildBindings host now definition.bindings existing.bindings
    let routine := { existing with bindings := bindings, workspace := workspace.1,
                                   instructions := path }
    let updated := { state with routines := state.routines.set index routine }
    validateState updated
    let event ← routineEvent eventId.1 routine .routineUpdated now cause
    let row ← catalogJson host updated
    let database ← saveCatalogWithHooks host store.database row [event] now acceptedActionId
    return ⟨database, removeIfPresent files existing.instructions⟩

def resetTimers (enabled : Bool) (bindings : List (StoredRoutineBinding RoutineAction))
    (now : Int) : Except Error (List (StoredRoutineBinding RoutineAction)) :=
  if enabled then bindings.mapM fun binding => binding.reset host.library now true
  else .ok bindings

def setRoutineEnabled (store : BotStore) (id : String) (enabled : Bool)
    (cause : Option HookEvent) (acceptedActionId : Option String) (eventId : Uuid host)
    (now : Int) : Except Error BotStore := do
  let state ← freshState host store.database
  rejectIfDeleting state
  let index ← resolveRoutine state.routines id
  let existing ← routineAt state.routines index
  if existing.enabled = enabled then return acceptUnchanged store acceptedActionId
  else do
    let bindings ← resetTimers host enabled existing.bindings now
    let routine := { existing with enabled := enabled, bindings := bindings }
    let updated := { state with routines := state.routines.set index routine }
    validateState updated
    let event ← routineEvent eventId.1 routine
      (if enabled then .routineResumed else .routinePaused) now cause
    let row ← catalogJson host updated
    let database ← saveCatalogWithHooks host store.database row [event] now acceptedActionId
    return { store with database := database }

/-- `BotStore::prepare_routine_deletion` and `BotStore::delete_routine` under one state lock. -/
def deleteRoutine (store : BotStore) (id : String) (cause : Option HookEvent)
    (acceptedActionId : Option String) (lockFree : Bool) (eventId : Uuid host) (now : Int) :
    Except Error BotStore := do
  let state ← freshState host store.database
  let index ← resolveRoutine state.routines id
  let routine ← routineAt state.routines index
  rejectIf (!lockFree) (.config ("routine " ++ routine.id ++ " is currently running"))
  discard (readRoutineInstructions host store.files routine)
  let deleted := { state with routines := state.routines.eraseIdx index }
  validateState deleted
  let row ← catalogJson host deleted
  let event ← routineEvent eventId.1 routine .routineDeleted now cause
  let database ← deleteRunsAndSaveCatalog host store.database row routine.id event
    acceptedActionId
  return ⟨database, removeIfPresent store.files routine.instructions⟩

end Operations

section Polling

variable (host : Host)

def StoredRoutine.nextRunAt (routine : StoredRoutine) (now : Int) : Option Int :=
  if routine.enabled then (routine.bindings.filterMap (·.nextAt host.library now)).min?
  else none

/-- `DateTime::from_timestamp`. -/
def clockTime (timestamp : Int) : Except Error Int :=
  if InClock timestamp then .ok timestamp
  else .error (.config "routine timestamp is invalid")

def nextRoutineAt (store : BotStore) (now : Int) : Except Error (Option Int) := do
  let state ← freshState host store.database
  match (state.routines.filterMap (·.nextRunAt host now)).min? with
  | none => return none
  | some timestamp => do
    let time ← clockTime timestamp
    return some time

def occurrenceId (routineId bindingId : String) (time : Int) : String :=
  stableId host.digest "schedule" (routineId ++ ":" ++ bindingId) (toString time)

def occurrenceEvent (routine : StoredRoutine) (bindingId : String) (time now : Int) : HookEvent :=
  ⟨occurrenceId host routine.id bindingId time, .schedule routine.id bindingId, none, [],
    routine.botId, now, .scheduleDue bindingId⟩

/-- What the scheduler found in one pass. -/
structure Tick (Item : Type) where
  items : List Item
  changed : Bool
  events : List HookEvent

/-- The loop of `poll_due` over the bindings of a routine. -/
def pollBindings (routine : StoredRoutine) (now : Int) :
    List (StoredRoutineBinding RoutineAction) →
      Except Error (Tick (StoredRoutineBinding RoutineAction))
  | [] => .ok ⟨[], false, []⟩
  | binding :: rest => do
    let polled ← binding.poll host.library now
    let tick ← pollBindings routine now rest
    return ⟨polled.1 :: tick.items, polled.2.1 || tick.changed,
      (polled.2.2.map fun time =>
        occurrenceEvent host routine binding.definition.id time now).toList ++ tick.events⟩

/-- The loop of `poll_due` over the routines. -/
def pollRoutines (now : Int) : List StoredRoutine → Except Error (Tick StoredRoutine)
  | [] => .ok ⟨[], false, []⟩
  | routine :: rest =>
    if routine.enabled then do
      let own ← pollBindings host routine now routine.bindings
      let tick ← pollRoutines now rest
      return ⟨{ routine with bindings := own.items } :: tick.items, own.changed || tick.changed,
        own.events ++ tick.events⟩
    else do
      let tick ← pollRoutines now rest
      return ⟨routine :: tick.items, tick.changed, tick.events⟩

/-- One scheduler tick derived from a single locked catalog snapshot. -/
structure RoutinePoll where
  /-- Whether a routine is scheduled or runs. -/
  active : Bool
  events : List HookEvent

/-- Whether a routine is scheduled or runs. -/
def isActive (database : BotDatabase) (state : BotState) (now : Int) : Bool :=
  (state.routines.any fun routine => routine.enabled && (routine.nextRunAt host now).isSome) ||
    database.runs.any fun run => decide (run.status = .running)

def pollDue (store : BotStore) (now : Int) : Except Error (RoutinePoll × BotStore) := do
  let state ← freshState host store.database
  let active := isActive host store.database state now
  if state.pendingBotDeletion.isSome then return (⟨active, []⟩, store)
  else do
    let tick ← pollRoutines host now state.routines
    if tick.changed then do
      let polled := { state with routines := tick.items }
      validateState polled
      let row ← catalogJson host polled
      let database ← saveCatalogWithHooks host store.database row tick.events now none
      return (⟨active, tick.events⟩, { store with database := database })
    else return (⟨active, tick.events⟩, store)

end Polling

end MobiusAgent.RoutineCatalog
