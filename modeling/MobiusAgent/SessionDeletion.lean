import Mathlib.Data.Prod.Lex
import Mathlib.Data.String.Basic
import MobiusAgent.BotCatalog
import MobiusAgent.EffectLogic
import MobiusAgent.KeysetPages
import MobiusAgent.ParentTrees
import MobiusAgent.StoreJournal

/-!
# The deletion of session trees

`host/deletion.rs` deletes a selection of sessions: it reads the catalog page
by page (`host/profile.rs`, `list_sessions_page` of the checkpoint store),
keeps the selected sessions that are below no selected one, expands them to
their trees and gives them to the store, which expands them again from its
tables. The session files, the running hosts and the Bots are asked and may
refuse. What is broadcast afterwards is left out.
-/

namespace MobiusAgent.SessionDeletion

open JsonValue ProtocolEvents CheckpointRecords CheckpointValidation StoreTables
open HookRecords RoutineCatalog EffectLogic
open StoreTransactions (SessionSummary summaryFromRow ContextCaches cachedContext removeCache)
open StoreConnections (World commit)

section Catalog

variable {Text : Type} (codecs : Codecs Text) (updatedAt : SessionId → Int)

/-- `SessionCursor`, in the order of the catalog. -/
abbrev Cursor : Type := Int ×ₗ Int ×ₗ String

/-- The columns a page is ordered by. -/
def rowKey (row : SessionRow Text) : Cursor :=
  toLex (updatedAt row.sessionId, toLex (row.latestSequence, row.sessionId))

def sessionCursor (summary : SessionSummary) : Cursor :=
  toLex (updatedAt summary.sessionId, toLex (summary.sequence, summary.sessionId))

structure SessionPage where
  sessions : List SessionSummary
  /-- Where the next page starts. -/
  nextCursor : Option Cursor

/-- `list_sessions_page` for all owners. -/
def listSessionsPage (tables : Tables Text) (cursor : Option Cursor) (limit : Nat) :
    Except Error SessionPage := do
  rejectIf (limit = 0) (.checkpoint "session page limit must be positive")
  rejectIf (i64Max < (limit + 1 : Nat)) (.checkpoint "session page limit is too large")
  let rows := (KeysetPages.below (rowKey updatedAt) tables.sessions cursor).take (limit + 1)
  let sessions ← rows.mapM (summaryFromRow codecs)
  let page := sessions.take limit
  return ⟨page, if limit < sessions.length then page.getLast?.map (sessionCursor updatedAt)
    else none⟩

def sessionPageSize : Nat := 100

/-- The loop of `gateway_session_summaries`. -/
def collectPages (tables : Tables Text) :
    Nat → Option Cursor → List SessionSummary → Except Error (List SessionSummary)
  | 0, _, sessions => .ok sessions
  | fuel + 1, cursor, sessions => do
    let page ← listSessionsPage codecs updatedAt tables cursor sessionPageSize
    match page.nextCursor with
    | none => return sessions ++ page.sessions
    | some next => collectPages tables fuel (some next) (sessions ++ page.sessions)

/-- `gateway_session_summaries`: there are no more pages than sessions and one. -/
def gatewaySessionSummaries (tables : Tables Text) : Except Error (List SessionSummary) :=
  collectPages codecs updatedAt tables (tables.sessions.length + 1) none []

end Catalog

section Selection

/-- The part of a summary that the trees are made of. -/
def listed (summary : SessionSummary) : BotCatalog.SessionSummary :=
  ⟨summary.sessionId, summary.parentSessionId, summary.sessionContext.ownerId⟩

/-- The map from the sessions to their parents. -/
def parentOf (summaries : List SessionSummary) (id : SessionId) : Option SessionId :=
  (summaries.reverse.find? (·.sessionId = id)).bind (·.parentSessionId)

def isSelectionRoot (summaries : List SessionSummary) (selected : List SessionId)
    (id : SessionId) : Bool :=
  !ParentTrees.reaches (parentOf summaries) selected (summaries.length + 1) []
    (parentOf summaries id)

def selectionRoots (summaries : List SessionSummary) (selected : List SessionId) :
    List SessionId := selected.filter (isSelectionRoot summaries selected)

def selectionTrees (summaries : List SessionSummary) (selected : List SessionId) :
    List SessionId :=
  BotCatalog.sessionTrees (selectionRoots summaries selected) (summaries.map listed)

end Selection

section Host

inductive SessionFileSelection where
  /-- The files of the whole session, which is deleted too. -/
  | all
  | origins (origins : List String)
  /-- Named files of one session. -/
  | ids (ids : List String)
  deriving DecidableEq

structure Rejection where
  code : String
  message : String
  /-- Whether the connection ends. -/
  fatal : Bool := false
  deriving DecidableEq

def internal (error : Error) : Rejection := ⟨"gateway_error", error.display, false⟩

def unknownSession : Rejection := ⟨"unknown_session", "the requested chat does not exist", false⟩

def sessionFileRejection : Error → Rejection
  | .storageFull => ⟨"storage_full", Error.display .storageFull, false⟩
  | .tool message => ⟨"session_file_rejected", message, false⟩
  | error => ⟨"session_file_rejected", error.display, false⟩

/-- The prefix of the permanent conversation of a Bot. -/
def conversationPrefix : String := "persistent-"

def isPersistent (sessionId ownerId : String) : Bool := sessionId == conversationPrefix ++ ownerId

def rejectPersistentSession (summary : SessionSummary) : Except Rejection Unit :=
  if isPersistent summary.sessionId summary.sessionContext.ownerId then
    .error ⟨"persistent_chat", "this conversation belongs permanently to its Bot", false⟩
  else .ok ()

/-- The records the gateway keeps in the checkpoint store. -/
structure GatewayCodecs (Text : Type) extends Codecs Text where
  /-- The pending closing facts. -/
  closures : Codec Text (List HookEvent)
  metadata : Codec Text (List (SessionId × Json))

/-- What a deletion learns from the rest of the gateway. -/
structure Surroundings where
  /-- The `updated_at` column. -/
  updatedAt : SessionId → Int
  /-- `has_pending_bot_deletion`. -/
  pendingBotDeletion : Except Error Bool
  starting : List SessionId
  /-- Whether a resident host is idle. -/
  cutoverStatus : SessionId → Except Rejection Bool
  /-- Whether a resident host stops. -/
  stopIfIdle : SessionId → Bool
  /-- `prepare_delete_sessions`. -/
  prepareFiles : List SessionId → SessionFileSelection → Except Error Unit
  deleteFiles : Except Error Unit
  /-- The staging of files whose sessions were deleted. -/
  stageFiles : Except Error Unit
  /-- The identities of new events. -/
  closureId : SessionId → String
  now : Int
  /-- The connection that each of the writing calls gets, in their order. -/
  connection : Nat → Nat

/-- The parts of the gateway that a deletion changes. -/
structure GatewayState (Text : Type) where
  world : World Text
  database : BotDatabase
  residents : List SessionId
  activities : List SessionId
  approvals : List SessionId

def gatewayScope : String := "gateway"

def sessionHookClosures : String := "session_hook_closures"

def sessionCatalogKey : String := "session_catalog"

def maxSessionDeleteRoots : Nat := 1024

variable {Text : Type}

/-- `load_state`, before it is decoded. -/
def loadState (tables : Tables Text) (scope key : String) : Option Text :=
  (tables.middlewareState.find? fun row => decide (row.1 = scope) && decide (row.2.1 = key)).map
    (·.2.2)

/-- The statement of `save_state`. -/
def writeState (tables : Tables Text) (scope key : String) (value : Text) : Tables Text :=
  { tables with middlewareState :=
      if (loadState tables scope key).isSome then
        tables.middlewareState.map fun row =>
          if row.1 = scope ∧ row.2.1 = key then (scope, key, value) else row
      else tables.middlewareState ++ [(scope, key, value)] }

/-- The hints of a connection; a new one has none. -/
def cachesOf (world : World Text) (index : Nat) : ContextCaches :=
  (world.connections[index]?.map (·.caches)).getD []

def saveState (world : World Text) (index : Nat) (key : String) (value : Text) : World Text :=
  commit world index (writeState world.tables gatewayScope key value) (cachesOf world index)

/-- `delete_sessions` of the store on a connection. -/
def deleteStored (world : World Text) (index : Nat) (roots : List SessionId) :
    Except Error (Bool × World Text) :=
  if roots.isEmpty then .ok (true, world)
  else match StoreTransactions.deleteSessions world.tables roots with
    | .error error => .error error
    | .ok none => .ok (false, world)
    | .ok (some (tree, tables)) =>
      .ok (true, commit world index tables (tree.foldl removeCache (cachesOf world index)))

end Host

section Deletion

variable {Text : Type} (codecs : GatewayCodecs Text) (host : Host) (around : Surroundings)

def sessionSummary (tables : Tables Text) (id : SessionId) : Except Error (Option SessionSummary) :=
  match tables.session? id with
  | none => .ok none
  | some row => (summaryFromRow codecs.toCodecs row).map some

/-- The closing facts whose sessions are gone. -/
def committedClosures (tables : Tables Text) : List HookEvent → Except Error (List HookEvent)
  | [] => .ok []
  | event :: rest =>
    match event.source with
    | .session id => do
      let summary ← sessionSummary codecs tables id
      let later ← committedClosures tables rest
      return if summary.isNone then event :: later else later
    | _ => .error (.config "invalid session closing fact")

def saveGatewayState (call : Nat) (key : String) (value : Text) :
    Proc (GatewayState Text) Rejection Unit :=
  Proc.modify fun state =>
    { state with world := saveState state.world (around.connection call) key value }

def recoverSessionHookClosures (call : Nat) : Proc (GatewayState Text) Rejection Unit := do
  let state ← Proc.get
  match loadState state.world.tables gatewayScope sessionHookClosures with
  | none => return ()
  | some value => do
    let pending ← Proc.ofExcept ((codecs.closures.decode value).mapError internal)
    let committed ← Proc.ofExcept
      ((committedClosures codecs state.world.tables pending).mapError internal)
    let database ← Proc.ofExcept
      ((HookDispatch.closeSessionSources host state.database committed).mapError internal)
    Proc.modify fun state => { state with database := database }
    saveGatewayState around call sessionHookClosures (codecs.closures.encode [])

/-- The closing fact of a session that is about to be deleted. -/
def closure (id : SessionId) (summary : SessionSummary) : HookEvent where
  id := "deleted-" ++ id ++ "-" ++ around.closureId id
  source := .session id
  causeId := none
  ancestry := []
  botId := summary.sessionContext.ownerId
  occurredAt := around.now
  data := .sessionDeleted id

/-- The closing facts of the sessions that exist. -/
def closures (tables : Tables Text) : List SessionId → Except Error (List HookEvent)
  | [] => .ok []
  | id :: rest => do
    let summary ← sessionSummary codecs tables id
    let later ← closures tables rest
    return (summary.map (closure around id)).toList ++ later

/-- The status of one resident host before its files are deleted. -/
def checkIdle (id : SessionId) : Except Rejection Unit :=
  match around.cutoverStatus id with
  | .ok true => .ok ()
  | .ok false =>
    .error ⟨"agent_busy", "finish or interrupt the active turn before deleting this chat", false⟩
  | .error rejection => if rejection.code = "gateway_stopped" then .ok () else .error rejection

/-- The stop of one resident host. -/
def stopIdle (id : SessionId) : Except Rejection Unit :=
  if around.stopIfIdle id then .ok ()
  else .error ⟨"agent_busy", "finish or interrupt the active turn before deleting this chat", false⟩

def prepareSessionTreeDeletion (sessionIds : List SessionId) (selection : SessionFileSelection) :
    Proc (GatewayState Text) Rejection Unit := do
  let files := (around.prepareFiles sessionIds selection).mapError sessionFileRejection
  match selection, sessionIds with
  | .ids _, _ => Proc.ofExcept files
  | _, [] => Proc.ofExcept files
  | _, _ => do
    if around.starting.any sessionIds.contains then
      Proc.fail ⟨"agent_busy", "wait for this chat to finish starting before deleting it", false⟩
    else do
      let state ← Proc.get
      let residents := sessionIds.filter state.residents.contains
      Proc.ofExcept (residents.forM (checkIdle around))
      Proc.ofExcept files
      if selection = .all then Proc.ofExcept (residents.forM (stopIdle around)) else return ()

/-- The metadata without some sessions, where it can be read. -/
def dropMetadata (sessionIds : List SessionId) : Proc (GatewayState Text) Rejection (List String) :=
  do
  let state ← Proc.get
  match loadState state.world.tables gatewayScope sessionCatalogKey with
  | none => do
    saveGatewayState around 4 sessionCatalogKey (codecs.metadata.encode [])
    return []
  | some value =>
    match codecs.metadata.decode value with
    | .error error => return [error.display]
    | .ok metadata => do
      saveGatewayState around 4 sessionCatalogKey
        (codecs.metadata.encode (metadata.filter fun entry => !sessionIds.contains entry.1))
      return []

/-- `remove_session_trees` with roots that must exist. -/
def removeSessionTrees (roots sessionIds : List SessionId) :
    Proc (GatewayState Text) Rejection (Option Rejection) := do
  if sessionIds.isEmpty then return none
  else do
    recoverSessionHookClosures codecs host around 0
    let state ← Proc.get
    let facts ← Proc.ofExcept ((closures codecs around state.world.tables sessionIds).mapError
      internal)
    saveGatewayState around 1 sessionHookClosures (codecs.closures.encode facts)
    let state ← Proc.get
    let (deleted, world) ← Proc.ofExcept
      ((deleteStored state.world (around.connection 2) roots).mapError internal)
    if deleted then do
      Proc.modify fun state => { state with world := world }
      recoverSessionHookClosures codecs host around 3
      Proc.modify fun state =>
        { state with residents := state.residents.filter fun id => !sessionIds.contains id }
      let metadata ← dropMetadata codecs around sessionIds
      Proc.modify fun state =>
        { state with
          activities := state.activities.filter fun id => !sessionIds.contains id
          approvals := state.approvals.filter fun id => !sessionIds.contains id }
      let errors := (match around.stageFiles with
        | .ok () => []
        | .error error => [error.display]) ++ metadata
      return if errors.isEmpty then none
        else some ⟨"gateway_error", "; ".intercalate errors, false⟩
    else Proc.fail unknownSession

/-- The checks of a selection that is to be deleted with its sessions. -/
def rejectPersistent (summaries : List SessionSummary) (selected : List SessionId) :
    Except Rejection Unit :=
  summaries.forM fun summary =>
    if selected.contains summary.sessionId then rejectPersistentSession summary else .ok ()

/-- `delete_sessions` of the host. -/
def deleteSessions (sessionIds : List SessionId) (selection : SessionFileSelection) :
    Proc (GatewayState Text) Rejection (List SessionId) := do
  if sessionIds = [] ∨ maxSessionDeleteRoots < sessionIds.length then
    Proc.fail ⟨"invalid_session_selection",
      "select between 1 and " ++ toString maxSessionDeleteRoots ++ " chats to delete", false⟩
  else do
    let selected := BotCatalog.distinctSessions sessionIds
    let pending ← Proc.ofExcept (around.pendingBotDeletion.mapError internal)
    if pending then
      Proc.fail ⟨"bot_deletion_recovery",
        "finish Bot deletion recovery before changing gateway state", false⟩
    else do
      let state ← Proc.get
      let summaries ← Proc.ofExcept ((gatewaySessionSummaries codecs.toCodecs around.updatedAt
        state.world.tables).mapError internal)
      if !selected.all (fun id => summaries.any fun summary =>
          summary.catalogVisible && summary.sessionId == id) then
        Proc.fail unknownSession
      else if selection ≠ .all then do
        prepareSessionTreeDeletion around selected selection
        Proc.ofExcept (around.deleteFiles.mapError sessionFileRejection)
        return selected
      else do
        Proc.ofExcept (rejectPersistent summaries selected)
        let roots := selectionRoots summaries selected
        let deleted := selectionTrees summaries selected
        prepareSessionTreeDeletion around deleted .all
        let _ ← removeSessionTrees codecs host around roots deleted
        return deleted

end Deletion

end MobiusAgent.SessionDeletion
