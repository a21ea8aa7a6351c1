import MobiusAgent.HookDispatch
import MobiusAgent.RoutineRuns

/-!
# Hook actions take effect once

Every step of the gateway makes statements on the hook tables in one
transaction, so a run is a list of statements. A recorded event gives every
binding that takes it one row, a row stays pending until a statement settles
it, and a command accepts its row in the transaction of its effect. A message
is accepted later than it is delivered, and the receipts of its session keep it
from being delivered twice.
-/

namespace MobiusAgent.HookDelivery

open JsonValue ProtocolEvents CheckpointRecords CheckpointValidation HookRecords
open RoutineSchedules HookStore RoutineCatalog HookTransactions HookDispatch

section Replays

variable {digest : String → String → String} {tables between after : HookTables}

theorem replay_append {first second : List HookStatement}
    (hfirst : replay digest tables first = .ok between)
    (hsecond : replay digest between second = .ok after) :
    replay digest tables (first ++ second) = .ok after := by
  induction first generalizing tables with
  | nil =>
    rw [Except.ok.inj hfirst]
    exact hsecond
  | cons statement rest ih =>
    obtain ⟨middle, hstatement, hrest⟩ := bind_ok hfirst
    exact except_bind_ok_iff.mpr ⟨middle, hstatement, ih hrest⟩

theorem replay_split {first second : List HookStatement}
    (h : replay digest tables (first ++ second) = .ok after) :
    ∃ between, replay digest tables first = .ok between ∧
      replay digest between second = .ok after := by
  induction first generalizing tables with
  | nil => exact ⟨tables, rfl, h⟩
  | cons statement rest ih =>
    obtain ⟨middle, hstatement, hrest⟩ := bind_ok h
    obtain ⟨between, hbetween, hsecond⟩ := ih hrest
    exact ⟨between, except_bind_ok_iff.mpr ⟨middle, hstatement, hbetween⟩, hsecond⟩

theorem record_apply {event : HookEvent} {sequence : Option Nat} {isNew : Bool}
    (h : recordEvent digest tables event sequence = .ok (isNew, after)) :
    (HookStatement.record event sequence).apply digest tables = .ok after := by
  show (recordEvent digest tables event sequence).map Prod.snd = .ok after
  rw [h]
  rfl

/-- Statements that lead from tables to others and delete no Bot. -/
structure Replays (digest : String → String → String) (tables : HookTables)
    (statements : List HookStatement) (after : HookTables) : Prop where
  replayed : replay digest tables statements = .ok after
  bots : ∀ botId, .deleteBot botId ∉ statements

theorem Replays.nil (tables : HookTables) : Replays digest tables [] tables :=
  ⟨rfl, fun _ => List.not_mem_nil⟩

theorem Replays.cons {statement : HookStatement} {rest : List HookStatement}
    (h : statement.apply digest tables = .ok between)
    (hkind : ∀ botId, statement ≠ .deleteBot botId) (hrest : Replays digest between rest after) :
    Replays digest tables (statement :: rest) after := by
  refine ⟨except_bind_ok_iff.mpr ⟨between, h, hrest.replayed⟩, ?_⟩
  intro botId hmem
  rcases List.mem_cons.mp hmem with hsame | hrestMem
  · exact hkind botId hsame.symm
  · exact hrest.bots botId hrestMem

theorem Replays.single {statement : HookStatement}
    (h : statement.apply digest tables = .ok after)
    (hkind : ∀ botId, statement ≠ .deleteBot botId) : Replays digest tables [statement] after :=
  .cons h hkind (.nil after)

theorem Replays.append {first second : List HookStatement}
    (hfirst : Replays digest tables first between)
    (hsecond : Replays digest between second after) :
    Replays digest tables (first ++ second) after := by
  refine ⟨replay_append hfirst.replayed hsecond.replayed, ?_⟩
  intro botId hmem
  rcases List.mem_append.mp hmem with hmem | hmem
  · exact hfirst.bots botId hmem
  · exact hsecond.bots botId hmem

/-- A row that is accepted with a transaction. -/
def acceptStatements (id : Option String) : List HookStatement := id.toList.map .accept

theorem Replays.accept (id : Option String) :
    Replays digest tables (acceptStatements id) (acceptAction tables id) := by
  cases id with
  | none => exact .nil tables
  | some id => exact .single rfl nofun

end Replays

section Catalog

variable {host : Host} {tables after : HookTables} {now : Int}

theorem removeClosed_replays (routines : List StoredRoutine) (rows : List BindingRow)
    (tables : HookTables) :
    ∃ statements, Replays host.digest tables statements (removeClosed routines rows tables) := by
  induction rows generalizing tables with
  | nil => exact ⟨[], .nil tables⟩
  | cons row rest ih =>
    unfold removeClosed
    split
    · obtain ⟨statements, hstatements⟩ := ih (removeBinding tables row.botId row.id)
      refine ⟨.remove row.botId row.id :: statements, .cons rfl ?_ hstatements⟩
      intro botId hsame
      cases hsame
    · exact ih tables

theorem saveRoutineBindings_replays {routine : StoredRoutine}
    {bindings : List (StoredRoutineBinding RoutineAction)}
    (h : saveRoutineBindings routine now bindings tables = .ok after) :
    ∃ statements, Replays host.digest tables statements after := by
  induction bindings generalizing tables with
  | nil =>
    rw [← Except.ok.inj h]
    exact ⟨[], .nil tables⟩
  | cons stored rest ih =>
    obtain ⟨sequence, -, h⟩ := bind_ok h
    obtain ⟨saved, hsaved, h⟩ := bind_ok h
    obtain ⟨statements, hstatements⟩ := ih h
    exact ⟨.save routine.botId (some routine.id) (hookBinding routine.id stored.definition) true
      sequence now :: statements, .cons hsaved nofun hstatements⟩

theorem saveRoutines_replays {routines : List StoredRoutine}
    (h : saveRoutines now routines tables = .ok after) :
    ∃ statements, Replays host.digest tables statements after := by
  induction routines generalizing tables with
  | nil =>
    rw [← Except.ok.inj h]
    exact ⟨[], .nil tables⟩
  | cons routine rest ih =>
    obtain ⟨saved, hsaved, h⟩ := bind_ok h
    obtain ⟨first, hfirst⟩ := saveRoutineBindings_replays hsaved
    obtain ⟨second, hsecond⟩ := ih h
    exact ⟨first ++ second, hfirst.append hsecond⟩

theorem recordEvents_replays {events : List HookEvent}
    (h : recordEvents host events tables = .ok after) :
    ∃ statements, Replays host.digest tables statements after := by
  induction events generalizing tables with
  | nil =>
    rw [← Except.ok.inj h]
    exact ⟨[], .nil tables⟩
  | cons event rest ih =>
    obtain ⟨recorded, hrecorded, h⟩ := bind_ok h
    obtain ⟨statements, hstatements⟩ := ih h
    exact ⟨.record event none :: statements, .cons (record_apply hrecorded) nofun hstatements⟩

variable {acceptedActionId : Option String} {eventId : Uuid host} {cause : Option HookEvent}
  {id : String}

theorem saveCatalogWithHooks_replays {database saved : BotDatabase} {state : BotState}
    {events : List HookEvent}
    (h : saveCatalogWithHooks host database state events now acceptedActionId = .ok saved) :
    ∃ rest, Replays host.digest database.hooks (acceptStatements acceptedActionId ++ rest)
      saved.hooks := by
  unfold saveCatalogWithHooks at h
  obtain ⟨synced, hsynced, h⟩ := bind_ok h
  obtain ⟨recorded, hrecorded, h⟩ := bind_ok h
  rw [← Except.ok.inj h]
  obtain ⟨removing, hremoving⟩ := @removeClosed_replays host state.routines
    (acceptAction database.hooks acceptedActionId).bindings
    (acceptAction database.hooks acceptedActionId)
  obtain ⟨saving, hsaving⟩ := @saveRoutines_replays host _ _ _ _ hsynced
  obtain ⟨recording, hrecording⟩ := recordEvents_replays hrecorded
  exact ⟨removing ++ saving ++ recording,
    (Replays.accept acceptedActionId).append ((hremoving.append hsaving).append hrecording)⟩

theorem deleteRunsAndSaveCatalog_replays {database saved : BotDatabase} {state : BotState}
    {routineId : String} {event : HookEvent}
    (h : deleteRunsAndSaveCatalog host database state routineId event acceptedActionId =
      .ok saved) :
    ∃ rest, Replays host.digest database.hooks (acceptStatements acceptedActionId ++ rest)
      saved.hooks := by
  unfold deleteRunsAndSaveCatalog at h
  obtain ⟨recorded, hrecorded, h⟩ := bind_ok h
  rw [← Except.ok.inj h]
  exact ⟨[.unbindRoutine routineId, .cancel (.routine routineId), .record event none],
    (Replays.accept acceptedActionId).append
      (.cons rfl nofun (.cons rfl nofun (.single (record_apply hrecorded) nofun)))⟩

theorem createRoutine_replays {store created : BotStore} {botId : String}
    {definition : RoutineDefinition} {workspace : CanonicalWorkspace}
    {routineId fileId : Uuid host}
    (h : createRoutine host store botId definition workspace cause routineId fileId eventId now =
      .ok created) :
    ∃ statements, Replays host.digest store.database.hooks statements
      created.database.hooks := by
  obtain ⟨-, state, bindings, event, -, -, -, -, -, hsaves⟩ := RoutineRuns.createRoutine_cases h
  obtain ⟨rest, hrest⟩ := saveCatalogWithHooks_replays hsaves.commit
  exact ⟨_, hrest⟩

theorem updateRoutine_replays {store updated : BotStore} {definition : RoutineDefinition}
    {workspace : CanonicalWorkspace} {lockFree : Bool} {fileId : Uuid host}
    (h : updateRoutine host store id definition workspace cause acceptedActionId lockFree fileId
      eventId now = .ok updated) :
    ∃ rest, Replays host.digest store.database.hooks (acceptStatements acceptedActionId ++ rest)
      updated.database.hooks := by
  obtain ⟨-, state, index, routine, -, -, -, -, hcase⟩ := RoutineRuns.updateRoutine_cases h
  rcases hcase with rfl | ⟨bindings, event, -, -, hsaves⟩
  · exact ⟨[], by rw [List.append_nil]; exact .accept acceptedActionId⟩
  · exact saveCatalogWithHooks_replays hsaves.commit

theorem setRoutineEnabled_replays {store updated : BotStore} {enabled : Bool}
    (h : setRoutineEnabled host store id enabled cause acceptedActionId eventId now = .ok updated) :
    ∃ rest, Replays host.digest store.database.hooks (acceptStatements acceptedActionId ++ rest)
      updated.database.hooks := by
  obtain ⟨state, index, routine, -, -, -, -, hcase⟩ := RoutineRuns.setRoutineEnabled_cases h
  rcases hcase with rfl | ⟨-, bindings, event, -, -, hsaves⟩
  · exact ⟨[], by rw [List.append_nil]; exact .accept acceptedActionId⟩
  · exact saveCatalogWithHooks_replays hsaves.commit

theorem deleteRoutine_replays {store deleted : BotStore} {lockFree : Bool}
    (h : deleteRoutine host store id cause acceptedActionId lockFree eventId now = .ok deleted) :
    ∃ rest, Replays host.digest store.database.hooks (acceptStatements acceptedActionId ++ rest)
      deleted.database.hooks := by
  obtain ⟨state, index, routine, event, -, -, -, -, -, hsaved⟩ := RoutineRuns.deleteRoutine_cases h
  exact deleteRunsAndSaveCatalog_replays hsaved

theorem pollDue_replays {store : BotStore} {result : RoutinePoll × BotStore}
    (h : pollDue host store now = .ok result) :
    ∃ statements, Replays host.digest store.database.hooks statements
      result.2.database.hooks := by
  obtain ⟨state, -, hcase⟩ := RoutineRuns.pollDue_cases h
  rcases hcase with hsame | ⟨tick, -, hsaves⟩
  · rw [hsame]
    exact ⟨[], .nil _⟩
  · obtain ⟨rest, hrest⟩ := saveCatalogWithHooks_replays hsaves.commit
    exact ⟨_, hrest⟩

end Catalog

section Runs

variable {host : Host} {database after : BotDatabase} {stops : List StopRequest} {now : Int}

theorem recordRun_replays {tables recorded : HookTables} {commands : List CommandRow}
    {run : RoutineRun} (h : recordRun host tables stops commands run = .ok recorded) :
    ∃ event, Replays host.digest tables [.record event none] recorded := by
  unfold recordRun at h
  obtain ⟨event, -, h⟩ := bind_ok h
  obtain ⟨result, hresult, h⟩ := bind_ok h
  rw [← Except.ok.inj h]
  exact ⟨event, .single (record_apply hresult) nofun⟩

theorem insertRunWithCause_replays {run : RoutineRun} {commandId : String}
    {cause : Option HookEvent}
    (h : insertRunWithCause host database stops run commandId cause = .ok after) :
    ∃ rest, Replays host.digest database.hooks
      (acceptStatements (cause.map fun _ => commandId) ++ rest) after.hooks := by
  unfold insertRunWithCause at h
  obtain ⟨⟨⟩, -, h⟩ := bind_ok h
  obtain ⟨⟨⟩, -, h⟩ := bind_ok h
  obtain ⟨recorded, hrecorded, h⟩ := bind_ok h
  rw [← Except.ok.inj h]
  obtain ⟨event, hevent⟩ := recordRun_replays hrecorded
  exact ⟨[.record event none], (Replays.accept _).append hevent⟩

theorem beginRun_replays {id commandId : String} {cause : Option HookEvent} {lockFree : Bool}
    {runId : Uuid host} {sessionId : SessionId} {result : BeginRun × BotDatabase}
    (h : beginRun host database stops id commandId cause lockFree runId sessionId now =
      .ok result) :
    ∃ rest, Replays host.digest database.hooks
      ((if result.1 = .alreadyRecorded then []
        else acceptStatements (cause.map fun _ => commandId)) ++ rest) result.2.hooks := by
  unfold beginRun at h
  obtain ⟨state, -, h⟩ := bind_ok h
  obtain ⟨routine, -, h⟩ := bind_ok h
  obtain ⟨⟨⟩, -, h⟩ := bind_ok h
  obtain ⟨previous, -, h⟩ := bind_ok h
  cases previous with
  | some run =>
    obtain ⟨⟨⟩, -, h⟩ := bind_ok h
    rw [← Except.ok.inj h]
    exact ⟨[], .nil _⟩
  | none =>
    unfold reserveRun at h
    obtain ⟨⟨⟩, -, h⟩ := bind_ok h
    split at h
    · obtain ⟨inserted, hinserted, h⟩ := bind_ok h
      rw [← Except.ok.inj h]
      exact insertRunWithCause_replays hinserted
    · obtain ⟨⟨⟩, -, h⟩ := bind_ok h
      obtain ⟨inserted, hinserted, h⟩ := bind_ok h
      rw [← Except.ok.inj h]
      exact insertRunWithCause_replays hinserted

theorem finishRun_replays {id : String} {status : RoutineRunStatus} {finishedAt : Int}
    {message : Option String}
    (h : finishRun host database stops id status finishedAt message = .ok after) :
    ∃ statements, Replays host.digest database.hooks statements after.hooks := by
  unfold finishRun at h
  split at h
  · cases h
  · split at h
    · cases h
    · split at h
      · split at h
        · rw [← Except.ok.inj h]
          exact ⟨[], .nil _⟩
        · cases h
      · unfold finishRunRow at h
        obtain ⟨⟨⟩, -, h⟩ := bind_ok h
        obtain ⟨recorded, hrecorded, h⟩ := bind_ok h
        rw [← Except.ok.inj h]
        obtain ⟨event, hevent⟩ := recordRun_replays hrecorded
        exact ⟨_, hevent⟩

theorem deleteRun_hooks {id : String} (h : deleteRun host database id = .ok after) :
    after.hooks = database.hooks := by
  unfold deleteRun at h
  obtain ⟨state, -, h⟩ := bind_ok h
  obtain ⟨⟨⟩, -, h⟩ := bind_ok h
  split at h
  · cases h
  · obtain ⟨⟨⟩, -, h⟩ := bind_ok h
    rw [← Except.ok.inj h]
    rfl

end Runs

section Sources

variable {host : Host} {database after : BotDatabase} {tables changed : HookTables}

theorem setSubscription_replays {botId : String} {binding : HookBinding BotAction}
    {enabled : Bool} {afterSequence : Nat} {now : Int}
    (h : setSubscription host database botId binding enabled afterSequence now = .ok after) :
    ∃ statements, Replays host.digest database.hooks statements after.hooks := by
  unfold setSubscription at h
  obtain ⟨state, -, h⟩ := bind_ok h
  obtain ⟨⟨⟩, -, h⟩ := bind_ok h
  obtain ⟨saved, hsaved, h⟩ := bind_ok h
  rw [← Except.ok.inj h]
  exact ⟨[.save botId none binding enabled afterSequence now], .single hsaved nofun⟩

theorem recordHook_replays {event : HookEvent} (h : recordHook host database event = .ok after) :
    ∃ statements, Replays host.digest database.hooks statements after.hooks := by
  unfold recordHook at h
  obtain ⟨recorded, hrecorded, h⟩ := bind_ok h
  rw [← Except.ok.inj h]
  exact ⟨[.record event none], .single (record_apply hrecorded) nofun⟩

theorem advance_apply {sessionId : SessionId} {botId : String} {sequence : Nat}
    {advanced : Bool × HookTables}
    (h : advanceCursorRow tables sessionId botId sequence = .ok advanced) :
    (HookStatement.advance sessionId botId sequence).apply host.digest tables =
      .ok advanced.2 := by
  show (advanceCursorRow tables sessionId botId sequence).map Prod.snd = .ok advanced.2
  rw [h]
  rfl

theorem projectSession_replays {event : HookEvent} {sequence : Nat} {result : Bool × HookTables}
    (h : projectSession host tables event sequence = .ok result) :
    ∃ statements, Replays host.digest tables statements result.2 := by
  unfold projectSession at h
  split at h
  · rename_i sessionId hsource
    unfold projectEvent at h
    obtain ⟨advanced, hadvanced, h⟩ := bind_ok h
    have hfirst := @advance_apply host _ _ _ _ _ hadvanced
    split at h
    · exact ⟨[.advance sessionId event.botId sequence, .record event (some sequence)],
        .cons hfirst nofun (.single (record_apply h) nofun)⟩
    · rw [← Except.ok.inj h]
      exact ⟨_, .single hfirst nofun⟩
  · cases h

theorem advanceSourceCursor_replays {sessionId : SessionId} {botId : String} {sequence : Nat}
    (h : advanceSourceCursor tables sessionId botId sequence = .ok changed) :
    ∃ statements, Replays host.digest tables statements changed := by
  unfold advanceSourceCursor at h
  obtain ⟨advanced, hadvanced, h⟩ := bind_ok h
  rw [← Except.ok.inj h]
  exact ⟨_, .single (advance_apply hadvanced) nofun⟩

theorem closeSource_replays {event : HookEvent} (h : closeSource host tables event = .ok changed) :
    ∃ statements, Replays host.digest tables statements changed := by
  unfold closeSource at h
  obtain ⟨sessionId, -, h⟩ := bind_ok h
  split at h
  · obtain ⟨⟨⟩, -, h⟩ := bind_ok h
    rw [← Except.ok.inj h]
    exact ⟨[], .nil tables⟩
  · obtain ⟨recorded, hrecorded, h⟩ := bind_ok h
    rw [← Except.ok.inj h]
    exact ⟨[.cancel event.source, .record event none, .unbindSession sessionId,
      .forget sessionId], .cons rfl nofun
        (.cons (record_apply hrecorded) nofun (.cons rfl nofun (.single rfl nofun)))⟩

theorem closeSources_replays {events : List HookEvent}
    (h : closeSources host tables events = .ok changed) :
    ∃ statements, Replays host.digest tables statements changed := by
  induction events generalizing tables with
  | nil =>
    rw [← Except.ok.inj h]
    exact ⟨[], .nil tables⟩
  | cons event rest ih =>
    obtain ⟨closed, hclosed, h⟩ := bind_ok h
    obtain ⟨first, hfirst⟩ := closeSource_replays hclosed
    obtain ⟨second, hsecond⟩ := ih h
    exact ⟨first ++ second, hfirst.append hsecond⟩

theorem closeSessionSources_replays {events : List HookEvent}
    (h : closeSessionSources host database events = .ok after) :
    ∃ statements, Replays host.digest database.hooks statements after.hooks := by
  unfold closeSessionSources at h
  obtain ⟨state, -, h⟩ := bind_ok h
  obtain ⟨⟨⟩, -, h⟩ := bind_ok h
  obtain ⟨row, -, h⟩ := bind_ok h
  obtain ⟨closed, hclosed, h⟩ := bind_ok h
  rw [← Except.ok.inj h]
  exact closeSources_replays hclosed

theorem deleteBot_replays {store deleted : BotStore} {botId : String} {expectedRevision : Nat}
    {routineIds instructions : List String}
    (h : deleteBot host store botId expectedRevision routineIds instructions = .ok deleted) :
    replay host.digest store.database.hooks [.deleteBot botId] = .ok deleted.database.hooks := by
  unfold deleteBot at h
  obtain ⟨state, -, h⟩ := bind_ok h
  obtain ⟨⟨⟩, -, h⟩ := bind_ok h
  obtain ⟨⟨⟩, -, h⟩ := bind_ok h
  obtain ⟨row, -, h⟩ := bind_ok h
  rw [← Except.ok.inj h]
  rfl

theorem saveBots_hooks {bots : List StoredBot} {pending : Option PendingBotDeletion}
    (h : saveBots host database bots pending = .ok after) : after.hooks = database.hooks := by
  unfold saveBots at h
  obtain ⟨state, -, h⟩ := bind_ok h
  obtain ⟨⟨⟩, -, h⟩ := bind_ok h
  obtain ⟨row, -, h⟩ := bind_ok h
  rw [← Except.ok.inj h]

end Sources

section Subscriptions

open RoutinePolling

variable {host : Host}

theorem unsubscribed_valid {routine : StoredRoutine} (h : RoutineValid host routine)
    (events : List HookEvent) : RoutineValid host (unsubscribed routine events) := by
  have hsub : ((unsubscribed routine events).bindings.map (·.definition)).Sublist
      (routine.bindings.map (·.definition)) := List.filter_sublist.map _
  refine ⟨h.id, h.workspace, h.inside, ?_, ?_⟩
  · have hbindings := h.bindings
    unfold validateBindings at hbindings ⊢
    obtain ⟨hbounds, hlist⟩ := bind_ok_iff.mp hbindings
    obtain ⟨hall, hnodup⟩ := validateBindingList_ok_iff.mp hlist
    refine bind_ok_iff.mpr ⟨?_, validateBindingList_ok_iff.mpr
      ⟨fun binding hbinding => hall binding (hsub.subset hbinding), hnodup.sublist (hsub.map _)⟩⟩
    unfold validateBindingBounds at hbounds ⊢
    rw [rejectIf_ok_iff, Bool.or_eq_false_iff, decide_eq_false_iff_not,
      decide_eq_false_iff_not] at hbounds ⊢
    have hlength := hsub.length_le
    exact ⟨hbounds.1, by omega⟩
  · intro stored hstored
    exact h.due stored (List.filter_sublist.subset hstored)

end Subscriptions

section Rows

variable {digest : String → String → String} {tables after : HookTables}
  {statement : HookStatement}

def addedRows (digest : String → String → String) (tables : HookTables) :
    HookStatement → List OutboxRow
  | .record event sequence =>
    if (tables.event? event.id).isSome then [] else newRows digest tables event sequence
  | _ => []

/-- The rows that statements add. -/
def createdRows (digest : String → String → String) :
    HookTables → List HookStatement → List OutboxRow
  | _, [] => []
  | tables, statement :: rest =>
    match statement.apply digest tables with
    | .ok after => addedRows digest tables statement ++ createdRows digest after rest
    | .error _ => []

variable {sequence : Option Nat}

theorem addedRows_known {event old : HookEvent} (h : tables.event? event.id = some old) :
    addedRows digest tables (.record event sequence) = [] := by
  show (if (tables.event? event.id).isSome then _ else _) = _
  rw [h, Option.isSome_some, if_pos rfl]

theorem addedRows_new {event : HookEvent} (h : tables.event? event.id = none) :
    addedRows digest tables (.record event sequence) = newRows digest tables event sequence := by
  show (if (tables.event? event.id).isSome then _ else _) = _
  rw [h, Option.isSome_none, if_neg Bool.false_ne_true]

theorem createdRows_cons {rest : List HookStatement}
    (h : statement.apply digest tables = .ok after) :
    createdRows digest tables (statement :: rest) =
      addedRows digest tables statement ++ createdRows digest after rest := by
  show (match statement.apply digest tables with
    | .ok after => addedRows digest tables statement ++ createdRows digest after rest
    | .error _ => []) = _
  rw [h]

theorem advanceCursorRow_frame {sessionId : SessionId} {botId : String} {sequence : Nat}
    {advanced : Bool × HookTables}
    (h : advanceCursorRow tables sessionId botId sequence = .ok advanced) :
    advanced.2.outbox = tables.outbox ∧ advanced.2.events = tables.events ∧
      advanced.2.bindings = tables.bindings := by
  unfold advanceCursorRow at h
  split at h
  · split at h
    · cases h
    · rw [← Except.ok.inj h]
      exact ⟨rfl, rfl, rfl⟩
  · split at h
    · cases h
    · split at h
      · cases h
      · split at h
        · rw [← Except.ok.inj h]
          exact ⟨rfl, rfl, rfl⟩
        · rw [← Except.ok.inj h]
          exact ⟨rfl, rfl, rfl⟩

theorem advance_frame {sessionId : SessionId} {botId : String} {sequence : Nat}
    (h : (HookStatement.advance sessionId botId sequence).apply digest tables = .ok after) :
    after.outbox = tables.outbox ∧ after.events = tables.events ∧
      after.bindings = tables.bindings := by
  have h : (advanceCursorRow tables sessionId botId sequence).map Prod.snd = .ok after := h
  cases hadvanced : advanceCursorRow tables sessionId botId sequence with
  | error error =>
    rw [hadvanced] at h
    cases h
  | ok advanced =>
    rw [hadvanced] at h
    have hafter : advanced.2 = after := Except.ok.inj h
    rw [← hafter]
    exact advanceCursorRow_frame hadvanced

theorem record_cases {event : HookEvent}
    (h : (HookStatement.record event sequence).apply digest tables = .ok after) :
    validateEvent event = .ok () ∧
      ((tables.event? event.id = some event ∧ after = tables) ∨
        (tables.event? event.id = none ∧ after = withEvent digest tables event sequence)) := by
  have h : (recordEvent digest tables event sequence).map Prod.snd = .ok after := h
  cases hrecorded : recordEvent digest tables event sequence with
  | error error =>
    rw [hrecorded] at h
    cases h
  | ok recorded =>
    rw [hrecorded] at h
    have hafter : recorded.2 = after := Except.ok.inj h
    obtain ⟨isNew, changed⟩ := recorded
    obtain ⟨hvalid, hcases⟩ := recordEvent_cases hrecorded
    refine ⟨hvalid, ?_⟩
    rcases hcases with ⟨-, hsame, hknown⟩ | ⟨-, hnone, hnew⟩
    · exact .inl ⟨hknown, hafter.symm.trans hsame⟩
    · exact .inr ⟨hnone, hafter.symm.trans hnew⟩

theorem record_ids {event : HookEvent}
    (h : (HookStatement.record event sequence).apply digest tables = .ok after)
    (hids : (tables.outbox.map (·.id)).Nodup) : (after.outbox.map (·.id)).Nodup := by
  have h : (recordEvent digest tables event sequence).map Prod.snd = .ok after := h
  cases hrecorded : recordEvent digest tables event sequence with
  | error error =>
    rw [hrecorded] at h
    cases h
  | ok recorded =>
    rw [hrecorded] at h
    have hafter : recorded.2 = after := Except.ok.inj h
    rw [← hafter]
    exact recordEvent_ids hrecorded hids

theorem statement_outbox (h : statement.apply digest tables = .ok after) :
    (∃ id, statement = .accept id ∧ after = acceptAction tables (some id)) ∨
      (∃ id error retryAt, statement = .fail id error retryAt ∧
        after = actionFailed tables id error retryAt) ∨
      ∃ kept, kept.Sublist tables.outbox ∧
        after.outbox = kept ++ addedRows digest tables statement := by
  cases statement with
  | accept id => exact .inl ⟨id, rfl, (Except.ok.inj h).symm⟩
  | fail id error retryAt => exact .inr (.inl ⟨id, error, retryAt, rfl, (Except.ok.inj h).symm⟩)
  | save botId routineId binding enabled afterSequence now =>
    have hpruned := (saveBinding_saved h).pruned
    exact .inr (.inr ⟨_, hpruned.outbox, (List.append_nil _).symm⟩)
  | remove botId id =>
    rw [← Except.ok.inj h]
    exact .inr (.inr ⟨_, (removeBinding_pruned tables botId id).outbox, (List.append_nil _).symm⟩)
  | unbindRoutine routineId | unbindSession sessionId =>
    rw [← Except.ok.inj h]
    exact .inr (.inr ⟨_, List.Sublist.refl _, (List.append_nil _).symm⟩)
  | cancel source =>
    rw [← Except.ok.inj h]
    exact .inr (.inr ⟨_, (cancelSourcePending_pruned tables source).outbox,
      (List.append_nil _).symm⟩)
  | record event sequence =>
    obtain ⟨-, ⟨hknown, hsame⟩ | ⟨hnone, hnew⟩⟩ := record_cases h
    · refine .inr (.inr ⟨tables.outbox, List.Sublist.refl _, ?_⟩)
      rw [hsame, addedRows_known hknown, List.append_nil]
    · refine .inr (.inr ⟨tables.outbox, List.Sublist.refl _, ?_⟩)
      rw [hnew, addedRows_new hnone]
      rfl
  | advance sessionId botId sequence =>
    refine .inr (.inr ⟨tables.outbox, List.Sublist.refl _, ?_⟩)
    rw [(advance_frame h).1]
    exact (List.append_nil _).symm
  | forget sessionId =>
    rw [← Except.ok.inj h]
    exact .inr (.inr ⟨_, List.Sublist.refl _, (List.append_nil _).symm⟩)
  | deleteBot botId =>
    rw [← Except.ok.inj h]
    exact .inr (.inr ⟨_, List.filter_sublist, (List.append_nil _).symm⟩)

/-- The rows with an identity that were not accepted. -/
def waiting (tables : HookTables) (id : String) : Nat :=
  tables.outbox.countP fun row => decide (row.id = id) && !row.accepted

def rowsWith (id : String) (rows : List OutboxRow) : Nat :=
  rows.countP fun row => decide (row.id = id)

theorem waiting_accept (tables : HookTables) (id : String) :
    waiting (acceptAction tables (some id)) id = 0 := by
  refine List.countP_eq_zero.mpr ?_
  intro row hrow
  obtain ⟨old, -, rfl⟩ := List.mem_map.mp hrow
  split
  · simp
  · rename_i hid
    simp [hid]

theorem waiting_accept_le (tables : HookTables) (other id : String) :
    waiting (acceptAction tables (some other)) id ≤ waiting tables id := by
  show (tables.outbox.map _).countP _ ≤ _
  rw [List.countP_map]
  refine List.countP_mono_left ?_
  intro row hrow hwaiting
  simp only [Function.comp_apply] at hwaiting
  split at hwaiting
  · simp at hwaiting
  · exact hwaiting

theorem waiting_fail (tables : HookTables) (other error : String) (retryAt : Option Int)
    (id : String) : waiting (actionFailed tables other error retryAt) id = waiting tables id := by
  show (tables.outbox.map _).countP _ = _
  rw [List.countP_map]
  refine List.countP_congr ?_
  intro row hrow
  simp only [Function.comp_apply]
  split
  · exact Iff.rfl
  · exact Iff.rfl

theorem statement_waiting (h : statement.apply digest tables = .ok after) (id : String) :
    waiting after id ≤ waiting tables id + rowsWith id (addedRows digest tables statement) := by
  rcases statement_outbox h with ⟨other, rfl, rfl⟩ | ⟨other, error, retryAt, rfl, rfl⟩ |
    ⟨kept, hkept, houtbox⟩
  · exact le_trans (waiting_accept_le tables other id) (Nat.le_add_right _ _)
  · rw [waiting_fail]
    exact Nat.le_add_right _ _
  · unfold waiting rowsWith
    rw [houtbox, List.countP_append]
    refine Nat.add_le_add hkept.countP_le (List.countP_mono_left ?_)
    intro row hrow hwaiting
    exact (Bool.and_eq_true_iff.mp hwaiting).1

theorem replay_waiting {statements : List HookStatement}
    (h : replay digest tables statements = .ok after) (id : String) :
    waiting after id ≤ waiting tables id + rowsWith id (createdRows digest tables statements) := by
  induction statements generalizing tables with
  | nil =>
    rw [Except.ok.inj h]
    exact Nat.le_add_right _ _
  | cons statement rest ih =>
    obtain ⟨between, hstatement, hrest⟩ := bind_ok h
    have hfirst := statement_waiting hstatement id
    have hsecond := ih hrest
    unfold rowsWith at *
    rw [createdRows_cons hstatement, List.countP_append]
    omega

theorem createdRows_append {first : List HookStatement} {between : HookTables}
    (h : replay digest tables first = .ok between) (second : List HookStatement) :
    createdRows digest tables (first ++ second) =
      createdRows digest tables first ++ createdRows digest between second := by
  induction first generalizing tables with
  | nil =>
    rw [Except.ok.inj h]
    rfl
  | cons statement rest ih =>
    obtain ⟨middle, hstatement, hrest⟩ := bind_ok h
    rw [List.cons_append, createdRows_cons hstatement, createdRows_cons hstatement, ih hrest,
      List.append_assoc]

end Rows

section Settling

variable {digest : String → String → String} {tables after : HookTables}
  {statement : HookStatement} {row : OutboxRow}

/-- The same row, whatever its progress. -/
structure SameRow (first second : OutboxRow) : Prop where
  id : first.id = second.id
  eventId : first.eventId = second.eventId
  bindingId : first.bindingId = second.bindingId
  botId : first.botId = second.botId
  action : first.action = second.action

theorem SameRow.refl (row : OutboxRow) : SameRow row row := ⟨rfl, rfl, rfl, rfl, rfl⟩

theorem SameRow.trans {first second third : OutboxRow} (h : SameRow first second)
    (h' : SameRow second third) : SameRow first third :=
  ⟨h.id.trans h'.id, h.eventId.trans h'.eventId, h.bindingId.trans h'.bindingId,
    h.botId.trans h'.botId, h.action.trans h'.action⟩

def Pending (tables : HookTables) (row : OutboxRow) : Prop :=
  ∃ stored ∈ tables.outbox, SameRow stored row ∧ stored.accepted = false ∧
    stored.retryAt.isSome = true

/-- A statement accepts a row, fails it for good, closes, disables or changes its binding, closes
its source or deletes the Bot of its event. -/
def Settles (tables : HookTables) (row : OutboxRow) : HookStatement → Prop
  | .accept id => id = row.id
  | .fail id _ retryAt => id = row.id ∧ retryAt = none
  | .save botId _ binding enabled _ _ => botId = row.botId ∧ binding.id = row.bindingId ∧
      (enabled = false ∨ ∃ previous, tables.binding? botId binding.id = some previous ∧
        (previous.selector ≠ binding.on ∨ previous.action ≠ binding.action))
  | .remove botId id => botId = row.botId ∧ id = row.bindingId
  | .cancel source => ∃ event ∈ tables.events, event.id = row.eventId ∧ event.source = source
  | .deleteBot botId => ∃ event ∈ tables.events, event.id = row.eventId ∧ event.botId = botId
  | _ => False

theorem Pending.drop (h : Pending tables row) (botId bindingId : String)
    (houtbox : after.outbox = (dropPending tables botId bindingId).outbox) :
    Pending after row ∨ (botId = row.botId ∧ bindingId = row.bindingId) := by
  obtain ⟨stored, hstored, hsame, haccepted, hretry⟩ := h
  by_cases hbinding : stored.botId = botId ∧ stored.bindingId = bindingId
  · exact .inr ⟨hbinding.1.symm.trans hsame.botId, hbinding.2.symm.trans hsame.bindingId⟩
  · refine .inl ⟨stored, ?_, hsame, haccepted, hretry⟩
    rw [houtbox]
    refine List.mem_filter.mpr ⟨hstored, ?_⟩
    rw [not_and_or] at hbinding
    cases hbinding with
    | inl hbot => simp [hbot]
    | inr hid => simp [hid]

end Settling

section Recording

variable {digest : String → String → String} {tables after : HookTables}
  {statement : HookStatement}

/-- The keys of bindings and rows are distinct, and the events of all rows are recorded. -/
structure Keyed (tables : HookTables) : Prop where
  keys : (bindingKeys tables).Nodup
  ids : (tables.outbox.map (·.id)).Nodup
  caused : ∀ row ∈ tables.outbox, ∃ event ∈ tables.events, event.id = row.eventId

theorem Keyed.mono (h : Keyed tables)
    (hkeys : (bindingKeys tables).Nodup → (bindingKeys after).Nodup)
    (hids : (after.outbox.map (·.id)).Sublist (tables.outbox.map (·.id)))
    (hrows : ∀ row ∈ after.outbox, ∃ old ∈ tables.outbox, old.eventId = row.eventId)
    (hevents : after.events = tables.events) : Keyed after := by
  refine ⟨hkeys h.keys, h.ids.sublist hids, ?_⟩
  intro row hrow
  obtain ⟨old, hold, hid⟩ := hrows row hrow
  obtain ⟨event, hevent, hevent'⟩ := h.caused old hold
  rw [hevents]
  exact ⟨event, hevent, hevent'.trans hid⟩

theorem Keyed.prune (h : Keyed tables) (hpruned : Pruned tables after)
    (hkeys : (bindingKeys tables).Nodup → (bindingKeys after).Nodup) : Keyed after :=
  h.mono hkeys (hpruned.outbox.map _) (fun row hrow => ⟨row, hpruned.outbox.subset hrow, rfl⟩)
    hpruned.events

/-- Statements keep the keys distinct and the events of rows recorded. -/
theorem statement_keyed (h : statement.apply digest tables = .ok after) (hkeyed : Keyed tables) :
    Keyed after := by
  cases statement with
  | accept id =>
    rw [← Except.ok.inj h]
    refine hkeyed.mono (fun hkeys => hkeys) ?_ ?_ rfl
    · show ((tables.outbox.map _).map _).Sublist _
      rw [List.map_map, List.map_congr_left]
      intro row hrow
      simp only [Function.comp_apply]
      split
      · rfl
      · rfl
    · intro row hrow
      obtain ⟨old, hold, -, hevent, -⟩ := acceptAction_row hrow
      exact ⟨old, hold, hevent.symm⟩
  | fail id error retryAt =>
    rw [← Except.ok.inj h]
    refine hkeyed.mono (fun hkeys => hkeys) ?_ ?_ rfl
    · show ((tables.outbox.map _).map _).Sublist _
      rw [List.map_map, List.map_congr_left]
      intro row hrow
      simp only [Function.comp_apply]
      split
      · rfl
      · rfl
    · intro row hrow
      obtain ⟨old, hold, rfl⟩ := List.mem_map.mp hrow
      refine ⟨old, hold, ?_⟩
      split
      · rfl
      · rfl
  | save botId routineId binding enabled afterSequence now =>
    have hsaved := saveBinding_saved h
    exact hkeyed.prune hsaved.pruned hsaved.keys
  | remove botId id =>
    rw [← Except.ok.inj h]
    exact hkeyed.prune (removeBinding_pruned tables botId id)
      fun hkeys => hkeys.sublist (List.filter_sublist.map _)
  | unbindRoutine routineId | unbindSession sessionId =>
    rw [← Except.ok.inj h]
    exact hkeyed.prune (Pruned.of_bindings tables _)
      fun hkeys => hkeys.sublist (List.filter_sublist.map _)
  | cancel source =>
    rw [← Except.ok.inj h]
    exact hkeyed.prune (cancelSourcePending_pruned tables source) fun hkeys => hkeys
  | record event sequence =>
    have hids := record_ids h hkeyed.ids
    obtain ⟨-, ⟨-, rfl⟩ | ⟨-, rfl⟩⟩ := record_cases h
    · exact hkeyed
    · refine ⟨hkeyed.keys, hids, ?_⟩
      intro row hrow
      rcases List.mem_append.mp hrow with hold | hnew
      · obtain ⟨cause, hcause, hid⟩ := hkeyed.caused row hold
        exact ⟨cause, List.mem_append_left _ hcause, hid⟩
      · refine ⟨event, List.mem_append_right _ (List.mem_singleton.mpr rfl), ?_⟩
        exact (newRows_event hnew).1.symm
  | advance sessionId botId sequence =>
    obtain ⟨houtbox, hevents, hbindings⟩ := advance_frame h
    refine hkeyed.mono ?_ ?_ ?_ hevents
    · intro hkeys
      unfold bindingKeys
      rw [hbindings]
      exact hkeys
    · rw [houtbox]
    · intro row hrow
      exact ⟨row, houtbox ▸ hrow, rfl⟩
  | forget sessionId =>
    rw [← Except.ok.inj h]
    exact ⟨hkeyed.keys, hkeyed.ids, hkeyed.caused⟩
  | deleteBot botId =>
    rw [← Except.ok.inj h]
    refine ⟨hkeyed.keys.sublist (List.filter_sublist.map _),
      hkeyed.ids.sublist (List.filter_sublist.map _), ?_⟩
    intro row hrow
    obtain ⟨hrow, hkept⟩ := List.mem_filter.mp hrow
    obtain ⟨event, hevent, hid⟩ := hkeyed.caused row hrow
    refine ⟨event, List.mem_filter.mpr ⟨hevent, ?_⟩, hid⟩
    rw [Bool.not_eq_true', List.any_eq_false] at hkept
    have hother := hkept event hevent
    simpa [hid] using hother

theorem replay_keyed {statements : List HookStatement}
    (h : replay digest tables statements = .ok after) (hkeyed : Keyed tables) : Keyed after := by
  induction statements generalizing tables with
  | nil =>
    rw [← Except.ok.inj h]
    exact hkeyed
  | cons statement rest ih =>
    obtain ⟨between, hstatement, hrest⟩ := bind_ok h
    exact ih hrest (statement_keyed hstatement hkeyed)

theorem keyed_empty : Keyed {} := ⟨List.nodup_nil, List.nodup_nil, List.forall_mem_nil _⟩

/-- Whether a binding takes an event: it is enabled, belongs to the Bot of the event unless a Bot
emitted it, and matches it within its window, and the causal chain of the event is short and
visits the binding for the first time. -/
def takes (tables : HookTables) (binding : BindingRow) (event : HookEvent)
    (sequence : Option Nat) : Bool :=
  binding.enabled && (decide (binding.botId = event.botId) || match event.source with
      | .bot _ => true
      | _ => false) &&
    decide (event.ancestry.length < maxHookAncestry) && consumes binding event sequence &&
    !revisits tables binding event

end Recording

section Creation

variable {digest : String → String → String} {tables after : HookTables}
  {statement : HookStatement}

/-- Different parts have different digests. -/
def CollisionFree (digest : String → String → String) : Prop :=
  ∀ first second first' second',
    digest first second = digest first' second' → first = first' ∧ second = second'

theorem CollisionFree.event (h : CollisionFree digest)
    {eventId eventId' botId botId' id id' : String}
    (heq : outboxId digest eventId botId id = outboxId digest eventId' botId' id') :
    eventId = eventId' := by
  have hlist := congrArg String.toList heq
  unfold outboxId stableId at hlist
  simp only [String.toList_append] at hlist
  have htext := String.toList_inj.mp (List.append_cancel_left hlist)
  exact (h eventId (botId ++ ":" ++ id) eventId' (botId' ++ ":" ++ id') htext).1

theorem statement_events (h : statement.apply digest tables = .ok after)
    (hstatement : ∀ botId, statement ≠ .deleteBot botId) :
    ∀ event ∈ tables.events, event ∈ after.events := by
  intro event hevent
  cases statement with
  | accept id | fail id error retryAt =>
    rw [← Except.ok.inj h]
    exact hevent
  | save botId routineId binding enabled afterSequence now =>
    rw [(saveBinding_saved h).pruned.events]
    exact hevent
  | remove botId id | unbindRoutine routineId | unbindSession sessionId | cancel source =>
    rw [← Except.ok.inj h]
    exact hevent
  | record recorded sequence =>
    obtain ⟨-, ⟨-, rfl⟩ | ⟨-, rfl⟩⟩ := record_cases h
    · exact hevent
    · exact List.mem_append_left _ hevent
  | advance sessionId botId sequence =>
    rw [(advance_frame h).2.1]
    exact hevent
  | forget sessionId =>
    rw [← Except.ok.inj h]
    exact hevent
  | deleteBot botId => exact absurd rfl (hstatement botId)

theorem statement_recorded (h : statement.apply digest tables = .ok after) {event : HookEvent}
    (hevent : event ∈ after.events) :
    event ∈ tables.events ∨ ∃ sequence, statement = .record event sequence := by
  cases statement with
  | accept id | fail id error retryAt =>
    rw [← Except.ok.inj h] at hevent
    exact .inl hevent
  | save botId routineId binding enabled afterSequence now =>
    rw [(saveBinding_saved h).pruned.events] at hevent
    exact .inl hevent
  | remove botId id | unbindRoutine routineId | unbindSession sessionId | cancel source =>
    rw [← Except.ok.inj h] at hevent
    exact .inl hevent
  | record recorded sequence =>
    obtain ⟨-, ⟨-, rfl⟩ | ⟨-, rfl⟩⟩ := record_cases h
    · exact .inl hevent
    · rcases List.mem_append.mp hevent with hold | hnew
      · exact .inl hold
      · rw [List.mem_singleton.mp hnew]
        exact .inr ⟨sequence, rfl⟩
  | advance sessionId botId sequence =>
    rw [(advance_frame h).2.1] at hevent
    exact .inl hevent
  | forget sessionId =>
    rw [← Except.ok.inj h] at hevent
    exact .inl hevent
  | deleteBot botId =>
    rw [← Except.ok.inj h] at hevent
    exact .inl (List.mem_filter.mp hevent).1

variable {statements : List HookStatement}

theorem Replays.events (h : Replays digest tables statements after) {event : HookEvent}
    (hevent : event ∈ tables.events) : event ∈ after.events := by
  obtain ⟨hreplayed, hbots⟩ := h
  induction statements generalizing tables with
  | nil =>
    rw [← Except.ok.inj hreplayed]
    exact hevent
  | cons statement rest ih =>
    obtain ⟨between, hstatement, hrest⟩ := bind_ok hreplayed
    refine ih (statement_events hstatement ?_ event hevent) hrest
      fun botId hmem => hbots botId (List.mem_cons_of_mem _ hmem)
    rintro botId rfl
    exact hbots botId List.mem_cons_self

theorem Replays.records (h : Replays digest tables statements after) (event : HookEvent)
    (sequence : Option Nat) (hmem : .record event sequence ∈ statements) :
    event ∈ after.events := by
  obtain ⟨first, last, rfl⟩ := List.append_of_mem hmem
  obtain ⟨hreplayed, hbots⟩ := h
  obtain ⟨between, -, hlast⟩ := replay_split hreplayed
  obtain ⟨middle, hrecord, hrest⟩ := bind_ok hlast
  have hquiet : Replays digest middle last after :=
    ⟨hrest, fun botId hmem => hbots botId
      (List.mem_append_right _ (List.mem_cons_of_mem _ hmem))⟩
  refine hquiet.events ?_
  obtain ⟨-, ⟨hknown, rfl⟩ | ⟨-, rfl⟩⟩ := record_cases hrecord
  · exact List.mem_of_find?_eq_some hknown
  · exact List.mem_append_right _ (List.mem_singleton.mpr rfl)

theorem Replays.recorded (h : Replays digest tables statements after) (event : HookEvent)
    (hevent : event ∈ after.events) (hnew : event ∉ tables.events) :
    ∃ sequence, .record event sequence ∈ statements := by
  obtain ⟨hreplayed, -⟩ := h
  induction statements generalizing tables with
  | nil =>
    rw [← Except.ok.inj hreplayed] at hevent
    exact absurd hevent hnew
  | cons statement rest ih =>
    obtain ⟨between, hstatement, hrest⟩ := bind_ok hreplayed
    by_cases hbetween : event ∈ between.events
    · rcases statement_recorded hstatement hbetween with hold | ⟨sequence, rfl⟩
      · exact absurd hold hnew
      · exact ⟨sequence, List.mem_cons_self⟩
    · obtain ⟨sequence, hmem⟩ := ih hbetween hrest
      exact ⟨sequence, List.mem_cons_of_mem _ hmem⟩

/-- An event of the tables whose rows have the identity. -/
def Owns (digest : String → String → String) (tables : HookTables) (id : String) : Prop :=
  ∃ event ∈ tables.events, ∃ botId bindingId, id = outboxId digest event.id botId bindingId

theorem statement_rows (h : statement.apply digest tables = .ok after) :
    ∀ row ∈ after.outbox, (∃ old ∈ tables.outbox, SameRow row old) ∨
      row ∈ addedRows digest tables statement := by
  intro row hrow
  rcases statement_outbox h with ⟨id, rfl, rfl⟩ | ⟨id, error, retryAt, rfl, rfl⟩ |
    ⟨kept, hkept, houtbox⟩
  · obtain ⟨old, hold, rfl⟩ := List.mem_map.mp hrow
    refine .inl ⟨old, hold, ?_⟩
    split
    · exact ⟨rfl, rfl, rfl, rfl, rfl⟩
    · exact SameRow.refl old
  · obtain ⟨old, hold, rfl⟩ := List.mem_map.mp hrow
    refine .inl ⟨old, hold, ?_⟩
    split
    · exact ⟨rfl, rfl, rfl, rfl, rfl⟩
    · exact SameRow.refl old
  · rw [houtbox] at hrow
    rcases List.mem_append.mp hrow with hold | hnew
    · exact .inl ⟨row, hkept.subset hold, SameRow.refl row⟩
    · exact .inr hnew

theorem replay_rows (h : replay digest tables statements = .ok after) :
    ∀ row ∈ after.outbox, (∃ old ∈ tables.outbox, SameRow row old) ∨
      ∃ created ∈ createdRows digest tables statements, SameRow row created := by
  induction statements generalizing tables with
  | nil =>
    rw [← Except.ok.inj h]
    exact fun row hrow => .inl ⟨row, hrow, SameRow.refl row⟩
  | cons statement rest ih =>
    obtain ⟨between, hstatement, hrest⟩ := bind_ok h
    intro row hrow
    rw [createdRows_cons hstatement]
    rcases ih hrest row hrow with ⟨middle, hmiddle, hsame⟩ | ⟨created, hcreated, hsame⟩
    · rcases statement_rows hstatement middle hmiddle with ⟨old, hold, hsame'⟩ | hnew
      · exact .inl ⟨old, hold, hsame.trans hsame'⟩
      · exact .inr ⟨middle, List.mem_append_left _ hnew, hsame⟩
    · exact .inr ⟨created, List.mem_append_right _ hcreated, hsame⟩

end Creation

section Commands

variable {host : Host} {gateway after : Gateway}

/-- A transaction that changes only the store and the stop requests. -/
structure Transacted (gateway after : Gateway) : Prop where
  sessions : after.sessions = gateway.sessions
  receipts : after.receipts = gateway.receipts
  deleted : after.deleted = gateway.deleted
  tasks : after.tasks = gateway.tasks
  effects : after.effects = gateway.effects

theorem Transacted.refl (gateway : Gateway) : Transacted gateway gateway :=
  ⟨rfl, rfl, rfl, rfl, rfl⟩

theorem Transacted.store (gateway : Gateway) (store : BotStore) :
    Transacted gateway (gateway.withStore store) := ⟨rfl, rfl, rfl, rfl, rfl⟩

theorem Transacted.database (gateway : Gateway) (database : BotDatabase) :
    Transacted gateway (gateway.withDatabase database) := ⟨rfl, rfl, rfl, rfl, rfl⟩

variable {outside : Outside host} {cause : Option HookEvent} {commandId : String}

theorem stopRun_spec {routineId runId : String}
    (h : stopRun host gateway routineId runId commandId cause outside = .ok after) :
    Transacted gateway after ∧ after.hooks = gateway.hooks := by
  unfold stopRun at h
  split at h
  · cases h
  · split at h
    · cases h
    · split at h
      · rw [← Except.ok.inj h]
        exact ⟨Transacted.refl gateway, rfl⟩
      · split at h
        · obtain ⟨stops, -, h⟩ := bind_ok h
          rw [← Except.ok.inj h]
          exact ⟨⟨rfl, rfl, rfl, rfl, rfl⟩, rfl⟩
        · cases h

/-- The statements of a routine action, which accept its row first if it takes effect. -/
theorem performRoutineAction_spec {routineId : String} {action : RoutineAction}
    {result : CommandResult}
    (h : performRoutineAction host gateway routineId cause commandId outside action =
      .ok (result, after)) :
    Transacted gateway after ∧ ∃ rest, Replays host.digest gateway.hooks
      ((if result = .unchanged then []
        else acceptStatements (cause.map fun _ => commandId)) ++ rest) after.hooks := by
  unfold performRoutineAction at h
  split at h
  · obtain ⟨started, hstarted, h⟩ := bind_ok h
    unfold startRun at hstarted
    obtain ⟨begun, hbegun, hstarted⟩ := bind_ok hstarted
    obtain ⟨rest, hrest⟩ := beginRun_replays (mapError_ok hbegun)
    have hresult := Except.ok.inj h
    rw [← Except.ok.inj hstarted] at hresult
    obtain ⟨hkind, hafter⟩ := Prod.mk.inj hresult
    rw [← hafter, ← hkind]
    refine ⟨Transacted.database gateway begun.2, rest, ?_⟩
    have hsame : (begun.1.result = .unchanged) = (begun.1 = .alreadyRecorded) := by
      cases begun.1 with
      | started | alreadyRecorded | skipped => simp [BeginRun.result]
    simp only [hsame]
    exact hrest
  · obtain ⟨stopped, hstopped, h⟩ := bind_ok h
    obtain ⟨hkind, hafter⟩ := Prod.mk.inj (Except.ok.inj h)
    obtain ⟨htransacted, hhooks⟩ := stopRun_spec hstopped
    rw [← hafter, ← hkind]
    exact ⟨htransacted, [], by rw [hhooks]; exact .nil _⟩
  · obtain ⟨store, hstore, h⟩ := bind_ok h
    obtain ⟨hkind, hafter⟩ := Prod.mk.inj (Except.ok.inj h)
    rw [← hafter, ← hkind]
    exact ⟨Transacted.store gateway store, setRoutineEnabled_replays (mapError_ok hstore)⟩
  · obtain ⟨store, hstore, h⟩ := bind_ok h
    obtain ⟨hkind, hafter⟩ := Prod.mk.inj (Except.ok.inj h)
    rw [← hafter, ← hkind]
    exact ⟨Transacted.store gateway store, setRoutineEnabled_replays (mapError_ok hstore)⟩
  · split at h
    · cases h
    · obtain ⟨store, hstore, h⟩ := bind_ok h
      obtain ⟨hkind, hafter⟩ := Prod.mk.inj (Except.ok.inj h)
      rw [← hafter, ← hkind]
      exact ⟨Transacted.store gateway store, updateRoutine_replays (mapError_ok hstore)⟩
  · obtain ⟨store, hstore, h⟩ := bind_ok h
    obtain ⟨hkind, hafter⟩ := Prod.mk.inj (Except.ok.inj h)
    rw [← hafter, ← hkind]
    exact ⟨Transacted.store gateway store, deleteRoutine_replays (mapError_ok hstore)⟩

/-- The statements of a routine command; one of a row takes effect only while the row is pending,
and accepts it first. -/
theorem executeRoutineCommand_spec {command : RoutineCommand} {owner : Option String}
    {result : CommandResult}
    (h : executeRoutineCommand host gateway command owner cause commandId outside =
      .ok (result, after)) :
    Transacted gateway after ∧ (∃ rest, Replays host.digest gateway.hooks
      ((if result = .unchanged then []
        else acceptStatements (cause.map fun _ => commandId)) ++ rest) after.hooks) ∧
      (result ≠ .unchanged → cause.isSome = true →
        actionPending gateway.hooks commandId = true) := by
  unfold executeRoutineCommand at h
  split at h
  · rename_i hpending
    obtain ⟨⟨⟩, -, h⟩ := bind_ok h
    obtain ⟨htransacted, hreplays⟩ := performRoutineAction_spec h
    refine ⟨htransacted, hreplays, ?_⟩
    intro _ hcause
    unfold commandPending at hpending
    rw [Bool.or_eq_true_iff] at hpending
    cases hpending with
    | inl hnone =>
      rw [Option.isNone_iff_eq_none] at hnone
      rw [hnone] at hcause
      cases hcause
    | inr hrow => exact hrow
  · obtain ⟨hkind, hafter⟩ := Prod.mk.inj (Except.ok.inj h)
    rw [← hafter, ← hkind]
    exact ⟨Transacted.refl gateway, ⟨[], .nil _⟩, fun hchanged => absurd rfl hchanged⟩

theorem waiting_pos {tables : HookTables} {id : String} (h : actionPending tables id = true) :
    1 ≤ waiting tables id := by
  unfold actionPending at h
  obtain ⟨row, hrow, hpending⟩ := List.any_eq_true.mp h
  refine List.countP_pos_iff.mpr ⟨row, hrow, ?_⟩
  rw [Bool.and_eq_true_iff] at hpending
  exact hpending.1

end Commands

section Gateways

variable {host : Host} {gateway after : Gateway} {statements : List HookStatement}

def effectOf (row : OutboxRow) : Effect → Prop
  | .message sessionId submissionId => row.id = submissionId ∧ messageTarget row = some sessionId
  | .command commandId => row.id = commandId ∧ ∃ command, row.action = .routine command

/-- What is known after statements: what waits and what took effect was created by them. -/
structure Delivered (host : Host) (gateway : Gateway) (statements : List HookStatement) :
    Prop where
  replayed : replay host.digest {} statements = .ok gateway.hooks
  /-- The commands of a row and its chances are as many as its creations. -/
  commands : ∀ id, gateway.effects.count (.command id) + waiting gateway.hooks id ≤
    rowsWith id (createdRows host.digest {} statements)
  tasks : ∀ task ∈ gateway.tasks,
    (∃ created ∈ createdRows host.digest {} statements, SameRow task.row created) ∧
      ∀ sessionId, task.stage = .delivering sessionId → messageTarget task.row = some sessionId
  effects : ∀ effect ∈ gateway.effects,
    ∃ created ∈ createdRows host.digest {} statements, effectOf created effect
  messages : ∀ sessionId id, gateway.effects.count (.message sessionId id) ≤ 1
  receipts : ∀ sessionId id, .message sessionId id ∈ gateway.effects →
    (sessionId ∈ gateway.sessions ∧ (sessionId, id) ∈ gateway.receipts) ∨
      (sessionId ∈ gateway.deleted ∧ sessionId ∉ gateway.sessions)

theorem Delivered.transact (h : Delivered host gateway statements)
    (htransacted : Transacted gateway after) {more : List HookStatement}
    (hreplay : replay host.digest gateway.hooks more = .ok after.hooks) :
    Delivered host after (statements ++ more) := by
  have hcreated := createdRows_append h.replayed more
  refine ⟨replay_append h.replayed hreplay, ?_, ?_, ?_, ?_, ?_⟩
  · intro id
    have hbefore := h.commands id
    have hwaiting := replay_waiting hreplay id
    unfold rowsWith at *
    rw [htransacted.effects, hcreated, List.countP_append]
    omega
  · intro task htask
    rw [htransacted.tasks] at htask
    obtain ⟨⟨created, hmem, hsame⟩, hstage⟩ := h.tasks task htask
    rw [hcreated]
    exact ⟨⟨created, List.mem_append_left _ hmem, hsame⟩, hstage⟩
  · intro effect heffect
    rw [htransacted.effects] at heffect
    obtain ⟨created, hmem, hof⟩ := h.effects effect heffect
    rw [hcreated]
    exact ⟨created, List.mem_append_left _ hmem, hof⟩
  · intro sessionId id
    rw [htransacted.effects]
    exact h.messages sessionId id
  · intro sessionId id hmessage
    rw [htransacted.effects] at hmessage
    rw [htransacted.sessions, htransacted.receipts, htransacted.deleted]
    exact h.receipts sessionId id hmessage

/-- What is known after a step that makes some more statements. -/
def Extends (host : Host) (gateway after : Gateway) (statements : List HookStatement) : Prop :=
  ∃ own, Replays host.digest gateway.hooks own after.hooks ∧ Delivered host after (statements ++ own)

theorem Delivered.extends (h : Delivered host after statements)
    (hhooks : after.hooks = gateway.hooks) : Extends host gateway after statements := by
  refine ⟨[], ?_, by rwa [List.append_nil]⟩
  rw [hhooks]
  exact .nil _

theorem Delivered.commit (h : Delivered host gateway statements) {α ε : Type}
    {change : α → Gateway} {result : Except ε α}
    (hchange : ∀ value, result = .ok value → Transacted gateway (change value) ∧
      ∃ own, Replays host.digest gateway.hooks own (change value).hooks) :
    Extends host gateway (committed gateway change result) statements := by
  cases hresult : result with
  | error error => exact h.extends rfl
  | ok value =>
    obtain ⟨htransacted, own, hown⟩ := hchange value hresult
    exact ⟨own, hown, h.transact htransacted hown.replayed⟩

variable {task : Task} {index : Nat} {row : OutboxRow} {sessionId : SessionId}

theorem Delivered.staged (h : Delivered host gateway statements)
    (htask : gateway.tasks[index]? = some task) (stage : Stage)
    (hstage : ∀ sessionId, stage = .delivering sessionId → messageTarget task.row = some sessionId) :
    Delivered host (gateway.setStage index task stage) statements := by
  refine ⟨h.replayed, h.commands, ?_, h.effects, h.messages, h.receipts⟩
  intro other hother
  rcases List.mem_or_eq_of_mem_set hother with hold | rfl
  · exact h.tasks other hold
  · exact ⟨(h.tasks task (List.mem_of_getElem? htask)).1, hstage⟩

theorem Delivered.rows (h : Delivered host gateway statements) (hrow : row ∈ gateway.hooks.outbox) :
    ∃ created ∈ createdRows host.digest {} statements, SameRow row created := by
  rcases replay_rows h.replayed row hrow with ⟨old, hold, -⟩ | hcreated
  · cases hold
  · exact hcreated

theorem Delivered.fetch (h : Delivered host gateway statements) (now : Int) :
    Delivered host { gateway with tasks := gateway.tasks ++ fetchTasks gateway.hooks now }
      statements := by
  refine ⟨h.replayed, h.commands, ?_, h.effects, h.messages, h.receipts⟩
  intro task htask
  rcases List.mem_append.mp htask with hold | hnew
  · exact h.tasks task hold
  · obtain ⟨row, hrow, htask⟩ := List.mem_filterMap.mp hnew
    obtain ⟨event, -, rfl⟩ := Option.map_eq_some_iff.mp htask
    refine ⟨h.rows (List.mem_filter.mp hrow).1, ?_⟩
    intro sessionId hstage
    cases hstage

theorem Delivered.addCommand (h : Delivered host gateway statements)
    (hrow : row ∈ createdRows host.digest {} statements)
    (haction : ∃ command, row.action = .routine command)
    (hchance : gateway.effects.count (.command row.id) + waiting gateway.hooks row.id <
      rowsWith row.id (createdRows host.digest {} statements)) :
    Delivered host { gateway with effects := gateway.effects ++ [.command row.id] }
      statements := by
  refine ⟨h.replayed, ?_, h.tasks, ?_, ?_, ?_⟩
  · intro id
    show (gateway.effects ++ [Effect.command row.id]).count _ + waiting gateway.hooks id ≤ _
    rw [List.count_append]
    by_cases hid : id = row.id
    · rw [hid, List.count_singleton_self]
      omega
    · have hother : ([Effect.command row.id]).count (.command id) = 0 :=
        List.count_eq_zero.mpr fun hmem => hid (Effect.command.inj (List.mem_singleton.mp hmem))
      rw [hother]
      exact h.commands id
  · intro effect heffect
    rcases List.mem_append.mp heffect with hold | hnew
    · exact h.effects effect hold
    · rw [List.mem_singleton.mp hnew]
      exact ⟨row, hrow, rfl, haction⟩
  · intro sessionId id
    show (gateway.effects ++ [Effect.command row.id]).count _ ≤ 1
    have hother : ([Effect.command row.id]).count (.message sessionId id) = 0 := by
      refine List.count_eq_zero.mpr ?_
      intro hmem
      cases List.mem_singleton.mp hmem
    rw [List.count_append, hother]
    exact h.messages sessionId id
  · intro sessionId id hmessage
    rcases List.mem_append.mp hmessage with hold | hnew
    · exact h.receipts sessionId id hold
    · cases List.mem_singleton.mp hnew

theorem Delivered.chance (h : Delivered host gateway statements) {id : String}
    (hpending : actionPending gateway.hooks id = true) {rest : List HookStatement}
    (hrest : replay host.digest gateway.hooks (.accept id :: rest) = .ok after.hooks)
    (heffects : after.effects = gateway.effects) :
    after.effects.count (.command id) + waiting after.hooks id <
      rowsWith id (createdRows host.digest {} (statements ++ .accept id :: rest)) := by
  obtain ⟨middle, haccept, hremaining⟩ := bind_ok hrest
  have hbefore := h.commands id
  have hpos := waiting_pos hpending
  have hwaiting := replay_waiting hremaining id
  rw [← Except.ok.inj haccept, waiting_accept] at hwaiting
  rw [createdRows_append h.replayed, createdRows_cons haccept, heffects,
    ← Except.ok.inj haccept]
  unfold rowsWith at *
  rw [List.countP_append, List.countP_append]
  omega

theorem Delivered.command (h : Delivered host gateway statements)
    (htask : gateway.tasks[index]? = some task) {command : RoutineCommand}
    (haction : task.row.action = .routine command) {outside : Outside host}
    {result : CommandResult}
    (hresult : executeRoutineCommand host gateway command (some task.row.botId) (some task.event)
      task.row.id outside = .ok (result, after)) :
    Extends host gateway { after.setStage index task (commandStage result command.routineId) with
      effects := after.effects ++ commandEffects result task.row.id } statements := by
  obtain ⟨htransacted, ⟨rest, hrest⟩, hpending⟩ := executeRoutineCommand_spec hresult
  have hafter := h.transact htransacted hrest.replayed
  have htaskAfter : after.tasks[index]? = some task := by
    rw [htransacted.tasks]
    exact htask
  have hstage : ∀ sessionId, commandStage result command.routineId = .delivering sessionId →
      messageTarget task.row = some sessionId := by
    intro sessionId hstage
    cases result with
    | unchanged | changed | overlapped => cases hstage
  have hstaged := hafter.staged htaskAfter _ hstage
  by_cases hunchanged : result = .unchanged
  · have heffects : after.effects ++ commandEffects result task.row.id = after.effects := by
      rw [hunchanged]
      exact List.append_nil _
    rw [heffects]
    exact ⟨_, hrest, hstaged⟩
  · have heffects : commandEffects result task.row.id = [.command task.row.id] := by
      cases result with
      | unchanged => exact absurd rfl hunchanged
      | changed | overlapped => rfl
    rw [if_neg hunchanged] at hrest hstaged
    obtain ⟨created, hcreated, hsame⟩ := (h.tasks task (List.mem_of_getElem? htask)).1
    have hchance := h.chance (hpending hunchanged rfl) hrest.replayed htransacted.effects
    rw [heffects, hsame.id]
    rw [hsame.id] at hchance
    refine ⟨_, hrest, hstaged.addCommand ?_ ⟨command, hsame.action.symm.trans haction⟩ ?_⟩
    · rw [createdRows_append h.replayed]
      exact List.mem_append_left _ hcreated
    · rw [hsame.id]
      exact hchance

theorem Delivered.addMessage (h : Delivered host gateway statements)
    (hrow : row ∈ createdRows host.digest {} statements)
    (htarget : messageTarget row = some sessionId) (hsession : sessionId ∈ gateway.sessions)
    (hreceipt : (sessionId, row.id) ∉ gateway.receipts) :
    Delivered host { gateway with
      receipts := gateway.receipts ++ [(sessionId, row.id)]
      effects := gateway.effects ++ [.message sessionId row.id] } statements := by
  have hnew : Effect.message sessionId row.id ∉ gateway.effects := by
    intro hmem
    rcases h.receipts sessionId row.id hmem with ⟨-, hold⟩ | ⟨-, hgone⟩
    · exact hreceipt hold
    · exact hgone hsession
  refine ⟨h.replayed, ?_, h.tasks, ?_, ?_, ?_⟩
  · intro id
    have hother : ([Effect.message sessionId row.id]).count (.command id) = 0 := by
      refine List.count_eq_zero.mpr ?_
      intro hmem
      cases List.mem_singleton.mp hmem
    show (gateway.effects ++ [Effect.message sessionId row.id]).count _ + _ ≤ _
    rw [List.count_append, hother]
    exact h.commands id
  · intro effect heffect
    rcases List.mem_append.mp heffect with hold | hmem
    · exact h.effects effect hold
    · rw [List.mem_singleton.mp hmem]
      exact ⟨row, hrow, rfl, htarget⟩
  · intro session id
    show (gateway.effects ++ [Effect.message sessionId row.id]).count _ ≤ 1
    rw [List.count_append]
    by_cases heq : Effect.message session id = .message sessionId row.id
    · rw [heq, List.count_eq_zero.mpr hnew, List.count_singleton_self]
    · have hother : ([Effect.message sessionId row.id]).count (.message session id) = 0 :=
        List.count_eq_zero.mpr fun hmem => heq (List.mem_singleton.mp hmem)
      rw [hother]
      exact h.messages session id
  · intro session id hmessage
    rcases List.mem_append.mp hmessage with hold | hmem
    · rcases h.receipts session id hold with ⟨hlive, hkept⟩ | hgone
      · exact .inl ⟨hlive, List.mem_append_left _ hkept⟩
      · exact .inr hgone
    · injection List.mem_singleton.mp hmem with hsessionEq hidEq
      rw [hsessionEq, hidEq]
      exact .inl ⟨hsession, List.mem_append_right _ (List.mem_singleton.mpr rfl)⟩

theorem deliver_hooks (gateway : Gateway) (sessionId : SessionId) (submissionId : String)
    (admitted : Bool) :
    (deliver gateway sessionId submissionId admitted).hooks = gateway.hooks := by
  unfold HookDispatch.deliver
  split
  · rfl
  · rfl

theorem Delivered.deliver (h : Delivered host gateway statements) (htask : task ∈ gateway.tasks)
    (htarget : messageTarget task.row = some sessionId) (admitted : Bool) :
    Delivered host (deliver gateway sessionId task.row.id admitted) statements := by
  unfold HookDispatch.deliver
  split
  · rename_i hadmitted
    obtain ⟨created, hcreated, hsame⟩ := (h.tasks task htask).1
    have hcreatedTarget : messageTarget created = some sessionId := by
      rw [← htarget]
      unfold messageTarget
      rw [hsame.action, hsame.botId]
    rw [hsame.id] at hadmitted ⊢
    exact h.addMessage hcreated hcreatedTarget hadmitted.2.1 hadmitted.2.2
  · exact h

theorem Delivered.execute (h : Delivered host gateway statements)
    (htask : gateway.tasks[index]? = some task) (rejection : Option Rejection)
    (outside : Outside host) :
    Extends host gateway (executeTask host gateway index task rejection outside) statements := by
  have hended : ∀ result, Delivered host (gateway.setStage index task (.ended result))
      statements := by
    intro result
    refine h.staged htask _ ?_
    intro sessionId hstage
    cases hstage
  unfold executeTask
  split
  · exact (hended _).extends rfl
  · rename_i command haction
    split
    · exact (hended _).extends rfl
    · rename_i result after hresult
      exact h.command htask haction hresult
  · split
    · exact (hended _).extends rfl
    · rename_i sessionId htarget
      split
      · refine (h.staged htask _ ?_).extends rfl
        intro other hstage
        cases hstage
        exact htarget
      · exact (hended _).extends rfl

theorem Delivered.finish (h : Delivered host gateway statements) (index : Nat) (task : Task)
    (now : Int) : Extends host gateway (finishTask gateway index task now) statements := by
  have hrest : Delivered host { gateway with tasks := gateway.tasks.eraseIdx index }
      statements := by
    refine ⟨h.replayed, h.commands, ?_, h.effects, h.messages, h.receipts⟩
    intro other hother
    exact h.tasks other (List.mem_of_mem_eraseIdx hother)
  unfold finishTask
  dsimp only
  split
  · have haccept : Replays host.digest gateway.hooks [.accept task.row.id] _ :=
      .single rfl nofun
    exact ⟨_, haccept, hrest.transact (Transacted.database _ _) haccept.replayed⟩
  · rename_i rejection hstage
    have hfail : Replays host.digest gateway.hooks [.fail task.row.id rejection.message
        (if rejection.retry then some (now + 15) else none)] _ := .single rfl nofun
    exact ⟨_, hfail, hrest.transact (Transacted.database _ _) hfail.replayed⟩
  · exact h.extends rfl

theorem Delivered.resession (h : Delivered host gateway statements) {sessions : List SessionId}
    {receipts : List (SessionId × String)} {deleted : List SessionId}
    (hreceipts : ∀ sessionId id, .message sessionId id ∈ gateway.effects →
      (sessionId ∈ sessions ∧ (sessionId, id) ∈ receipts) ∨
        (sessionId ∈ deleted ∧ sessionId ∉ sessions)) :
    Delivered host { gateway with
      sessions := sessions
      receipts := receipts
      deleted := deleted } statements :=
  ⟨h.replayed, h.commands, h.tasks, h.effects, h.messages, hreceipts⟩

theorem Delivered.openSession (h : Delivered host gateway statements)
    (hnew : ¬ (sessionId ∈ gateway.sessions ∨ sessionId ∈ gateway.deleted)) :
    Delivered host { gateway with sessions := gateway.sessions ++ [sessionId] } statements := by
  refine h.resession ?_
  intro session id hmessage
  rcases h.receipts session id hmessage with ⟨hlive, hkept⟩ | ⟨hdeleted, hgone⟩
  · exact .inl ⟨List.mem_append_left _ hlive, hkept⟩
  · refine .inr ⟨hdeleted, ?_⟩
    intro hlive
    rcases List.mem_append.mp hlive with hold | hadded
    · exact hgone hold
    · rw [List.mem_singleton.mp hadded] at hdeleted
      exact hnew (.inr hdeleted)

theorem Delivered.deleteSession (h : Delivered host gateway statements) (sessionId : SessionId) :
    Delivered host { gateway with
      sessions := gateway.sessions.filter fun other => decide (other ≠ sessionId)
      receipts := gateway.receipts.filter fun receipt => decide (receipt.1 ≠ sessionId)
      deleted := gateway.deleted ++ [sessionId] } statements := by
  refine h.resession ?_
  intro session id hmessage
  by_cases hsame : session = sessionId
  · refine .inr ⟨List.mem_append_right _ (List.mem_singleton.mpr hsame), ?_⟩
    intro hlive
    exact of_decide_eq_true (List.mem_filter.mp hlive).2 hsame
  · rcases h.receipts session id hmessage with ⟨hlive, hkept⟩ | ⟨hdeleted, hgone⟩
    · exact .inl ⟨List.mem_filter.mpr ⟨hlive, decide_eq_true hsame⟩,
        List.mem_filter.mpr ⟨hkept, decide_eq_true hsame⟩⟩
    · exact .inr ⟨List.mem_append_left _ hdeleted,
        fun hlive => hgone (List.mem_filter.mp hlive).1⟩

theorem Delivered.userMessage (h : Delivered host gateway statements) (sessionId : SessionId)
    (submissionId : String) : Delivered host { gateway with
      receipts := gateway.receipts ++ [(sessionId, submissionId)] } statements := by
  refine h.resession ?_
  intro session id hmessage
  rcases h.receipts session id hmessage with ⟨hlive, hkept⟩ | hgone
  · exact .inl ⟨hlive, List.mem_append_left _ hkept⟩
  · exact .inr hgone

theorem Delivered.onTask (h : Delivered host gateway statements) {change : Task → Gateway}
    (hchange : ∀ task, gateway.tasks[index]? = some task →
      Extends host gateway (change task) statements) :
    Extends host gateway (onTask gateway index change) statements := by
  unfold HookDispatch.onTask
  split
  · exact h.extends rfl
  · rename_i task htask
    exact hchange task htask

/-- A step of one operation and its statements. Only the deletion of a Bot makes the statement
that removes events, and what is recorded is stored. -/
structure Makes (host : Host) (gateway : Gateway) (operation : GatewayOp host)
    (own : List HookStatement) : Prop where
  replayed : replay host.digest gateway.hooks own = .ok (operation.step host gateway).hooks
  deletes : ∀ botId, .deleteBot botId ∈ own → own = [.deleteBot botId] ∧
    ∃ revision routineIds instructions,
      operation = .deleteBot botId revision routineIds instructions
  records : ∀ event sequence, .record event sequence ∈ own →
    event ∈ (operation.step host gateway).hooks.events
  recorded : ∀ event ∈ (operation.step host gateway).hooks.events,
    event ∉ gateway.hooks.events → ∃ sequence, .record event sequence ∈ own

/-- The statements of every step of a run. -/
inductive Trace (host : Host) :
    Gateway → List (GatewayOp host) → List (List HookStatement) → Prop
  | nil (gateway : Gateway) : Trace host gateway [] []
  | cons {gateway : Gateway} {operation : GatewayOp host} {own : List HookStatement}
      {rest : List (GatewayOp host)} {lists : List (List HookStatement)} :
      Makes host gateway operation own → Trace host (operation.step host gateway) rest lists →
        Trace host gateway (operation :: rest) (own :: lists)

theorem Replays.makes {operation : GatewayOp host} {own : List HookStatement}
    (h : Replays host.digest gateway.hooks own (operation.step host gateway).hooks) :
    Makes host gateway operation own :=
  ⟨h.replayed, fun botId hmem => absurd hmem (h.bots botId), h.records, h.recorded⟩

theorem Extends.makes {operation : GatewayOp host}
    (h : Extends host gateway (operation.step host gateway) statements) :
    ∃ own, Makes host gateway operation own ∧
      Delivered host (operation.step host gateway) (statements ++ own) := by
  obtain ⟨own, hown, hdelivered⟩ := h
  exact ⟨own, hown.makes, hdelivered⟩

theorem Delivered.deleteBot (h : Delivered host gateway statements) (botId : String)
    (expectedRevision : Nat) (routineIds instructions : List String) :
    ∃ own, Makes host gateway (.deleteBot botId expectedRevision routineIds instructions) own ∧
      Delivered host ((GatewayOp.deleteBot botId expectedRevision routineIds instructions).step
        host gateway) (statements ++ own) := by
  cases hresult : HookDispatch.deleteBot host gateway.store botId expectedRevision routineIds
      instructions with
  | error error =>
    have hstep : (GatewayOp.deleteBot botId expectedRevision routineIds instructions).step host
        gateway = gateway := by
      simp only [GatewayOp.step, hresult, committed]
    refine Extends.makes ?_
    rw [hstep]
    exact h.extends rfl
  | ok store =>
    have hstep : (GatewayOp.deleteBot botId expectedRevision routineIds instructions).step host
        gateway = gateway.withStore store := by
      simp only [GatewayOp.step, hresult, committed]
    have hreplay : replay host.digest gateway.hooks [.deleteBot botId] =
        .ok (gateway.withStore store).hooks := deleteBot_replays hresult
    have hafter := h.transact (Transacted.store gateway store) hreplay
    rw [← hstep] at hreplay hafter
    refine ⟨[.deleteBot botId], ⟨hreplay, ?_, ?_, ?_⟩, hafter⟩
    · intro other hmem
      cases List.mem_singleton.mp hmem
      exact ⟨rfl, expectedRevision, routineIds, instructions, rfl⟩
    · intro event sequence hmem
      cases List.mem_singleton.mp hmem
    · intro event hevent hnew
      obtain ⟨between, hstatement, hrest⟩ := bind_ok hreplay
      rw [← Except.ok.inj hrest] at hevent
      rcases statement_recorded hstatement hevent with hold | ⟨sequence, hrecord⟩
      · exact absurd hold hnew
      · cases hrecord

/-- Every step of the gateway makes statements, after which the same is known. -/
theorem step_delivered (h : Delivered host gateway statements) (operation : GatewayOp host) :
    ∃ own, Makes host gateway operation own ∧
      Delivered host (operation.step host gateway) (statements ++ own) := by
  cases operation with
  | create botId definition workspace cause routineId fileId eventId now =>
    exact (h.commit fun store hstore =>
      ⟨Transacted.store gateway store, createRoutine_replays hstore⟩).makes
  | command sent commandId outside =>
    refine Extends.makes (h.commit ?_)
    rintro ⟨result, after⟩ hresult
    obtain ⟨htransacted, ⟨rest, hrest⟩, -⟩ := executeRoutineCommand_spec hresult
    exact ⟨htransacted, _, hrest⟩
  | poll now =>
    exact (h.commit fun polled hpolled =>
      ⟨Transacted.store gateway polled.2, pollDue_replays hpolled⟩).makes
  | subscribe botId binding enabled afterSequence now =>
    exact (h.commit fun database hdatabase =>
      ⟨Transacted.database gateway database, setSubscription_replays hdatabase⟩).makes
  | emit event =>
    exact (h.commit fun database hdatabase =>
      ⟨Transacted.database gateway database, recordHook_replays hdatabase⟩).makes
  | project event sequence =>
    exact (h.commit fun projected hprojected =>
      ⟨Transacted.database gateway _, projectSession_replays hprojected⟩).makes
  | advance sessionId botId sequence =>
    exact (h.commit fun hooks hhooks =>
      ⟨Transacted.database gateway _, advanceSourceCursor_replays hhooks⟩).makes
  | close events =>
    exact (h.commit fun database hdatabase =>
      ⟨Transacted.database gateway database, closeSessionSources_replays hdatabase⟩).makes
  | bots changed pending =>
    refine Extends.makes (h.commit fun database hdatabase =>
      ⟨Transacted.database gateway database, [], ?_⟩)
    show Replays host.digest gateway.hooks [] database.hooks
    rw [saveBots_hooks hdatabase]
    exact .nil _
  | deleteBot botId expectedRevision routineIds instructions =>
    exact h.deleteBot botId expectedRevision routineIds instructions
  | finishRun id status finishedAt text =>
    exact (h.commit fun database hdatabase =>
      ⟨Transacted.database gateway database, finishRun_replays hdatabase⟩).makes
  | deleteRun id =>
    refine Extends.makes (h.commit fun database hdatabase =>
      ⟨Transacted.database gateway database, [], ?_⟩)
    show Replays host.digest gateway.hooks [] database.hooks
    rw [deleteRun_hooks hdatabase]
    exact .nil _
  | openSession sessionId =>
    refine Extends.makes ?_
    simp only [GatewayOp.step]
    split
    · exact h.extends rfl
    · rename_i hnew
      exact (h.openSession hnew).extends rfl
  | deleteSession sessionId => exact ((h.deleteSession sessionId).extends rfl).makes
  | message sessionId submissionId =>
    refine Extends.makes ?_
    simp only [GatewayOp.step]
    split
    · exact (h.userMessage sessionId submissionId).extends rfl
    · exact h.extends rfl
  | fetch now => exact ((h.fetch now).extends rfl).makes
  | check index =>
    refine Extends.makes (h.onTask ?_)
    intro task htask
    split
    · exact h.extends rfl
    · refine (h.staged htask _ ?_).extends rfl
      intro sessionId hstage
      cases hstage
  | execute index rejection outside =>
    refine Extends.makes (h.onTask ?_)
    intro task htask
    split
    · exact h.execute htask rejection outside
    · exact h.extends rfl
  | deliver index admitted result =>
    refine Extends.makes (h.onTask ?_)
    intro task htask
    split
    · rename_i sessionId hstage
      have hmem := List.mem_of_getElem? htask
      have hdelivered := h.deliver hmem ((h.tasks task hmem).2 sessionId hstage) admitted
      refine (hdelivered.staged ?_ _ ?_).extends (deliver_hooks gateway sessionId _ admitted)
      · unfold HookDispatch.deliver
        split
        · exact htask
        · exact htask
      · intro other hended
        cases hended
    · exact h.extends rfl
  | finish index now =>
    exact Extends.makes (h.onTask fun task _ => h.finish index task now)
  | crash =>
    have hcrashed : Delivered host { gateway with tasks := [] } statements :=
      ⟨h.replayed, h.commands, List.forall_mem_nil _, h.effects, h.messages, h.receipts⟩
    exact (hcrashed.extends rfl).makes

theorem run_delivered (h : Delivered host gateway statements) (operations : List (GatewayOp host)) :
    ∃ lists, Trace host gateway operations lists ∧
      Delivered host (runGateway host gateway operations) (statements ++ lists.flatten) := by
  induction operations generalizing gateway statements with
  | nil =>
    refine ⟨[], .nil gateway, ?_⟩
    rw [List.flatten_nil, List.append_nil]
    exact h
  | cons operation rest ih =>
    obtain ⟨own, hown, hstep⟩ := step_delivered h operation
    obtain ⟨lists, htrace, hrun⟩ := ih hstep
    refine ⟨own :: lists, .cons hown htrace, ?_⟩
    rw [List.flatten_cons, ← List.append_assoc]
    exact hrun

theorem Trace.replayed {operations : List (GatewayOp host)} {lists : List (List HookStatement)}
    (h : Trace host gateway operations lists) : replay host.digest gateway.hooks lists.flatten =
      .ok (runGateway host gateway operations).hooks := by
  induction h with
  | nil gateway => rfl
  | cons hown _ ih => exact replay_append hown.replayed ih

/-- A gateway without events, bindings and tasks. -/
structure Fresh (gateway : Gateway) : Prop where
  hooks : gateway.hooks = {}
  tasks : gateway.tasks = []
  effects : gateway.effects = []

theorem Fresh.delivered (h : Fresh gateway) : Delivered host gateway [] := by
  refine ⟨?_, ?_, ?_, ?_, ?_, ?_⟩
  · rw [h.hooks]
    rfl
  · intro id
    rw [h.effects, h.hooks]
    exact le_of_eq rfl
  · rw [h.tasks]
    exact List.forall_mem_nil _
  · rw [h.effects]
    exact List.forall_mem_nil _
  · intro sessionId id
    rw [h.effects]
    exact Nat.zero_le 1
  · intro sessionId id hmessage
    rw [h.effects] at hmessage
    cases hmessage

end Gateways

section Samples

open RoutineRuns

/-- A gateway with one Bot and its conversation. -/
def helperGateway : Gateway where
  store := helperStore
  sessions := [conversationSessionId helper.id]

theorem helperGateway_fresh : Fresh helperGateway := ⟨rfl, rfl, rfl⟩

/-- What no section asks for. -/
def aside : Outside plainHost where
  rejection := none
  workspace := work
  lockFree := true
  fileId := minted 3
  eventId := minted 4
  runId := minted 5
  sessionId := "session"
  turnActive := false
  now := 20

/-- A turn starts in a session of the Bot. -/
def turnStarted (sequence : Nat) (ancestry : List String) : HookEvent where
  id := "session-chat-" ++ toString sequence
  source := .session "chat"
  causeId := ancestry.getLast?
  ancestry := ancestry
  botId := helper.id
  occurredAt := 10
  data := .sessionTurnStarted "chat" "turn"

/-- The Bot subscribes to the turns of the session. -/
def following : GatewayOp plainHost :=
  .subscribe helper.id ⟨"turns", .event (.session "chat") .sessionTurnStarted none none none,
    .report "Summarise"⟩ true 0 5

end Samples

end MobiusAgent.HookDelivery
