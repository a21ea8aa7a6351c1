import MobiusAgent.HookDelivery

/-!
# The invocations of routines

The runs of a routine in `bots.rs` and `bots/storage.rs`, while the gateway
begins, stops, finishes and deletes them, and while it starts again after a
crash. A command that starts a routine leaves its receipt with the run, the run
holds the lock of its routine until it finishes or its holder lets go of it,
and `recover_routine_outcomes` finishes or resumes what the last process left. The observer of a process
writes down every command that got a run and every status a run was given.
-/

namespace MobiusAgent.RoutineInvocations

open JsonValue ProtocolEvents CheckpointRecords CheckpointValidation HookRecords
open RoutineSchedules HookStore RoutineCatalog HookDispatch

section Processes

variable (host : Host)

/-- A process of the gateway, and what was observed so far. -/
structure Process where
  gateway : Gateway := {}
  /-- The active runs with their routines, whose locks they hold. -/
  active : List (String × String) := []
  /-- The start of the gateway is over. -/
  serving : Bool := false
  /-- The runs whose holder let go of them before they were finished. -/
  lost : List String := []
  /-- The commands that got a run, with the run. -/
  created : List (String × String) := []
  /-- The runs with the statuses they were given. -/
  trace : List (String × RoutineRunStatus) := []

def Process.database (process : Process) : BotDatabase := process.gateway.store.database

/-- Statuses that runs were given between two databases. -/
def statusChanges (before after : BotDatabase) : List (String × RoutineRunStatus) :=
  after.runs.filterMap fun run =>
    if before.runs.any fun other => decide (other.id = run.id) && decide (other.status = run.status)
    then none else some (run.id, run.status)

/-- Commands that got a run between two databases. -/
def newCommands (before after : BotDatabase) : List (String × String) :=
  after.commands.filterMap fun row =>
    if before.commands.any fun other => decide (other.runId = row.runId) then none
    else some (row.commandId, row.runId)

/-- Runs that began between two databases. -/
def newActive (before after : BotDatabase) : List (String × String) :=
  after.runs.filterMap fun run =>
    if run.status = .running ∧ (before.runs.any fun other => decide (other.id = run.id)) = false
    then some (run.id, run.routineId) else none

/-- The process with another gateway, as its observer sees it. -/
def Process.observe (process : Process) (gateway : Gateway) : Process :=
  { process with
    gateway := gateway
    created := process.created ++ newCommands process.database gateway.store.database
    trace := process.trace ++ statusChanges process.database gateway.store.database }

def startedRoutine (gateway : Gateway) : GatewayOp host → Option String
  | .command ⟨routineId, .start⟩ _ _ => some routineId
  | .execute index none _ => match gateway.tasks[index]? with
    | some ⟨row, _, .fetched⟩ => match row.action with
      | .routine ⟨routineId, .start⟩ => some routineId
      | _ => none
    | _ => none
  | _ => none

/-- The lock of a routine is free when no active run holds it. -/
def Process.isFree (process : Process) (routineId : String) : Bool :=
  !process.active.any fun run => decide (run.2 = routineId)

/-- What a routine command learns of the lock. -/
def Outside.guard {host : Host} (outside : Outside host) (free : Bool) : Outside host :=
  { outside with lockFree := outside.lockFree && free }

/-- A step of the gateway under the locks of the process. -/
def guardLock (free : Bool) : GatewayOp host → GatewayOp host
  | .command command commandId outside =>
    .command command commandId (Outside.guard outside free)
  | .execute index rejection outside => .execute index rejection (Outside.guard outside free)
  | operation => operation

/-- Whether the process takes a step: runs are finished by their owner, and none starts before
the gateway serves. -/
def Process.takes (process : Process) : GatewayOp host → Bool
  | .finishRun .. => false
  | .crash => false
  | operation => process.serving || (startedRoutine host process.gateway operation).isNone

/-- A step of the gateway in a process. A run that begins keeps the lock. -/
def Process.gatewayStep (process : Process) (operation : GatewayOp host) : Process :=
  if process.takes host operation then
    let free := (startedRoutine host process.gateway operation).all process.isFree
    let after := GatewayOp.step host process.gateway (guardLock host free operation)
    { process.observe after with
      active := process.active ++ newActive process.database after.store.database }
  else process

/-- An active run is dropped and its lock released, while its row stays as it is: the session of
the run ends while an approval waits, or does not come up. -/
def Process.release (process : Process) (id : String) : Process :=
  if process.active.any fun run => decide (run.1 = id) then
    { process with
      active := process.active.filter fun run => decide (run.1 ≠ id)
      lost := process.lost ++ [id] }
  else process

/-- `BotStore::finish_run` of an active run, which releases its lock in any case. -/
def Process.finish (process : Process) (id : String) (status : RoutineRunStatus)
    (finishedAt : Int) (message : Option String) : Process :=
  if process.active.any fun run => decide (run.1 = id) then
    match finishRun host process.database process.gateway.stops id status finishedAt message with
    | .ok database =>
      let released := { process with
        active := process.active.filter fun run => decide (run.1 ≠ id) }
      released.observe (process.gateway.withDatabase database)
    | .error _ => process.release id
  else process

/-- `BotStore::resume_run`. -/
def Process.resume (process : Process) (id : String) : Except Error Process :=
  match process.database.runs.find? (·.id = id) with
  | none => .error (.config ("unknown routine run `" ++ id ++ "`"))
  | some run =>
    if run.status ≠ .running then .error (.config "only running routines can resume")
    else if process.isFree run.routineId then
      if run.sessionId.isSome then
        .ok { process with
          active := process.active ++ [(run.id, run.routineId)]
          lost := process.lost.filter fun other => decide (other ≠ run.id) }
      else .error (.config "running routine has no session")
    else .error (.config "routine is already resident")

/-- What the checkpoint store tells of a run that the last process left. -/
inductive Recovery where
  /-- Its session waits for an approval, so it is opened again. -/
  | undecided
  /-- Its session cannot be opened. -/
  | unopened
  | outcome (status : RoutineRunStatus) (finishedAt : Int) (message : Option String)

def Process.recoverRun (process : Process) (run : RoutineRun) : Recovery → Except Error Process
  | .undecided => process.resume run.id
  | .unopened => .error (.config "session cannot be opened")
  | .outcome status finishedAt message => do
    let database ← finishRun host process.database process.gateway.stops run.id status finishedAt
      message
    return process.observe (process.gateway.withDatabase database)

/-- The loop of `recover_routine_outcomes`; an error ends it and keeps what was recovered. -/
def Process.recoverRuns (outcome : RoutineRun → Recovery) :
    Process → List RoutineRun → Process × Bool
  | process, [] => (process, true)
  | process, run :: rest =>
    if run.sessionId.isNone then recoverRuns outcome process rest
    else match process.recoverRun host run (outcome run) with
      | .error _ => (process, false)
      | .ok recovered => recoverRuns outcome recovered rest

/-- The start of a process: it serves when the runs of the last one were recovered. -/
def Process.start (process : Process) (outcome : RoutineRun → Recovery) : Process :=
  if process.serving then process
  else
    let recovered := process.recoverRuns host outcome
      (process.database.runs.filter fun run => decide (run.status = .running))
    if recovered.2 then { recovered.1 with serving := true, lost := [] } else recovered.1

/-- The process is gone, and its locks with it. -/
def Process.crash (process : Process) : Process :=
  { process with
    gateway := GatewayOp.step host process.gateway .crash
    active := []
    serving := false }

inductive ProcessOp where
  | gateway (operation : GatewayOp host)
  | finish (id : String) (status : RoutineRunStatus) (finishedAt : Int) (message : Option String)
  /-- The holder of an active run lets go of it. -/
  | release (id : String)
  /-- A session with a running run is opened. -/
  | resume (id : String)
  | start (outcome : RoutineRun → Recovery)
  | crash

def ProcessOp.step (process : Process) : ProcessOp host → Process
  | .gateway operation => process.gatewayStep host operation
  | .finish id status finishedAt message => process.finish host id status finishedAt message
  | .release id => process.release id
  | .resume id => match process.resume id with
    | .ok resumed => resumed
    | .error _ => process
  | .start outcome => process.start host outcome
  | .crash => process.crash host

def runProcess (process : Process) (operations : List (ProcessOp host)) : Process :=
  operations.foldl (ProcessOp.step host) process

/-- The identifier that a step mints for a run. -/
def mintedRun : ProcessOp host → Option String
  | .gateway (.command _ _ outside) => some outside.runId.1
  | .gateway (.execute _ _ outside) => some outside.runId.1
  | _ => none

end Processes

section Changes

variable {host : Host} {before after : BotDatabase}

def runEventId (id : String) (status : RoutineRunStatus) : String :=
  "run-" ++ id ++ "-" ++ status.text

/-- The event of a run is in the tables. -/
def Announced (database : BotDatabase) (run : RoutineRun) : Prop :=
  ∃ event ∈ database.hooks.events, event.id = runEventId run.id run.status ∧
    event.data = runData run

/-- All that a step can do to the runs, where a start asks for a routine. -/
inductive RunChange (before : BotDatabase) (start : Option (String × Outside host)) :
    BotDatabase → Prop where
  | same (after : BotDatabase) : after.runs = before.runs → after.commands = before.commands →
      RunChange before start after
  | begun (after : BotDatabase) (run : RoutineRun) (outside : Outside host) (commandId : String)
      (cause : Option HookEvent) : start = some (run.routineId, outside) →
      run.id = outside.runId.1 → run.status = (if outside.lockFree then .running else .skipped) →
      (run.status = .running → run.sessionId.isSome = true) →
      run.id ∉ before.runs.map (·.id) → commandId ∉ before.commands.map (·.commandId) →
      after.runs = before.runs ++ [run] →
      after.commands = before.commands ++ [⟨commandId, run.id, cause⟩] → Announced after run →
      RunChange before start after
  | finished (after : BotDatabase) (run next : RoutineRun) : run ∈ before.runs →
      run.status = .running → next.id = run.id → next.routineId = run.routineId →
      next.status ≠ .running →
      after.runs = (before.runs.map fun other => if other.id = run.id then next else other) →
      after.commands = before.commands → Announced after next → RunChange before start after
  /-- Runs are removed with their receipts. -/
  | removed (after : BotDatabase) (gone : RoutineRun → Bool) :
      after.runs = (removeRuns before gone).runs →
      after.commands = (removeRuns before gone).commands → RunChange before start after

def startRequest (host : Host) (gateway : Gateway) (operation : GatewayOp host) :
    Option (String × Outside host) :=
  match startedRoutine host gateway operation, operation with
  | some routineId, .command _ _ outside => some (routineId, outside)
  | some routineId, .execute _ _ outside => some (routineId, outside)
  | _, _ => none

theorem recordEvent_stored {tables recorded : HookTables} {event : HookEvent}
    {sequence : Option Nat} {isNew : Bool}
    (h : recordEvent host.digest tables event sequence = .ok (isNew, recorded)) :
    event ∈ recorded.events := by
  obtain ⟨-, hcases⟩ := HookTransactions.recordEvent_cases h
  cases hcases with
  | inl hknown =>
    obtain ⟨-, hsame, hfound⟩ := hknown
    rw [hsame]
    exact List.mem_of_find?_eq_some hfound
  | inr hnew =>
    rw [hnew.2.2]
    exact List.mem_append_right _ (List.mem_singleton_self event)

variable {stops : List StopRequest} {cause : Option HookEvent} {commandId id : String}
  {outside : Outside host} {accepted : Option String} {now : Int} {eventId : Uuid host}
  {store : BotStore} {gateway : Gateway} {command : RoutineCommand} {index : Nat}

theorem recordRun_announces {tables recorded : HookTables} {commands : List CommandRow}
    {run : RoutineRun} (h : recordRun host tables stops commands run = .ok recorded) :
    ∃ event ∈ recorded.events, event.id = runEventId run.id run.status ∧
      event.data = runData run := by
  unfold recordRun at h
  obtain ⟨event, hevent, h⟩ := bind_ok h
  obtain ⟨⟨isNew, tables'⟩, hrecorded, h⟩ := bind_ok h
  rw [← Except.ok.inj h]
  unfold causedEvent at hevent
  obtain ⟨⟨⟩, -, hevent⟩ := bind_ok hevent
  have hstored := recordEvent_stored hrecorded
  rw [← Except.ok.inj hevent] at hstored
  exact ⟨_, hstored, rfl, rfl⟩

theorem insertRunWithCause_change {run : RoutineRun}
    (h : insertRunWithCause host before stops run commandId cause = .ok after) :
    run.id ∉ before.runs.map (·.id) ∧ commandId ∉ before.commands.map (·.commandId) ∧
      after.runs = before.runs ++ [run] ∧
      after.commands = before.commands ++ [⟨commandId, run.id, cause⟩] ∧
      Announced after run := by
  unfold insertRunWithCause at h
  obtain ⟨⟨⟩, hrun, h⟩ := bind_ok h
  obtain ⟨⟨⟩, hcommand, h⟩ := bind_ok h
  obtain ⟨recorded, hrecorded, h⟩ := bind_ok h
  have hannounced := recordRun_announces hrecorded
  have hid := rejectIf_ok_iff.mp hrun
  have hreceipt := rejectIf_ok_iff.mp hcommand
  rw [← Except.ok.inj h]
  refine ⟨?_, ?_, rfl, rfl, hannounced⟩
  · intro hmem
    obtain ⟨other, hother, hsame⟩ := List.mem_map.mp hmem
    have hany : (before.runs.any fun other => decide (other.id = run.id)) = true :=
      List.any_eq_true.mpr ⟨other, hother, decide_eq_true hsame⟩
    rw [hany] at hid
    cases hid
  · intro hmem
    obtain ⟨other, hother, hsame⟩ := List.mem_map.mp hmem
    have hany : (before.commands.any fun row => decide (row.commandId = commandId)) = true :=
      List.any_eq_true.mpr ⟨other, hother, decide_eq_true hsame⟩
    rw [hany] at hreceipt
    cases hreceipt

theorem storedRoutine_id {state : BotState} {routine : StoredRoutine}
    (h : storedRoutine state id = .ok routine) : routine.id = id := by
  unfold storedRoutine at h
  split at h
  · rename_i found hfound
    cases h
    simpa using List.find?_some hfound
  · cases h

theorem beginRun_change {result : BeginRun}
    (h : beginRun host before stops id commandId cause outside.lockFree outside.runId
      outside.sessionId outside.now = .ok (result, after)) :
    RunChange before (some (id, outside)) after := by
  unfold beginRun at h
  obtain ⟨state, -, h⟩ := bind_ok h
  obtain ⟨routine, hroutine, h⟩ := bind_ok h
  obtain ⟨⟨⟩, -, h⟩ := bind_ok h
  obtain ⟨found, -, h⟩ := bind_ok h
  have hid := storedRoutine_id hroutine
  cases found with
  | some run =>
    obtain ⟨⟨⟩, -, h⟩ := bind_ok h
    cases h
    exact .same _ rfl rfl
  | none =>
    simp only [reserveRun] at h
    obtain ⟨⟨⟩, -, h⟩ := bind_ok h
    cases hlock : outside.lockFree with
    | true =>
      simp only [hlock, if_true] at h
      obtain ⟨inserted, hinserted, h⟩ := bind_ok h
      cases h
      obtain ⟨hrun, hcommand, hruns, hcommands, hannounced⟩ := insertRunWithCause_change hinserted
      refine .begun _ _ outside commandId cause ?_ rfl ?_ (fun _ => rfl) hrun hcommand hruns
        hcommands hannounced
      · rw [← hid]
        rfl
      · rw [hlock]
        rfl
    | false =>
      simp only [hlock, Bool.false_eq_true, if_false] at h
      obtain ⟨⟨⟩, -, h⟩ := bind_ok h
      obtain ⟨inserted, hinserted, h⟩ := bind_ok h
      cases h
      obtain ⟨hrun, hcommand, hruns, hcommands, hannounced⟩ := insertRunWithCause_change hinserted
      refine .begun _ _ outside commandId cause ?_ rfl ?_ ?_ hrun hcommand hruns hcommands
        hannounced
      · rw [← hid]
        rfl
      · rw [hlock]
        rfl
      · intro hrunning
        cases hrunning

/-- All that finishing a run can do: one that has the same result already stays. -/
theorem finishRun_cases {status : RoutineRunStatus} {finishedAt : Int} {message : Option String}
    (h : finishRun host before stops id status finishedAt message = .ok after) :
    ∃ run ∈ before.runs, run.id = id ∧
      ((run.status ≠ .running ∧ after = before) ∨
        (run.status = .running ∧ ∃ next : RoutineRun, next.id = run.id ∧
          next.routineId = run.routineId ∧ next.status ≠ .running ∧
          after.runs = (before.runs.map fun other => if other.id = run.id then next else other) ∧
          after.commands = before.commands ∧ Announced after next)) := by
  unfold finishRun at h
  split at h
  · cases h
  · rename_i run hfound
    have hid : run.id = id := by simpa using List.find?_some hfound
    refine ⟨run, List.mem_of_find?_eq_some hfound, hid, ?_⟩
    split at h
    · cases h
    · rename_i hstatus
      split at h
      · rename_i hfinished
        split at h
        · cases h
          exact .inl ⟨hfinished, rfl⟩
        · cases h
      · rename_i hrunning
        unfold finishRunRow at h
        obtain ⟨⟨⟩, -, h⟩ := bind_ok h
        obtain ⟨recorded, hrecorded, h⟩ := bind_ok h
        have hannounced := recordRun_announces hrecorded
        cases h
        exact .inr ⟨Decidable.not_not.mp hrunning, { run with
            status := status
            finishedAt := some finishedAt
            message := message }, rfl, rfl, hstatus, rfl, rfl, hannounced⟩

theorem finishRun_change {status : RoutineRunStatus} {finishedAt : Int} {message : Option String}
    {start : Option (String × Outside host)}
    (h : finishRun host before stops id status finishedAt message = .ok after) :
    RunChange before start after := by
  obtain ⟨run, hrun, -, hcases⟩ := finishRun_cases h
  cases hcases with
  | inl hsame =>
    rw [hsame.2]
    exact .same _ rfl rfl
  | inr hfinished =>
    obtain ⟨hrunning, next, hid, hroutine, hstatus, hruns, hcommands, hannounced⟩ := hfinished
    exact .finished _ run next hrun hrunning hid hroutine hstatus hruns hcommands hannounced

/-- The runs and receipts of two databases are the same. -/
def SameRuns (before after : BotDatabase) : Prop :=
  after.runs = before.runs ∧ after.commands = before.commands

theorem saveCatalogWithHooks_runs {state : BotState} {events : List HookEvent}
    (h : saveCatalogWithHooks host before state events now accepted = .ok after) :
    SameRuns before after := by
  unfold saveCatalogWithHooks at h
  obtain ⟨synced, -, h⟩ := bind_ok h
  obtain ⟨recorded, -, h⟩ := bind_ok h
  rw [← Except.ok.inj h]
  exact ⟨rfl, rfl⟩

theorem createRoutine_runs {created : BotStore} {botId : String} {definition : RoutineDefinition}
    {workspace : CanonicalWorkspace} {routineId fileId : Uuid host}
    (h : createRoutine host store botId definition workspace cause routineId fileId eventId now =
      .ok created) : SameRuns store.database created.database := by
  obtain ⟨-, state, bindings, event, -, -, -, -, -, hsaves⟩ := RoutineRuns.createRoutine_cases h
  exact saveCatalogWithHooks_runs hsaves.commit

theorem updateRoutine_runs {updated : BotStore} {definition : RoutineDefinition}
    {workspace : CanonicalWorkspace} {lockFree : Bool} {fileId : Uuid host}
    (h : updateRoutine host store id definition workspace cause accepted lockFree fileId eventId
      now = .ok updated) : SameRuns store.database updated.database := by
  obtain ⟨-, state, index, routine, -, -, -, -, hcase⟩ := RoutineRuns.updateRoutine_cases h
  rcases hcase with rfl | ⟨bindings, event, -, -, hsaves⟩
  · exact ⟨rfl, rfl⟩
  · exact saveCatalogWithHooks_runs hsaves.commit

theorem setRoutineEnabled_runs {updated : BotStore} {enabled : Bool}
    (h : setRoutineEnabled host store id enabled cause accepted eventId now = .ok updated) :
    SameRuns store.database updated.database := by
  obtain ⟨state, index, routine, -, -, -, -, hcase⟩ := RoutineRuns.setRoutineEnabled_cases h
  rcases hcase with rfl | ⟨-, bindings, event, -, -, hsaves⟩
  · exact ⟨rfl, rfl⟩
  · exact saveCatalogWithHooks_runs hsaves.commit

theorem pollDue_runs {result : RoutinePoll × BotStore} (h : pollDue host store now = .ok result) :
    SameRuns store.database result.2.database := by
  obtain ⟨state, -, hcase⟩ := RoutineRuns.pollDue_cases h
  rcases hcase with hsame | ⟨tick, -, hsaves⟩
  · rw [hsame]
    exact ⟨rfl, rfl⟩
  · exact saveCatalogWithHooks_runs hsaves.commit

theorem deleteRoutine_change {deleted : BotStore} {lockFree : Bool}
    {start : Option (String × Outside host)}
    (h : deleteRoutine host store id cause accepted lockFree eventId now = .ok deleted) :
    RunChange store.database start deleted.database := by
  obtain ⟨state, index, routine, event, -, -, -, -, -, hsaved⟩ := RoutineRuns.deleteRoutine_cases h
  unfold deleteRunsAndSaveCatalog at hsaved
  obtain ⟨recorded, -, hsaved⟩ := bind_ok hsaved
  rw [← Except.ok.inj hsaved]
  refine .removed _ (fun run => decide (run.routineId = routine.id)) ?_ ?_
  · simp [removeRuns]
  · simp only [removeRuns, List.any_filter]
    rfl

theorem deleteBot_change {deleted : BotStore} {botId : String} {expectedRevision : Nat}
    {routineIds instructions : List String} {start : Option (String × Outside host)}
    (h : deleteBot host store botId expectedRevision routineIds instructions = .ok deleted) :
    RunChange store.database start deleted.database := by
  unfold deleteBot at h
  obtain ⟨state, -, h⟩ := bind_ok h
  obtain ⟨⟨⟩, -, h⟩ := bind_ok h
  obtain ⟨⟨⟩, -, h⟩ := bind_ok h
  obtain ⟨row, -, h⟩ := bind_ok h
  rw [← Except.ok.inj h]
  exact .removed _ (fun run => decide (run.botId = botId)) rfl rfl

theorem deleteRun_change {start : Option (String × Outside host)}
    (h : deleteRun host before id = .ok after) : RunChange before start after := by
  unfold deleteRun at h
  obtain ⟨state, -, h⟩ := bind_ok h
  obtain ⟨⟨⟩, -, h⟩ := bind_ok h
  split at h
  · cases h
  · obtain ⟨⟨⟩, -, h⟩ := bind_ok h
    cases h
    exact .removed _ (fun run => decide (run.id = id)) rfl rfl

theorem performRoutineAction_change {next : Gateway} {routineId : String} {action : RoutineAction}
    {result : CommandResult}
    (h : performRoutineAction host gateway routineId cause commandId outside action =
      .ok (result, next)) :
    RunChange gateway.store.database
      (if action = .start then some (routineId, outside) else none) next.store.database := by
  cases action with
  | start =>
    simp only [performRoutineAction] at h
    obtain ⟨started, hstarted, h⟩ := bind_ok h
    unfold startRun at hstarted
    obtain ⟨⟨begun, database⟩, hbegun, hstarted⟩ := bind_ok hstarted
    cases hstarted
    cases h
    exact beginRun_change (mapError_ok hbegun)
  | stop runId =>
    simp only [performRoutineAction] at h
    obtain ⟨stopped, hstopped, h⟩ := bind_ok h
    cases h
    unfold stopRun at hstopped
    split at hstopped
    · cases hstopped
    · split at hstopped
      · cases hstopped
      · split at hstopped
        · cases hstopped
          exact .same _ rfl rfl
        · split at hstopped
          · obtain ⟨stops, -, hstopped⟩ := bind_ok hstopped
            cases hstopped
            exact .same _ rfl rfl
          · cases hstopped
  | pause | resume =>
    simp only [performRoutineAction] at h
    obtain ⟨store, hstore, h⟩ := bind_ok h
    cases h
    obtain ⟨hruns, hcommands⟩ := setRoutineEnabled_runs (mapError_ok hstore)
    exact .same _ hruns hcommands
  | update workspace instructions bindings =>
    simp only [performRoutineAction] at h
    split at h
    · cases h
    · obtain ⟨store, hstore, h⟩ := bind_ok h
      cases h
      obtain ⟨hruns, hcommands⟩ := updateRoutine_runs (mapError_ok hstore)
      exact .same _ hruns hcommands
  | delete =>
    simp only [performRoutineAction] at h
    obtain ⟨store, hstore, h⟩ := bind_ok h
    cases h
    exact deleteRoutine_change (mapError_ok hstore)

theorem executeRoutineCommand_change {next : Gateway} {owner : Option String}
    {result : CommandResult}
    (h : executeRoutineCommand host gateway command owner cause commandId outside =
      .ok (result, next)) :
    RunChange gateway.store.database
      (if command.action = .start then some (command.routineId, outside) else none)
      next.store.database := by
  unfold executeRoutineCommand at h
  split at h
  · obtain ⟨⟨⟩, -, h⟩ := bind_ok h
    exact performRoutineAction_change h
  · cases h
    exact .same _ rfl rfl

theorem startRequest_command :
    startRequest host gateway (.command command commandId outside) =
      if command.action = .start then some (command.routineId, outside) else none := by
  obtain ⟨routineId, action⟩ := command
  cases action with
  | start | _ => rfl

theorem startRequest_execute {task : Task} (htask : gateway.tasks[index]? = some task)
    (hstage : task.stage = .fetched) (haction : task.row.action = .routine command) :
    startRequest host gateway (.execute index none outside) =
      if command.action = .start then some (command.routineId, outside) else none := by
  obtain ⟨row, event, stage⟩ := task
  obtain ⟨routineId, action⟩ := command
  have hfetched : stage = .fetched := hstage
  have hrow : row.action = .routine ⟨routineId, action⟩ := haction
  rw [hfetched] at htask
  unfold startRequest
  simp only [startedRoutine, htask]
  rw [hrow]
  cases action with
  | start | _ => rfl

theorem committed_change {α ε : Type} {change : α → Gateway}
    {start : Option (String × Outside host)} {result : Except ε α}
    (h : ∀ value, result = .ok value →
      RunChange gateway.store.database start (change value).store.database) :
    RunChange gateway.store.database start (committed gateway change result).store.database := by
  cases hresult : result with
  | error error => exact .same _ rfl rfl
  | ok value => exact h value hresult

theorem onTask_change {change : Task → Gateway} {start : Option (String × Outside host)}
    (h : ∀ task, gateway.tasks[index]? = some task →
      RunChange gateway.store.database start (change task).store.database) :
    RunChange gateway.store.database start (onTask gateway index change).store.database := by
  unfold onTask
  split
  · exact .same _ rfl rfl
  · rename_i task htask
    exact h task htask

theorem executeTask_change {task : Task} {rejection : Option Rejection}
    (htask : gateway.tasks[index]? = some task) (hstage : task.stage = .fetched) :
    RunChange gateway.store.database
      (startRequest host gateway (.execute index rejection outside))
      (executeTask host gateway index task rejection outside).store.database := by
  unfold executeTask
  split
  · exact .same _ rfl rfl
  · rename_i command haction
    rw [startRequest_execute htask hstage haction]
    cases hexecuted : executeRoutineCommand host gateway command (some task.row.botId)
        (some task.event) task.row.id outside with
    | error rejection => exact .same _ rfl rfl
    | ok result =>
      obtain ⟨kind, next⟩ := result
      have hchange := executeRoutineCommand_change hexecuted
      exact hchange
  · split
    · exact .same _ rfl rfl
    · split
      · exact .same _ rfl rfl
      · exact .same _ rfl rfl

theorem step_change (gateway : Gateway) (operation : GatewayOp host) :
    RunChange gateway.store.database (startRequest host gateway operation)
      (GatewayOp.step host gateway operation).store.database := by
  cases operation with
  | create botId definition workspace cause routineId fileId eventId now =>
    refine committed_change ?_
    intro store hstore
    obtain ⟨hruns, hcommands⟩ := createRoutine_runs hstore
    exact .same _ hruns hcommands
  | command command commandId outside =>
    rw [startRequest_command]
    refine committed_change ?_
    intro result hresult
    exact executeRoutineCommand_change hresult
  | poll now =>
    refine committed_change ?_
    intro polled hpolled
    obtain ⟨hruns, hcommands⟩ := pollDue_runs hpolled
    exact .same _ hruns hcommands
  | subscribe botId binding enabled afterSequence now =>
    refine committed_change ?_
    intro database hdatabase
    unfold setSubscription at hdatabase
    obtain ⟨state, -, hdatabase⟩ := bind_ok hdatabase
    obtain ⟨⟨⟩, -, hdatabase⟩ := bind_ok hdatabase
    obtain ⟨hooks, -, hdatabase⟩ := bind_ok hdatabase
    cases hdatabase
    exact .same _ rfl rfl
  | emit event =>
    refine committed_change ?_
    intro database hdatabase
    unfold recordHook at hdatabase
    obtain ⟨recorded, -, hdatabase⟩ := bind_ok hdatabase
    cases hdatabase
    exact .same _ rfl rfl
  | project event sequence | advance sessionId botId sequence =>
    exact committed_change fun _ _ => .same _ rfl rfl
  | close events =>
    refine committed_change ?_
    intro database hdatabase
    unfold closeSessionSources at hdatabase
    obtain ⟨state, -, hdatabase⟩ := bind_ok hdatabase
    obtain ⟨⟨⟩, -, hdatabase⟩ := bind_ok hdatabase
    obtain ⟨row, -, hdatabase⟩ := bind_ok hdatabase
    obtain ⟨hooks, -, hdatabase⟩ := bind_ok hdatabase
    cases hdatabase
    exact .same _ rfl rfl
  | bots bots pending =>
    refine committed_change ?_
    intro database hdatabase
    unfold saveBots at hdatabase
    obtain ⟨state, -, hdatabase⟩ := bind_ok hdatabase
    obtain ⟨⟨⟩, -, hdatabase⟩ := bind_ok hdatabase
    obtain ⟨row, -, hdatabase⟩ := bind_ok hdatabase
    cases hdatabase
    exact .same _ rfl rfl
  | deleteBot botId expectedRevision routineIds instructions =>
    exact committed_change fun _ hstore => deleteBot_change hstore
  | finishRun id status finishedAt message =>
    exact committed_change fun _ hdatabase => finishRun_change hdatabase
  | deleteRun id => exact committed_change fun _ hdatabase => deleteRun_change hdatabase
  | openSession sessionId =>
    simp only [GatewayOp.step]
    split
    · exact .same _ rfl rfl
    · exact .same _ rfl rfl
  | deleteSession sessionId => exact .same _ rfl rfl
  | message sessionId submissionId =>
    simp only [GatewayOp.step]
    split
    · exact .same _ rfl rfl
    · exact .same _ rfl rfl
  | fetch now => exact .same _ rfl rfl
  | check index =>
    refine onTask_change ?_
    intro task _
    split
    · exact .same _ rfl rfl
    · exact .same _ rfl rfl
  | execute index rejection outside =>
    refine onTask_change ?_
    intro task htask
    cases hstage : task.stage with
    | fetched => exact executeTask_change htask hstage
    | delivering sessionId | ended result => exact .same _ rfl rfl
  | deliver index admitted result =>
    refine onTask_change ?_
    intro task _
    split
    · refine .same _ ?_ ?_
      · show (deliver gateway _ task.row.id admitted).store.database.runs = _
        unfold deliver
        split
        · rfl
        · rfl
      · show (deliver gateway _ task.row.id admitted).store.database.commands = _
        unfold deliver
        split
        · rfl
        · rfl
    · exact .same _ rfl rfl
  | finish index now =>
    refine onTask_change ?_
    intro task _
    unfold finishTask
    split
    · exact .same _ rfl rfl
    · exact .same _ rfl rfl
    · exact .same _ rfl rfl
  | crash => exact .same _ rfl rfl

end Changes

section Ledgers

variable {host : Host} {before after : BotDatabase} {created : List (String × String)}
  {trace : List (String × RoutineRunStatus)}

def statusesOf (trace : List (String × RoutineRunStatus)) (id : String) : List RoutineRunStatus :=
  (trace.filter fun entry => decide (entry.1 = id)).map Prod.snd

/-- The statuses of one run: it runs and then finishes once, or it is skipped. -/
inductive Lifecycle : List RoutineRunStatus → Prop where
  /-- No such run was created. -/
  | unknown : Lifecycle []
  | running : Lifecycle [.running]
  | skipped : Lifecycle [.skipped]
  | finished (status : RoutineRunStatus) : status ≠ .running → Lifecycle [.running, status]

/-- The runs and their receipts agree with what was observed. -/
structure Ledger (database : BotDatabase) (created : List (String × String))
    (trace : List (String × RoutineRunStatus)) : Prop where
  runs : (database.runs.map (·.id)).Nodup
  receipts : database.commands.map (·.runId) = database.runs.map (·.id)
  commands : (database.commands.map (·.commandId)).Nodup
  once : (created.map Prod.snd).Nodup
  kept : ∀ row ∈ database.commands, (row.commandId, row.runId) ∈ created
  current : ∀ run ∈ database.runs, (statusesOf trace run.id).getLast? = some run.status
  lifecycle : ∀ id, Lifecycle (statusesOf trace id)
  traced : ∀ entry ∈ trace, entry.1 ∈ created.map Prod.snd
  sessions : ∀ run ∈ database.runs, run.status = .running → run.sessionId.isSome = true

theorem statusChanges_nil (h : ∀ run ∈ after.runs, ∃ other ∈ before.runs,
    other.id = run.id ∧ other.status = run.status) : statusChanges before after = [] := by
  unfold statusChanges
  rw [List.filterMap_eq_nil_iff]
  intro run hrun
  obtain ⟨other, hother, hid, hstatus⟩ := h run hrun
  rw [if_pos]
  exact List.any_eq_true.mpr ⟨other, hother, by simp [hid, hstatus]⟩

theorem newCommands_nil (h : ∀ row ∈ after.commands, row.runId ∈ before.commands.map (·.runId)) :
    newCommands before after = [] := by
  unfold newCommands
  rw [List.filterMap_eq_nil_iff]
  intro row hrow
  obtain ⟨other, hother, hid⟩ := List.mem_map.mp (h row hrow)
  rw [if_pos]
  exact List.any_eq_true.mpr ⟨other, hother, decide_eq_true hid⟩

theorem statusesOf_append_ne {id other : String} {status : RoutineRunStatus} (h : id ≠ other) :
    statusesOf (trace ++ [(id, status)]) other = statusesOf trace other := by
  simp [statusesOf, List.filter_append, h]

theorem statusesOf_append_self {id : String} {status : RoutineRunStatus} :
    statusesOf (trace ++ [(id, status)]) id = statusesOf trace id ++ [status] := by
  simp [statusesOf, List.filter_append]

theorem Ledger.unseen (h : Ledger before created trace) {id : String}
    (hid : id ∉ created.map Prod.snd) : statusesOf trace id = [] := by
  unfold statusesOf
  rw [List.map_eq_nil_iff, List.filter_eq_nil_iff]
  intro entry hentry hsame
  exact hid (of_decide_eq_true hsame ▸ h.traced entry hentry)

theorem Lifecycle.of_running {statuses : List RoutineRunStatus} (h : Lifecycle statuses)
    (hlast : statuses.getLast? = some .running) : statuses = [.running] := by
  cases h with
  | unknown => cases hlast
  | running => rfl
  | skipped => cases hlast
  | finished status hstatus =>
    have hsame : some status = some .running := hlast
    exact absurd (Option.some.inj hsame) hstatus

theorem Ledger.unique (h : Ledger before created trace) {first second : RoutineRun}
    (hfirst : first ∈ before.runs) (hsecond : second ∈ before.runs)
    (hid : first.id = second.id) : first = second :=
  List.inj_on_of_nodup_map h.runs hfirst hsecond hid

theorem removeRuns_receipts (hnodup : (before.runs.map (·.id)).Nodup)
    (hreceipts : before.commands.map (·.runId) = before.runs.map (·.id))
    (gone : RoutineRun → Bool) :
    (removeRuns before gone).commands.map (·.runId) =
      (removeRuns before gone).runs.map (·.id) := by
  have hkeeps : ∀ run ∈ before.runs,
      (!before.runs.any fun other => gone other && decide (other.id = run.id)) = !gone run := by
    intro run hrun
    cases hgone : gone run with
    | true =>
      have hany : (before.runs.any fun other => gone other && decide (other.id = run.id)) = true :=
        List.any_eq_true.mpr ⟨run, hrun, by simp [hgone]⟩
      rw [hany]
    | false =>
      have hany : (before.runs.any fun other => gone other && decide (other.id = run.id)) =
          false := by
        rw [List.any_eq_false]
        intro other hother hsame
        rw [Bool.and_eq_true, decide_eq_true_eq] at hsame
        have hequal := List.inj_on_of_nodup_map hnodup hother hrun hsame.2
        rw [hequal, hgone] at hsame
        cases hsame.1
      rw [hany]
  unfold removeRuns
  calc (before.commands.filter fun row =>
        !before.runs.any fun run => gone run && decide (run.id = row.runId)).map (·.runId)
      = (before.commands.map (·.runId)).filter fun id =>
          !before.runs.any fun run => gone run && decide (run.id = id) := by
        rw [List.filter_map]
        rfl
    _ = (before.runs.map (·.id)).filter fun id =>
          !before.runs.any fun run => gone run && decide (run.id = id) := by rw [hreceipts]
    _ = (before.runs.filter fun run => !gone run).map (·.id) := by
        rw [List.filter_map]
        exact congrArg _ (List.filter_congr hkeeps)

theorem begun_observed {run : RoutineRun} {commandId : String} {cause : Option HookEvent}
    (hreceipts : before.commands.map (·.runId) = before.runs.map (·.id))
    (hid : run.id ∉ before.runs.map (·.id)) (hruns : after.runs = before.runs ++ [run])
    (hcommands : after.commands = before.commands ++ [⟨commandId, run.id, cause⟩]) :
    newCommands before after = [(commandId, run.id)] ∧
      statusChanges before after = [(run.id, run.status)] := by
  have hknown : newCommands before before = [] :=
    newCommands_nil fun row hrow => List.mem_map_of_mem hrow
  have hsame : statusChanges before before = [] :=
    statusChanges_nil fun other hother => ⟨other, hother, rfl, rfl⟩
  constructor
  · unfold newCommands at hknown ⊢
    rw [hcommands, List.filterMap_append, hknown, List.nil_append, List.filterMap_cons_some]
    · rfl
    · rw [if_neg]
      intro hany
      obtain ⟨other, hother, hsame⟩ := List.any_eq_true.mp hany
      have hrun : other.runId = run.id := of_decide_eq_true hsame
      refine hid ?_
      rw [← hreceipts, ← hrun]
      exact List.mem_map_of_mem hother
  · unfold statusChanges at hsame ⊢
    rw [hruns, List.filterMap_append, hsame, List.nil_append, List.filterMap_cons_some]
    · rfl
    · rw [if_neg]
      intro hany
      obtain ⟨other, hother, hsame⟩ := List.any_eq_true.mp hany
      rw [Bool.and_eq_true, decide_eq_true_eq] at hsame
      refine hid ?_
      rw [← hsame.1]
      exact List.mem_map_of_mem hother

theorem replace_of_ne {runs : List RoutineRun} {run next : RoutineRun}
    (h : run.id ∉ runs.map (·.id)) :
    (runs.map fun other => if other.id = run.id then next else other) = runs := by
  conv_rhs => rw [← List.map_id runs]
  refine List.map_congr_left ?_
  intro other hother
  rw [if_neg, id]
  intro hsame
  exact h (hsame ▸ List.mem_map_of_mem hother)

theorem finished_observed {run next : RoutineRun} (hnodup : (before.runs.map (·.id)).Nodup)
    (hrun : run ∈ before.runs) (hrunning : run.status = .running) (hid : next.id = run.id)
    (hstatus : next.status ≠ .running)
    (hruns : after.runs = before.runs.map fun other => if other.id = run.id then next else other) :
    statusChanges before after = [(run.id, next.status)] := by
  obtain ⟨front, back, hsplit⟩ := List.append_of_mem hrun
  have hlist := hnodup
  rw [hsplit, List.map_append, List.map_cons, List.nodup_append, List.nodup_cons] at hlist
  have hfront : run.id ∉ front.map (·.id) := by
    intro hmem
    exact hlist.2.2 _ hmem run.id (List.mem_cons_self) rfl
  have hback : run.id ∉ back.map (·.id) := hlist.2.1.1
  have hstays : ∀ part : List RoutineRun, (∀ other ∈ part, other ∈ before.runs) →
      (part.filterMap fun run =>
        if before.runs.any fun other => decide (other.id = run.id) && decide (other.status =
          run.status) then none else some (run.id, run.status)) = [] := by
    intro part hpart
    rw [List.filterMap_eq_nil_iff]
    intro other hother
    rw [if_pos]
    exact List.any_eq_true.mpr ⟨other, hpart other hother, by simp⟩
  unfold statusChanges
  rw [hruns, hsplit, List.map_append, List.map_cons, replace_of_ne hfront, replace_of_ne hback,
    if_pos rfl, ← hsplit, List.filterMap_append, hstays front, List.nil_append,
    List.filterMap_cons_some, hstays back]
  · intro other hother
    rw [hsplit]
    exact List.mem_append_right _ (List.mem_cons_of_mem _ hother)
  · rw [if_neg, hid]
    intro hany
    obtain ⟨other, hother, hsame⟩ := List.any_eq_true.mp hany
    rw [Bool.and_eq_true, decide_eq_true_eq, decide_eq_true_eq, hid] at hsame
    have hequal := List.inj_on_of_nodup_map hnodup hother hrun hsame.1
    rw [hequal, hrunning] at hsame
    exact hstatus hsame.2.symm
  · intro other hother
    rw [hsplit]
    exact List.mem_append_left _ hother

theorem Ledger.same (h : Ledger before created trace) (hruns : after.runs = before.runs)
    (hcommands : after.commands = before.commands) :
    Ledger after (created ++ newCommands before after) (trace ++ statusChanges before after) := by
  have hcreated : newCommands before after = [] := by
    refine newCommands_nil ?_
    intro row hrow
    rw [hcommands] at hrow
    exact List.mem_map_of_mem hrow
  have htrace : statusChanges before after = [] := by
    refine statusChanges_nil ?_
    intro run hrun
    rw [hruns] at hrun
    exact ⟨run, hrun, rfl, rfl⟩
  rw [hcreated, htrace, List.append_nil, List.append_nil]
  obtain ⟨hnodup, hreceipts, hdistinct, honce, hkept, hcurrent, hlifecycle, htraced,
    hsessions⟩ := h
  rw [← hruns] at hnodup hreceipts hcurrent hsessions
  rw [← hcommands] at hreceipts hdistinct hkept
  exact ⟨hnodup, hreceipts, hdistinct, honce, hkept, hcurrent, hlifecycle, htraced, hsessions⟩

theorem Ledger.begun (h : Ledger before created trace) {run : RoutineRun} {commandId : String}
    {cause : Option HookEvent} (hfresh : run.id ∉ created.map Prod.snd)
    (hstatus : run.status = .running ∨ run.status = .skipped)
    (hsession : run.status = .running → run.sessionId.isSome = true)
    (hid : run.id ∉ before.runs.map (·.id))
    (hcommand : commandId ∉ before.commands.map (·.commandId))
    (hruns : after.runs = before.runs ++ [run])
    (hcommands : after.commands = before.commands ++ [⟨commandId, run.id, cause⟩]) :
    Ledger after (created ++ newCommands before after) (trace ++ statusChanges before after) := by
  obtain ⟨hcreated, htrace⟩ := begun_observed h.receipts hid hruns hcommands
  rw [hcreated, htrace]
  have hunseen := h.unseen hfresh
  constructor
  · rw [hruns, List.map_append, List.nodup_append]
    refine ⟨h.runs, List.nodup_singleton _, ?_⟩
    intro first hfirst second hsecond hsame
    rw [List.map_singleton, List.mem_singleton] at hsecond
    exact hid (hsecond ▸ hsame ▸ hfirst)
  · rw [hruns, hcommands, List.map_append, List.map_append, h.receipts]
    rfl
  · rw [hcommands, List.map_append, List.nodup_append]
    refine ⟨h.commands, List.nodup_singleton _, ?_⟩
    intro first hfirst second hsecond hsame
    have hlast : second = commandId := List.mem_singleton.mp hsecond
    exact hcommand (hlast ▸ hsame ▸ hfirst)
  · rw [List.map_append, List.nodup_append]
    refine ⟨h.once, List.nodup_singleton _, ?_⟩
    intro first hfirst second hsecond hsame
    have hlast : second = run.id := List.mem_singleton.mp hsecond
    exact hfresh (hlast ▸ hsame ▸ hfirst)
  · intro row hrow
    rw [hcommands] at hrow
    cases List.mem_append.mp hrow with
    | inl hold => exact List.mem_append_left _ (h.kept row hold)
    | inr hnew =>
      rw [List.mem_singleton.mp hnew]
      exact List.mem_append_right _ (List.mem_singleton_self _)
  · intro other hother
    rw [hruns] at hother
    cases List.mem_append.mp hother with
    | inl hold =>
      have hne : run.id ≠ other.id := fun hsame => hid (hsame ▸ List.mem_map_of_mem hold)
      rw [statusesOf_append_ne hne]
      exact h.current other hold
    | inr hnew =>
      rw [List.mem_singleton.mp hnew, statusesOf_append_self, hunseen]
      rfl
  · intro id
    by_cases hsame : run.id = id
    · rw [← hsame, statusesOf_append_self, hunseen]
      cases hstatus with
      | inl hrunning =>
        rw [hrunning]
        exact .running
      | inr hskipped =>
        rw [hskipped]
        exact .skipped
    · rw [statusesOf_append_ne hsame]
      exact h.lifecycle id
  · intro entry hentry
    rw [List.map_append]
    cases List.mem_append.mp hentry with
    | inl hold => exact List.mem_append_left _ (h.traced entry hold)
    | inr hnew =>
      rw [List.mem_singleton.mp hnew]
      exact List.mem_append_right _ (List.mem_singleton_self _)
  · intro other hother hrunning
    rw [hruns] at hother
    cases List.mem_append.mp hother with
    | inl hold => exact h.sessions other hold hrunning
    | inr hnew =>
      rw [List.mem_singleton.mp hnew] at hrunning ⊢
      exact hsession hrunning

theorem mem_finished {run next other : RoutineRun}
    (hruns : after.runs = before.runs.map fun other => if other.id = run.id then next else other)
    (h : other ∈ after.runs) :
    other = next ∨ (other ∈ before.runs ∧ other.id ≠ run.id) := by
  rw [hruns] at h
  obtain ⟨old, hold, hsame⟩ := List.mem_map.mp h
  by_cases hid : old.id = run.id
  · rw [if_pos hid] at hsame
    exact .inl hsame.symm
  · rw [if_neg hid] at hsame
    exact .inr ⟨hsame ▸ hold, hsame ▸ hid⟩

theorem Ledger.finished (h : Ledger before created trace) {run next : RoutineRun}
    (hrun : run ∈ before.runs) (hrunning : run.status = .running) (hid : next.id = run.id)
    (hstatus : next.status ≠ .running)
    (hruns : after.runs = before.runs.map fun other => if other.id = run.id then next else other)
    (hcommands : after.commands = before.commands) :
    Ledger after (created ++ newCommands before after) (trace ++ statusChanges before after) := by
  have hcreated : newCommands before after = [] := by
    refine newCommands_nil ?_
    intro row hrow
    rw [hcommands] at hrow
    exact List.mem_map_of_mem hrow
  rw [hcreated, finished_observed h.runs hrun hrunning hid hstatus hruns, List.append_nil]
  have hids : after.runs.map (·.id) = before.runs.map (·.id) := by
    rw [hruns, List.map_map]
    refine List.map_congr_left ?_
    intro other _
    show (if other.id = run.id then next else other).id = other.id
    split
    · rename_i hsame
      rw [hid, hsame]
    · rfl
  have hbefore : statusesOf trace run.id = [.running] :=
    (h.lifecycle run.id).of_running (hrunning ▸ h.current run hrun)
  have hseen : run.id ∈ created.map Prod.snd := by
    have hmem : run.id ∈ before.commands.map (·.runId) := by
      rw [h.receipts]
      exact List.mem_map_of_mem hrun
    obtain ⟨row, hrow, hsame⟩ := List.mem_map.mp hmem
    rw [← hsame]
    exact List.mem_map_of_mem (h.kept row hrow)
  constructor
  · rw [hids]
    exact h.runs
  · rw [hids, hcommands]
    exact h.receipts
  · rw [hcommands]
    exact h.commands
  · exact h.once
  · intro row hrow
    rw [hcommands] at hrow
    exact h.kept row hrow
  · intro other hother
    cases mem_finished hruns hother with
    | inl hnext =>
      rw [hnext, hid, statusesOf_append_self, List.getLast?_concat]
    | inr hold =>
      rw [statusesOf_append_ne (fun hsame => hold.2 hsame.symm)]
      exact h.current other hold.1
  · intro id
    by_cases hsame : run.id = id
    · rw [← hsame, statusesOf_append_self, hbefore]
      exact .finished next.status hstatus
    · rw [statusesOf_append_ne hsame]
      exact h.lifecycle id
  · intro entry hentry
    cases List.mem_append.mp hentry with
    | inl hold => exact h.traced entry hold
    | inr hnew =>
      rw [List.mem_singleton.mp hnew]
      exact hseen
  · intro other hother hstill
    cases mem_finished hruns hother with
    | inl hnext =>
      rw [hnext] at hstill
      exact absurd hstill hstatus
    | inr hold => exact h.sessions other hold.1 hstill

theorem Ledger.removed (h : Ledger before created trace) {gone : RoutineRun → Bool}
    (hruns : after.runs = (removeRuns before gone).runs)
    (hcommands : after.commands = (removeRuns before gone).commands) :
    Ledger after (created ++ newCommands before after) (trace ++ statusChanges before after) := by
  have hrunsSub : after.runs.Sublist before.runs := hruns ▸ List.filter_sublist
  have hcommandsSub : after.commands.Sublist before.commands := hcommands ▸ List.filter_sublist
  have hcreated : newCommands before after = [] := by
    refine newCommands_nil ?_
    intro row hrow
    exact List.mem_map_of_mem (hcommandsSub.subset hrow)
  have htrace : statusChanges before after = [] := by
    refine statusChanges_nil ?_
    intro run hrun
    exact ⟨run, hrunsSub.subset hrun, rfl, rfl⟩
  rw [hcreated, htrace, List.append_nil, List.append_nil]
  constructor
  · exact h.runs.sublist (hrunsSub.map _)
  · rw [hruns, hcommands]
    exact removeRuns_receipts h.runs h.receipts gone
  · exact h.commands.sublist (hcommandsSub.map _)
  · exact h.once
  · intro row hrow
    exact h.kept row (hcommandsSub.subset hrow)
  · intro run hrun
    exact h.current run (hrunsSub.subset hrun)
  · exact h.lifecycle
  · exact h.traced
  · intro run hrun
    exact h.sessions run (hrunsSub.subset hrun)

theorem Ledger.change (h : Ledger before created trace) {start : Option (String × Outside host)}
    (hchange : RunChange before start after)
    (hfresh : ∀ routineId outside, start = some (routineId, outside) →
      outside.runId.1 ∉ created.map Prod.snd) :
    Ledger after (created ++ newCommands before after) (trace ++ statusChanges before after) := by
  cases hchange with
  | same hruns hcommands => exact h.same hruns hcommands
  | begun run outside commandId cause hstart hid hstatus hsession hrun hcommand hruns hcommands =>
    refine h.begun (hid ▸ hfresh _ _ hstart) ?_ hsession hrun hcommand hruns hcommands
    rw [hstatus]
    cases outside.lockFree with
    | true => exact .inl rfl
    | false => exact .inr rfl
  | finished run next hrun hrunning hid hroutine hstatus hruns hcommands =>
    exact h.finished hrun hrunning hid hstatus hruns hcommands
  | removed gone hruns hcommands => exact h.removed hruns hcommands

theorem newCommands_minted (h : Ledger before created trace)
    {start : Option (String × Outside host)} (hchange : RunChange before start after) :
    ∀ entry ∈ newCommands before after, ∃ routineId outside,
      start = some (routineId, outside) ∧ entry.2 = outside.runId.1 := by
  have hnil : (∀ row ∈ after.commands, row ∈ before.commands) →
      newCommands before after = [] := by
    intro hsub
    refine newCommands_nil ?_
    intro row hrow
    exact List.mem_map_of_mem (hsub row hrow)
  intro entry hentry
  cases hchange with
  | same hruns hcommands =>
    rw [hnil fun row hrow => hcommands ▸ hrow] at hentry
    cases hentry
  | begun run outside commandId cause hstart hid hstatus hsession hrun hcommand hruns hcommands =>
    rw [(begun_observed h.receipts hrun hruns hcommands).1] at hentry
    rw [List.mem_singleton.mp hentry]
    exact ⟨run.routineId, outside, hstart, hid⟩
  | finished run next hrun hrunning hid hroutine hstatus hruns hcommands =>
    rw [hnil fun row hrow => hcommands ▸ hrow] at hentry
    cases hentry
  | removed gone hruns hcommands =>
    rw [hnil fun row hrow => List.filter_sublist.subset (hcommands ▸ hrow)] at hentry
    cases hentry

theorem newActive_change {start : Option (String × Outside host)}
    (hchange : RunChange before start after) :
    (newActive before after = [] ∨ ∃ (run : RoutineRun) (outside : Outside host),
        newActive before after = [(run.id, run.routineId)] ∧
          start = some (run.routineId, outside) ∧ outside.lockFree = true) ∧
      ∀ run ∈ after.runs, run.status = .running →
        (run ∈ before.runs ∨ (run.id, run.routineId) ∈ newActive before after) := by
  have hnil : (∀ run ∈ after.runs, run.status = .running → run ∈ before.runs) →
      newActive before after = [] := by
    intro hsub
    unfold newActive
    rw [List.filterMap_eq_nil_iff]
    intro run hrun
    rw [if_neg]
    intro hnew
    have hany : (before.runs.any fun other => decide (other.id = run.id)) = true :=
      List.any_eq_true.mpr ⟨run, hsub run hrun hnew.1, decide_eq_true rfl⟩
    rw [hany] at hnew
    cases hnew.2
  cases hchange with
  | same hruns hcommands =>
    have hsub : ∀ run ∈ after.runs, run.status = .running → run ∈ before.runs :=
      fun run hrun _ => hruns ▸ hrun
    exact ⟨.inl (hnil hsub), fun run hrun hrunning => .inl (hsub run hrun hrunning)⟩
  | begun run outside commandId cause hstart hid hstatus hsession hrun hcommand hruns hcommands =>
    have hold : (before.runs.filterMap fun run =>
        if run.status = .running ∧ (before.runs.any fun other => decide (other.id = run.id)) = false
        then some (run.id, run.routineId) else none) = [] := by
      rw [List.filterMap_eq_nil_iff]
      intro other hother
      rw [if_neg]
      intro hnew
      have hany : (before.runs.any fun found => decide (found.id = other.id)) = true :=
        List.any_eq_true.mpr ⟨other, hother, decide_eq_true rfl⟩
      rw [hany] at hnew
      cases hnew.2
    have hunknown : (before.runs.any fun other => decide (other.id = run.id)) = false := by
      rw [List.any_eq_false]
      intro other hother hsame
      exact hrun (of_decide_eq_true hsame ▸ List.mem_map_of_mem hother)
    have hactive : newActive before after =
        if outside.lockFree = true then [(run.id, run.routineId)] else [] := by
      unfold newActive
      rw [hruns, List.filterMap_append, hold, List.nil_append]
      cases hlock : outside.lockFree with
      | true =>
        rw [hlock] at hstatus
        have hrunning : run.status = .running := hstatus
        rw [List.filterMap_cons_some]
        · rfl
        · rw [if_pos ⟨hrunning, hunknown⟩]
      | false =>
        rw [hlock] at hstatus
        have hskipped : run.status ≠ .running := by
          rw [hstatus]
          exact RoutineRunStatus.noConfusion
        rw [List.filterMap_cons_none]
        · rfl
        · rw [if_neg fun hnew => hskipped hnew.1]
    rw [hactive]
    cases hlock : outside.lockFree with
    | true =>
      refine ⟨.inr ⟨run, outside, rfl, hstart, hlock⟩, ?_⟩
      intro other hother _
      rw [hruns] at hother
      cases List.mem_append.mp hother with
      | inl hbefore => exact .inl hbefore
      | inr hnew =>
        rw [List.mem_singleton.mp hnew]
        exact .inr (List.mem_singleton_self _)
    | false =>
      refine ⟨.inl rfl, ?_⟩
      intro other hother hrunning
      rw [hruns] at hother
      cases List.mem_append.mp hother with
      | inl hbefore => exact .inl hbefore
      | inr hnew =>
        rw [List.mem_singleton.mp hnew, hstatus, hlock] at hrunning
        cases hrunning
  | finished run next hrun hrunning hid hroutine hstatus hruns hcommands =>
    have hsub : ∀ run ∈ after.runs, run.status = .running → run ∈ before.runs := by
      intro other hother hstill
      cases mem_finished hruns hother with
      | inl hnext =>
        rw [hnext] at hstill
        exact absurd hstill hstatus
      | inr hold => exact hold.1
    exact ⟨.inl (hnil hsub), fun run hrun hrunning => .inl (hsub run hrun hrunning)⟩
  | removed gone hruns hcommands =>
    have hsub : ∀ run ∈ after.runs, run.status = .running → run ∈ before.runs :=
      fun run hrun _ => List.filter_sublist.subset (hruns ▸ hrun)
    exact ⟨.inl (hnil hsub), fun run hrun hrunning => .inl (hsub run hrun hrunning)⟩

end Ledgers

section Soundness

variable {host : Host} {process : Process}

structure Sound (process : Process) : Prop where
  ledger : Ledger process.database process.created process.trace
  locks : (process.active.map Prod.snd).Nodup
  /-- A run that runs and is not lost holds the lock of its routine, once the process serves. -/
  held : process.serving = true → ∀ run ∈ process.database.runs, run.status = .running →
    run.id ∉ process.lost → (run.id, run.routineId) ∈ process.active

variable {routineId id : String}

theorem isFree_iff :
    process.isFree routineId = true ↔ routineId ∉ process.active.map Prod.snd := by
  unfold Process.isFree
  rw [Bool.not_eq_true', List.any_eq_false]
  constructor
  · intro h hmem
    obtain ⟨run, hrun, hsame⟩ := List.mem_map.mp hmem
    exact h run hrun (decide_eq_true hsame)
  · intro h run hrun hsame
    exact h (of_decide_eq_true hsame ▸ List.mem_map_of_mem hrun)

theorem locks_append {active : List (String × String)} (h : (active.map Prod.snd).Nodup)
    (hfree : routineId ∉ active.map Prod.snd) :
    ((active ++ [(id, routineId)]).map Prod.snd).Nodup := by
  rw [List.map_append, List.nodup_append]
  refine ⟨h, List.nodup_singleton _, ?_⟩
  intro first hfirst second hsecond hsame
  have hlast : second = routineId := List.mem_singleton.mp hsecond
  exact hfree (hlast ▸ hsame ▸ hfirst)

theorem startRequest_guard {gateway : Gateway} {operation : GatewayOp host} {free : Bool}
    {outside : Outside host}
    (h : startRequest host gateway (guardLock host free operation) = some (routineId, outside)) :
    startedRoutine host gateway operation = some routineId ∧
      (outside.lockFree = true → free = true) ∧
      mintedRun host (.gateway operation) = some outside.runId.1 := by
  cases operation with
  | command command commandId given =>
    rw [guardLock, startRequest_command] at h
    split at h
    · rename_i hstart
      cases h
      obtain ⟨routineId, action⟩ := command
      have haction : action = .start := hstart
      subst haction
      refine ⟨rfl, ?_, rfl⟩
      intro hlock
      exact (Bool.and_eq_true_iff.mp hlock).2
    · cases h
  | execute index rejection given =>
    unfold startRequest at h
    cases hstarted : startedRoutine host gateway (guardLock host free (.execute index rejection
        given)) with
    | none =>
      rw [hstarted] at h
      cases h
    | some started =>
      rw [hstarted] at h
      cases h
      refine ⟨?_, ?_, rfl⟩
      · rw [← hstarted]
        cases rejection with
        | none | some rejection => rfl
      · intro hlock
        exact (Bool.and_eq_true_iff.mp hlock).2
  | _ => cases h

theorem Sound.gatewayStep (h : Sound process) {operation : GatewayOp host}
    (hfresh : ∀ id, mintedRun host (.gateway operation) = some id →
      id ∉ process.created.map Prod.snd) :
    Sound (process.gatewayStep host operation) := by
  unfold Process.gatewayStep
  split
  · generalize hfree : (startedRoutine host process.gateway operation).all process.isFree = free
    have hchange := step_change process.gateway (guardLock host free operation)
    obtain ⟨hactive, hrunning⟩ := newActive_change hchange
    refine ⟨h.ledger.change hchange ?_, ?_, ?_⟩
    · intro routineId outside hstart
      exact hfresh _ (startRequest_guard hstart).2.2
    · cases hactive with
      | inl hnone =>
        show ((process.active ++ newActive process.database _).map Prod.snd).Nodup
        rw [show newActive process.database _ = [] from hnone, List.append_nil]
        exact h.locks
      | inr hbegun =>
        obtain ⟨run, outside, hnew, hstart, hlock⟩ := hbegun
        obtain ⟨hstarted, hguard, -⟩ := startRequest_guard hstart
        show ((process.active ++ newActive process.database _).map Prod.snd).Nodup
        rw [show newActive process.database _ = [(run.id, run.routineId)] from hnew]
        refine locks_append h.locks (isFree_iff.mp ?_)
        have hall := hfree.trans (hguard hlock)
        rw [hstarted] at hall
        exact hall
    · intro hserving run hrun hstatus hlost
      cases hrunning run hrun hstatus with
      | inl hold => exact List.mem_append_left _ (h.held hserving run hold hstatus hlost)
      | inr hnew => exact List.mem_append_right _ hnew
  · exact h

theorem Process.release_frame (process : Process) (id : String) :
    (process.release id).gateway = process.gateway ∧
      (process.release id).created = process.created := by
  unfold Process.release
  split
  · exact ⟨rfl, rfl⟩
  · exact ⟨rfl, rfl⟩

/-- A finish leaves the gateway, or commits what `finish_run` gives. -/
theorem Process.finish_gateway (process : Process) (id : String) (status : RoutineRunStatus)
    (finishedAt : Int) (message : Option String) :
    (process.finish host id status finishedAt message).gateway = process.gateway ∨
      ∃ database, finishRun host process.database process.gateway.stops id status finishedAt
          message = .ok database ∧
        (process.finish host id status finishedAt message).gateway =
          process.gateway.withDatabase database := by
  unfold Process.finish
  split
  · cases hfinish : finishRun host process.database process.gateway.stops id status finishedAt
        message with
    | error error => exact .inl (process.release_frame id).1
    | ok database => exact .inr ⟨database, rfl, rfl⟩
  · exact .inl rfl

theorem Sound.release (h : Sound process) (id : String) : Sound (process.release id) := by
  unfold Process.release
  split
  · refine ⟨h.ledger, h.locks.sublist (List.filter_sublist.map _), ?_⟩
    intro hserving run hrun hrunning hlost
    rw [List.mem_append, List.mem_singleton, not_or] at hlost
    exact List.mem_filter.mpr
      ⟨h.held hserving run hrun hrunning hlost.1, decide_eq_true hlost.2⟩
  · exact h

theorem Sound.finish (h : Sound process) (id : String) (status : RoutineRunStatus)
    (finishedAt : Int) (message : Option String) :
    Sound (process.finish host id status finishedAt message) := by
  have hlocks : ((process.active.filter fun run => decide (run.1 ≠ id)).map Prod.snd).Nodup :=
    h.locks.sublist (List.filter_sublist.map _)
  have hkeeps : ∀ run : RoutineRun, (run.id, run.routineId) ∈ process.active → run.id ≠ id →
      (run.id, run.routineId) ∈ process.active.filter fun run => decide (run.1 ≠ id) := by
    intro run hrun hne
    exact List.mem_filter.mpr ⟨hrun, decide_eq_true hne⟩
  unfold Process.finish
  split
  · cases hfinish : finishRun host process.database process.gateway.stops id status finishedAt
        message with
    | error error => exact h.release id
    | ok database =>
      have hchange : @RunChange host process.database none database :=
        finishRun_change hfinish
      refine ⟨h.ledger.change hchange ?_, hlocks, ?_⟩
      · intro routineId outside hstart
        cases hstart
      · intro hserving other hother hrunning hlost
        obtain ⟨run, hrun, hid, hcases⟩ := finishRun_cases hfinish
        have hmem : other ∈ database.runs := hother
        cases hcases with
        | inl hsame =>
          rw [hsame.2] at hmem
          refine hkeeps other (h.held hserving other hmem hrunning hlost) ?_
          intro hequal
          have hone := h.ledger.unique hmem hrun (hequal.trans hid.symm)
          rw [hone] at hrunning
          exact hsame.1 hrunning
        | inr hfinished =>
          obtain ⟨-, next, -, -, hstatus, hruns, -, -⟩ := hfinished
          cases mem_finished hruns hmem with
          | inl hnext =>
            rw [hnext] at hrunning
            exact absurd hrunning hstatus
          | inr hold =>
            refine hkeeps other (h.held hserving other hold.1 hrunning hlost) ?_
            rw [← hid]
            exact hold.2
  · exact h

theorem resume_ok {resumed : Process} (h : process.resume id = .ok resumed) :
    ∃ run ∈ process.database.runs, run.id = id ∧ process.isFree run.routineId = true ∧
      resumed = { process with
        active := process.active ++ [(run.id, run.routineId)]
        lost := process.lost.filter fun other => decide (other ≠ run.id) } := by
  unfold Process.resume at h
  split at h
  · cases h
  · rename_i run hfound
    split at h
    · cases h
    · split at h
      · rename_i hfree
        split at h
        · cases h
          exact ⟨run, List.mem_of_find?_eq_some hfound, by simpa using List.find?_some hfound,
            hfree, rfl⟩
        · cases h
      · cases h

theorem Sound.resume (h : Sound process) {resumed : Process}
    (hresume : process.resume id = .ok resumed) : Sound resumed := by
  obtain ⟨run, hrun, -, hfree, rfl⟩ := resume_ok hresume
  refine ⟨h.ledger, locks_append h.locks (isFree_iff.mp hfree), ?_⟩
  intro hserving other hother hrunning hlost
  by_cases hsame : other.id = run.id
  · rw [h.ledger.unique hother hrun hsame]
    exact List.mem_append_right _ (List.mem_singleton_self _)
  · refine List.mem_append_left _ (h.held hserving other hother hrunning ?_)
    exact fun hmem => hlost (List.mem_filter.mpr ⟨hmem, decide_eq_true hsame⟩)

/-- Every running run is active or waits for its recovery. -/
def Awaits (process : Process) (waiting : List RoutineRun) : Prop :=
  ∀ run ∈ process.database.runs, run.status = .running →
    (run.id, run.routineId) ∈ process.active ∨ run.id ∈ waiting.map (·.id)

/-- What the recovery of a process keeps. -/
structure Recovering (process recovered : Process) : Prop where
  sound : Sound recovered
  serving : recovered.serving = process.serving
  created : recovered.created = process.created

theorem Recovering.trans {middle after : Process} (h : Recovering process middle)
    (hrest : Recovering middle after) : Recovering process after :=
  ⟨hrest.sound, hrest.serving.trans h.serving, hrest.created.trans h.created⟩

theorem recoverRun_ok (h : Sound process) (hserving : process.serving = false)
    {run : RoutineRun} {waiting : List RoutineRun} {recovery : Recovery} {recovered : Process}
    (hawaits : Awaits process (run :: waiting))
    (hrecover : process.recoverRun host run recovery = .ok recovered) :
    Recovering process recovered ∧ Awaits recovered waiting := by
  cases recovery with
  | undecided =>
    have hresume : process.resume run.id = .ok recovered := hrecover
    have hsound := h.resume hresume
    obtain ⟨found, hfound, hid, -, rfl⟩ := resume_ok hresume
    refine ⟨⟨hsound, rfl, rfl⟩, ?_⟩
    intro other hother hrunning
    cases hawaits other hother hrunning with
    | inl hactive => exact .inl (List.mem_append_left _ hactive)
    | inr hwaits =>
      cases List.mem_cons.mp hwaits with
      | inl hsame =>
        have hone : other = found := h.ledger.unique hother hfound (hsame.trans hid.symm)
        rw [hone]
        exact .inl (List.mem_append_right _ (List.mem_singleton_self _))
      | inr hlater => exact .inr hlater
  | unopened => cases hrecover
  | outcome status finishedAt message =>
    obtain ⟨database, hfinish, hrecover⟩ := bind_ok hrecover
    cases hrecover
    have hchange : @RunChange host process.database none database := finishRun_change hfinish
    have hnothing : newCommands process.database database = [] := by
      rw [List.eq_nil_iff_forall_not_mem]
      intro entry hentry
      obtain ⟨routineId, outside, hstart, -⟩ := newCommands_minted h.ledger hchange entry hentry
      cases hstart
    refine ⟨⟨⟨h.ledger.change hchange ?_, h.locks, ?_⟩, rfl, ?_⟩, ?_⟩
    · intro routineId outside hstart
      cases hstart
    · intro hserves
      have hfalse : process.serving = true := hserves
      rw [hserving] at hfalse
      cases hfalse
    · show process.created ++ newCommands process.database database = process.created
      rw [hnothing, List.append_nil]
    · obtain ⟨found, hfound, hid, hcases⟩ := finishRun_cases hfinish
      intro other hother hrunning
      have hmem : other ∈ database.runs := hother
      have hbefore : other ∈ process.database.runs ∧ other.id ≠ run.id := by
        cases hcases with
        | inl hsame =>
          rw [hsame.2] at hmem
          refine ⟨hmem, ?_⟩
          intro hequal
          have hone := h.ledger.unique hmem hfound (hequal.trans hid.symm)
          rw [hone] at hrunning
          exact hsame.1 hrunning
        | inr hfinished =>
          obtain ⟨-, next, -, -, hstatus, hruns, -, -⟩ := hfinished
          cases mem_finished hruns hmem with
          | inl hnext =>
            rw [hnext] at hrunning
            exact absurd hrunning hstatus
          | inr hold => exact ⟨hold.1, hid ▸ hold.2⟩
      cases hawaits other hbefore.1 hrunning with
      | inl hactive => exact .inl hactive
      | inr hwaits =>
        cases List.mem_cons.mp hwaits with
        | inl hsame => exact absurd hsame hbefore.2
        | inr hlater => exact .inr hlater

theorem recoverRuns_spec {outcome : RoutineRun → Recovery} {waiting : List RoutineRun}
    (h : Sound process) (hserving : process.serving = false)
    (hsessions : ∀ run ∈ waiting, run.sessionId.isSome = true)
    (hawaits : Awaits process waiting) :
    Recovering process (process.recoverRuns host outcome waiting).1 ∧
      ((process.recoverRuns host outcome waiting).2 = true →
        Awaits (process.recoverRuns host outcome waiting).1 []) := by
  induction waiting generalizing process with
  | nil => exact ⟨⟨h, rfl, rfl⟩, fun _ => hawaits⟩
  | cons run rest ih =>
    have hsession := hsessions run (List.mem_cons_self)
    have hnone : run.sessionId.isNone = false := by
      rw [Option.isNone_eq_false_iff]
      exact hsession
    unfold Process.recoverRuns
    simp only [hnone, Bool.false_eq_true, if_false]
    cases hrecover : process.recoverRun host run (outcome run) with
    | error error =>
      refine ⟨⟨h, rfl, rfl⟩, ?_⟩
      intro hdone
      cases hdone
    | ok recovered =>
      obtain ⟨hrecovering, hrest⟩ := recoverRun_ok h hserving hawaits hrecover
      obtain ⟨hlater, hdone⟩ := ih hrecovering.sound (hrecovering.serving.trans hserving)
        (fun other hother => hsessions other (List.mem_cons_of_mem _ hother)) hrest
      exact ⟨hrecovering.trans hlater, hdone⟩

theorem Sound.start (h : Sound process) (outcome : RoutineRun → Recovery) :
    Sound (process.start host outcome) ∧
      (process.start host outcome).created = process.created := by
  unfold Process.start
  split
  · exact ⟨h, rfl⟩
  · rename_i hserving
    have hidle : process.serving = false := Bool.eq_false_iff.mpr hserving
    have hawaits : Awaits process
        (process.database.runs.filter fun run => decide (run.status = .running)) := by
      intro run hrun hrunning
      exact .inr (List.mem_map_of_mem (List.mem_filter.mpr ⟨hrun, decide_eq_true hrunning⟩))
    have hsessions : ∀ run ∈ process.database.runs.filter fun run =>
        decide (run.status = .running), run.sessionId.isSome = true := by
      intro run hrun
      obtain ⟨hmem, hrunning⟩ := List.mem_filter.mp hrun
      exact h.ledger.sessions run hmem (of_decide_eq_true hrunning)
    obtain ⟨hrecovering, hdone⟩ := @recoverRuns_spec host _ outcome _ h hidle hsessions hawaits
    dsimp only
    split
    · rename_i hrecovered
      refine ⟨⟨hrecovering.sound.ledger, hrecovering.sound.locks, ?_⟩, hrecovering.created⟩
      intro _ run hrun hrunning _
      cases hdone hrecovered run hrun hrunning with
      | inl hactive => exact hactive
      | inr hwaits => cases hwaits
    · exact ⟨hrecovering.sound, hrecovering.created⟩

theorem Sound.crash (h : Sound process) : Sound (process.crash host) := by
  refine ⟨h.ledger, List.nodup_nil, ?_⟩
  intro hserving
  cases hserving

/-- Every step keeps the invariant, and creates only the run that was minted for it. -/
theorem Sound.step (h : Sound process) {operation : ProcessOp host}
    (hfresh : ∀ id, mintedRun host operation = some id → id ∉ process.created.map Prod.snd) :
    Sound (operation.step host process) ∧
      ∀ entry ∈ (operation.step host process).created, entry ∈ process.created ∨
        mintedRun host operation = some entry.2 := by
  cases operation with
  | gateway operation =>
    refine ⟨h.gatewayStep hfresh, ?_⟩
    intro entry hentry
    simp only [ProcessOp.step, Process.gatewayStep] at hentry
    split at hentry
    · cases List.mem_append.mp hentry with
      | inl hold => exact .inl hold
      | inr hnew =>
        obtain ⟨routineId, outside, hstart, hid⟩ := newCommands_minted h.ledger
          (step_change process.gateway _) entry hnew
        rw [hid]
        exact .inr (startRequest_guard hstart).2.2
    · exact .inl hentry
  | finish id status finishedAt message =>
    refine ⟨h.finish id status finishedAt message, ?_⟩
    intro entry hentry
    simp only [ProcessOp.step, Process.finish] at hentry
    split at hentry
    · cases hfinish : finishRun host process.database process.gateway.stops id status finishedAt
          message with
      | error error =>
        simp only [hfinish] at hentry
        rw [(process.release_frame id).2] at hentry
        exact .inl hentry
      | ok database =>
        simp only [hfinish] at hentry
        cases List.mem_append.mp hentry with
        | inl hold => exact .inl hold
        | inr hnew =>
          have hchange : @RunChange host process.database none database :=
            finishRun_change hfinish
          obtain ⟨routineId, outside, hstart, -⟩ :=
            newCommands_minted h.ledger hchange entry hnew
          cases hstart
    · exact .inl hentry
  | release id =>
    refine ⟨h.release id, fun entry hentry => .inl ?_⟩
    exact (process.release_frame id).2 ▸ hentry
  | resume id =>
    simp only [ProcessOp.step]
    cases hresume : process.resume id with
    | error error => exact ⟨h, fun entry hentry => .inl hentry⟩
    | ok resumed =>
      refine ⟨h.resume hresume, ?_⟩
      obtain ⟨run, -, -, -, rfl⟩ := resume_ok hresume
      exact fun entry hentry => .inl hentry
  | start outcome =>
    obtain ⟨hsound, hcreated⟩ := @Sound.start host _ h outcome
    refine ⟨hsound, ?_⟩
    intro entry hentry
    exact .inl (hcreated ▸ hentry)
  | crash => exact ⟨h.crash, fun entry hentry => .inl hentry⟩

end Soundness

section Safety

variable {host : Host} {process : Process} {before after : BotDatabase}

/-- What a step does to a run: a finished one stays as it is, and a status that is given is an
event. -/
structure Moves (before after : BotDatabase) : Prop where
  settled : ∀ run ∈ before.runs, run.status ≠ .running → ∀ next ∈ after.runs,
    next.id = run.id → next = run
  told : ∀ next ∈ after.runs, next ∈ before.runs ∨ Announced after next

/-- What finishing runs keeps. -/
structure Finishes (before after : BotDatabase) : Prop where
  ids : after.runs.map (·.id) = before.runs.map (·.id)
  kept : ∀ run ∈ before.runs, run.status ≠ .running → run ∈ after.runs
  events : ∀ event ∈ before.hooks.events, event ∈ after.hooks.events
  told : ∀ next ∈ after.runs, next ∈ before.runs ∨ Announced after next

theorem Finishes.refl (database : BotDatabase) : Finishes database database :=
  ⟨rfl, fun _ hrun _ => hrun, fun _ hevent => hevent, fun _ hnext => .inl hnext⟩

theorem Finishes.trans {middle : BotDatabase} (h : Finishes before middle)
    (hrest : Finishes middle after) : Finishes before after := by
  refine ⟨hrest.ids.trans h.ids, ?_, ?_, ?_⟩
  · intro run hrun hfinished
    exact hrest.kept run (h.kept run hrun hfinished) hfinished
  · intro event hevent
    exact hrest.events event (h.events event hevent)
  · intro next hnext
    cases hrest.told next hnext with
    | inr hannounced => exact .inr hannounced
    | inl hmiddle =>
      cases h.told next hmiddle with
      | inl hold => exact .inl hold
      | inr hannounced =>
        obtain ⟨event, hevent, hid, hdata⟩ := hannounced
        exact .inr ⟨event, hrest.events event hevent, hid, hdata⟩

theorem recordRun_events {tables recorded : HookTables} {stops : List StopRequest}
    {commands : List CommandRow} {run : RoutineRun}
    (h : recordRun host tables stops commands run = .ok recorded) :
    ∀ event ∈ tables.events, event ∈ recorded.events := by
  intro event hevent
  unfold recordRun at h
  obtain ⟨announced, -, h⟩ := bind_ok h
  obtain ⟨⟨isNew, tables'⟩, hrecorded, h⟩ := bind_ok h
  have hafter : tables' = recorded := Except.ok.inj h
  cases (HookTransactions.recordEvent_cases hrecorded).2 with
  | inl hknown =>
    rw [← hafter, hknown.2.1]
    exact hevent
  | inr hnew =>
    rw [← hafter, hnew.2.2]
    exact List.mem_append_left _ hevent

theorem finishRun_finishes {stops : List StopRequest} {id : String} {status : RoutineRunStatus}
    {finishedAt : Int} {message : Option String}
    (hnodup : (before.runs.map (·.id)).Nodup)
    (h : finishRun host before stops id status finishedAt message = .ok after) :
    Finishes before after := by
  have hevents : ∀ event ∈ before.hooks.events, event ∈ after.hooks.events := by
    intro event hevent
    unfold finishRun at h
    split at h
    · cases h
    · split at h
      · cases h
      · split at h
        · split at h
          · cases h
            exact hevent
          · cases h
        · unfold finishRunRow at h
          obtain ⟨⟨⟩, -, h⟩ := bind_ok h
          obtain ⟨recorded, hrecorded, h⟩ := bind_ok h
          rw [← Except.ok.inj h]
          exact recordRun_events hrecorded event hevent
  obtain ⟨run, hrun, -, hcases⟩ := finishRun_cases h
  cases hcases with
  | inl hsame =>
    rw [hsame.2]
    exact .refl before
  | inr hfinished =>
    obtain ⟨hrunning, next, hid, -, -, hruns, -, hannounced⟩ := hfinished
    refine ⟨?_, ?_, hevents, ?_⟩
    · rw [hruns, List.map_map]
      refine List.map_congr_left ?_
      intro other _
      show (if other.id = run.id then next else other).id = other.id
      split
      · rename_i hsame
        exact hid.trans hsame.symm
      · rfl
    · intro other hother hfinished
      rw [hruns]
      refine List.mem_map.mpr ⟨other, hother, if_neg ?_⟩
      intro hsame
      have hone := List.inj_on_of_nodup_map hnodup hother hrun hsame
      exact hfinished (hone ▸ hrunning)
    · intro other hother
      cases mem_finished hruns hother with
      | inl hnext =>
        rw [hnext]
        exact .inr hannounced
      | inr hkept => exact .inl hkept.1

theorem recoverRuns_finishes {outcome : RoutineRun → Recovery} {waiting : List RoutineRun}
    (hnodup : (process.database.runs.map (·.id)).Nodup) :
    Finishes process.database (process.recoverRuns host outcome waiting).1.database ∧
      ∃ operations, (process.recoverRuns host outcome waiting).1.gateway =
        runGateway host process.gateway operations := by
  induction waiting generalizing process with
  | nil => exact ⟨.refl _, [], rfl⟩
  | cons run rest ih =>
    unfold Process.recoverRuns
    split
    · exact ih hnodup
    · cases hrecover : process.recoverRun host run (outcome run) with
      | error error => exact ⟨.refl _, [], rfl⟩
      | ok recovered =>
        cases houtcome : outcome run with
        | undecided =>
          rw [houtcome] at hrecover
          obtain ⟨found, -, -, -, rfl⟩ := resume_ok hrecover
          exact @ih { process with
            active := process.active ++ [(found.id, found.routineId)]
            lost := process.lost.filter fun other => decide (other ≠ found.id) } hnodup
        | unopened =>
          rw [houtcome] at hrecover
          cases hrecover
        | outcome status finishedAt message =>
          rw [houtcome] at hrecover
          obtain ⟨database, hfinish, hrecover⟩ := bind_ok hrecover
          have hfinishes := finishRun_finishes hnodup hfinish
          have hstep : GatewayOp.step host process.gateway
              (.finishRun run.id status finishedAt message) =
              process.gateway.withDatabase database := by
            show committed _ _ (finishRun host process.database process.gateway.stops run.id status
              finishedAt message) = _
            rw [hfinish]
            rfl
          rw [← Except.ok.inj hrecover]
          obtain ⟨hlater, operations, hoperations⟩ :=
            @ih (process.observe (process.gateway.withDatabase database))
              (hfinishes.ids ▸ hnodup)
          refine ⟨hfinishes.trans hlater, .finishRun run.id status finishedAt message :: operations,
            ?_⟩
          rw [hoperations]
          show _ = runGateway host (GatewayOp.step host process.gateway _) operations
          rw [hstep]
          rfl

theorem Sound.stepGateway (h : Sound process) (operation : ProcessOp host) :
    ∃ operations, (operation.step host process).gateway =
      runGateway host process.gateway operations := by
  cases operation with
  | gateway operation =>
    show ∃ operations, (process.gatewayStep host operation).gateway = _
    unfold Process.gatewayStep
    split
    · exact ⟨[guardLock host _ operation], rfl⟩
    · exact ⟨[], rfl⟩
  | finish id status finishedAt message =>
    rcases process.finish_gateway id status finishedAt message with
      hsame | ⟨database, hfinish, hnext⟩
    · exact ⟨[], hsame⟩
    · refine ⟨[.finishRun id status finishedAt message], hnext.trans ?_⟩
      show process.gateway.withDatabase database = committed _ _ (finishRun host process.database
        process.gateway.stops id status finishedAt message)
      rw [hfinish]
      rfl
  | release id => exact ⟨[], (process.release_frame id).1⟩
  | resume id =>
    simp only [ProcessOp.step]
    cases hresume : process.resume id with
    | error error => exact ⟨[], rfl⟩
    | ok resumed =>
      obtain ⟨run, -, -, -, rfl⟩ := resume_ok hresume
      exact ⟨[], rfl⟩
  | start outcome =>
    show ∃ operations, (process.start host outcome).gateway = _
    unfold Process.start
    split
    · exact ⟨[], rfl⟩
    · obtain ⟨-, operations, hoperations⟩ := @recoverRuns_finishes host process outcome
        (process.database.runs.filter fun run => decide (run.status = .running)) h.ledger.runs
      dsimp only
      split
      · exact ⟨operations, hoperations⟩
      · exact ⟨operations, hoperations⟩
  | crash => exact ⟨[.crash], rfl⟩

/-- A run keeps the invariant, when the identifiers minted for runs are distinct, and is a run of
the gateway. -/
theorem Sound.run {operations : List (ProcessOp host)} (h : Sound process)
    (hdistinct : (operations.filterMap (mintedRun host)).Nodup)
    (hfresh : ∀ id ∈ operations.filterMap (mintedRun host), id ∉ process.created.map Prod.snd) :
    Sound (runProcess host process operations) ∧ ∃ steps,
      (runProcess host process operations).gateway = runGateway host process.gateway steps := by
  induction operations generalizing process with
  | nil => exact ⟨h, [], rfl⟩
  | cons operation rest ih =>
    have hminted : ∀ id, mintedRun host operation = some id →
        id ∈ (operation :: rest).filterMap (mintedRun host) := by
      intro id hid
      exact List.mem_filterMap.mpr ⟨operation, List.mem_cons_self, hid⟩
    obtain ⟨hsound, hcreated⟩ := h.step fun id hid => hfresh id (hminted id hid)
    have hlater : (rest.filterMap (mintedRun host)).Sublist
        ((operation :: rest).filterMap (mintedRun host)) :=
      (List.sublist_cons_self operation rest).filterMap _
    have hrest : ∀ id ∈ rest.filterMap (mintedRun host),
        id ∉ (operation.step host process).created.map Prod.snd := by
      intro id hid hmem
      obtain ⟨entry, hentry, rfl⟩ := List.mem_map.mp hmem
      cases hcreated entry hentry with
      | inl hold => exact hfresh _ (hlater.subset hid) (List.mem_map_of_mem hold)
      | inr hnow =>
        rw [List.filterMap_cons_some hnow, List.nodup_cons] at hdistinct
        exact hdistinct.1 hid
    obtain ⟨first, hfirst⟩ := h.stepGateway operation
    obtain ⟨hend, second, hsecond⟩ := ih hsound (hdistinct.sublist hlater) hrest
    refine ⟨hend, first ++ second, ?_⟩
    show (runProcess host (operation.step host process) rest).gateway = _
    rw [hsecond, hfirst]
    exact List.foldl_append.symm

/-- A process before its first start, over a database without runs. -/
structure Begins (process : Process) : Prop where
  fresh : HookDelivery.Fresh process.gateway
  runs : process.database.runs = []
  commands : process.database.commands = []
  active : process.active = []
  serving : process.serving = false
  created : process.created = []
  trace : process.trace = []

theorem Begins.sound (h : Begins process) : Sound process := by
  refine ⟨⟨?_, ?_, ?_, ?_, ?_, ?_, ?_, ?_, ?_⟩, ?_, ?_⟩
  · rw [h.runs]
    exact List.nodup_nil
  · rw [h.runs, h.commands]
    rfl
  · rw [h.commands]
    exact List.nodup_nil
  · rw [h.created]
    exact List.nodup_nil
  · rw [h.commands]
    exact List.forall_mem_nil _
  · rw [h.runs]
    exact List.forall_mem_nil _
  · intro id
    rw [h.trace]
    exact .unknown
  · rw [h.trace]
    exact List.forall_mem_nil _
  · rw [h.runs]
    exact List.forall_mem_nil _
  · rw [h.active]
    exact List.nodup_nil
  · intro hserving
    rw [h.serving] at hserving
    cases hserving

theorem Sound.recorded (h : Sound process) {entry : String × String}
    (hentry : entry ∈ process.created) (hrun : entry.2 ∈ process.database.runs.map (·.id)) :
    ∃ row ∈ process.database.commands, row.commandId = entry.1 ∧ row.runId = entry.2 := by
  rw [← h.ledger.receipts] at hrun
  obtain ⟨row, hrow, hid⟩ := List.mem_map.mp hrun
  have hsame : (row.commandId, row.runId) = entry :=
    List.inj_on_of_nodup_map h.ledger.once (h.ledger.kept row hrow) hentry hid
  exact ⟨row, hrow, congrArg Prod.fst hsame, hid⟩

theorem Sound.overlap (h : Sound process) (hserving : process.serving = true)
    {first second : RoutineRun} (hfirst : first ∈ process.database.runs)
    (hsecond : second ∈ process.database.runs) (hrunning : first.status = .running)
    (hrunning' : second.status = .running) (hlost : first.id ∉ process.lost)
    (hlost' : second.id ∉ process.lost) (hroutine : first.routineId = second.routineId) :
    first = second := by
  have hlock := h.held hserving first hfirst hrunning hlost
  have hlock' := h.held hserving second hsecond hrunning' hlost'
  have hsame : (first.id, first.routineId) = (second.id, second.routineId) :=
    List.inj_on_of_nodup_map h.locks hlock hlock' hroutine
  exact h.ledger.unique hfirst hsecond (congrArg Prod.fst hsame)

end Safety

section Samples

open RoutineRuns HookDelivery

/-- A process that was not started. -/
def helperProcess : Process where
  gateway := helperGateway

/-- A routine without bindings is created. -/
def routineCreated (id : Nat) : ProcessOp plainHost :=
  .gateway (.create helper.id ⟨"/work", "Report", []⟩ work none (minted id) (minted 3) (minted id)
    10)

/-- A user sends a command to a routine. -/
def sent (routine : Nat) (action : RoutineAction) (commandId : String) (run : Nat) :
    ProcessOp plainHost :=
  .gateway (.command ⟨(minted routine).1, action⟩ commandId
    { aside with
      runId := minted run
      eventId := minted run })

/-- A routine is started, its session ends and is opened again, and the run finishes; it is started
again under the same command before and is deleted, and another routine is started under that
command. -/
def restarted : List (ProcessOp plainHost) :=
  [.start fun _ => .unopened, routineCreated 2, sent 2 .start "again" 5, sent 2 .start "again" 6,
    .release (minted 5).1, .resume (minted 5).1, .finish (minted 5).1 .succeeded 30 none,
    sent 2 .delete "again" 7, routineCreated 8, sent 8 .start "again" 9]

/-- A run of a routine goes on in a process that serves. -/
def running : Process :=
  runProcess plainHost helperProcess
    [.start fun _ => .unopened, routineCreated 2, sent 2 .start "first" 5]

end Samples

end MobiusAgent.RoutineInvocations
