import MobiusAgent.BotCatalog

/-!
# The bindings of the catalog and their rows

The bindings of a routine are stored twice: in the catalog, and as rows of
`hook_bindings` that `record_event` reads. Every operation of `bots.rs` that
writes the catalog or the hook tables is a step of a history here. After each
of them the rows of the routines are compared with the catalog, and the pending
rows of the outbox with the bindings that are left.
-/

namespace MobiusAgent.BindingMirror

open JsonValue ProtocolEvents CheckpointRecords CheckpointValidation MessageQueue HookRecords
open RoutineSchedules HookStore RoutineCatalog HookTransactions HookDispatch RoutinePolling
open RoutineRuns BotCatalog

section Histories

/-- The store along a history, with two lists of what earlier steps left over. -/
structure History where
  store : BotStore := {}
  /-- `routine_stop_requests`. -/
  stops : List StopRequest := []
  /-- The rows that were pending after their routine or their Bot was deleted. -/
  stranded : List String := []
  /-- The sessions that were closed again by a fact that was recorded before, since a routine was
  saved last. -/
  reclosed : List SessionId := []

def History.hooks (history : History) : HookTables := history.store.database.hooks

def History.state (history : History) : BotState := history.store.database.catalog.getD {}

/-- The history with another database; stop requests go with their runs. -/
def History.withDatabase (history : History) (database : BotDatabase) : History :=
  { history with
    store := { history.store with database := database }
    stops := keptStops database history.stops }

def History.withHooks (history : History) (hooks : HookTables) : History :=
  history.withDatabase { history.store.database with hooks := hooks }

def isBound (tables : HookTables) (botId id : String) : Bool := (tables.binding? botId id).isSome

/-- The rows that are pending after their bindings are gone. -/
def leftOver (before after : HookTables) : List String :=
  (after.outbox.filter fun row => !row.accepted && isBound before row.botId row.bindingId &&
    !isBound after row.botId row.bindingId).map (·.id)

/-- The sessions that events close although the events are recorded. -/
def closedAgain (tables : HookTables) (events : List HookEvent) : List SessionId :=
  (events.filter fun event => (tables.event? event.id).isSome).filterMap fun event =>
    (closedSession event).toOption

/-- A routine that is saved records a fact, and all rows are written again. -/
def renewed (reclosed : List SessionId) (before after : HookTables) : List SessionId :=
  if after.events.length = before.events.length then reclosed else []

variable (host : Host)

/-- An operation that writes the catalog or the hook tables. -/
inductive HistoryOp where
  /-- An operation on the Bots, their routines or the timers, or sources are closed. -/
  | catalog (operation : CatalogOp host)
  | subscribe (botId : String) (binding : HookBinding BotAction) (enabled : Bool)
      (afterSequence : Nat) (now : Int)
  | record (event : HookEvent)
  /-- A journal record of a session is projected. -/
  | project (event : HookEvent) (sequence : Nat)
  | advance (sessionId : SessionId) (botId : String) (sequence : Nat)
  | accept (id : String)
  | fail (id error : String) (retryAt : Option Int)
  | beginRun (id commandId : String) (cause : Option HookEvent) (lockFree : Bool)
      (runId : Uuid host) (sessionId : SessionId) (now : Int)
  | stopRun (runId commandId : String) (cause : Option HookEvent)
  | finishRun (id : String) (status : RoutineRunStatus) (finishedAt : Int)
      (message : Option String)
  | deleteRun (id : String)

/-- What a step on the catalog leaves over. -/
def History.afterCatalog (history : History) (operation : CatalogOp host) (store : BotStore) :
    History :=
  let after := { history with store := store, stops := keptStops store.database history.stops }
  match operation with
  | .deleteBot .. =>
    { after with stranded := history.stranded ++ leftOver history.hooks store.database.hooks }
  | .routine (.delete ..) =>
    { after with stranded := history.stranded ++ leftOver history.hooks store.database.hooks }
  | .routine _ =>
    { after with reclosed := renewed history.reclosed history.hooks store.database.hooks }
  | .close events => { after with reclosed := history.reclosed ++ closedAgain history.hooks events }
  | _ => after

/-- The history after an operation. -/
def HistoryOp.apply (history : History) : HistoryOp host → Except Error History
  | .catalog operation => (operation.apply host history.store).map (history.afterCatalog host operation)
  | .subscribe botId binding enabled afterSequence now =>
    (setSubscription host history.store.database botId binding enabled afterSequence now).map
      history.withDatabase
  | .record event => (recordHook host history.store.database event).map history.withDatabase
  | .project event sequence =>
    (projectSession host history.hooks event sequence).map fun result => history.withHooks result.2
  | .advance sessionId botId sequence =>
    (advanceSourceCursor history.hooks sessionId botId sequence).map history.withHooks
  | .accept id => .ok (history.withHooks (acceptAction history.hooks (some id)))
  | .fail id error retryAt => .ok (history.withHooks (actionFailed history.hooks id error retryAt))
  | .beginRun id commandId cause lockFree runId sessionId now =>
    (HookDispatch.beginRun host history.store.database history.stops id commandId cause lockFree
      runId sessionId now).map fun result => history.withDatabase result.2
  | .stopRun runId commandId cause =>
    (requestRunStop history.store.database history.stops runId commandId cause).map fun stops =>
      { history with stops := stops }
  | .finishRun id status finishedAt message =>
    (HookDispatch.finishRun host history.store.database history.stops id status finishedAt
      message).map history.withDatabase
  | .deleteRun id => (HookDispatch.deleteRun host history.store.database id).map
      history.withDatabase

/-- The history after a step; one that fails changes nothing. -/
def HistoryOp.step (history : History) (operation : HistoryOp host) : History :=
  match operation.apply host history with
  | .ok after => after
  | .error _ => history

def runHistory (history : History) (operations : List (HistoryOp host)) : History :=
  operations.foldl (HistoryOp.step host) history

end Histories

section Statements

/-- The row of a routine binding: the same filter, the action as a command of the routine, and
enabled, also while the routine is paused. -/
structure Mirrors (routine : StoredRoutine) (stored : StoredRoutineBinding RoutineAction)
    (row : BindingRow) : Prop where
  botId : row.botId = routine.botId
  id : row.id = stored.definition.id
  routineId : row.routineId = some routine.id
  selector : row.selector = stored.definition.on
  action : row.action = .routine ⟨routine.id, stored.definition.action⟩
  enabled : row.enabled = true

def closesSource (event : HookEvent) : Bool := (closedSession event).toOption.isSome

/-- The rows mirror the catalog, and pending rows have their bindings. -/
structure BindingsMirrored (history : History) : Prop where
  held : ∀ routine ∈ history.state.routines, ∀ stored ∈ routine.bindings,
    ∃ row ∈ history.hooks.bindings, Mirrors routine stored row
  /-- Every row of a routine is that of a binding, unless it names a session that was closed
  again and no routine was saved since. -/
  rows : ∀ row ∈ history.hooks.bindings, row.routineId ≠ none →
    (∃ routine ∈ history.state.routines, ∃ stored ∈ routine.bindings, Mirrors routine stored row) ∨
      ∃ sessionId ∈ history.reclosed, selectsSession sessionId row.selector = true
  keys : (bindingKeys history.hooks).Nodup
  /-- A pending row has its binding and its Bot, or was created by the fact that closed its source,
  or its routine or its Bot was deleted. -/
  pending : ∀ row ∈ history.hooks.outbox, row.accepted = false →
    (∃ binding ∈ history.hooks.bindings, binding.botId = row.botId ∧ binding.id = row.bindingId ∧
      ∃ bot ∈ history.state.bots, bot.id = row.botId) ∨
    (∃ event ∈ history.hooks.events, event.id = row.eventId ∧ closesSource event = true) ∨
    row.id ∈ history.stranded

end Statements

section Tables

variable {tables saved after : HookTables} {stranded : List String}

/-- Whether a selector takes the events of a source. -/
def selectsSource : HookSelector → HookSource → Bool
  | .event selected _ _ _ _, source => decide (selected = source)
  | .schedule .., .schedule _ _ => true
  | .schedule .., _ => false

/-- A row has its event, and the event closed its source or is taken by the binding of the row. -/
def Attached (tables : HookTables) (row : OutboxRow) : Prop :=
  ∃ event ∈ tables.events, event.id = row.eventId ∧ (closesSource event = true ∨
    ∃ binding ∈ tables.bindings, binding.botId = row.botId ∧ binding.id = row.bindingId ∧
      selectsSource binding.selector event.source = true)

/-- The pending rows have their bindings. -/
structure Bound (stranded : List String) (tables : HookTables) : Prop where
  keys : (bindingKeys tables).Nodup
  pending : ∀ row ∈ tables.outbox, row.accepted = false → row.id ∈ stranded ∨ Attached tables row

theorem Bound.same (h : Bound stranded tables) {first second : BindingRow}
    (hfirst : first ∈ tables.bindings) (hsecond : second ∈ tables.bindings)
    (hbot : first.botId = second.botId) (hid : first.id = second.id) : first = second := by
  refine List.inj_on_of_nodup_map h.keys hfirst hsecond ?_
  rw [Prod.mk.injEq]
  exact ⟨hbot, hid⟩

variable {botId : String} {event : HookEvent}

theorem isBound_iff {id : String} : isBound tables botId id = true ↔
    ∃ row ∈ tables.bindings, row.botId = botId ∧ row.id = id := by
  unfold isBound HookTables.binding?
  rw [List.find?_isSome]
  simp only [Bool.and_eq_true, decide_eq_true_eq]

theorem Bound.accept (h : Bound stranded tables) (id : Option String) :
    Bound stranded (acceptAction tables id) := by
  cases id with
  | none => exact h
  | some id =>
    refine ⟨h.keys, ?_⟩
    intro row hrow hpending
    obtain ⟨old, hold, hsame⟩ := List.mem_map.mp hrow
    split at hsame
    · rw [← hsame] at hpending
      cases hpending
    · rw [← hsame] at hpending ⊢
      exact h.pending old hold hpending

theorem Bound.fail (h : Bound stranded tables) (id error : String) (retryAt : Option Int) :
    Bound stranded (actionFailed tables id error retryAt) := by
  refine ⟨h.keys, ?_⟩
  intro row hrow hpending
  obtain ⟨old, hold, hsame⟩ := List.mem_map.mp hrow
  split at hsame
  · rename_i hfailed
    rw [← hsame]
    exact h.pending old hold hfailed.2
  · rw [← hsame] at hpending ⊢
    exact h.pending old hold hpending

theorem Bound.advance (h : Bound stranded tables) {sessionId : SessionId} {sequence : Nat}
    {result : Bool × HookTables}
    (hadvance : advanceCursorRow tables sessionId botId sequence = .ok result) :
    Bound stranded result.2 ∧ result.2.bindings = tables.bindings := by
  unfold advanceCursorRow at hadvance
  split at hadvance
  · split at hadvance
    · cases hadvance
    · rw [← Except.ok.inj hadvance]
      exact ⟨⟨h.keys, h.pending⟩, rfl⟩
  · split at hadvance
    · cases hadvance
    · split at hadvance
      · cases hadvance
      · split at hadvance
        · rw [← Except.ok.inj hadvance]
          exact ⟨⟨h.keys, h.pending⟩, rfl⟩
        · rw [← Except.ok.inj hadvance]
          exact ⟨h, rfl⟩

theorem matchesSelector_source {selector : HookSelector}
    (h : matchesSelector selector event = true) : selectsSource selector event.source = true := by
  cases selector with
  | schedule schedule endsAt =>
    simp only [matchesSelector] at h
    split at h
    · rename_i hsource hdata
      rw [hsource]
      rfl
    · cases h
  | event source kind routineOutcome sessionOutcome customName =>
    simp only [matchesSelector, Bool.and_eq_true, beq_iff_eq] at h
    simp only [selectsSource, decide_eq_true_eq]
    exact h.1.1.1.1

theorem newRows_attached {digest : String → String → String} {sequence : Option Nat}
    {row : OutboxRow} (h : row ∈ newRows digest tables event sequence) :
    Attached (withEvent digest tables event sequence) row := by
  unfold newRows at h
  split at h
  · cases h
  · obtain ⟨binding, hbinding, hrow⟩ := List.mem_map.mp h
    obtain ⟨hcandidate, hconsumes⟩ := List.mem_filter.mp hbinding
    obtain ⟨hmem, -⟩ := List.mem_filter.mp hcandidate
    have hmatches : matchesSelector binding.selector event = true := by
      unfold consumes at hconsumes
      simp only [Bool.and_eq_true] at hconsumes
      exact hconsumes.1.1.1.2
    rw [← hrow]
    exact ⟨event, List.mem_append_right _ (List.mem_singleton_self _), rfl,
      .inr ⟨binding, hmem, rfl, rfl, matchesSelector_source hmatches⟩⟩

theorem Bound.record (h : Bound stranded tables) {digest : String → String → String}
    {sequence : Option Nat} {result : Bool × HookTables}
    (hrecord : recordEvent digest tables event sequence = .ok result) :
    Bound stranded result.2 ∧ result.2.bindings = tables.bindings := by
  obtain ⟨-, hcases⟩ := @recordEvent_cases digest tables result.2 event sequence result.1 hrecord
  cases hcases with
  | inl hold =>
    rw [hold.2.1]
    exact ⟨h, rfl⟩
  | inr hnew =>
    rw [hnew.2.2]
    refine ⟨⟨h.keys, ?_⟩, rfl⟩
    intro row hrow hpending
    cases List.mem_append.mp hrow with
    | inl hbefore =>
      cases h.pending row hbefore hpending with
      | inl hleft => exact .inl hleft
      | inr hattached =>
        obtain ⟨found, hfound, hattached⟩ := hattached
        exact .inr ⟨found, List.mem_append_left _ hfound, hattached⟩
    | inr hfresh => exact .inr (newRows_attached hfresh)

theorem Bound.rebind (h : Bound stranded tables) (hkeys : (bindingKeys after).Nodup)
    (hevents : after.events = tables.events) (houtbox : ∀ row ∈ after.outbox, row ∈ tables.outbox)
    (hbindings : ∀ row ∈ after.outbox, row.accepted = false → ∀ binding ∈ tables.bindings,
      binding.botId = row.botId → binding.id = row.bindingId →
      ∃ kept ∈ after.bindings, kept.botId = row.botId ∧ kept.id = row.bindingId ∧
        kept.selector = binding.selector) : Bound stranded after := by
  refine ⟨hkeys, ?_⟩
  intro row hrow hpending
  cases h.pending row (houtbox row hrow) hpending with
  | inl hleft => exact .inl hleft
  | inr hattached =>
    obtain ⟨event, hevent, hid, hcase⟩ := hattached
    refine .inr ⟨event, by rw [hevents]; exact hevent, hid, ?_⟩
    cases hcase with
    | inl hcloses => exact .inl hcloses
    | inr hbinding =>
      obtain ⟨binding, hmem, hbot, hname, hselects⟩ := hbinding
      obtain ⟨kept, hkept, hbot', hname', hselector⟩ :=
        hbindings row hrow hpending binding hmem hbot hname
      exact .inr ⟨kept, hkept, hbot', hname', by rw [hselector]; exact hselects⟩

theorem mem_dropPending {id : String} {row : OutboxRow} :
    row ∈ (dropPending tables botId id).outbox ↔ row ∈ tables.outbox ∧
      (row.botId = botId → row.bindingId = id → row.accepted = true) := by
  unfold dropPending
  rw [List.mem_filter]
  simp only [Bool.not_eq_true', Bool.and_eq_false_iff, decide_eq_false_iff_not,
    Bool.not_eq_false']
  constructor
  · rintro ⟨hmem, hkept⟩
    refine ⟨hmem, ?_⟩
    intro hbot hid
    rcases hkept with (hother | hother) | haccepted
    · exact absurd hbot hother
    · exact absurd hid hother
    · exact haccepted
  · rintro ⟨hmem, hkept⟩
    refine ⟨hmem, ?_⟩
    by_cases hbot : row.botId = botId
    · by_cases hid : row.bindingId = id
      · exact .inr (hkept hbot hid)
      · exact .inl (.inr hid)
    · exact .inl (.inl hbot)

theorem Bound.remove (h : Bound stranded tables) (botId id : String) :
    Bound stranded (removeBinding tables botId id) := by
  refine h.rebind (h.keys.sublist (List.filter_sublist.map _)) rfl ?_ ?_
  · intro row hrow
    exact (mem_dropPending.mp hrow).1
  · intro row hrow hpending binding hbinding hbot hname
    refine ⟨binding, List.mem_filter.mpr ⟨hbinding, ?_⟩, hbot, hname, rfl⟩
    rw [Bool.not_eq_true', Bool.and_eq_false_iff, decide_eq_false_iff_not,
      decide_eq_false_iff_not, ← not_and_or]
    rintro ⟨hbot', hname'⟩
    have haccepted := (mem_dropPending.mp hrow).2 (hbot.symm.trans hbot') (hname.symm.trans hname')
    rw [hpending] at haccepted
    cases haccepted

/-- What is known after a binding is put under its key. -/
structure BindingPut (tables saved : HookTables) (botId : String) (routineId : Option String)
    (binding : HookBinding BotAction) (enabled : Bool) : Prop where
  keys : (bindingKeys saved).Nodup
  put : ∃ row ∈ saved.bindings, row.botId = botId ∧ row.id = binding.id ∧
    row.routineId = routineId ∧ row.selector = binding.on ∧ row.action = binding.action ∧
    row.enabled = enabled
  others : ∀ row, ¬ (row.botId = botId ∧ row.id = binding.id) →
    (row ∈ saved.bindings ↔ row ∈ tables.bindings)
  /-- The row before it had the same routine, and the same selector unless its pending rows were
  dropped. -/
  previous : ∀ row ∈ tables.bindings, row.botId = botId → row.id = binding.id →
    row.routineId = routineId ∧ (row.selector = binding.on ∨ ∀ pending ∈ saved.outbox,
      pending.botId = botId → pending.bindingId = binding.id → pending.accepted = true)
  outbox : ∀ row ∈ saved.outbox, row ∈ tables.outbox
  events : saved.events = tables.events

theorem saveBinding_put (hkeys : (bindingKeys tables).Nodup) {routineId : Option String}
    {binding : HookBinding BotAction} {enabled : Bool} {sequence : Nat} {now : Int}
    (h : saveBinding tables botId routineId binding enabled sequence now = .ok saved) :
    BindingPut tables saved botId routineId binding enabled := by
  have hnodup := (saveBinding_saved h).keys hkeys
  unfold saveBinding at h
  obtain ⟨⟨⟩, -, h⟩ := bind_ok h
  dsimp only at h
  cases hprevious : tables.binding? botId binding.id with
  | none =>
    rw [hprevious] at h
    have hnone : ∀ row ∈ tables.bindings, row.botId = botId → row.id = binding.id → False := by
      intro row hrow hbot hid
      have hbound : isBound tables botId binding.id = true := isBound_iff.mpr ⟨row, hrow, hbot, hid⟩
      unfold isBound at hbound
      rw [hprevious] at hbound
      cases hbound
    have hsaved : saved.bindings = tables.bindings ++ [⟨botId, binding.id, routineId, binding.on,
        binding.action, enabled, sequence, now⟩] ∧ (∀ row ∈ saved.outbox, row ∈ tables.outbox) ∧
        saved.events = tables.events := by
      rw [← Except.ok.inj h]
      split
      · exact ⟨rfl, fun row hrow => hrow, rfl⟩
      · exact ⟨rfl, fun row hrow => (mem_dropPending.mp hrow).1, rfl⟩
    refine ⟨hnodup, ?_, ?_, ?_, hsaved.2.1, hsaved.2.2⟩
    · refine ⟨⟨botId, binding.id, routineId, binding.on, binding.action, enabled, sequence, now⟩,
        ?_, rfl, rfl, rfl, rfl, rfl, rfl⟩
      rw [hsaved.1]
      exact List.mem_append_right _ (List.mem_singleton_self _)
    · intro row hother
      rw [hsaved.1, List.mem_append, List.mem_singleton]
      constructor
      · intro hrow
        cases hrow with
        | inl hold => exact hold
        | inr hnew => exact absurd ⟨by rw [hnew], by rw [hnew]⟩ hother
      · exact .inl
    · intro row hrow hbot hid
      exact (hnone row hrow hbot hid).elim
  | some previous =>
    rw [hprevious] at h
    dsimp only at h
    split at h
    · cases h
    rename_i howner
    have hfound := List.mem_of_find?_eq_some hprevious
    obtain ⟨hbot, hid⟩ := binding?_key hprevious
    have hsame : ∀ row ∈ tables.bindings, row.botId = botId → row.id = binding.id →
        row = previous := by
      intro row hrow hrowBot hrowId
      refine List.inj_on_of_nodup_map hkeys hrow hfound ?_
      rw [Prod.mk.injEq]
      exact ⟨hrowBot.trans hbot.symm, hrowId.trans hid.symm⟩
    set change : BindingRow → BindingRow := fun other =>
      if other.botId = botId ∧ other.id = binding.id then
        mergeBinding other ⟨botId, binding.id, routineId, binding.on, binding.action, enabled,
          sequence, now⟩
      else other with hchange
    have hbindings : saved.bindings = tables.bindings.map change ∧
        (∀ row ∈ saved.outbox, row ∈ tables.outbox) ∧ saved.events = tables.events := by
      rw [← Except.ok.inj h]
      split
      · exact ⟨rfl, fun row hrow => (mem_dropPending.mp hrow).1, rfl⟩
      · exact ⟨rfl, fun row hrow => hrow, rfl⟩
    refine ⟨hnodup, ?_, ?_, ?_, hbindings.2.1, hbindings.2.2⟩
    · refine ⟨change previous, ?_, ?_⟩
      · rw [hbindings.1]
        exact List.mem_map_of_mem hfound
      · rw [hchange]
        dsimp only
        rw [if_pos ⟨hbot, hid⟩]
        exact ⟨hbot, hid, not_not.mp howner, rfl, rfl, rfl⟩
    · intro row hother
      rw [hbindings.1, List.mem_map]
      constructor
      · rintro ⟨old, hold, hrow⟩
        rw [hchange] at hrow
        dsimp only at hrow
        split at hrow
        · rename_i hkey
          rw [← hrow] at hother
          exact absurd hkey hother
        · rw [← hrow]
          exact hold
      · intro hrow
        refine ⟨row, hrow, ?_⟩
        rw [hchange]
        exact if_neg hother
    · intro row hrow hrowBot hrowId
      rw [hsame row hrow hrowBot hrowId]
      refine ⟨not_not.mp howner, ?_⟩
      by_cases hselector : previous.selector = binding.on
      · exact .inl hselector
      · right
        intro pending hpending hpendingBot hpendingId
        rw [← Except.ok.inj h] at hpending
        have hdropped : (!enabled || (decide (previous.selector ≠ binding.on) ||
            decide (previous.action ≠ binding.action))) = true := by
          simp [hselector]
        rw [if_pos hdropped] at hpending
        exact (mem_dropPending.mp hpending).2 hpendingBot hpendingId

theorem Bound.put (h : Bound stranded tables) {routineId : Option String}
    {binding : HookBinding BotAction} {enabled : Bool}
    (hput : BindingPut tables saved botId routineId binding enabled) : Bound stranded saved := by
  refine h.rebind hput.keys hput.events hput.outbox ?_
  intro row hrow hpending old hold hbot hid
  by_cases hkey : old.botId = botId ∧ old.id = binding.id
  · obtain ⟨-, hkept⟩ := hput.previous old hold hkey.1 hkey.2
    obtain ⟨new, hnew, hnewBot, hnewId, -, hselector, -, -⟩ := hput.put
    cases hkept with
    | inl hsame =>
      exact ⟨new, hnew, hnewBot.trans (hkey.1.symm.trans hbot),
        hnewId.trans (hkey.2.symm.trans hid), hselector.trans hsame.symm⟩
    | inr hdropped =>
      have haccepted := hdropped row hrow (hbot.symm.trans hkey.1) (hid.symm.trans hkey.2)
      rw [hpending] at haccepted
      cases haccepted
  · exact ⟨old, (hput.others old hkey).mpr hold, hbot, hid, rfl⟩

end Tables

section Syncing

variable {tables saved : HookTables} {stranded : List String} {routine : StoredRoutine} {now : Int}

theorem Bound.removeClosed (h : Bound stranded tables) (routines : List StoredRoutine)
    (rows : List BindingRow) : Bound stranded (removeClosed routines rows tables) := by
  induction rows generalizing tables with
  | nil => exact h
  | cons row rest ih =>
    unfold RoutineCatalog.removeClosed
    split
    · exact ih (h.remove row.botId row.id)
    · exact ih h

variable {row : BindingRow} {routines : List StoredRoutine}
  {bindings : List (StoredRoutineBinding RoutineAction)}

theorem removeClosed_mem {rows : List BindingRow}
    (h : row ∈ (removeClosed routines rows tables).bindings) :
    row ∈ tables.bindings ∧ (row ∈ rows → row.routineId ≠ none →
      holdsBinding routines row = true) := by
  induction rows generalizing tables with
  | nil => exact ⟨h, fun hrow => absurd hrow List.not_mem_nil⟩
  | cons first rest ih =>
    unfold removeClosed at h
    split at h
    · rename_i hclosed
      obtain ⟨hmem, hheld⟩ := ih h
      obtain ⟨hmem, hkept⟩ := List.mem_filter.mp hmem
      refine ⟨hmem, ?_⟩
      intro hrow howned
      cases List.mem_cons.mp hrow with
      | inl hfirst =>
        rw [hfirst] at hkept
        simp at hkept
      | inr hrest => exact hheld hrest howned
    · rename_i hopen
      obtain ⟨hmem, hheld⟩ := ih h
      refine ⟨hmem, ?_⟩
      intro hrow howned
      cases List.mem_cons.mp hrow with
      | inl hfirst =>
        rw [Bool.and_eq_true, Option.isSome_iff_ne_none, Bool.not_eq_true', not_and,
          Bool.not_eq_false] at hopen
        rw [hfirst] at howned ⊢
        exact hopen howned
      | inr hrest => exact hheld hrest howned

theorem Bound.saveBindings (h : Bound stranded tables)
    (hsave : saveRoutineBindings routine now bindings tables = .ok saved) :
    Bound stranded saved := by
  induction bindings generalizing tables with
  | nil =>
    rw [← Except.ok.inj hsave]
    exact h
  | cons stored rest ih =>
    obtain ⟨sequence, -, hsave⟩ := bind_ok hsave
    obtain ⟨between, hbetween, hsave⟩ := bind_ok hsave
    exact ih (h.put (saveBinding_put h.keys hbetween)) hsave

theorem saveRoutineBindings_keeps (h : Bound stranded tables)
    (hsave : saveRoutineBindings routine now bindings tables = .ok saved)
    (hrow : row ∈ tables.bindings)
    (hother : row.routineId ≠ some routine.id ∨
      ∀ stored ∈ bindings, stored.definition.id ≠ row.id) : row ∈ saved.bindings := by
  induction bindings generalizing tables with
  | nil =>
    rw [← Except.ok.inj hsave]
    exact hrow
  | cons stored rest ih =>
    obtain ⟨sequence, -, hsave⟩ := bind_ok hsave
    obtain ⟨between, hbetween, hsave⟩ := bind_ok hsave
    have hput := saveBinding_put h.keys hbetween
    refine ih (h.put hput) hsave ((hput.others row ?_).mpr hrow) ?_
    · rintro ⟨hbot, hid⟩
      have hrouted := (hput.previous row hrow hbot hid).1
      cases hother with
      | inl hroutine => exact hroutine hrouted
      | inr hids => exact hids stored List.mem_cons_self hid.symm
    · cases hother with
      | inl hroutine => exact .inl hroutine
      | inr hids => exact .inr fun later hlater => hids later (List.mem_cons_of_mem _ hlater)

theorem saveRoutineBindings_mirrors (h : Bound stranded tables)
    (hids : (bindings.map (·.definition.id)).Nodup)
    (hsave : saveRoutineBindings routine now bindings tables = .ok saved) :
    ∀ stored ∈ bindings, ∃ row ∈ saved.bindings, Mirrors routine stored row := by
  induction bindings generalizing tables with
  | nil => exact List.forall_mem_nil _
  | cons stored rest ih =>
    rw [List.map_cons, List.nodup_cons] at hids
    obtain ⟨sequence, -, hsave⟩ := bind_ok hsave
    obtain ⟨between, hbetween, hsave⟩ := bind_ok hsave
    have hput := saveBinding_put h.keys hbetween
    have hbound := h.put hput
    rw [List.forall_mem_cons]
    refine ⟨?_, ih hbound hids.2 hsave⟩
    obtain ⟨row, hrow, hbot, hid, hroutine, hselector, haction, henabled⟩ := hput.put
    refine ⟨row, saveRoutineBindings_keeps hbound hsave hrow (.inr ?_),
      hbot, hid, hroutine, hselector, haction, henabled⟩
    intro later hlater hsame
    have hmem : later.definition.id ∈ rest.map (·.definition.id) := List.mem_map_of_mem hlater
    rw [hsame, hid] at hmem
    exact hids.1 hmem

theorem saveRoutineBindings_mem (h : Bound stranded tables)
    (hsave : saveRoutineBindings routine now bindings tables = .ok saved)
    (hrow : row ∈ saved.bindings) : row ∈ tables.bindings ∨ ∃ stored ∈ bindings,
      row.botId = routine.botId ∧ row.id = stored.definition.id ∧
        row.routineId = some routine.id := by
  induction bindings generalizing tables with
  | nil =>
    rw [← Except.ok.inj hsave] at hrow
    exact .inl hrow
  | cons stored rest ih =>
    obtain ⟨sequence, -, hsave⟩ := bind_ok hsave
    obtain ⟨between, hbetween, hsave⟩ := bind_ok hsave
    have hput := saveBinding_put h.keys hbetween
    have hbound := h.put hput
    cases ih hbound hsave with
    | inr hlater =>
      obtain ⟨later, hmem, hfields⟩ := hlater
      exact .inr ⟨later, List.mem_cons_of_mem _ hmem, hfields⟩
    | inl hmem =>
      by_cases hkey : row.botId = routine.botId ∧ row.id = stored.definition.id
      · obtain ⟨new, hnew, hbot, hid, hroutine, -⟩ := hput.put
        have hsame := hbound.same hmem hnew (hkey.1.trans hbot.symm) (hkey.2.trans hid.symm)
        rw [hsame]
        exact .inr ⟨stored, List.mem_cons_self, hbot, hid, hroutine⟩
      · exact .inl ((hput.others row hkey).mp hmem)

theorem Bound.saveRoutines (h : Bound stranded tables)
    (hsave : saveRoutines now routines tables = .ok saved) : Bound stranded saved := by
  induction routines generalizing tables with
  | nil =>
    rw [← Except.ok.inj hsave]
    exact h
  | cons routine rest ih =>
    obtain ⟨between, hbetween, hsave⟩ := bind_ok hsave
    exact ih (h.saveBindings hbetween) hsave

theorem saveRoutines_keeps (h : Bound stranded tables)
    (hsave : saveRoutines now routines tables = .ok saved) (hrow : row ∈ tables.bindings)
    (hother : ∀ routine ∈ routines, row.routineId ≠ some routine.id) : row ∈ saved.bindings := by
  induction routines generalizing tables with
  | nil =>
    rw [← Except.ok.inj hsave]
    exact hrow
  | cons routine rest ih =>
    rw [List.forall_mem_cons] at hother
    obtain ⟨between, hbetween, hsave⟩ := bind_ok hsave
    exact ih (h.saveBindings hbetween) hsave
      (saveRoutineBindings_keeps h hbetween hrow (.inl hother.1)) hother.2

theorem saveRoutines_mirrors (h : Bound stranded tables) (hroutines : (routines.map (·.id)).Nodup)
    (hids : ∀ routine ∈ routines, (routine.bindings.map (·.definition.id)).Nodup)
    (hsave : saveRoutines now routines tables = .ok saved) :
    ∀ routine ∈ routines, ∀ stored ∈ routine.bindings,
      ∃ row ∈ saved.bindings, Mirrors routine stored row := by
  induction routines generalizing tables with
  | nil => exact List.forall_mem_nil _
  | cons routine rest ih =>
    rw [List.map_cons, List.nodup_cons] at hroutines
    rw [List.forall_mem_cons] at hids
    obtain ⟨between, hbetween, hsave⟩ := bind_ok hsave
    have hbound := h.saveBindings hbetween
    rw [List.forall_mem_cons]
    refine ⟨?_, ih hbound hroutines.2 hids.2 hsave⟩
    intro stored hstored
    obtain ⟨row, hrow, hmirrors⟩ := saveRoutineBindings_mirrors h hids.1 hbetween stored hstored
    refine ⟨row, saveRoutines_keeps hbound hsave hrow ?_, hmirrors⟩
    intro later hlater hsame
    have hid := Option.some.inj (hmirrors.routineId.symm.trans hsame)
    exact hroutines.1 (hid ▸ List.mem_map_of_mem hlater)

theorem saveRoutines_mem (h : Bound stranded tables)
    (hsave : saveRoutines now routines tables = .ok saved) (hrow : row ∈ saved.bindings) :
    row ∈ tables.bindings ∨
      (row.routineId ≠ none ∧ holdsBinding routines row = true) := by
  induction routines generalizing tables with
  | nil =>
    rw [← Except.ok.inj hsave] at hrow
    exact .inl hrow
  | cons routine rest ih =>
    obtain ⟨between, hbetween, hsave⟩ := bind_ok hsave
    cases ih (h.saveBindings hbetween) hsave with
    | inr hlater =>
      refine .inr ⟨hlater.1, ?_⟩
      unfold holdsBinding at hlater ⊢
      rw [List.any_cons, hlater.2, Bool.or_true]
    | inl hmem =>
      cases saveRoutineBindings_mem h hbetween hmem with
      | inl hold => exact .inl hold
      | inr hnew =>
        obtain ⟨stored, hstored, hbot, hid, hroutine⟩ := hnew
        right
        constructor
        · rw [hroutine]
          exact Option.some_ne_none _
        · have hany : (routine.bindings.any fun binding =>
              decide (binding.definition.id = row.id)) = true :=
            List.any_eq_true.mpr ⟨stored, hstored, by rw [hid]; exact decide_eq_true rfl⟩
          unfold holdsBinding
          rw [List.any_cons, hroutine, hbot, hany]
          simp

/-- What `sync_routine_bindings` establishes. -/
structure SyncedWith (routines : List StoredRoutine) (tables saved : HookTables) : Prop where
  held : ∀ routine ∈ routines, ∀ stored ∈ routine.bindings,
    ∃ row ∈ saved.bindings, Mirrors routine stored row
  rows : ∀ row ∈ saved.bindings, row.routineId ≠ none →
    ∃ routine ∈ routines, ∃ stored ∈ routine.bindings, Mirrors routine stored row
  others : ∀ row ∈ saved.bindings, row.routineId = none → row ∈ tables.bindings

theorem syncRoutineBindings_with (h : Bound stranded tables)
    (hroutines : (routines.map (·.id)).Nodup)
    (hids : ∀ routine ∈ routines, (routine.bindings.map (·.definition.id)).Nodup)
    (hsync : syncRoutineBindings tables routines now = .ok saved) :
    Bound stranded saved ∧ SyncedWith routines tables saved := by
  unfold syncRoutineBindings at hsync
  have hclosed := h.removeClosed routines tables.bindings
  have hbound := hclosed.saveRoutines hsync
  have hheld := saveRoutines_mirrors hclosed hroutines hids hsync
  refine ⟨hbound, hheld, ?_, ?_⟩
  · intro row hrow howned
    have hholds : holdsBinding routines row = true := by
      cases saveRoutines_mem hclosed hsync hrow with
      | inl hold =>
        obtain ⟨hmem, hkept⟩ := removeClosed_mem hold
        exact hkept hmem howned
      | inr hnew => exact hnew.2
    obtain ⟨routine, hroutine, hfields⟩ := List.any_eq_true.mp hholds
    simp only [Bool.and_eq_true, decide_eq_true_eq, List.any_eq_true] at hfields
    obtain ⟨⟨hid, hbot⟩, stored, hstored, hname⟩ := hfields
    obtain ⟨found, hfound, hmirrors⟩ := hheld routine hroutine stored hstored
    have hsame := hbound.same hrow hfound (hbot.symm.trans hmirrors.botId.symm)
      (hname.symm.trans hmirrors.id.symm)
    rw [hsame]
    exact ⟨routine, hroutine, stored, hstored, hmirrors⟩
  · intro row hrow hnone
    cases saveRoutines_mem hclosed hsync hrow with
    | inl hold => exact (removeClosed_mem hold).1
    | inr hnew => exact absurd hnone hnew.1

end Syncing

section Operations

variable {host : Host} {database after : BotDatabase} {state changed : BotState}
  {tables saved : HookTables} {stranded : List String} {reclosed : List SessionId} {now : Int}

/-- The tables agree with the catalog. -/
structure Agrees (stranded : List String) (reclosed : List SessionId) (state : BotState)
    (tables : HookTables) : Prop where
  bound : Bound stranded tables
  held : ∀ routine ∈ state.routines, ∀ stored ∈ routine.bindings,
    ∃ row ∈ tables.bindings, Mirrors routine stored row
  /-- Every row of a routine is that of a binding, unless it names a session that was closed
  again. -/
  rows : ∀ row ∈ tables.bindings, row.routineId ≠ none →
    (∃ routine ∈ state.routines, ∃ stored ∈ routine.bindings, Mirrors routine stored row) ∨
      ∃ sessionId ∈ reclosed, selectsSession sessionId row.selector = true
  owners : ∀ row ∈ tables.bindings, ∃ bot ∈ state.bots, bot.id = row.botId

theorem Agrees.mono {others : List SessionId} (h : Agrees stranded reclosed state tables)
    (hsubset : reclosed ⊆ others) : Agrees stranded others state tables :=
  ⟨h.bound, h.held, fun row hrow howned => (h.rows row hrow howned).imp_right
    fun ⟨sessionId, hsession, hselects⟩ => ⟨sessionId, hsubset hsession, hselects⟩, h.owners⟩

theorem Agrees.sameBindings (h : Agrees stranded reclosed state tables)
    (hbound : Bound stranded saved) (hbindings : saved.bindings = tables.bindings) :
    Agrees stranded reclosed state saved := by
  refine ⟨hbound, ?_, ?_, ?_⟩
  · rw [hbindings]
    exact h.held
  · rw [hbindings]
    exact h.rows
  · rw [hbindings]
    exact h.owners

theorem Agrees.withBots (h : Agrees stranded reclosed state tables)
    (hroutines : changed.routines = state.routines)
    (hbots : ∀ bot ∈ state.bots, ∃ other ∈ changed.bots, other.id = bot.id) :
    Agrees stranded reclosed changed tables := by
  refine ⟨h.bound, ?_, ?_, ?_⟩
  · rw [hroutines]
    exact h.held
  · rw [hroutines]
    exact h.rows
  · intro row hrow
    obtain ⟨bot, hbot, hid⟩ := h.owners row hrow
    obtain ⟨other, hother, hsame⟩ := hbots bot hbot
    exact ⟨other, hother, hsame.trans hid⟩

theorem freshState_eq (h : freshState host database = .ok state) :
    database.catalog.getD {} = state := by
  cases hcatalog : database.catalog with
  | none =>
    unfold freshState at h
    rw [hcatalog] at h
    exact Except.ok.inj h
  | some stored =>
    unfold freshState at h
    rw [hcatalog] at h
    obtain ⟨⟨⟩, -, h⟩ := bind_ok h
    obtain ⟨⟨⟩, -, h⟩ := bind_ok h
    obtain ⟨⟨⟩, -, h⟩ := bind_ok h
    exact Except.ok.inj h

/-- The bindings of a routine have their own identities. -/
def Distinct (routine : StoredRoutine) : Prop := (routine.bindings.map (·.definition.id)).Nodup

theorem distinct_of_valid {library : CronLibrary} {limit : Option Int} {routine : StoredRoutine}
    {bindings : List RoutineBinding}
    (h : validateBindings library limit bindings 0 = .ok ())
    (hids : routine.bindings.map (·.definition.id) = bindings.map (·.id)) : Distinct routine := by
  unfold Distinct
  rw [hids]
  exact (validateBindings_ok h).2

theorem freshState_distinct (h : freshState host database = .ok state) :
    ∀ routine ∈ state.routines, Distinct routine := by
  intro routine hroutine
  have hstate := freshState_eq h
  cases hcatalog : database.catalog with
  | none =>
    rw [hcatalog] at hstate
    rw [← hstate] at hroutine
    cases hroutine
  | some stored =>
    rw [hcatalog] at hstate
    have hstored : stored = state := hstate
    rw [hstored] at hcatalog
    obtain ⟨-, -, hvalid⟩ := freshState_parts hcatalog h
    refine distinct_of_valid (hvalid.routines routine hroutine).bindings ?_
    rw [List.map_map]
    rfl

theorem Bound.recordAll (h : Bound stranded tables) {events : List HookEvent}
    (hrecord : recordEvents host events tables = .ok saved) :
    Bound stranded saved ∧ saved.bindings = tables.bindings := by
  induction events generalizing tables with
  | nil =>
    rw [← Except.ok.inj hrecord]
    exact ⟨h, rfl⟩
  | cons event rest ih =>
    obtain ⟨recorded, hrecorded, hrecord⟩ := bind_ok hrecord
    obtain ⟨hbound, hbindings⟩ := h.record hrecorded
    obtain ⟨hrest, hsame⟩ := ih hbound hrecord
    exact ⟨hrest, hsame.trans hbindings⟩

variable {accepted : Option String} {eventId : Uuid host} {cause : Option HookEvent}
  {store : BotStore}

theorem Agrees.saves {routines : List StoredRoutine} {events : List HookEvent}
    (h : Agrees stranded reclosed state database.hooks)
    (hdistinct : ∀ routine ∈ routines, Distinct routine)
    (hsaves : SavesCatalog host database after { state with routines := routines } events now 
      accepted) : Agrees stranded [] (after.catalog.getD {}) after.hooks := by
  obtain ⟨-, hids, howners, -, -⟩ := validateState_ok_iff.mp hsaves.checked
  have hcommit := hsaves.commit
  unfold saveCatalogWithHooks at hcommit
  obtain ⟨synced, hsynced, hcommit⟩ := bind_ok hcommit
  obtain ⟨recorded, hrecorded, hcommit⟩ := bind_ok hcommit
  rw [← Except.ok.inj hcommit]
  obtain ⟨hbound, hwith⟩ := syncRoutineBindings_with (h.bound.accept accepted) hids hdistinct
    hsynced
  obtain ⟨hfilled, hbindings⟩ := hbound.recordAll hrecorded
  refine Agrees.sameBindings ⟨hbound, hwith.held, ?_, ?_⟩ hfilled hbindings
  · intro row hrow howned
    exact .inl (hwith.rows row hrow howned)
  · intro row hrow
    by_cases howned : row.routineId = none
    · have hold := hwith.others row hrow howned
      rw [(acceptAction_frame _ _).2.1] at hold
      exact h.owners row hold
    · obtain ⟨routine, hroutine, stored, hstored, hmirrors⟩ := hwith.rows row hrow howned
      obtain ⟨bot, hbot, hid⟩ := List.mem_map.mp (howners routine hroutine)
      exact ⟨bot, hbot, hid.trans hmirrors.botId.symm⟩

theorem Agrees.accepts (h : Agrees stranded reclosed state tables) (id : Option String) :
    Agrees stranded reclosed state (acceptAction tables id) :=
  h.sameBindings (h.bound.accept id) (acceptAction_frame tables id).2.1

/-- The store agrees with its tables. -/
def Agreed (stranded : List String) (reclosed : List SessionId) (database : BotDatabase) : Prop :=
  Agrees stranded reclosed (database.catalog.getD {}) database.hooks

theorem Agreed.synced {before : HookTables} (h : Agreed stranded [] database) :
    Agreed stranded (renewed reclosed before database.hooks) database :=
  h.mono (List.nil_subset _)

theorem Agreed.unchanged {before : HookTables} (h : Agreed stranded reclosed database)
    (hevents : database.hooks.events = before.events) :
    Agreed stranded (renewed reclosed before database.hooks) database := by
  unfold renewed
  rw [hevents, if_pos rfl]
  exact h

theorem createRoutine_agreed {created : BotStore} {botId : String}
    {definition : RoutineDefinition} {workspace : CanonicalWorkspace}
    {routineId fileId : Uuid host} (h : Agreed stranded reclosed store.database)
    (hcreate : createRoutine host store botId definition workspace cause routineId fileId eventId
      now = .ok created) : Agreed stranded [] created.database := by
  obtain ⟨hdefinition, state, bindings, event, hfresh, -, -, hbindings, -, hsaves⟩ :=
    createRoutine_cases hcreate
  unfold Agreed at h
  rw [freshState_eq hfresh] at h
  refine h.saves ?_ hsaves
  intro routine hroutine
  cases List.mem_append.mp hroutine with
  | inl hold => exact freshState_distinct hfresh routine hold
  | inr hnew =>
    rw [List.mem_singleton.mp hnew]
    refine distinct_of_valid (validateDefinition_bindings hdefinition) ?_
    have hsame : bindings.map (·.definition) = definition.bindings.map id :=
      mapM_definitions (fun _ _ hreset => reset_definition hreset) hbindings
    rw [List.map_id] at hsame
    rw [← hsame, List.map_map]
    rfl

theorem distinct_set {routines : List StoredRoutine} {index : Nat} {routine : StoredRoutine}
    (h : ∀ other ∈ routines, Distinct other) (hroutine : Distinct routine) :
    ∀ other ∈ routines.set index routine, Distinct other := by
  intro other hother
  cases List.mem_or_eq_of_mem_set hother with
  | inl hold => exact h other hold
  | inr hnew =>
    rw [hnew]
    exact hroutine

theorem updateRoutine_agreed {updated : BotStore} {id : String} {definition : RoutineDefinition}
    {workspace : CanonicalWorkspace} {lockFree : Bool} {fileId : Uuid host}
    (h : Agreed stranded reclosed store.database)
    (hupdate : updateRoutine host store id definition workspace cause accepted lockFree fileId
      eventId now = .ok updated) :
    Agreed stranded (renewed reclosed store.database.hooks updated.database.hooks)
      updated.database := by
  obtain ⟨hdefinition, state, index, routine, hfresh, -, -, -, hcase⟩ :=
    updateRoutine_cases hupdate
  unfold Agreed at h
  rw [freshState_eq hfresh] at h
  rcases hcase with rfl | ⟨bindings, event, hbindings, -, hsaves⟩
  · have hsame := h.accepts accepted
    rw [← freshState_eq hfresh] at hsame
    exact Agreed.unchanged hsame (acceptAction_frame _ accepted).1
  · refine Agreed.synced (h.saves (distinct_set (freshState_distinct hfresh) ?_) hsaves)
    have hdefinitions := validateDefinition_bindings hdefinition
    refine distinct_of_valid hdefinitions ?_
    have hrebuilt := @rebuildBindings_forall host now (fun _ => True) definition.bindings
      routine.bindings routine.bindings bindings hbindings (validateBindings_ok hdefinitions).2
      (fun prior hprior => hprior) (fun _ _ prior hprior _ => hprior) (fun _ _ => trivial)
      (fun _ _ _ _ hnew => ⟨reset_definition hnew, trivial⟩)
    exact forall₂_map_eq (hrebuilt.imp fun _ _ hpair => hpair.1)

theorem setRoutineEnabled_agreed {updated : BotStore} {id : String} {enabled : Bool}
    (h : Agreed stranded reclosed store.database)
    (hset : setRoutineEnabled host store id enabled cause accepted eventId now = .ok updated) :
    Agreed stranded (renewed reclosed store.database.hooks updated.database.hooks)
      updated.database := by
  obtain ⟨state, index, routine, hfresh, -, -, hroutine, hcase⟩ := setRoutineEnabled_cases hset
  unfold Agreed at h
  rw [freshState_eq hfresh] at h
  rcases hcase with rfl | ⟨-, bindings, event, hbindings, -, hsaves⟩
  · have hsame := h.accepts accepted
    rw [← freshState_eq hfresh] at hsame
    exact Agreed.unchanged hsame (acceptAction_frame _ accepted).1
  · refine Agreed.synced (h.saves (distinct_set (freshState_distinct hfresh) ?_) hsaves)
    have hold := freshState_distinct hfresh routine (routineAt_mem hroutine)
    unfold Distinct at hold ⊢
    have hsame := congrArg (List.map (·.id)) (resetTimers_definitions hbindings)
    rw [List.map_map, List.map_map] at hsame
    have hids : bindings.map (·.definition.id) = routine.bindings.map (·.definition.id) := hsame
    rw [hids]
    exact hold

theorem pollDue_agreed {result : RoutinePoll × BotStore}
    (h : Agreed stranded reclosed store.database) (hpoll : pollDue host store now = .ok result) :
    Agreed stranded (renewed reclosed store.database.hooks result.2.database.hooks)
      result.2.database := by
  obtain ⟨state, hfresh, hcase⟩ := pollDue_cases hpoll
  rcases hcase with hsame | ⟨tick, htick, hsaves⟩
  · rw [hsame]
    exact h.unchanged rfl
  · unfold Agreed at h
    rw [freshState_eq hfresh] at h
    refine Agreed.synced (h.saves ?_ hsaves)
    intro routine hroutine
    obtain ⟨old, hold, hpolled⟩ := pollRoutines_mem htick hroutine
    have hdistinct := freshState_distinct hfresh old hold
    rcases hpolled with rfl | ⟨own, hown, rfl⟩
    · exact hdistinct
    · unfold Distinct at hdistinct ⊢
      have hsame := congrArg (List.map (·.id)) (pollBindings_definitions hown)
      rw [List.map_map, List.map_map] at hsame
      have hids : own.items.map (·.definition.id) = old.bindings.map (·.definition.id) := hsame
      rw [hids]
      exact hdistinct

end Operations

section Deletions

variable {host : Host} {tables between after : HookTables} {stranded : List String}
  {reclosed : List SessionId} {now : Int}

theorem Bound.strand {before : HookTables} (h : Bound stranded tables)
    (hsame : before.bindings = tables.bindings)
    (hbindings : between.bindings.Sublist tables.bindings)
    (houtbox : ∀ row ∈ between.outbox, row ∈ tables.outbox)
    (hevents : ∀ row ∈ between.outbox, ∀ event ∈ tables.events, event.id = row.eventId →
      event ∈ between.events)
    (hafter : ∀ row ∈ between.outbox, row ∈ after.outbox)
    (hkept : after.bindings = between.bindings) :
    Bound (stranded ++ leftOver before after) between := by
  refine ⟨h.keys.sublist (hbindings.map _), ?_⟩
  intro row hrow hpending
  cases h.pending row (houtbox row hrow) hpending with
  | inl hleft => exact .inl (List.mem_append_left _ hleft)
  | inr hattached =>
    obtain ⟨event, hevent, hid, hcase⟩ := hattached
    have hstays := hevents row hrow event hevent hid
    cases hcase with
    | inl hcloses => exact .inr ⟨event, hstays, hid, .inl hcloses⟩
    | inr hbinding =>
      obtain ⟨binding, hmem, hbot, hname, hselects⟩ := hbinding
      by_cases hbound : binding ∈ between.bindings
      · exact .inr ⟨event, hstays, hid, .inr ⟨binding, hbound, hbot, hname, hselects⟩⟩
      · refine .inl (List.mem_append_right _ (List.mem_map.mpr ⟨row, ?_, rfl⟩))
        have hbefore : isBound before row.botId row.bindingId = true := by
          refine isBound_iff.mpr ⟨binding, ?_, hbot, hname⟩
          rw [hsame]
          exact hmem
        have hgone : isBound after row.botId row.bindingId = false := by
          rw [← Bool.not_eq_true, isBound_iff]
          rintro ⟨other, hother, hotherBot, hotherId⟩
          rw [hkept] at hother
          have hequal := h.same (hbindings.subset hother) hmem (hotherBot.trans hbot.symm)
            (hotherId.trans hname.symm)
          exact hbound (hequal ▸ hother)
        refine List.mem_filter.mpr ⟨hafter row hrow, ?_⟩
        rw [hpending, hbefore, hgone]
        rfl

theorem freshState_ids {database : BotDatabase} {state : BotState}
    (h : freshState host database = .ok state) : (state.routines.map (·.id)).Nodup := by
  have hstate := freshState_eq h
  cases hcatalog : database.catalog with
  | none =>
    rw [hcatalog] at hstate
    rw [← hstate]
    exact List.nodup_nil
  | some stored =>
    rw [hcatalog] at hstate
    have hstored : stored = state := hstate
    rw [hstored] at hcatalog
    obtain ⟨-, -, hvalid⟩ := freshState_parts hcatalog h
    exact hvalid.ids

theorem recordEvent_outbox {digest : String → String → String} {event : HookEvent}
    {sequence : Option Nat} {result : Bool × HookTables}
    (h : recordEvent digest tables event sequence = .ok result) :
    ∀ row ∈ tables.outbox, row ∈ result.2.outbox := by
  intro row hrow
  obtain ⟨-, hcases⟩ := @recordEvent_cases digest tables result.2 event sequence result.1 h
  cases hcases with
  | inl hold =>
    rw [hold.2.1]
    exact hrow
  | inr hnew =>
    rw [hnew.2.2]
    exact List.mem_append_left _ hrow

theorem deleteRoutine_agreed {store deleted : BotStore} {id : String} {cause : Option HookEvent}
    {accepted : Option String} {lockFree : Bool} {eventId : Uuid host}
    (h : Agreed stranded reclosed store.database)
    (hdelete : deleteRoutine host store id cause accepted lockFree eventId now = .ok deleted) :
    Agreed (stranded ++ leftOver store.database.hooks deleted.database.hooks) reclosed
      deleted.database := by
  obtain ⟨state, index, routine, event, hfresh, hroutine, -, -, -, hcommit⟩ :=
    deleteRoutine_cases hdelete
  unfold Agreed at h
  rw [freshState_eq hfresh] at h
  have hids := freshState_ids hfresh
  have hindex : state.routines[index]? = some routine := by
    unfold routineAt at hroutine
    split at hroutine
    · rename_i found hfound
      rw [hfound, Except.ok.inj hroutine]
    · cases hroutine
  unfold deleteRunsAndSaveCatalog at hcommit
  obtain ⟨recorded, hrecorded, hcommit⟩ := bind_ok hcommit
  rw [← Except.ok.inj hcommit]
  set unbound : HookTables := cancelSourcePending { acceptAction store.database.hooks accepted with
    bindings := (acceptAction store.database.hooks accepted).bindings.filter fun row =>
      decide (row.routineId ≠ some routine.id) } (.routine routine.id) with hunbound
  have hrows : unbound.bindings = store.database.hooks.bindings.filter fun row =>
      decide (row.routineId ≠ some routine.id) := by
    rw [hunbound, ← (acceptAction_frame store.database.hooks accepted).2.1]
    rfl
  have hkept : recorded.2.bindings = unbound.bindings := by
    obtain ⟨-, hcases⟩ := @recordEvent_cases _ _ recorded.2 _ _ recorded.1 hrecorded
    cases hcases with
    | inl hold => rw [hold.2.1]
    | inr hnew =>
      rw [hnew.2.2]
      rfl
  have hbound : Bound (stranded ++ leftOver store.database.hooks recorded.2) unbound :=
    (h.bound.accept accepted).strand (acceptAction_frame _ _).2.1.symm
      (by rw [hrows, (acceptAction_frame _ _).2.1]; exact List.filter_sublist)
      (fun row hrow => (List.mem_filter.mp hrow).1) (fun _ _ event hevent _ => hevent)
      (recordEvent_outbox hrecorded) hkept
  refine Agrees.sameBindings ⟨hbound, ?_, ?_, ?_⟩ (hbound.record hrecorded).1 hkept
  · intro kept hmem stored hstored
    obtain ⟨row, hrow, hmirrors⟩ := h.held kept (List.mem_of_mem_eraseIdx hmem) stored hstored
    refine ⟨row, ?_, hmirrors⟩
    rw [hrows, List.mem_filter, decide_eq_true_eq, hmirrors.routineId]
    exact ⟨hrow, fun hsame => eraseIdx_id_ne hids hindex hmem (Option.some.inj hsame)⟩
  · intro row hrow howned
    rw [hrows, List.mem_filter, decide_eq_true_eq] at hrow
    cases h.rows row hrow.1 howned with
    | inr hagain => exact .inr hagain
    | inl hmirrored =>
      obtain ⟨kept, hmem, stored, hstored, hmirrors⟩ := hmirrored
      refine .inl ⟨kept, ?_, stored, hstored, hmirrors⟩
      obtain ⟨position, hposition, hget⟩ := List.mem_iff_getElem.mp hmem
      refine List.mem_eraseIdx_iff_getElem.mpr ⟨position, hposition, ?_, hget⟩
      intro hsame
      obtain ⟨hlength, hfound⟩ := List.getElem?_eq_some_iff.mp hindex
      have hequal : kept = routine := by
        subst hsame
        exact hget.symm.trans hfound
      exact hrow.2 (hmirrors.routineId.trans (by rw [hequal]))
  · intro row hrow
    rw [hrows, List.mem_filter] at hrow
    exact h.owners row hrow.1

theorem deleteBot_agreed {store deleted : BotStore} {botId : String} {expectedRevision : Nat}
    {routineIds instructions : List String} (h : Agreed stranded reclosed store.database)
    (hdelete : deleteBot host store botId expectedRevision routineIds instructions = .ok deleted) :
    Agreed (stranded ++ leftOver store.database.hooks deleted.database.hooks) reclosed
      deleted.database := by
  unfold deleteBot at hdelete
  obtain ⟨state, hfresh, hdelete⟩ := bind_ok hdelete
  obtain ⟨⟨⟩, -, hdelete⟩ := bind_ok hdelete
  obtain ⟨⟨⟩, -, hdelete⟩ := bind_ok hdelete
  obtain ⟨row, hrow, hdelete⟩ := bind_ok hdelete
  obtain ⟨hsame, -⟩ := catalogJson_ok hrow
  unfold Agreed at h
  rw [freshState_eq hfresh] at h
  rw [← Except.ok.inj hdelete, hsame]
  refine ⟨?_, ?_, ?_, ?_⟩
  · refine h.bound.strand rfl List.filter_sublist (fun row hrow => (List.mem_filter.mp hrow).1)
      ?_ (fun row hrow => hrow) rfl
    intro kept hkept event hevent hid
    obtain ⟨-, hremoved⟩ := List.mem_filter.mp hkept
    rw [Bool.not_eq_true', List.any_eq_false] at hremoved
    have hother := hremoved event hevent
    rw [Bool.and_eq_true, decide_eq_true_eq, decide_eq_true_eq, not_and] at hother
    exact List.mem_filter.mpr ⟨hevent, decide_eq_true (hother hid)⟩
  · intro routine hroutine stored hstored
    obtain ⟨hmem, hother⟩ := List.mem_filter.mp hroutine
    rw [decide_eq_true_eq] at hother
    obtain ⟨found, hfound, hmirrors⟩ := h.held routine hmem stored hstored
    refine ⟨found, List.mem_filter.mpr ⟨hfound, decide_eq_true ?_⟩, hmirrors⟩
    rw [hmirrors.botId]
    exact hother
  · intro found hfound howned
    obtain ⟨hmem, hother⟩ := List.mem_filter.mp hfound
    rw [decide_eq_true_eq] at hother
    cases h.rows found hmem howned with
    | inr hagain => exact .inr hagain
    | inl hmirrored =>
      obtain ⟨routine, hroutine, stored, hstored, hmirrors⟩ := hmirrored
      refine .inl ⟨routine, List.mem_filter.mpr ⟨hroutine, decide_eq_true ?_⟩, stored, hstored,
        hmirrors⟩
      rw [← hmirrors.botId]
      exact hother
  · intro found hfound
    obtain ⟨hmem, hother⟩ := List.mem_filter.mp hfound
    rw [decide_eq_true_eq] at hother
    obtain ⟨bot, hbot, hid⟩ := h.owners found hmem
    refine ⟨bot, (List.mem_eraseP_of_neg ?_).mpr hbot, hid⟩
    rw [decide_eq_true_eq, hid]
    exact hother

end Deletions

section Closing

variable {host : Host} {tables closed : HookTables} {stranded : List String}
  {reclosed : List SessionId}

variable {event : HookEvent} {events : List HookEvent}

theorem closedSession_source {sessionId : SessionId} (h : closedSession event = .ok sessionId) :
    event.source = .session sessionId := by
  unfold closedSession at h
  cases hsource : event.source with
  | session found =>
    rw [hsource] at h
    dsimp only at h
    split at h
    · rw [Except.ok.inj h]
    · rw [Except.ok.inj h]
    · cases h
  | _ =>
    rw [hsource] at h
    cases h

theorem selectsSession_source {sessionId : SessionId} {selector : HookSelector}
    {source : HookSource} (hsession : selectsSession sessionId selector = true)
    (hsource : selectsSource selector source = true) : source = .session sessionId := by
  unfold selectsSession at hsession
  split at hsession
  · simp only [selectsSource, decide_eq_true_eq] at hsource
    rw [← hsource, eq_of_beq hsession]
  · cases hsession

theorem closeSource_cases (h : closeSource host tables event = .ok closed) :
    ∃ sessionId, closedSession event = .ok sessionId ∧
      ((event ∈ tables.events ∧ closed = tables) ∨
        closed = { withEvent host.digest (cancelSourcePending tables event.source) event none with
          bindings := tables.bindings.filter fun row => !selectsSession sessionId row.selector
          cursors := tables.cursors.filter fun row => decide (row.sessionId ≠ sessionId) }) := by
  unfold closeSource at h
  obtain ⟨sessionId, hsession, h⟩ := bind_ok h
  refine ⟨sessionId, hsession, ?_⟩
  cases hexisting : tables.event? event.id with
  | some existing =>
    rw [hexisting] at h
    obtain ⟨⟨⟩, hsame, h⟩ := bind_ok h
    have hsame := rejectIf_ok_iff.mp hsame
    rw [decide_eq_false_iff_not, not_not] at hsame
    rw [hsame] at hexisting
    exact .inl ⟨List.mem_of_find?_eq_some hexisting, (Except.ok.inj h).symm⟩
  | none =>
    rw [hexisting] at h
    obtain ⟨recorded, hrecorded, h⟩ := bind_ok h
    obtain ⟨-, hcases⟩ := @recordEvent_cases _ _ recorded.2 _ _ recorded.1 hrecorded
    rcases hcases with ⟨-, -, hfound⟩ | ⟨-, -, hnew⟩
    · have hnone : (cancelSourcePending tables event.source).event? event.id = none := hexisting
      rw [hnone] at hfound
      cases hfound
    · right
      rw [← Except.ok.inj h, hnew]
      rfl

theorem Bound.closeSource (h : Bound stranded tables)
    (hclose : closeSource host tables event = .ok closed) : Bound stranded closed := by
  obtain ⟨sessionId, hsession, hcase⟩ := closeSource_cases hclose
  rcases hcase with ⟨-, rfl⟩ | rfl
  · exact h
  refine ⟨h.keys.sublist (List.filter_sublist.map _), ?_⟩
  have hcloses : closesSource event = true := by
    unfold closesSource
    rw [hsession]
    rfl
  have hself : ∀ row : OutboxRow, row.eventId = event.id → row.id ∈ stranded ∨
      Attached { withEvent host.digest (cancelSourcePending tables event.source) event none with
        bindings := tables.bindings.filter fun row => !selectsSession sessionId row.selector
        cursors := tables.cursors.filter fun row => decide (row.sessionId ≠ sessionId) } row :=
    fun row hid => .inr ⟨event, List.mem_append_right _ (List.mem_singleton_self _), hid.symm,
      .inl hcloses⟩
  intro row hrow hpending
  cases List.mem_append.mp hrow with
  | inr hnew => exact hself row (newRows_event hnew).1
  | inl hold =>
    obtain ⟨hmem, hkept⟩ := List.mem_filter.mp hold
    rw [hpending, Bool.false_or, Bool.not_eq_true', List.any_eq_false] at hkept
    cases h.pending row hmem hpending with
    | inl hleft => exact .inl hleft
    | inr hattached =>
      obtain ⟨found, hfound, hid, hattached⟩ := hattached
      refine .inr ⟨found, List.mem_append_left _ hfound, hid, ?_⟩
      rcases hattached with hfact | ⟨binding, hbinding, hbot, hname, hselects⟩
      · exact .inl hfact
      · refine .inr ⟨binding, List.mem_filter.mpr ⟨hbinding, ?_⟩, hbot, hname, hselects⟩
        cases hnames : selectsSession sessionId binding.selector with
        | false => rfl
        | true =>
          have hsource := selectsSession_source hnames hselects
          have hcancelled := hkept found hfound
          rw [Bool.and_eq_true, decide_eq_true_eq, decide_eq_true_eq,
            closedSession_source hsession] at hcancelled
          exact absurd ⟨hid, hsource⟩ hcancelled

theorem Bound.closeSources (h : Bound stranded tables)
    (hclose : closeSources host tables events = .ok closed) : Bound stranded closed := by
  induction events generalizing tables with
  | nil =>
    rw [← Except.ok.inj hclose]
    exact h
  | cons event rest ih =>
    obtain ⟨between, hbetween, hclose⟩ := bind_ok hclose
    exact ih (h.closeSource hbetween) hclose

theorem closeSources_subset (h : closeSources host tables events = .ok closed) :
    closed.bindings ⊆ tables.bindings := by
  induction events generalizing tables with
  | nil =>
    rw [← Except.ok.inj h]
    exact List.Subset.refl _
  | cons event rest ih =>
    obtain ⟨between, hbetween, h⟩ := bind_ok h
    refine List.Subset.trans (ih h) ?_
    obtain ⟨sessionId, -, hcase⟩ := closeSource_cases hbetween
    rcases hcase with ⟨-, rfl⟩ | rfl
    · exact List.Subset.refl _
    · exact List.filter_sublist.subset

theorem closeSources_keeps (h : closeSources host tables events = .ok closed) {row : BindingRow}
    (hrow : row ∈ tables.bindings)
    (hother : ∀ event ∈ events, ∀ sessionId,
      event.source = .session sessionId → selectsSession sessionId row.selector = false) :
    row ∈ closed.bindings := by
  induction events generalizing tables with
  | nil =>
    rw [← Except.ok.inj h]
    exact hrow
  | cons event rest ih =>
    rw [List.forall_mem_cons] at hother
    obtain ⟨between, hbetween, h⟩ := bind_ok h
    refine ih h ?_ hother.2
    obtain ⟨sessionId, hsession, hcase⟩ := closeSource_cases hbetween
    rcases hcase with ⟨-, rfl⟩ | rfl
    · exact hrow
    · refine List.mem_filter.mpr ⟨hrow, ?_⟩
      rw [hother.1 sessionId (closedSession_source hsession)]
      rfl

/-- Every event closes a session, and no row names the session unless the event was recorded
before. -/
theorem closeSources_unbound (h : closeSources host tables events = .ok closed) :
    ∀ event ∈ events, ∃ sessionId,
      closedSession event = .ok sessionId ∧ (event ∈ tables.events ∨
        ∀ row ∈ closed.bindings, selectsSession sessionId row.selector = false) := by
  induction events generalizing tables with
  | nil => exact List.forall_mem_nil _
  | cons first rest ih =>
    obtain ⟨between, hbetween, h⟩ := bind_ok h
    obtain ⟨opened, hopened, hcase⟩ := closeSource_cases hbetween
    have hfirst : first ∈ tables.events ∨
        ∀ row ∈ closed.bindings, selectsSession opened row.selector = false := by
      rcases hcase with ⟨hrecorded, -⟩ | rfl
      · exact .inl hrecorded
      · right
        intro row hrow
        obtain ⟨-, hkept⟩ := List.mem_filter.mp (closeSources_subset h hrow)
        rw [Bool.not_eq_true'] at hkept
        exact hkept
    rw [List.forall_mem_cons]
    refine ⟨⟨opened, hopened, hfirst⟩, ?_⟩
    intro event hevent
    obtain ⟨sessionId, hsession, hlater⟩ := ih h event hevent
    refine ⟨sessionId, hsession, ?_⟩
    rcases hlater with hrecorded | hunbound
    · rcases hcase with ⟨-, rfl⟩ | rfl
      · exact .inl hrecorded
      · cases List.mem_append.mp hrecorded with
        | inl hold => exact .inl hold
        | inr hnew =>
          rw [List.mem_singleton.mp hnew] at hsession ⊢
          rw [Except.ok.inj (hsession.symm.trans hopened)]
          exact hfirst
    · exact .inr hunbound

theorem closeSessionSources_agreed {database after : BotDatabase}
    (h : Agreed stranded reclosed database)
    (hclose : closeSessionSources host database events = .ok after) :
    Agreed stranded (reclosed ++ closedAgain database.hooks events) after := by
  unfold closeSessionSources at hclose
  obtain ⟨state, hfresh, hclose⟩ := bind_ok hclose
  obtain ⟨⟨⟩, -, hclose⟩ := bind_ok hclose
  obtain ⟨row, hrow, hclose⟩ := bind_ok hclose
  obtain ⟨hooks, hhooks, hclose⟩ := bind_ok hclose
  obtain ⟨hsame, -⟩ := catalogJson_ok hrow
  unfold Agreed at h
  rw [freshState_eq hfresh] at h
  rw [← Except.ok.inj hclose, hsame]
  have hunbound := closeSources_unbound hhooks
  refine ⟨h.bound.closeSources hhooks, ?_, ?_, ?_⟩
  · intro routine hroutine stored hstored
    obtain ⟨old, hold, rfl⟩ := List.mem_map.mp hroutine
    obtain ⟨hmem, hopen⟩ := List.mem_filter.mp hstored
    rw [Bool.not_eq_true', List.any_eq_false] at hopen
    obtain ⟨found, hfound, hmirrors⟩ := h.held old hold stored hmem
    refine ⟨found, closeSources_keeps hhooks hfound ?_, hmirrors.botId, hmirrors.id,
      hmirrors.routineId, hmirrors.selector, hmirrors.action, hmirrors.enabled⟩
    intro event hevent sessionId hsource
    have hother := hopen event hevent
    rw [hsource] at hother
    rw [hmirrors.selector]
    exact Bool.not_eq_true _ ▸ hother
  · intro found hfound howned
    cases h.rows found (closeSources_subset hhooks hfound) howned with
    | inr hagain =>
      obtain ⟨sessionId, hsession, hselects⟩ := hagain
      exact .inr ⟨sessionId, List.mem_append_left _ hsession, hselects⟩
    | inl hmirrored =>
      obtain ⟨routine, hroutine, stored, hstored, hmirrors⟩ := hmirrored
      by_cases hopen : stored ∈ (unsubscribed routine events).bindings
      · exact .inl ⟨unsubscribed routine events, List.mem_map_of_mem hroutine, stored, hopen,
          hmirrors.botId, hmirrors.id, hmirrors.routineId, hmirrors.selector, hmirrors.action,
          hmirrors.enabled⟩
      · right
        unfold unsubscribed at hopen
        rw [List.mem_filter, not_and, Bool.not_eq_true', Bool.not_eq_false, List.any_eq_true]
          at hopen
        obtain ⟨event, hevent, hnames⟩ := hopen hstored
        obtain ⟨sessionId, hsession, hcase⟩ := hunbound event hevent
        rw [closedSession_source hsession] at hnames
        have hselects : selectsSession sessionId found.selector = true := by
          rw [hmirrors.selector]
          exact hnames
        rcases hcase with hrecorded | hgone
        · refine ⟨sessionId, List.mem_append_right _ (List.mem_filterMap.mpr ⟨event,
            List.mem_filter.mpr ⟨hevent, ?_⟩, ?_⟩), hselects⟩
          · unfold HookTables.event?
            rw [List.find?_isSome]
            exact ⟨event, hrecorded, decide_eq_true rfl⟩
          · rw [hsession]
            rfl
        · have hfalse := hgone found hfound
          rw [hselects] at hfalse
          cases hfalse
  · intro found hfound
    exact h.owners found (closeSources_subset hhooks hfound)

end Closing

section Records

variable {host : Host} {database after : BotDatabase} {stranded : List String}
  {reclosed : List SessionId} {stops : List StopRequest} {now : Int}

theorem Agreed.withHooks (h : Agreed stranded reclosed database) {hooks : HookTables}
    (hbound : Bound stranded hooks) (hbindings : hooks.bindings = database.hooks.bindings) :
    Agreed stranded reclosed { database with hooks := hooks } :=
  Agrees.sameBindings h hbound hbindings

theorem setSubscription_agreed {botId : String} {binding : HookBinding BotAction} {enabled : Bool}
    {afterSequence : Nat} (h : Agreed stranded reclosed database)
    (hset : setSubscription host database botId binding enabled afterSequence now = .ok after) :
    Agreed stranded reclosed after := by
  unfold setSubscription at hset
  obtain ⟨state, hfresh, hset⟩ := bind_ok hset
  obtain ⟨⟨⟩, hbot, hset⟩ := bind_ok hset
  obtain ⟨hooks, hhooks, hset⟩ := bind_ok hset
  have hbot := rejectIf_ok_iff.mp hbot
  rw [Bool.not_eq_false', List.any_eq_true] at hbot
  obtain ⟨bot, hmem, hbot⟩ := hbot
  rw [decide_eq_true_eq] at hbot
  have hput := saveBinding_put h.bound.keys hhooks
  have hbound := h.bound.put hput
  obtain ⟨new, hnew, hnewBot, hnewId, hnewRoutine, -⟩ := hput.put
  rw [← Except.ok.inj hset]
  refine ⟨hbound, ?_, ?_, ?_⟩
  · intro routine hroutine stored hstored
    obtain ⟨row, hrow, hmirrors⟩ := h.held routine hroutine stored hstored
    refine ⟨row, (hput.others row ?_).mpr hrow, hmirrors⟩
    rintro ⟨hrowBot, hrowId⟩
    have hnone := (hput.previous row hrow hrowBot hrowId).1
    rw [hmirrors.routineId] at hnone
    cases hnone
  · intro row hrow howned
    refine h.rows row ((hput.others row ?_).mp hrow) howned
    rintro ⟨hrowBot, hrowId⟩
    have hsame := hbound.same hrow hnew (hrowBot.trans hnewBot.symm) (hrowId.trans hnewId.symm)
    rw [hsame] at howned
    exact howned hnewRoutine
  · intro row hrow
    by_cases hkey : row.botId = botId ∧ row.id = binding.id
    · refine ⟨bot, ?_, hbot.trans hkey.1.symm⟩
      rw [freshState_eq hfresh]
      exact hmem
    · exact h.owners row ((hput.others row hkey).mp hrow)

theorem recordHook_agreed {event : HookEvent} (h : Agreed stranded reclosed database)
    (hrecord : recordHook host database event = .ok after) : Agreed stranded reclosed after := by
  unfold recordHook at hrecord
  obtain ⟨recorded, hrecorded, hrecord⟩ := bind_ok hrecord
  obtain ⟨hbound, hbindings⟩ := h.bound.record hrecorded
  rw [← Except.ok.inj hrecord]
  exact h.withHooks hbound hbindings

theorem projectSession_agreed {event : HookEvent} {sequence : Nat} {result : Bool × HookTables}
    (h : Agreed stranded reclosed database)
    (hproject : projectSession host database.hooks event sequence = .ok result) :
    Agreed stranded reclosed { database with hooks := result.2 } := by
  unfold projectSession at hproject
  split at hproject
  · unfold projectEvent at hproject
    obtain ⟨advanced, hadvanced, hproject⟩ := bind_ok hproject
    obtain ⟨hbound, hbindings⟩ := h.bound.advance hadvanced
    split at hproject
    · obtain ⟨hrecorded, hsame⟩ := hbound.record hproject
      exact h.withHooks hrecorded (hsame.trans hbindings)
    · rw [← Except.ok.inj hproject]
      exact h.withHooks hbound hbindings
  · cases hproject

theorem recordRun_bound {tables recorded : HookTables} {commands : List CommandRow}
    {run : RoutineRun} (h : Bound stranded tables)
    (hrecord : recordRun host tables stops commands run = .ok recorded) :
    Bound stranded recorded ∧ recorded.bindings = tables.bindings := by
  unfold recordRun at hrecord
  obtain ⟨event, -, hrecord⟩ := bind_ok hrecord
  obtain ⟨result, hresult, hrecord⟩ := bind_ok hrecord
  rw [← Except.ok.inj hrecord]
  exact h.record hresult

theorem insertRunWithCause_agreed {run : RoutineRun} {commandId : String}
    {cause : Option HookEvent} (h : Agreed stranded reclosed database)
    (hinsert : insertRunWithCause host database stops run commandId cause = .ok after) :
    Agreed stranded reclosed after := by
  unfold insertRunWithCause at hinsert
  obtain ⟨⟨⟩, -, hinsert⟩ := bind_ok hinsert
  obtain ⟨⟨⟩, -, hinsert⟩ := bind_ok hinsert
  obtain ⟨recorded, hrecorded, hinsert⟩ := bind_ok hinsert
  obtain ⟨hbound, hbindings⟩ := recordRun_bound (h.bound.accept _) hrecorded
  rw [(acceptAction_frame _ _).2.1] at hbindings
  rw [← Except.ok.inj hinsert]
  exact Agrees.sameBindings h hbound hbindings

theorem beginRun_agreed {id commandId : String} {cause : Option HookEvent} {lockFree : Bool}
    {runId : Uuid host} {sessionId : SessionId} {result : BeginRun × BotDatabase}
    (h : Agreed stranded reclosed database)
    (hbegin : beginRun host database stops id commandId cause lockFree runId sessionId now =
      .ok result) : Agreed stranded reclosed result.2 := by
  unfold beginRun at hbegin
  obtain ⟨state, -, hbegin⟩ := bind_ok hbegin
  obtain ⟨routine, -, hbegin⟩ := bind_ok hbegin
  obtain ⟨⟨⟩, -, hbegin⟩ := bind_ok hbegin
  obtain ⟨previous, -, hbegin⟩ := bind_ok hbegin
  cases previous with
  | some run =>
    obtain ⟨⟨⟩, -, hbegin⟩ := bind_ok hbegin
    rw [← Except.ok.inj hbegin]
    exact h
  | none =>
    unfold reserveRun at hbegin
    obtain ⟨⟨⟩, -, hbegin⟩ := bind_ok hbegin
    split at hbegin
    · obtain ⟨inserted, hinserted, hbegin⟩ := bind_ok hbegin
      rw [← Except.ok.inj hbegin]
      exact insertRunWithCause_agreed h hinserted
    · obtain ⟨⟨⟩, -, hbegin⟩ := bind_ok hbegin
      obtain ⟨inserted, hinserted, hbegin⟩ := bind_ok hbegin
      rw [← Except.ok.inj hbegin]
      exact insertRunWithCause_agreed h hinserted

theorem finishRun_agreed {id : String} {status : RoutineRunStatus} {finishedAt : Int}
    {message : Option String} (h : Agreed stranded reclosed database)
    (hfinish : finishRun host database stops id status finishedAt message = .ok after) :
    Agreed stranded reclosed after := by
  unfold finishRun at hfinish
  split at hfinish
  · cases hfinish
  · split at hfinish
    · cases hfinish
    · split at hfinish
      · split at hfinish
        · rw [← Except.ok.inj hfinish]
          exact h
        · cases hfinish
      · unfold finishRunRow at hfinish
        obtain ⟨⟨⟩, -, hfinish⟩ := bind_ok hfinish
        obtain ⟨recorded, hrecorded, hfinish⟩ := bind_ok hfinish
        obtain ⟨hbound, hbindings⟩ := recordRun_bound h.bound hrecorded
        rw [← Except.ok.inj hfinish]
        exact Agrees.sameBindings h hbound hbindings

theorem deleteRun_agreed {id : String} (h : Agreed stranded reclosed database)
    (hdelete : deleteRun host database id = .ok after) : Agreed stranded reclosed after := by
  unfold deleteRun at hdelete
  obtain ⟨state, -, hdelete⟩ := bind_ok hdelete
  obtain ⟨⟨⟩, -, hdelete⟩ := bind_ok hdelete
  split at hdelete
  · cases hdelete
  · obtain ⟨⟨⟩, -, hdelete⟩ := bind_ok hdelete
    rw [← Except.ok.inj hdelete]
    exact h

end Records

section Bots

variable {host : Host} {store saved : BotStore} {stranded : List String}
  {reclosed : List SessionId}

theorem saveState_hooks {changed : BotState} (h : saveState host store changed = .ok saved) :
    saved.database.hooks = store.database.hooks := by
  unfold saveState at h
  obtain ⟨⟨⟩, -, h⟩ := bind_ok h
  obtain ⟨row, -, h⟩ := bind_ok h
  rw [← Except.ok.inj h]

theorem saveState_agreed {state changed : BotState} (h : Agreed stranded reclosed store.database)
    (hfresh : store.database.catalog.getD {} = state)
    (hsave : saveState host store changed = .ok saved)
    (hroutines : changed.routines = state.routines)
    (hbots : ∀ bot ∈ state.bots, ∃ other ∈ changed.bots, other.id = bot.id) :
    Agreed stranded reclosed saved.database := by
  obtain ⟨-, -, hcatalog⟩ := saveState_ok hsave
  unfold Agreed at h ⊢
  rw [hfresh] at h
  rw [hcatalog, saveState_hooks hsave]
  exact h.withBots hroutines hbots

theorem seedDefault_agreed {config : ValidatedConfig host} {id : Uuid host}
    (h : Agreed stranded reclosed store.database)
    (hseed : seedDefault host store config id = .ok saved) :
    Agreed stranded reclosed saved.database := by
  unfold seedDefault at hseed
  cases hcatalog : store.database.catalog with
  | some state =>
    rw [hcatalog] at hseed
    rw [← Except.ok.inj hseed]
    exact h
  | none =>
    rw [hcatalog] at hseed
    refine saveState_agreed h rfl hseed ?_ ?_
    · rw [hcatalog]
      rfl
    · rw [hcatalog]
      exact List.forall_mem_nil _

theorem createBot_agreed {name description : String} {config : ValidatedConfig host}
    {id : Uuid host} (h : Agreed stranded reclosed store.database)
    (hcreate : createBot host store name description config id = .ok saved) :
    Agreed stranded reclosed saved.database := by
  unfold createBot at hcreate
  obtain ⟨name, -, hcreate⟩ := bind_ok hcreate
  obtain ⟨description, -, hcreate⟩ := bind_ok hcreate
  obtain ⟨state, hfresh, hcreate⟩ := bind_ok hcreate
  obtain ⟨⟨⟩, -, hcreate⟩ := bind_ok hcreate
  obtain ⟨handle, -, hcreate⟩ := bind_ok hcreate
  exact saveState_agreed h (freshState_eq hfresh) hcreate rfl
    fun bot hbot => ⟨bot, List.mem_append_left _ hbot, rfl⟩

theorem updateBot_agreed {id name description : String} {revision : Nat}
    {config : ValidatedConfig host} (h : Agreed stranded reclosed store.database)
    (hupdate : updateBot host store id name description revision config = .ok saved) :
    Agreed stranded reclosed saved.database := by
  unfold updateBot at hupdate
  obtain ⟨name, -, hupdate⟩ := bind_ok hupdate
  obtain ⟨description, -, hupdate⟩ := bind_ok hupdate
  obtain ⟨state, hfresh, hupdate⟩ := bind_ok hupdate
  obtain ⟨⟨⟩, -, hupdate⟩ := bind_ok hupdate
  obtain ⟨handle, -, hupdate⟩ := bind_ok hupdate
  obtain ⟨found, hfound, hupdate⟩ := bind_ok hupdate
  obtain ⟨⟨⟩, -, hupdate⟩ := bind_ok hupdate
  refine saveState_agreed h (freshState_eq hfresh) hupdate rfl ?_
  intro bot hbot
  cases mem_set_or hbot found.1
      (StoredBot.renamed found.2 handle name description revision config.1) with
  | inl hkept => exact ⟨bot, hkept, rfl⟩
  | inr hchanged =>
    refine ⟨_, hchanged.2, ?_⟩
    have hsame := Option.some.inj ((findBot_ok hfound).1.symm.trans hchanged.1)
    rw [← hsame]
    rfl

theorem recordBotDeletion_agreed {botId : String} {expectedRevision : Nat}
    {lockFree : String → Bool} {sessions : List SessionSummary}
    (h : Agreed stranded reclosed store.database)
    (hrecord : recordBotDeletion host store botId expectedRevision lockFree sessions =
      .ok saved) : Agreed stranded reclosed saved.database := by
  unfold recordBotDeletion at hrecord
  obtain ⟨state, hfresh, hrecord⟩ := bind_ok hrecord
  obtain ⟨found, -, hrecord⟩ := bind_ok hrecord
  obtain ⟨⟨⟩, -, hrecord⟩ := bind_ok hrecord
  obtain ⟨⟨⟩, -, hrecord⟩ := bind_ok hrecord
  obtain ⟨⟨⟩, -, hrecord⟩ := bind_ok hrecord
  obtain ⟨⟨⟩, -, hrecord⟩ := bind_ok hrecord
  exact saveState_agreed h (freshState_eq hfresh) hrecord rfl fun bot hbot => ⟨bot, hbot, rfl⟩

theorem clearBotDeletion_agreed {botId : String} (h : Agreed stranded reclosed store.database)
    (hclear : clearBotDeletion host store botId = .ok saved) :
    Agreed stranded reclosed saved.database := by
  unfold clearBotDeletion at hclear
  obtain ⟨state, hfresh, hclear⟩ := bind_ok hclear
  split at hclear
  · cases hclear
  · obtain ⟨⟨⟩, -, hclear⟩ := bind_ok hclear
    exact saveState_agreed h (freshState_eq hfresh) hclear rfl fun bot hbot => ⟨bot, hbot, rfl⟩

end Bots

section Runs

variable {host : Host} {history after : History}

def HistoryAgreed (history : History) : Prop :=
  Agreed history.stranded history.reclosed history.store.database

theorem map_ok {α β ε : Type} {result : Except ε α} {change : α → β} {value : β}
    (h : result.map change = .ok value) : ∃ found, result = .ok found ∧ change found = value := by
  cases result with
  | error error => cases h
  | ok found => exact ⟨found, rfl, Except.ok.inj h⟩

theorem routineOp_agreed {operation : RoutineOp host} {store : BotStore}
    (h : HistoryAgreed history) (happly : operation.apply host history.store = .ok store) :
    HistoryAgreed (history.afterCatalog host (.routine operation) store) := by
  cases operation with
  | create botId definition workspace cause routineId fileId eventId now =>
    exact (createRoutine_agreed h happly).synced
  | update id definition workspace cause accepted lockFree fileId eventId now =>
    exact updateRoutine_agreed h happly
  | setEnabled id enabled cause accepted eventId now => exact setRoutineEnabled_agreed h happly
  | delete id cause accepted lockFree eventId now => exact deleteRoutine_agreed h happly
  | poll now =>
    obtain ⟨result, hpoll, hstore⟩ := map_ok happly
    rw [← hstore]
    exact pollDue_agreed h hpoll

theorem catalogOp_agreed {operation : CatalogOp host} {store : BotStore}
    (h : HistoryAgreed history) (happly : operation.apply host history.store = .ok store) :
    HistoryAgreed (history.afterCatalog host operation store) := by
  cases operation with
  | seed config id => exact seedDefault_agreed h happly
  | createBot name description config id => exact createBot_agreed h happly
  | updateBot id name description revision config => exact updateBot_agreed h happly
  | recordDeletion botId expectedRevision lockFree sessions =>
    exact recordBotDeletion_agreed h happly
  | deleteBot botId expectedRevision routineIds instructions => exact deleteBot_agreed h happly
  | clearDeletion botId => exact clearBotDeletion_agreed h happly
  | close events =>
    obtain ⟨database, hclose, hstore⟩ := map_ok happly
    rw [← hstore]
    exact closeSessionSources_agreed h hclose
  | routine operation => exact routineOp_agreed h happly

theorem apply_agreed {operation : HistoryOp host} (h : HistoryAgreed history)
    (happly : operation.apply host history = .ok after) : HistoryAgreed after := by
  cases operation with
  | catalog operation =>
    obtain ⟨store, hstore, rfl⟩ := map_ok happly
    exact catalogOp_agreed h hstore
  | subscribe botId binding enabled afterSequence now =>
    obtain ⟨database, hset, rfl⟩ := map_ok happly
    exact setSubscription_agreed h hset
  | record event =>
    obtain ⟨database, hrecord, rfl⟩ := map_ok happly
    exact recordHook_agreed h hrecord
  | project event sequence =>
    obtain ⟨result, hproject, rfl⟩ := map_ok happly
    exact projectSession_agreed h hproject
  | advance sessionId botId sequence =>
    obtain ⟨hooks, hadvance, rfl⟩ := map_ok happly
    unfold advanceSourceCursor at hadvance
    obtain ⟨advanced, hadvanced, hadvance⟩ := bind_ok hadvance
    obtain ⟨hbound, hbindings⟩ := h.bound.advance hadvanced
    rw [← Except.ok.inj hadvance]
    exact Agreed.withHooks h hbound hbindings
  | accept id =>
    rw [← Except.ok.inj happly]
    exact Agreed.withHooks h (h.bound.accept (some id)) rfl
  | fail id error retryAt =>
    rw [← Except.ok.inj happly]
    exact Agreed.withHooks h (h.bound.fail id error retryAt) rfl
  | beginRun id commandId cause lockFree runId sessionId now =>
    obtain ⟨result, hbegin, rfl⟩ := map_ok happly
    exact beginRun_agreed h hbegin
  | stopRun runId commandId cause =>
    obtain ⟨stops, -, rfl⟩ := map_ok happly
    exact h
  | finishRun id status finishedAt message =>
    obtain ⟨database, hfinish, rfl⟩ := map_ok happly
    exact finishRun_agreed h hfinish
  | deleteRun id =>
    obtain ⟨database, hdelete, rfl⟩ := map_ok happly
    exact deleteRun_agreed h hdelete

theorem step_agreed (h : HistoryAgreed history) (operation : HistoryOp host) :
    HistoryAgreed (operation.step host history) := by
  unfold HistoryOp.step
  cases happly : operation.apply host history with
  | ok after => exact apply_agreed h happly
  | error _ => exact h

theorem runHistory_agreed (h : HistoryAgreed history) (operations : List (HistoryOp host)) :
    HistoryAgreed (runHistory host history operations) := by
  induction operations generalizing history with
  | nil => exact h
  | cons operation rest ih => exact ih (step_agreed h operation)

theorem empty_agreed : HistoryAgreed {} :=
  ⟨⟨List.nodup_nil, List.forall_mem_nil _⟩, List.forall_mem_nil _, List.forall_mem_nil _,
    List.forall_mem_nil _⟩

theorem HistoryAgreed.mirrored (h : HistoryAgreed history) : BindingsMirrored history := by
  refine ⟨h.held, h.rows, h.bound.keys, ?_⟩
  intro row hrow hpending
  cases h.bound.pending row hrow hpending with
  | inl hleft => exact .inr (.inr hleft)
  | inr hattached =>
    obtain ⟨event, hevent, hid, hcase⟩ := hattached
    rcases hcase with hcloses | ⟨binding, hbinding, hbot, hname, -⟩
    · exact .inr (.inl ⟨event, hevent, hid, hcloses⟩)
    · obtain ⟨bot, hmem, howner⟩ := h.owners binding hbinding
      exact .inl ⟨binding, hbinding, hbot, hname, bot, hmem, howner.trans hbot⟩

/-- After every operation of every history the rows of the routines are the bindings of the
catalog, and every pending row has its binding and its Bot, was created by the fact that closed its
source, or was left over when its routine or its Bot was deleted. -/
theorem bindings_mirrored (operations : List (HistoryOp host)) :
    BindingsMirrored (runHistory host {} operations) :=
  (runHistory_agreed empty_agreed operations).mirrored

end Runs

section Samples

def twoBots : List (HistoryOp plainHost) :=
  [.catalog (.createBot "Helper" "Helps" plainConfig (minted 1)),
    .catalog (.createBot "Reader" "Reads" plainConfig (minted 7))]

/-- A routine of the first Bot that starts when a chat has a turn. -/
def watching (now : Int) : HistoryOp plainHost :=
  .catalog (.routine (.create (minted 1).1 ⟨"/work", "Report",
    [⟨"watch", .event (.session "chat") .sessionTurnFinished none none none, .start⟩]⟩ work none
    (minted 2) (minted 3) (minted 4) now))

def pausedRoutine : List (HistoryOp plainHost) :=
  twoBots ++ [watching 50,
    .catalog (.routine (.setEnabled (minted 2).1 false none none (minted 5) 60))]

/-- A routine is deleted when its timer fired. -/
def deletedRoutine : List (HistoryOp plainHost) :=
  twoBots ++ [.catalog (.routine (.create (minted 1).1 (report "timer" 100) work none (minted 2)
      (minted 3) (minted 4) 50)),
    .catalog (.routine (.poll 200)),
    .catalog (.routine (.delete (minted 2).1 none none true (minted 5) 210))]

/-- A Bot is deleted that was to report an event of another. -/
def deletedReader : List (HistoryOp plainHost) :=
  twoBots ++ [.subscribe (minted 7).1 ⟨"news", .event (.bot (minted 1).1) .customReceived none none
      none, .report "Summarise"⟩ true 0 10,
    .record ⟨"custom-news", .bot (minted 1).1, none, [], (minted 1).1, 20,
      .customReceived "news" .null⟩,
    .catalog (.deleteBot (minted 7).1 1 [] [])]

/-- The fact that closes the chat. -/
def chatDeleted : HookEvent where
  id := "session-chat-deleted"
  source := .session "chat"
  causeId := none
  ancestry := []
  botId := (minted 1).1
  occurredAt := 30
  data := .sessionDeleted "chat"

/-- The chat is closed, and closed again after a routine was bound to it. -/
def closedTwice : List (HistoryOp plainHost) :=
  twoBots ++ [.catalog (.close [chatDeleted]), watching 50, .catalog (.close [chatDeleted])]

/-- A paused routine keeps enabled rows; a deleted routine and a deleted Bot leave pending rows
without their bindings; and a source that is closed again leaves the row of a binding that the
catalog lost. -/
theorem bindings_differ :
    (∃ routine ∈ (runHistory plainHost {} pausedRoutine).state.routines, routine.enabled = false ∧
      ∃ row ∈ (runHistory plainHost {} pausedRoutine).hooks.bindings,
        row.routineId = some routine.id ∧ row.enabled = true) ∧
    (∃ row ∈ (runHistory plainHost {} deletedRoutine).hooks.outbox, row.accepted = false ∧
      (runHistory plainHost {} deletedRoutine).hooks.bindings = [] ∧
      ∀ event ∈ (runHistory plainHost {} deletedRoutine).hooks.events,
        closesSource event = false) ∧
    (∃ row ∈ (runHistory plainHost {} deletedReader).hooks.outbox, row.accepted = false ∧
      (∀ bot ∈ (runHistory plainHost {} deletedReader).state.bots, bot.id ≠ row.botId) ∧
      ∀ event ∈ (runHistory plainHost {} deletedReader).hooks.events,
        closesSource event = false) ∧
    ((runHistory plainHost {} closedTwice).hooks.bindings.map (·.routineId) =
        [some (minted 2).1] ∧
      ∀ routine ∈ (runHistory plainHost {} closedTwice).state.routines,
        routine.bindings = []) := by
  decide +kernel

end Samples

end MobiusAgent.BindingMirror
