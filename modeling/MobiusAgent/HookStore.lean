import MobiusAgent.RoutineSchedules

/-!
# The hook tables of the Bot database

`bots/events.rs` keeps typed events, the bindings that consume them and one
outbox row for each action that an event causes. A transaction is a function
on the tables that may fail; what a failed transaction wrote is never kept.
Encoded columns hold the records themselves, and the digest behind stable
identities is a parameter.
-/

namespace MobiusAgent.HookStore

open ProtocolEvents CheckpointRecords CheckpointValidation HookRecords RoutineSchedules

/-- Finite commands shared by the user, timers and event bindings. -/
inductive RoutineAction where
  | start
  /-- Stop only the identified invocation. -/
  | stop (runId : String)
  | pause
  /-- Enable future starts from the current time. -/
  | resume
  | delete
  /-- Replace the editable definition. -/
  | update (workspace instructions : String) (bindings : List (HookBinding RoutineAction))

mutual
/-- Structural comparison of two actions. -/
def RoutineAction.decEq : (a b : RoutineAction) → Decidable (a = b)
  | .start, .start => isTrue rfl
  | .stop a, .stop b => if h : a = b then isTrue (by rw [h]) else isFalse (by simpa using h)
  | .pause, .pause => isTrue rfl
  | .resume, .resume => isTrue rfl
  | .delete, .delete => isTrue rfl
  | .update w i a, .update v j b =>
    if hw : w = v then
      if hi : i = j then
        match RoutineAction.decEqBindings a b with
        | isTrue h => isTrue (by rw [hw, hi, h])
        | isFalse h => isFalse (by simp [h])
      else isFalse (by simp [hi])
    else isFalse (by simp [hw])
  | .start, .stop _ | .start, .pause | .start, .resume | .start, .delete | .start, .update _ _ _
  | .stop _, .start | .stop _, .pause | .stop _, .resume | .stop _, .delete
  | .stop _, .update _ _ _ | .pause, .start | .pause, .stop _ | .pause, .resume
  | .pause, .delete | .pause, .update _ _ _ | .resume, .start | .resume, .stop _
  | .resume, .pause | .resume, .delete | .resume, .update _ _ _ | .delete, .start
  | .delete, .stop _ | .delete, .pause | .delete, .resume | .delete, .update _ _ _
  | .update _ _ _, .start | .update _ _ _, .stop _ | .update _ _ _, .pause
  | .update _ _ _, .resume | .update _ _ _, .delete => isFalse (by simp)

/-- Structural comparison of two lists of bindings. -/
def RoutineAction.decEqBindings : (a b : List (HookBinding RoutineAction)) → Decidable (a = b)
  | [], [] => isTrue rfl
  | [], _ :: _ => isFalse (by simp)
  | _ :: _, [] => isFalse (by simp)
  | ⟨i, s, a⟩ :: as, ⟨j, t, b⟩ :: bs =>
    match RoutineAction.decEq a b, RoutineAction.decEqBindings as bs with
    | isTrue h, isTrue hs =>
      if hij : i = j ∧ s = t then isTrue (by rw [h, hs, hij.1, hij.2])
      else isFalse (by simpa [h, hs] using hij)
    | isFalse h, _ => isFalse (by simp [h])
    | _, isFalse h => isFalse (by simp [h])
end

/-- Actions can be compared. -/
instance : DecidableEq RoutineAction := RoutineAction.decEq

/-- A trigger whose action addresses its containing routine. -/
abbrev RoutineBinding := HookBinding RoutineAction

/-- Editable routine content and its bindings. -/
structure RoutineDefinition where
  workspace : String
  instructions : String
  bindings : List RoutineBinding
  deriving DecidableEq

structure RoutineCommand where
  routineId : String
  action : RoutineAction
  deriving DecidableEq

/-- The operations that a session hook may submit. -/
inductive SessionOp where
  | message (text : String) (requestedDelivery : Option ActiveMessageDelivery)
  | interrupt (turnId : String)
  deriving DecidableEq

/-- Typed actions shared by reporting and control subscriptions. -/
inductive BotAction where
  /-- Deliver the saved reporting mandate to the Bot conversation. -/
  | report (instruction : String)
  /-- Invoke the ordinary routine command handler. -/
  | routine (command : RoutineCommand)
  /-- Submit an ordinary message or interrupt to an owned session. -/
  | session (sessionId : SessionId) (op : SessionOp)
  deriving DecidableEq

/-- One row of `hook_bindings`. -/
structure BindingRow where
  botId : String
  id : String
  /-- The routine that holds the binding. -/
  routineId : Option String
  selector : HookSelector
  action : BotAction
  /-- Whether it consumes events. -/
  enabled : Bool
  /-- The journal sequence from which it consumes. -/
  afterSequence : Int
  /-- The time from which it consumes. -/
  startsAt : Int
  deriving DecidableEq

/-- One row of `hook_outbox`. -/
structure OutboxRow where
  id : String
  eventId : String
  bindingId : String
  botId : String
  action : BotAction
  /-- When it may be tried, nothing once it is accepted or has failed for good. -/
  retryAt : Option Int
  accepted : Bool
  lastError : Option String
  deriving DecidableEq

/-- One row of `bot_session_cursors`. -/
structure CursorRow where
  sessionId : SessionId
  botId : String
  /-- The last projected journal sequence. -/
  sequence : Int
  deriving DecidableEq

structure HookTables where
  /-- `hook_bindings`. -/
  bindings : List BindingRow := []
  /-- `hook_events`, in the order of their row identifiers. -/
  events : List HookEvent := []
  /-- `hook_journal_sequences`. -/
  journalSequences : List (String × Nat) := []
  /-- `hook_outbox`. -/
  outbox : List OutboxRow := []
  /-- `bot_session_cursors`. -/
  cursors : List CursorRow := []

section Identities

variable (digest : String → String → String)

def stableId (kind first second : String) : String := kind ++ "-" ++ digest first second

def outboxId (eventId botId bindingId : String) : String :=
  stableId digest "hook-action" eventId (botId ++ ":" ++ bindingId)

end Identities

section Transactions

def HookTables.event? (tables : HookTables) (id : String) : Option HookEvent :=
  tables.events.find? (·.id = id)

def HookTables.binding? (tables : HookTables) (botId id : String) : Option BindingRow :=
  tables.bindings.find? fun row => decide (row.botId = botId) && decide (row.id = id)

/-- `accept_action`, and `action_accepted`. -/
def acceptAction (tables : HookTables) (id : Option String) : HookTables :=
  match id with
  | none => tables
  | some id => { tables with outbox := tables.outbox.map fun row =>
      if row.id = id then { row with accepted := true, retryAt := none, lastError := none }
      else row }

def actionFailed (tables : HookTables) (id error : String) (retryAt : Option Int) : HookTables :=
  { tables with outbox := tables.outbox.map fun row =>
      if row.id = id ∧ row.accepted = false then
        { row with lastError := some error, retryAt := retryAt }
      else row }

def actionPending (tables : HookTables) (id : String) : Bool :=
  tables.outbox.any fun row => decide (row.id = id) && !row.accepted && row.retryAt.isSome

/-- `pending_actions`: the rows that are due, without their order and limit. -/
def pendingActions (tables : HookTables) (now : Int) : List OutboxRow :=
  tables.outbox.filter fun row => !row.accepted && row.retryAt.any fun time => decide (time ≤ now)

/-- Remove the pending rows of a binding. -/
def dropPending (tables : HookTables) (botId bindingId : String) : HookTables :=
  { tables with outbox := tables.outbox.filter fun row =>
      !(decide (row.botId = botId) && decide (row.bindingId = bindingId) && !row.accepted) }

/-- `cursor`. -/
def cursorOf (tables : HookTables) (sessionId : SessionId) : Except Error Nat :=
  match tables.cursors.find? (·.sessionId = sessionId) with
  | none => .ok 0
  | some row =>
    if row.sequence < 0 then
      .error (.config ("negative session cursor: " ++ negativeConversionError))
    else .ok row.sequence.toNat

/-- `advance_cursor`: whether the cursor moved. -/
def advanceCursorRow (tables : HookTables) (sessionId : SessionId) (botId : String)
    (sequence : Nat) : Except Error (Bool × HookTables) :=
  match tables.cursors.find? (·.sessionId = sessionId) with
  | none =>
    if i64Max < sequence then
      .error (.config ("session sequence is too large: " ++ intConversionError))
    else .ok (true, { tables with cursors := tables.cursors ++ [⟨sessionId, botId, sequence⟩] })
  | some row =>
    if row.botId ≠ botId then .error (.config "session cursor belongs to another Bot")
    else if i64Max < sequence then
      .error (.config ("session sequence is too large: " ++ intConversionError))
    else if row.sequence < sequence then
      .ok (true, { tables with cursors := tables.cursors.map fun other =>
        if other.sessionId = sessionId then { other with sequence := sequence } else other })
    else .ok (false, tables)

/-- The row of a saved binding after the row before it. -/
def mergeBinding (previous row : BindingRow) : BindingRow :=
  let restart := (!previous.enabled && row.enabled) || decide (previous.selector ≠ row.selector)
  { previous with
    selector := row.selector
    action := row.action
    enabled := row.enabled
    afterSequence := if restart then row.afterSequence else previous.afterSequence
    startsAt := if restart then row.startsAt else previous.startsAt }

def saveBinding (tables : HookTables) (botId : String) (routineId : Option String)
    (binding : HookBinding BotAction) (enabled : Bool) (afterSequence : Nat) (now : Int) :
    Except Error HookTables := do
  rejectIf (i64Max < (afterSequence : Int))
    (.config ("binding sequence is too large: " ++ intConversionError))
  let row : BindingRow := ⟨botId, binding.id, routineId, binding.on, binding.action, enabled,
    afterSequence, now⟩
  match tables.binding? botId binding.id with
  | none =>
    let tables := { tables with bindings := tables.bindings ++ [row] }
    return if enabled then tables else dropPending tables botId binding.id
  | some previous =>
    if previous.routineId ≠ routineId then
      .error (.config "hook binding identity is already in use")
    else
      let changed := decide (previous.selector ≠ binding.on) ||
        decide (previous.action ≠ binding.action)
      let tables := { tables with bindings := tables.bindings.map fun other =>
        if other.botId = botId ∧ other.id = binding.id then mergeBinding other row else other }
      return if !enabled || changed then dropPending tables botId binding.id else tables

/-- The query of `record_event`: the enabled bindings of the Bot, or of all for a Bot event. -/
def candidateBindings (tables : HookTables) (event : HookEvent) : List BindingRow :=
  tables.bindings.filter fun row => row.enabled &&
    (decide (row.botId = event.botId) || match event.source with
      | .bot _ => true
      | _ => false)

def ownTimer (row : BindingRow) (event : HookEvent) : Bool :=
  match row.selector with
  | .event .. => true
  | .schedule .. => match event.source with
    | .schedule routineId bindingId =>
      decide (bindingId = row.id) && decide (row.routineId = some routineId)
    | _ => false

/-- Whether the selector of a binding matches an event within its window. -/
def consumes (row : BindingRow) (event : HookEvent) (sequence : Option Nat) : Bool :=
  ownTimer row event && matchesSelector row.selector event &&
    (match row.selector with
      | .schedule .. => true
      | .event .. => decide (row.startsAt ≤ event.occurredAt)) &&
    sequence.all fun sequence =>
      decide (0 ≤ row.afterSequence) && decide (row.afterSequence < sequence)

/-- Whether the binding already consumed an event of the causal chain. -/
def revisits (tables : HookTables) (row : BindingRow) (event : HookEvent) : Bool :=
  event.ancestry.any fun ancestor => tables.outbox.any fun other =>
    decide (other.botId = row.botId) && decide (other.bindingId = row.id) &&
      decide (other.eventId = ancestor)

variable (digest : String → String → String)

def outboxRow (event : HookEvent) (row : BindingRow) : OutboxRow :=
  ⟨outboxId digest event.id row.botId row.id, event.id, row.id, row.botId, row.action,
    some event.occurredAt, false, none⟩

/-- The loop of `record_event` over the candidate bindings. -/
def fillOutbox (event : HookEvent) (sequence : Option Nat) (tables : HookTables) :
    List BindingRow → Except Error HookTables
  | [] => .ok tables
  | row :: rest =>
    if consumes row event sequence && !revisits tables row event then
      if tables.outbox.any fun other => decide (other.id = (outboxRow digest event row).id) then
        .error .sqlite
      else
        fillOutbox event sequence
          { tables with outbox := tables.outbox ++ [outboxRow digest event row] } rest
    else fillOutbox event sequence tables rest

/-- `record_event`: whether the event is new. -/
def recordEvent (tables : HookTables) (event : HookEvent) (sequence : Option Nat) :
    Except Error (Bool × HookTables) := do
  validateEvent event
  match tables.event? event.id with
  | some previous =>
    rejectIf (decide (previous ≠ event)) (.config "hook event ID has conflicting content")
    return (false, tables)
  | none =>
    rejectIf (sequence.any fun sequence : Nat => decide (i64Max < (sequence : Int)))
      (.config ("hook journal sequence is too large: " ++ intConversionError))
    let stored : HookTables := { tables with
      events := tables.events ++ [event]
      journalSequences := tables.journalSequences ++
        sequence.toList.map fun sequence => (event.id, sequence) }
    if maxHookAncestry ≤ event.ancestry.length then return (true, stored)
    else do
      let filled ← fillOutbox digest event sequence stored (candidateBindings stored event)
      return (true, filled)

end Transactions

end MobiusAgent.HookStore
