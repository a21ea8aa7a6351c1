import Mathlib.Data.Nat.Digits.Lemmas
import MobiusAgent.CheckpointValidation

/-!
# Hook events, their selectors and their validation

The records of `wire/records.rs` that routines and hooks share, and the
checks of `bots/events.rs` on them. The action of a binding is a parameter,
as in the source. An event is compared by its encoding, which is injective;
only the length of the encoding is computed.
-/

namespace MobiusAgent.HookRecords

open JsonValue ProtocolEvents CheckpointRecords CheckpointValidation

/-- The supported scheduling rule families. -/
inductive RoutineScheduleKind where
  | once
  | interval
  /-- The minutes that an expression matches. -/
  | cron
  deriving DecidableEq

/-- A user-selected scheduling rule. -/
structure RoutineSchedule where
  kind : RoutineScheduleKind
  atTime : Option Int := none
  everySeconds : Option Nat := none
  expression : Option String := none
  timeZone : Option String := none
  deriving DecidableEq

/-- Durable state of one routine invocation. -/
inductive RoutineRunStatus where
  | running
  | succeeded
  | failed
  | skipped
  | cancelled
  deriving DecidableEq

/-- Gateway-established origin of a committed hook event. -/
inductive HookSource where
  | bot (botId : String)
  | routine (routineId : String)
  | session (sessionId : SessionId)
  | schedule (routineId bindingId : String)
  | gateway
  | client (clientId : String)
  deriving DecidableEq

/-- Finite lifecycle boundaries. -/
inductive HookKind where
  | routineCreated
  | routineUpdated
  | routinePaused
  | routineResumed
  | routineDeleted
  | runStarted
  /-- Invocation completed, failed or was cancelled. -/
  | runFinished
  /-- Invocation skipped before starting. -/
  | runSkipped
  /-- A binding's timer became due. -/
  | scheduleDue
  | sessionCreated
  | sessionTurnStarted
  /-- A turn reached a durable outcome. -/
  | sessionTurnFinished
  /-- A turn awaits a human decision. -/
  | sessionApproval
  /-- A capability requests a new user decision. -/
  | sessionAttention
  | sessionDeleted
  | sessionOwnerChanged
  | clientConnected
  | clientDisconnected
  /-- A Bot emitted a named event. -/
  | customReceived
  deriving DecidableEq

/-- Exact trigger shared by routine bindings and reporting consumers. -/
inductive HookSelector where
  /-- A timer rule with an optional cutoff. -/
  | schedule (schedule : RoutineSchedule) (endsAt : Option Int)
  /-- An exact source and boundary, with outcome filters. -/
  | event (source : HookSource) (kind : HookKind) (routineOutcome : Option RoutineRunStatus)
      (sessionOutcome : Option ExecutionOutcome) (customName : Option String)
  deriving DecidableEq

/-- One user-authored trigger. -/
structure HookBinding (Action : Type) where
  id : String
  /-- Exact event or timer trigger. -/
  on : HookSelector
  action : Action
  deriving DecidableEq

/-- Typed event facts. -/
inductive HookData where
  | routineCreated (routineId : String)
  | routineUpdated (routineId : String)
  | routinePaused (routineId : String)
  | routineResumed (routineId : String)
  | routineDeleted (routineId : String)
  | runStarted (routineId runId : String) (sessionId : Option SessionId)
  /-- Invocation completed, failed or was cancelled. -/
  | runFinished (routineId runId : String) (status : RoutineRunStatus)
      (sessionId : Option SessionId) (reason : Option String)
  /-- An overlapping or unavailable invocation was skipped. -/
  | runSkipped (routineId runId reason : String)
  /-- A binding's timer became due. -/
  | scheduleDue (bindingId : String)
  | sessionCreated (sessionId : SessionId)
  | sessionTurnStarted (sessionId : SessionId) (turnId : String)
  | sessionTurnFinished (sessionId : SessionId) (turnId : String) (outcome : ExecutionOutcome)
  /-- A session awaits an execution decision. -/
  | sessionApproval (sessionId : SessionId) (turnId requestId : String)
  /-- A capability requests a user decision. -/
  | sessionAttention (sessionId : SessionId) (capability itemId text : String)
  | sessionDeleted (sessionId : SessionId)
  /-- Session transferred to another Bot. -/
  | sessionOwnerChanged (sessionId : SessionId) (previousBotId : String)
  | clientConnected (clientId : String)
  | clientDisconnected (clientId : String)
  /-- A Bot emitted a named JSON event. -/
  | customReceived (name : String) (data : Json)
  deriving DecidableEq

/-- The selector boundary for a fact. -/
def HookData.kind : HookData → HookKind
  | .routineCreated _ => .routineCreated
  | .routineUpdated _ => .routineUpdated
  | .routinePaused _ => .routinePaused
  | .routineResumed _ => .routineResumed
  | .routineDeleted _ => .routineDeleted
  | .runStarted .. => .runStarted
  | .runFinished .. => .runFinished
  | .runSkipped .. => .runSkipped
  | .scheduleDue _ => .scheduleDue
  | .sessionCreated _ => .sessionCreated
  | .sessionTurnStarted .. => .sessionTurnStarted
  | .sessionTurnFinished .. => .sessionTurnFinished
  | .sessionApproval .. => .sessionApproval
  | .sessionAttention .. => .sessionAttention
  | .sessionDeleted _ => .sessionDeleted
  | .sessionOwnerChanged .. => .sessionOwnerChanged
  | .clientConnected _ => .clientConnected
  | .clientDisconnected _ => .clientDisconnected
  | .customReceived .. => .customReceived

/-- One durable gateway event used by all hook consumers. -/
structure HookEvent where
  id : String
  /-- Authenticated or internally established source. -/
  source : HookSource
  causeId : Option String
  /-- Bounded prior event chain. -/
  ancestry : List String
  botId : String
  /-- Unix timestamp in seconds. -/
  occurredAt : Int
  data : HookData
  deriving DecidableEq

/-- The bound of a causal chain. -/
def maxHookAncestry : Nat := 16

def maxRoutineBindings : Nat := 32

section Encoding

/-- The encoded bytes of one character in a JSON string. -/
def escapedLength (c : Char) : Nat :=
  if c = '"' ∨ c = '\\' ∨ c.toNat = 8 ∨ c.toNat = 9 ∨ c.toNat = 10 ∨ c.toNat = 12 ∨
      c.toNat = 13 then 2
  else if c.toNat < 32 then 6
  else c.utf8Size

/-- The encoded bytes of a string. -/
def stringLength (value : String) : Nat := (value.toList.map escapedLength).sum + 2

theorem utf8ByteSize_ofList (chars : List Char) :
    (String.ofList chars).utf8ByteSize = (chars.map Char.utf8Size).sum := by
  induction chars with
  | nil => rfl
  | cons c rest ih =>
    have hsplit : String.ofList (c :: rest) = String.singleton c ++ String.ofList rest := by
      rw [String.singleton_eq_ofList, ← String.ofList_append, List.singleton_append]
    rw [hsplit, String.utf8ByteSize_append, String.utf8ByteSize_singleton, ih, List.map_cons,
      List.sum_cons]

theorem utf8ByteSize_eq (text : String) :
    text.utf8ByteSize = (text.toList.map Char.utf8Size).sum := by
  rw [← utf8ByteSize_ofList, String.ofList_toList]

/-- The encoded bytes of a whole number. -/
def integerLength (value : Int) : Nat :=
  (if value < 0 then 1 else 0) + max 1 (Nat.digits 10 value.natAbs).length

mutual
/-- The encoded bytes of a JSON value. -/
def jsonLength : Json → Nat
  | .null => 4
  | .bool value => if value then 4 else 5
  | .number value => integerLength value
  | .decimal literal => literal.utf8ByteSize
  | .str value => stringLength value
  | .arr items => itemsLength items + 2
  | .obj fields => fieldsLength fields + 2

/-- The encoded bytes of array items and the commas between them. -/
def itemsLength : List Json → Nat
  | [] => 0
  | [item] => jsonLength item
  | item :: other :: rest => jsonLength item + 1 + itemsLength (other :: rest)

/-- The encoded bytes of object fields and the commas between them. -/
def fieldsLength : List (String × Json) → Nat
  | [] => 0
  | [(key, value)] => stringLength key + 1 + jsonLength value
  | (key, value) :: other :: rest =>
    stringLength key + 1 + jsonLength value + 1 + fieldsLength (other :: rest)
end

def optionalJson : Option String → Json
  | none => .null
  | some value => .str value

def RoutineRunStatus.text : RoutineRunStatus → String
  | .running => "running"
  | .succeeded => "succeeded"
  | .failed => "failed"
  | .skipped => "skipped"
  | .cancelled => "cancelled"

def outcomeText : ExecutionOutcome → String
  | .completed => "completed"
  | .aborted => "aborted"
  | .failed => "failed"

def tagged (tag : String) (fields : List (String × Json)) : Json :=
  .obj (("type", .str tag) :: fields)

def HookSource.json : HookSource → Json
  | .bot botId => tagged "bot" [("bot_id", .str botId)]
  | .routine routineId => tagged "routine" [("routine_id", .str routineId)]
  | .session sessionId => tagged "session" [("session_id", .str sessionId)]
  | .schedule routineId bindingId =>
    tagged "schedule" [("routine_id", .str routineId), ("binding_id", .str bindingId)]
  | .gateway => tagged "gateway" []
  | .client clientId => tagged "client" [("client_id", .str clientId)]

/-- The encoding of a fact. -/
def HookData.json : HookData → Json
  | .routineCreated routineId => tagged "routine_created" [("routine_id", .str routineId)]
  | .routineUpdated routineId => tagged "routine_updated" [("routine_id", .str routineId)]
  | .routinePaused routineId => tagged "routine_paused" [("routine_id", .str routineId)]
  | .routineResumed routineId => tagged "routine_resumed" [("routine_id", .str routineId)]
  | .routineDeleted routineId => tagged "routine_deleted" [("routine_id", .str routineId)]
  | .runStarted routineId runId sessionId => tagged "run_started"
      [("routine_id", .str routineId), ("run_id", .str runId),
        ("session_id", optionalJson sessionId)]
  | .runFinished routineId runId status sessionId reason => tagged "run_finished"
      [("routine_id", .str routineId), ("run_id", .str runId), ("status", .str status.text),
        ("session_id", optionalJson sessionId), ("reason", optionalJson reason)]
  | .runSkipped routineId runId reason => tagged "run_skipped"
      [("routine_id", .str routineId), ("run_id", .str runId), ("reason", .str reason)]
  | .scheduleDue bindingId => tagged "schedule_due" [("binding_id", .str bindingId)]
  | .sessionCreated sessionId => tagged "session_created" [("session_id", .str sessionId)]
  | .sessionTurnStarted sessionId turnId => tagged "session_turn_started"
      [("session_id", .str sessionId), ("turn_id", .str turnId)]
  | .sessionTurnFinished sessionId turnId outcome => tagged "session_turn_finished"
      [("session_id", .str sessionId), ("turn_id", .str turnId),
        ("outcome", .str (outcomeText outcome))]
  | .sessionApproval sessionId turnId requestId => tagged "session_approval"
      [("session_id", .str sessionId), ("turn_id", .str turnId), ("request_id", .str requestId)]
  | .sessionAttention sessionId capability itemId text => tagged "session_attention"
      [("session_id", .str sessionId), ("capability", .str capability), ("item_id", .str itemId),
        ("text", .str text)]
  | .sessionDeleted sessionId => tagged "session_deleted" [("session_id", .str sessionId)]
  | .sessionOwnerChanged sessionId previousBotId => tagged "session_owner_changed"
      [("session_id", .str sessionId), ("previous_bot_id", .str previousBotId)]
  | .clientConnected clientId => tagged "client_connected" [("client_id", .str clientId)]
  | .clientDisconnected clientId => tagged "client_disconnected" [("client_id", .str clientId)]
  | .customReceived name data => tagged "custom_received" [("name", .str name), ("data", data)]

def HookEvent.json (event : HookEvent) : Json :=
  .obj [("id", .str event.id), ("source", event.source.json),
    ("cause_id", optionalJson event.causeId), ("ancestry", .arr (event.ancestry.map .str)),
    ("bot_id", .str event.botId), ("occurred_at", .number event.occurredAt),
    ("data", event.data.json)]

end Encoding

section Validation

/-- `char::is_control`: the Unicode category Cc. -/
def isControl (c : Char) : Bool :=
  c.toNat < 32 || (127 ≤ c.toNat && c.toNat < 160)

def validateId (id : String) : Check :=
  rejectIf (isBlank id || decide (256 < id.utf8ByteSize) || id.toList.any isControl)
    (.config "hook identity must contain 1 to 256 safe bytes")

def validateSource : HookSource → Check
  | .bot botId => validateId botId
  | .routine routineId => validateId routineId
  | .schedule routineId bindingId => do
    validateId routineId
    validateId bindingId
  | .client clientId => validateId clientId
  | .session _ => .ok ()
  | .gateway => .ok ()

/-- The encoded byte limit of an event. -/
def maxHookEventBytes : Nat := maxMessageBytes / 2 + 8192

def validateEvent (event : HookEvent) : Check := do
  validateId event.id
  validateId event.botId
  validateSource event.source
  rejectIf (decide (maxHookAncestry < event.ancestry.length) ||
      event.ancestry.any (· == event.id) || decide (¬ event.ancestry.Nodup))
    (.config "hook causal chain exceeds its bound or revisits an event")
  event.ancestry.forM validateId
  event.causeId.toList.forM validateId
  rejectIf (maxHookEventBytes < jsonLength event.json) (.config "hook event is too large")

def validateSelector : HookSelector → Check
  | .schedule _ _ => .ok ()
  | .event source kind routineOutcome sessionOutcome customName => do
    validateSource source
    rejectIf (routineOutcome.isSome && (decide (kind ≠ .runFinished) ||
        routineOutcome == some .running || routineOutcome == some .skipped))
      (.config "routine outcome filter requires a terminal run_finished event")
    rejectIf (sessionOutcome.isSome && decide (kind ≠ .sessionTurnFinished))
      (.config "session outcome filter requires session_turn_finished")
    rejectIf (customName.any fun name => decide (kind ≠ .customReceived) || name.isEmpty ||
        decide (128 < name.utf8ByteSize))
      (.config "custom name filter requires custom_received and 1 to 128 bytes")

/-- `caused_event`: the facts of a cause are checked again. -/
def causedEvent (id botId : String) (source : HookSource) (data : HookData) (now : Int)
    (cause : Option HookEvent) : Except Error HookEvent := do
  cause.toList.forM validateEvent
  let ancestry := match cause with
    | none => []
    | some cause =>
      if cause.ancestry.length < maxHookAncestry then cause.ancestry ++ [cause.id]
      else cause.ancestry
  return ⟨id, source, cause.map (·.id), ancestry, botId, now, data⟩

def matchesSelector : HookSelector → HookEvent → Bool
  | .schedule _ _, event => match event.source, event.data with
    | .schedule _ bindingId, .scheduleDue due => bindingId == due
    | _, _ => false
  | .event source kind routineOutcome sessionOutcome customName, event =>
    source == event.source && kind == event.data.kind &&
      (routineOutcome.all fun outcome => match event.data with
        | .runFinished _ _ status _ _ => status == outcome
        | _ => false) &&
      (sessionOutcome.all fun expected => match event.data with
        | .sessionTurnFinished _ _ outcome => outcome == expected
        | _ => false) &&
      customName.all fun expected => match event.data with
        | .customReceived name _ => name == expected
        | _ => false

end Validation

end MobiusAgent.HookRecords
