import MobiusAgent.CheckpointRecords

/-!
# The event recorder task

`agent/recorder.rs` runs one task that owns every journal write of a
session. It batches adjacent assistant text deltas, writes each batch or
event to the store, forwards the record to the frontend and answers the
callers. The model is the body of `run_recorder` as a step over its loop
state, for a timer firing or a received command, and its end when the
channel closes. Store
and frontend answers come from an environment, and everything the task does
is kept in one chronological log. Byte permits only delay callers and are
left out.
-/

namespace MobiusAgent.RecorderLoop

open JsonValue ProtocolEvents CheckpointRecords

/-- The largest text of one batch, in bytes. -/
def streamBatchBytes : Nat := 16 * 1024

/-- What identifies one assistant text stream. -/
structure StreamKey where
  submissionId : Option String
  sessionId : SessionId
  turnId : String
  modelStepId : String
  phase : ModelStepContentPhase
  deriving DecidableEq

/-- The stream an event belongs to; only assistant deltas have one. -/
def StreamKey.of (event : Event) : Option StreamKey :=
  match event.msg with
  | .assistantContentDelta delta =>
    some ⟨event.submissionId, delta.sessionId, delta.turnId, delta.modelStepId, delta.phase⟩
  | _ => none

def deltaText (event : Event) : String :=
  match event.msg with
  | .assistantContentDelta delta => delta.delta
  | _ => ""

/-- The same delta with more text at its end. -/
def appendText (event : Event) (text : String) : Event :=
  match event.msg with
  | .assistantContentDelta delta =>
    { event with msg := .assistantContentDelta { delta with delta := delta.delta ++ text } }
  | _ => event

/-- One event to append, with the ticket of a caller that waits for it. -/
structure AppendCommand where
  event : TimestampedEvent
  /-- The waiting caller, if any. -/
  result : Option Nat
  deriving DecidableEq

/-- One checkpoint to save with its events. -/
structure SaveCommand where
  checkpoint : Checkpoint
  /-- The transcript items of this checkpoint. -/
  transcriptDelta : List Json
  execution : Option ExecutionRecord
  events : List TimestampedEvent
  result : Nat
  deriving DecidableEq

inductive RecorderCommand where
  | append (command : AppendCommand)
  | save (command : SaveCommand)
  /-- Acknowledge once everything before is durable. -/
  | flush (result : Nat)
  deriving DecidableEq

/-- The caller a command answers. -/
def RecorderCommand.ticket : RecorderCommand → Option Nat
  | .append command => command.result
  | .save command => some command.result
  | .flush result => some result

/-- What the task did, in the order it did it. -/
inductive LogEntry where
  | appended (event : TimestampedEvent)
  /-- The store committed one checkpoint with its events. -/
  | saved (command : SaveCommand)
  | storeFailed (error : Error)
  /-- A record reached the frontend. -/
  | published (event : TimestampedEvent)
  /-- A record could not reach the frontend. -/
  | unpublished (event : TimestampedEvent)
  | flushed (ticket : Nat)
  /-- Any other answer to a caller: success or the error's text. -/
  | replied (ticket : Nat) (outcome : Except String Unit)

/-- What the store and the frontend answer, by the number of the call. -/
structure RecorderEnv where
  /-- The store's answer to its `n`th call. -/
  store : Nat → Except Error Unit
  /-- Whether the frontend takes the `n`th record sent to it. -/
  publishes : Nat → Bool

/-- The loop state of `run_recorder`, with the log of what it did. -/
structure RecorderState where
  /-- The failure every later command is rejected with. -/
  terminalError : Option String
  /-- The stream batch not written yet. -/
  pending : Option AppendCommand
  /-- The stream of the last appended event. -/
  lastStream : Option StreamKey
  /-- Whether the task returned. -/
  stopped : Bool
  storeCalls : Nat
  /-- The number of records sent to the frontend. -/
  sends : Nat
  /-- Everything done so far, oldest first. -/
  log : List LogEntry

/-- The task just spawned. -/
def RecorderState.initial : RecorderState := ⟨none, none, none, false, 0, 0, []⟩

def RecorderState.note (s : RecorderState) (entry : LogEntry) : RecorderState :=
  { s with log := s.log ++ [entry] }

/-- `RecorderFailure::from`: the message of an error, bare for `Stopped`. -/
def failureMessage : Error → String
  | .stopped message => message
  | error => error.display

/-- `RecorderFailure::error` as callers see it. -/
def failureError (message : String) : String := (Error.stopped message).display

/-- What a caller sees when the task is gone. -/
def recorderStopped : String := (Error.stopped "event recorder stopped: channel closed").display

/-- The message of a failed publication. -/
def frontendClosed : String := "frontend event channel closed: channel closed"

/-- Answer a caller, if there is one. -/
def replyTo (s : RecorderState) (ticket : Option Nat) (outcome : Except String Unit) :
    RecorderState :=
  match ticket with
  | some ticket => s.note (.replied ticket outcome)
  | none => s

/-- `StreamBatch::merge`: extend the pending batch by a delta of its stream
that still fits. -/
def mergeBatch (batch command : AppendCommand) : Option AppendCommand :=
  match StreamKey.of batch.event.event, StreamKey.of command.event.event with
  | some key, some next =>
    if key = next ∧ (deltaText batch.event.event).utf8ByteSize +
        (deltaText command.event.event).utf8ByteSize ≤ streamBatchBytes then
      some ⟨⟨batch.event.recordedAtMs,
        appendText batch.event.event (deltaText command.event.event)⟩, batch.result⟩
    else none
  | _, _ => none

/-- Send one record to the frontend. -/
def publish (env : RecorderEnv) (s : RecorderState) (event : TimestampedEvent) :
    Bool × RecorderState :=
  let sent := { s with sends := s.sends + 1 }
  if env.publishes s.sends then (true, sent.note (.published event))
  else (false, sent.note (.unpublished event))

/-- Send the records of one save until the frontend refuses one. -/
def publishAll (env : RecorderEnv) (s : RecorderState) : List TimestampedEvent →
    Bool × RecorderState
  | [] => (true, s)
  | event :: rest =>
    match publish env s event with
    | (true, s) => publishAll env s rest
    | (false, s) => (false, s)

/-- `record_append`: store one event, publish it, answer its caller. The
result is the failure that ends the recorder's service. -/
def recordAppend (env : RecorderEnv) (s : RecorderState) (command : AppendCommand) :
    Option String × RecorderState :=
  let called := { s with storeCalls := s.storeCalls + 1 }
  match env.store s.storeCalls with
  | .error error =>
    let failed := called.note (.storeFailed error)
    (some (failureMessage error), replyTo failed command.result (.error error.display))
  | .ok () =>
    match publish env (called.note (.appended command.event)) command.event with
    | (true, s) => (none, replyTo s command.result (.ok ()))
    | (false, s) => (some frontendClosed, replyTo s command.result (.ok ()))

/-- `flush_stream`: write the pending batch. -/
def flushStream (env : RecorderEnv) (s : RecorderState) : Option String × RecorderState :=
  match s.pending with
  | some batch => recordAppend env { s with pending := none } batch
  | none => (none, s)

/-- `record_save`: whether the recorder may continue. -/
def recordSave (env : RecorderEnv) (s : RecorderState) (command : SaveCommand) :
    Bool × RecorderState :=
  let called := { s with storeCalls := s.storeCalls + 1 }
  match env.store s.storeCalls with
  | .error error =>
    (false, (called.note (.storeFailed error)).note
      (.replied command.result (.error error.display)))
  | .ok () =>
    match publishAll env (called.note (.saved command)) command.events with
    | (published, s) => (published, s.note (.replied command.result (.ok ())))

/-- `reject`: answer a command with the terminal failure; a flush ends the task. -/
def reject (s : RecorderState) (command : RecorderCommand) (message : String) :
    Bool × RecorderState :=
  match command with
  | .append append => (false, replyTo s append.result (.error (failureError message)))
  | .save save => (false, s.note (.replied save.result (.error (failureError message))))
  | .flush result => (true, s.note (.replied result (.error (failureError message))))

/-- The branch of the loop for an append. -/
def stepAppend (env : RecorderEnv) (s : RecorderState) (append : AppendCommand) :
    RecorderState :=
  match s.pending.bind (mergeBatch · append) with
  | some batch => replyTo { s with pending := some batch } append.result (.ok ())
  | none =>
    match flushStream env s with
    | (some message, s) =>
      { (reject s (.append append) message).2 with terminalError := some message }
    | (none, s) =>
      let key := StreamKey.of append.event.event
      if key.isSome ∧ key = s.lastStream ∧
          (deltaText append.event.event).utf8ByteSize ≤ streamBatchBytes then
        { replyTo s append.result (.ok ()) with pending := some { append with result := none } }
      else
        match recordAppend env { s with lastStream := key } append with
        | (failure, s) =>
          { s with
            terminalError := failure
            stopped := append.result.isSome && failure.isSome }

/-- The branch of the loop for a save or a flush. -/
def stepBarrier (env : RecorderEnv) (s : RecorderState) (command : RecorderCommand) :
    RecorderState :=
  match flushStream env s with
  | (some message, s) =>
    match reject s command message with
    | (true, s) => { s with stopped := true }
    | (false, s) => { s with terminalError := some message }
  | (none, s) =>
    let s := { s with lastStream := none }
    match command with
    | .append _ => s
    | .save save =>
      match recordSave env s save with
      | (true, s) => { s with terminalError := none }
      | (false, s) => { s with stopped := true }
    | .flush result => { s.note (.flushed result) with terminalError := none }

/-- What the loop can wake up for while senders exist. -/
inductive Input where
  /-- The batch deadline passed. -/
  | timer
  | command (command : RecorderCommand)

/-- One iteration of `run_recorder`. A command that meets a returned task is
answered by its own dropped channel. -/
def step (env : RecorderEnv) (s : RecorderState) : Input → RecorderState
  | .timer =>
    if s.stopped ∨ s.pending.isNone then s
    else match flushStream env s with
      | (failure, s) => { s with terminalError := failure }
  | .command command =>
    if s.stopped then replyTo s command.ticket (.error recorderStopped)
    else match s.terminalError with
      | some message =>
        match reject s command message with
        | (ended, s) => { s with stopped := ended }
      | none =>
        match command with
        | .append append => stepAppend env s append
        | other => stepBarrier env s other

/-- The state after a sequence of wake-ups. -/
def run (env : RecorderEnv) (inputs : List Input) : RecorderState :=
  inputs.foldl (step env) .initial

/-- `flush_on_shutdown`: every sender is gone, so the batch is written and
the task returns. -/
def shutdown (env : RecorderEnv) (s : RecorderState) : RecorderState :=
  if s.stopped then s else { (flushStream env s).2 with stopped := true }

end MobiusAgent.RecorderLoop
