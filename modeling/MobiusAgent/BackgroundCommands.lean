import MobiusAgent.LossyUtf8
import MobiusAgent.PatchDocuments

/-!
# Background commands

`backend/sandbox/background.rs`: a command runs in a task of its own, its
output is buffered between polls, and its completion goes either to the poll
that finds it or, once its id was handed out, to the listener of its owner. A
task and the calls on its entry take their steps in any order; the two bits
of `state` decide who reports the completion.
-/

namespace MobiusAgent.BackgroundCommands

open ProtocolEvents LossyUtf8 PatchDocuments

/-- The bytes kept between two polls. -/
def maxPollOutputBytes : Nat := 6000

def maxErrorBytes : Nat := 512

def maxNoticeCommandBytes : Nat := 200

inductive CommandStream where
  | stdout
  | stderr
  deriving DecidableEq

/-- What a backend returns of a command. -/
structure CommandOutput where
  exitCode : Int
  stdout : String
  stderr : String

inductive BackgroundCommandStatus where
  | running
  | exited
  | failed
  | stopped
  deriving DecidableEq

/-- The reply to a poll or a stop. -/
structure BackgroundCommandPoll where
  /-- The id, as long as the command runs. -/
  commandId : Option String
  status : BackgroundCommandStatus
  exitCode : Option Int
  /-- The output since the last poll. -/
  stdout : String
  /-- The errors since the last poll. -/
  stderr : String
  /-- Whether something was cut. -/
  truncated : Bool
  error : Option String

/-- The output since the last poll. -/
structure BufferedOutput where
  stdout : List UInt8 := []
  stderr : List UInt8 := []
  /-- Whether bytes were dropped since the last poll. -/
  truncated : Bool := false
  /-- Whether there ever were bytes. -/
  sawOutput : Bool := false

def BufferedOutput.of (output : BufferedOutput) : CommandStream → List UInt8
  | .stdout => output.stdout
  | .stderr => output.stderr

def BufferedOutput.push (output : BufferedOutput) (stream : CommandStream) (bytes : List UInt8) :
    BufferedOutput :=
  let remaining := maxPollOutputBytes - (output.stdout.length + output.stderr.length)
  let kept := bytes.take (min bytes.length remaining)
  let dropped := bytes.drop (min bytes.length remaining)
  { stdout := match stream with
      | .stdout => output.stdout ++ kept
      | .stderr => output.stdout
    stderr := match stream with
      | .stdout => output.stderr
      | .stderr => output.stderr ++ kept
    truncated := output.truncated || !dropped.isEmpty
    sawOutput := output.sawOutput || !bytes.isEmpty }

/-- What `BufferedOutput::take` leaves. -/
def BufferedOutput.taken (output : BufferedOutput) : BufferedOutput :=
  { sawOutput := output.sawOutput }

/-- `String::from_utf8_lossy_owned`. -/
def fromUtf8Lossy (bytes : List UInt8) : String := String.ofList (decodeLossy bytes)

/-- How a task ended. -/
inductive TaskOutcome where
  | returned (result : Except Error CommandOutput)
  | panicked
  | cancelled

def pollRunning (id : String) (output : BufferedOutput) : BackgroundCommandPoll where
  commandId := some id
  status := .running
  exitCode := none
  stdout := fromUtf8Lossy output.stdout
  stderr := fromUtf8Lossy output.stderr
  truncated := output.truncated
  error := none

def stopped (output : BufferedOutput) : BackgroundCommandPoll where
  commandId := none
  status := .stopped
  exitCode := none
  stdout := fromUtf8Lossy output.stdout
  stderr := fromUtf8Lossy output.stderr
  truncated := output.truncated
  error := none

def finish (output : BufferedOutput) : TaskOutcome → BackgroundCommandPoll
  | .returned (.ok command) =>
    { commandId := none
      status := .exited
      exitCode := some command.exitCode
      stdout := if output.sawOutput then fromUtf8Lossy output.stdout else command.stdout
      stderr := if output.sawOutput then fromUtf8Lossy output.stderr else command.stderr
      truncated := output.truncated
      error := none }
  | .returned (.error error) =>
    { commandId := none
      status := .failed
      exitCode := none
      stdout := fromUtf8Lossy output.stdout
      stderr := fromUtf8Lossy output.stderr
      truncated := output.truncated || decide (maxErrorBytes < error.display.utf8ByteSize)
      error := some (String.ofList (truncateUtf8 error.display.toList maxErrorBytes)) }
  | .cancelled => stopped output
  | .panicked =>
    { commandId := none
      status := .failed
      exitCode := none
      stdout := fromUtf8Lossy output.stdout
      stderr := fromUtf8Lossy output.stderr
      truncated := output.truncated
      error := some "background command task failed" }

def noticeOutcome : Except Error CommandOutput → String
  | .ok output => "exited with code {exit_code}".replace "{exit_code}" (toString output.exitCode)
  | .error error =>
    "failed: {error}".replace "{error}"
      (String.ofList (truncateUtf8 error.display.toList maxErrorBytes))

def completionNotice (id command : String) (result : Except Error CommandOutput) : String :=
  (("Background command {id} (`{command}`) {outcome}.".replace "{id}" id).replace "{command}"
    (String.ofList (truncateUtf8 command.toList maxNoticeCommandBytes))).replace "{outcome}"
      (noticeOutcome result)

def unknown (id : String) : Error := .unknown ("background command `" ++ id ++ "`")

/-- How far a command's task is. -/
inductive Task where
  /-- The backend executes the command. -/
  | executing
  /-- The `FINISHED` bit is set, and the listener is next. -/
  | finishing (result : Except Error CommandOutput)
  /-- The listener was called, if it had to be. -/
  | leaving (result : Except Error CommandOutput)
  | over (outcome : TaskOutcome)

def Task.isFinished : Task → Bool
  | .over _ => true
  | _ => false

/-- Where the entry of a command is. -/
inductive Place where
  | listed
  /-- It is in the map, and a poll saw a task that goes on; it is the initial one or not. -/
  | looked (initial : Bool)
  /-- It is in the map, and a poll set the `HELD` bit before the task finished. -/
  | marked (initial : Bool)
  /-- A poll removed it and waits for the task. -/
  | collecting (initial : Bool)
  /-- A stop removed it, aborted the task and waits for it. -/
  | stopping
  | gone
  deriving DecidableEq

/-- A background command: its entry, and its task. -/
structure Command where
  id : String
  owner : SessionId
  command : String
  /-- Whether the owner had a listener. -/
  listening : Bool
  /-- The `HELD` bit. -/
  held : Bool
  /-- The `FINISHED` bit. -/
  finished : Bool
  /-- The `HELD` bit as the task read it when it set `FINISHED`. -/
  noticed : Bool
  output : BufferedOutput
  task : Task
  /-- Whether the task was asked to abort. -/
  aborted : Bool
  place : Place
  /-- Whether the initial wait returned its reply. -/
  delivered : Bool

def Command.start (id : String) (owner : SessionId) (command : String) (listening : Bool) :
    Command where
  id := id
  owner := owner
  command := command
  listening := listening
  held := false
  finished := false
  noticed := false
  output := {}
  task := .executing
  aborted := false
  place := .listed
  delivered := false

/-- Whether the entry is in the map. -/
def Command.isListed (command : Command) : Bool :=
  match command.place with
  | .listed | .looked _ | .marked _ => true
  | .collecting _ | .stopping | .gone => false

def ensureOwner (entry : Command) (owner : SessionId) (id : String) : Except Error Unit :=
  if entry.owner ≠ owner then .error (unknown id) else .ok ()

/-- The check of a poll or a stop, on the entry under an id if there is one. -/
def lookUp (entry : Option Command) (owner : SessionId) (id : String) : Except Error Unit :=
  match entry with
  | none => .error (unknown id)
  | some entry => ensureOwner entry owner id

/-- What others see of a step. -/
inductive Event where
  | output (stream : CommandStream) (bytes : List UInt8)
  /-- The listener of the owner got a notice. -/
  | notified (id notice : String)
  /-- A session polls the command, with its initial wait or later. -/
  | polled (caller : SessionId) (initial : Bool)
  | replied (initial : Bool) (reply : BackgroundCommandPoll)
  | stopRequested (caller : SessionId)
  | stopReplied (reply : BackgroundCommandPoll)
  /-- The session of the owner ended. -/
  | shutdown
  /-- The initial wait was cancelled. -/
  | dropped
  /-- A poll or a stop was cancelled while it waited for the task. -/
  | abandoned
  /-- The finished command made room for another one. -/
  | evicted
  /-- A session asked for the command and got an error. -/
  | refused (caller : SessionId) (error : Error)
  | quiet

/-- One step of a command's task, or of a call on it. -/
inductive Step : Command → Event → Command → Prop
  /-- The backend hands over a chunk. -/
  | output {c : Command} {stream : CommandStream} {bytes : List UInt8} (task : c.task = .executing) :
      Step c (.output stream bytes) { c with output := c.output.push stream bytes }
  /-- The command ends: the task sets `FINISHED` and reads `HELD`. -/
  | finish {c : Command} {result : Except Error CommandOutput} (task : c.task = .executing) :
      Step c .quiet { c with task := .finishing result, finished := true, noticed := c.held }
  | notify {c : Command} {result : Except Error CommandOutput} (task : c.task = .finishing result)
      (told : (c.listening && c.noticed) = true) :
      Step c (.notified c.id (completionNotice c.id c.command result))
        { c with task := .leaving result }
  | pass {c : Command} {result : Except Error CommandOutput} (task : c.task = .finishing result)
      (untold : (c.listening && c.noticed) = false) : Step c .quiet { c with task := .leaving result }
  | leave {c : Command} {result : Except Error CommandOutput} (task : c.task = .leaving result) :
      Step c .quiet { c with task := .over (.returned result) }
  | panic {c : Command} (task : c.task = .executing) :
      Step c .quiet { c with task := .over .panicked }
  /-- The task is cancelled, which it can only be while the backend executes. -/
  | cancel {c : Command} (task : c.task = .executing) (aborted : c.aborted = true) :
      Step c .quiet { c with task := .over .cancelled }
  /-- A poll finds the task unfinished. The initial wait polls first, and the others after it
  returned the id. -/
  | look {c : Command} {caller : SessionId} (place : c.place = .listed)
      (known : lookUp (some c) caller c.id = .ok ()) (goes : c.task.isFinished = false) :
      Step c (.polled caller !c.delivered) { c with place := .looked !c.delivered }
  /-- A poll finds the task finished and takes the entry. -/
  | find {c : Command} {caller : SessionId} (place : c.place = .listed)
      (known : lookUp (some c) caller c.id = .ok ()) (ended : c.task.isFinished = true) :
      Step c (.polled caller !c.delivered) { c with place := .collecting !c.delivered }
  /-- The poll sets `HELD` and reads `FINISHED`. -/
  | mark {c : Command} {initial : Bool} (place : c.place = .looked initial) :
      Step c .quiet { c with
        held := true
        place := if c.finished then .collecting initial else .marked initial }
  /-- The poll reports a running command with its output so far. -/
  | running {c : Command} {initial : Bool} (place : c.place = .marked initial) :
      Step c (.replied initial (pollRunning c.id c.output)) { c with
        output := c.output.taken
        place := .listed
        delivered := c.delivered || initial }
  /-- The poll reports the result of the task. -/
  | collect {c : Command} {initial : Bool} {outcome : TaskOutcome}
      (place : c.place = .collecting initial) (task : c.task = .over outcome) :
      Step c (.replied initial (finish c.output outcome)) { c with
        output := c.output.taken
        place := .gone
        delivered := c.delivered || initial }
  /-- A stop takes the entry and aborts the task. -/
  | stop {c : Command} {caller : SessionId} (place : c.place = .listed)
      (known : lookUp (some c) caller c.id = .ok ()) :
      Step c (.stopRequested caller) { c with place := .stopping, aborted := true }
  /-- The stop reports what there was. -/
  | stopped {c : Command} {outcome : TaskOutcome} (place : c.place = .stopping)
      (task : c.task = .over outcome) :
      Step c (.stopReplied (finish c.output outcome)) { c with
        output := c.output.taken
        place := .gone }
  /-- The session of the owner ends. -/
  | shutdown {c : Command} (place : c.place = .listed) :
      Step c .shutdown { c with place := .gone, aborted := true }
  | drop {c : Command} (place : c.place = .listed) (waits : c.delivered = false) :
      Step c .dropped { c with place := .gone, aborted := true }
  /-- A poll is cancelled that waits for the task. -/
  | abandonPoll {c : Command} {initial : Bool} (place : c.place = .collecting initial) :
      Step c .abandoned { c with place := .gone }
  /-- A stop is cancelled that waits for the task. -/
  | abandonStop {c : Command} (place : c.place = .stopping) :
      Step c .abandoned { c with place := .gone }
  /-- A finished command that is held makes room. -/
  | evict {c : Command} (place : c.place = .listed) (held : c.held = true)
      (ended : c.task.isFinished = true) : Step c .evicted { c with place := .gone }
  /-- A poll or a stop is refused. -/
  | refuse {c : Command} {caller : SessionId} {error : Error}
      (refused : lookUp (if c.isListed then some c else none) caller c.id = .error error) :
      Step c (.refused caller error) c

/-- The steps of a command from its start. -/
inductive Run (start : Command) : List Event → Command → Prop
  | nil : Run start [] start
  | step {events : List Event} {c next : Command} {event : Event} (before : Run start events c)
      (step : Step c event next) : Run start (events ++ [event]) next

def Event.bytes (stream : CommandStream) : Event → List UInt8
  | .output target bytes => if target = stream then bytes else []
  | _ => []

def Event.reply? : Event → Option BackgroundCommandPoll
  | .replied _ reply => some reply
  | .stopReplied reply => some reply
  | _ => none

/-- Whether an event is a call of the listener. -/
def Event.isNotice : Event → Bool
  | .notified _ _ => true
  | _ => false

/-- The bytes that a command wrote to a stream. -/
def emitted (stream : CommandStream) (events : List Event) : List UInt8 :=
  events.flatMap (Event.bytes stream)

/-- The replies that the owner got. -/
def replies (events : List Event) : List BackgroundCommandPoll := events.filterMap Event.reply?

def BackgroundCommandPoll.text (reply : BackgroundCommandPoll) : CommandStream → String
  | .stdout => reply.stdout
  | .stderr => reply.stderr

def replyText (stream : CommandStream) (events : List Event) : String :=
  String.join ((replies events).map (·.text stream))

/-- How often the listener was called. -/
def notices (events : List Event) : Nat := events.countP Event.isNotice

end MobiusAgent.BackgroundCommands
