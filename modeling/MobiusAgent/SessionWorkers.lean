import Mathlib.Data.String.Basic
import MobiusAgent.FrameCodec
import MobiusAgent.OrderedMaps

/-!
# Worker processes of sessions

`Workers` of `backend/sandbox/worker.rs` keeps one process for each of at most
four sessions, behind one lock. `evaluate` takes the process out of its entry
before the first byte of a request is written and puts it back when the whole
response was read; whatever ends the call in between drops the process and
leaves the entry without one. The processes and the connections of the host are
outside: they may write anything at any time, die and fail. `worker_requests_exact`
says for every run what a process is sent, and what the callers get back.
-/

namespace MobiusAgent.SessionWorkers

open ProtocolEvents FrameCodec OrderedMaps
open CheckpointRecords (SandboxMode NetworkAccess)

section Source

def maxFrameBytes : Nat := 1024 * 1024

def hostRequest : Nat := 1 <<< 31

def hostError : Nat := 1 <<< 30

def maxHostReplyBytes : Nat := 64 * 1024 * 1024

/-- The entries that `Workers` keeps at most. -/
def maxSessions : Nat := 4

structure WorkerCommand where
  executable : String
  arguments : List String
  deriving DecidableEq

/-- One call of `evaluate`. -/
structure Call where
  id : Nat
  session : SessionId
  command : WorkerCommand
  sandboxMode : SandboxMode
  networkAccess : NetworkAccess
  request : List UInt8
  reset : Bool
  deriving DecidableEq

structure WorkerProcess where
  id : Nat
  alive : Bool
  /-- What it wrote to its standard output and nobody read. -/
  output : List UInt8
  deriving DecidableEq

structure Entry where
  command : WorkerCommand
  /-- The isolation it was started with. -/
  sandboxMode : SandboxMode
  networkAccess : NetworkAccess
  /-- The process, unless a call took it. -/
  process : Option WorkerProcess
  deriving DecidableEq

abbrev Entries := OrderedMap SessionId Entry

/-- How a call ends without a response. -/
inductive Ending where
  /-- The request is empty or too large. -/
  | invalid
  /-- It was dropped while it waited for the lock. -/
  | waiting
  | limit
  /-- The process does not start. -/
  | launch
  /-- The process was started with another command or other permissions. -/
  | policy
  | lost
  /-- It was dropped while it held the process. -/
  | cancelled
  | timedOut
  | failed
  deriving DecidableEq

/-- Whether the entry of the session is left without a process. -/
def Ending.leavesTombstone : Ending → Bool
  | .invalid | .waiting | .limit | .launch => false
  | .policy | .lost | .cancelled | .timedOut | .failed => true

/-- What happened, as an observer of the processes sees it. -/
inductive Event where
  | started (process : Nat) (call : Call)
  | wrote (process : Nat) (call : Call) (bytes : List UInt8)
  /-- Bytes of a reply of the host were written to a process. -/
  | replied (process : Nat) (bytes : List UInt8)
  | took (process : Nat) (bytes : List UInt8)
  | returned (process : Nat) (call : Call) (response : List UInt8)
  | ended (call : Call) (ending : Ending)
  | removed (session : SessionId)
  deriving DecidableEq

/-- The entry for a process that was just started. -/
def Call.entry (call : Call) (process : Option WorkerProcess) : Entry :=
  ⟨call.command, call.sandboxMode, call.networkAccess, process⟩

/-- Whether an entry was started with the command and the permissions of a call. -/
def Entry.Agrees (entry : Entry) (call : Call) : Prop :=
  entry.command = call.command ∧ entry.sandboxMode = call.sandboxMode ∧
    entry.networkAccess = call.networkAccess

/-- That can be decided. -/
instance (entry : Entry) (call : Call) : Decidable (entry.Agrees call) :=
  inferInstanceAs (Decidable (_ ∧ _))

/-- The first part of `evaluate` under the lock: the session gets an entry if it has none.
`launched` is what `start_worker` returns. -/
def ensureEntry (entries : Entries) (call : Call) (launched : Option WorkerProcess) :
    List Event × Except Ending Entries :=
  if (entries.get call.session).isSome then ([], .ok entries)
  else if maxSessions ≤ entries.size then ([], .error .limit)
  else match launched with
    | none => ([], .error .launch)
    | some process => ([.started process.id call],
        .ok (entries.insert call.session (call.entry (some process))))

/-- The second part: the process is taken out of the entry. -/
def takeProcess (entries : Entries) (call : Call) : Entries × Except Ending WorkerProcess :=
  match entries.get call.session with
  | none => (entries, .error .lost)
  | some entry =>
    if ¬entry.Agrees call then
      (entries.insert call.session { entry with process := none }, .error .policy)
    else match entry.process with
      | none => (entries, .error .lost)
      | some process =>
        (entries.insert call.session { entry with process := none }, .ok process)

/-- `evaluate` from the lock to the exchange. -/
def prepare (entries : Entries) (call : Call) (launched : Option WorkerProcess) :
    List Event × Entries × Except Ending WorkerProcess :=
  let removed := if call.reset then [Event.removed call.session] else []
  let entries := if call.reset then entries.erase call.session else entries
  match ensureEntry entries call launched with
  | (events, .error ending) => (removed ++ events, entries, .error ending)
  | (events, .ok entries) => (removed ++ events, takeProcess entries call)

/-- The last part of `evaluate`: the process is put back. -/
def putBack (entries : Entries) (session : SessionId) (process : WorkerProcess) : Entries :=
  match entries.get session with
  | none => entries
  | some entry => entries.insert session { entry with process := some process }

/-- How far `exchange` is. -/
inductive Phase where
  /-- It is about to see whether the process runs. -/
  | starting
  | writing (rest : List UInt8)
  | reading
  /-- It waits for the payload of a header. -/
  | sized (header : Nat)
  /-- It waits for a connection to the host, to pass on a request. -/
  | connecting (payload : List UInt8)
  /-- It waits for the host to reply to a request. -/
  | asking (payload : List UInt8)
  | replying (rest : List UInt8)
  deriving DecidableEq

/-- A call that holds the lock and a process. -/
structure Exchange where
  call : Call
  process : WorkerProcess
  phase : Phase
  /-- Whether it has a connection to the host. -/
  connected : Bool
  deriving DecidableEq

/-- The workers with the call that holds their lock. -/
structure Workers where
  entries : Entries
  /-- The call under way, which holds the lock. -/
  exchange : Option Exchange
  nextProcess : Nat
  nextCall : Nat
  deriving DecidableEq

/-- No session has a worker. -/
def initial : Workers := ⟨.empty, none, 0, 0⟩

/-- The payload size in a header, without the host bit. -/
def payloadSize (header : Nat) : Nat := header % hostRequest

def isHostRequest (header : Nat) : Bool := decide (hostRequest ≤ header)

def hostFrame (flags : Nat) (reply : List UInt8) : List UInt8 :=
  toBigEndian (hostRequest ||| flags ||| reply.length) ++ reply

/-- What a process does on its own: it writes, or it dies. -/
inductive WorkerProcess.Moves : WorkerProcess → WorkerProcess → Prop where
  | writes {process : WorkerProcess} (halive : process.alive = true) (bytes : List UInt8) :
      Moves process { process with output := process.output ++ bytes }
  | dies (process : WorkerProcess) : Moves process { process with alive := false }

/-- One step of the workers, with what an observer sees of it. -/
inductive Step : Workers → List Event → Workers → Prop where
  /-- A request that `evaluate` refuses before it waits for the lock. -/
  | invalid {workers : Workers} {call : Call} (hid : call.id = workers.nextCall)
      (hrequest : call.request = [] ∨ maxFrameBytes < call.request.length) :
      Step workers [.ended call .invalid] { workers with nextCall := workers.nextCall + 1 }
  /-- A call is dropped before it has the lock. -/
  | waiting {workers : Workers} {call : Call} (hid : call.id = workers.nextCall) :
      Step workers [.ended call .waiting] { workers with nextCall := workers.nextCall + 1 }
  /-- A call has the lock and does not get a process. -/
  | refused {workers : Workers} {call : Call} (hid : call.id = workers.nextCall)
      (hfree : workers.exchange = none) (hrequest : call.request ≠ [])
      (hsize : call.request.length ≤ maxFrameBytes) (starts : Bool) {events : List Event}
      {entries : Entries} {ending : Ending}
      (hprepare : prepare workers.entries call
        (if starts then some ⟨workers.nextProcess, true, []⟩ else none) =
          (events, entries, .error ending)) :
      Step workers (events ++ [.ended call ending])
        ⟨entries, none, workers.nextProcess + 1, workers.nextCall + 1⟩
  /-- A call has the lock and takes a process. -/
  | taken {workers : Workers} {call : Call} (hid : call.id = workers.nextCall)
      (hfree : workers.exchange = none) (hrequest : call.request ≠ [])
      (hsize : call.request.length ≤ maxFrameBytes) (starts : Bool) {events : List Event}
      {entries : Entries} {process : WorkerProcess}
      (hprepare : prepare workers.entries call
        (if starts then some ⟨workers.nextProcess, true, []⟩ else none) =
          (events, entries, .ok process)) :
      Step workers events ⟨entries, some ⟨call, process, .starting, false⟩,
        workers.nextProcess + 1, workers.nextCall + 1⟩
  /-- The process runs, and its request is written. -/
  | polled {workers : Workers} {exchange : Exchange} (hheld : workers.exchange = some exchange)
      (hphase : exchange.phase = .starting) (halive : exchange.process.alive = true) :
      Step workers [] { workers with
        exchange := some { exchange with phase := .writing (frame exchange.call.request) } }
  /-- Some bytes of the request are written. -/
  | wrote {workers : Workers} {exchange : Exchange} (hheld : workers.exchange = some exchange)
      {bytes rest : List UInt8} (hphase : exchange.phase = .writing (bytes ++ rest))
      (hbytes : bytes ≠ []) :
      Step workers [.wrote exchange.process.id exchange.call bytes] { workers with
        exchange := some { exchange with phase := .writing rest } }
  /-- The request is written and flushed. -/
  | written {workers : Workers} {exchange : Exchange} (hheld : workers.exchange = some exchange)
      (hphase : exchange.phase = .writing []) :
      Step workers [] { workers with exchange := some { exchange with phase := .reading } }
  /-- A header is read. A read that is cut off shows nothing, since the process is dropped. -/
  | header {workers : Workers} {exchange : Exchange} (hheld : workers.exchange = some exchange)
      (hphase : exchange.phase = .reading) {first second third fourth : UInt8}
      {rest : List UInt8}
      (houtput : exchange.process.output = first :: second :: third :: fourth :: rest)
      (hpositive : 0 < payloadSize (fromBigEndian first second third fourth))
      (hsize : payloadSize (fromBigEndian first second third fourth) ≤ maxFrameBytes) :
      Step workers [.took exchange.process.id [first, second, third, fourth]] { workers with
        exchange := some { exchange with
          process := { exchange.process with output := rest }
          phase := .sized (fromBigEndian first second third fourth) } }
  /-- A response is read: it is returned and the process put back. -/
  | returned {workers : Workers} {exchange : Exchange} (hheld : workers.exchange = some exchange)
      {header : Nat} (hphase : exchange.phase = .sized header)
      (hresponse : isHostRequest header = false) {response rest : List UInt8}
      (houtput : exchange.process.output = response ++ rest)
      (hsize : response.length = payloadSize header) :
      Step workers [.took exchange.process.id response,
          .returned exchange.process.id exchange.call response]
        { workers with
          entries := putBack workers.entries exchange.call.session
            { exchange.process with output := rest }
          exchange := none }
  /-- A request to the host is read. -/
  | asked {workers : Workers} {exchange : Exchange} (hheld : workers.exchange = some exchange)
      {header : Nat} (hphase : exchange.phase = .sized header)
      (hhost : isHostRequest header = true) {payload rest : List UInt8}
      (houtput : exchange.process.output = payload ++ rest)
      (hsize : payload.length = payloadSize header) :
      Step workers [.took exchange.process.id payload] { workers with
        exchange := some { exchange with
          process := { exchange.process with output := rest }
          phase := if exchange.connected then .asking payload else .connecting payload } }
  /-- The host gives a connection. -/
  | connected {workers : Workers} {exchange : Exchange} (hheld : workers.exchange = some exchange)
      {payload : List UInt8} (hphase : exchange.phase = .connecting payload) :
      Step workers [] { workers with
        exchange := some { exchange with phase := .asking payload, connected := true } }
  /-- The host gives none: its error is the reply. -/
  | denied {workers : Workers} {exchange : Exchange} (hheld : workers.exchange = some exchange)
      {payload message : List UInt8} (hphase : exchange.phase = .connecting payload)
      (hsize : message.length < 2 ^ 32) :
      Step workers [] { workers with
        exchange := some { exchange with phase := .replying (hostFrame hostError message) } }
  | answered {workers : Workers} {exchange : Exchange} (hheld : workers.exchange = some exchange)
      {payload reply : List UInt8} (hphase : exchange.phase = .asking payload)
      (hpositive : 0 < reply.length) (hsize : reply.length ≤ maxHostReplyBytes) :
      Step workers [] { workers with
        exchange := some { exchange with phase := .replying (hostFrame 0 reply) } }
  /-- Some bytes of a reply are written. -/
  | replied {workers : Workers} {exchange : Exchange} (hheld : workers.exchange = some exchange)
      {bytes rest : List UInt8} (hphase : exchange.phase = .replying (bytes ++ rest))
      (hbytes : bytes ≠ []) :
      Step workers [.replied exchange.process.id bytes] { workers with
        exchange := some { exchange with phase := .replying rest } }
  /-- A reply is written and flushed. -/
  | resumed {workers : Workers} {exchange : Exchange} (hheld : workers.exchange = some exchange)
      (hphase : exchange.phase = .replying []) :
      Step workers [] { workers with exchange := some { exchange with phase := .reading } }
  /-- A call is dropped, runs out of time or fails, and its process is dropped. -/
  | dropped {workers : Workers} {exchange : Exchange} (hheld : workers.exchange = some exchange)
      {ending : Ending} (hending : ending = .cancelled ∨ ending = .timedOut ∨ ending = .failed) :
      Step workers [.ended exchange.call ending] { workers with exchange := none }
  /-- `shutdown` removes the entry of a session. -/
  | shutdown {workers : Workers} (hfree : workers.exchange = none) (session : SessionId) :
      Step workers [.removed session]
        { workers with entries := workers.entries.erase session }
  /-- The process of the call moves. -/
  | held {workers : Workers} {exchange : Exchange} (hheld : workers.exchange = some exchange)
      {process : WorkerProcess} (hmoves : exchange.process.Moves process) :
      Step workers [] { workers with exchange := some { exchange with process := process } }
  | idle {workers : Workers} {session : SessionId} {entry : Entry} {before after : WorkerProcess}
      (hentry : workers.entries.get session = some entry) (hprocess : entry.process = some before)
      (hmoves : before.Moves after) :
      Step workers [] { workers with
        entries := workers.entries.insert session { entry with process := some after } }

/-- A run of the workers, with what an observer sees of it. -/
inductive Run : List Event → Workers → Prop where
  /-- At first there are none. -/
  | initial : Run [] initial
  | step {trace events : List Event} {workers after : Workers} (hrun : Run trace workers)
      (hstep : Step workers events after) : Run (trace ++ events) after

end Source

section Dialogues

/-- Bytes that a process wrote for a payload, with the host bit or without. -/
def WorkerFrame (host : Bool) (bytes payload : List UInt8) : Prop :=
  ∃ first second third fourth, bytes = first :: second :: third :: fourth :: payload ∧
    isHostRequest (fromBigEndian first second third fourth) = host ∧
      payloadSize (fromBigEndian first second third fourth) = payload.length

/-- Replies of the host, and the requests of the process that they reply to. -/
inductive Nested : List UInt8 → List UInt8 → Prop where
  | none : Nested [] []
  /-- One more request was replied to. -/
  | reply {sent taken bytes payload : List UInt8} (hnested : Nested sent taken)
      (hframe : WorkerFrame true bytes payload) (flags : Nat) (reply : List UInt8) :
      Nested (sent ++ hostFrame flags reply) (taken ++ bytes)

/-- What was sent to a process and taken from it is one turn after the other: a request, the
requests of the process to the host with the replies, and one response. -/
inductive Dialogue : List (List UInt8 × List UInt8) → List UInt8 → List UInt8 → Prop where
  /-- There was no turn. -/
  | silent : Dialogue [] [] []
  | turn {answers : List (List UInt8 × List UInt8)} {sent taken : List UInt8}
      (hdialogue : Dialogue answers sent taken) (request : List UInt8)
      {replies requests bytes response : List UInt8} (hnested : Nested replies requests)
      (hframe : WorkerFrame false bytes response) :
      Dialogue (answers ++ [(request, response)]) (sent ++ (frame request ++ replies))
        (taken ++ (requests ++ bytes))

/-- What was sent and taken in the turn of a request that is under way. -/
def Phase.Underway (request : List UInt8) : Phase → List UInt8 → List UInt8 → Prop
  | .starting, sent, taken => sent = [] ∧ taken = []
  | .writing rest, sent, taken => sent ++ rest = frame request ∧ taken = []
  | .reading, sent, taken => ∃ replies, sent = frame request ++ replies ∧ Nested replies taken
  | .sized header, sent, taken => ∃ replies requests first second third fourth,
      sent = frame request ++ replies ∧ Nested replies requests ∧
        taken = requests ++ [first, second, third, fourth] ∧
          fromBigEndian first second third fourth = header
  | .connecting payload, sent, taken | .asking payload, sent, taken =>
      ∃ replies requests bytes, sent = frame request ++ replies ∧ Nested replies requests ∧
        taken = requests ++ bytes ∧ WorkerFrame true bytes payload
  | .replying rest, sent, taken => ∃ replies requests bytes payload part flags reply,
      sent = frame request ++ (replies ++ part) ∧ Nested replies requests ∧
        taken = requests ++ bytes ∧ WorkerFrame true bytes payload ∧
          part ++ rest = hostFrame flags reply

/-- The bytes of a request that are not written. -/
def Phase.unwritten (request : List UInt8) : Phase → List UInt8
  | .starting => frame request
  | .writing rest => rest
  | .reading | .sized _ | .connecting _ | .asking _ | .replying _ => []

end Dialogues

section Observations

/-- The bytes that an event sends to a process. -/
def Event.sentTo (process : Nat) : Event → List UInt8
  | .wrote target _ bytes | .replied target bytes => if target = process then bytes else []
  | .started _ _ | .took _ _ | .returned _ _ _ | .ended _ _ | .removed _ => []

/-- The bytes that an event takes from a process. -/
def Event.takenFrom (process : Nat) : Event → List UInt8
  | .took source bytes => if source = process then bytes else []
  | .started _ _ | .wrote _ _ _ | .replied _ _ | .returned _ _ _ | .ended _ _ | .removed _ => []

/-- The request and the response of a call that a process answered. -/
def Event.answerOf (process : Nat) : Event → List (List UInt8 × List UInt8)
  | .returned source call response =>
    if source = process then [(call.request, response)] else []
  | .started _ _ | .wrote _ _ _ | .replied _ _ | .took _ _ | .ended _ _ | .removed _ => []

/-- The bytes of the request of a call that an event writes. -/
def Event.writtenFor (id : Nat) : Event → List UInt8
  | .wrote _ call bytes => if call.id = id then bytes else []
  | .started _ _ | .replied _ _ | .took _ _ | .returned _ _ _ | .ended _ _ | .removed _ => []

def sent (process : Nat) (trace : List Event) : List UInt8 := trace.flatMap (·.sentTo process)

def taken (process : Nat) (trace : List Event) : List UInt8 := trace.flatMap (·.takenFrom process)

/-- The requests that a process answered, with the responses that were returned. -/
def answers (process : Nat) (trace : List Event) : List (List UInt8 × List UInt8) :=
  trace.flatMap (·.answerOf process)

/-- Everything that was written of the request of a call. -/
def writtenFor (id : Nat) (trace : List Event) : List UInt8 := trace.flatMap (·.writtenFor id)

/-- What happened since the entry of a session was last removed. -/
def since (session : SessionId) (trace : List Event) : List Event :=
  (trace.reverse.takeWhile fun event => decide (event ≠ .removed session)).reverse

/-- The request of each call goes to one process, and no part of it twice. -/
def RequestsOnce (trace : List Event) : Prop :=
  ∀ process call bytes, .wrote process call bytes ∈ trace →
    (∀ other later more, .wrote other later more ∈ trace → later.id = call.id →
      other = process ∧ later = call) ∧
    (writtenFor call.id trace).IsPrefix (frame call.request)

/-- No request reaches a process after a call of its session left the entry without one, until
the entry was removed; and then it reaches a process that was started later. -/
def NoneAfterLoss (trace : List Event) : Prop :=
  ∀ before process call bytes after, trace = before ++ .wrote process call bytes :: after →
    (∀ earlier ending, .ended earlier ending ∈ since call.session before →
      earlier.session = call.session → ending.leavesTombstone = false) ∧
    ∃ starter, .started process starter ∈ since call.session before ∧
      starter.session = call.session

/-- A process is sent only requests with the command and the permissions it was started with. -/
def SameAuthority (trace : List Event) : Prop :=
  ∀ process call bytes starter, .wrote process call bytes ∈ trace →
    .started process starter ∈ trace → starter.session = call.session ∧
      starter.command = call.command ∧ starter.sandboxMode = call.sandboxMode ∧
        starter.networkAccess = call.networkAccess

/-- A response that is returned ends the turn of the request of its call. -/
def ResponsesMatch (trace : List Event) : Prop :=
  ∀ before process call response after,
    trace = before ++ .returned process call response :: after →
      Dialogue (answers process before ++ [(call.request, response)]) (sent process before)
        (taken process before)

variable {trace : List Event} {event : Event} {session : SessionId}

theorem sent_snoc (process : Nat) (trace : List Event) (event : Event) :
    sent process (trace ++ [event]) = sent process trace ++ event.sentTo process := by
  simp [sent]

theorem taken_snoc (process : Nat) (trace : List Event) (event : Event) :
    taken process (trace ++ [event]) = taken process trace ++ event.takenFrom process := by
  simp [taken]

theorem answers_snoc (process : Nat) (trace : List Event) (event : Event) :
    answers process (trace ++ [event]) = answers process trace ++ event.answerOf process := by
  simp [answers]

theorem writtenFor_snoc (id : Nat) (trace : List Event) (event : Event) :
    writtenFor id (trace ++ [event]) = writtenFor id trace ++ event.writtenFor id := by
  simp [writtenFor]

theorem since_snoc (session : SessionId) (trace : List Event) (event : Event) :
    since session (trace ++ [event]) =
      if event = .removed session then [] else since session trace ++ [event] := by
  unfold since
  rw [List.reverse_append, List.reverse_singleton, List.singleton_append, List.takeWhile_cons]
  by_cases hremoved : event = .removed session
  · rw [if_pos hremoved, if_neg (by simpa using hremoved)]
    rfl
  · rw [if_neg hremoved, if_pos (by simpa using hremoved), List.reverse_cons]

theorem mem_of_mem_since (h : event ∈ since session trace) : event ∈ trace := by
  have hreverse := List.mem_reverse.mp h
  exact List.mem_reverse.mp ((List.takeWhile_sublist _).subset hreverse)

theorem forall_split_snoc (P : List Event → Event → Prop)
    (h : ∀ before this after, trace = before ++ this :: after → P before this)
    (hevent : P trace event) :
    ∀ before this after, trace ++ [event] = before ++ this :: after → P before this := by
  intro before this after hsplit
  cases hlast : after.reverse with
  | nil =>
    rw [List.reverse_eq_nil_iff.mp hlast] at hsplit
    obtain ⟨hbefore, hthis⟩ := List.append_inj' hsplit rfl
    cases hthis
    exact hbefore ▸ hevent
  | cons last rest =>
    have hafter : after = rest.reverse ++ [last] := by
      rw [← List.reverse_cons, ← hlast, List.reverse_reverse]
    rw [hafter, ← List.cons_append, ← List.append_assoc] at hsplit
    exact h before this rest.reverse (List.append_inj' hsplit rfl).1

end Observations

section Laws

variable {trace : List Event} {event : Event} {process : Nat} {call : Call} {bytes : List UInt8}

/-- What holds of the events of a run. -/
structure Lawful (trace : List Event) : Prop where
  starts : ∀ process first second, .started process first ∈ trace →
    .started process second ∈ trace → first = second
  once : RequestsOnce trace
  loss : NoneAfterLoss trace
  authority : SameAuthority trace
  answered : ResponsesMatch trace

/-- What makes it right to write some bytes of the request of a call to a process. -/
structure Permitted (trace : List Event) (process : Nat) (call : Call) (bytes : List UInt8) :
    Prop where
  single : ∀ other later more, .wrote other later more ∈ trace → later.id = call.id →
    other = process ∧ later = call
  part : (writtenFor call.id trace ++ bytes).IsPrefix (frame call.request)
  calm : ∀ earlier ending, .ended earlier ending ∈ since call.session trace →
    earlier.session = call.session → ending.leavesTombstone = false
  origin : ∃ starter, .started process starter ∈ since call.session trace ∧
    starter.session = call.session ∧ starter.command = call.command ∧
      starter.sandboxMode = call.sandboxMode ∧ starter.networkAccess = call.networkAccess

/-- One more event keeps the laws if it starts a new process, writes what is permitted or returns
the response of a turn. -/
theorem Lawful.snoc (h : Lawful trace)
    (hstarted : ∀ process call, event = .started process call →
      (∀ other, .started process other ∉ trace) ∧ ∀ other bytes, .wrote process other bytes ∉ trace)
    (hwrote : ∀ process call bytes, event = .wrote process call bytes →
      Permitted trace process call bytes)
    (hreturned : ∀ process call response, event = .returned process call response →
      Dialogue (answers process trace ++ [(call.request, response)]) (sent process trace)
        (taken process trace)) :
    Lawful (trace ++ [event]) := by
  have hmem : ∀ {this : Event}, this ∈ trace ++ [event] → this ∈ trace ∨ event = this := by
    intro this hthis
    cases List.mem_append.mp hthis with
    | inl hold => exact .inl hold
    | inr hnew => exact .inr (List.mem_singleton.mp hnew).symm
  constructor
  case starts =>
    intro process first second hfirst hsecond
    cases hmem hfirst with
    | inl hfirst =>
      cases hmem hsecond with
      | inl hsecond => exact h.starts process first second hfirst hsecond
      | inr hevent => exact absurd hfirst ((hstarted process second hevent).1 first)
    | inr hevent =>
      cases hmem hsecond with
      | inl hsecond => exact absurd hsecond ((hstarted process first hevent).1 second)
      | inr hsame =>
        rw [hevent] at hsame
        cases hsame
        rfl
  case once =>
    intro process call bytes hbytes
    cases hmem hbytes with
    | inl hold =>
      obtain ⟨hsingle, hpart⟩ := h.once process call bytes hold
      constructor
      · intro other later more hmore hid
        cases hmem hmore with
        | inl hmore => exact hsingle other later more hmore hid
        | inr hevent =>
          obtain ⟨hprocess, hcall⟩ :=
            (hwrote other later more hevent).single process call bytes hold hid.symm
          exact ⟨hprocess.symm, hcall.symm⟩
      · rw [writtenFor_snoc]
        cases event with
        | wrote other later more =>
          by_cases hid : later.id = call.id
          · have hpermitted := hwrote other later more rfl
            have hcall := (hpermitted.single process call bytes hold hid.symm).2
            rw [Event.writtenFor, if_pos hid, hcall]
            exact hpermitted.part
          · rw [Event.writtenFor, if_neg hid, List.append_nil]
            exact hpart
        | _ => simpa [Event.writtenFor] using hpart
    | inr hevent =>
      have hpermitted := hwrote process call bytes hevent
      constructor
      · intro other later more hmore hid
        cases hmem hmore with
        | inl hmore => exact hpermitted.single other later more hmore hid
        | inr hsame =>
          rw [hevent] at hsame
          cases hsame
          exact ⟨rfl, rfl⟩
      · rw [writtenFor_snoc, hevent, Event.writtenFor, if_pos rfl]
        exact hpermitted.part
  case loss =>
    intro before process call bytes after hsplit
    refine forall_split_snoc (fun before this => ∀ process call bytes,
      this = Event.wrote process call bytes →
        (∀ earlier ending, .ended earlier ending ∈ since call.session before →
          earlier.session = call.session → ending.leavesTombstone = false) ∧
        ∃ starter, .started process starter ∈ since call.session before ∧
          starter.session = call.session) ?_ ?_ before _ after hsplit process call bytes rfl
    · rintro before this after hthis process call bytes rfl
      exact h.loss before process call bytes after hthis
    · intro process call bytes hevent
      have hpermitted := hwrote process call bytes hevent
      obtain ⟨starter, hstarter, hsession, -⟩ := hpermitted.origin
      exact ⟨hpermitted.calm, starter, hstarter, hsession⟩
  case authority =>
    intro process call bytes starter hbytes hstarter
    cases hmem hbytes with
    | inl hold =>
      cases hmem hstarter with
      | inl hstarter => exact h.authority process call bytes starter hold hstarter
      | inr hevent => exact absurd hold ((hstarted process starter hevent).2 call bytes)
    | inr hevent =>
      obtain ⟨first, hfirst, hagrees⟩ := (hwrote process call bytes hevent).origin
      cases hmem hstarter with
      | inl hstarter =>
        rw [← h.starts process first starter (mem_of_mem_since hfirst) hstarter]
        exact hagrees
      | inr hsame =>
        rw [hevent] at hsame
        cases hsame
  case answered =>
    intro before process call response after hsplit
    refine forall_split_snoc (fun before this => ∀ process call response,
      this = Event.returned process call response →
        Dialogue (answers process before ++ [(call.request, response)]) (sent process before)
          (taken process before)) ?_ hreturned before _ after hsplit process call response rfl
    rintro before this after hthis process call response rfl
    exact h.answered before process call response after hthis

end Laws

section Invariant

variable {trace : List Event} {event : Event} {process : Nat} {call : Call} {bytes : List UInt8}
  {session : SessionId} {entry : Entry} {entries : Entries} {exchange : Exchange}
  {workers : Workers} {nextProcess nextCall : Nat}

/-- The process that an event is part of the talk with. -/
def Event.about : Event → Option Nat
  | .wrote process _ _ | .replied process _ | .took process _ | .returned process _ _ =>
    some process
  | .started _ _ | .ended _ _ | .removed _ => none

def Event.Numbered (nextProcess nextCall : Nat) : Event → Prop
  | .started process call | .wrote process call _ | .returned process call _ =>
    process < nextProcess ∧ call.id < nextCall
  | .replied process _ | .took process _ => process < nextProcess
  | .ended call _ => call.id < nextCall
  | .removed _ => True

/-- The talk with a process is in no turn. -/
def Spoken (trace : List Event) (process : Nat) : Prop :=
  Dialogue (answers process trace) (sent process trace) (taken process trace)

/-- A process was started for a session since its entry was removed, with the authority of the
entry. -/
def Belongs (trace : List Event) (session : SessionId) (entry : Entry) (process : Nat) : Prop :=
  ∃ starter, .started process starter ∈ since session trace ∧ starter.session = session ∧
    entry.Agrees starter

/-- The process of a call, the entry it was taken from and the turn that is under way. -/
structure Held (trace : List Event) (entries : Entries) (nextCall : Nat) (exchange : Exchange) :
    Prop where
  slot : ∃ entry, entries.get exchange.call.session = some entry ∧ entry.process = none ∧
    entry.Agrees exchange.call ∧
      Belongs trace exchange.call.session entry exchange.process.id
  numbered : exchange.call.id < nextCall
  single : ∀ process call bytes, .wrote process call bytes ∈ trace →
    call.id = exchange.call.id → process = exchange.process.id ∧ call = exchange.call
  written : writtenFor exchange.call.id trace ++ exchange.phase.unwritten exchange.call.request =
    frame exchange.call.request
  turn : ∃ earlierSent earlierTaken partSent partTaken,
    Dialogue (answers exchange.process.id trace) earlierSent earlierTaken ∧
      sent exchange.process.id trace = earlierSent ++ partSent ∧
        taken exchange.process.id trace = earlierTaken ++ partTaken ∧
          exchange.phase.Underway exchange.call.request partSent partTaken

structure Inv (trace : List Event) (workers : Workers) : Prop where
  lawful : Lawful trace
  numbered : ∀ event ∈ trace, event.Numbered workers.nextProcess workers.nextCall
  size : workers.entries.size ≤ maxSessions
  /-- The process of an entry belongs to it, and the talk with it is in no turn. -/
  idle : ∀ session entry process, workers.entries.get session = some entry →
    entry.process = some process → Belongs trace session entry process.id ∧
      Spoken trace process.id
  /-- A session that lost its process has an entry without one, and no call holds one for it. -/
  barred : ∀ session call ending, .ended call ending ∈ since session trace →
    call.session = session → ending.leavesTombstone = true →
      (∃ entry, workers.entries.get session = some entry ∧ entry.process = none) ∧
        ∀ exchange, workers.exchange = some exchange → exchange.call.session ≠ session
  held : ∀ exchange, workers.exchange = some exchange →
    Held trace workers.entries workers.nextCall exchange

theorem Spoken.snoc (h : Spoken trace process) (hne : event.about ≠ some process) :
    Spoken (trace ++ [event]) process := by
  have hquiet : event.sentTo process = [] ∧ event.takenFrom process = [] ∧
      event.answerOf process = [] := by
    cases event with
    | wrote other _ _ | replied other _ =>
      have hother : other ≠ process := fun heq => hne (congrArg some heq)
      exact ⟨if_neg hother, rfl, rfl⟩
    | took other _ =>
      have hother : other ≠ process := fun heq => hne (congrArg some heq)
      exact ⟨rfl, if_neg hother, rfl⟩
    | returned other _ _ =>
      have hother : other ≠ process := fun heq => hne (congrArg some heq)
      exact ⟨rfl, rfl, if_neg hother⟩
    | _ => exact ⟨rfl, rfl, rfl⟩
  unfold Spoken
  rw [answers_snoc, sent_snoc, taken_snoc, hquiet.1, hquiet.2.1, hquiet.2.2, List.append_nil,
    List.append_nil, List.append_nil]
  exact h

theorem mem_since_snoc {this : Event} (h : this ∈ since session trace)
    (hne : event ≠ .removed session) : this ∈ since session (trace ++ [event]) := by
  rw [since_snoc, if_neg hne]
  exact List.mem_append_left _ h

theorem mem_since_snoc_cases {this : Event} (h : this ∈ since session (trace ++ [event])) :
    event ≠ .removed session ∧ (this ∈ since session trace ∨ this = event) := by
  rw [since_snoc] at h
  by_cases hremoved : event = .removed session
  · rw [if_pos hremoved] at h
    cases h
  · rw [if_neg hremoved] at h
    cases List.mem_append.mp h with
    | inl hold => exact ⟨hremoved, .inl hold⟩
    | inr hnew => exact ⟨hremoved, .inr (List.mem_singleton.mp hnew)⟩

theorem Belongs.snoc (h : Belongs trace session entry process) (hne : event ≠ .removed session) :
    Belongs (trace ++ [event]) session entry process := by
  obtain ⟨starter, hstarter, hagrees⟩ := h
  exact ⟨starter, mem_since_snoc hstarter hne, hagrees⟩

theorem Belongs.lt (h : Belongs trace session entry process)
    (hnumbered : ∀ event ∈ trace, event.Numbered nextProcess nextCall) : process < nextProcess := by
  obtain ⟨starter, hstarter, -⟩ := h
  exact (hnumbered _ (mem_of_mem_since hstarter)).1

theorem Belongs.same (h : Belongs trace session entry process) {other : SessionId} {found : Entry}
    (hother : Belongs trace other found process) (hlawful : Lawful trace) : session = other := by
  obtain ⟨first, hfirst, hsession, -⟩ := h
  obtain ⟨second, hsecond, hsame, -⟩ := hother
  rw [← hsession, ← hsame, hlawful.starts process first second (mem_of_mem_since hfirst)
    (mem_of_mem_since hsecond)]

theorem Inv.apart (h : Inv trace workers) (hheld : workers.exchange = some exchange)
    {found : Entry} {other : WorkerProcess} (hfound : workers.entries.get session = some found)
    (hother : found.process = some other) : exchange.process.id ≠ other.id := by
  intro hsame
  obtain ⟨entry, hentry, hnone, -, hbelongs⟩ := (h.held exchange hheld).slot
  have hsession := (hsame ▸ hbelongs).same (h.idle session found other hfound hother).1 h.lawful
  rw [hsession, hfound] at hentry
  cases hentry
  rw [hother] at hnone
  cases hnone

theorem Event.Numbered.mono {laterProcess laterCall : Nat}
    (h : event.Numbered nextProcess nextCall) (hprocess : nextProcess ≤ laterProcess)
    (hcall : nextCall ≤ laterCall) : event.Numbered laterProcess laterCall := by
  cases event with
  | started _ _ | wrote _ _ _ | returned _ _ _ =>
    exact ⟨Nat.lt_of_lt_of_le h.1 hprocess, Nat.lt_of_lt_of_le h.2 hcall⟩
  | replied _ _ | took _ _ => exact Nat.lt_of_lt_of_le h hprocess
  | ended _ _ => exact Nat.lt_of_lt_of_le h hcall
  | removed _ => exact trivial

theorem Inv.skip (h : Inv trace workers) {laterProcess laterCall : Nat}
    (hprocess : workers.nextProcess ≤ laterProcess) (hcall : workers.nextCall ≤ laterCall) :
    Inv trace { workers with nextProcess := laterProcess, nextCall := laterCall } where
  lawful := h.lawful
  numbered event hevent := (h.numbered event hevent).mono hprocess hcall
  size := h.size
  idle := h.idle
  barred := h.barred
  held exchange hheld :=
    { h.held exchange hheld with
      numbered := Nat.lt_of_lt_of_le (h.held exchange hheld).numbered hcall }

theorem Inv.drop (h : Inv trace workers) : Inv trace { workers with exchange := none } where
  lawful := h.lawful
  numbered := h.numbered
  size := h.size
  idle := h.idle
  barred session call ending hended hsession hleaves :=
    ⟨(h.barred session call ending hended hsession hleaves).1, nofun⟩
  held _ hheld := nomatch hheld

theorem Held.ended (h : Held trace entries nextCall exchange) (call : Call) (ending : Ending) :
    Held (trace ++ [.ended call ending]) entries nextCall exchange := by
  obtain ⟨entry, hentry, hnone, hagrees, hbelongs⟩ := h.slot
  constructor
  case slot => exact ⟨entry, hentry, hnone, hagrees, hbelongs.snoc nofun⟩
  case numbered => exact h.numbered
  case single =>
    intro process later bytes hmem hid
    cases List.mem_append.mp hmem with
    | inl hold => exact h.single process later bytes hold hid
    | inr hnew => cases List.mem_singleton.mp hnew
  case written =>
    rw [writtenFor_snoc, Event.writtenFor, List.append_nil]
    exact h.written
  case turn =>
    rw [answers_snoc, sent_snoc, taken_snoc]
    simp only [Event.answerOf, Event.sentTo, Event.takenFrom, List.append_nil]
    exact h.turn

theorem Inv.ended (h : Inv trace workers) {ending : Ending} (hid : call.id < workers.nextCall)
    (htomb : ending.leavesTombstone = true →
      (∃ entry, workers.entries.get call.session = some entry ∧ entry.process = none) ∧
        ∀ exchange, workers.exchange = some exchange → exchange.call.session ≠ call.session) :
    Inv (trace ++ [.ended call ending]) workers where
  lawful := h.lawful.snoc nofun nofun
    nofun
  numbered event hevent := by
    cases List.mem_append.mp hevent with
    | inl hold => exact h.numbered event hold
    | inr hnew =>
      rw [List.mem_singleton.mp hnew]
      exact hid
  size := h.size
  idle session entry process hentry hprocess := by
    obtain ⟨hbelongs, hspoken⟩ := h.idle session entry process hentry hprocess
    exact ⟨hbelongs.snoc nofun, hspoken.snoc nofun⟩
  barred session earlier leaving hended hsession hleaves := by
    cases (mem_since_snoc_cases hended).2 with
    | inl hold => exact h.barred session earlier leaving hold hsession hleaves
    | inr hnew =>
      cases hnew
      exact hsession ▸ htomb hleaves
  held exchange hheld := (h.held exchange hheld).ended call ending

/-- The entry of a session may be removed while no call holds the lock. -/
theorem Inv.remove (h : Inv trace workers) (hfree : workers.exchange = none)
    (session : SessionId) :
    Inv (trace ++ [.removed session])
      { workers with entries := workers.entries.erase session } where
  lawful := h.lawful.snoc nofun nofun
    nofun
  numbered event hevent := by
    cases List.mem_append.mp hevent with
    | inl hold => exact h.numbered event hold
    | inr hnew =>
      rw [List.mem_singleton.mp hnew]
      exact trivial
  size := Nat.le_trans (OrderedMap.size_erase_le _ _) h.size
  idle other entry process hentry hprocess := by
    rw [OrderedMap.get_erase] at hentry
    by_cases hsame : other = session
    · rw [if_pos hsame] at hentry
      cases hentry
    · rw [if_neg hsame] at hentry
      obtain ⟨hbelongs, hspoken⟩ := h.idle other entry process hentry hprocess
      refine ⟨hbelongs.snoc (fun heq => ?_), hspoken.snoc nofun⟩
      cases heq
      exact hsame rfl
  barred other earlier leaving hended hsession hleaves := by
    obtain ⟨hother, hmem⟩ := mem_since_snoc_cases hended
    have hne : other ≠ session := fun heq => hother (heq ▸ rfl)
    cases hmem with
    | inr hnew => cases hnew
    | inl hold =>
      obtain ⟨⟨entry, hentry, hnone⟩, hheld⟩ :=
        h.barred other earlier leaving hold hsession hleaves
      refine ⟨⟨entry, ?_, hnone⟩, hheld⟩
      rw [OrderedMap.get_erase, if_neg hne]
      exact hentry
  held exchange hheld := by
    rw [hfree] at hheld
    cases hheld

theorem Inv.start (h : Inv trace workers) (hfree : workers.exchange = none)
    (hnone : workers.entries.get call.session = none) (hsize : workers.entries.size < maxSessions)
    (hid : call.id < workers.nextCall) :
    Inv (trace ++ [.started workers.nextProcess call])
      { workers with
        entries := workers.entries.insert call.session
          (call.entry (some ⟨workers.nextProcess, true, []⟩))
        nextProcess := workers.nextProcess + 1 } := by
  -- Nothing was sent to the new process, and nothing taken from it.
  have hsilent : ∀ event ∈ trace, event.about ≠ some workers.nextProcess := by
    intro event hevent habout
    have hnumbered := h.numbered event hevent
    cases event with
    | wrote _ _ _ | returned _ _ _ =>
      cases habout
      exact Nat.lt_irrefl _ hnumbered.1
    | replied _ _ | took _ _ =>
      cases habout
      exact Nat.lt_irrefl _ hnumbered
    | _ => cases habout
  have hspoken : ∀ events : List Event, (∀ event ∈ events,
      event.about ≠ some workers.nextProcess) → Spoken events workers.nextProcess := by
    intro events
    induction events using List.reverseRecOn with
    | nil => exact fun _ => .silent
    | append_singleton earlier event ih =>
      intro hall
      exact (ih fun this hthis => hall this (List.mem_append_left _ hthis)).snoc
        (hall event (List.mem_append_right _ (List.mem_singleton_self _)))
  constructor
  case lawful =>
    refine h.lawful.snoc ?_ nofun nofun
    intro process later heq
    cases heq
    constructor
    · intro other hmem
      exact Nat.lt_irrefl _ (h.numbered _ hmem).1
    · intro other bytes hmem
      exact Nat.lt_irrefl _ (h.numbered _ hmem).1
  case numbered =>
    intro event hevent
    cases List.mem_append.mp hevent with
    | inl hmem => exact (h.numbered event hmem).mono (Nat.le_succ _) (Nat.le_refl _)
    | inr hnew =>
      rw [List.mem_singleton.mp hnew]
      exact ⟨Nat.lt_succ_self _, hid⟩
  case size => exact Nat.le_trans (OrderedMap.size_insert_le _ _ _) hsize
  case idle =>
    intro session entry process hentry hprocess
    rw [OrderedMap.get_insert] at hentry
    by_cases hsame : session = call.session
    · rw [if_pos hsame] at hentry
      cases hentry
      cases hprocess
      refine ⟨⟨call, ?_, hsame.symm, rfl, rfl, rfl⟩, ?_⟩
      · rw [since_snoc, if_neg nofun]
        exact List.mem_append_right _ (List.mem_singleton_self _)
      · exact (hspoken trace hsilent).snoc nofun
    · rw [if_neg hsame] at hentry
      obtain ⟨hbelongs, htalk⟩ := h.idle session entry process hentry hprocess
      exact ⟨hbelongs.snoc nofun, htalk.snoc nofun⟩
  case barred =>
    intro session earlier ending hended hsession hleaves
    cases (mem_since_snoc_cases hended).2 with
    | inr hnew => cases hnew
    | inl hmem =>
      obtain ⟨⟨entry, hentry, hprocess⟩, hheld⟩ :=
        h.barred session earlier ending hmem hsession hleaves
      refine ⟨⟨entry, ?_, hprocess⟩, hheld⟩
      have hne : session ≠ call.session := by
        intro hsame
        rw [hsame, hnone] at hentry
        cases hentry
      rw [OrderedMap.get_insert, if_neg hne]
      exact hentry
  case held =>
    intro exchange hheld
    rw [hfree] at hheld
    cases hheld

theorem Inv.clear (h : Inv trace workers) (hfree : workers.exchange = none)
    (hentry : workers.entries.get session = some entry) :
    Inv trace { workers with
      entries := workers.entries.insert session { entry with process := none } } where
  lawful := h.lawful
  numbered := h.numbered
  size := (OrderedMap.size_insert_of_get hentry _).symm ▸ h.size
  idle other found process hfound hprocess := by
    rw [OrderedMap.get_insert] at hfound
    by_cases hsame : other = session
    · rw [if_pos hsame] at hfound
      cases hfound
      cases hprocess
    · rw [if_neg hsame] at hfound
      exact h.idle other found process hfound hprocess
  barred other earlier ending hended hsession hleaves := by
    obtain ⟨⟨found, hfound, hprocess⟩, hheld⟩ :=
      h.barred other earlier ending hended hsession hleaves
    refine ⟨?_, hheld⟩
    rw [OrderedMap.get_insert]
    by_cases hsame : other = session
    · rw [if_pos hsame]
      exact ⟨_, rfl, rfl⟩
    · rw [if_neg hsame]
      exact ⟨found, hfound, hprocess⟩
  held exchange hheld := by
    rw [hfree] at hheld
    cases hheld

theorem Inv.take (h : Inv trace workers) (hfree : workers.exchange = none)
    (hentry : workers.entries.get call.session = some entry) (hagrees : entry.Agrees call)
    {process : WorkerProcess} (hprocess : entry.process = some process)
    (hid : call.id < workers.nextCall)
    (hnew : ∀ other later bytes, .wrote other later bytes ∈ trace → later.id ≠ call.id) :
    Inv trace { workers with
      entries := workers.entries.insert call.session { entry with process := none }
      exchange := some ⟨call, process, .starting, false⟩ } := by
  have hcleared := h.clear hfree hentry
  obtain ⟨hbelongs, hspoken⟩ := h.idle call.session entry process hentry hprocess
  refine { hcleared with barred := ?_, held := ?_ }
  · intro other earlier ending hended hsession hleaves
    refine ⟨(hcleared.barred other earlier ending hended hsession hleaves).1, ?_⟩
    intro exchange hheld hsame
    cases hheld
    -- The entry of a session that lost its process has none.
    obtain ⟨⟨found, hfound, hnone⟩, -⟩ := h.barred other earlier ending hended hsession hleaves
    change call.session = other at hsame
    rw [← hsame, hentry] at hfound
    cases hfound
    rw [hprocess] at hnone
    cases hnone
  · intro exchange hheld
    cases hheld
    constructor
    case slot =>
      refine ⟨{ entry with process := none }, ?_, rfl, hagrees, hbelongs⟩
      rw [OrderedMap.get_insert, if_pos rfl]
    case numbered => exact hid
    case single =>
      intro other later bytes hmem hsame
      exact absurd hsame (hnew other later bytes hmem)
    case written =>
      have hnothing : writtenFor call.id trace = [] := by
        refine List.flatMap_eq_nil_iff.mpr fun event hevent => ?_
        cases event with
        | wrote other later bytes => exact if_neg (hnew other later bytes hevent)
        | _ => rfl
      exact (congrArg (· ++ frame call.request) hnothing).trans (List.nil_append _)
    case turn =>
      exact ⟨_, _, [], [], hspoken, (List.append_nil _).symm, (List.append_nil _).symm, rfl, rfl⟩

/-- The event belongs to the exchange of a call. -/
def Event.Within (exchange : Exchange) : Event → Prop
  | .wrote process call _ => process = exchange.process.id ∧ call = exchange.call
  | .replied process _ | .took process _ => process = exchange.process.id
  | .started _ _ | .returned _ _ _ | .ended _ _ | .removed _ => False

/-- The exchange of a call goes on to another phase with an event of its own. -/
theorem Inv.advance (h : Inv trace workers) (hheld : workers.exchange = some exchange)
    (hwithin : event.Within exchange) {before : Phase} (hphase : exchange.phase = before)
    (process : WorkerProcess) (hsame : process.id = exchange.process.id) (phase : Phase)
    (connected : Bool)
    (hwritten : event.writtenFor exchange.call.id ++ phase.unwritten exchange.call.request =
      before.unwritten exchange.call.request)
    (hturn : ∀ partSent partTaken, before.Underway exchange.call.request partSent partTaken →
      phase.Underway exchange.call.request (partSent ++ event.sentTo exchange.process.id)
        (partTaken ++ event.takenFrom exchange.process.id)) :
    Inv (trace ++ [event])
      { workers with exchange := some ⟨exchange.call, process, phase, connected⟩ } := by
  subst hphase
  have hexchange := h.held exchange hheld
  have hframe : writtenFor exchange.call.id (trace ++ [event]) ++
      phase.unwritten exchange.call.request = frame exchange.call.request := by
    rw [writtenFor_snoc, List.append_assoc, hwritten]
    exact hexchange.written
  obtain ⟨entry, hentry, hnone, hagrees, hbelongs⟩ := hexchange.slot
  have hlt := hbelongs.lt h.numbered
  have hkept : ∀ session, event ≠ .removed session := by
    rintro session rfl
    exact hwithin
  have habout : event.about = some exchange.process.id := by
    cases event with
    | wrote _ _ _ => exact congrArg some hwithin.1
    | replied _ _ | took _ _ => exact congrArg some hwithin
    | _ => exact hwithin.elim
  have hpermitted : ∀ other later bytes, event = .wrote other later bytes →
      Permitted trace other later bytes := by
    rintro other later bytes rfl
    obtain ⟨rfl, rfl⟩ := hwithin
    obtain ⟨starter, hstarter, hsession, hauthority⟩ := hbelongs
    refine ⟨fun other later more => hexchange.single other later more, ?_, ?_, starter, hstarter,
      hsession, hauthority.1 ▸ hagrees.1, hauthority.2.1 ▸ hagrees.2.1,
      hauthority.2.2 ▸ hagrees.2.2⟩
    · rw [writtenFor_snoc, Event.writtenFor, if_pos rfl] at hframe
      exact ⟨_, hframe⟩
    · intro earlier ending hended hsession
      by_contra hleaves
      exact (h.barred exchange.call.session earlier ending hended hsession
        (Bool.not_eq_false _ ▸ hleaves)).2 exchange hheld rfl
  constructor
  case lawful =>
    refine h.lawful.snoc ?_ hpermitted ?_
    · rintro other later rfl
      exact hwithin.elim
    · rintro other later response rfl
      exact hwithin.elim
  case numbered =>
    intro this hthis
    cases List.mem_append.mp hthis with
    | inl hold => exact h.numbered this hold
    | inr hnew =>
      rw [List.mem_singleton.mp hnew]
      cases event with
      | wrote _ _ _ => exact ⟨hwithin.1 ▸ hlt, hwithin.2 ▸ hexchange.numbered⟩
      | replied _ _ | took _ _ => exact hwithin ▸ hlt
      | _ => exact hwithin.elim
  case size => exact h.size
  case idle =>
    intro session found other hfound hother
    obtain ⟨hfirst, hspoken⟩ := h.idle session found other hfound hother
    refine ⟨hfirst.snoc (hkept session), hspoken.snoc ?_⟩
    rw [habout]
    exact fun heq => h.apart hheld hfound hother (Option.some.inj heq)
  case barred =>
    intro session earlier ending hended hsession hleaves
    cases (mem_since_snoc_cases hended).2 with
    | inr hnew =>
      rw [← hnew] at hwithin
      exact hwithin.elim
    | inl hold =>
      obtain ⟨hslot, hother⟩ := h.barred session earlier ending hold hsession hleaves
      refine ⟨hslot, fun this hthis => ?_⟩
      cases hthis
      exact hother exchange hheld
  case held =>
    intro this hthis
    cases hthis
    constructor
    case slot => exact ⟨entry, hentry, hnone, hagrees, hsame ▸ hbelongs.snoc (hkept _)⟩
    case numbered => exact hexchange.numbered
    case single =>
      intro other later bytes hmem hid
      cases List.mem_append.mp hmem with
      | inl hold => exact hsame ▸ hexchange.single other later bytes hold hid
      | inr hnew =>
        rw [← List.mem_singleton.mp hnew] at hwithin
        exact ⟨hwithin.1.trans hsame.symm, hwithin.2⟩
    case written => exact hframe
    case turn =>
      obtain ⟨earlierSent, earlierTaken, partSent, partTaken, hdialogue, hsent, htaken,
        hunderway⟩ := hexchange.turn
      have hquiet : event.answerOf exchange.process.id = [] := by
        cases event with
        | returned _ _ _ => exact hwithin.elim
        | _ => rfl
      rw [hsame, answers_snoc, sent_snoc, taken_snoc, hquiet, List.append_nil, hsent, htaken]
      exact ⟨earlierSent, earlierTaken, _, _, hdialogue, List.append_assoc _ _ _,
        List.append_assoc _ _ _, hturn partSent partTaken hunderway⟩

theorem Inv.shift (h : Inv trace workers) (hheld : workers.exchange = some exchange)
    {before : Phase} (hphase : exchange.phase = before) (process : WorkerProcess)
    (hsame : process.id = exchange.process.id) (phase : Phase) (connected : Bool)
    (hwritten : phase.unwritten exchange.call.request = before.unwritten exchange.call.request)
    (hturn : ∀ partSent partTaken, before.Underway exchange.call.request partSent partTaken →
      phase.Underway exchange.call.request partSent partTaken) :
    Inv trace { workers with exchange := some ⟨exchange.call, process, phase, connected⟩ } := by
  subst hphase
  have hexchange := h.held exchange hheld
  refine { h with barred := ?_, held := ?_ }
  · intro session earlier ending hended hsession hleaves
    obtain ⟨hslot, hother⟩ := h.barred session earlier ending hended hsession hleaves
    refine ⟨hslot, fun this hthis => ?_⟩
    cases hthis
    exact hother exchange hheld
  · intro this hthis
    cases hthis
    obtain ⟨entry, hentry, hnone, hagrees, hbelongs⟩ := hexchange.slot
    obtain ⟨earlierSent, earlierTaken, partSent, partTaken, hdialogue, hsent, htaken, hunderway⟩ :=
      hexchange.turn
    constructor
    case slot => exact ⟨entry, hentry, hnone, hagrees, hsame ▸ hbelongs⟩
    case numbered => exact hexchange.numbered
    case single => exact hsame ▸ hexchange.single
    case written =>
      have hleft := congrArg (writtenFor exchange.call.id trace ++ ·) hwritten
      exact hleft.trans hexchange.written
    case turn =>
      exact hsame ▸ ⟨earlierSent, earlierTaken, partSent, partTaken, hdialogue, hsent, htaken,
        hturn partSent partTaken hunderway⟩

theorem Inv.change (h : Inv trace workers) (hentry : workers.entries.get session = some entry)
    {before after : WorkerProcess} (hbefore : entry.process = some before)
    (hsame : after.id = before.id) :
    Inv trace { workers with
      entries := workers.entries.insert session { entry with process := some after } } := by
  -- Each entry is an old one, up to the number of its process.
  have hold : ∀ other found process, (workers.entries.insert session
      { entry with process := some after }).get other = some found → found.process = some process →
        ∃ earlier before, workers.entries.get other = some earlier ∧
          earlier.process = some before ∧ before.id = process.id ∧
            ∀ call, earlier.Agrees call → found.Agrees call := by
    intro other found process hfound hprocess
    rw [OrderedMap.get_insert] at hfound
    by_cases hthis : other = session
    · rw [if_pos hthis] at hfound
      cases hfound
      cases hprocess
      exact ⟨entry, before, hthis ▸ hentry, hbefore, hsame.symm, fun _ hagrees => hagrees⟩
    · rw [if_neg hthis] at hfound
      exact ⟨found, process, hfound, hprocess, rfl, fun _ hagrees => hagrees⟩
  -- An entry without a process is unchanged.
  have hempty : ∀ other found, workers.entries.get other = some found → found.process = none →
      (workers.entries.insert session { entry with process := some after }).get other =
        some found := by
    intro other found hfound hnone
    have hne : other ≠ session := by
      intro heq
      rw [heq, hentry] at hfound
      cases hfound
      rw [hbefore] at hnone
      cases hnone
    rw [OrderedMap.get_insert, if_neg hne]
    exact hfound
  constructor
  case lawful => exact h.lawful
  case numbered => exact h.numbered
  case size => exact (OrderedMap.size_insert_of_get hentry _).symm ▸ h.size
  case idle =>
    intro other found process hfound hprocess
    obtain ⟨earlier, before, hearlier, hbefore, hid, hagrees⟩ :=
      hold other found process hfound hprocess
    obtain ⟨⟨starter, hstarter, hsession, hauthority⟩, hspoken⟩ :=
      h.idle other earlier before hearlier hbefore
    rw [← hid]
    exact ⟨⟨starter, hstarter, hsession, hagrees starter hauthority⟩, hspoken⟩
  case barred =>
    intro other earlier ending hended hsession hleaves
    obtain ⟨⟨found, hfound, hnone⟩, hheld⟩ :=
      h.barred other earlier ending hended hsession hleaves
    exact ⟨⟨found, hempty other found hfound hnone, hnone⟩, hheld⟩
  case held =>
    intro exchange hheld
    have hexchange := h.held exchange hheld
    obtain ⟨found, hfound, hnone, hagrees, hbelongs⟩ := hexchange.slot
    exact { hexchange with
      slot := ⟨found, hempty _ found hfound hnone, hnone, hagrees, hbelongs⟩ }

/-- The response of a turn is taken and returned, and the process is put back. -/
theorem Inv.finish (h : Inv trace workers) (hheld : workers.exchange = some exchange)
    {response : List UInt8} {process : WorkerProcess} (hsame : process.id = exchange.process.id)
    (hspoken : Dialogue
      (answers exchange.process.id trace ++ [(exchange.call.request, response)])
      (sent exchange.process.id trace) (taken exchange.process.id trace ++ response)) :
    Inv (trace ++ [.took exchange.process.id response] ++
        [.returned exchange.process.id exchange.call response])
      { workers with
        entries := putBack workers.entries exchange.call.session process
        exchange := none } := by
  have hexchange := h.held exchange hheld
  obtain ⟨entry, hentry, hnone, hagrees, hbelongs⟩ := hexchange.slot
  have hlt := hbelongs.lt h.numbered
  have hback : putBack workers.entries exchange.call.session process =
      workers.entries.insert exchange.call.session { entry with process := some process } := by
    rw [putBack, hentry]
  -- What is found in the entries is old, but for the process put back.
  have hfind : ∀ session found other,
      (workers.entries.insert exchange.call.session { entry with process := some process }).get
        session = some found → found.process = some other →
          (session = exchange.call.session ∧ found = { entry with process := some process } ∧
            other = process) ∨
          (session ≠ exchange.call.session ∧ workers.entries.get session = some found) := by
    intro session found other hfound hother
    rw [OrderedMap.get_insert] at hfound
    by_cases hsession : session = exchange.call.session
    · rw [if_pos hsession] at hfound
      cases hfound
      cases hother
      exact .inl ⟨hsession, rfl, rfl⟩
    · rw [if_neg hsession] at hfound
      exact .inr ⟨hsession, hfound⟩
  -- Neither event removes an entry.
  have hkept : ∀ {session found other}, Belongs trace session found other →
      Belongs (trace ++ [.took exchange.process.id response] ++
        [.returned exchange.process.id exchange.call response]) session found other := by
    intro session found other hfirst
    have htook : Belongs (trace ++ [.took exchange.process.id response]) session found other :=
      hfirst.snoc nofun
    exact htook.snoc nofun
  rw [hback]
  constructor
  case lawful =>
    have htook : Lawful (trace ++ [.took exchange.process.id response]) := h.lawful.snoc
      nofun nofun nofun
    refine htook.snoc nofun nofun ?_
    intro other call answer heq
    cases heq
    rw [answers_snoc, sent_snoc, taken_snoc, Event.answerOf, Event.sentTo, Event.takenFrom,
      if_pos rfl, List.append_nil, List.append_nil]
    exact hspoken
  case numbered =>
    intro event hevent
    cases List.mem_append.mp hevent with
    | inl hmem =>
      cases List.mem_append.mp hmem with
      | inl hold => exact h.numbered event hold
      | inr hnew =>
        rw [List.mem_singleton.mp hnew]
        exact hlt
    | inr hnew =>
      rw [List.mem_singleton.mp hnew]
      exact ⟨hlt, hexchange.numbered⟩
  case size => exact (OrderedMap.size_insert_of_get hentry _).symm ▸ h.size
  case idle =>
    intro session found other hfound hother
    cases hfind session found other hfound hother with
    | inl hthis =>
      obtain ⟨rfl, rfl, rfl⟩ := hthis
      obtain ⟨starter, hstarter, hsession, hauthority⟩ := hkept hbelongs
      rw [hsame]
      refine ⟨⟨starter, hstarter, hsession, hauthority⟩, ?_⟩
      unfold Spoken
      simp only [answers_snoc, sent_snoc, taken_snoc, Event.answerOf, Event.sentTo,
        Event.takenFrom, if_true, List.append_nil]
      exact hspoken
    | inr hthat =>
      obtain ⟨hfirst, htalk⟩ := h.idle session found other hthat.2 hother
      have hne : some exchange.process.id ≠ some other.id := fun heq =>
        h.apart hheld hthat.2 hother (Option.some.inj heq)
      have htook : Spoken (trace ++ [.took exchange.process.id response]) other.id :=
        htalk.snoc hne
      exact ⟨hkept hfirst, htook.snoc hne⟩
  case barred =>
    intro session earlier ending hended hsession hleaves
    cases (mem_since_snoc_cases hended).2 with
    | inr hnew => cases hnew
    | inl hmem =>
      cases (mem_since_snoc_cases hmem).2 with
      | inr hnew => cases hnew
      | inl hold =>
        obtain ⟨⟨found, hfound, hprocess⟩, hother⟩ :=
          h.barred session earlier ending hold hsession hleaves
        refine ⟨⟨found, ?_, hprocess⟩, nofun⟩
        rw [OrderedMap.get_insert, if_neg (hother exchange hheld).symm]
        exact hfound
  case held => exact fun _ hthis => nomatch hthis

end Invariant

section Runs

variable {trace events : List Event} {call : Call} {workers after : Workers} {entries : Entries}

theorem Inv.ensure (h : Inv trace workers) (hfree : workers.exchange = none)
    (hid : call.id < workers.nextCall) (starts : Bool) :
    match ensureEntry workers.entries call
        (if starts then some ⟨workers.nextProcess, true, []⟩ else none) with
    | (events, .error ending) => events = [] ∧ ending.leavesTombstone = false
    | (events, .ok entries) => (∃ entry, entries.get call.session = some entry) ∧
        (∀ event ∈ events, ∃ process, event = .started process call) ∧
          Inv (trace ++ events)
            { workers with entries := entries, nextProcess := workers.nextProcess + 1 } := by
  unfold ensureEntry
  cases hentry : workers.entries.get call.session with
  | some entry =>
    rw [Option.isSome_some, if_pos rfl]
    refine ⟨⟨entry, hentry⟩, fun event hevent => (nomatch hevent), ?_⟩
    rw [List.append_nil]
    exact h.skip (Nat.le_succ _) (Nat.le_refl _)
  | none =>
    rw [Option.isSome_none, if_neg Bool.false_ne_true]
    by_cases hfull : maxSessions ≤ workers.entries.size
    · rw [if_pos hfull]
      exact ⟨rfl, rfl⟩
    · rw [if_neg hfull]
      cases starts with
      | false => exact ⟨rfl, rfl⟩
      | true =>
        rw [if_pos rfl]
        refine ⟨⟨call.entry (some ⟨workers.nextProcess, true, []⟩), ?_⟩, ?_,
          h.start hfree hentry (Nat.lt_of_not_le hfull) hid⟩
        · rw [OrderedMap.get_insert, if_pos rfl]
        · intro event hevent
          exact ⟨_, List.mem_singleton.mp hevent⟩

theorem Inv.takeProcess (h : Inv trace workers) (hfree : workers.exchange = none)
    (hsome : ∃ entry, workers.entries.get call.session = some entry)
    (hid : call.id < workers.nextCall)
    (hnew : ∀ other later bytes, .wrote other later bytes ∈ trace → later.id ≠ call.id) :
    match SessionWorkers.takeProcess workers.entries call with
    | (entries, .error ending) =>
        Inv (trace ++ [.ended call ending]) { workers with entries := entries }
    | (entries, .ok process) => Inv trace
        { workers with entries := entries, exchange := some ⟨call, process, .starting, false⟩ } := by
  obtain ⟨entry, hentry⟩ := hsome
  unfold SessionWorkers.takeProcess
  rw [hentry]
  dsimp only
  by_cases hagrees : entry.Agrees call
  · rw [if_neg (not_not.mpr hagrees)]
    cases hprocess : entry.process with
    | none =>
      refine h.ended hid fun _ => ⟨⟨entry, hentry, hprocess⟩, fun exchange hheld => ?_⟩
      rw [hfree] at hheld
      cases hheld
    | some process => exact h.take hfree hentry hagrees hprocess hid hnew
  · rw [if_pos hagrees]
    refine (h.clear hfree hentry).ended hid fun _ => ⟨⟨{ entry with process := none }, ?_, rfl⟩, ?_⟩
    · dsimp only
      rw [OrderedMap.get_insert, if_pos rfl]
    · intro exchange hheld
      rw [hfree] at hheld
      cases hheld

theorem Inv.prepare (h : Inv trace workers) (hfree : workers.exchange = none)
    (hid : call.id = workers.nextCall) (starts : Bool) :
    match SessionWorkers.prepare workers.entries call
        (if starts then some ⟨workers.nextProcess, true, []⟩ else none) with
    | (events, entries, .error ending) => Inv (trace ++ events ++ [.ended call ending])
        ⟨entries, none, workers.nextProcess + 1, workers.nextCall + 1⟩
    | (events, entries, .ok process) => Inv (trace ++ events)
        ⟨entries, some ⟨call, process, .starting, false⟩, workers.nextProcess + 1,
          workers.nextCall + 1⟩ := by
  have hcounted := h.skip (Nat.le_refl workers.nextProcess) (Nat.le_succ workers.nextCall)
  have hlater : call.id < workers.nextCall + 1 := hid ▸ Nat.lt_succ_self _
  have hnew : ∀ other later bytes, .wrote other later bytes ∈ trace → later.id ≠ call.id := by
    intro other later bytes hmem
    exact hid ▸ Nat.ne_of_lt (h.numbered _ hmem).2
  -- The entry of the session is removed first if the call resets the worker.
  have hreset : Inv (trace ++ if call.reset then [Event.removed call.session] else [])
      { workers with
        entries := if call.reset then workers.entries.erase call.session else workers.entries
        nextCall := workers.nextCall + 1 } := by
    cases call.reset with
    | false =>
      rw [if_neg Bool.false_ne_true, if_neg Bool.false_ne_true, List.append_nil]
      exact hcounted
    | true =>
      rw [if_pos rfl, if_pos rfl]
      exact hcounted.remove hfree call.session
  have hremoved : ∀ other later bytes, .wrote other later bytes ∈
      trace ++ (if call.reset then [Event.removed call.session] else []) → later.id ≠ call.id := by
    intro other later bytes hmem
    cases List.mem_append.mp hmem with
    | inl hold => exact hnew other later bytes hold
    | inr hnow =>
      cases hreset : call.reset with
      | false =>
        rw [hreset] at hnow
        cases hnow
      | true =>
        rw [hreset] at hnow
        cases List.mem_singleton.mp hnow
  unfold SessionWorkers.prepare
  generalize (if call.reset then [Event.removed call.session] else []) = removed at *
  generalize (if call.reset then workers.entries.erase call.session else workers.entries) =
    entries at *
  dsimp only
  have hensured := hreset.ensure hfree hlater starts
  dsimp only at hensured
  generalize ensureEntry entries call
    (if starts then some ⟨workers.nextProcess, true, []⟩ else none) = ensured at hensured
  obtain ⟨events, result⟩ := ensured
  cases result with
  | error ending =>
    obtain ⟨rfl, hquiet⟩ := hensured
    dsimp only
    rw [List.append_nil]
    have hended := (hreset.skip (Nat.le_succ workers.nextProcess) (Nat.le_refl _)).ended hlater
      fun hleaves => absurd (hquiet.symm.trans hleaves) Bool.false_ne_true
    rw [hfree] at hended
    exact hended
  | ok entries =>
    obtain ⟨hsome, hstarted, hinv⟩ := hensured
    have hall : ∀ other later bytes, .wrote other later bytes ∈ trace ++ removed ++ events →
        later.id ≠ call.id := by
      intro other later bytes hmem
      cases List.mem_append.mp hmem with
      | inl hold => exact hremoved other later bytes hold
      | inr hnow =>
        obtain ⟨process, hevent⟩ := hstarted _ hnow
        cases hevent
    have htaken := hinv.takeProcess hfree hsome hlater hall
    dsimp only at htaken ⊢
    generalize SessionWorkers.takeProcess entries call = taken at htaken
    obtain ⟨entries, result⟩ := taken
    cases result with
    | error ending =>
      dsimp only at htaken ⊢
      rw [hfree] at htaken
      rw [← List.append_assoc trace removed events]
      exact htaken
    | ok process =>
      dsimp only
      rw [← List.append_assoc trace removed events]
      exact htaken

theorem WorkerProcess.Moves.id_eq {before after : WorkerProcess} (h : before.Moves after) :
    after.id = before.id := by
  cases h with
  | writes _ _ | dies => rfl

theorem Inv.wrote (h : Inv trace workers) {exchange : Exchange}
    (hheld : workers.exchange = some exchange) {bytes rest : List UInt8}
    (hphase : exchange.phase = .writing (bytes ++ rest)) :
    Inv (trace ++ [.wrote exchange.process.id exchange.call bytes])
      { workers with exchange := some { exchange with phase := .writing rest } } := by
  have hwithin : (Event.wrote exchange.process.id exchange.call bytes).Within exchange :=
    ⟨rfl, rfl⟩
  refine h.advance hheld hwithin hphase exchange.process rfl _ _ ?_
    fun partSent partTaken hunderway => ?_
  · rw [Event.writtenFor, if_pos rfl]
    rfl
  · rw [Event.sentTo, if_pos rfl, Event.takenFrom, List.append_nil]
    exact ⟨(List.append_assoc _ _ _).trans hunderway.1, hunderway.2⟩

theorem Inv.header (h : Inv trace workers) {exchange : Exchange}
    (hheld : workers.exchange = some exchange) (hphase : exchange.phase = .reading)
    (first second third fourth : UInt8) (rest : List UInt8) :
    Inv (trace ++ [.took exchange.process.id [first, second, third, fourth]])
      { workers with exchange := some { exchange with
          process := { exchange.process with output := rest }
          phase := .sized (fromBigEndian first second third fourth) } } := by
  have hwithin : (Event.took exchange.process.id [first, second, third, fourth]).Within exchange :=
    rfl
  refine h.advance hheld hwithin hphase { exchange.process with output := rest } rfl _ _ rfl
    fun partSent partTaken hunderway => ?_
  obtain ⟨replies, hreplies, hnested⟩ := hunderway
  rw [Event.takenFrom, if_pos rfl, Event.sentTo, List.append_nil]
  exact ⟨replies, partTaken, first, second, third, fourth, hreplies, hnested, rfl, rfl⟩

theorem Inv.asked (h : Inv trace workers) {exchange : Exchange}
    (hheld : workers.exchange = some exchange) {header : Nat}
    (hphase : exchange.phase = .sized header) (hhost : isHostRequest header = true)
    {payload : List UInt8} (hsize : payload.length = payloadSize header) (rest : List UInt8) :
    Inv (trace ++ [.took exchange.process.id payload])
      { workers with exchange := some { exchange with
          process := { exchange.process with output := rest }
          phase := if exchange.connected then .asking payload else .connecting payload } } := by
  have hwithin : (Event.took exchange.process.id payload).Within exchange := rfl
  -- Whether there is a connection makes no difference to what was sent and taken.
  have hnext : ∀ sent taken, (∃ replies requests bytes,
      sent = frame exchange.call.request ++ replies ∧ Nested replies requests ∧
        taken = requests ++ bytes ∧ WorkerFrame true bytes payload) →
      (if exchange.connected then Phase.asking payload else .connecting payload).Underway
        exchange.call.request sent taken := by
    intro sent taken hunderway
    cases exchange.connected with
    | false | true => exact hunderway
  refine h.advance hheld hwithin hphase { exchange.process with output := rest } rfl _ _ ?_
    fun partSent partTaken hunderway => hnext _ _ ?_
  · cases exchange.connected with
    | false | true => rfl
  · obtain ⟨replies, requests, first, second, third, fourth, hreplies, hnested, hpart, hheader⟩ :=
      hunderway
    have hframe : WorkerFrame true (first :: second :: third :: fourth :: payload) payload :=
      ⟨first, second, third, fourth, rfl, hheader ▸ hhost, hheader ▸ hsize.symm⟩
    rw [Event.takenFrom, if_pos rfl, Event.sentTo, List.append_nil, hpart, List.append_assoc]
    exact ⟨replies, requests, _, hreplies, hnested, rfl, hframe⟩

theorem Inv.replied (h : Inv trace workers) {exchange : Exchange}
    (hheld : workers.exchange = some exchange) {bytes rest : List UInt8}
    (hphase : exchange.phase = .replying (bytes ++ rest)) :
    Inv (trace ++ [.replied exchange.process.id bytes])
      { workers with exchange := some { exchange with phase := .replying rest } } := by
  have hwithin : (Event.replied exchange.process.id bytes).Within exchange := rfl
  refine h.advance hheld hwithin hphase exchange.process rfl _ _ rfl
    fun partSent partTaken hunderway => ?_
  obtain ⟨replies, requests, taken, payload, part, flags, reply, hpart, hnested, htook, hframe,
    hreply⟩ := hunderway
  rw [Event.sentTo, if_pos rfl, Event.takenFrom, List.append_nil, hpart, List.append_assoc,
    List.append_assoc]
  exact ⟨replies, requests, taken, payload, part ++ bytes, flags, reply, rfl, hnested, htook,
    hframe, (List.append_assoc _ _ _).trans hreply⟩

theorem Inv.returned (h : Inv trace workers) {exchange : Exchange}
    (hheld : workers.exchange = some exchange) {header : Nat}
    (hphase : exchange.phase = .sized header) (hresponse : isHostRequest header = false)
    {response : List UInt8} (hsize : response.length = payloadSize header) (rest : List UInt8) :
    Inv (trace ++ [.took exchange.process.id response,
        .returned exchange.process.id exchange.call response])
      { workers with
        entries := putBack workers.entries exchange.call.session
          { exchange.process with output := rest }
        exchange := none } := by
  obtain ⟨earlierSent, earlierTaken, partSent, partTaken, hdialogue, hsent, htaken, hunderway⟩ :=
    (h.held exchange hheld).turn
  rw [hphase] at hunderway
  obtain ⟨replies, requests, first, second, third, fourth, hreplies, hnested, hpart, hheader⟩ :=
    hunderway
  have hframe : WorkerFrame false (first :: second :: third :: fourth :: response) response :=
    ⟨first, second, third, fourth, rfl, hheader ▸ hresponse, hheader ▸ hsize.symm⟩
  have hspoken := hdialogue.turn exchange.call.request hnested hframe
  have hbytes : taken exchange.process.id trace ++ response =
      earlierTaken ++ (requests ++ (first :: second :: third :: fourth :: response)) := by
    rw [htaken, hpart, List.append_assoc, List.append_assoc]
    rfl
  rw [← hreplies, ← hsent, ← hbytes] at hspoken
  have hfinished := h.finish hheld
    (rfl : ({ exchange.process with output := rest } : WorkerProcess).id = _) hspoken
  rw [List.append_assoc] at hfinished
  exact hfinished

theorem Inv.step (h : Inv trace workers) (hstep : Step workers events after) :
    Inv (trace ++ events) after := by
  cases hstep with
  | invalid hid hrequest | waiting hid =>
    exact (h.skip (Nat.le_refl _) (Nat.le_succ _)).ended (hid ▸ Nat.lt_succ_self _)
      fun hleaves => absurd hleaves Bool.false_ne_true
  | refused hid hfree hrequest hsize starts hprepare =>
    have hprepared := h.prepare hfree hid starts
    rw [hprepare] at hprepared
    rw [← List.append_assoc]
    exact hprepared
  | taken hid hfree hrequest hsize starts hprepare =>
    have hprepared := h.prepare hfree hid starts
    rw [hprepare] at hprepared
    exact hprepared
  | polled hheld hphase halive =>
    rw [List.append_nil]
    refine h.shift hheld hphase _ rfl _ _ rfl fun partSent partTaken hunderway => ?_
    exact ⟨by rw [hunderway.1]; rfl, hunderway.2⟩
  | wrote hheld hphase hbytes => exact h.wrote hheld hphase
  | written hheld hphase =>
    rw [List.append_nil]
    refine h.shift hheld hphase _ rfl _ _ rfl fun partSent partTaken hunderway => ?_
    obtain ⟨hsent, htaken⟩ := hunderway
    rw [List.append_nil] at hsent
    exact ⟨[], hsent.trans (List.append_nil _).symm, htaken ▸ .none⟩
  | header hheld hphase houtput hpositive hsize => exact h.header hheld hphase _ _ _ _ _
  | returned hheld hphase hresponse houtput hsize =>
    exact h.returned hheld hphase hresponse hsize _
  | asked hheld hphase hhost houtput hsize => exact h.asked hheld hphase hhost hsize _
  | connected hheld hphase =>
    rw [List.append_nil]
    refine h.shift hheld hphase _ rfl _ _ rfl fun partSent partTaken hunderway => ?_
    exact hunderway
  | denied hheld hphase hsize | answered hheld hphase hpositive hsize =>
    rw [List.append_nil]
    refine h.shift hheld hphase _ rfl _ _ rfl fun partSent partTaken hunderway => ?_
    obtain ⟨replies, requests, bytes, hsent, hnested, htaken, hframe⟩ := hunderway
    exact ⟨replies, requests, bytes, _, [], _, _, by rw [hsent, List.append_nil], hnested, htaken,
      hframe, rfl⟩
  | replied hheld hphase hbytes => exact h.replied hheld hphase
  | resumed hheld hphase =>
    rw [List.append_nil]
    refine h.shift hheld hphase _ rfl _ _ rfl fun partSent partTaken hunderway => ?_
    obtain ⟨replies, requests, bytes, payload, part, flags, reply, hsent, hnested, htaken, hframe,
      hreply⟩ := hunderway
    rw [List.append_nil] at hreply
    exact ⟨replies ++ part, hsent, htaken ▸ hreply ▸ hnested.reply hframe flags reply⟩
  | @dropped exchange hheld ending hending =>
    obtain ⟨entry, hentry, hnone, -⟩ := (h.held exchange hheld).slot
    exact h.drop.ended (h.held exchange hheld).numbered
      fun _ => ⟨⟨entry, hentry, hnone⟩, nofun⟩
  | shutdown hfree session => exact h.remove hfree session
  | held hheld hmoves =>
    rw [List.append_nil]
    exact h.shift hheld rfl _ hmoves.id_eq _ _ rfl fun _ _ hunderway => hunderway
  | idle hentry hprocess hmoves =>
    rw [List.append_nil]
    exact h.change hentry hprocess hmoves.id_eq

theorem inv_initial : Inv [] initial where
  lawful :=
    { starts := fun _ _ _ hmem => nomatch hmem
      once := fun _ _ _ hmem => nomatch hmem
      loss := fun before _ _ _ _ hsplit => absurd hsplit.symm (by simp)
      authority := fun _ _ _ _ hmem => nomatch hmem
      answered := fun before _ _ _ _ hsplit => absurd hsplit.symm (by simp) }
  numbered _ hmem := nomatch hmem
  size := by decide
  idle _ _ _ hentry := nomatch hentry
  barred _ _ _ hmem := nomatch hmem
  held _ hheld := nomatch hheld

theorem Run.inv (h : Run trace workers) : Inv trace workers := by
  induction h with
  | initial => exact inv_initial
  | step _ hstep ih => exact ih.step hstep

end Runs

section Results

/-- Once a call of a session ended in such a way, none of its requests reaches a process before
one with reset started another. -/
def NoneUntilReset (ways : Ending → Bool) (trace : List Event) : Prop :=
  ∀ before earlier ending between process call bytes after,
    trace = before ++ .ended earlier ending :: (between ++ .wrote process call bytes :: after) →
      ways ending = true → call.session = earlier.session →
        ∃ other starter, .started other starter ∈ between ∧ starter.session = call.session ∧
          starter.reset = true

def plainCall (id : Nat) (request : List UInt8) (reset : Bool) : Call :=
  ⟨id, "session", ⟨"/usr/bin/python3", ["-u"]⟩, .workspaceWrite, .denied, request, reset⟩

/-- The entry of the session, with a process or without. -/
def plainEntries (process : Option WorkerProcess) : Entries :=
  OrderedMap.empty.insert "session" ((plainCall 0 [] false).entry process)

/-- The workers while a call of the session holds a process. -/
def plainWorkers (process : WorkerProcess) (call : Call) (phase : Phase) (nextProcess nextCall : Nat) :
    Workers :=
  ⟨plainEntries none, some ⟨call, process, phase, false⟩, nextProcess, nextCall⟩

theorem plain_polled {trace : List Event} {process nextProcess nextCall : Nat} {call : Call}
    (h : Run trace (plainWorkers ⟨process, true, []⟩ call .starting nextProcess nextCall)) :
    Run (trace ++ [.wrote process call (frame call.request)])
      (plainWorkers ⟨process, true, []⟩ call (.writing []) nextProcess nextCall) := by
  have hpolled := h.step (.polled rfl rfl rfl)
  have hwrote := hpolled.step (.wrote rfl
    (congrArg Phase.writing (List.append_nil (frame call.request)).symm) (by simp [frame, toBigEndian]))
  rw [List.append_nil] at hwrote
  exact hwrote

theorem run_after_invalid : ∃ workers, Run
    [.ended (plainCall 0 [] false) .invalid, .started 0 (plainCall 1 [114, 117, 110] false),
      .wrote 0 (plainCall 1 [114, 117, 110] false) (frame [114, 117, 110])] workers := by
  let call := plainCall 1 [114, 117, 110] false
  have hinvalid : Run [.ended (plainCall 0 [] false) .invalid] ⟨.empty, none, 0, 1⟩ :=
    Run.initial.step (.invalid rfl (.inl rfl))
  have htaken : Run [.ended (plainCall 0 [] false) .invalid, .started 0 call]
      (plainWorkers ⟨0, true, []⟩ call .starting 1 2) :=
    hinvalid.step (.taken rfl rfl (by decide) (by decide) true (by decide +kernel))
  exact ⟨_, plain_polled htaken⟩

/-- A call is dropped with the process, a reset does not start another, and the next request
reaches one without a reset. -/
theorem run_after_failed_reset : ∃ workers, Run
    [.started 0 (plainCall 0 [114, 117, 110] false),
      .ended (plainCall 0 [114, 117, 110] false) .cancelled, .removed "session",
      .ended (plainCall 1 [114, 117, 110] true) .launch,
      .started 2 (plainCall 2 [114, 117, 110] false),
      .wrote 2 (plainCall 2 [114, 117, 110] false) (frame [114, 117, 110])] workers := by
  let first := plainCall 0 [114, 117, 110] false
  let second := plainCall 1 [114, 117, 110] true
  let third := plainCall 2 [114, 117, 110] false
  have htaken : Run [.started 0 first] (plainWorkers ⟨0, true, []⟩ first .starting 1 1) :=
    Run.initial.step (.taken rfl rfl (by decide) (by decide) true (by decide +kernel))
  have hdropped : Run [.started 0 first, .ended first .cancelled]
      ⟨plainEntries none, none, 1, 1⟩ := by
    have hstep := htaken.step (.dropped rfl (.inl rfl))
    exact hstep
  have hprepare : prepare (plainEntries none) second none =
      ([.removed "session"], .empty, .error .launch) := by decide +kernel
  have hfailed : Step ⟨plainEntries none, none, 1, 1⟩
      ([.removed "session"] ++ [.ended second .launch]) ⟨.empty, none, 2, 2⟩ :=
    .refused rfl rfl (by decide) (by decide) false hprepare
  have hrefused := hdropped.step hfailed
  have hagain : Run [.started 0 first, .ended first .cancelled, .removed "session",
      .ended second .launch, .started 2 third]
      (plainWorkers ⟨2, true, []⟩ third .starting 3 3) :=
    hrefused.step (.taken rfl rfl (by decide) (by decide) true (by decide +kernel))
  exact ⟨_, plain_polled hagain⟩

/-- A request may reach a process after another failed, without a reset in between: where the
failure touched no process, and where a reset removed the entry and started none. -/
theorem reset_not_needed :
    ¬(∀ trace workers, Run trace workers → NoneUntilReset (fun _ => true) trace) ∧
      ¬(∀ trace workers, Run trace workers → NoneUntilReset Ending.leavesTombstone trace) := by
  constructor
  · intro hall
    obtain ⟨workers, hrun⟩ := run_after_invalid
    obtain ⟨other, starter, hstarter, -, hreset⟩ := hall _ workers hrun [] _ _
      [.started 0 (plainCall 1 [114, 117, 110] false)] _ _ _ [] rfl rfl rfl
    cases List.mem_singleton.mp hstarter
    cases hreset
  · intro hall
    obtain ⟨workers, hrun⟩ := run_after_failed_reset
    obtain ⟨other, starter, hstarter, -, hreset⟩ := hall _ workers hrun
      [.started 0 (plainCall 0 [114, 117, 110] false)] _ _
      [.removed "session", .ended (plainCall 1 [114, 117, 110] true) .launch,
        .started 2 (plainCall 2 [114, 117, 110] false)] _ _ _ [] rfl rfl rfl
    simp only [List.mem_cons, List.not_mem_nil, or_false, reduceCtorEq, false_or,
      Event.started.injEq] at hstarter
    rw [hstarter.2] at hreset
    cases hreset

/-- In every run each request goes to one process and once, none goes there after a loss until
the entry of the session was removed and a process started, a process serves the authority it
was started with, the responses belong to their requests, and four sessions have entries. -/
theorem worker_requests_exact {trace : List Event} {workers : Workers} (h : Run trace workers) :
    RequestsOnce trace ∧ NoneAfterLoss trace ∧ SameAuthority trace ∧ ResponsesMatch trace ∧
      workers.entries.size ≤ maxSessions :=
  ⟨h.inv.lawful.once, h.inv.lawful.loss, h.inv.lawful.authority, h.inv.lawful.answered, h.inv.size⟩

theorem run_answered : Run
    [.started 0 (plainCall 0 [114, 117, 110] false),
      .wrote 0 (plainCall 0 [114, 117, 110] false) (frame [114, 117, 110]),
      .took 0 [0, 0, 0, 1], .took 0 [49],
      .returned 0 (plainCall 0 [114, 117, 110] false) [49]]
    ⟨plainEntries (some ⟨0, true, []⟩), none, 1, 1⟩ := by
  let call := plainCall 0 [114, 117, 110] false
  have htaken : Run [.started 0 call] (plainWorkers ⟨0, true, []⟩ call .starting 1 1) :=
    Run.initial.step (.taken rfl rfl (by decide) (by decide) true (by decide +kernel))
  have hwrote := plain_polled htaken
  have hwritten := hwrote.step (.written rfl rfl)
  have hwrites := hwritten.step (.held rfl (.writes rfl [0, 0, 0, 1, 49]))
  have hheader := hwrites.step (.header rfl rfl rfl (by decide) (by decide))
  have houtput : [(49 : UInt8)] = [49] ++ [] := rfl
  have hreturned := hheader.step (.returned rfl rfl (by decide) houtput (by decide))
  exact hreturned

/-- Such a request went to one process, and its response is that of the process. -/
theorem worker_requests_exact_answered :
    ∃ trace workers, Run trace workers ∧ .returned 0 (plainCall 0 [114, 117, 110] false) [49] ∈ trace ∧
      RequestsOnce trace ∧ NoneAfterLoss trace ∧ SameAuthority trace ∧ ResponsesMatch trace ∧
        workers.entries.size ≤ maxSessions :=
  ⟨_, _, run_answered, by decide, worker_requests_exact run_answered⟩

end Results

end MobiusAgent.SessionWorkers
