import MobiusAgent.ResponsesWire

/-!
# The Responses socket of one session

`backend/model/responses_socket.rs`: a session keeps one connection and a
cursor to the last response on it. A request whose input continues that
response sends only the rest of its input. Fingerprints are collision free,
so the model keeps what they are taken of. What the connection, the server
and the caller do during a request is an `Attempt`, for all that they can do.
-/

namespace MobiusAgent.ResponsesSocket

open JsonValue ProtocolEvents CheckpointValidation ContextItems ResponsesWire

structure PromptCacheIdentity where
  key : String
  contextEpoch : Nat
  deriving DecidableEq

/-- What a body depends on in a model request of one session. -/
structure ModelRequest where
  promptCache : Option PromptCacheIdentity
  instructions : String
  input : List Json
  catalogRevision : String
  /-- The tools that can be called without discovery. -/
  tools : List ToolDefinition
  /-- The tools that are found by search. -/
  deferredTools : List ToolDefinition
  /-- Whether tools of the provider may be attached. -/
  allowHostedTools : Bool
  /-- Whether a previous response may be continued. -/
  allowContinuation : Bool
  deriving DecidableEq

structure OpenAiSocket where
  model : String
  reasoningEffort : Option String
  hostedTools : List Json
  /-- Whether cache endpoints are marked. -/
  explicitPromptCache : Bool
  serviceTier : Option String

/-- `Reasoning`: the effort, and the summary that is asked for with it. -/
structure Reasoning where
  effort : Option String
  summary : Option String
  deriving DecidableEq

/-- `RequestMetadata`: the fields of a body besides its input and tools. -/
structure RequestMetadata where
  /-- What the response includes. -/
  included : List String
  instructions : String
  maxOutputTokens : Option Nat
  model : String
  /-- Whether calls may run in parallel. -/
  parallelToolCalls : Bool
  previousResponseId : Option String
  promptCacheKey : Option String
  promptCacheOptions : Option Json
  reasoning : Option Reasoning
  serviceTier : Option String
  /-- Whether the response is stored. -/
  store : Bool
  /-- Whether the response is streamed over HTTP. -/
  stream : Option Bool
  toolChoice : String
  kind : Option String
  deriving DecidableEq

/-- `ResponsesBody`, as it is written. -/
structure ResponsesBody where
  /-- The fields besides input and tools. -/
  metadata : RequestMetadata
  input : List Json
  tools : List Json
  deriving DecidableEq

/-- `Settings`: the fields of a request that its envelope fingerprint is taken of. -/
structure Settings where
  catalogRevision : String
  instructions : String
  model : String
  promptCache : Option PromptCacheIdentity
  reasoningEffort : Option String
  tools : List Json
  deriving DecidableEq

/-- The cursor to the last response of a connection. -/
structure Continuation where
  responseId : String
  /-- The number of items the server knows. -/
  knownItems : Nat
  /-- The items the fingerprint is taken of. -/
  fingerprint : List Json
  envelopeFingerprint : Settings

/-- `SocketState`; connections are numbered as they are opened. -/
structure SocketState where
  connection : Option Nat := none
  continuation : Option Continuation := none
  /-- Whether the session fell back to HTTP. -/
  useHttp : Bool := false

/-- A completed response, as the server keeps it. -/
structure Served where
  responseId : String
  /-- The connection it was produced on. -/
  connection : Nat
  /-- The wire items it was sent on its chain, and those of the outputs on it. -/
  memory : List Json
  /-- The searchable tools of the request it answered. -/
  deferredTools : List ToolDefinition

/-- A body that was sent. -/
structure Sent where
  request : ModelRequest
  body : ResponsesBody
  connection : Nat
  /-- What the server keeps of the response it continues. -/
  previous : Option Served

/-- The items of a decoded response. -/
structure OutputItems where
  items : List Json
  /-- A provider returns no tool load. -/
  plain : ∀ item ∈ items, itemType item ≠ some "tool_load"

/-- The outcome of a connection attempt. -/
inductive Connect where
  | opened
  | http
  | failed (error : Error)

inductive Exchange where
  | completed (responseId : String) (output : OutputItems)
  /-- It failed, was cancelled, or its response did not decode. -/
  | failed (error : Error)
  /-- The server misses the previous response. -/
  | previousMissing (outputDelivered : Bool)
  /-- The request can be sent again. -/
  | retry
  /-- The server accepts no more connections. -/
  | connectionLimit
  | reconnect

/-- What happens while one body is prepared and sent. -/
structure Attempt where
  /-- Whether the live connection can still be used. -/
  usable : Bool
  /-- What a new connection comes to. -/
  connect : Connect
  /-- Whether the encoded body passes the size check. -/
  admitted : Except Error Unit
  exchange : Exchange

inductive Reply where
  | output (output : OutputItems)
  | failed (error : Error)
  | overHttp

/-- A session with its server, and everything sent so far, newest first. -/
structure World where
  state : SocketState := {}
  opened : Nat := 0
  served : List Served := []
  sent : List Sent := []

def streamInterrupted : Error := .provider "model response stream was interrupted" true

/-- What the server keeps under a response id. -/
def remembered (served : List Served) (responseId : String) : Option Served :=
  served.find? fun response => response.responseId == responseId

section Requests

variable (codec : WireCodec) (socket : OpenAiSocket)

/-- `wire_tools`, serialized. -/
def wireTools (request : ModelRequest) : List Json :=
  request.tools.map functionTool ++ if request.allowHostedTools then socket.hostedTools else []

def envelopeFingerprint (request : ModelRequest) : Settings where
  catalogRevision := request.catalogRevision
  instructions := request.instructions
  model := socket.model
  promptCache := request.promptCache
  reasoningEffort := socket.reasoningEffort
  tools := wireTools socket request

/-- `RequestMetadata::new`, with what `prepared_body` and `response_body` write into it. -/
def requestMetadata (request : ModelRequest) (previous : Option String) : RequestMetadata where
  included := ["reasoning.encrypted_content"]
  instructions := request.instructions
  maxOutputTokens := none
  model := socket.model
  parallelToolCalls := true
  previousResponseId := previous
  promptCacheKey := request.promptCache.map (·.key)
  promptCacheOptions := if socket.explicitPromptCache then some cacheBreakpoint else none
  reasoning := if socket.reasoningEffort.isSome then some ⟨socket.reasoningEffort, some "auto"⟩
    else none
  serviceTier := socket.serviceTier
  store := false
  stream := none
  toolChoice := "auto"
  kind := some "response.create"

/-- `prepared_body`: the body of a request with this input and previous response. -/
def preparedBody (request : ModelRequest) (input : List Json) (previous : Option String) :
    Except Error ResponsesBody := do
  let wire ← wireInput codec true socket.explicitPromptCache request.catalogRevision
    request.deferredTools input
  .ok ⟨requestMetadata socket request previous, wire, wireTools socket request⟩

/-- Whether the cursor is a prefix of a request under the same settings. -/
def reusable (continuation : Continuation) (request : ModelRequest) : Bool :=
  decide (continuation.envelopeFingerprint = envelopeFingerprint socket request) &&
    decide (continuation.knownItems ≤ request.input.length) &&
    decide (request.input.take continuation.knownItems = continuation.fingerprint)

/-- `continuation_input`: the previous response, the input to send and the cursor kept. -/
def continuationInput (continuation : Option Continuation) (request : ModelRequest) :
    Option String × List Json × Option Continuation :=
  match continuation with
  | none => (none, request.input, none)
  | some cursor =>
    if reusable socket cursor request then
      (some cursor.responseId, request.input.drop cursor.knownItems, some cursor)
    else (none, request.input, none)

def responseInput (continuation : Option Continuation) (request : ModelRequest) :
    Option String × List Json × Option Continuation :=
  if request.allowContinuation then continuationInput socket continuation request
  else (none, request.input, none)

def outputWire (request : ModelRequest) (output : OutputItems) : List Json :=
  match wireInput codec true socket.explicitPromptCache request.catalogRevision [] output.items with
  | .ok wire => wire
  | .error _ => []

/-- The outcome of one round of the loop in `send_response`. -/
inductive Round where
  | done (reply : Reply)
  /-- The context is sent again in full. -/
  | rebuild

/-- The first part of a round: a usable connection, or why there is none. -/
def ensureConnection (attempt : Attempt) (world : World) : World × Option Reply :=
  if world.state.connection.isSome && attempt.usable then (world, none)
  else
    let closed : World := { world with
      state := { world.state with
        connection := none
        continuation := none } }
    match attempt.connect with
    | .opened => ({ closed with
        state := { closed.state with connection := some closed.opened }
        opened := closed.opened + 1 }, none)
    | .http => ({ closed with state := { closed.state with useHttp := true } }, some .overHttp)
    | .failed error => (closed, some (.failed error))

/-- The session after an exchange, with these values of its connection and cursor. -/
def World.settle (world : World) (connection : Option Nat) (continuation : Option Continuation) :
    World :=
  { world with
    state := { world.state with
      connection := connection
      continuation := continuation } }

/-- The last part of a round: the body is sent on the connection. -/
def exchangeBody (rebuilt : Bool) (request : ModelRequest) (exchange : Exchange)
    (body : ResponsesBody) (connection : Nat) (world : World) : World × Round :=
  let previous := body.metadata.previousResponseId.bind (remembered world.served)
  let world : World := { world with sent := ⟨request, body, connection, previous⟩ :: world.sent }
  match exchange with
  | .completed responseId output =>
    let cursor : Continuation := ⟨responseId, request.input.length + output.items.length,
      request.input ++ output.items, envelopeFingerprint socket request⟩
    let memory := ((previous.map (·.memory)).getD []) ++ body.input ++
      outputWire codec socket request output
    let served : Served := ⟨responseId, connection, memory, request.deferredTools⟩
    (World.settle { world with served := served :: world.served } (some connection)
      (if request.allowContinuation then some cursor else none), .done (.output output))
  | .failed error => (world.settle none world.state.continuation, .done (.failed error))
  | .previousMissing outputDelivered =>
    (world.settle (some connection) none,
      if !outputDelivered && body.metadata.previousResponseId.isSome && !rebuilt then .rebuild
      else .done (.failed streamInterrupted))
  | .retry => (world.settle (some connection) none, .done (.failed streamInterrupted))
  | .connectionLimit => (world.settle none none, .done (.failed streamInterrupted))
  | .reconnect => (world.settle none none, .done (.failed streamInterrupted))

/-- The middle part of a round: the body is chosen, encoded and sent. -/
def sendBody (rebuilt : Bool) (request : ModelRequest) (attempt : Attempt) (world : World) :
    World × Round :=
  let chosen := responseInput socket world.state.continuation request
  let world := world.settle world.state.connection chosen.2.2
  match preparedBody codec socket request chosen.2.1 chosen.1 with
  | .error error => (world, .done (.failed error))
  | .ok body =>
    match attempt.admitted with
    | .error error => (world, .done (.failed error))
    | .ok () =>
      match world.state.connection with
      | none => (world, .done (.failed
          (.provider "model connection disappeared before send" false)))
      | some connection =>
        exchangeBody codec socket rebuilt request attempt.exchange body connection world

/-- One round of the loop in `send_response`. -/
def sendRound (rebuilt : Bool) (request : ModelRequest) (attempt : Attempt) (world : World) :
    World × Round :=
  match ensureConnection attempt world with
  | (connected, some reply) => (connected, .done reply)
  | (connected, none) => sendBody codec socket rebuilt request attempt connected

/-- The loop of `send_response`; without another attempt the request was dropped. -/
def sendRounds (request : ModelRequest) : Bool → List Attempt → World → World × Reply
  | _, [], world => (world, .failed (.stopped "request was dropped"))
  | rebuilt, attempt :: rest, world =>
    match sendRound codec socket rebuilt request attempt world with
    | (next, .done reply) => (next, reply)
    | (next, .rebuild) => sendRounds request true rest next

def sendResponse (request : ModelRequest) (attempts : List Attempt) (world : World) :
    World × Reply :=
  if world.state.useHttp then (world, .overHttp)
  else sendRounds codec socket request false attempts world

/-- What happens to the session. -/
inductive Op where
  | request (request : ModelRequest) (attempts : List Attempt)
  /-- `fallback_transport`. -/
  | fallback
  /-- `close_idle_connections`, for the limit of another session. -/
  | closeIdle
  /-- The session was evicted for another one. -/
  | evict

def step (world : World) : Op → World
  | .request request attempts => (sendResponse codec socket request attempts world).1
  | .fallback =>
    if world.state.useHttp then world
    else { world with state := ⟨none, none, true⟩ }
  | .closeIdle => world.settle none none
  | .evict => { world with state := {} }

def run (ops : List Op) (world : World) : World := ops.foldl (step codec socket) world

end Requests

section Equivalence

variable (codec : WireCodec) (socket : OpenAiSocket)

/-- What the server keeps of the response that a body continues. -/
def Sent.memory (sent : Sent) : List Json := (sent.previous.map (·.memory)).getD []

/-- The full body that the server has after a body that continues a response. -/
def Sent.whole (sent : Sent) : ResponsesBody where
  metadata := { sent.body.metadata with previousResponseId := none }
  input := sent.memory ++ sent.body.input
  tools := sent.body.tools

/-- A body that continues a response is as good as the full one, on the same connection. -/
def Equivalent (sent : Sent) : Prop :=
  ∀ responseId, sent.body.metadata.previousResponseId = some responseId →
    preparedBody codec socket sent.request sent.request.input none = .ok sent.whole ∧
      sent.previous.map (·.connection) = some sent.connection

/-- Whether a body that continues the response of the cursor is sent: its connection is live and
can still be used, and the body is built and admitted. -/
def continues (world : World) (request : ModelRequest) (attempt : Attempt)
    (cursor : Continuation) : Bool :=
  world.state.connection.isSome && attempt.usable && request.allowContinuation &&
    reusable socket cursor request && attempt.admitted.toBool &&
    (preparedBody codec socket request (request.input.drop cursor.knownItems)
      (some cursor.responseId)).toBool

/-- The definitions of the tools loaded up to the cursor are those of the request that its response
answered, and no later load asks for one of them again. -/
def loadsOnce (world : World) (request : ModelRequest) (cursor : Continuation) : Bool :=
  match remembered world.served cursor.responseId with
  | none => true
  | some served =>
    let loaded := loadedNames codec request.catalogRevision cursor.fingerprint
    (loaded.all fun name =>
      decide (findTool served.deferredTools name = findTool request.deferredTools name)) &&
    (loadedNames codec request.catalogRevision (request.input.drop cursor.knownItems)).all
      fun name => !loaded.contains name || (findTool request.deferredTools name).isNone

/-- The condition on a request that continues a response. -/
def unrepeated (world : World) (request : ModelRequest) (attempt : Attempt) : Bool :=
  world.state.continuation.all fun cursor =>
    !continues codec socket world request attempt cursor || loadsOnce codec world request cursor

/-- The condition on a response: its items can be sent again. -/
def replays (request : ModelRequest) (attempt : Attempt) : Bool :=
  match attempt.exchange with
  | .completed _ output => (wireInput codec true socket.explicitPromptCache
      request.catalogRevision [] output.items).toBool
  | _ => true

/-- The condition on one operation; the first attempt is the only one that may continue. -/
def admissible (world : World) : Op → Bool
  | .request request attempts => world.state.useHttp ||
      (attempts.head?.all (unrepeated codec socket world request) &&
        attempts.all (replays codec socket request))
  | _ => true

def admissibleRun : List Op → World → Bool
  | [], _ => true
  | op :: rest, world => admissible codec socket world op &&
      admissibleRun rest (step codec socket world op)

/-- What holds of the session and of the bodies it sent. -/
structure Tracks (world : World) : Prop where
  /-- The cursor of a live connection names what the server keeps of a response on it. -/
  cursor : ∀ cursor connection, world.state.continuation = some cursor →
    world.state.connection = some connection →
    ∃ served, remembered world.served cursor.responseId = some served ∧
      served.connection = connection ∧
      wireInput codec true socket.explicitPromptCache cursor.envelopeFingerprint.catalogRevision
        served.deferredTools cursor.fingerprint = .ok served.memory
  sent : ∀ sent ∈ world.sent, Equivalent codec socket sent

variable {codec} {socket}

variable {world : World} {request : ModelRequest} {attempt : Attempt} {rebuilt : Bool}

theorem Tracks.settle (h : Tracks codec socket world) {connection : Option Nat}
    {continuation : Option Continuation} (hcursor : connection = none ∨ continuation = none) :
    Tracks codec socket (world.settle connection continuation) := by
  refine ⟨?_, h.sent⟩
  intro cursor live hcontinuation hconnection
  cases hcursor with
  | inl hnone =>
    rw [hnone] at hconnection
    cases hconnection
  | inr hnone =>
    rw [hnone] at hcontinuation
    cases hcontinuation

theorem Tracks.ensure (h : Tracks codec socket world) (attempt : Attempt) :
    Tracks codec socket (ensureConnection attempt world).1 ∧
      ((ensureConnection attempt world).1 = world ∧ attempt.usable = true ∨
        (ensureConnection attempt world).1.state.continuation = none) := by
  unfold ensureConnection
  split
  · rename_i hlive
    exact ⟨h, .inl ⟨rfl, (Bool.and_eq_true_iff.mp hlive).2⟩⟩
  · dsimp only
    split
    · refine ⟨⟨?_, h.sent⟩, .inr rfl⟩
      intro cursor connection hcontinuation
      cases hcontinuation
    · refine ⟨⟨?_, h.sent⟩, .inr rfl⟩
      intro cursor connection hcontinuation
      cases hcontinuation
    · refine ⟨⟨?_, h.sent⟩, .inr rfl⟩
      intro cursor connection hcontinuation
      cases hcontinuation

theorem unrepeated_of_none (h : world.state.continuation = none) :
    unrepeated codec socket world request attempt = true := by
  unfold unrepeated
  rw [h]
  rfl

theorem responseInput_cases (continuation : Option Continuation) (request : ModelRequest) :
    responseInput socket continuation request = (none, request.input, none) ∨
      ∃ cursor, continuation = some cursor ∧ request.allowContinuation = true ∧
        reusable socket cursor request = true ∧
        responseInput socket continuation request =
          (some cursor.responseId, request.input.drop cursor.knownItems, some cursor) := by
  unfold responseInput
  split
  · rename_i hallow
    unfold continuationInput
    cases continuation with
    | none => exact .inl rfl
    | some cursor =>
      dsimp only
      split
      · rename_i hreusable
        exact .inr ⟨cursor, rfl, hallow, hreusable, rfl⟩
      · exact .inl rfl
  · exact .inl rfl

theorem preparedBody_ok {input : List Json} {previous : Option String} {body : ResponsesBody}
    (h : preparedBody codec socket request input previous = .ok body) :
    wireInput codec true socket.explicitPromptCache request.catalogRevision
      request.deferredTools input = .ok body.input ∧
      body = ⟨requestMetadata socket request previous, body.input, wireTools socket request⟩ := by
  obtain ⟨wire, hwire, hbody⟩ := bind_ok h
  cases hbody
  exact ⟨hwire, rfl⟩

theorem wireInput_cursor {cursor : Continuation} {served : Served} {later : List Json}
    (hserved : remembered world.served cursor.responseId = some served)
    (hmemory : wireInput codec true socket.explicitPromptCache
      cursor.envelopeFingerprint.catalogRevision served.deferredTools cursor.fingerprint =
        .ok served.memory) (hreusable : reusable socket cursor request = true)
    (honce : loadsOnce codec world request cursor = true)
    (hlater : wireInput codec true socket.explicitPromptCache request.catalogRevision
      request.deferredTools (request.input.drop cursor.knownItems) = .ok later) :
    wireInput codec true socket.explicitPromptCache request.catalogRevision
      request.deferredTools request.input = .ok (served.memory ++ later) := by
  unfold loadsOnce at honce
  rw [hserved] at honce
  dsimp only at honce
  obtain ⟨hsame, hnew⟩ := Bool.and_eq_true_iff.mp honce
  unfold reusable at hreusable
  simp only [Bool.and_eq_true, decide_eq_true_eq] at hreusable
  obtain ⟨⟨hsettings, _⟩, hbegins⟩ := hreusable
  rw [hsettings] at hmemory
  have hsplit : request.input = cursor.fingerprint ++ request.input.drop cursor.knownItems := by
    rw [← hbegins, List.take_append_drop]
  rw [hsplit]
  refine wireInput_continued hmemory hlater ?_ ?_
  · intro name hname
    exact of_decide_eq_true (List.all_eq_true.mp hsame name hname)
  · intro name hname hold
    have hfree := List.all_eq_true.mp hnew name hname
    rw [List.contains_iff_mem.mpr hold, Bool.not_true, Bool.false_or] at hfree
    exact Option.isNone_iff_eq_none.mp hfree

theorem Tracks.send (h : Tracks codec socket world) {sent : Sent}
    (hsent : Equivalent codec socket sent) :
    Tracks codec socket { world with sent := sent :: world.sent } := by
  refine ⟨h.cursor, ?_⟩
  intro other hother
  cases List.mem_cons.mp hother with
  | inl hnew =>
    rw [hnew]
    exact hsent
  | inr hold => exact h.sent other hold

theorem remembered_head (response : Served) (served : List Served) :
    remembered (response :: served) response.responseId = some response := by
  simp [remembered]

/-- An exchange keeps the session tracked, if the server's memory and the body are the wire
form of the whole input. -/
theorem Tracks.exchange (h : Tracks codec socket world) {body : ResponsesBody} {connection : Nat}
    {previous : Option String}
    (hbody : body = ⟨requestMetadata socket request previous, body.input, wireTools socket request⟩)
    (hprevious : ∀ responseId, previous = some responseId →
      ∃ served, remembered world.served responseId = some served ∧ served.connection = connection)
    (hwhole : wireInput codec true socket.explicitPromptCache request.catalogRevision
      request.deferredTools request.input =
        .ok (((previous.bind (remembered world.served)).map (·.memory)).getD [] ++ body.input))
    (hreplays : replays codec socket request attempt = true) :
    Tracks codec socket
      (exchangeBody codec socket rebuilt request attempt.exchange body connection world).1 := by
  have hmetadata : body.metadata.previousResponseId = previous := by
    rw [hbody]
    rfl
  have hsent : Equivalent codec socket
      ⟨request, body, connection, previous.bind (remembered world.served)⟩ := by
    intro responseId hid
    dsimp only at hid
    rw [hmetadata] at hid
    constructor
    · refine except_bind_ok_iff.mpr ⟨_, hwhole, ?_⟩
      rw [hbody]
      rfl
    · obtain ⟨served, hserved, hsame⟩ := hprevious responseId hid
      simp only [hid, Option.bind_some, hserved, Option.map_some, hsame]
  have hnext := h.send hsent
  unfold exchangeBody
  rw [hmetadata]
  cases hexchange : attempt.exchange with
  | completed responseId output =>
    constructor
    · intro cursor live hcontinuation hlive
      have hconnection : connection = live := Option.some.inj hlive
      by_cases hallow : request.allowContinuation = true
      · simp only [World.settle, hallow, if_true, Option.some.injEq] at hcontinuation
        unfold replays at hreplays
        rw [hexchange] at hreplays
        dsimp only at hreplays
        cases houtput : wireInput codec true socket.explicitPromptCache request.catalogRevision []
            output.items with
        | error error =>
          rw [houtput] at hreplays
          cases hreplays
        | ok wire =>
          have hwire : outputWire codec socket request output = wire := by
            unfold outputWire
            rw [houtput]
          rw [← hcontinuation]
          refine ⟨_, remembered_head _ _, hconnection, ?_⟩
          dsimp only
          rw [hwire]
          exact wireInput_output output.plain hwhole houtput
      · simp [World.settle, hallow] at hcontinuation
    · exact hnext.sent
  | failed error => exact hnext.settle (.inl rfl)
  | previousMissing outputDelivered | retry => exact hnext.settle (.inr rfl)
  | connectionLimit | reconnect => exact hnext.settle (.inl rfl)

theorem Tracks.body (h : Tracks codec socket world)
    (husable : attempt.usable = true ∨ world.state.continuation = none)
    (hunrepeated : unrepeated codec socket world request attempt = true)
    (hreplays : replays codec socket request attempt = true) :
    Tracks codec socket (sendBody codec socket rebuilt request attempt world).1 := by
  have hkept : Tracks codec socket (world.settle world.state.connection
      (responseInput socket world.state.continuation request).2.2) := by
    cases @responseInput_cases socket world.state.continuation request with
    | inl hfull =>
      rw [hfull]
      exact h.settle (.inr rfl)
    | inr hcursor =>
      obtain ⟨cursor, hcontinuation, _, _, hchosen⟩ := hcursor
      rw [hchosen]
      dsimp only
      rw [← hcontinuation]
      exact h
  unfold sendBody
  dsimp only
  cases hbody : preparedBody codec socket request
      (responseInput socket world.state.continuation request).2.1
      (responseInput socket world.state.continuation request).1 with
  | error error => exact hkept
  | ok body =>
    dsimp only
    cases hadmitted : attempt.admitted with
    | error error => exact hkept
    | ok _ =>
      dsimp only
      cases hconnection : (world.settle world.state.connection
          (responseInput socket world.state.continuation request).2.2).state.connection with
      | none => exact hkept
      | some connection =>
        have hlive : world.state.connection = some connection := hconnection
        obtain ⟨hwire, hfields⟩ := preparedBody_ok hbody
        refine hkept.exchange hfields ?_ ?_ hreplays
        · intro responseId hid
          cases @responseInput_cases socket world.state.continuation request with
          | inl hfull =>
            rw [hfull] at hid
            cases hid
          | inr hcursor =>
            obtain ⟨cursor, hcontinuation, _, _, hchosen⟩ := hcursor
            rw [hchosen] at hid
            obtain ⟨served, hserved, hsame, _⟩ := h.cursor cursor connection hcontinuation hlive
            cases hid
            exact ⟨served, hserved, hsame⟩
        · cases @responseInput_cases socket world.state.continuation request with
          | inl hfull =>
            rw [hfull] at hwire ⊢
            exact hwire
          | inr hcursor =>
            obtain ⟨cursor, hcontinuation, hallow, hreusable, hchosen⟩ := hcursor
            obtain ⟨served, hserved, _, hmemory⟩ :=
              h.cursor cursor connection hcontinuation hlive
            rw [hchosen] at hwire hbody ⊢
            have honce : loadsOnce codec world request cursor = true := by
              have husable := husable.resolve_right (by rw [hcontinuation]; exact nofun)
              have hcontinues : continues codec socket world request attempt cursor = true := by
                unfold continues
                rw [hlive, husable, hallow, hreusable, hadmitted, hbody]
                rfl
              unfold unrepeated at hunrepeated
              rw [hcontinuation, Option.all_some, hcontinues, Bool.not_true, Bool.false_or]
                at hunrepeated
              exact hunrepeated
            have hcontinued := wireInput_cursor hserved hmemory hreusable honce hwire
            have hbound : (some cursor.responseId).bind (remembered world.served) = some served :=
              hserved
            dsimp only [World.settle] at hbound ⊢
            rw [hbound]
            exact hcontinued

theorem rebuild_forgets {next : World}
    (h : sendRound codec socket rebuilt request attempt world = (next, .rebuild)) :
    next.state.continuation = none := by
  unfold sendRound at h
  split at h
  · cases h
  unfold sendBody at h
  dsimp only at h
  split at h
  · cases h
  split at h
  · cases h
  split at h
  · cases h
  unfold exchangeBody at h
  split at h
  · cases h
  · cases h
  · obtain ⟨hworld, _⟩ := Prod.mk.inj h
    rw [← hworld]
    rfl
  · cases h
  · cases h
  · cases h

theorem Tracks.round {world : World} (h : Tracks codec socket world) {rebuilt : Bool}
    {request : ModelRequest} {attempt : Attempt}
    (hunrepeated : unrepeated codec socket world request attempt = true)
    (hreplays : replays codec socket request attempt = true) :
    Tracks codec socket (sendRound codec socket rebuilt request attempt world).1 := by
  obtain ⟨hconnected, hensured⟩ := h.ensure attempt
  have hkept : unrepeated codec socket (ensureConnection attempt world).1 request attempt =
      true := by
    rcases hensured with ⟨hsame, -⟩ | hnone
    · rw [hsame]
      exact hunrepeated
    · exact unrepeated_of_none hnone
  have husable := hensured.imp_left And.right
  unfold sendRound
  cases hready : ensureConnection attempt world with
  | mk connected reply =>
    rw [hready] at hconnected hkept husable
    cases reply with
    | some reply => exact hconnected
    | none => exact hconnected.body husable hkept hreplays

theorem Tracks.rounds (h : Tracks codec socket world) {attempts : List Attempt}
    (hunrepeated : ∀ attempt ∈ attempts.head?,
      unrepeated codec socket world request attempt = true)
    (hreplays : ∀ attempt ∈ attempts, replays codec socket request attempt = true) :
    Tracks codec socket (sendRounds codec socket request rebuilt attempts world).1 := by
  induction attempts generalizing rebuilt world with
  | nil => exact h
  | cons attempt rest ih =>
    have hround := @Tracks.round _ _ _ h rebuilt _ _ (hunrepeated attempt rfl)
      (hreplays attempt List.mem_cons_self)
    unfold sendRounds
    cases hresult : sendRound codec socket rebuilt request attempt world with
    | mk next outcome =>
      rw [hresult] at hround
      cases outcome with
      | done reply => exact hround
      | rebuild =>
        refine ih hround ?_ fun other hother => hreplays other (List.mem_cons_of_mem attempt hother)
        exact fun _ _ => unrepeated_of_none (rebuild_forgets hresult)

theorem Tracks.step {world : World} (h : Tracks codec socket world) {op : Op}
    (hop : admissible codec socket world op = true) :
    Tracks codec socket (step codec socket world op) := by
  cases op with
  | request request attempts =>
    show Tracks codec socket (sendResponse codec socket request attempts world).1
    unfold sendResponse
    split
    · exact h
    · rename_i hsocket
      obtain ⟨hunrepeated, hreplays⟩ :=
        Bool.and_eq_true_iff.mp ((Bool.or_eq_true_iff.mp hop).resolve_left hsocket)
      exact h.rounds ((Option.all_eq_true _ _).mp hunrepeated) (List.all_eq_true.mp hreplays)
  | fallback =>
    unfold ResponsesSocket.step
    dsimp only
    split
    · exact h
    · refine ⟨?_, h.sent⟩
      intro cursor connection hcontinuation
      cases hcontinuation
  | closeIdle => exact h.settle (.inr rfl)
  | evict =>
    refine ⟨?_, h.sent⟩
    intro cursor connection hcontinuation
    cases hcontinuation

theorem Tracks.run {ops : List Op} (h : Tracks codec socket world)
    (hops : admissibleRun codec socket ops world = true) :
    Tracks codec socket (run codec socket ops world) := by
  induction ops generalizing world with
  | nil => exact h
  | cons op rest ih =>
    obtain ⟨hop, hrest⟩ := Bool.and_eq_true_iff.mp hops
    exact ih (h.step hop) hrest

theorem Tracks.fresh : Tracks codec socket {} := by
  constructor
  · intro cursor connection hcontinuation
    cases hcontinuation
  · intro sent hsent
    cases hsent

/-- In a run whose requests load no tool again and whose responses can be sent again, every
body that continues a response is as good as the full one, on a connection not replaced. -/
theorem continuation_equivalent {ops : List Op} (hops : admissibleRun codec socket ops {} = true) :
    ∀ sent ∈ (run codec socket ops {}).sent, Equivalent codec socket sent :=
  (Tracks.fresh.run hops).sent

end Equivalence

section Samples

/-- A codec that writes nothing. -/
def sampleCodec : WireCodec := ⟨fun _ => "", fun _ => ""⟩

/-- A socket without settings. -/
def sampleSocket : OpenAiSocket := ⟨"gpt", none, [], false, none⟩

/-- A tool that is found by search. -/
def sampleTool : ToolDefinition := ⟨"calendar", "Reads a calendar.", .obj []⟩

def sampleLoad : Json :=
  .obj [("catalog_revision", .str "r1"), ("tools", .arr [.str "calendar"]),
    ("type", .str "tool_load")]

def sampleReply : Json := .obj [("role", .str "assistant"), ("type", .str "message")]

def sampleOutput : OutputItems := ⟨[sampleReply], by decide⟩

def sampleRequest (input : List Json) : ModelRequest :=
  ⟨none, "", input, "r1", [], [sampleTool], false, true⟩

/-- A round whose response has this id. -/
def sampleAttempt (responseId : String) : Attempt :=
  ⟨true, .opened, .ok (), .completed responseId sampleOutput⟩

/-- Two requests, the second with these items after the response to the first. -/
def sampleRun (suffix : List Json) : List Op :=
  [.request (sampleRequest [sampleLoad]) [sampleAttempt "resp-1"],
    .request (sampleRequest ([sampleLoad, sampleReply] ++ suffix)) [sampleAttempt "resp-2"]]

/-- The body of the second request, if it continues the first response. -/
def secondBody (suffix : List Json) : Option Sent :=
  ((run sampleCodec sampleSocket (sampleRun suffix) {}).sent.head?).filter fun sent =>
    sent.body.metadata.previousResponseId == some "resp-1"

/-- Whether the second body has the wire form of the whole input. -/
def secondEquals (suffix : List Json) : Bool :=
  (secondBody suffix).any fun sent =>
    decide (preparedBody sampleCodec sampleSocket sent.request sent.request.input none =
      .ok sent.whole)

/-- The user's next message. -/
def sampleMessage : Json := .obj [("role", .str "user")]

theorem sampleRuns : admissibleRun sampleCodec sampleSocket (sampleRun [sampleMessage]) {} = true ∧
    (secondBody [sampleMessage]).isSome = true ∧ (secondBody [sampleLoad]).isSome = true ∧
    secondEquals [sampleLoad] = false := by
  decide +kernel

theorem secondBody_sent {suffix : List Json} {sent : Sent} (h : secondBody suffix = some sent) :
    sent ∈ (run sampleCodec sampleSocket (sampleRun suffix) {}).sent ∧
      sent.body.metadata.previousResponseId = some "resp-1" := by
  obtain ⟨hhead, hid⟩ := Option.filter_eq_some_iff.mp h
  exact ⟨List.mem_of_head? hhead, by simpa using hid⟩

/-- A message after the first response continues it, as good as the full body. -/
theorem continuation_equivalent_message : (secondBody [sampleMessage]).isSome = true ∧
    ∀ sent ∈ (run sampleCodec sampleSocket (sampleRun [sampleMessage]) {}).sent,
      Equivalent sampleCodec sampleSocket sent :=
  ⟨sampleRuns.2.1, continuation_equivalent sampleRuns.1⟩

/-- A tool that is loaded again after a continued response is sent twice. -/
theorem reloaded_tool_sent_twice : ¬∀ (codec : WireCodec) (socket : OpenAiSocket) (ops : List Op),
    ∀ sent ∈ (run codec socket ops {}).sent, Equivalent codec socket sent := by
  intro h
  obtain ⟨sent, hsent⟩ := Option.isSome_iff_exists.mp sampleRuns.2.2.1
  obtain ⟨hmem, hid⟩ := secondBody_sent hsent
  have hequal := (h sampleCodec sampleSocket (sampleRun [sampleLoad]) sent hmem "resp-1" hid).1
  have hdiffers := sampleRuns.2.2.2
  unfold secondEquals at hdiffers
  rw [hsent, Option.any_some, decide_eq_true hequal] at hdiffers
  cases hdiffers

end Samples

end MobiusAgent.ResponsesSocket
