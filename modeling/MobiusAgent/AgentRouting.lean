import MobiusAgent.AgentTransactions

/-!
# Routing while the agent waits, and the end of a turn

Submissions that arrive while the agent waits change the queue and nothing
else. `Continued` is what every caller may rely on when a wait returns: the
live checkpoint is the same apart from its queue and sequence, and if it was
durable before, it is durable after. An abort leaves nothing of its turn open.
-/

namespace MobiusAgent.AgentRouting

open JsonValue ProtocolEvents CheckpointRecords ContextItems MessageQueue AgentWorld AgentInput
  AgentStreaming AgentTools AgentTurn AgentTransactions EffectLogic

/-- The live checkpoint is durable. -/
def Synced (world : World) : Prop := durable world.log = some world.state

/-- The agent runs this turn. -/
def OnTurn (turnId : String) (state : Checkpoint) : Prop :=
  ∃ active, state.activeExecution = some active ∧ active.turnId = turnId

/-- Between two worlds the live checkpoint changed its queue and sequence only. -/
structure Continued (world next : World) : Prop where
  state : ∃ queue sequence,
    next.state = { world.state with pendingMessages := queue, sequence := sequence }
  saved : (durable next.log = durable world.log ∧ next.state = world.state) ∨ Synced next

theorem Continued.refl (world : World) : Continued world world :=
  ⟨⟨world.state.pendingMessages, world.state.sequence, rfl⟩, .inl ⟨rfl, rfl⟩⟩

theorem Continued.trans {first second third : World} (h : Continued first second)
    (h' : Continued second third) : Continued first third := by
  obtain ⟨queue, sequence, hstate⟩ := h.state
  obtain ⟨queue', sequence', hstate'⟩ := h'.state
  refine ⟨⟨queue', sequence', by rw [hstate', hstate]⟩, ?_⟩
  rcases h'.saved with ⟨hdurable, hsame⟩ | hsynced
  · rcases h.saved with ⟨hbefore, hfirst⟩ | hsynced
    · exact .inl ⟨hdurable.trans hbefore, hsame.trans hfirst⟩
    · exact .inr (by rw [Synced, hdurable, hsynced, hsame])
  · exact .inr hsynced

variable {world next : World}

theorem Continued.ofSame (h : Same world next) : Continued world next :=
  ⟨⟨world.state.pendingMessages, world.state.sequence, h.state⟩,
    .inl ⟨by rw [h.log], h.state⟩⟩

theorem Continued.ofNote {entry : Entry} (hcommit : entry.commit = none) (world : World) :
    Continued world { world with log := entry :: world.log } := by
  refine ⟨⟨_, _, rfl⟩, .inl ⟨?_, rfl⟩⟩
  simp only [durable, commits, List.filterMap_cons_none hcommit]

theorem durable_committed (commit : Commit) (log : List Entry) :
    durable (.committed commit :: log) = some commit.checkpoint := rfl

theorem Continued.ofSaved {commit : Commit} (h : Saved world commit next)
    (hcheckpoint : ∃ queue sequence, commit.checkpoint =
      { world.state with pendingMessages := queue, sequence := sequence }) :
    Continued world next := by
  obtain ⟨queue, sequence, hcheckpoint⟩ := hcheckpoint
  refine ⟨⟨queue, sequence, h.state.trans hcheckpoint⟩, .inr ?_⟩
  rw [Synced, h.log, durable_committed, h.state]

section Primitives

variable {config : Config} (env : Surroundings config) {world : World}

theorem ask_returns {α : Type} (answers : Nat → α) :
    Returns world (ask answers) fun value next =>
      (∃ tick, value = answers tick) ∧ Same world next := by
  intro value next h
  cases h
  exact ⟨⟨world.tick, rfl⟩, rfl, rfl, rfl⟩

theorem askOk_returns {α : Type} (answers : Nat → Except Error α) :
    Returns world (askOk answers) fun value next =>
      (∃ tick, answers tick = .ok value) ∧ Same world next := by
  refine Returns.bind (ask_returns answers) fun value next h => ?_
  obtain ⟨⟨tick, rfl⟩, hsame⟩ := h
  exact Returns.ofExcept fun result hresult => ⟨⟨tick, hresult⟩, hsame⟩

theorem getState_returns :
    Returns world getState fun value next => value = world.state ∧ next = world := by
  intro value next h
  cases h
  exact ⟨rfl, rfl⟩

theorem activeExecution_returns (message : String) :
    Returns world (activeExecution message) fun active next =>
      world.state.activeExecution = some active ∧ next = world := by
  refine Returns.bind getState_returns fun state next h => ?_
  obtain ⟨rfl, rfl⟩ := h
  cases hactive : next.state.activeExecution with
  | none => exact Returns.fail
  | some active => exact Returns.pure ⟨rfl, rfl⟩

theorem note_returns (entry : Entry) :
    Returns world (note entry) fun _ next => next = { world with log := entry :: world.log } :=
  Returns.modify rfl

theorem modifyState_returns (change : Checkpoint → Checkpoint) :
    Returns world (modifyState change) fun _ next => next = onState change world :=
  Returns.modify rfl

theorem persist_returns (events : List Event) (execution : Option ExecutionRecord) :
    Returns world (persistWithEvents env events execution) fun _ =>
      Saved world (draft world events execution) :=
  (persistWithEvents_spec env events execution).returns (.refl world)

theorem sendEvent_returns (event : Event) :
    Returns world (sendEvent env event) fun _ next => Continued world next := by
  refine Returns.bind (askOk_returns env.record) fun _ next hnext => ?_
  refine (note_returns (.recorded event)).mono fun _ last hlast => ?_
  rw [hlast]
  exact (Continued.ofSame hnext.2).trans (.ofNote rfl next)

theorem sendEvents_returns (events : List Event) : ∀ {world : World},
    Returns world (sendEvents env events) fun _ next => Continued world next := by
  induction events with
  | nil =>
    intro world
    exact Returns.pure (.refl world)
  | cons event rest ih =>
    intro world
    refine Returns.bind (sendEvent_returns env event) fun _ next hnext => ?_
    exact ih.mono fun _ last hlast => hnext.trans hlast

theorem persistSubmissionChange_returns (submissionId : String)
    (pendingMessages : List QueuedMessage) (events : List EventMsg) :
    Returns world (persistSubmissionChange env submissionId pendingMessages events)
      fun _ next => Continued world next :=
  ((persistSubmissionChange_spec env world submissionId pendingMessages events).returns
    (.refl world)).mono fun _ _ hnext => .ofSaved hnext ⟨_, _, rfl⟩

end Primitives

section Routing

variable {config : Config} (env : Surroundings config) {world : World}

theorem messageAccepted_returns (submissionId : String) :
    Returns world (messageAccepted env submissionId) fun _ next => Same world next := by
  refine Returns.bind (askOk_returns env.read) fun _ next hnext => ?_
  refine Returns.bind Returns.get fun value last hlast => ?_
  obtain ⟨_, rfl⟩ := hlast
  exact Returns.pure hnext.2

theorem replyRejection_returns (message : MessageSubmission) :
    Returns world (replyRejection env message) fun _ next => Same world next := by
  unfold replyRejection
  cases message.reply with
  | none => exact Returns.pure (.refl world)
  | some reply =>
    refine Returns.bind (askOk_returns env.read) fun _ next hnext => ?_
    refine Returns.bind Returns.get fun value last hlast => ?_
    obtain ⟨_, rfl⟩ := hlast
    exact Returns.pure hnext.2

theorem routeMessage_returns (submissionId : String) (message : MessageSubmission)
    (activeTurnId : Option String) :
    Returns world (routeMessage env submissionId message activeTurnId)
      fun _ next => Same world next := by
  refine Returns.bind getState_returns fun state next h => ?_
  obtain ⟨_, rfl⟩ := h
  refine Returns.bind (replyRejection_returns env message) fun rejection last hlast => ?_
  cases rejection with
  | some reason => exact Returns.pure hlast
  | none => exact Returns.ofExcept fun _ _ => hlast

theorem routeSubmissionResult_returns (submissionId : String) (result : SubmissionResult)
    (queue : List QueuedMessage) (messages : List EventMsg) :
    Returns world (routeSubmissionResult env submissionId result queue messages)
      fun _ next => Continued world next := by
  unfold routeSubmissionResult
  cases result with
  | accepted inputChanged => exact Returns.pure (.refl world)
  | handled =>
    refine Returns.bind (sendEvents_returns env _) fun _ next hnext => ?_
    exact Returns.pure hnext
  | rejected message =>
    refine Returns.bind (sendEvents_returns env _) fun _ next hnext => ?_
    refine Returns.bind (sendEvent_returns env _) fun _ last hlast => ?_
    exact Returns.pure (hnext.trans hlast)

theorem warn_returns (submissionId message : String) :
    Returns world (warn env submissionId message) fun _ next => Continued world next := by
  refine Returns.bind (sendEvent_returns env _) fun _ next hnext => ?_
  exact Returns.pure hnext

theorem routeEdit_returns (submissionId arguments : String) (input : Option String) :
    Returns world (routeEdit env submissionId arguments input)
      fun _ next => Continued world next := by
  refine Returns.bind getState_returns fun state start h => ?_
  obtain ⟨_, rfl⟩ := h
  refine Returns.bind (Returns.ofExcept fun _ _ => rfl :
    Returns start _ fun _ last => last = start) fun routed next hrouted => ?_
  obtain ⟨result, queue, messages⟩ := routed
  subst hrouted
  have hnote : Returns next (noteEdit submissionId arguments result)
      fun _ last => Continued next last := by
    unfold noteEdit
    cases result with
    | accepted inputChanged =>
      refine (note_returns (.edited submissionId arguments)).mono fun _ last hlast => ?_
      rw [hlast]
      exact .ofNote rfl next
    | handled | rejected reason => exact Returns.pure (.refl next)
  refine Returns.bind hnote fun _ last hlast => ?_
  exact (routeSubmissionResult_returns env submissionId result queue messages).mono
    fun _ final hfinal => hlast.trans hfinal

theorem routeCommand_returns (submissionId capability command arguments : String)
    (input : Option String) :
    Returns world (routeCommand env submissionId capability command arguments input)
      fun _ next => Continued world next := by
  unfold routeCommand
  split
  · split
    · exact routeEdit_returns env submissionId arguments input
    · exact warn_returns env submissionId _
  · refine Returns.bind (askOk_returns env.activeCommand) fun answer next hnext => ?_
    obtain ⟨result, events⟩ := answer
    have hasked := Continued.ofSame hnext.2
    cases result with
    | none =>
      exact (warn_returns env submissionId _).mono fun _ last hlast => hasked.trans hlast
    | some result =>
      refine Returns.bind getState_returns fun state start h => ?_
      obtain ⟨_, rfl⟩ := h
      exact (routeSubmissionResult_returns env submissionId result _ _).mono
        fun _ last hlast => hasked.trans hlast

theorem route_returns (submission : Submission) (turnId : String)
    (expectedApproval : Option String) :
    Returns world (route env submission turnId expectedApproval)
      fun _ next => Continued world next := by
  unfold route
  cases submission.op with
  | message message =>
    refine Returns.bind (routeMessage_returns env submission.id message (some turnId))
      fun routed next hnext => ?_
    obtain ⟨result, queue, messages⟩ := routed
    exact (routeSubmissionResult_returns env submission.id result queue messages).mono
      fun _ last hlast => (Continued.ofSame hnext).trans hlast
  | interrupt target | execApproval id decision =>
    dsimp only
    split
    · exact Returns.pure (.refl world)
    · exact warn_returns env submission.id _
  | capabilityCommand capability command arguments input target =>
    exact routeCommand_returns env submission.id capability command arguments input
  | setModel model | resumeSession sessionId => exact warn_returns env submission.id _

theorem routeActiveSubmission_returns (received : Received config.ingress) (turnId : String)
    (expectedApproval : Option String) :
    Returns world (routeActiveSubmission env received turnId expectedApproval)
      fun _ next => Continued world next := by
  have haccepted : Returns world (alreadyAccepted env received.toSubmission)
      fun _ next => Same world next := by
    unfold alreadyAccepted
    cases received.op with
    | message message => exact messageAccepted_returns env received.id
    | _ => exact Returns.pure (.refl world)
  refine Returns.bind haccepted fun accepted next hnext => ?_
  have hasked := Continued.ofSame hnext
  split
  · exact Returns.pure hasked
  refine Returns.bind (route_returns env received.toSubmission turnId expectedApproval)
    fun route second hsecond => ?_
  have hrouted := hasked.trans hsecond
  cases route with
  | changed submissionId queue events inputChanged =>
    refine Returns.bind (persistSubmissionChange_returns env submissionId queue events)
      fun _ last hlast => ?_
    exact Returns.pure (hrouted.trans hlast)
  | proceed | rejected reason | interrupted interruptId | approval approvalId decision =>
    exact Returns.pure hrouted

theorem drainUpTo_returns (turnId : String) (remaining : Nat) :
    ∀ (inputChanged : Bool) {world : World},
      Returns world (drainUpTo env turnId remaining inputChanged)
        fun _ next => Continued world next := by
  induction remaining with
  | zero =>
    intro inputChanged world
    exact Returns.pure (.refl world)
  | succ remaining ih =>
    intro inputChanged world
    refine Returns.bind (ask_returns env.inbox) fun received next hnext => ?_
    have hasked := Continued.ofSame hnext.2
    cases received with
    | none => exact Returns.fail
    | some received =>
      refine Returns.bind (routeActiveSubmission_returns env received turnId none)
        fun route second hsecond => ?_
      have hboth := hasked.trans hsecond
      cases route with
      | interrupted submissionId => exact Returns.pure hboth
      | proceed changed | approval submissionId decision =>
        exact (ih _).mono fun _ last hlast => hboth.trans hlast

theorem drain_returns (turnId : String) :
    Returns world (drainSubmissions env turnId) fun _ next => Continued world next := by
  refine Returns.bind (askOk_returns env.cutoff) fun cutoff next hnext => ?_
  exact (drainUpTo_returns env turnId cutoff false).mono fun _ last hlast =>
    (Continued.ofSame hnext.2).trans hlast

theorem waitActive_returns {α : Type} {future : Agent α} {value : α → Prop} (turnId : String)
    (hfuture : ∀ start, Returns start future fun result next => value result ∧ Same start next) :
    Returns world (waitActive env turnId future) fun wait next =>
      Continued world next ∧ ∀ result inputChanged, wait = .ready result inputChanged →
        value result := by
  refine Returns.iterate (fun _ next => Continued world next) ?_ (.refl world) config.fuel
  intro inputChanged start hstart
  refine Returns.bind (drain_returns env turnId) fun drained next hnext => ?_
  have hdrained := hstart.trans hnext
  cases drained.interrupted with
  | some submissionId => exact Returns.pure ⟨hdrained, fun _ _ h => by cases h⟩
  | none =>
    refine Returns.bind (ask_returns env.ready) fun ready second hsecond => ?_
    have hready := hdrained.trans (.ofSame hsecond.2)
    split
    · refine Returns.bind (hfuture second) fun result third hthird => ?_
      have hvalue := hready.trans (.ofSame hthird.2)
      refine Returns.bind (drain_returns env turnId) fun drained last hlast => ?_
      have hall := hvalue.trans hlast
      cases drained.interrupted with
      | some submissionId => exact Returns.pure ⟨hall, fun _ _ h => by cases h⟩
      | none =>
        refine Returns.pure ⟨hall, fun _ _ h => ?_⟩
        cases h
        exact hthird.1
    · refine Returns.bind (ask_returns env.inbox) fun received third hthird => ?_
      have hinbox := hready.trans (.ofSame hthird.2)
      cases received with
      | none => exact Returns.fail
      | some received =>
        refine Returns.bind (routeActiveSubmission_returns env received turnId none)
          fun route last hlast => ?_
        have hall := hinbox.trans hlast
        cases route with
        | interrupted submissionId => exact Returns.pure ⟨hall, fun _ _ h => by cases h⟩
        | proceed changed | approval submissionId decision => exact Returns.pure hall

end Routing

section Turns

variable {config : Config} (env : Surroundings config) (world : World)

theorem awaitRunning_returns (calls : List ToolCall) : ∀ start : World,
    Returns start (awaitRunning env calls) fun result next =>
      (∀ later, result = .ok later → later.map (·.callId) = calls.map (·.callId)) ∧
        Same start next := by
  induction calls with
  | nil =>
    intro start
    refine Returns.pure ⟨?_, .refl start⟩
    intro later hlater
    rw [← Except.ok.inj hlater]
    rfl
  | cons call rest ih =>
    intro start
    refine Returns.bind (ask_returns env.streamedOutcome) fun outcome next hnext => ?_
    cases outcome with
    | error error => exact Returns.pure ⟨nofun, hnext.2⟩
    | ok outcome =>
      refine Returns.bind (ih next) fun result last hlast => ?_
      have hsame : Same start last := ⟨hlast.2.state.trans hnext.2.state,
        hlast.2.delta.trans hnext.2.delta, hlast.2.log.trans hnext.2.log⟩
      cases result with
      | error error => exact Returns.pure ⟨nofun, hsame⟩
      | ok later =>
        refine Returns.pure ⟨?_, hsame⟩
        intro found hfound
        rw [← Except.ok.inj hfound, List.map_cons, List.map_cons, hlast.1 later rfl]
        rfl

theorem finishStreamed_same (streamed : StreamedTools) (start : World) :
    Returns start (finishStreamed env streamed) fun _ next => Same start next := by
  refine Returns.bind (awaitRunning_returns env streamed.running start) fun result next hnext => ?_
  cases result with
  | error error => exact Returns.pure hnext.2
  | ok later => exact Returns.pure hnext.2

/-- Whatever is submitted while a turn works, and however often, the live checkpoint keeps
everything but its queue and its sequence, and what is live is durable unless nothing was saved: when
submissions are drained, and while the turn waits for a value that is computed without a change, such
as a delay, the progress of a response and the results of its tools. -/
theorem submissions_keep_turn (turnId : String) :
    Returns world (drainSubmissions env turnId) (fun _ next => Continued world next) ∧
    (∀ (α : Type) (future : Agent α),
      (∀ start, Returns start future fun _ next => Same start next) →
        Returns world (waitActive env turnId future) fun _ next => Continued world next) ∧
    Returns world (waitActive env turnId (pure ())) (fun _ next => Continued world next) ∧
    Returns world (waitActive env turnId (ask env.progress))
      (fun _ next => Continued world next) ∧
    ∀ streamed, Returns world (waitActive env turnId (finishStreamed env streamed))
      fun _ next => Continued world next := by
  have hwait : ∀ (α : Type) (future : Agent α),
      (∀ start, Returns start future fun _ next => Same start next) →
        Returns world (waitActive env turnId future) fun _ next => Continued world next := by
    intro α future hfuture
    exact (@waitActive_returns config env world _ _ (fun _ => True) turnId fun start =>
      (hfuture start).mono fun _ _ hsame => ⟨trivial, hsame⟩).mono fun _ _ h => h.1
  refine ⟨drain_returns env turnId, hwait, hwait _ _ fun start => Returns.pure (.refl start),
    hwait _ _ fun start => (ask_returns env.progress).mono fun _ _ h => h.2,
    fun streamed => hwait _ _ (finishStreamed_same env streamed)⟩

/-- What an aborted turn leaves. -/
structure Aborted (config : Config) (turnId reason : String) (outcome : ExecutionOutcome)
    (next : World) : Prop where
  idle : next.state.activeExecution = none ∧ next.state.activeModelStep = none ∧
    next.state.pendingApproval = none ∧ next.state.pendingTools = []
  /-- Every open call has one result, and nothing else was added. -/
  context : next.state.context = world.state.context ++ cancelItems config reason world.state
  /-- Messages that steered the turn wait for a later one, unless it completed. -/
  queue : next.state.pendingMessages =
    finishMessageTurn world.state.pendingMessages turnId outcome
  /-- The execution is counted once, with its open calls as failed ones. -/
  counted : ∃ (active : ActiveExecution) (finishedAtMs : Nat),
    (account 0 world.state.pendingTools.length world.state.pendingTools.length {}
      world.state).activeExecution = some active ∧
    next.state.executionStats = world.state.executionStats.sum
      (.ofRecord (active.finish world.state.sessionId outcome finishedAtMs))
  /-- The live checkpoint is durable, and no transcript items wait. -/
  saved : Synced next ∧ next.transcriptDelta = []

/-- An abort that returns leaves no part of its turn open, whatever the turn was doing. -/
theorem abort_closes_turn (submissionId turnId reason : String) (outcome : ExecutionOutcome)
    (events : List Event) :
    Returns world (abortWithEvents env submissionId turnId reason outcome events)
      fun _ => Aborted world config turnId reason outcome := by
  refine ((abortWithEvents_spec env world submissionId turnId reason outcome events).returns
    (.refl world)).mono ?_
  rintro _ next ⟨commit, ⟨record, more, idle, hends, rfl⟩, hsaved⟩
  obtain ⟨active, finishedAtMs, hactive, rfl⟩ := hends.active
  refine ⟨?_, ?_, ?_, ⟨active, finishedAtMs, hactive, ?_⟩, ?_, hsaved.delta⟩
  · rw [hsaved.state]
    exact ⟨rfl, rfl, rfl, rfl⟩
  · rw [hsaved.state]
    rfl
  · rw [hsaved.state]
    rfl
  · rw [hsaved.state]
    simp only [finishDraft, draft, advance, onState, closing, aborted, released, cancelled, account]
  · rw [Synced, hsaved.log, durable_committed, hsaved.state]

end Turns

end MobiusAgent.AgentRouting
