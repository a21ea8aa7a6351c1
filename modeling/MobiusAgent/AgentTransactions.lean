import MobiusAgent.AgentModelStep

/-!
# Saves that undo themselves

Every operation of the agent that ends in a save is described as a
transaction: it either commits one draft, or it fails and leaves the live
checkpoint and the waiting transcript items as they were, each operation by
its own partial rollback.
-/

namespace MobiusAgent.AgentTransactions

open JsonValue ProtocolEvents CheckpointRecords ContextItems MessageQueue AgentWorld
  AgentAccounting AgentInput AgentTools AgentTurn AgentPreparation AgentStreaming AgentModelStep
  EffectLogic

/-- The live state and the log of a world; answers may have been received since. -/
structure Same (world next : World) : Prop where
  state : next.state = world.state
  delta : next.transcriptDelta = world.transcriptDelta
  log : next.log = world.log

structure Saved (world : World) (commit : Commit) (next : World) : Prop where
  state : next.state = commit.checkpoint
  delta : next.transcriptDelta = []
  log : next.log = .committed commit :: .offered commit.checkpoint commit.execution :: world.log

/-- The live state of a world, whatever was requested since. -/
structure Kept (world next : World) : Prop where
  state : next.state = world.state
  delta : next.transcriptDelta = world.transcriptDelta

/-- A failure after which a property holds; nothing halts. -/
def Failing (after : World → Prop) : Stop Error → World → Prop
  | .failed _, world => after world
  | .halted, _ => False

def advance (state : Checkpoint) : Checkpoint := { state with sequence := state.sequence + 1 }

/-- What a save in this world writes. -/
def draft (world : World) (events : List Event) (execution : Option ExecutionRecord) : Commit :=
  ⟨advance world.state, world.transcriptDelta, execution, events⟩

theorem Same.refl (world : World) : Same world world := ⟨rfl, rfl, rfl⟩

theorem Same.onState {world next : World} (h : Same world next) (change : Checkpoint → Checkpoint) :
    Same (onState change world) (onState change next) :=
  ⟨congrArg change h.state, h.delta, h.log⟩

theorem Same.kept {world next : World} (h : Same world next) : Kept world next :=
  ⟨h.state, h.delta⟩

theorem Failing.mono {after after' : World → Prop} (h : ∀ world, after world → after' world) :
    ∀ stop world, Failing after stop world → Failing after' stop world := by
  intro stop world hafter
  cases stop with
  | failed error => exact h world hafter
  | halted => exact hafter

section Primitives

variable {config : Config} (env : Surroundings config) {world : World}
  {stopped : Stop Error → World → Prop}

theorem ask_spec {α : Type} (answers : Nat → α) :
    Spec (Same world) (ask answers)
      (fun value next => (∃ tick, value = answers tick) ∧ Same world next) stopped :=
  fun state h => ⟨⟨state.tick, rfl⟩, ⟨h.state, h.delta, h.log⟩⟩

theorem askOk_spec {α : Type} (answers : Nat → Except Error α)
    (hfail : ∀ error next, Same world next → stopped (.failed error) next) :
    Spec (Same world) (askOk answers)
      (fun value next => (∃ tick, answers tick = .ok value) ∧ Same world next) stopped := by
  refine Spec.bind (ask_spec answers) fun value => Spec.given ?_
  rintro ⟨tick, rfl⟩
  exact Spec.ofExcept _ (fun result hresult next hnext => ⟨⟨tick, hresult⟩, hnext⟩)
    fun error _ next hnext => hfail error next hnext

theorem get_spec :
    Spec (Same world) Proc.get (fun value next => Same world value ∧ Same world next) stopped :=
  fun _ h => ⟨h, h⟩

theorem getState_spec :
    Spec (Same world) getState (fun value next => value = world.state ∧ Same world next) stopped :=
  fun _ h => ⟨h.state, h⟩

theorem modifyState_spec (change : Checkpoint → Checkpoint) :
    Spec (Same world) (modifyState change) (fun _ => Same (onState change world)) stopped :=
  Spec.modify _ fun _ h => h.onState change

theorem activeExecution_spec (message : String)
    (hfail : ∀ error next, Same world next → stopped (.failed error) next) :
    Spec (Same world) (activeExecution message)
      (fun active next => world.state.activeExecution = some active ∧ Same world next) stopped := by
  refine Spec.bind getState_spec fun state => Spec.given ?_
  rintro rfl
  cases hactive : world.state.activeExecution with
  | none => exact Spec.fail fun next hnext => hfail _ next hnext
  | some active => exact Spec.pure fun next hnext => ⟨rfl, hnext⟩

theorem persistWithEvents_spec (events : List Event) (execution : Option ExecutionRecord) :
    Spec (Same world) (persistWithEvents env events execution)
      (fun _ => Saved world (draft world events execution))
      (Failing (Kept world)) := by
  refine Spec.bind getState_spec fun state => Spec.given ?_
  rintro rfl
  cases hsequence : checkedAdd world.state.sequence 1 with
  | none => exact Spec.fail fun next hnext => hnext.kept
  | some sequence =>
    intro next hnext
    dsimp only
    rw [checkedAdd_eq_some hsequence, offer]
    cases env.save next.tick with
    | error error => exact ⟨hnext.state, hnext.delta⟩
    | ok accepted =>
      refine ⟨rfl, rfl, ?_⟩
      simp only [World.committed, hnext.log, hnext.delta, draft, advance]

theorem restoring_persist_spec (world staged : World) (undo : World → World) (events : List Event)
    (execution : Option ExecutionRecord) (hlog : staged.log = world.log)
    (hundo : ∀ next, next.state = staged.state → next.transcriptDelta = staged.transcriptDelta →
      (undo next).state = world.state ∧ (undo next).transcriptDelta = world.transcriptDelta) :
    Spec (Same staged) (Proc.restoring (persistWithEvents env events execution) undo)
      (fun _ => Saved world (draft staged events execution)) (Failing (Kept world)) := by
  have hsaved : Spec (Same staged) (persistWithEvents env events execution)
      (fun _ => Saved world (draft staged events execution)) (Failing (Kept staged)) :=
    (persistWithEvents_spec env events execution).mono
      fun _ next h => ⟨h.state, h.delta, by rw [h.log, hlog]⟩
  refine Spec.restoring _ hsaved ?_ fun next h => h
  intro error next h
  obtain ⟨hstate, hdelta⟩ := hundo next h.state h.delta
  exact ⟨hstate, hdelta⟩

end Primitives

section Operations

variable {config : Config} (env : Surroundings config) (world : World)

/-- The draft of a submission that changed the queue. -/
def submissionDraft (submissionId : String) (pendingMessages : List QueuedMessage)
    (events : List EventMsg) : Commit :=
  draft (onState (fun state => { state with pendingMessages := pendingMessages }) world)
    (events.map (turnEvent submissionId)) none

theorem persistSubmissionChange_spec (submissionId : String)
    (pendingMessages : List QueuedMessage) (events : List EventMsg) :
    Spec (Same world) (persistSubmissionChange env submissionId pendingMessages events)
      (fun _ => Saved world (submissionDraft world submissionId pendingMessages events))
      (Failing (Kept world)) := by
  refine Spec.bind getState_spec fun previous => Spec.given ?_
  rintro rfl
  refine Spec.bind (modifyState_spec _) fun _ => ?_
  refine restoring_persist_spec env _ _ _ _ none rfl ?_
  intro next hstate hdelta
  exact ⟨by simp only [onState, hstate], hdelta⟩

/-- The draft of a discarded response. -/
def retryDraft (events : List Event) : Commit :=
  draft (onState (fun state => { state with activeModelStep := none }) world) events none

theorem modelStepCompletedEvent_spec (submissionId : String) (started : StartedStep)
    (outcome : ModelStepOutcome) (diagnostics : Option Json) :
    Spec (Same world) (modelStepCompletedEvent env submissionId started outcome diagnostics)
      (fun _ => Same world) (Failing (Same world)) := by
  refine Spec.bind (askOk_spec env.clock fun error next hnext => hnext) fun now =>
    Spec.given fun _ => ?_
  refine Spec.bind getState_spec fun state => Spec.given fun _ => ?_
  exact Spec.pure fun next hnext => hnext

theorem modelStepTerminalEvents_spec (submissionId : String) (started : StartedStep)
    (outcome : ModelStepOutcome) :
    Spec (Same world) (modelStepTerminalEvents env submissionId started outcome)
      (fun _ => Same world) (Failing (Same world)) := by
  refine Spec.bind (askOk_spec env.interrupted fun error next hnext => hnext) fun interrupted =>
    Spec.given fun _ => ?_
  refine Spec.bind (modelStepCompletedEvent_spec env world submissionId started outcome none)
    fun completed => ?_
  exact Spec.pure fun next hnext => hnext

theorem retryModelStep_spec (submissionId : String) (started : StartedStep) :
    Spec (Same world) (retryModelStep env submissionId started)
      (fun _ next => ∃ events, Saved world (retryDraft world events) next)
      (Failing (Kept world)) := by
  refine Spec.bind ((modelStepTerminalEvents_spec env world submissionId started .retrying).weaken
    (fun _ h => h) (fun _ _ h => h) (Failing.mono fun _ h => h.kept)) fun events => ?_
  refine Spec.bind getState_spec fun previous => Spec.given ?_
  rintro rfl
  refine Spec.bind (modifyState_spec _) fun _ => ?_
  have hsave := restoring_persist_spec env world
    (onState (fun state => { state with activeModelStep := none }) world)
    (onState fun state => { state with activeModelStep := world.state.activeModelStep })
    events none rfl ?_
  · exact hsave.mono fun _ next h => ⟨events, h⟩
  · intro next hstate hdelta
    exact ⟨by simp only [onState, hstate], hdelta⟩

def idleDraft (submissionId turnId : String) (startedAtMs : Int) (events : List Event) : Commit :=
  draft (onState (fun state =>
    { state with
      activeExecution := some
        ⟨submissionId, .user, turnId, startedAtMs, 0, 0, 0, {}, 0, false, .model, true⟩ }) world)
    events none

theorem beginTurn_spec (submissionId turnId : String) (author : MessageAuthor) :
    Spec (Same world) (beginTurn env submissionId turnId author)
      (fun _ next => world.state.activeExecution = none ∧ ∃ startedAtMs : Nat,
        Same (onState (fun state =>
          { state with
            activeExecution := some ⟨submissionId, author, turnId, startedAtMs, 0, 0, 0, {}, 0,
              false, .model, false⟩ }) world) next)
      (Failing (Same world)) := by
  refine Spec.bind getState_spec fun state => Spec.given ?_
  rintro rfl
  cases hactive : world.state.activeExecution with
  | some active => exact Spec.fail fun next hnext => hnext
  | none =>
    refine Spec.bind (askOk_spec env.clock fun error next hnext => hnext) fun startedAtMs =>
      Spec.given fun _ => ?_
    exact Spec.modify _ fun next hnext => ⟨rfl, startedAtMs, hnext.onState _⟩

theorem beginIdleTurn_spec (submissionId turnId : String) :
    Spec (Same world) (beginIdleTurn env submissionId turnId)
      (fun _ next => world.state.activeExecution = none ∧ ∃ (startedAtMs : Nat) (window : Int),
        Saved world (idleDraft world submissionId turnId startedAtMs
          [turnStartedEvent window submissionId true turnId]) next)
      (Failing (Kept world)) := by
  refine Spec.bind get_spec fun before => Spec.given fun _ => ?_
  refine Spec.bind ((beginTurn_spec env world submissionId turnId .user).weaken
    (fun _ h => h) (fun _ _ h => h) (Failing.mono fun _ h => h.kept)) fun _ => ?_
  refine Spec.given fun hidle => Spec.forWitness fun startedAtMs => ?_
  refine Spec.bind (modifyState_spec _) fun _ => ?_
  have hsave := restoring_persist_spec env world
    (onState (fun state => { state with
      activeExecution := some
        ⟨submissionId, .user, turnId, startedAtMs, 0, 0, 0, {}, 0, false, .model, true⟩ }) world)
    (onState fun state => { state with activeExecution := none })
    [turnStartedEvent before.contextWindow submissionId true turnId] none rfl ?_
  · exact hsave.mono fun _ next h => ⟨hidle, startedAtMs, before.contextWindow, h⟩
  · intro next hstate hdelta
    refine ⟨?_, hdelta⟩
    simp only [onState, hstate]
    rw [← hidle]

/-- The counters of the running execution, and the total usage, after more work. -/
def account (modelCalls toolCalls failedToolCalls : Nat) (usage : TokenUsage)
    (state : Checkpoint) : Checkpoint :=
  { state with
    totalUsage := state.totalUsage.sum usage
    activeExecution := state.activeExecution.map fun active =>
      { active with
        modelCalls := active.modelCalls + modelCalls
        toolCalls := active.toolCalls + toolCalls
        failedToolCalls := active.failedToolCalls + failedToolCalls
        usage := active.usage.sum usage } }

def totalOf (usages : List TokenUsage) : TokenUsage := usages.foldr TokenUsage.sum {}

theorem account_zero (state : Checkpoint) : account 0 0 0 {} state = state := by
  have hsame : state.activeExecution.map (fun active =>
      { active with
        modelCalls := active.modelCalls + 0
        toolCalls := active.toolCalls + 0
        failedToolCalls := active.failedToolCalls + 0
        usage := active.usage.sum {} }) = state.activeExecution := by
    cases state.activeExecution with
    | none => rfl
    | some active => simp only [Option.map_some, Nat.add_zero, TokenUsage.sum_default]
  rw [account, hsame, TokenUsage.sum_default]

theorem account_account (m t f m' t' f' : Nat) (u u' : TokenUsage) (state : Checkpoint) :
    account m' t' f' u' (account m t f u state) =
      account (m + m') (t + t') (f + f') (u.sum u') state := by
  unfold account
  simp only [TokenUsage.sum_assoc, Option.map_map, Function.comp_def, Nat.add_assoc]

theorem recordTools_spec (toolCalls failedToolCalls : Nat) :
    Spec (Same world) (recordTools toolCalls failedToolCalls)
      (fun _ next => world.state.activeExecution.isSome ∧
        Same (onState (account 0 toolCalls failedToolCalls {}) world) next)
      (Failing (Same world)) := by
  refine Spec.bind (activeExecution_spec _ fun error next hnext => hnext) fun active =>
    Spec.given fun hactive => ?_
  cases hcalls : checkedAdd active.toolCalls toolCalls with
  | none => exact Spec.fail fun next hnext => hnext
  | some calls =>
    cases hfailed : checkedAdd active.failedToolCalls failedToolCalls with
    | none => exact Spec.fail fun next hnext => hnext
    | some failed =>
      refine Spec.modify _ fun next hnext => ⟨by rw [hactive]; rfl, ?_⟩
      have hstate := hnext.onState fun state =>
        { state with
          activeExecution := some { active with toolCalls := calls, failedToolCalls := failed } }
      refine ⟨hstate.state.trans ?_, hstate.delta, hstate.log⟩
      simp only [onState, account, hactive, Option.map_some, TokenUsage.sum_default, Nat.add_zero,
        checkedAdd_eq_some hcalls, checkedAdd_eq_some hfailed]

theorem recordUsage_spec (usage : TokenUsage) :
    Spec (Same world) (recordUsage env usage)
      (fun _ next => world.state.activeExecution.isSome ∧
        Same (onState (account 0 0 0 usage) world) next) (Failing (Same world)) := by
  refine Spec.bind getState_spec fun state => Spec.given ?_
  rintro rfl
  cases htotal : world.state.totalUsage.checkedSum usage with
  | none => exact Spec.fail fun next hnext => hnext
  | some totalUsage =>
    refine Spec.bind (activeExecution_spec _ fun error next hnext => hnext) fun active =>
      Spec.given fun hactive => ?_
    cases husage : active.usage.checkedSum usage with
    | none => exact Spec.fail fun next hnext => hnext
    | some executionUsage =>
      refine Spec.bind (askOk_spec env.service fun error next hnext => hnext) fun _ =>
        Spec.given fun _ => ?_
      refine Spec.modify _ fun next hnext => ⟨by rw [hactive]; rfl, ?_⟩
      have hstate := hnext.onState fun state =>
        { state with
          totalUsage := totalUsage
          activeExecution := some { active with usage := executionUsage } }
      refine ⟨hstate.state.trans ?_, hstate.delta, hstate.log⟩
      simp only [onState, account, hactive, Option.map_some, Nat.add_zero,
        TokenUsage.checkedSum_eq_some htotal, TokenUsage.checkedSum_eq_some husage]

theorem recordUsages_spec (usages : List TokenUsage) :
    Spec (Same world) (recordUsages env usages)
      (fun _ => Same (onState (account 0 0 0 (totalOf usages)) world))
      (Failing fun next => ∃ usage, Same (onState (account 0 0 0 usage) world) next) := by
  induction usages generalizing world with
  | nil =>
    refine Spec.pure fun next hnext => ?_
    simpa only [totalOf, List.foldr_nil, onState, account_zero] using hnext
  | cons usage rest ih =>
    refine Spec.bind ((recordUsage_spec env world usage).weaken (fun _ h => h)
      (fun _ _ h => h.2) (Failing.mono fun next h => ⟨{}, ?_⟩)) fun _ => ?_
    · simpa only [onState, account_zero] using h
    · have hrest := ih (onState (account 0 0 0 usage) world)
      refine hrest.weaken (fun _ h => h) ?_ (Failing.mono ?_)
      · intro _ next hnext
        simpa only [onState, account_account, totalOf, List.foldr_cons] using hnext
      · rintro next ⟨more, hnext⟩
        refine ⟨usage.sum more, ?_⟩
        simpa only [onState, account_account] using hnext

def closing (record : ExecutionRecord) (state : Checkpoint) : Checkpoint :=
  { state with
    activeExecution := none
    executionStats := state.executionStats.sum (.ofRecord record) }

structure Ends (state : Checkpoint) (outcome : ExecutionOutcome) (record : ExecutionRecord) :
    Prop where
  step : state.activeModelStep = none
  active : ∃ (active : ActiveExecution) (finishedAtMs : Nat),
    state.activeExecution = some active ∧
      record = active.finish state.sessionId outcome finishedAtMs

theorem finishExecution_spec (outcome : ExecutionOutcome) :
    Spec (Same world) (finishExecution env outcome)
      (fun record next => Ends world.state outcome record ∧
        Same (onState (closing record) world) next) (Failing (Same world)) := by
  refine Spec.bind (askOk_spec env.clock fun error next hnext => hnext) fun finishedAtMs =>
    Spec.given fun _ => ?_
  refine Spec.bind getState_spec fun state => Spec.given ?_
  rintro rfl
  rcases hfinished : world.state.finishExecution outcome finishedAtMs with ⟨result, finished⟩
  cases result with
  | error error => exact Spec.fail fun next hnext => hnext
  | ok record =>
    obtain ⟨hstep, active, hactive, hrecord, rfl⟩ := finishExecution_ok hfinished
    refine Spec.bind (modifyState_spec _) fun _ => Spec.pure fun next hnext => ?_
    exact ⟨⟨hstep, active, finishedAtMs, hactive, hrecord⟩, hnext⟩

def finishDraft (record : ExecutionRecord) (events : List Event) : Commit :=
  draft (onState (closing record) world) events (some record)

theorem finishAndPersistExecution_spec (outcome : ExecutionOutcome) (events : List Event) :
    Spec (Same world) (finishAndPersistExecution env outcome events)
      (fun _ next => ∃ record, Ends world.state outcome record ∧
        Saved world (finishDraft world record events) next)
      (Failing (Kept world)) := by
  refine Spec.bind getState_spec fun previous => Spec.given ?_
  rintro rfl
  refine Spec.bind ((finishExecution_spec env world outcome).weaken (fun _ h => h)
    (fun _ _ h => h) (Failing.mono fun _ h => h.kept)) fun record => ?_
  refine Spec.given fun hends => ?_
  have hsave := restoring_persist_spec env world
    (onState (closing record) world)
    (onState fun state => { state with
      activeExecution := world.state.activeExecution
      executionStats := world.state.executionStats })
    events (some record) rfl ?_
  · exact hsave.mono fun _ next h => ⟨record, hends, h⟩
  · intro next hstate hdelta
    exact ⟨by simp only [onState, closing, hstate], hdelta⟩

/-- The world with more items in its context and transcript. -/
def extended (items : List Json × GuidanceReceipts.Receipts) (world : World) : World :=
  { world with
    state := { world.state with
      context := world.state.context ++ items.1
      deliveredOnce := items.2 }
    transcriptDelta := world.transcriptDelta ++ items.1 }

/-- The items of results in the context, and the receipts after them. -/
def resultItems (encoding : Encoding) (receipts : GuidanceReceipts.Receipts) :
    List ToolResult → List Json × GuidanceReceipts.Receipts
  | [] => ([], receipts)
  | result :: rest =>
    let kept := GuidanceReceipts.acceptAll receipts result.additionalInput
    let later := resultItems encoding kept.2 rest
    (toolOutput encoding result.callId result.output result.isError :: (kept.1 ++ later.1),
      later.2)

variable {next : World} {stopped : Stop Error → World → Prop} {staging : Staging}

theorem Same.extended {world : World} (h : Same world next)
    (items : List Json × GuidanceReceipts.Receipts) :
    Same (extended items world) (extended items next) := by
  constructor
  · simp only [AgentTransactions.extended, h.state]
  · simp only [AgentTransactions.extended, h.delta]
  · exact h.log

theorem extended_extended (first second : List Json × GuidanceReceipts.Receipts) (world : World) :
    extended second (extended first world) = extended (first.1 ++ second.1, second.2) world := by
  simp only [extended, List.append_assoc]

theorem pushContext_spec (item : Json) :
    Spec (Same world) (pushContext item)
      (fun _ => Same (extended ([item], world.state.deliveredOnce) world)) stopped := by
  refine Spec.modify _ fun next hnext => ?_
  have hextended := hnext.extended ([item], world.state.deliveredOnce)
  refine ⟨?_, hextended.delta, hextended.log⟩
  rw [← hextended.state]
  simp only [extended, hnext.state]

theorem extendContext_spec (items : List Json) :
    Spec (Same world) (extendContext items)
      (fun _ => Same (extended (GuidanceReceipts.acceptAll world.state.deliveredOnce items) world))
      stopped := by
  refine Spec.modify _ fun next hnext => ?_
  have hitems : GuidanceReceipts.acceptAll world.state.deliveredOnce items =
      GuidanceReceipts.acceptAll next.state.deliveredOnce items := by rw [hnext.state]
  rw [hitems]
  exact hnext.extended _

theorem resultItems_received (encoding : Encoding) (receipts : GuidanceReceipts.Receipts)
    (results : List ToolResult) :
    GuidanceReceipts.Received receipts (resultItems encoding receipts results).1
      (resultItems encoding receipts results).2 := by
  induction results generalizing receipts with
  | nil => exact .plain (by simp [resultItems]) receipts
  | cons result rest ih =>
    have houtput : GuidanceReceipts.Received receipts
        [toolOutput encoding result.callId result.output result.isError] receipts :=
      .plain (by simp [identity_toolOutput]) receipts
    have hkept := GuidanceReceipts.acceptAll_received receipts result.additionalInput
    have hlater := ih (GuidanceReceipts.acceptAll receipts result.additionalInput).2
    exact houtput.append (hkept.append hlater)

theorem pushResults_spec (encoding : Encoding) (results : List ToolResult) :
    Spec (Same world) (pushResults encoding results)
      (fun _ => Same (extended (resultItems encoding world.state.deliveredOnce results) world))
      stopped := by
  induction results generalizing world with
  | nil =>
    refine Spec.pure fun next hnext => ?_
    simpa only [resultItems, extended, List.append_nil] using hnext
  | cons result rest ih =>
    refine Spec.bind (pushContext_spec world _) fun _ => ?_
    refine Spec.bind (extendContext_spec _ _) fun _ => ?_
    refine (ih _).mono fun _ next hnext => ?_
    simp only [extended_extended] at hnext
    exact hnext

/-- The world with the results of calls, before they are saved. -/
def answered (encoding : Encoding) (results : List ToolResult) (world : World) : World :=
  extended (resultItems encoding world.state.deliveredOnce results)
    (onState (fun state =>
      { account 0 results.length (results.filter (·.isError)).length
          (totalOf ((results.filterMap (·.usage)).map Prod.snd)) state with
        pendingTools := state.pendingTools.filter fun call =>
          !(results.map (·.callId)).contains call.callId }) world)

/-- A world whose results were partly recorded: everything `persist_tool_results` undoes. -/
structure PartlyAnswered (world next : World) : Prop where
  state : ∃ total execution tools items receipts,
    next.state = { world.state with
      totalUsage := total
      activeExecution := execution
      pendingTools := tools
      context := world.state.context ++ items
      deliveredOnce := receipts } ∧
    execution.map (restoreCounters world.state.activeExecution) = world.state.activeExecution ∧
    GuidanceReceipts.Received world.state.deliveredOnce items receipts
  delta : world.transcriptDelta <+: next.transcriptDelta

theorem restoreCounters_account (toolCalls failedToolCalls : Nat) (usage : TokenUsage)
    (state : Checkpoint) :
    (account 0 toolCalls failedToolCalls usage state).activeExecution.map
      (restoreCounters state.activeExecution) = state.activeExecution := by
  unfold account
  cases state.activeExecution with
  | none => rfl
  | some active => simp only [Option.map_some, restoreCounters, Nat.add_zero]

theorem PartlyAnswered.ofAccount {world : World} {toolCalls failedToolCalls : Nat}
    {usage : TokenUsage}
    (h : Same (onState (account 0 toolCalls failedToolCalls usage) world) next) :
    PartlyAnswered world next := by
  constructor
  · refine ⟨world.state.totalUsage.sum usage, _, world.state.pendingTools, [],
      world.state.deliveredOnce, ?_,
      restoreCounters_account toolCalls failedToolCalls usage world.state, .plain (by simp) _⟩
    rw [h.state]
    simp only [onState, account, List.append_nil]
  · rw [h.delta]
    exact List.prefix_refl _

theorem PartlyAnswered.ofAnswered {encoding : Encoding} {results : List ToolResult}
    {world : World} (hstate : next.state = (answered encoding results world).state)
    (hdelta : next.transcriptDelta = (answered encoding results world).transcriptDelta) :
    PartlyAnswered world next := by
  constructor
  · refine ⟨_, _, _, _, _, hstate, ?_, resultItems_received encoding world.state.deliveredOnce results⟩
    exact restoreCounters_account _ _ _ world.state
  · rw [hdelta]
    exact List.prefix_append _ _

theorem undoToolResults_state {world previous : World} (hprevious : Same world previous)
    (h : PartlyAnswered world next) :
    (undoToolResults previous next).state = world.state ∧
      (undoToolResults previous next).transcriptDelta = world.transcriptDelta := by
  obtain ⟨total, execution, tools, items, receipts, hstate, hexecution, hreceived⟩ := h.state
  constructor
  · simp only [undoToolResults, hprevious.state, hstate, List.drop_left, List.take_left,
      GuidanceReceipts.rollback_received hreceived, hexecution]
  · simp only [undoToolResults, hprevious.delta]
    exact List.prefix_iff_eq_take.mp h.delta |>.symm

theorem appendToolResults_spec (results : List ToolResult) :
    Spec (Same world) (appendToolResults env results)
      (fun _ next => world.state.activeExecution.isSome ∧
        Same (answered config.encoding results world) next)
      (Failing (PartlyAnswered world)) := by
  refine Spec.bind ((recordTools_spec world _ _).weaken (fun _ h => h) (fun _ _ h => h)
    (Failing.mono fun next h => ?_)) fun _ => Spec.given fun hactive => ?_
  · have hzero : Same (onState (account 0 0 0 {}) world) next := by
      simpa only [onState, account_zero] using h
    exact .ofAccount hzero
  refine Spec.bind ((recordUsages_spec env _ _).weaken (fun _ h => h) (fun _ _ h => h)
    (Failing.mono fun next h => ?_)) fun _ => ?_
  · obtain ⟨usage, h⟩ := h
    simp only [onState, account_account] at h
    exact PartlyAnswered.ofAccount h
  refine Spec.bind (modifyState_spec _) fun _ => ?_
  refine (pushResults_spec _ config.encoding results).mono fun _ next hnext => ⟨hactive, ?_⟩
  have hadds (usage : TokenUsage) : TokenUsage.sum {} usage = usage := by
    rw [TokenUsage.sum_comm, TokenUsage.sum_default]
  simp only [onState, account_account, hadds, Nat.add_zero] at hnext
  exact hnext

theorem usageEvent_spec (submissionId : String) (accounting : Option TokenUsage)
    {stopped : Stop Error → World → Prop} :
    Spec (Same world) (usageEvent env submissionId accounting) (fun _ => Same world) stopped := by
  refine Spec.bind get_spec fun value => Spec.given fun _ => ?_
  refine Spec.bind (ask_spec env.breakdown) fun breakdown => Spec.given fun _ => ?_
  cases accounting.orElse fun _ => value.state.lastUsage with
  | none | some last => exact Spec.pure fun next hnext => hnext

theorem toolUsageEvent_spec (submissionId : String) (usage : Option TokenUsage) :
    Spec (Same world) (toolUsageEvent env submissionId usage) (fun _ => Same world) stopped := by
  unfold toolUsageEvent
  split
  · exact Spec.bind (usageEvent_spec env world submissionId usage) fun event =>
      Spec.pure fun next hnext => hnext
  · exact Spec.pure fun next hnext => hnext

def ToolDraft (encoding : Encoding) (results : List ToolResult) (commit : Commit) : Prop :=
  world.state.activeExecution.isSome ∧
    ∃ events, commit = draft (answered encoding results world) events none

theorem persistToolResults_spec (submissionId turnId : String) (completion : ToolCompletion) :
    Spec (Same world) (persistToolResults env submissionId turnId completion)
      (fun _ next => (completion.results = [] ∧ Same world next) ∨
        ∃ commit, ToolDraft world config.encoding completion.results commit ∧
          Saved world commit next)
      (Failing (Kept world)) := by
  unfold persistToolResults
  split
  · rename_i hempty
    refine Spec.pure fun next hnext => .inl ⟨?_, hnext⟩
    simp only [Bool.and_eq_true, List.isEmpty_iff] at hempty
    exact hempty.1
  refine Spec.bind (Spec.ofExcept (fun _ => Same world) (fun _ _ next hnext => hnext)
    fun error _ next hnext => hnext.kept) fun usage => ?_
  refine Spec.bind get_spec fun previous => Spec.given fun hprevious => ?_
  refine Spec.restoring (Failing (PartlyAnswered world)) ?_ ?_ fun _ h => h
  · refine Spec.bind (appendToolResults_spec env world completion.results) fun _ => ?_
    refine Spec.given fun hactive => ?_
    refine Spec.bind (toolUsageEvent_spec env _ submissionId usage) fun usageEvents => ?_
    refine (persistWithEvents_spec env _ none).weaken (fun _ h => h) ?_ (Failing.mono ?_)
    · intro _ next h
      exact .inr ⟨_, ⟨hactive, _, rfl⟩, h.state, h.delta, h.log⟩
    · exact fun next h => .ofAnswered h.state h.delta
  · intro error next h
    obtain ⟨hstate, hdelta⟩ := undoToolResults_state hprevious h
    exact ⟨hstate, hdelta⟩

theorem completeToolStep_spec (submissionId turnId : String) (completion : ToolCompletion) :
    let cleared := onState (fun state => { state with pendingApproval := none }) world
    Spec (Same world) (completeToolStep env submissionId turnId completion)
      (fun _ next => (completion.results = [] ∧ Same cleared next) ∨
        ∃ commit, ToolDraft cleared config.encoding completion.results commit ∧
          Saved world commit next)
      (Failing (Kept world)) := by
  intro cleared
  refine Spec.bind getState_spec fun previous => Spec.given ?_
  rintro rfl
  refine Spec.bind (modifyState_spec _) fun _ => ?_
  refine Spec.restoring _ ((persistToolResults_spec env cleared submissionId turnId completion).mono
    ?_) ?_ fun _ h => h
  · rintro _ next (h | ⟨commit, hcommit, h⟩)
    · exact .inl h
    · exact .inr ⟨commit, hcommit, h.state, h.delta, h.log⟩
  · intro error next h
    refine ⟨?_, h.delta⟩
    simp only [onState, h.state, cleared]

/-- The items of the pending calls whose response is unfinished. -/
def openCalls (encoding : Encoding) (state : Checkpoint) : List Json :=
  if state.activeModelStep.isSome then state.pendingTools.map (toolCallInput encoding) else []

/-- The items of the calls of an aborted turn: the calls themselves, if their response
is unfinished, and one result for each. -/
def cancelItems (config : Config) (reason : String) (state : Checkpoint) : List Json :=
  openCalls config.encoding state ++
  state.pendingTools.map fun call => toolOutput config.encoding call.callId
    [.text (config.capped ("execution interrupted; result unknown: " ++ reason))] true

/-- The world after the pending calls of an aborted turn were ended. -/
def cancelled (config : Config) (reason : String) (world : World) : World :=
  { world with
    state := { account 0 world.state.pendingTools.length world.state.pendingTools.length {}
        world.state with
      pendingTools := []
      context := world.state.context ++ cancelItems config reason world.state }
    transcriptDelta := world.transcriptDelta ++ cancelItems config reason world.state }

theorem resultItems_interrupted (config : Config) (receipts : GuidanceReceipts.Receipts)
    (calls : List ToolCall) (message : String) :
    resultItems config.encoding receipts (interruptedResults config calls message) =
      (calls.map fun call => toolOutput config.encoding call.callId
        [.text (config.capped message)] true, receipts) := by
  induction calls with
  | nil => rfl
  | cons call rest ih =>
    unfold interruptedResults at ih ⊢
    rw [List.map_cons, resultItems, errorResult, GuidanceReceipts.acceptAll_plain (by simp)]
    dsimp only
    rw [ih]
    rfl

theorem answered_interrupted (config : Config) (reason : String) :
    answered config.encoding (interruptedResults config world.state.pendingTools
        ("execution interrupted; result unknown: " ++ reason))
      (extended (openCalls config.encoding world.state, world.state.deliveredOnce)
        (onState (fun state => { state with pendingTools := [] }) world)) =
      cancelled config reason world := by
  have herrors : ((interruptedResults config world.state.pendingTools
      ("execution interrupted; result unknown: " ++ reason)).filter (·.isError)).length =
        world.state.pendingTools.length := by
    simp [interruptedResults, errorResult, List.filter_map, Function.comp_def]
  have husages : (interruptedResults config world.state.pendingTools
      ("execution interrupted; result unknown: " ++ reason)).filterMap (·.usage) = [] := by
    simp [interruptedResults, errorResult]
  have hlength : (interruptedResults config world.state.pendingTools
      ("execution interrupted; result unknown: " ++ reason)).length =
        world.state.pendingTools.length := by
    simp [interruptedResults]
  simp only [answered, resultItems_interrupted, herrors, husages, hlength, extended, onState,
    cancelled, cancelItems, List.filter_nil, List.map_nil, totalOf, List.foldr_nil, account,
    List.append_assoc]

/-- `finish_pending_tools` ends every pending call, or fails after the items it put
at the end of the transcript. -/
theorem finishPendingTools_spec (submissionId turnId reason : String) :
    Spec (Same world) (finishPendingTools env submissionId turnId reason)
      (fun _ => Same (cancelled config reason world))
      (Failing fun next => world.transcriptDelta <+: next.transcriptDelta) := by
  refine Spec.bind getState_spec fun state => Spec.given ?_
  rintro rfl
  refine Spec.bind (modifyState_spec _) fun _ => ?_
  have hcalls : Spec
      (Same (onState (fun state => { state with pendingTools := [] }) world))
      (recordStreamedCalls config.encoding world.state)
      (fun _ => Same (extended (openCalls config.encoding world.state, world.state.deliveredOnce)
        (onState (fun state => { state with pendingTools := [] }) world)))
      (Failing fun next => world.transcriptDelta <+: next.transcriptDelta) := by
    unfold recordStreamedCalls openCalls
    split
    · refine (extendContext_spec _ _).mono fun _ next hnext => ?_
      rwa [GuidanceReceipts.acceptAll_plain (by simp [identity_toolCallInput])] at hnext
    · refine Spec.pure fun next hnext => ?_
      simpa only [extended, List.append_nil, onState] using hnext
  refine Spec.bind hcalls fun _ => ?_
  dsimp only
  split
  · rename_i hempty
    refine Spec.pure fun next hnext => ?_
    have hnone : world.state.pendingTools = [] := by
      simpa [interruptedResults] using hempty
    have hopen : openCalls config.encoding world.state = [] := by
      simp [openCalls, hnone]
    simp only [cancelled, cancelItems, hopen, hnone, List.map_nil, List.length_nil, account_zero,
      List.append_nil]
    simpa only [hopen, extended, onState, List.append_nil] using hnext
  · refine Spec.bind ((appendToolResults_spec env _ _).weaken (fun _ h => h)
      (fun _ _ h => h) (Failing.mono fun next h => ?_)) fun _ => ?_
    · exact (List.prefix_append _ _).trans h.delta
    · refine Spec.given fun _ => Spec.pure fun next hnext => ?_
      rwa [answered_interrupted] at hnext

theorem turnEndEvents_spec (submissionId turnId : String) :
    Spec (Same world) (turnEndEvents env submissionId turnId)
      (fun _ => Same world) (Failing (Same world)) := by
  refine Spec.bind get_spec fun value => Spec.given fun _ => ?_
  split
  · exact Spec.pure fun next hnext => hnext
  refine Spec.bind (Spec.modify (fun _ => Same world) fun next hnext =>
    ⟨hnext.state, hnext.delta, hnext.log⟩) fun _ => ?_
  refine Spec.bind (askOk_spec env.turnEnd fun error next hnext => hnext) fun events =>
    Spec.given fun _ => ?_
  exact Spec.pure fun next hnext => hnext

def released (turnId : String) (outcome : ExecutionOutcome) : World :=
  onState (fun state =>
    { state with pendingMessages := finishMessageTurn state.pendingMessages turnId outcome }) world

theorem finishTurn_spec (submissionId turnId : String) (outcome : ExecutionOutcome)
    (terminal : EventMsg) (events : List Event) :
    Spec (Same world) (finishTurn env submissionId turnId outcome terminal events)
      (fun _ next => ∃ record endEvents, Ends (released world turnId outcome).state outcome record ∧
        Saved world (finishDraft (released world turnId outcome) record
          (events ++ endEvents ++ [turnEvent submissionId terminal])) next)
      (Failing (Kept (released world turnId outcome))) := by
  refine Spec.bind (modifyState_spec _) fun _ => ?_
  refine Spec.bind ((turnEndEvents_spec env _ submissionId turnId).weaken (fun _ h => h)
    (fun _ _ h => h) (Failing.mono fun _ h => h.kept)) fun endEvents => ?_
  refine (finishAndPersistExecution_spec env _ outcome _).mono ?_
  rintro _ next ⟨record, hrecord, h⟩
  exact ⟨record, endEvents, hrecord, h.state, h.delta, h.log⟩

def aborted (config : Config) (turnId reason : String) (outcome : ExecutionOutcome) : World :=
  released (onState (fun state => { state with activeModelStep := none, pendingApproval := none })
    (cancelled config reason world)) turnId outcome

def AbortDraft (config : Config) (submissionId turnId reason : String)
    (outcome : ExecutionOutcome) (events : List Event) (commit : Commit) : Prop :=
  ∃ record more idle, Ends (aborted world config turnId reason outcome).state outcome record ∧
    commit = finishDraft (aborted world config turnId reason outcome) record
      (events ++ more ++ [turnEvent submissionId (.turnAborted idle turnId reason)])

theorem abortWithEvents_spec (submissionId turnId reason : String) (outcome : ExecutionOutcome)
    (events : List Event) :
    Spec (Same world) (abortWithEvents env submissionId turnId reason outcome events)
      (fun _ next => ∃ commit,
        AbortDraft world config submissionId turnId reason outcome events commit ∧
          Saved world commit next)
      (Failing (Kept world)) := by
  refine Spec.bind get_spec fun previous => Spec.given fun hprevious => ?_
  refine Spec.restoring (Failing fun next => world.transcriptDelta <+: next.transcriptDelta)
    ?_ ?_ fun _ h => h
  · refine Spec.bind (finishPendingTools_spec env world submissionId turnId reason)
      fun toolEvents => ?_
    refine Spec.bind (modifyState_spec _) fun _ => ?_
    refine Spec.bind getState_spec fun state => Spec.given ?_
    rintro rfl
    refine (finishTurn_spec env _ submissionId turnId outcome _ _).weaken (fun _ h => h) ?_
      (Failing.mono ?_)
    · rintro _ next ⟨record, endEvents, hrecord, h⟩
      rw [List.append_assoc events] at h
      exact ⟨_, ⟨record, toolEvents ++ endEvents, _, hrecord, rfl⟩, h.state, h.delta, h.log⟩
    · intro next h
      rw [h.delta]
      exact List.prefix_append _ _
  · rintro error next hdelta
    refine ⟨hprevious.state, ?_⟩
    dsimp only
    rw [hprevious.delta]
    exact (List.prefix_iff_eq_take.mp hdelta).symm

def newExecution (submissionId : String) (author : MessageAuthor) (turnId : String)
    (startedAtMs : Nat) : ActiveExecution :=
  ⟨submissionId, author, turnId, startedAtMs, 0, 0, 0, {}, 0, false, .model, false⟩

/-- The world of a started turn whose message left the queue. -/
def begun (message : PreparedMessage) (turnId : String) (startedAtMs : Nat)
    (rest : List QueuedMessage) : World :=
  onState (fun state =>
    { state with
      pendingMessages := rest
      activeExecution := some
        (newExecution message.submissionId message.event.author turnId startedAtMs) }) world

theorem consumeMessage_spec (submissionId : String) :
    Spec (Same world) (consumeMessage submissionId)
      (fun consumed next => ∃ rest, consumeNextTurn world.state.pendingMessages submissionId =
          .ok (consumed.1, consumed.2, rest) ∧
        Same (onState (fun state => { state with pendingMessages := rest }) world) next)
      (Failing (Same world)) := by
  refine Spec.bind getState_spec fun state => Spec.given ?_
  rintro rfl
  refine Spec.bind (Spec.ofExcept (fun consumed next =>
      consumeNextTurn world.state.pendingMessages submissionId = .ok consumed ∧ Same world next)
    (fun _ hconsumed next hnext => ⟨hconsumed, hnext⟩) fun error _ next hnext => hnext) fun consumed => ?_
  obtain ⟨index, queued, rest⟩ := consumed
  refine Spec.given fun hconsumed => Spec.bind (modifyState_spec _) fun _ => ?_
  exact Spec.pure fun next hnext => ⟨rest, hconsumed, hnext⟩

theorem beginMessageTurn_spec (message : PreparedMessage) (turnId : String) {index : Nat}
    {queued : QueuedMessage} {rest : List QueuedMessage}
    (h : consumeNextTurn world.state.pendingMessages message.submissionId =
      .ok (index, queued, rest)) :
    Spec (Same (onState (fun state => { state with pendingMessages := rest }) world))
      (Proc.restoring (beginTurn env message.submissionId turnId message.event.author)
        (reinsertMessage index queued))
      (fun _ next => world.state.activeExecution = none ∧ ∃ startedAtMs,
        Same (begun world message turnId startedAtMs rest) next)
      (Failing (Same world)) := by
  obtain ⟨hqueued, hrest, _, _⟩ := consumeNextTurn_ok h
  refine Spec.restoring _ (beginTurn_spec env _ _ _ _) ?_ fun _ h => h
  intro error next hnext
  refine ⟨?_, hnext.delta, hnext.log⟩
  simp only [reinsertMessage, onState, hnext.state, hrest, insertIdx_eraseIdx_self hqueued]

def StartDraft (message : PreparedMessage) (turnId : String) (submitted : MessageSubmitResult)
    (commit : Commit) : Prop :=
  world.state.activeExecution = none ∧ ∃ index queued rest startedAtMs window,
    consumeNextTurn world.state.pendingMessages message.submissionId =
      .ok (index, queued, rest) ∧
    commit = draft (deliverMessage message submitted
        (prepareTurnInput world.state.context message.input)
        (begun world message turnId startedAtMs rest))
      (turnStartEvents window message turnId submitted ++
        [deliveredEvent message (world.state.sequence + 1) (1 + world.transcriptDelta.length)]) none

theorem undoMessageTurn_state {world previous : World} {message : PreparedMessage}
    {turnId : String} {submitted : MessageSubmitResult} {input : Json} {index : Nat}
    {queued : QueuedMessage} {startedAtMs : Nat} (hidle : world.state.activeExecution = none)
    (hqueued : world.state.pendingMessages[index]? = some queued)
    (hplain : GuidanceReceipts.identity input = none)
    (hprevious : Same (begun world message turnId startedAtMs
      (world.state.pendingMessages.eraseIdx index)) previous)
    (hstate : next.state = (deliverMessage message submitted input (begun world message turnId
      startedAtMs (world.state.pendingMessages.eraseIdx index))).state)
    (hdelta : next.transcriptDelta = world.transcriptDelta ++ [input]) :
    (undoMessageTurn index queued previous next).state = world.state ∧
      (undoMessageTurn index queued previous next).transcriptDelta = world.transcriptDelta := by
  have hinput (receipts : GuidanceReceipts.Receipts) :
      GuidanceReceipts.Received receipts [input] receipts :=
    .plain (by simp [hplain]) receipts
  have hreceived := (GuidanceReceipts.acceptAll_received world.state.deliveredOnce
    submitted.input).append (hinput _)
  have hfirst : (if world.state.firstUserMessage.isSome then
      world.state.firstUserMessage.orElse fun _ => message.titleSeed else none) =
        world.state.firstUserMessage := by
    cases world.state.firstUserMessage with
    | none | some first => rfl
  constructor
  · simp only [undoMessageTurn, hprevious.state, hstate, begun, deliverMessage, onState,
      insertIdx_eraseIdx_self hqueued, List.append_assoc, List.drop_left, List.take_left,
      GuidanceReceipts.rollback_received hreceived, hfirst]
    rw [← hidle]
  · have hlength : previous.transcriptDelta.length = world.transcriptDelta.length := by
      rw [hprevious.delta]
      rfl
    simp only [undoMessageTurn, hdelta, hlength, List.take_left]

theorem acceptMessageTurn_spec (source : QueuedMessage) (turnId : String)
    (submitted : MessageSubmitResult) :
    let message := prepareMessage config.encoding source
    Spec (Same world) (acceptMessageTurn env message turnId submitted)
      (fun _ next => ∃ commit, StartDraft world message turnId submitted commit ∧
        Saved world commit next)
      (Failing (Kept world)) := by
  intro message
  refine Spec.bind get_spec fun before => Spec.given fun hbefore => ?_
  dsimp only
  rw [hbefore.state, hbefore.delta]
  cases hsequence : checkedAdd world.state.sequence 1 with
  | none => exact Spec.fail fun next hnext => hnext.kept
  | some sequence =>
    obtain rfl := checkedAdd_eq_some hsequence
    refine Spec.bind ((consumeMessage_spec world message.submissionId).weaken (fun _ h => h)
      (fun _ _ h => h) (Failing.mono fun _ h => h.kept)) fun consumed => ?_
    obtain ⟨index, queued⟩ := consumed
    refine Spec.forWitness fun rest => Spec.given fun hconsumed => ?_
    obtain ⟨hqueued, hrest, _, _⟩ := consumeNextTurn_ok hconsumed
    refine Spec.bind ((beginMessageTurn_spec env world message turnId hconsumed).weaken
      (fun _ h => h) (fun _ _ h => h) (Failing.mono fun _ h => h.kept)) fun _ => ?_
    refine Spec.given fun hidle => Spec.forWitness fun startedAtMs => ?_
    refine Spec.bind get_spec fun previous => Spec.given fun hprevious => ?_
    have hplain := identity_prepared config.encoding world.state.context source.event
    have hdeliver : Spec (Same (begun world message turnId startedAtMs rest))
        (Proc.modify (deliverMessage message submitted
          (prepareTurnInput world.state.context message.input)))
        (fun _ => Same (deliverMessage message submitted
          (prepareTurnInput world.state.context message.input)
          (begun world message turnId startedAtMs rest)))
        (Failing (Kept world)) := by
      refine Spec.modify _ fun next hnext => ?_
      refine ⟨?_, ?_, hnext.log⟩
      · simp only [deliverMessage, hnext.state]
      · simp only [deliverMessage, hnext.delta]
    refine Spec.bind hdeliver fun _ => ?_
    subst hrest
    have hsave := restoring_persist_spec env world
      (deliverMessage message submitted
        (prepareTurnInput world.state.context message.input)
        (begun world message turnId startedAtMs (world.state.pendingMessages.eraseIdx index)))
      (undoMessageTurn index queued previous)
      (turnStartEvents before.contextWindow message turnId submitted ++
        [deliveredEvent message (world.state.sequence + 1) (1 + world.transcriptDelta.length)])
      none rfl ?_
    · exact hsave.mono fun _ next h => ⟨_, ⟨hidle, index, queued, _, startedAtMs,
        before.contextWindow, hconsumed, rfl⟩, h⟩
    · intro next hstate hdelta
      exact undoMessageTurn_state hidle hqueued hplain hprevious hstate hdelta

def RejectDraft (config : Config) (message : PreparedMessage) (turnId : String)
    (submitted : MessageSubmitResult) (rejection : String) (commit : Commit) : Prop :=
  world.state.activeExecution = none ∧ ∃ index queued rest startedAtMs window,
    consumeNextTurn world.state.pendingMessages message.submissionId =
      .ok (index, queued, rest) ∧
    AbortDraft (begun world message turnId startedAtMs rest) config message.submissionId turnId
      rejection .aborted (turnStartEvents window message turnId submitted) commit

/-- What a rejected turn leaves behind when its save fails: its execution stays active. -/
structure LeftActive (message : PreparedMessage) (turnId : String) (next : World) : Prop where
  idle : world.state.activeExecution = none
  state : ∃ startedAtMs, next.state = { world.state with
    activeExecution := some
      (newExecution message.submissionId message.event.author turnId startedAtMs) }
  delta : next.transcriptDelta = world.transcriptDelta

theorem rejectMessageTurn_spec (message : PreparedMessage) (turnId : String)
    (submitted : MessageSubmitResult) (rejection : String) :
    Spec (Same world) (rejectMessageTurn env message turnId submitted rejection)
      (fun _ next => ∃ commit, RejectDraft world config message turnId submitted rejection commit ∧
        Saved world commit next)
      (Failing fun next => Same world next ∨ LeftActive world message turnId next) := by
  refine Spec.bind get_spec fun before => Spec.given fun hbefore => ?_
  refine Spec.bind ((consumeMessage_spec world message.submissionId).weaken (fun _ h => h)
    (fun _ _ h => h) (Failing.mono fun _ h => .inl h)) fun consumed => ?_
  obtain ⟨index, queued⟩ := consumed
  refine Spec.forWitness fun rest => Spec.given fun hconsumed => ?_
  obtain ⟨hqueued, hrest, _, _⟩ := consumeNextTurn_ok hconsumed
  refine Spec.bind ((beginMessageTurn_spec env world message turnId hconsumed).weaken
    (fun _ h => h) (fun _ _ h => h) (Failing.mono fun _ h => .inl h)) fun _ => ?_
  refine Spec.given fun hidle => Spec.forWitness fun startedAtMs => ?_
  refine Spec.restoring _ ((abortWithEvents_spec env _ message.submissionId turnId rejection .aborted
    _).mono ?_) ?_ fun _ h => h
  · rintro _ next ⟨commit, hcommit, h⟩
    exact ⟨commit, ⟨hidle, index, queued, rest, startedAtMs, before.contextWindow, hconsumed,
      hcommit⟩, h.state, h.delta, h.log⟩
  · intro error next h
    refine .inr ⟨hidle, ⟨startedAtMs, ?_⟩, h.delta⟩
    simp only [reinsertMessage, onState, h.state, begun, hrest, insertIdx_eraseIdx_self hqueued]

/-- The steered messages of a batch with the answers of the hooks. -/
def stageAll (encoding : Encoding) (sequence batchBefore : Nat) (idle : Bool) (staging : Staging)
    (batch : List (QueuedMessage × MessageSubmitResult)) : Staging :=
  batch.foldl (fun staging entry =>
    stageMessage sequence batchBefore idle staging (prepareMessage encoding entry.1) entry.2) staging

/-- The answers to a batch are answers of the hooks. -/
def Submitted (messages : List QueuedMessage) (batch : List (QueuedMessage × MessageSubmitResult)) :
    Prop :=
  batch.map Prod.fst = messages ∧ ∀ entry ∈ batch, ∃ tick, env.messageSubmit tick = .ok entry.2

theorem stageMessages_spec (sequence batchBefore : Nat) (idle : Bool) (staging : Staging)
    (messages : List QueuedMessage) :
    Spec (Same world) (stageMessages env sequence batchBefore idle staging messages)
      (fun result next => (∃ batch, Submitted env messages batch ∧
        result = stageAll config.encoding sequence batchBefore idle staging batch) ∧
          Same world next) (Failing (Same world)) := by
  induction messages generalizing staging with
  | nil => exact Spec.pure fun next hnext => ⟨⟨[], ⟨rfl, by simp⟩, rfl⟩, hnext⟩
  | cons queued rest ih =>
    refine Spec.bind (activeExecution_spec _ fun error next hnext => hnext) fun active =>
      Spec.given fun _ => ?_
    refine Spec.bind (askOk_spec env.messageSubmit fun error next hnext => hnext) fun submitted =>
      Spec.given fun hsubmitted => ?_
    refine (ih _).mono ?_
    rintro result next ⟨⟨batch, ⟨hmessages, hanswers⟩, hresult⟩, hnext⟩
    refine ⟨⟨(queued, submitted) :: batch, ⟨?_, ?_⟩, hresult⟩, hnext⟩
    · rw [List.map_cons, hmessages]
    · exact List.forall_mem_cons.mpr ⟨hsubmitted, hanswers⟩

/-- What a staged batch keeps of the world it starts from. -/
structure StagedOn (context : List Json) (idle : Bool) (staging : Staging) : Prop where
  context : context <+: staging.context
  origin : staging.idleOrigin.isSome → idle = true ∧ staging.transcript ≠ []

theorem StagedOn.stageMessage {context : List Json} {idle : Bool}
    (h : StagedOn context idle staging) (sequence batchBefore : Nat) (message : PreparedMessage)
    (submitted : MessageSubmitResult) :
    StagedOn context idle (stageMessage sequence batchBefore idle staging message submitted) := by
  unfold AgentPreparation.stageMessage
  cases submitted.rejection with
  | some rejection => exact ⟨h.context, h.origin⟩
  | none =>
    constructor
    · dsimp only
      rw [List.append_assoc]
      exact h.context.trans (List.prefix_append _ _)
    · intro horigin
      refine ⟨?_, by simp⟩
      cases hbefore : staging.idleOrigin with
      | some origin => exact (h.origin (by rw [hbefore]; rfl)).1
      | none =>
        cases idle with
        | true => rfl
        | false => simp [hbefore] at horigin

theorem StagedOn.stageAll {context : List Json} {idle : Bool} (h : StagedOn context idle staging)
    (encoding : Encoding) (sequence batchBefore : Nat)
    (batch : List (QueuedMessage × MessageSubmitResult)) :
    StagedOn context idle (stageAll encoding sequence batchBefore idle staging batch) := by
  induction batch generalizing staging with
  | nil => exact h
  | cons entry rest ih => exact ih (h.stageMessage sequence batchBefore _ entry.2)

theorem demoteExecution_promote {state : Checkpoint}
    (h : staging.idleOrigin.isSome → isIdle state = true ∧ staging.transcript ≠ []) :
    (state.activeExecution.map (promoteExecution staging)).map
      (demoteExecution (!staging.transcript.isEmpty && isIdle state) staging
        state.activeExecution) = state.activeExecution := by
  unfold isIdle at h ⊢
  cases hactive : state.activeExecution with
  | none => rfl
  | some active =>
    rw [hactive] at h
    simp only [Option.map_some, Option.getD_some] at h ⊢
    refine congrArg some ?_
    unfold demoteExecution promoteExecution
    obtain ⟨context, receipts, transcript, events, origin⟩ := staging
    dsimp only at h ⊢
    obtain ⟨s, author, t, st, m, tc, f, u, n, sh, ph, idle⟩ := active
    cases origin with
    | none => cases transcript <;> cases idle <;> simp
    | some origin =>
      obtain ⟨hidle, htranscript⟩ := h rfl
      dsimp only at hidle
      subst hidle
      cases transcript with
      | nil => exact absurd rfl htranscript
      | cons item rest => simp

/-- The drafts of a steered batch. -/
def StagingDraft (turnId : String) (commit : Commit) : Prop :=
  ∃ batch window wasIdle,
    Submitted env (stageModelMessages world.state.pendingMessages turnId).1 batch ∧
    commit = draft (applyStaging (stageModelMessages world.state.pendingMessages turnId).2
        (stageAll config.encoding (world.state.sequence + 1) world.transcriptDelta.length
          (isIdle world.state) ⟨world.state.context, world.state.deliveredOnce, [], [], none⟩ batch)
        world)
      (stagedEvents window turnId wasIdle (stageAll config.encoding (world.state.sequence + 1)
        world.transcriptDelta.length (isIdle world.state)
        ⟨world.state.context, world.state.deliveredOnce, [], [], none⟩ batch)) none

theorem stageMessageInput_spec (turnId : String) :
    Spec (Same world) (stageMessageInput env turnId)
      (fun _ next => ((stageModelMessages world.state.pendingMessages turnId).1 = [] ∧
          Same world next) ∨
        ∃ commit, StagingDraft env world turnId commit ∧ Saved world commit next)
      (Failing (Kept world)) := by
  refine Spec.bind get_spec fun value => Spec.given fun hvalue => ?_
  dsimp only
  rw [hvalue.state, hvalue.delta]
  split
  · rename_i hempty
    exact Spec.pure fun next hnext => .inl ⟨List.isEmpty_iff.mp hempty, hnext⟩
  cases hsequence : checkedAdd world.state.sequence 1 with
  | none => exact Spec.fail fun next hnext => hnext.kept
  | some sequence =>
    obtain rfl := checkedAdd_eq_some hsequence
    refine Spec.bind ((stageMessages_spec env world _ _ _ _ _).weaken (fun _ h => h)
      (fun _ _ h => h) (Failing.mono fun _ h => h.kept)) fun staging => ?_
    refine Spec.given ?_
    rintro ⟨batch, hbatch, hstaging⟩
    have hstaged : StagedOn world.state.context (isIdle world.state) staging := by
      have hstart : StagedOn world.state.context (isIdle world.state)
          ⟨world.state.context, world.state.deliveredOnce, [], [], none⟩ :=
        ⟨List.prefix_refl _, by simp⟩
      rw [hstaging]
      exact hstart.stageAll _ _ _ _
    refine Spec.bind get_spec fun previous => Spec.given fun hprevious => ?_
    dsimp only
    rw [hprevious.state]
    have happly : Spec (Same world)
        (Proc.modify (applyStaging (stageModelMessages world.state.pendingMessages turnId).2 staging))
        (fun _ => Same (applyStaging (stageModelMessages world.state.pendingMessages turnId).2 staging
          world)) (Failing (Kept world)) := by
      refine Spec.modify _ fun next hnext => ?_
      refine ⟨?_, ?_, hnext.log⟩
      · simp only [applyStaging, hnext.state]
      · simp only [applyStaging, hnext.delta]
    refine Spec.bind happly fun _ => ?_
    have hdraft : StagingDraft env world turnId (draft (applyStaging
        (stageModelMessages world.state.pendingMessages turnId).2 staging world) (stagedEvents
          previous.contextWindow turnId (!staging.transcript.isEmpty && isIdle world.state) staging)
        none) := ⟨batch, previous.contextWindow, _, hbatch, by rw [← hstaging]⟩
    have hsave := restoring_persist_spec env world
      (applyStaging (stageModelMessages world.state.pendingMessages turnId).2 staging world)
      (undoStaging (!staging.transcript.isEmpty && isIdle world.state) staging previous)
      (stagedEvents previous.contextWindow turnId
        (!staging.transcript.isEmpty && isIdle world.state) staging) none rfl ?_
    · refine Spec.bind hsave fun _ => ?_
      exact Spec.modify _ fun next h => .inr ⟨_, hdraft, h.state, h.delta, h.log⟩
    · intro next hstate hdelta
      refine ⟨?_, ?_⟩
      · have hcontext := (List.prefix_iff_eq_take.mp hstaged.context).symm
        simp only [undoStaging, hstate, applyStaging, hprevious.state, hcontext,
          demoteExecution_promote hstaged.origin]
      · simp only [undoStaging, hdelta, applyStaging, hprevious.delta, List.take_left]

end Operations

end MobiusAgent.AgentTransactions
