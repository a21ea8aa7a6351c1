import MobiusAgent.AgentTransactions

/-!
# What a rejected save leaves behind

The operations that change the live checkpoint, save it and undo the change
by hand when the store rejects the save. Eight of them restore the live state
exactly. The ninth, the start of a turn with a message, restores it when the
hooks accepted the message; when a hook rejected it, the execution that was
started for the rejection stays active.
-/

namespace MobiusAgent.AgentRollback

open JsonValue ProtocolEvents CheckpointRecords CheckpointValidation ContextItems MessageQueue
  AgentWorld AgentAccounting AgentInput AgentTools AgentTurn AgentPreparation AgentModelStep
  AgentTransactions EffectLogic

/-- The operations that undo a rejected save. -/
inductive Operation where
  | persistSubmissionChange (submissionId : String) (pendingMessages : List QueuedMessage)
      (events : List EventMsg)
  /-- `start_message_turn` with a queued message, up to the save of the turn's start. -/
  | startMessageTurn (queued : QueuedMessage)
  | stageMessageInput (turnId : String)
  | persistToolResults (submissionId turnId : String) (completion : ToolCompletion)
  | completeToolStep (submissionId turnId : String) (completion : ToolCompletion)
  | retryModelStep (submissionId : String) (started : StartedStep)
  | abortWithEvents (submissionId turnId reason : String) (outcome : ExecutionOutcome)
      (events : List Event)
  /-- `run_idle_turn`, up to the save of the turn's start. -/
  | runIdleTurn
  | finishAndPersistExecution (outcome : ExecutionOutcome) (events : List Event)

section Operations

variable {config : Config} (env : Surroundings config)

/-- `run_idle_turn` up to its save. -/
def openIdleTurn : Agent Unit := do
  let submissionId ← ask env.uuid
  let turnId ← ask env.uuid
  beginIdleTurn env submissionId turnId

/-- `start_message_turn` up to its save, with its turn left out. -/
def openTurn (queued : QueuedMessage) : Agent Unit := do
  let _ ← openMessageTurn env (prepareMessage config.encoding queued)
  pure ()

def perform : Operation → Agent Unit
  | .persistSubmissionChange submissionId pendingMessages events =>
    persistSubmissionChange env submissionId pendingMessages events
  | .startMessageTurn queued => openTurn env queued
  | .stageMessageInput turnId => stageMessageInput env turnId
  | .persistToolResults submissionId turnId completion =>
    persistToolResults env submissionId turnId completion
  | .completeToolStep submissionId turnId completion =>
    completeToolStep env submissionId turnId completion
  | .retryModelStep submissionId started => retryModelStep env submissionId started
  | .abortWithEvents submissionId turnId reason outcome events =>
    abortWithEvents env submissionId turnId reason outcome events
  | .runIdleTurn => openIdleTurn env
  | .finishAndPersistExecution outcome events => finishAndPersistExecution env outcome events

/-- The store rejected the save of an operation, which returned the error. -/
structure SaveRejected (op : Operation) (world next : World) : Prop where
  failed : ∃ error, perform env op world = (.error (.failed error), next)
  offered : ∃ checkpoint execution, next.log = .offered checkpoint execution :: world.log

/-- The whole live checkpoint and the waiting transcript items are as before. -/
structure Restored (world next : World) : Prop where
  state : next.state = world.state
  delta : next.transcriptDelta = world.transcriptDelta

/-- The operation starts a turn with a message that a hook rejects. The hooks answer
after the identifier of the turn was drawn. -/
def HookRejects (op : Operation) (world : World) : Prop :=
  match op with
  | .startMessageTurn _ => ∃ submitted rejection,
      env.messageSubmit (world.tick + 1) = .ok submitted ∧ submitted.rejection = some rejection
  | _ => False

variable {error : Error} {world next : World}

theorem failed_of_spec {α : Type} {body : Agent α} {after : α → World → Prop}
    {failing : World → Prop} (h : Spec (Same world) body after (Failing failing))
    (hrun : body world = (.error (.failed error), next)) : failing next := by
  have hbody := h world (.refl world)
  rw [hrun] at hbody
  exact hbody

theorem restored_of_kept (h : Kept world next) : Restored world next := ⟨h.state, h.delta⟩

theorem openIdleTurn_restores (h : openIdleTurn env world = (.error (.failed error), next)) :
    Restored world next := by
  have hspec : Spec (Same world) (openIdleTurn env) (fun _ _ => True)
      (Failing (Restored world)) := by
    refine Spec.bind (ask_spec env.uuid) fun submissionId => Spec.given fun _ => ?_
    refine Spec.bind (ask_spec env.uuid) fun turnId => Spec.given fun _ => ?_
    exact (beginIdleTurn_spec env world submissionId turnId).weaken (fun _ h => h)
      (fun _ _ _ => trivial) (Failing.mono fun _ h => restored_of_kept h)
  exact failed_of_spec hspec h

/-- The world after the identifier of a turn was drawn and the hooks answered. -/
def afterHooks (world : World) : World := { world with tick := world.tick + 2 }

theorem openTurn_run (queued : QueuedMessage) (world : World) :
    openTurn env queued world = match env.messageSubmit (world.tick + 1) with
      | .error error => (.error (.failed error), afterHooks world)
      | .ok submitted => match submitted.rejection with
        | some rejection => rejectMessageTurn env (prepareMessage config.encoding queued)
            (env.uuid world.tick) submitted rejection (afterHooks world)
        | none => acceptMessageTurn env (prepareMessage config.encoding queued)
            (env.uuid world.tick) submitted (afterHooks world) := by
  cases hanswer : env.messageSubmit (world.tick + 1) with
  | error error =>
    simp only [openTurn, openMessageTurn, askOk, ask, Proc.run_bind, hanswer, Proc.ofExcept,
      Proc.run_fail, afterHooks]
  | ok submitted =>
    cases hrejection : submitted.rejection with
    | some rejection =>
      simp only [openTurn, openMessageTurn, askOk, ask, Proc.run_bind, hanswer, Proc.ofExcept,
        Proc.ret, hrejection, afterHooks]
      generalize rejectMessageTurn env _ _ _ _ _ = result
      obtain ⟨outcome, next⟩ := result
      cases outcome <;> rfl
    | none =>
      simp only [openTurn, openMessageTurn, askOk, ask, Proc.run_bind, hanswer, Proc.ofExcept,
        Proc.ret, hrejection, afterHooks]
      generalize acceptMessageTurn env _ _ _ _ = result
      obtain ⟨outcome, next⟩ := result
      cases outcome <;> rfl

theorem openTurn_restores {queued : QueuedMessage}
    (haccepts : ¬HookRejects env (.startMessageTurn queued) world)
    (h : openTurn env queued world = (.error (.failed error), next)) : Restored world next := by
  rw [openTurn_run] at h
  cases hanswer : env.messageSubmit (world.tick + 1) with
  | error error =>
    rw [hanswer] at h
    cases h
    exact ⟨rfl, rfl⟩
  | ok submitted =>
    rw [hanswer] at h
    dsimp only at h
    cases hrejection : submitted.rejection with
    | some rejection => exact absurd ⟨submitted, rejection, hanswer, hrejection⟩ haccepts
    | none =>
      rw [hrejection] at h
      have hkept := failed_of_spec (acceptMessageTurn_spec env (afterHooks world) queued _ _) h
      exact ⟨hkept.state, hkept.delta⟩

theorem openTurn_leaves_active {queued : QueuedMessage}
    (hrejects : HookRejects env (.startMessageTurn queued) world)
    (h : openTurn env queued world = (.error (.failed error), next)) (hlog : next.log ≠ world.log) :
    next.state ≠ world.state := by
  obtain ⟨submitted, rejection, hanswer, hrejection⟩ := hrejects
  rw [openTurn_run, hanswer] at h
  dsimp only at h
  rw [hrejection] at h
  have hleft := failed_of_spec (rejectMessageTurn_spec env (afterHooks world) _ _ _ _) h
  rcases hleft with hsame | hleft
  · exact absurd hsame.log hlog
  · obtain ⟨startedAtMs, hstate⟩ := hleft.state
    intro hsame
    have hactive : world.state.activeExecution.isSome = true := by
      rw [← hsame, hstate]
      rfl
    have hidle : world.state.activeExecution = none := hleft.idle
    rw [hidle] at hactive
    cases hactive

/-- A rejected save restores the whole live state exactly when the operation is not the
start of a turn with a message that a hook rejects. -/
theorem rejected_save_restores_iff {op : Operation} {world next : World}
    (h : SaveRejected env op world next) : Restored world next ↔ ¬HookRejects env op world := by
  obtain ⟨error, hrun⟩ := h.failed
  cases op with
  | startMessageTurn queued =>
    constructor
    · intro hrestored hrejects
      obtain ⟨checkpoint, execution, hlog⟩ := h.offered
      have hne : next.log ≠ world.log := by
        rw [hlog]
        exact List.cons_ne_self _ _
      exact openTurn_leaves_active env hrejects hrun hne hrestored.state
    · exact fun haccepts => openTurn_restores env haccepts hrun
  | persistSubmissionChange submissionId pendingMessages events =>
    exact ⟨fun _ => id, fun _ =>
      restored_of_kept (failed_of_spec (persistSubmissionChange_spec env world _ _ _) hrun)⟩
  | stageMessageInput turnId =>
    exact ⟨fun _ => id, fun _ =>
      restored_of_kept (failed_of_spec (stageMessageInput_spec env world _) hrun)⟩
  | persistToolResults submissionId turnId completion =>
    exact ⟨fun _ => id, fun _ =>
      restored_of_kept (failed_of_spec (persistToolResults_spec env world _ _ _) hrun)⟩
  | completeToolStep submissionId turnId completion =>
    exact ⟨fun _ => id, fun _ =>
      restored_of_kept (failed_of_spec (completeToolStep_spec env world _ _ _) hrun)⟩
  | retryModelStep submissionId started =>
    exact ⟨fun _ => id, fun _ =>
      restored_of_kept (failed_of_spec (retryModelStep_spec env world _ _) hrun)⟩
  | abortWithEvents submissionId turnId reason outcome events =>
    exact ⟨fun _ => id, fun _ =>
      restored_of_kept (failed_of_spec (abortWithEvents_spec env world _ _ _ _ _) hrun)⟩
  | runIdleTurn => exact ⟨fun _ => id, fun _ => openIdleTurn_restores env hrun⟩
  | finishAndPersistExecution outcome events =>
    exact ⟨fun _ => id, fun _ =>
      restored_of_kept (failed_of_spec (finishAndPersistExecution_spec env world _ _) hrun)⟩

end Operations

/-- An agent without tools that delivers messages as they come. -/
def plainConfig : Config where
  sessionId := "session"
  contextWindow := 1000
  maxModelSteps := 10
  messages := ⟨10, .steer⟩
  ingress := ⟨⟨fun _ => true, fun _ => some 1⟩, fun _ => .ok (), fun _ => .ok 1, 100, 100⟩
  encoding := ⟨fun _ => .null, fun _ => .null, fun _ => .null, fun _ => "", fun _ => .null,
    fun _ => .ok ()⟩
  widget := fun _ _ => .null
  capped := id
  requiresApproval := fun _ => false
  cancelOnInput := fun _ => false
  sessionContext := { ownerId := "owner" }
  metadata := none
  catalogVisible := true
  modelRoute := some "route"
  fuel := 4

/-- Surroundings in which nothing happens and nothing fails. -/
def plainSurroundings : Surroundings plainConfig where
  clock := fun _ => .ok 0
  uuid := fun _ => "id"
  uuid_named := fun _ => by decide
  save := fun _ => .ok ()
  record := fun _ => .ok ()
  read := fun _ => .ok ()
  service := fun _ => .ok ()
  cutoff := fun _ => .ok 0
  inbox := fun _ => none
  ready := fun _ => true
  idle := fun _ => .closed
  activeCommand := fun _ => .ok (none, [])
  command := fun _ => .ok []
  resume := fun _ => .ok {}
  selectModel := fun _ => .ok ⟨"route", "model", none, none⟩
  messageSubmit := fun _ => .ok ⟨[], none, []⟩
  turnEnd := fun _ => .ok []
  prepareModel := fun _ => ⟨[], .ok none, [], []⟩
  sameContextModel := fun _ => true
  progress := fun _ => .response (.error (.provider "unavailable" false))
  interrupted := fun _ => .ok []
  retryLimit := fun _ => .ok 0
  fallbackTransport := fun _ => .ok false
  acceptMaterialized := fun _ => .ok ("", [])
  diagnostics := fun _ => .ok .null
  breakdown := fun _ => none
  bind := fun _ => .ok none
  preToolUse := fun _ => .ok ⟨[], [], none, []⟩
  postToolUse := fun _ => .ok ⟨none, [], []⟩
  approved := fun _ => .ok fun _ => true
  sandboxMode := .workspaceWrite
  networkAccess := .denied
  permissionRequest := fun _ => .ok ⟨none, []⟩
  toolOutcome := fun _ => ⟨[], false, none, true, [], []⟩
  streamedOutcome := fun _ => .ok ⟨[], false, none, true, [], []⟩
  stop := fun _ => .ok ⟨none, []⟩
  sessionStart := fun _ => .ok ⟨[], none, []⟩

/-- Surroundings with a full store and a hook that answers every message alike. -/
def fullStore (rejection : Option String) : Surroundings plainConfig :=
  { plainSurroundings with
    save := fun _ => .error .storageFull
    messageSubmit := fun _ => .ok ⟨[], rejection, []⟩ }

/-- One message of the user at the turn boundary. -/
def waitingMessage : QueuedMessage := ⟨messagesOwner, "message", .turn, .user, "hello", [], none⟩

/-- An idle world with one message in its queue. -/
def waitingWorld : World where
  state := { Checkpoint.empty "session" with pendingMessages := [waitingMessage] }
  transcriptDelta := []
  provider := "route"
  contextWindow := 1000
  pendingSessionStartStop := none
  turnEndTurnId := none
  idleSpent := false
  log := []
  tick := 0

/-- An accepted message is back in its queue, and no execution is active. -/
theorem rejected_save_restores_iff_accepted :
    ∃ next, SaveRejected (fullStore none) (.startMessageTurn waitingMessage) waitingWorld next ∧
      (Restored waitingWorld next ↔
        ¬HookRejects (fullStore none) (.startMessageTurn waitingMessage) waitingWorld) := by
  refine ⟨_, ⟨⟨_, rfl⟩, ⟨_, _, rfl⟩⟩, rejected_save_restores_iff _ ⟨⟨_, rfl⟩, ⟨_, _, rfl⟩⟩⟩

/-- A store that rejects the abort of a rejected message leaves its execution active. -/
theorem rejected_message_stays_active :
    ∃ next, SaveRejected (fullStore (some "no")) (.startMessageTurn waitingMessage) waitingWorld
      next ∧ ¬Restored waitingWorld next := by
  refine ⟨_, ⟨⟨_, rfl⟩, ⟨_, _, rfl⟩⟩, fun h => ?_⟩
  have hactive := congrArg (fun state => state.activeExecution.isSome) h.state
  exact absurd hactive (by decide)

end MobiusAgent.AgentRollback
