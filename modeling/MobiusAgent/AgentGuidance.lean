import MobiusAgent.AgentRollback

/-!
# Once-only guidance over runs

The hooks may mark an item as guidance that is delivered once. Whatever the
agent does, and whichever of its saves are rejected, its context grows at the
end only, and no guidance enters it a second time.
-/

namespace MobiusAgent.AgentGuidance

open JsonValue ProtocolEvents CheckpointRecords ContextItems AgentWorld AgentTurn AgentPreparation
  AgentTransactions AgentRollback GuidanceReceipts EffectLogic
open MessageQueue (prepareMessage)

section Steps

variable {config : Config} (env : Surroundings config) {world next : World}

/-- The context grew at its end by items that are new to the receipts and bring no identity
twice, and the receipts are those before and theirs. -/
def Grown (world next : World) : Prop :=
  ∃ items, next.state.context = world.state.context ++ items ∧
    Once world.state.deliveredOnce items next.state.deliveredOnce

theorem Grown.same (hcontext : next.state.context = world.state.context)
    (hreceipts : next.state.deliveredOnce = world.state.deliveredOnce) : Grown world next := by
  refine ⟨[], ?_, ?_⟩
  · rw [hcontext, List.append_nil]
  · rw [hreceipts]
    exact Once.plain (by simp) _

theorem Grown.trans {last : World} (h : Grown world next) (h' : Grown next last) :
    Grown world last := by
  obtain ⟨items, hcontext, honce⟩ := h
  obtain ⟨more, hcontext', honce'⟩ := h'
  refine ⟨items ++ more, ?_, honce.append honce'⟩
  rw [hcontext', hcontext, List.append_assoc]

theorem Grown.saved {commit : Commit} {items : List Json} (h : Saved world commit next)
    (hcontext : commit.checkpoint.context = world.state.context ++ items)
    (honce : Once world.state.deliveredOnce items commit.checkpoint.deliveredOnce) :
    Grown world next := by
  rw [← h.state] at hcontext honce
  exact ⟨items, hcontext, honce⟩

theorem Grown.savedSame {commit : Commit} (h : Saved world commit next)
    (hcontext : commit.checkpoint.context = world.state.context)
    (hreceipts : commit.checkpoint.deliveredOnce = world.state.deliveredOnce) :
    Grown world next := by
  rw [← h.state] at hcontext hreceipts
  exact .same hcontext hreceipts

theorem grown_of_spec {body : Agent Unit} {after : Unit → World → Prop} {failing : World → Prop}
    (h : Spec (Same world) body after (Failing failing))
    (hafter : ∀ next, after () next → Grown world next)
    (hfailing : ∀ next, failing next → Grown world next) : Grown world (body world).2 := by
  have hbody := h world (.refl world)
  revert hbody
  obtain ⟨outcome, next⟩ := body world
  cases outcome with
  | ok value => exact hafter next
  | error stop =>
    cases stop with
    | failed error => exact hfailing next
    | halted => exact False.elim

theorem grown_of_kept (next : World) (h : Kept world next) : Grown world next :=
  .same (by rw [h.state]) (by rw [h.state])

theorem resultItems_once (encoding : Encoding) (receipts : Receipts)
    (results : List AgentTools.ToolResult) :
    Once receipts (resultItems encoding receipts results).1
      (resultItems encoding receipts results).2 := by
  induction results generalizing receipts with
  | nil => exact .plain (by simp [resultItems]) receipts
  | cons result rest ih =>
    have houtput : Once receipts
        [toolOutput encoding result.callId result.output result.isError] receipts :=
      .plain (by simp [identity_toolOutput]) receipts
    exact houtput.append ((acceptAll_once receipts result.additionalInput).append (ih _))

theorem grown_of_results {results : List AgentTools.ToolResult} {commit : Commit}
    (hdraft : ToolDraft world config.encoding results commit) (h : Saved world commit next) :
    Grown world next := by
  obtain ⟨_, events, rfl⟩ := hdraft
  exact .saved h rfl (resultItems_once _ _ results)

theorem grown_of_abort {submissionId turnId reason : String} {outcome : ExecutionOutcome}
    {events : List Event} {commit : Commit}
    (hdraft : AbortDraft world config submissionId turnId reason outcome events commit)
    (h : Saved world commit next) : Grown world next := by
  obtain ⟨record, more, idle, _, rfl⟩ := hdraft
  refine .saved h rfl ?_
  simp only [finishDraft, draft, advance, onState, closing, aborted, released, cancelled, account]
  refine Once.plain (fun item hitem => ?_) _
  rcases List.mem_append.mp hitem with hcall | hresult
  · unfold openCalls at hcall
    split at hcall
    · obtain ⟨call, _, rfl⟩ := List.mem_map.mp hcall
      exact identity_toolCallInput _ call
    · cases hcall
  · obtain ⟨call, _, rfl⟩ := List.mem_map.mp hresult
    exact identity_toolOutput _ _ _ _

theorem once_message (receipts : Receipts) (items context : List Json) (encoding : Encoding)
    (event : MessageEvent) :
    Once receipts ((acceptAll receipts items).1 ++
        [prepareTurnInput context (messageInput encoding event)]) (acceptAll receipts items).2 :=
  (acceptAll_once receipts items).append (.plain (by simp [identity_prepared]) _)

theorem openTurn_grows (queued : QueuedMessage) (world : World) :
    Grown world (openTurn env queued world).2 := by
  have hplain : Grown world (afterHooks world) := .same rfl rfl
  rw [openTurn_run]
  cases env.messageSubmit (world.tick + 1) with
  | error error => exact hplain
  | ok submitted =>
    refine hplain.trans ?_
    dsimp only
    cases submitted.rejection with
    | some rejection =>
      refine grown_of_spec (rejectMessageTurn_spec env _ _ _ _ _) ?_ ?_
      · rintro next ⟨commit, ⟨_, index, taken, rest, startedAtMs, window, _, hdraft⟩, hsaved⟩
        have hbegun : Saved (begun (afterHooks world) (prepareMessage config.encoding queued)
            (env.uuid world.tick) startedAtMs rest) commit next := ⟨hsaved.1, hsaved.2, hsaved.3⟩
        exact (grown_of_abort hdraft hbegun :)
      · rintro next (hsame | hleft)
        · exact grown_of_kept next hsame.kept
        · obtain ⟨startedAtMs, hstate⟩ := hleft.state
          exact .same (by rw [hstate]) (by rw [hstate])
    | none =>
      have hspec := acceptMessageTurn_spec env (afterHooks world) queued (env.uuid world.tick)
        submitted
      refine (grown_of_spec hspec ?_ grown_of_kept :)
      rintro next ⟨commit, ⟨_, index, taken, rest, startedAtMs, window, _, rfl⟩, hsaved⟩
      exact .saved hsaved (List.append_assoc _ _ _) (once_message _ _ _ config.encoding _)

theorem stageMessage_once (encoding : Encoding) (sequence batchBefore : Nat) (idle : Bool)
    (staging : Staging) (entry : QueuedMessage × MessageSubmitResult) :
    let staged := stageMessage sequence batchBefore idle staging
      (prepareMessage encoding entry.1) entry.2
    ∃ items, staged.context = staging.context ++ items ∧
      Once staging.deliveredOnce items staged.deliveredOnce := by
  dsimp only
  unfold stageMessage
  cases entry.2.rejection with
  | some rejection => exact ⟨[], (List.append_nil _).symm, .plain (by simp) _⟩
  | none => exact ⟨_, List.append_assoc _ _ _, once_message _ _ _ encoding _⟩

theorem stageAll_once (encoding : Encoding) (sequence batchBefore : Nat) (idle : Bool)
    (staging : Staging) (batch : List (QueuedMessage × MessageSubmitResult)) :
    let staged := stageAll encoding sequence batchBefore idle staging batch
    ∃ items, staged.context = staging.context ++ items ∧
      Once staging.deliveredOnce items staged.deliveredOnce := by
  induction batch generalizing staging with
  | nil => exact ⟨[], (List.append_nil _).symm, .plain (by simp) _⟩
  | cons entry rest ih =>
    obtain ⟨items, hcontext, honce⟩ :=
      stageMessage_once encoding sequence batchBefore idle staging entry
    obtain ⟨more, hcontext', honce'⟩ := ih (stageMessage sequence batchBefore idle staging
      (prepareMessage encoding entry.1) entry.2)
    refine ⟨items ++ more, hcontext'.trans ?_, honce.append honce'⟩
    rw [hcontext, List.append_assoc]

theorem openIdleTurn_spec (world : World) :
    Spec (Same world) (openIdleTurn env) (fun _ => Grown world) (Failing (Kept world)) := by
  refine Spec.bind (ask_spec env.uuid) fun submissionId => Spec.given fun _ => ?_
  refine Spec.bind (ask_spec env.uuid) fun turnId => Spec.given fun _ => ?_
  refine (beginIdleTurn_spec env world submissionId turnId).mono ?_
  rintro _ next ⟨_, startedAtMs, window, hsaved⟩
  exact .savedSame hsaved rfl rfl

/-- One operation grows the context, whether it returns or fails. -/
theorem perform_grows (op : Operation) (world : World) :
    Grown world (perform env op world).2 := by
  cases op with
  | persistSubmissionChange submissionId pendingMessages events =>
    refine grown_of_spec (persistSubmissionChange_spec env world _ _ _) ?_ grown_of_kept
    exact fun next hsaved => .savedSame hsaved rfl rfl
  | startMessageTurn queued => exact openTurn_grows env queued world
  | stageMessageInput turnId =>
    refine grown_of_spec (stageMessageInput_spec env world turnId) ?_ grown_of_kept
    rintro next (⟨_, hsame⟩ | ⟨commit, ⟨batch, window, wasIdle, _, rfl⟩, hsaved⟩)
    · exact grown_of_kept next hsame.kept
    · obtain ⟨items, hcontext, honce⟩ := stageAll_once config.encoding (world.state.sequence + 1)
        world.transcriptDelta.length (isIdle world.state)
        ⟨world.state.context, world.state.deliveredOnce, [], [], none⟩ batch
      exact .saved hsaved hcontext honce
  | persistToolResults submissionId turnId completion =>
    refine grown_of_spec (persistToolResults_spec env world _ _ _) ?_ grown_of_kept
    rintro next (⟨_, hsame⟩ | ⟨commit, hdraft, hsaved⟩)
    · exact grown_of_kept next hsame.kept
    · exact grown_of_results hdraft hsaved
  | completeToolStep submissionId turnId completion =>
    refine grown_of_spec (completeToolStep_spec env world _ _ _) ?_ grown_of_kept
    rintro next (⟨_, hsame⟩ | ⟨commit, hdraft, hsaved⟩)
    · exact .same (by rw [hsame.state]; rfl) (by rw [hsame.state]; rfl)
    · exact (grown_of_results hdraft ⟨hsaved.state, hsaved.delta, hsaved.log⟩ :)
  | retryModelStep submissionId started =>
    refine grown_of_spec (retryModelStep_spec env world _ _) ?_ grown_of_kept
    rintro next ⟨events, hsaved⟩
    exact .savedSame hsaved rfl rfl
  | abortWithEvents submissionId turnId reason outcome events =>
    refine grown_of_spec (abortWithEvents_spec env world _ _ _ _ _) ?_ grown_of_kept
    rintro next ⟨commit, hdraft, hsaved⟩
    exact grown_of_abort hdraft hsaved
  | runIdleTurn => exact grown_of_spec (openIdleTurn_spec env world) (fun _ h => h) grown_of_kept
  | finishAndPersistExecution outcome events =>
    refine grown_of_spec (finishAndPersistExecution_spec env world _ _) ?_ grown_of_kept
    rintro next ⟨record, _, hsaved⟩
    exact .savedSame hsaved rfl rfl

/-- In every run of the operations, in any order and with any of their saves rejected, the context
grows at its end, and guidance that was delivered is not delivered again. -/
theorem guidance_enters_once (operations : List Operation) (world : World) :
    Grown world (operations.foldl (fun world op => (perform env op world).2) world) := by
  induction operations generalizing world with
  | nil => exact .same rfl rfl
  | cons op rest ih => exact (perform_grows env op world).trans (ih _)

end Steps

end MobiusAgent.AgentGuidance
