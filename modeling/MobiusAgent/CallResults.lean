import MobiusAgent.AgentRollback
import MobiusAgent.CallPlans
import MobiusAgent.ToolBatches

/-!
# One result for each call

Each place that calls were handed to answers them by their ids: streamed tools
when they end, denials at once, and the batch after the response through its
bindings, its execution and its approval. The two batches of results that are
saved over a step hold one result for each call, in the order of the calls, and
an exclusive call runs alone.
-/

namespace MobiusAgent.CallResults

open JsonValue ProtocolEvents CheckpointRecords ContextItems MessageQueue AgentWorld AgentInput
  AgentTools AgentTurn AgentStreaming AgentApproval AgentModelStep AgentTransactions
  AgentRouting AgentToolSteps CallPlans ToolBatches EffectLogic

section Results

variable {config : Config} {env : Surroundings config} {world : World}

/-- The context and its receipts are the same. -/
structure Unmoved (world next : World) : Prop where
  context : next.state.context = world.state.context
  receipts : next.state.deliveredOnce = world.state.deliveredOnce

theorem Unmoved.refl (world : World) : Unmoved world world := ⟨rfl, rfl⟩

theorem Unmoved.trans {first second third : World} (h : Unmoved first second)
    (h' : Unmoved second third) : Unmoved first third :=
  ⟨h'.context.trans h.context, h'.receipts.trans h.receipts⟩

theorem Unmoved.ofState {next : World} (h : next.state = world.state) : Unmoved world next := by
  constructor
  · rw [h]
  · rw [h]

theorem Unmoved.ofContinued {next : World} (h : Continued world next) : Unmoved world next := by
  obtain ⟨queue, sequence, hstate⟩ := h.state
  constructor
  · rw [hstate]
  · rw [hstate]

theorem persist_unmoved (events : List Event) :
    Returns world (persistWithEvents env events none) fun _ next => Unmoved world next := by
  refine (persist_returns env events none).mono fun _ next h => ?_
  constructor
  · rw [h.state]
    rfl
  · rw [h.state]
    rfl

theorem resultIds_interrupted (calls : List ToolCall) (message : String) :
    resultIds (interruptedResults config calls message) = callIds calls := by
  unfold resultIds interruptedResults callIds
  rw [List.map_map]
  rfl

theorem postToolResults_returns (calls : List ToolCall) (results : List ToolResult) :
    ∀ {world : World}, Returns world (postToolResults env calls results) fun completion next =>
      Same world next ∧ resultIds completion.results = resultIds results := by
  induction results with
  | nil =>
    intro world
    exact Returns.pure ⟨.refl world, rfl⟩
  | cons result rest ih =>
    intro world
    have hresult : Returns world (postToolResult env calls result) fun after next =>
        Same world next ∧ after.1.callId = result.callId := by
      unfold postToolResult
      split
      · exact Returns.fail
      · by_cases hhandler : result.handlerExecuted = true
        · rw [if_pos hhandler]
          refine Returns.bind (activeExecution_returns _) fun active first hfirst => ?_
          obtain ⟨_, rfl⟩ := hfirst
          refine Returns.bind (askOk_returns env.postToolUse) fun use second hsecond => ?_
          exact Returns.pure ⟨hsecond.2, rfl⟩
        · rw [if_neg hhandler]
          exact Returns.pure ⟨.refl world, rfl⟩
    refine Returns.bind hresult fun after next hafter => ?_
    refine Returns.bind ih fun later last hlast => ?_
    have hsame : Same world last := ⟨hlast.1.state.trans hafter.1.state,
      hlast.1.delta.trans hafter.1.delta, hlast.1.log.trans hafter.1.log⟩
    refine Returns.pure ⟨hsame, ?_⟩
    change after.1.callId :: resultIds later.results = result.callId :: resultIds rest
    rw [hafter.2, hlast.2]

theorem resultItems_append (encoding : Encoding) (first second : List ToolResult) :
    ∀ receipts, resultItems encoding receipts (first ++ second) =
      ((resultItems encoding receipts first).1 ++
        (resultItems encoding (resultItems encoding receipts first).2 second).1,
      (resultItems encoding (resultItems encoding receipts first).2 second).2) := by
  induction first with
  | nil =>
    intro receipts
    rfl
  | cons result rest ih =>
    intro receipts
    rw [List.cons_append, resultItems, resultItems, ih]
    dsimp only
    rw [List.cons_append, List.append_assoc]

end Results

section Batches

variable {config : Config} {env : Surroundings config} {world : World}

/-- Every call of a batch is bound or rejected. -/
structure Bound (calls : List ToolCall) (batch : BoundBatch) : Prop where
  ids : (callIds batch.bound ++ resultIds batch.rejected).Perm (callIds calls)
  callable : callIds batch.callable = callIds batch.bound

variable {batch : BoundBatch} {calls : List ToolCall}

theorem Bound.reject (h : Bound calls batch) (call : ToolCall) (text : String) :
    Bound (call :: calls)
      { batch with rejected := errorResult config call text :: batch.rejected } := by
  refine ⟨?_, h.callable⟩
  exact List.perm_middle.trans (h.ids.cons call.callId)

theorem Bound.bind (h : Bound calls batch) {call bound : ToolCall}
    (hid : bound.callId = call.callId) :
    Bound (call :: calls)
      { batch with bound := bound :: batch.bound, callable := call :: batch.callable } := by
  constructor
  · change (bound.callId :: (callIds batch.bound ++ resultIds batch.rejected)).Perm
      (call.callId :: callIds calls)
    rw [hid]
    exact h.ids.cons call.callId
  · change call.callId :: callIds batch.callable = bound.callId :: callIds batch.bound
    rw [hid, h.callable]

theorem bindGiven_bound (calls : List ToolCall) :
    ∀ bindings, Bound calls (bindGiven config bindings calls) := by
  induction calls with
  | nil =>
    intro bindings
    have hnone : bindGiven config bindings [] = ⟨[], [], []⟩ := by
      cases bindings <;> rfl
    rw [hnone]
    exact ⟨.refl _, rfl⟩
  | cons call rest ih =>
    intro bindings
    cases bindings with
    | zero => exact (ih 0).reject call _
    | succ bindings => exact (ih bindings).bind rfl

theorem bindLive_returns (calls : List ToolCall) :
    ∀ {world : World}, Returns world (bindLive env calls) fun batch next =>
      next.state = world.state ∧ Bound calls batch := by
  induction calls with
  | nil =>
    intro world
    exact Returns.pure ⟨rfl, .refl _, rfl⟩
  | cons call rest ih =>
    intro world
    refine Returns.bind (bindCall_returns env call) fun binding next hbinding => ?_
    refine Returns.bind ih fun later last hlater => ?_
    have hstate := hlater.1.trans hbinding.1.state
    cases binding with
    | error error => exact Returns.pure ⟨hstate, hlater.2.reject call _⟩
    | ok bound =>
      obtain ⟨bound, repaired⟩ := bound
      exact Returns.pure ⟨hstate, hlater.2.bind (hbinding.2 bound repaired rfl)⟩

theorem bindCalls_returns (calls : List ToolCall) (bindings : Option Nat) :
    Returns world (bindCalls env calls bindings) fun batch next =>
      next.state = world.state ∧ Bound calls batch := by
  unfold bindCalls
  cases bindings with
  | some bindings => exact Returns.pure ⟨rfl, bindGiven_bound calls bindings⟩
  | none =>
    refine Returns.bind (askOk_returns env.service) fun _ next hnext => ?_
    exact (bindLive_returns calls).mono fun batch last hlast =>
      ⟨hlast.1.trans hnext.2.state, hlast.2⟩

theorem beginCalls_returns (submissionId turnId : String) (calls : List ToolCall) :
    ∀ {world : World}, Returns world (beginCalls env submissionId turnId calls) fun _ next =>
      next.state = world.state := by
  induction calls with
  | nil =>
    intro world
    exact Returns.pure rfl
  | cons call rest ih =>
    intro world
    have hsend : ∀ event, Returns world (sendEvent env event) fun _ next =>
        next.state = world.state := by
      intro event
      refine Returns.bind (askOk_returns env.record) fun _ next hnext => ?_
      refine (note_returns _).mono fun _ last hlast => ?_
      rw [hlast]
      exact hnext.2.state
    refine Returns.bind (hsend _) fun _ next hnext => ?_
    exact ih.mono fun _ last hlast => hlast.trans hnext

theorem dispatchAll_returns (calls : List ToolCall) :
    ∀ {world : World}, Returns world (dispatchAll calls) fun _ next =>
      next.state = world.state := by
  induction calls with
  | nil =>
    intro world
    exact Returns.pure rfl
  | cons call rest ih =>
    intro world
    refine Returns.bind Returns.get fun current next hnext => ?_
    obtain ⟨rfl, rfl⟩ := hnext
    refine Returns.bind (note_returns _) fun _ noted hnoted => ?_
    refine ih.mono fun _ last hlast => ?_
    rw [hlast, hnoted]

theorem executeBatch_returns (calls : List ToolCall) :
    ∀ {world : World}, Returns world (executeBatch env calls) fun results next =>
      next.state = world.state ∧ resultIds results = callIds calls := by
  induction calls with
  | nil =>
    intro world
    exact Returns.pure ⟨rfl, rfl⟩
  | cons call rest ih =>
    intro world
    refine Returns.bind (ask_returns env.toolOutcome) fun outcome next hnext => ?_
    refine Returns.bind ih fun later last hlast => ?_
    refine Returns.pure ⟨hlast.1.trans hnext.2.state, ?_⟩
    change call.callId :: resultIds later = call.callId :: callIds rest
    rw [hlast.2]

/-- What a round of a batch comes to: its results are those of the bound calls. -/
def RoundEnds (world : World) (batch : BoundBatch) (result : Bool ⊕ BatchEnd) (next : World) :
    Prop :=
  match result with
  | .inl _ => Unmoved world next
  | .inr wait => Unmoved world next ∧ ∀ results executed changed,
      wait = .ready (results, executed) changed → resultIds results = callIds batch.bound

theorem cancelled_ends (h : Bound calls batch) {next : World} (hnext : Unmoved world next) :
    RoundEnds world batch (.inr (.ready (cancelledResults config batch.callable, false) true))
      next := by
  refine ⟨hnext, ?_⟩
  intro results executed changed hready
  cases hready
  exact (resultIds_interrupted batch.callable _).trans h.callable

theorem batchRound_returns (h : Bound calls batch) (turnId : String)
    (cancelOnInput inputChanged : Bool) :
    Returns world (batchRound env turnId cancelOnInput batch inputChanged)
      (RoundEnds world batch) := by
  refine Returns.bind (drain_returns env turnId) fun drained first hfirst => ?_
  have hdrained := Unmoved.ofContinued hfirst
  cases drained.interrupted with
  | some submissionId => exact Returns.pure ⟨hdrained, nofun⟩
  | none =>
    dsimp only
    by_cases hcancel : (cancelOnInput && drained.inputChanged) = true
    · rw [if_pos hcancel]
      exact Returns.pure (cancelled_ends h hdrained)
    rw [if_neg hcancel]
    refine Returns.bind (ask_returns env.ready) fun ready second hsecond => ?_
    have hasked := hdrained.trans (.ofState hsecond.2.state)
    cases ready with
    | true =>
      refine Returns.bind (executeBatch_returns batch.bound) fun results third hthird => ?_
      have hexecuted := hasked.trans (.ofState hthird.1)
      refine Returns.bind (drain_returns env turnId) fun again fourth hfourth => ?_
      have hall := hexecuted.trans (.ofContinued hfourth)
      cases again.interrupted with
      | some submissionId => exact Returns.pure ⟨hall, nofun⟩
      | none =>
        dsimp only
        by_cases hlate : (cancelOnInput && again.inputChanged) = true
        · rw [if_pos hlate]
          exact Returns.pure (cancelled_ends h hall)
        · rw [if_neg hlate]
          refine Returns.pure ⟨hall, ?_⟩
          intro found executed changed hready
          cases hready
          exact hthird.2
    | false =>
      refine Returns.bind (ask_returns env.inbox) fun received third hthird => ?_
      have hinbox := hasked.trans (.ofState hthird.2.state)
      cases received with
      | none => exact Returns.fail
      | some received =>
        refine Returns.bind (routeActiveSubmission_returns env received turnId none)
          fun route last hlast => ?_
        have hall := hinbox.trans (.ofContinued hlast)
        cases route with
        | interrupted submissionId => exact Returns.pure ⟨hall, nofun⟩
        | approval submissionId decision => exact Returns.pure hall
        | proceed changed =>
          dsimp only
          by_cases hlate : (changed && cancelOnInput) = true
          · rw [if_pos hlate]
            exact Returns.pure (cancelled_ends h hall)
          · rw [if_neg hlate]
            exact Returns.pure hall

theorem ordered_ids (h : Bound calls batch) (hdistinct : (callIds calls).Nodup)
    {results : List ToolResult} (hresults : resultIds results = callIds batch.bound) :
    resultIds (orderResults calls (results ++ batch.rejected)) = callIds calls := by
  have hperm : (resultIds (results ++ batch.rejected)).Perm (callIds calls) := by
    unfold resultIds at hresults ⊢
    rw [List.map_append, hresults]
    exact h.ids
  rw [orderResults_ids hdistinct (hperm.nodup_iff.mpr hdistinct), List.filter_eq_self]
  intro id hid
  exact List.contains_iff_mem.mpr (hperm.mem_iff.mpr hid)

/-- `execute_tools` answers every call once, in the order of the calls. -/
theorem executeTools_returns (hdistinct : (callIds calls).Nodup) (submissionId turnId : String)
    (bindings : Option Nat) :
    Returns world (executeTools env submissionId turnId calls bindings) fun wait next =>
      Unmoved world next ∧ ∀ completion changed, wait = .ready completion changed →
        resultIds completion.results = callIds calls := by
  refine Returns.bind (bindCalls_returns calls bindings) fun batch first hfirst => ?_
  obtain ⟨hbound, hbatch⟩ := hfirst
  refine Returns.bind (beginCalls_returns submissionId turnId batch.callable)
    fun _ second hsecond => ?_
  have hbegun : Unmoved world second := .ofState (hsecond.trans hbound)
  refine Returns.bind (drain_returns env turnId) fun drained third hthird => ?_
  have hdrained := hbegun.trans (.ofContinued hthird)
  cases drained.interrupted with
  | some submissionId => exact Returns.pure ⟨hdrained, nofun⟩
  | none =>
    refine Returns.bind getState_returns fun state fourth hfourth => ?_
    obtain ⟨_, rfl⟩ := hfourth
    by_cases hcancel : (cancelsOnInput config batch.callable &&
        (drained.inputChanged || messagesReady state.pendingMessages turnId)) = true
    · rw [if_pos hcancel]
      refine Returns.pure ⟨hdrained, ?_⟩
      intro completion changed hready
      cases hready
      exact ordered_ids hbatch hdistinct ((resultIds_interrupted _ _).trans hbatch.callable)
    · rw [if_neg hcancel]
      unfold runBatch
      refine Returns.bind (activeExecution_returns _) fun active fifth hfifth => ?_
      obtain ⟨_, rfl⟩ := hfifth
      refine Returns.bind (dispatchAll_returns batch.bound) fun _ sixth hsixth => ?_
      have hdispatched := hdrained.trans (.ofState hsixth)
      have hrounds : Returns sixth (Proc.iterate
          (batchRound env turnId (cancelsOnInput config batch.callable) batch) config.fuel
            drained.inputChanged) fun wait next => Unmoved world next ∧
              ∀ results executed changed, wait = .ready (results, executed) changed →
                resultIds results = callIds batch.bound := by
        refine Returns.iterate (fun _ next => Unmoved world next) ?_ hdispatched config.fuel
        intro inputChanged next hnext
        refine (batchRound_returns hbatch turnId _ inputChanged).mono fun result last hlast => ?_
        cases result with
        | inl again => exact hnext.trans hlast
        | inr wait => exact ⟨hnext.trans hlast.1, hlast.2⟩
      refine Returns.bind hrounds fun wait seventh hseventh => ?_
      cases wait with
      | interrupted submissionId => exact Returns.pure ⟨hseventh.1, nofun⟩
      | ready found inputChanged =>
        obtain ⟨results, executed⟩ := found
        have hids := ordered_ids hbatch hdistinct (hseventh.2 results executed inputChanged rfl)
        cases executed with
        | false =>
          refine Returns.pure ⟨hseventh.1, ?_⟩
          intro completion changed hready
          cases hready
          exact hids
        | true =>
          refine Returns.bind (postToolResults_returns calls _) fun completion last hlast => ?_
          refine Returns.pure ⟨hseventh.1.trans (.ofState hlast.1.state), ?_⟩
          intro found changed hready
          cases hready
          exact hlast.2.trans hids

end Batches

section Approvals

variable {config : Config} {env : Surroundings config} {world : World}

theorem readyOrAborted_returns {α : Type} (wait : Wait α) (turnId : String) :
    Returns world (readyOrAborted env wait turnId) fun result next =>
      ∀ value, result = some value → ∃ changed, wait = .ready value changed ∧ next = world := by
  cases wait with
  | ready value changed =>
    refine Returns.pure ?_
    intro found hfound
    rw [Option.some.inj hfound]
    exact ⟨changed, rfl, rfl⟩
  | interrupted submissionId =>
    exact Returns.bind (.any _) fun _ _ _ => Returns.pure nofun

/-- The results of a batch that was not aborted answer its calls. -/
def Completes (world : World) (calls : List ToolCall) (result : Option ToolCompletion)
    (next : World) : Prop :=
  ∀ completion, result = some completion →
    Unmoved world next ∧ resultIds completion.results = callIds calls

variable {calls : List ToolCall} {turnId : String} {pending : PendingApproval}

theorem Completes.after {first second third : World} {result : Option ToolCompletion}
    (hunmoved : Unmoved first second) (h : Completes second calls result third) :
    Completes first calls result third := by
  intro completion hcompletion
  obtain ⟨hlater, hids⟩ := h completion hcompletion
  exact ⟨hunmoved.trans hlater, hids⟩

theorem executeReady_returns (hdistinct : (callIds calls).Nodup) (submissionId turnId : String)
    (bindings : Option Nat) :
    Returns world (do
      let execution ← executeTools env submissionId turnId calls bindings
      readyOrAborted env execution turnId) (Completes world calls) := by
  refine Returns.bind (executeTools_returns hdistinct submissionId turnId bindings)
    fun wait next hnext => ?_
  refine (readyOrAborted_returns wait turnId).mono fun result last hlast => ?_
  intro completion hcompletion
  obtain ⟨changed, hready, hsame⟩ := hlast completion hcompletion
  rw [hsame]
  exact ⟨hnext.1, hnext.2 completion changed hready⟩

def asksFor (pending : PendingApproval) (call : ToolCall) : Bool :=
  pending.approvalCallIds.contains call.callId

/-- A decision answers every call of its batch, unless it aborts the turn. -/
theorem applyApproval_returns (hdistinct : (callIds pending.calls).Nodup)
    (decision : ReviewDecision) (abortSubmissionId : String) :
    Returns world (applyApproval env pending decision abortSubmissionId)
      (Completes world pending.calls) := by
  refine Returns.bind (askOk_returns env.service) fun _ first hfirst => ?_
  have hasked : Unmoved world first := .ofState hfirst.2.state
  cases decision with
  | approved | approvedForSession =>
    exact (executeReady_returns hdistinct pending.submissionId pending.turnId none).mono
      fun _ _ h => h.after hasked
  | abort =>
    exact Returns.bind (.any _) fun _ _ _ => Returns.pure nofun
  | denied rejection =>
    have hallowed : Returns first (executeAllowed env pending
        (pending.calls.filter fun call => !asksFor pending call))
        (Completes first (pending.calls.filter fun call => !asksFor pending call)) := by
      unfold executeAllowed
      by_cases hnone : (pending.calls.filter fun call => !asksFor pending call).isEmpty = true
      · rw [if_pos hnone]
        refine Returns.pure ?_
        intro completion hcompletion
        rw [← Option.some.inj hcompletion, List.isEmpty_iff.mp hnone]
        exact ⟨.refl first, rfl⟩
      · rw [if_neg hnone]
        refine executeReady_returns ?_ pending.submissionId pending.turnId none
        exact hdistinct.sublist (List.filter_sublist.map _)
    refine Returns.bind hallowed fun result last hresult => ?_
    cases result with
    | none => exact Returns.pure nofun
    | some completion =>
      obtain ⟨hlast, hids⟩ := hresult completion rfl
      refine Returns.pure ?_
      intro found hfound
      rw [← Option.some.inj hfound]
      refine ⟨hasked.trans hlast, ?_⟩
      have hdenied : resultIds (deniedResults config (pending.calls.filter (asksFor pending)) rejection) =
          callIds (pending.calls.filter (asksFor pending)) := by
        unfold resultIds deniedResults callIds
        rw [List.map_map]
        rfl
      have hperm : (resultIds (completion.results ++
          deniedResults config (pending.calls.filter (asksFor pending)) rejection)).Perm
            (callIds pending.calls) := by
        have hparts : ((pending.calls.filter fun call => !asksFor pending call) ++
            pending.calls.filter (asksFor pending)).Perm pending.calls :=
          List.perm_append_comm.trans (List.filter_append_perm (asksFor pending) pending.calls)
        have hmapped := hparts.map (·.callId)
        rw [List.map_append] at hmapped
        unfold resultIds at hids hdenied ⊢
        rw [List.map_append, hids, hdenied]
        exact hmapped
      change resultIds (orderResults pending.calls (completion.results ++
        deniedResults config (pending.calls.filter (asksFor pending)) rejection)) = callIds pending.calls
      rw [orderResults_ids hdistinct (hperm.nodup_iff.mpr hdistinct), List.filter_eq_self]
      intro id hid
      exact List.contains_iff_mem.mpr (hperm.mem_iff.mpr hid)

theorem noteDecision_returns (pending : PendingApproval) :
    Returns world (noteDecision env pending) fun _ next => Unmoved world next := by
  refine Returns.bind getState_returns fun state next hnext => ?_
  obtain ⟨_, rfl⟩ := hnext
  cases state.pendingApproval with
  | none => exact Returns.pure (.refl next)
  | some current =>
    dsimp only
    by_cases hsame : current.requestId = pending.requestId
    · rw [if_pos hsame]
      refine Returns.bind (modifyState_returns _) fun _ staged hstaged => ?_
      have hmoved : Unmoved next staged := by
        rw [hstaged]
        exact ⟨rfl, rfl⟩
      exact (persist_unmoved []).mono fun _ last hlast => hmoved.trans hlast
    · rw [if_neg hsame]
      exact Returns.pure (.refl next)

theorem waitForApproval_returns :
    Returns world (waitForApproval env pending) fun _ next => Unmoved world next := by
  refine Returns.iterate (fun _ next => Unmoved world next) ?_ (.refl world) config.fuel
  intro _ start hstart
  refine Returns.bind (ask_returns env.inbox) fun received next hnext => ?_
  have hinbox := hstart.trans (.ofState hnext.2.state)
  cases received with
  | none => exact Returns.fail
  | some received =>
    refine Returns.bind (routeActiveSubmission_returns env received pending.turnId
      (some pending.requestId)) fun route last hlast => ?_
    have hall := hinbox.trans (.ofContinued hlast)
    cases route with
    | approval submissionId decision | interrupted submissionId | proceed changed =>
      exact Returns.pure hall

theorem pauseForApproval_returns (hdistinct : (callIds pending.calls).Nodup)
    (events : List Event) :
    Returns world (pauseForApproval env pending events) (Completes world pending.calls) := by
  refine Returns.bind (modifyState_returns _) fun _ first hfirst => ?_
  have hstaged : Unmoved world first := by
    rw [hfirst]
    exact ⟨rfl, rfl⟩
  refine Returns.bind (persist_unmoved _) fun _ second hsecond => ?_
  have hsaved := hstaged.trans hsecond
  change Returns second (resolveDecision env pending) _
  refine Returns.bind waitForApproval_returns fun approval third hthird => ?_
  have hwaited := hsaved.trans hthird
  refine Returns.bind (readyOrAborted_returns approval pending.turnId) fun found fourth hfourth => ?_
  cases found with
  | none => exact Returns.pure nofun
  | some response =>
    obtain ⟨changed, _, hsame⟩ := hfourth response rfl
    subst hsame
    refine Returns.bind (noteDecision_returns pending) fun _ fifth hfifth => ?_
    have hnoted := hwaited.trans hfifth
    exact (applyApproval_returns hdistinct _ _).mono fun _ _ h => h.after hnoted

theorem resolveToolApproval_returns (hdistinct : (callIds calls).Nodup)
    (submissionId turnId requestId : String) (requested authorized : List String) :
    Returns world (resolveToolApproval env submissionId turnId calls requestId requested authorized)
      (Completes world calls) := by
  refine Returns.bind (activeExecution_returns _) fun active first hfirst => ?_
  obtain ⟨_, rfl⟩ := hfirst
  refine Returns.bind (askOk_returns env.permissionRequest) fun request second hsecond => ?_
  have hasked : Unmoved first second := .ofState hsecond.2.state
  cases request.decision with
  | some decision =>
    have hevents : Returns second (persistHookEvents env (hookEvents submissionId request.events))
        fun _ next => Unmoved second next := by
      unfold persistHookEvents
      by_cases hnone : (hookEvents submissionId request.events).isEmpty = true
      · rw [if_pos hnone]
        exact Returns.pure (.refl second)
      · rw [if_neg hnone]
        exact persist_unmoved _
    refine Returns.bind hevents fun _ third hthird => ?_
    have hsaved := hasked.trans hthird
    exact (applyApproval_returns hdistinct decision submissionId).mono
      fun _ _ h => h.after hsaved
  | none => exact (pauseForApproval_returns hdistinct _).mono fun _ _ h => h.after hasked

/-- The results of a step entered the context, in one accepted save. -/
structure Recorded (world : World) (config : Config) (results : List ToolResult) (next : World) :
    Prop where
  /-- The items of the results stand at the end of the context. -/
  context : next.state.context = world.state.context ++
    (resultItems config.encoding world.state.deliveredOnce results).1
  receipts : next.state.deliveredOnce =
    (resultItems config.encoding world.state.deliveredOnce results).2

theorem recorded_saved {cleared next : World} {commit : Commit} {results : List ToolResult}
    (hcleared : Unmoved world cleared)
    (hcommit : ToolDraft cleared config.encoding results commit)
    (hstate : next.state = commit.checkpoint) : Recorded world config results next := by
  obtain ⟨_, events, rfl⟩ := hcommit
  constructor
  · rw [hstate, ← hcleared.context, ← hcleared.receipts]
    rfl
  · rw [hstate, ← hcleared.receipts]
    rfl

/-- The batch after a response is authorized, executed and saved, unless the turn is aborted. -/
theorem authorizeAndExecute_returns (hdistinct : (callIds calls).Nodup) (hsome : calls ≠ [])
    (submissionId turnId : String) (bindings : Nat) :
    Returns world (authorizeAndExecute env submissionId turnId calls bindings) fun ended next =>
      ended = false → Synced next ∧ ∃ results, resultIds results = callIds calls ∧
        Recorded world config results next := by
  refine Returns.bind (askOk_returns env.approved) fun approved first hfirst => ?_
  have hasked : Unmoved world first := .ofState hfirst.2.state
  have hbatch : Returns first (do
      if (requestedCalls config approved calls).isEmpty then do
        let tools ← executeTools env submissionId turnId calls (some bindings)
        readyOrAborted env tools turnId
      else do
        let requestId ← ask env.uuid
        resolveToolApproval env submissionId turnId calls requestId
          (requestedCalls config approved calls) (authorizedCalls config approved calls))
      (Completes first calls) := by
    by_cases hfree : (requestedCalls config approved calls).isEmpty = true
    · rw [if_pos hfree]
      exact executeReady_returns hdistinct submissionId turnId (some bindings)
    · rw [if_neg hfree]
      refine Returns.bind (ask_returns env.uuid) fun requestId next hnext => ?_
      have huuid : Unmoved first next := .ofState hnext.2.state
      exact (resolveToolApproval_returns hdistinct submissionId turnId requestId _ _).mono
        fun _ _ h => h.after huuid
  refine Returns.bind hbatch fun results second hsecond => ?_
  cases results with
  | none => exact Returns.pure nofun
  | some completion =>
    obtain ⟨hunmoved, hids⟩ := hsecond completion rfl
    refine Returns.bind ((completeToolStep_spec env second submissionId turnId completion).returns
      (.refl second)) fun _ last hlast => ?_
    refine Returns.pure fun _ => ?_
    rcases hlast with ⟨hnone, _⟩ | ⟨commit, hcommit, hsaved⟩
    · rw [hnone] at hids
      exact absurd (List.map_eq_nil_iff.mp hids.symm) hsome
    · constructor
      · rw [Synced, hsaved.log, durable_committed, hsaved.state]
      · refine ⟨completion.results, hids, ?_⟩
        have hcleared : Unmoved second
            (onState (fun state => { state with pendingApproval := none }) second) :=
          ⟨rfl, rfl⟩
        exact recorded_saved (hasked.trans (hunmoved.trans hcleared)) hcommit hsaved.state

end Approvals

section ToolSteps

variable {config : Config} {env : Surroundings config} {world : World}

theorem finishStreamed_returns {streamed : StreamedTools}
    (h : (resultIds streamed.results ++ callIds streamed.running).Perm streamed.started)
    (start : World) :
    Returns start (finishStreamed env streamed) fun result next =>
      (∀ results, result = .ok results → (resultIds results).Perm streamed.started) ∧
        Same start next := by
  refine Returns.bind (awaitRunning_returns env streamed.running start) fun result next hnext => ?_
  cases result with
  | error error => exact Returns.pure ⟨nofun, hnext.2⟩
  | ok later =>
    refine Returns.pure ⟨?_, hnext.2⟩
    intro results hresults
    rw [← Except.ok.inj hresults]
    unfold resultIds at h ⊢
    rw [List.map_append]
    rw [hnext.1 later rfl]
    exact h

/-- The results that were saved over a tool step answer its calls. -/
structure Answered (config : Config) (ids : List String) (saved final : World)
    (first second : List ToolResult) : Prop where
  once : (resultIds (first ++ second)).Perm ids
  early : (resultIds first).Sublist ids
  late : (resultIds second).Sublist ids
  /-- The items of the results stand at the end of the context. -/
  context : final.state.context = saved.state.context ++
    (resultItems config.encoding saved.state.deliveredOnce (first ++ second)).1

theorem Recorded.none {next : World} (h : Unmoved world next) : Recorded world config [] next := by
  constructor
  · rw [h.context]
    exact (List.append_nil _).symm
  · exact h.receipts

theorem Recorded.append {between next : World} {first second : List ToolResult}
    (h : Recorded world config first between) (h' : Recorded between config second next) :
    Recorded world config (first ++ second) next := by
  constructor
  · rw [h'.context, h.context, h.receipts, resultItems_append, List.append_assoc]
  · rw [h'.receipts, h.receipts, resultItems_append]

theorem Recorded.after {between next : World} {results : List ToolResult}
    (hunmoved : Unmoved world between) (h : Recorded between config results next) :
    Recorded world config results next := by
  constructor
  · rw [h.context, hunmoved.context, hunmoved.receipts]
  · rw [h.receipts, hunmoved.receipts]

theorem callsAt_sublist (indexes : List Nat) (calls : List ToolCall) :
    (callsAt indexes calls).Sublist calls := by
  suffices h : ∀ (rest : List ToolCall) (start : Nat), ((rest.zipIdx start).filterMap fun entry =>
      if indexes.contains entry.2 then some entry.1 else none).Sublist rest from h calls 0
  intro rest
  induction rest with
  | nil =>
    intro start
    exact List.Sublist.refl _
  | cons call rest ih =>
    intro start
    rw [List.zipIdx_cons, List.filterMap_cons]
    by_cases hlisted : indexes.contains start = true
    · simp only [hlisted, if_true]
      exact (ih (start + 1)).cons_cons call
    · simp only [hlisted]
      exact (ih (start + 1)).cons call

theorem callsAt_some {indexes : List Nat} {calls : List ToolCall} {index : Nat}
    (hmember : index ∈ indexes) (hless : index < calls.length) : callsAt indexes calls ≠ [] := by
  have hcall : (calls[index], index) ∈ calls.zipIdx := by
    rw [List.mem_zipIdx_iff_getElem?]
    exact List.getElem?_eq_getElem hless
  have hpresent : indexes.contains index = true := List.contains_iff_mem.mpr hmember
  have hfound : calls[index] ∈ callsAt indexes calls := by
    refine List.mem_filterMap.mpr ⟨(calls[index], index), hcall, ?_⟩
    rw [if_pos hpresent]
  exact List.ne_nil_of_mem hfound

theorem persistResults_returns (submissionId turnId : String) (completion : ToolCompletion)
    (hsynced : Synced world) :
    Returns world (persistToolResults env submissionId turnId completion) fun _ next =>
      Synced next ∧ Recorded world config completion.results next := by
  refine ((persistToolResults_spec env world submissionId turnId completion).returns
    (.refl world)).mono fun _ next hnext => ?_
  rcases hnext with ⟨hnone, hsame⟩ | ⟨commit, hcommit, hsaved⟩
  · rw [hnone]
    refine ⟨?_, .none (.ofState hsame.state)⟩
    rw [Synced, hsame.log, hsame.state]
    exact hsynced
  · refine ⟨?_, recorded_saved (.refl world) hcommit hsaved.state⟩
    rw [Synced, hsaved.log, durable_committed, hsaved.state]

theorem early_ids {ids : List String} {step : NormalizedModelStep} (h : Divided ids step)
    (hdistinct : ids.Nodup) {results : List ToolResult}
    (hresults : (resultIds results).Perm step.streamed.started) :
    (resultIds (orderResults step.toolCalls (results ++ step.denied))).Sublist ids ∧
      (resultIds (orderResults step.toolCalls (results ++ step.denied)) ++
        callIds (callsAt step.executable step.toolCalls)).Perm ids := by
  have hcalls : (callIds step.toolCalls).Nodup := by
    rw [h.ids]
    exact hdistinct
  have hboth : (resultIds (results ++ step.denied)).Perm
      (step.streamed.started ++ resultIds step.denied) := by
    unfold resultIds at hresults ⊢
    rw [List.map_append]
    exact hresults.append_right _
  have hparts : (step.streamed.started ++ resultIds step.denied ++
      callIds (callsAt step.executable step.toolCalls)).Nodup := h.handed.nodup_iff.mpr hcalls
  have hfresh : (resultIds (results ++ step.denied)).Nodup :=
    hboth.nodup_iff.mpr (List.nodup_append.mp hparts).1
  have hordered := orderResults_ids hcalls hfresh
  have hsubset : ∀ id ∈ resultIds (results ++ step.denied), id ∈ callIds step.toolCalls :=
    fun id hid => h.handed.subset (List.mem_append_left _ (hboth.subset hid))
  have hperm : (resultIds (orderResults step.toolCalls (results ++ step.denied))).Perm
      (resultIds (results ++ step.denied)) := by
    rw [hordered]
    refine (List.perm_ext_iff_of_nodup (hcalls.filter _) hfresh).mpr ?_
    intro id
    rw [List.mem_filter, List.contains_iff_mem]
    constructor
    · intro hmember
      exact hmember.2
    · intro hmember
      exact ⟨hsubset id hmember, hmember⟩
  constructor
  · rw [hordered, h.ids]
    exact List.filter_sublist
  · rw [← h.ids]
    exact ((hperm.trans hboth).append_right _).trans h.handed

/-- The calls of a saved response are answered, unless the turn is aborted. -/
theorem runToolStep_returns {ids : List String} {step : NormalizedModelStep}
    (h : Divided ids step) (hdistinct : ids.Nodup) (hsynced : Synced world)
    (submissionId turnId : String) :
    Returns world (runToolStep env submissionId turnId step) fun result next =>
      result = .inl () → Synced next ∧
        ∃ first second, Answered config ids world next first second := by
  have hwait : Returns world (waitActive env turnId (finishStreamed env step.streamed))
      fun wait next => Continued world next ∧ ∀ result inputChanged,
        wait = .ready result inputChanged →
          ∀ results, result = .ok results → (resultIds results).Perm step.streamed.started :=
    waitActive_returns env turnId (finishStreamed_returns h.running)
  refine Returns.bind hwait fun wait waited hwaited => ?_
  refine Returns.bind (readyOrAborted_returns wait turnId) fun found first hfirst => ?_
  cases found with
  | none => exact Returns.pure nofun
  | some streamed =>
    obtain ⟨changed, hready, hsame⟩ := hfirst streamed rfl
    subst hsame
    have hmoved : Unmoved world first := .ofContinued hwaited.1
    have hcurrent : Synced first := by
      rcases hwaited.1.saved with ⟨hlog, hstate⟩ | hlater
      · rw [Synced, hlog, hstate]
        exact hsynced
      · exact hlater
    refine Returns.bind (Returns.ofExcept fun results hresults => ⟨hresults, rfl⟩ :
      Returns first _ fun results next => streamed = .ok results ∧ next = first)
      fun results second hsecond => ?_
    obtain ⟨hresults, rfl⟩ := hsecond
    have hstarted := hwaited.2 streamed changed hready results hresults
    refine Returns.bind (postToolResults_returns step.toolCalls results)
      fun completion third hthird => ?_
    have hcompleted : (resultIds completion.results).Perm step.streamed.started := by
      rw [hthird.2]
      exact hstarted
    have hlogged : Synced third := by
      rw [Synced, hthird.1.log, hthird.1.state]
      exact hcurrent
    have hhooked := hmoved.trans (.ofState hthird.1.state)
    obtain ⟨hearly, hall⟩ := early_ids h hdistinct hcompleted
    refine Returns.bind (persistResults_returns submissionId turnId _ hlogged)
      fun _ fourth hfourth => ?_
    obtain ⟨hsaved, hrecorded⟩ := hfourth
    by_cases hnone : step.executable.isEmpty = true
    · rw [if_pos hnone]
      have hrest : callsAt step.executable step.toolCalls = [] := by
        rw [List.isEmpty_iff.mp hnone]
        unfold callsAt
        simp
      rw [hrest] at hall
      have hids : (resultIds (orderResults step.toolCalls (completion.results ++ step.denied))).Perm
          ids := by
        rwa [callIds, List.map_nil, List.append_nil] at hall
      have hanswers := Recorded.after hhooked (hrecorded.append (.none (.refl fourth)))
      refine Returns.pure fun _ => ⟨hsaved,
        orderResults step.toolCalls (completion.results ++ step.denied), [], ?_⟩
      refine ⟨?_, hearly, List.nil_sublist _, hanswers.context⟩
      rw [List.append_nil]
      exact hids
    · rw [if_neg hnone]
      have hsome : callsAt step.executable step.toolCalls ≠ [] := by
        obtain ⟨index, hindex⟩ := List.exists_mem_of_ne_nil _ (mt List.isEmpty_iff.mpr hnone)
        exact callsAt_some hindex (h.listed index hindex)
      have hpart : (callIds (callsAt step.executable step.toolCalls)).Sublist ids := by
        rw [← h.ids]
        exact (callsAt_sublist _ _).map _
      refine Returns.bind (authorizeAndExecute_returns (hdistinct.sublist hpart) hsome
        submissionId turnId step.executable.length) fun ended last hlast => ?_
      cases ended with
      | true => exact Returns.pure nofun
      | false =>
        obtain ⟨hfinal, more, hmore, hrest⟩ := hlast rfl
        have hanswers := Recorded.after hhooked (hrecorded.append hrest)
        refine Returns.pure fun _ => ⟨hfinal,
          orderResults step.toolCalls (completion.results ++ step.denied), more, ?_⟩
        refine ⟨?_, hearly, ?_, hanswers.context⟩
        · rw [← hmore] at hall
          unfold resultIds at hall ⊢
          rw [List.map_append]
          exact hall
        · rw [hmore]
          exact hpart

end ToolSteps

/-- A model step that is not interrupted: its response completes and is saved, and its calls are
run. -/
structure StepRun {config : Config} (env : Surroundings config) (submissionId turnId : String)
    (modelStep : Nat) (world : World) (step : CompletedModelStep config.encoding)
    (normalized : NormalizedModelStep) (saved final : World) : Prop where
  turn : OnTurn turnId world.state
  /-- The response completes, and it is saved with its calls. -/
  response : ∃ requested,
    requestModelStep env submissionId turnId modelStep world = (.ok (.completed step), requested) ∧
      normalizeAndPersistModelStep env submissionId turnId step requested =
        (.ok (some normalized), saved)
  calls : runToolStep env submissionId turnId normalized saved = (.ok (.inl ()), final)

def Alone (isParallel : ToolCall → Bool) (running : List ToolCall) : Prop :=
  ∀ call ∈ running, isParallel call = false → running = [call]

/-- What runs together: an exclusive call runs alone in its batch and while its response streams,
and each maximal run of parallel calls may run at once. -/
structure Overlaps (isParallel : ToolCall → Bool) : Prop where
  batch : ∀ calls batch, BatchSteps isParallel (.start calls) batch → Alone isParallel batch.running
  run : ∀ calls before run rest, MaximalRun isParallel calls before run rest →
    BatchSteps isParallel (.start calls) ⟨rest, [], run⟩
  streamed : ∀ gate, OrderedAdmission.Steps isParallel ⟨[], []⟩ gate → Alone isParallel gate.running
  together : ∀ calls before run rest, MaximalRun isParallel calls before run rest →
    OrderedAdmission.Steps isParallel ⟨[], []⟩ ⟨rest, run⟩

theorem overlaps (isParallel : ToolCall → Bool) : Overlaps isParallel := by
  constructor
  · intro calls batch hsteps call hrunning hexclusive
    exact exclusive_alone hsteps hrunning hexclusive
  · intro calls before run rest hrun
    exact run_overlaps hrun
  · intro gate hsteps call hrunning hexclusive
    exact (hsteps.separate (.inl nofun)).alone hrunning hexclusive
  · intro calls before run rest hrun
    have harrived : OrderedAdmission.Steps isParallel ⟨[], []⟩ ⟨before ++ (run ++ rest), []⟩ :=
      OrderedAdmission.Steps.arrivals (before ++ (run ++ rest)) []
    exact harrived.trans (OrderedAdmission.Steps.overlap hrun.parallel)

/-- In a model step that is not interrupted each call of the response is answered by one result.
The results of streamed and denied calls are saved first and those of the batch after them, both
in the order of the calls, and an exclusive call never overlaps another call of its batch. -/
theorem every_call_answered {config : Config} {env : Surroundings config}
    {submissionId turnId : String} {modelStep : Nat} {world : World}
    {step : CompletedModelStep config.encoding} {normalized : NormalizedModelStep}
    {saved final : World}
    (h : StepRun env submissionId turnId modelStep world step normalized saved final) :
    Synced final ∧
      (∃ first second,
        Answered config (callIds step.output.toolCalls) saved final first second) ∧
      ∀ isParallel, Overlaps isParallel := by
  obtain ⟨requested, hrequest, hsave⟩ := h.response
  have hstreamed := requestModelStep_returns submissionId turnId modelStep _ _ hrequest step rfl
  obtain ⟨hsynced, hdivided⟩ :=
    normalizeAndPersist_returns submissionId turnId hstreamed _ _ hsave normalized rfl
  obtain ⟨hfinal, hanswered⟩ := runToolStep_returns hdivided step.output.distinct hsynced
    submissionId turnId _ _ h.calls rfl
  exact ⟨hfinal, hanswered, overlaps⟩

/-- Whether the calls of a saved response are run and the turn goes on. -/
def callsRun {config : Config} (env : Surroundings config) (submissionId turnId : String) :
    Except (Stop Error) (Option NormalizedModelStep) × World → Bool
  | (.ok (some normalized), saved) =>
    match runToolStep env submissionId turnId normalized saved with
    | (.ok (.inl ()), _) => true
    | _ => false
  | _ => false

/-- Whether a completed response is saved, its calls are run and the turn goes on. -/
def stepRuns {config : Config} (env : Surroundings config) (submissionId turnId : String) :
    Except (Stop Error) (ModelStepRequest config.encoding) × World → Bool
  | (.ok (.completed step), requested) =>
    callsRun env submissionId turnId
      (normalizeAndPersistModelStep env submissionId turnId step requested)
  | _ => false

theorem stepRun_of_runs {config : Config} {env : Surroundings config} {submissionId turnId : String}
    {modelStep : Nat} {world : World} (hturn : OnTurn turnId world.state)
    (h : stepRuns env submissionId turnId
      (requestModelStep env submissionId turnId modelStep world) = true) :
    ∃ step normalized saved final,
      StepRun env submissionId turnId modelStep world step normalized saved final := by
  rcases hrequest : requestModelStep env submissionId turnId modelStep world with ⟨request, requested⟩
  rw [hrequest] at h
  rcases request with _ | (step | _ | _)
  · cases h
  · rcases hsave : normalizeAndPersistModelStep env submissionId turnId step requested with
      ⟨saving, saved⟩
    rw [stepRuns, hsave] at h
    rcases saving with _ | (_ | normalized)
    · cases h
    · cases h
    · rcases hcalls : runToolStep env submissionId turnId normalized saved with ⟨running, final⟩
      rw [callsRun, hcalls] at h
      rcases running with _ | (done | _)
      · cases h
      · exact ⟨step, normalized, saved, final, hturn, ⟨requested, hrequest, hsave⟩, hcalls⟩
      · cases h
  · cases h
  · cases h

section Samples

open AgentRollback

def readCall (id : String) : ToolCall := ⟨id, "read", .obj []⟩

/-- The item of a call of a reader. -/
def readItem (id : String) : Json :=
  .obj [("arguments", .str ""), ("call_id", .str id), ("name", .str "read"),
    ("type", .str "function_call")]

def twoCalls : ModelOutput plainConfig.encoding where
  output := [readItem "first", readItem "second"]
  text := ""
  content := []
  toolCalls := [readCall "first", readCall "second"]
  endTurn := false
  usage := {}
  decoded := .cons ⟨rfl, rfl, "", rfl, .inr rfl⟩ (.cons ⟨rfl, rfl, "", rfl, .inr rfl⟩ .nil)
  distinct := by decide
  named := by decide
  plain := by
    intro item hitem
    rcases List.mem_cons.mp hitem with rfl | hitem
    · rfl
    · rw [List.mem_singleton.mp hitem]
      rfl

/-- Surroundings in which the first call is streamed before the response ends. -/
def streamingSurroundings : Surroundings plainConfig :=
  { plainSurroundings with
    progress := fun tick =>
      if tick < 14 then .call (some (readCall "first")) else .response (.ok twoCalls) }

/-- A turn before its first model step. -/
def openTurn : World where
  state := { Checkpoint.empty "session" with
    activeExecution :=
      some ⟨"submission", .user, "turn", 0, 0, 0, 0, {}, 0, false, .model, false⟩ }
  transcriptDelta := []
  provider := "route"
  contextWindow := 1000
  pendingSessionStartStop := none
  turnEndTurnId := none
  idleSpent := false
  log := []
  tick := 0

/-- A streamed call and one of the batch after the response are both answered. -/
theorem every_call_answered_twice : ∃ step normalized saved final,
    StepRun streamingSurroundings "submission" "turn" 0 openTurn step normalized saved final ∧
      Synced final ∧ ∃ first second,
        Answered plainConfig (callIds step.output.toolCalls) saved final first second := by
  have hturn : OnTurn "turn" openTurn.state := ⟨_, rfl, rfl⟩
  have hruns : stepRuns streamingSurroundings "submission" "turn"
      (requestModelStep streamingSurroundings "submission" "turn" 0 openTurn) = true := by
    decide +kernel
  obtain ⟨step, normalized, saved, final, hrun⟩ := stepRun_of_runs hturn hruns
  obtain ⟨hsynced, hanswered, _⟩ := every_call_answered hrun
  exact ⟨step, normalized, saved, final, hrun, hsynced, hanswered⟩

end Samples

end MobiusAgent.CallResults
