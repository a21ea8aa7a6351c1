import MobiusAgent.AgentPreparation

/-!
# How many times a session was compacted

The count of `middleware/compaction.rs`. A compaction that rewrites the
context of a model request leaves its context epoch in the session's entry of
the `counts` table; the end of the turn, and the end of the session, load the
checkpoint and count the compaction when its epoch is durable. The entry holds
one epoch. Every context is paired here with the number of compactions that
led to it, which the code does not keep, so that the stored count can be
compared with the compactions of the durable context.
-/

namespace MobiusAgent.CompactionCounts

open JsonValue ProtocolEvents CheckpointRecords ContextItems AgentWorld AgentPreparation

/-- The idle policy of `Compaction`. -/
structure Policy where
  /-- The delay of an idle compaction, in seconds. -/
  idleAfter : Option Nat
  /-- The tokens a chat must have to be compacted while it is idle. -/
  idleMinTokens : Int

/-- `SessionCount`: the durable count and one compaction staged until its checkpoint is
accepted. -/
structure SessionCount where
  count : Nat
  /-- The epoch of the staged compaction. -/
  pendingEpoch : Option Nat
  /-- The input tokens the last model preparation saw. -/
  observed : Int
  /-- Whether the idle timer should fire. -/
  idleArmed : Bool
  deriving DecidableEq

/-- A model context and the compactions that led to it. -/
structure Context where
  state : Checkpoint
  /-- The accepted compactions of the context. -/
  compactions : Nat

/-- One session: its durable part, its runner and its entries in the tables of the
middleware. -/
structure Session where
  durable : Option Context
  /-- The count in the middleware state of the store. -/
  stored : Option Nat
  live : Option Context
  counts : Option SessionCount
  /-- The entry of the session in `unloaded`. -/
  unloaded : Option Nat

/-- A session that was not opened yet. -/
def Session.unopened (durable : Option Checkpoint) : Session :=
  ⟨durable.map fun state => ⟨state, 0⟩, none, none, none, none⟩

def Session.durableCompactions (session : Session) : Nat :=
  (session.durable.map Context.compactions).getD 0

/-- The count that a restart reads. -/
def Session.storedCount (session : Session) : Nat := session.stored.getD 0

/-- Whether an epoch is durable. -/
def Session.accepts (session : Session) (epoch : Nat) : Bool :=
  session.durable.any fun context => decide (epoch ≤ context.state.contextEpoch)

/-- Which calls of the store succeed in one settlement. -/
structure Storage where
  loads : Bool
  saves : Bool

/-- The error of a store that does not answer. -/
def storeFailure : Error := .checkpoint "checkpoint store failed"

def countOverflow : Error := .checkpoint "compaction count overflow"

/-- The entry after the settlement of an epoch. -/
def SessionCount.settled (entry : SessionCount) (pending count : Nat) : SessionCount :=
  { entry with
    count := count
    pendingEpoch := if entry.pendingEpoch = some pending then none else entry.pendingEpoch }

/-- The count after a staged epoch was compared with the durable one, and whether it was
saved. -/
def settledCount (storage : Storage) (accepted : Bool) (count : Nat) :
    Except Error (Nat × Bool) :=
  if !storage.loads then .error storeFailure
  else if accepted then
    match checkedAdd count 1 with
    | none => .error countOverflow
    | some next => if storage.saves then .ok (next, true) else .error storeFailure
  else .ok (count, false)

def settle (storage : Storage) (session : Session) : Except Error Unit × Session :=
  match session.counts with
  | none => (.ok (), session)
  | some entry =>
    match entry.pendingEpoch with
    | none => (.ok (), session)
    | some pending =>
      match settledCount storage (session.accepts pending) entry.count with
      | .error error => (.error error, session)
      | .ok (count, saved) =>
        (.ok (), { session with
          stored := if saved then some count else session.stored
          counts := some (entry.settled pending count) })

def armIdle (policy : Policy) (idle : Bool) (session : Session) : Session :=
  { session with
    counts := session.counts.map fun entry =>
      { entry with
        idleArmed := !idle && policy.idleAfter.isSome &&
          decide (policy.idleMinTokens ≤ entry.observed) } }

def turnEnd (policy : Policy) (storage : Storage) (idle : Bool) (session : Session) :
    Except Error Unit × Session :=
  let settled := settle storage session
  (settled.1, armIdle policy idle settled.2)

/-- `session_end`, after which the runner is gone. -/
def sessionEnd (storage : Storage) (session : Session) : Except Error Unit × Session :=
  let settled := settle storage session
  (settled.1, { settled.2 with
    live := none
    counts := none
    unloaded := (settled.2.counts.map SessionCount.count).orElse fun _ => settled.2.unloaded })

/-- `session_start`: an entry that exists is kept. -/
def sessionStart (loads : Bool) (session : Session) : Session :=
  match session.counts with
  | some _ => session
  | none =>
    if loads then { session with counts := some ⟨session.storedCount, none, 0, false⟩ }
    else session

def isCompaction : ModelHookOp → Bool
  | .rewriteInput .compaction _ => true
  | _ => false

/-- The epoch that `stage` leaves after the operations of the hooks, up to the first that
fails. -/
def stagedEpoch (encoding : Encoding) (sequence : Nat) (original : List Json) :
    ModelStaging → List ModelHookOp → Option Nat
  | _, [] => none
  | staging, op :: rest =>
    match applyHookOp encoding sequence original staging op with
    | .error _ => none
    | .ok next =>
      (stagedEpoch encoding sequence original next rest).orElse fun _ =>
        if isCompaction op then some next.contextEpoch else none

/-- Whether a compaction changes the context it is given. -/
def compacts (encoding : Encoding) (sequence : Nat) (original : List Json) :
    ModelStaging → List ModelHookOp → Bool
  | _, [] => false
  | staging, op :: rest =>
    match applyHookOp encoding sequence original staging op with
    | .error _ => false
    | .ok next =>
      (match op with
        | .rewriteInput .compaction input => decide (staging.durableInput.input original ≠ input)
        | _ => false) || compacts encoding sequence original next rest

/-- One preparation of a model request. -/
structure Request where
  preparation : Preparation
  /-- The sequence of the save that follows. -/
  provisional : Nat
  /-- The context belongs to another model. -/
  foreign : Bool
  interrupted : Bool
  /-- The tokens that `pre_model` observed. -/
  observed : Option Int
  idle : Bool
  saves : Bool

/-- The operations of the hooks on a staged copy of the live state. -/
def Request.staged (encoding : Encoding) (request : Request) (state : Checkpoint) :
    ModelStaging × Option Error :=
  applyHookOps encoding request.provisional state.context (emptyStaging state)
    request.preparation.ops

def Request.stagedEpoch (encoding : Encoding) (request : Request) (state : Checkpoint) :
    Option Nat :=
  CompactionCounts.stagedEpoch encoding request.provisional state.context (emptyStaging state)
    request.preparation.ops

/-- Whether a preparation compacts the context. -/
def Request.compacts (encoding : Encoding) (request : Request) (state : Checkpoint) : Bool :=
  CompactionCounts.compacts encoding request.provisional state.context (emptyStaging state)
    request.preparation.ops

/-- The accepted changes of a preparation; an error or an interrupt drops them. -/
def Request.accepted (encoding : Encoding) (request : Request) (state : Checkpoint) :
    Option ModelStaging :=
  let staged := request.staged encoding state
  if request.interrupted then none
  else match staged.2, request.preparation.outcome with
    | none, .ok input =>
      (settleStaging state request.foreign staged.1 (.ok input)).toOption
    | _, _ => none

/-- The live state with accepted changes. -/
def applyChanges (staging : ModelStaging) (state : Checkpoint) : Checkpoint :=
  { state with
    context := if staging.checkpointChanged then staging.durableInput.commit state.context
      else state.context
    deliveredOnce := if staging.checkpointChanged then staging.deliveredOnce
      else state.deliveredOnce
    contextEpoch := staging.contextEpoch
    lastUsage := if staging.rewriteReasons.isEmpty then state.lastUsage else none
    lastContextRewrite := if staging.rewriteReasons.isEmpty then state.lastContextRewrite
      else some ⟨staging.contextEpoch, staging.rewriteReasons⟩ }

/-- `stage`, `observe` and `disarm_idle` of one preparation. -/
def SessionCount.prepared (entry : SessionCount) (request : Request) (staged : Option Nat) :
    SessionCount :=
  { entry with
    pendingEpoch := staged.orElse fun _ => entry.pendingEpoch
    observed := request.observed.getD entry.observed
    idleArmed := entry.idleArmed && !request.idle }

/-- The live state is saved, or the save fails. -/
def save (saves : Bool) (session : Session) : Session :=
  if saves then { session with durable := session.live.orElse fun _ => session.durable }
  else session

/-- `prepare_model_phase`: changes are saved when the hooks made any. A preparation that was
not accepted leaves the live state to the saves that come after it. -/
def prepare (encoding : Encoding) (request : Request) (session : Session) : Session :=
  match session.live with
  | none => session
  | some context =>
    let staged := { session with
      counts := session.counts.map fun entry =>
        entry.prepared request (request.stagedEpoch encoding context.state) }
    match request.accepted encoding context.state with
    | none => staged
    | some changes =>
      let next : Context := ⟨applyChanges changes context.state,
        context.compactions + if request.compacts encoding context.state then 1 else 0⟩
      let prepared := { staged with live := some next }
      if changes.checkpointChanged || !changes.usage.isEmpty then save request.saves prepared
      else prepared

inductive RunnerOp where
  /-- The session starts, and the middleware state is read or not. -/
  | sessionStart (loads : Bool)
  /-- The runner takes its live state. -/
  | begin (state : Checkpoint)
  | prepare (request : Request)
  /-- The live state changes elsewhere than in its context epoch. -/
  | update (state : Checkpoint)
  | save (saves : Bool)
  | turnEnd (storage : Storage) (idle : Bool)
  | sessionEnd (storage : Storage)
  | crash

/-- The epoch a runner begins with. -/
def Session.durableEpoch (session : Session) : Nat :=
  (session.durable.map fun context => context.state.contextEpoch).getD 0

/-- The runner takes the durable state, as its start changed it. -/
def begin (state : Checkpoint) (session : Session) : Session :=
  if session.live.isNone && session.counts.isSome &&
      state.contextEpoch == session.durableEpoch then
    { session with live := some ⟨state, session.durableCompactions⟩ }
  else session

/-- The live state as another part of the runner left it. -/
def update (state : Checkpoint) (session : Session) : Session :=
  { session with
    live := session.live.map fun context =>
      if state.contextEpoch = context.state.contextEpoch then { context with state := state }
      else context }

/-- A crash keeps the store. -/
def crash (session : Session) : Session :=
  ⟨session.durable, session.stored, none, none, none⟩

def step (encoding : Encoding) (policy : Policy) (session : Session) : RunnerOp → Session
  | .sessionStart loads => sessionStart loads session
  | .begin state => begin state session
  | .prepare request => prepare encoding request session
  | .update state => update state session
  | .save saves => save saves session
  | .turnEnd storage idle => (turnEnd policy storage idle session).2
  | .sessionEnd storage => (sessionEnd storage session).2
  | .crash => crash session

def run (encoding : Encoding) (policy : Policy) (session : Session) (ops : List RunnerOp) :
    Session :=
  ops.foldl (step encoding policy) session

/-- An operation that settles the count. -/
def Settles (policy : Policy) (session : Session) : RunnerOp → Prop
  | .turnEnd storage idle => (turnEnd policy storage idle session).1 = .ok ()
  | .sessionEnd storage => (sessionEnd storage session).1 = .ok ()
  | _ => False

/-- Whether an accepted preparation rewrites the context. -/
def Request.rewrites (encoding : Encoding) (request : Request) (state : Checkpoint) : Bool :=
  (request.accepted encoding state).any fun changes =>
    decide (changes.contextEpoch ≠ state.contextEpoch)

/-- The condition on one preparation: a compaction changes the context and finds no live
compaction that waits for its settlement, and no other rewrite takes the epoch of a
compaction that was dropped. -/
def Request.Counted (encoding : Encoding) (request : Request) (context : Context)
    (entry : SessionCount) : Prop :=
  ((request.stagedEpoch encoding context.state).isSome →
    request.compacts encoding context.state = true ∧
      ∀ epoch, entry.pendingEpoch = some epoch → context.state.contextEpoch < epoch) ∧
  ((request.stagedEpoch encoding context.state).isNone →
    request.rewrites encoding context.state = true →
      ∀ epoch, entry.pendingEpoch = some epoch → epoch ≤ context.state.contextEpoch)

/-- The condition on one operation. A turn does not end while a compaction is live and its
save failed; a session does not end, and the process does not crash, with a durable
compaction that cannot be counted any more. -/
def Counted (encoding : Encoding) (session : Session) : RunnerOp → Prop
  | .prepare request => ∀ context entry, session.live = some context →
      session.counts = some entry → request.Counted encoding context entry
  | .turnEnd storage _ => storage.loads = true → ∀ context entry epoch,
      session.live = some context → session.counts = some entry →
      entry.pendingEpoch = some epoch → epoch ≤ context.state.contextEpoch →
      session.accepts epoch = true
  | .sessionEnd storage => ∀ entry epoch, session.counts = some entry →
      entry.pendingEpoch = some epoch → session.accepts epoch = true →
      storage.loads = true ∧ storage.saves = true ∧ entry.count < u64Max
  | .crash => ∀ entry epoch, session.counts = some entry → entry.pendingEpoch = some epoch →
      session.accepts epoch = false
  | _ => True

/-- Every operation of a run meets the condition. -/
def CountedRun (encoding : Encoding) (policy : Policy) (session : Session) :
    List RunnerOp → Prop
  | [] => True
  | op :: rest => Counted encoding session op ∧
      CountedRun encoding policy (step encoding policy session op) rest

section Boundaries

variable {encoding : Encoding} {sequence base : Nat} {original : List Json}

/-- The epoch of a staged context: it advances with the first rewrite. -/
def Boundary (base : Nat) (staging : ModelStaging) : Prop :=
  staging.contextEpoch = base + if staging.rewriteReasons.isEmpty then 0 else 1

variable {staging next : ModelStaging} {op : ModelHookOp} {ops : List ModelHookOp}
  {state : Checkpoint}

theorem recordRewrite_boundary {reason : ContextRewriteReason} (hbase : Boundary base staging)
    (h : recordRewrite reason staging = .ok next) :
    Boundary base next ∧ next.rewriteReasons.isEmpty = false := by
  have hreasons : (if staging.rewriteReasons.contains reason then staging.rewriteReasons
      else staging.rewriteReasons ++ [reason]).isEmpty = false := by
    split
    · rename_i hmem
      cases hlist : staging.rewriteReasons with
      | nil => simp [hlist] at hmem
      | cons => rfl
    · simp
  unfold recordRewrite at h
  unfold Boundary at hbase ⊢
  generalize (if staging.rewriteReasons.contains reason then staging.rewriteReasons
    else staging.rewriteReasons ++ [reason]) = reasons at h hreasons
  simp only at h
  cases hempty : staging.rewriteReasons.isEmpty with
  | true =>
    simp only [hempty, if_true, Nat.add_zero] at h hbase
    split at h
    · cases h
    · rename_i epoch hadd
      cases h
      have hepoch := checkedAdd_eq_some hadd
      simp only [hreasons, Bool.false_eq_true, if_false, and_true]
      omega
  | false =>
    simp only [hempty, Bool.false_eq_true, if_false] at h hbase
    cases h
    simp only [hreasons, Bool.false_eq_true, if_false, and_true]
    exact hbase

theorem applyHookOp_boundary (hbase : Boundary base staging)
    (h : applyHookOp encoding sequence original staging op = .ok next) :
    Boundary base next ∧
      (staging.rewriteReasons.isEmpty = false → next.rewriteReasons.isEmpty = false) := by
  cases op with
  | rewriteInput reason input =>
    simp only [applyHookOp] at h
    split at h
    · cases h
      exact ⟨hbase, id⟩
    · split at h
      · cases h
      · rename_i recorded hrecord
        cases h
        obtain ⟨hnext, hreasons⟩ := recordRewrite_boundary hbase hrecord
        exact ⟨hnext, fun _ => hreasons⟩
  | _ =>
    simp only [applyHookOp] at h
    cases h
    exact ⟨hbase, id⟩

theorem applyHookOp_compaction {input : List Json} (hbase : Boundary base staging)
    (hchanged : staging.durableInput.input original ≠ input)
    (h : applyHookOp encoding sequence original staging (.rewriteInput .compaction input) =
      .ok next) : next.rewriteReasons.isEmpty = false := by
  simp only [applyHookOp, if_neg hchanged] at h
  split at h
  · cases h
  · rename_i recorded hrecord
    cases h
    exact (recordRewrite_boundary hbase hrecord).2

theorem stagedEpoch_rewritten {epoch : Nat} (hbase : Boundary base staging)
    (hreasons : staging.rewriteReasons.isEmpty = false)
    (h : stagedEpoch encoding sequence original staging ops = some epoch) : epoch = base + 1 := by
  induction ops generalizing staging with
  | nil => simp [stagedEpoch] at h
  | cons op rest ih =>
    cases hop : applyHookOp encoding sequence original staging op with
    | error error =>
      simp only [stagedEpoch, hop] at h
      cases h
    | ok next =>
      simp only [stagedEpoch, hop] at h
      obtain ⟨hnext, hkept⟩ := applyHookOp_boundary hbase hop
      cases hrest : stagedEpoch encoding sequence original next rest with
      | some later =>
        rw [hrest] at h
        cases h
        exact ih hnext (hkept hreasons) hrest
      | none =>
        rw [hrest] at h
        simp only [Option.orElse_none] at h
        cases hcompaction : isCompaction op with
        | false =>
          simp only [hcompaction, Bool.false_eq_true, if_false] at h
          cases h
        | true =>
          simp only [hcompaction, if_true] at h
          cases h
          unfold Boundary at hnext
          simpa only [hkept hreasons, Bool.false_eq_true, if_false] using hnext

theorem compacts_cons {rest : List ModelHookOp}
    (hop : applyHookOp encoding sequence original staging op = .ok next)
    (h : compacts encoding sequence original staging (op :: rest) = true) :
    (∃ input, op = .rewriteInput .compaction input ∧
      staging.durableInput.input original ≠ input) ∨
      compacts encoding sequence original next rest = true := by
  simp only [compacts, hop, Bool.or_eq_true] at h
  cases h with
  | inr hrest => exact .inr hrest
  | inl hchanges =>
    refine .inl ?_
    cases op with
    | rewriteInput reason input =>
      cases reason with
      | compaction => exact ⟨input, rfl, of_decide_eq_true hchanges⟩
      | _ => cases hchanges
    | _ => cases hchanges

theorem compacts_error {rest : List ModelHookOp} {error : Error}
    (hop : applyHookOp encoding sequence original staging op = .error error) :
    compacts encoding sequence original staging (op :: rest) = false := by
  simp only [compacts, hop]

theorem stagedEpoch_compacts (hbase : Boundary base staging)
    (h : compacts encoding sequence original staging ops = true) :
    stagedEpoch encoding sequence original staging ops = some (base + 1) := by
  induction ops generalizing staging with
  | nil => simp [compacts] at h
  | cons op rest ih =>
    cases hop : applyHookOp encoding sequence original staging op with
    | error error =>
      rw [compacts_error hop] at h
      cases h
    | ok next =>
      have hnext := (applyHookOp_boundary hbase hop).1
      simp only [stagedEpoch, hop]
      cases compacts_cons hop h with
      | inr hrest =>
        rw [ih hnext hrest]
        rfl
      | inl hchanged =>
        obtain ⟨input, rfl, hchanges⟩ := hchanged
        have hreasons := applyHookOp_compaction hbase hchanges hop
        cases hstaged : stagedEpoch encoding sequence original next rest with
        | some later =>
          rw [stagedEpoch_rewritten hnext hreasons hstaged]
          rfl
        | none =>
          unfold Boundary at hnext
          simp only [hreasons, Bool.false_eq_true, if_false] at hnext
          simp [isCompaction, hnext]

theorem applyHookOps_boundary {staging : ModelStaging} {ops : List ModelHookOp}
    (hbase : Boundary base staging) :
    Boundary base (applyHookOps encoding sequence original staging ops).1 ∧
      (staging.rewriteReasons.isEmpty = false →
        (applyHookOps encoding sequence original staging ops).1.rewriteReasons.isEmpty =
          false) := by
  induction ops generalizing staging with
  | nil => exact ⟨hbase, id⟩
  | cons op rest ih =>
    cases hop : applyHookOp encoding sequence original staging op with
    | error error =>
      simp only [applyHookOps, hop]
      exact ⟨hbase, id⟩
    | ok next =>
      simp only [applyHookOps, hop]
      obtain ⟨hnext, hkept⟩ := applyHookOp_boundary hbase hop
      obtain ⟨hfinal, hlater⟩ := ih hnext
      exact ⟨hfinal, fun hreasons => hlater (hkept hreasons)⟩

theorem applyHookOps_compacts (hbase : Boundary base staging)
    (h : compacts encoding sequence original staging ops = true) :
    (applyHookOps encoding sequence original staging ops).1.rewriteReasons.isEmpty = false := by
  induction ops generalizing staging with
  | nil => simp [compacts] at h
  | cons op rest ih =>
    cases hop : applyHookOp encoding sequence original staging op with
    | error error =>
      rw [compacts_error hop] at h
      cases h
    | ok next =>
      have hnext := (applyHookOp_boundary hbase hop).1
      simp only [applyHookOps, hop]
      cases compacts_cons hop h with
      | inr hrest => exact ih hnext hrest
      | inl hchanged =>
        obtain ⟨input, rfl, hchanges⟩ := hchanged
        exact (applyHookOps_boundary hnext).2 (applyHookOp_compaction hbase hchanges hop)

theorem settleStaging_boundary {foreign : Bool} {input : Option (List Json)}
    (hbase : Boundary base staging)
    (h : settleStaging state foreign staging (.ok input) = .ok next) :
    Boundary base next ∧
      (staging.rewriteReasons.isEmpty = false → next.rewriteReasons.isEmpty = false) := by
  simp only [settleStaging] at h
  split at h
  · unfold stripForeignReasoning at h
    simp only at h
    split at h
    · split at h
      · cases h
      · rename_i recorded hrecord
        cases h
        obtain ⟨hnext, hreasons⟩ := recordRewrite_boundary hbase hrecord
        exact ⟨hnext, fun _ => hreasons⟩
    · cases h
      exact ⟨hbase, id⟩
  · cases h
    exact ⟨hbase, id⟩

/-- An accepted preparation advances the epoch by at most one, and by one when it
compacts. -/
theorem accepted_epoch {request : Request} {changes : ModelStaging}
    (h : request.accepted encoding state = some changes) :
    state.contextEpoch ≤ changes.contextEpoch ∧
      (request.compacts encoding state = true →
        changes.contextEpoch = state.contextEpoch + 1) := by
  have hbase : Boundary state.contextEpoch (emptyStaging state) := rfl
  obtain ⟨hstaged, -⟩ := @applyHookOps_boundary encoding request.provisional state.contextEpoch
    state.context _ request.preparation.ops hbase
  unfold Request.accepted Request.staged at h
  simp only at h
  split at h
  · cases h
  · split at h
    · rename_i input hops houtcome
      cases hsettled : settleStaging state request.foreign
          (applyHookOps encoding request.provisional state.context (emptyStaging state)
            request.preparation.ops).1 (.ok input) with
      | error error =>
        rw [hsettled] at h
        cases h
      | ok settled =>
        rw [hsettled] at h
        cases h
        obtain ⟨hfinal, hkept⟩ := settleStaging_boundary hstaged hsettled
        unfold Boundary at hfinal
        constructor
        · omega
        · intro hcompacts
          have hreasons := hkept (applyHookOps_compacts hbase hcompacts)
          simpa only [hreasons, Bool.false_eq_true, if_false] using hfinal
    · cases h

theorem staged_of_compacts {request : Request} (h : request.compacts encoding state = true) :
    request.stagedEpoch encoding state = some (state.contextEpoch + 1) :=
  stagedEpoch_compacts rfl h

end Boundaries

section Balance

variable {encoding : Encoding} {policy : Policy} {session : Session}

/-- What the stored count owes to a staged epoch: a durable one is not counted yet, and one
that is live but not durable is not part of the durable context. -/
def Ledger (session : Session) (context : Context) : Option Nat → Prop
  | none => session.storedCount = session.durableCompactions ∧
      context.compactions = session.durableCompactions
  | some epoch =>
    if session.accepts epoch then session.storedCount + 1 = session.durableCompactions ∧
        context.compactions = session.durableCompactions
    else session.storedCount = session.durableCompactions ∧
      context.compactions = session.durableCompactions +
        if epoch ≤ context.state.contextEpoch then 1 else 0

/-- The invariant of a counted run. -/
structure Balanced (session : Session) : Prop where
  closed : session.counts = none →
    session.live = none ∧ session.storedCount = session.durableCompactions
  entry : ∀ entry, session.counts = some entry → entry.count = session.storedCount
  waiting : ∀ entry, session.counts = some entry → session.live = none →
    entry.pendingEpoch = none ∧ session.storedCount = session.durableCompactions
  /-- A runner is not behind the store, and the ledger is balanced. -/
  running : ∀ entry context, session.counts = some entry → session.live = some context →
    session.durableEpoch ≤ context.state.contextEpoch ∧
      Ledger session context entry.pendingEpoch

variable {epoch : Nat} {pending : Option Nat} {context : Context}

theorem accepts_le (h : session.accepts epoch = true) : epoch ≤ session.durableEpoch := by
  unfold Session.accepts at h
  unfold Session.durableEpoch
  cases hdurable : session.durable with
  | none => simp [hdurable] at h
  | some context => simpa [hdurable] using h

theorem unopened_balanced (durable : Option Checkpoint) :
    Balanced (Session.unopened durable) where
  closed _ := by
    refine ⟨rfl, ?_⟩
    cases durable with
    | none | some state => rfl
  entry _ h := by cases h
  waiting _ h := by cases h
  running _ _ h := by cases h

theorem Balanced.sessionStart (hbalanced : Balanced session) (loads : Bool) :
    Balanced (CompactionCounts.sessionStart loads session) := by
  unfold CompactionCounts.sessionStart
  cases hcounts : session.counts with
  | some entry => exact hbalanced
  | none =>
    obtain ⟨hlive, hcount⟩ := hbalanced.closed hcounts
    cases loads with
    | false => exact hbalanced
    | true =>
      constructor
      · intro h
        cases h
      · intro entry h
        cases h
        rfl
      · intro entry h _
        cases h
        exact ⟨rfl, hcount⟩
      · intro entry context _ h
        have hnone : session.live = some context := h
        rw [hlive] at hnone
        cases hnone

theorem Balanced.begin (hbalanced : Balanced session) (state : Checkpoint) :
    Balanced (CompactionCounts.begin state session) := by
  unfold CompactionCounts.begin
  split
  · rename_i hbegins
    simp only [Bool.and_eq_true, Option.isNone_iff_eq_none, beq_iff_eq] at hbegins
    obtain ⟨⟨hlive, hopen⟩, hepoch⟩ := hbegins
    constructor
    · intro h
      have hnone : session.counts = none := h
      rw [hnone] at hopen
      cases hopen
    · exact hbalanced.entry
    · intro entry _ h
      cases h
    · intro entry context hentry hcontext
      cases hcontext
      obtain ⟨hpending, hcount⟩ := hbalanced.waiting entry hentry hlive
      refine ⟨?_, ?_⟩
      · show session.durableEpoch ≤ state.contextEpoch
        omega
      · rw [hpending]
        exact ⟨hcount, rfl⟩
  · exact hbalanced

theorem Ledger.congr {next : Context} (h : Ledger session context pending)
    (hepoch : next.state.contextEpoch = context.state.contextEpoch)
    (hcompactions : next.compactions = context.compactions) : Ledger session next pending := by
  cases pending with
  | none => exact ⟨h.1, hcompactions.trans h.2⟩
  | some epoch =>
    unfold Ledger at h ⊢
    simp only at h ⊢
    rw [hepoch, hcompactions]
    exact h

theorem Balanced.update (hbalanced : Balanced session) (state : Checkpoint) :
    Balanced (CompactionCounts.update state session) := by
  unfold CompactionCounts.update
  cases hlive : session.live with
  | none =>
    have hsame : { session with live := (none : Option Context).map fun context =>
        if state.contextEpoch = context.state.contextEpoch then { context with state := state }
        else context } = session := by
      rw [Option.map_none, ← hlive]
    rw [hsame]
    exact hbalanced
  | some context =>
    constructor
    · intro h
      have hnone := (hbalanced.closed h).1
      rw [hlive] at hnone
      cases hnone
    · exact hbalanced.entry
    · intro entry _ h
      cases h
    · intro entry next hentry hnext
      obtain ⟨hahead, hledger⟩ := hbalanced.running entry context hentry hlive
      rw [Option.map_some] at hnext
      cases hnext
      split
      · rename_i hepoch
        refine ⟨?_, hledger.congr hepoch rfl⟩
        show session.durableEpoch ≤ state.contextEpoch
        omega
      · exact ⟨hahead, hledger⟩

theorem Ledger.save (hahead : session.durableEpoch ≤ context.state.contextEpoch)
    (h : Ledger session context pending) :
    Ledger { session with durable := some context } context pending := by
  cases pending with
  | none => exact ⟨h.1.trans h.2.symm, rfl⟩
  | some epoch =>
    have haccepts : Session.accepts { session with durable := some context } epoch =
        decide (epoch ≤ context.state.contextEpoch) := rfl
    have hcompactions : Session.durableCompactions { session with durable := some context } =
        context.compactions := rfl
    have hstored : Session.storedCount { session with durable := some context } =
        session.storedCount := rfl
    unfold Ledger at h ⊢
    simp only at h ⊢
    rw [haccepts, hcompactions, hstored]
    by_cases hlate : epoch ≤ context.state.contextEpoch
    · simp only [hlate, decide_true, if_true, and_true]
      split at h
      · omega
      · omega
    · simp only [hlate, decide_false, Bool.false_eq_true, if_false, Nat.add_zero, and_true]
      split at h
      · rename_i hdurable
        have hle := accepts_le hdurable
        omega
      · omega

theorem Balanced.save (hbalanced : Balanced session) (saves : Bool) :
    Balanced (CompactionCounts.save saves session) := by
  unfold CompactionCounts.save
  cases saves with
  | false => exact hbalanced
  | true =>
    obtain ⟨durable, stored, live, counts, unloaded⟩ := session
    cases live with
    | none => exact hbalanced
    | some context =>
      constructor
      · intro h
        cases (hbalanced.closed h).1
      · exact hbalanced.entry
      · intro entry _ h
        cases h
      · intro entry next hentry hnext
        cases hnext
        obtain ⟨hahead, hledger⟩ := hbalanced.running entry context hentry rfl
        exact ⟨Nat.le_refl _, hledger.save hahead⟩

/-- What a settlement can do. -/
inductive Settlement (storage : Storage) (session : Session) :
    Except Error Unit × Session → Prop where
  | nothing : (∀ entry, session.counts = some entry → entry.pendingEpoch = none) →
      Settlement storage session (.ok (), session)
  /-- The store fails, or the count is exhausted. -/
  | failed (error : Error) (entry : SessionCount) (epoch : Nat) :
      session.counts = some entry → entry.pendingEpoch = some epoch →
      (session.accepts epoch = true →
        ¬(storage.loads = true ∧ storage.saves = true ∧ entry.count < u64Max)) →
      Settlement storage session (.error error, session)
  | counted (entry : SessionCount) (epoch : Nat) :
      session.counts = some entry → entry.pendingEpoch = some epoch →
      session.accepts epoch = true →
      Settlement storage session (.ok (), { session with
        stored := some (entry.count + 1)
        counts := some { entry with count := entry.count + 1, pendingEpoch := none } })
  /-- The staged epoch is not durable. -/
  | dropped (entry : SessionCount) (epoch : Nat) :
      session.counts = some entry → entry.pendingEpoch = some epoch →
      storage.loads = true → session.accepts epoch = false →
      Settlement storage session (.ok (), { session with
        counts := some { entry with pendingEpoch := none } })

theorem settled_self {entry : SessionCount} (h : entry.pendingEpoch = some epoch) (count : Nat) :
    entry.settled epoch count = { entry with count := count, pendingEpoch := none } := by
  simp [SessionCount.settled, h]

theorem settle_cases (storage : Storage) (session : Session) :
    Settlement storage session (settle storage session) := by
  unfold settle
  cases hcounts : session.counts with
  | none =>
    refine .nothing ?_
    intro entry h
    rw [hcounts] at h
    cases h
  | some entry =>
    simp only
    cases hpending : entry.pendingEpoch with
    | none =>
      refine .nothing ?_
      intro other h
      rw [hcounts] at h
      cases h
      exact hpending
    | some epoch =>
      simp only [settledCount]
      cases hloads : storage.loads with
      | false =>
        refine .failed storeFailure entry epoch hcounts hpending ?_
        intro _ h
        rw [hloads] at h
        cases h.1
      | true =>
        cases haccepts : session.accepts epoch with
        | false =>
          simp only [Bool.not_true, Bool.false_eq_true, if_false]
          rw [settled_self hpending]
          exact .dropped entry epoch hcounts hpending hloads haccepts
        | true =>
          simp only [Bool.not_true, Bool.false_eq_true, if_false, if_true]
          cases hnext : checkedAdd entry.count 1 with
          | none =>
            refine .failed countOverflow entry epoch hcounts hpending ?_
            intro _ h
            unfold checkedAdd at hnext
            have hroom : entry.count + 1 ≤ u64Max := h.2.2
            rw [if_pos hroom] at hnext
            cases hnext
          | some count =>
            cases hsaves : storage.saves with
            | false =>
              refine .failed storeFailure entry epoch hcounts hpending ?_
              intro _ h
              rw [hsaves] at h
              cases h.2.1
            | true =>
              simp only [if_true]
              rw [settled_self hpending, checkedAdd_eq_some hnext]
              exact .counted entry epoch hcounts hpending haccepts

theorem Balanced.unstaged (hbalanced : Balanced session)
    (hnone : ∀ entry, session.counts = some entry → entry.pendingEpoch = none) :
    session.storedCount = session.durableCompactions := by
  cases hcounts : session.counts with
  | none => exact (hbalanced.closed hcounts).2
  | some entry =>
    cases hlive : session.live with
    | none => exact (hbalanced.waiting entry hcounts hlive).2
    | some context =>
      have hledger := (hbalanced.running entry context hcounts hlive).2
      rw [hnone entry hcounts] at hledger
      exact hledger.1

theorem Balanced.staged (hbalanced : Balanced session) {entry : SessionCount}
    (hcounts : session.counts = some entry) (hpending : entry.pendingEpoch = some epoch) :
    ∃ context, session.live = some context ∧
      session.durableEpoch ≤ context.state.contextEpoch ∧
      Ledger session context (some epoch) := by
  cases hlive : session.live with
  | none =>
    have hnone := (hbalanced.waiting entry hcounts hlive).1
    rw [hpending] at hnone
    cases hnone
  | some context =>
    have hrunning := hbalanced.running entry context hcounts hlive
    rw [hpending] at hrunning
    exact ⟨context, rfl, hrunning⟩

theorem Balanced.settled (hbalanced : Balanced session) {entry : SessionCount}
    {context : Context} {stored : Option Nat} (hcounts : session.counts = some entry)
    (hlive : session.live = some context)
    (hcount : stored.getD 0 = session.durableCompactions)
    (hcompactions : context.compactions = session.durableCompactions) :
    Balanced { session with
      stored := stored
      counts := some { entry with count := stored.getD 0, pendingEpoch := none } } := by
  constructor
  · intro h
    cases h
  · intro other h
    cases h
    rfl
  · intro other h _
    cases h
    exact ⟨rfl, hcount⟩
  · intro other next h hnext
    cases h
    have hsame : some context = some next := hlive.symm.trans hnext
    cases hsame
    exact ⟨(hbalanced.running entry context hcounts hlive).1, hcount, hcompactions⟩

/-- The end of a turn keeps the balance, and when it settles the count is right. -/
theorem Balanced.settle (hbalanced : Balanced session) {storage : Storage}
    (hcounted : storage.loads = true → ∀ context entry epoch, session.live = some context →
      session.counts = some entry → entry.pendingEpoch = some epoch →
      epoch ≤ context.state.contextEpoch → session.accepts epoch = true) :
    Balanced (CompactionCounts.settle storage session).2 ∧
      ((CompactionCounts.settle storage session).1 = .ok () →
        (CompactionCounts.settle storage session).2.storedCount =
          (CompactionCounts.settle storage session).2.durableCompactions) := by
  have hcases := settle_cases storage session
  generalize CompactionCounts.settle storage session = result at hcases ⊢
  cases hcases with
  | nothing hnone => exact ⟨hbalanced, fun _ => hbalanced.unstaged hnone⟩
  | failed error entry epoch hcounts hpending hfails =>
    refine ⟨hbalanced, ?_⟩
    intro h
    cases h
  | counted entry epoch hcounts hpending haccepts =>
    obtain ⟨context, hlive, -, hledger⟩ := hbalanced.staged hcounts hpending
    have hentry := hbalanced.entry entry hcounts
    simp only [Ledger, haccepts, if_true] at hledger
    have hcount : entry.count + 1 = session.durableCompactions := by omega
    exact ⟨@Balanced.settled _ hbalanced _ _ (some (entry.count + 1)) hcounts hlive hcount
      hledger.2, fun _ => hcount⟩
  | dropped entry epoch hcounts hpending hloads haccepts =>
    obtain ⟨context, hlive, -, hledger⟩ := hbalanced.staged hcounts hpending
    have hentry := hbalanced.entry entry hcounts
    have hlater : ¬epoch ≤ context.state.contextEpoch := by
      intro hle
      have hdurable := hcounted hloads context entry epoch hlive hcounts hpending hle
      rw [haccepts] at hdurable
      cases hdurable
    simp only [Ledger, haccepts, Bool.false_eq_true, if_false, if_neg hlater,
      Nat.add_zero] at hledger
    have hnext := @Balanced.settled _ hbalanced _ _ session.stored hcounts hlive hledger.1
      hledger.2
    have hsame : session.stored.getD 0 = entry.count := hentry.symm
    rw [hsame] at hnext
    exact ⟨hnext, fun _ => hledger.1⟩

theorem Balanced.armIdle (hbalanced : Balanced session) (idle : Bool) :
    Balanced (CompactionCounts.armIdle policy idle session) := by
  have hentry : ∀ entry, (CompactionCounts.armIdle policy idle session).counts = some entry →
      ∃ before, session.counts = some before ∧ entry.count = before.count ∧
        entry.pendingEpoch = before.pendingEpoch := by
    intro entry h
    obtain ⟨before, hbefore, rfl⟩ := Option.map_eq_some_iff.mp h
    exact ⟨before, hbefore, rfl, rfl⟩
  constructor
  · intro h
    exact hbalanced.closed (Option.map_eq_none_iff.mp h)
  · intro entry h
    obtain ⟨before, hbefore, hcount, -⟩ := hentry entry h
    exact hcount.trans (hbalanced.entry before hbefore)
  · intro entry h hlive
    obtain ⟨before, hbefore, -, hpending⟩ := hentry entry h
    rw [hpending]
    exact hbalanced.waiting before hbefore hlive
  · intro entry context h hlive
    obtain ⟨before, hbefore, -, hpending⟩ := hentry entry h
    rw [hpending]
    exact hbalanced.running before context hbefore hlive

theorem Balanced.sessionEnd (hbalanced : Balanced session) {storage : Storage}
    (hcounted : ∀ entry epoch, session.counts = some entry → entry.pendingEpoch = some epoch →
      session.accepts epoch = true →
      storage.loads = true ∧ storage.saves = true ∧ entry.count < u64Max) :
    Balanced (CompactionCounts.sessionEnd storage session).2 := by
  have hcount : (CompactionCounts.settle storage session).2.storedCount =
      (CompactionCounts.settle storage session).2.durableCompactions := by
    have hcases := settle_cases storage session
    generalize CompactionCounts.settle storage session = result at hcases ⊢
    cases hcases with
    | nothing hnone => exact hbalanced.unstaged hnone
    | failed error entry epoch hcounts hpending hfails =>
      obtain ⟨context, -, -, hledger⟩ := hbalanced.staged hcounts hpending
      have hdropped : ¬session.accepts epoch = true := fun haccepts =>
        hfails haccepts (hcounted entry epoch hcounts hpending haccepts)
      simp only [Ledger, if_neg hdropped] at hledger
      exact hledger.1
    | counted entry epoch hcounts hpending haccepts =>
      obtain ⟨context, -, -, hledger⟩ := hbalanced.staged hcounts hpending
      have hentry := hbalanced.entry entry hcounts
      simp only [Ledger, haccepts, if_true] at hledger
      show entry.count + 1 = session.durableCompactions
      omega
    | dropped entry epoch hcounts hpending hloads haccepts =>
      obtain ⟨context, -, -, hledger⟩ := hbalanced.staged hcounts hpending
      simp only [Ledger, haccepts, Bool.false_eq_true, if_false] at hledger
      exact hledger.1
  constructor
  · intro _
    exact ⟨rfl, hcount⟩
  · intro entry h
    cases h
  · intro entry h
    cases h
  · intro entry context h
    cases h

theorem Balanced.replace (hbalanced : Balanced session) {entry other : SessionCount}
    {context : Context} (hcounts : session.counts = some entry)
    (hcount : other.count = entry.count)
    (hahead : session.durableEpoch ≤ context.state.contextEpoch)
    (hledger : Ledger session context other.pendingEpoch) :
    Balanced { session with live := some context, counts := some other } := by
  constructor
  · intro h
    cases h
  · intro found h
    cases h
    exact hcount.trans (hbalanced.entry entry hcounts)
  · intro found _ h
    cases h
  · intro found next h hnext
    cases h
    cases hnext
    exact ⟨hahead, hledger⟩

theorem Ledger.clear (h : Ledger session context pending)
    (hahead : session.durableEpoch ≤ context.state.contextEpoch)
    (hclear : ∀ epoch, pending = some epoch → context.state.contextEpoch < epoch) :
    session.storedCount = session.durableCompactions ∧
      context.compactions = session.durableCompactions := by
  cases pending with
  | none => exact h
  | some epoch =>
    have hlater := hclear epoch rfl
    have hnot : ¬session.accepts epoch = true := by
      intro haccepts
      have hle := accepts_le haccepts
      omega
    have hlate : ¬epoch ≤ context.state.contextEpoch := by omega
    simpa only [Ledger, if_neg hnot, if_neg hlate, Nat.add_zero] using h

theorem Ledger.stage {context : Context} {epoch live : Nat}
    (hstored : session.storedCount = session.durableCompactions)
    (hahead : session.durableEpoch < epoch)
    (hcompactions : context.compactions = session.durableCompactions + live)
    (hlive : live = if epoch ≤ context.state.contextEpoch then 1 else 0) :
    Ledger session context (some epoch) := by
  have hnot : ¬session.accepts epoch = true := by
    intro haccepts
    have hle := accepts_le haccepts
    omega
  simp only [Ledger, if_neg hnot]
  rw [← hlive]
  exact ⟨hstored, hcompactions⟩

theorem Ledger.advance {next : Context} (h : Ledger session context pending)
    (hcompactions : next.compactions = context.compactions)
    (hepoch : context.state.contextEpoch ≤ next.state.contextEpoch)
    (hclear : next.state.contextEpoch ≠ context.state.contextEpoch →
      ∀ epoch, pending = some epoch → epoch ≤ context.state.contextEpoch) :
    Ledger session next pending := by
  by_cases hsame : next.state.contextEpoch = context.state.contextEpoch
  · exact h.congr hsame hcompactions
  · cases pending with
    | none => exact ⟨h.1, hcompactions.trans h.2⟩
    | some epoch =>
      have hle := hclear hsame epoch rfl
      have hlater : epoch ≤ next.state.contextEpoch := by omega
      simp only [Ledger, if_pos hle] at h
      simp only [Ledger, if_pos hlater, hcompactions]
      exact h

theorem Balanced.prepare (hbalanced : Balanced session) {request : Request}
    (hcounted : ∀ context entry, session.live = some context → session.counts = some entry →
      request.Counted encoding context entry) :
    Balanced (CompactionCounts.prepare encoding request session) := by
  unfold CompactionCounts.prepare
  cases hlive : session.live with
  | none => exact hbalanced
  | some context =>
    cases hcounts : session.counts with
    | none =>
      have hnone := (hbalanced.closed hcounts).1
      rw [hlive] at hnone
      cases hnone
    | some entry =>
      obtain ⟨hstages, hrewrites⟩ := hcounted context entry hlive hcounts
      obtain ⟨hahead, hledger⟩ := hbalanced.running entry context hcounts hlive
      have hpending : (entry.prepared request
          (request.stagedEpoch encoding context.state)).pendingEpoch =
          (request.stagedEpoch encoding context.state).orElse fun _ => entry.pendingEpoch := rfl
      simp only [Option.map_some]
      cases haccepted : request.accepted encoding context.state with
      | none =>
        refine hbalanced.replace hcounts rfl hahead ?_
        rw [hpending]
        cases hstaged : request.stagedEpoch encoding context.state with
        | none => exact hledger
        | some epoch =>
          obtain ⟨hcompacts, hclear⟩ := hstages (by rw [hstaged]; rfl)
          rw [staged_of_compacts hcompacts] at hstaged
          cases hstaged
          obtain ⟨hstored, hcompactions⟩ := hledger.clear hahead hclear
          refine Ledger.stage hstored (by omega) (hcompactions.trans (Nat.add_zero _).symm) ?_
          rw [if_neg (by omega)]
      | some changes =>
        obtain ⟨hle, hnext⟩ := accepted_epoch haccepted
        have hbefore : Balanced { session with
            live := some (⟨applyChanges changes context.state, context.compactions +
              if request.compacts encoding context.state then 1 else 0⟩ : Context)
            counts := some (entry.prepared request
              (request.stagedEpoch encoding context.state)) } := by
          refine hbalanced.replace hcounts rfl (Nat.le_trans hahead hle) ?_
          rw [hpending]
          cases hstaged : request.stagedEpoch encoding context.state with
          | none =>
            have hplain : request.compacts encoding context.state = false := by
              cases hcompacts : request.compacts encoding context.state with
              | false => rfl
              | true =>
                rw [staged_of_compacts hcompacts] at hstaged
                cases hstaged
            refine hledger.advance (by simp [hplain]) hle ?_
            intro hchanged
            refine hrewrites (by rw [hstaged]; rfl) ?_
            unfold Request.rewrites
            rw [haccepted]
            exact decide_eq_true hchanged
          | some epoch =>
            obtain ⟨hcompacts, hclear⟩ := hstages (by rw [hstaged]; rfl)
            rw [staged_of_compacts hcompacts] at hstaged
            cases hstaged
            obtain ⟨hstored, hcompactions⟩ := hledger.clear hahead hclear
            have hepoch := hnext hcompacts
            refine @Ledger.stage _ _ _ 1 hstored (by omega) ?_ ?_
            · simp only [hcompacts, if_true, hcompactions]
            · have hlive : context.state.contextEpoch + 1 ≤ changes.contextEpoch := by omega
              exact (if_pos hlive).symm
        simp only
        split
        · exact hbefore.save request.saves
        · exact hbefore

theorem Balanced.crash (hbalanced : Balanced session)
    (hcounted : ∀ entry epoch, session.counts = some entry → entry.pendingEpoch = some epoch →
      session.accepts epoch = false) :
    Balanced (CompactionCounts.crash session) := by
  have hcount : session.storedCount = session.durableCompactions := by
    cases hcounts : session.counts with
    | none => exact (hbalanced.closed hcounts).2
    | some entry =>
      cases hpending : entry.pendingEpoch with
      | none =>
        refine hbalanced.unstaged ?_
        intro other h
        rw [hcounts] at h
        cases h
        exact hpending
      | some epoch =>
        obtain ⟨context, -, -, hledger⟩ := hbalanced.staged hcounts hpending
        have hnot := hcounted entry epoch hcounts hpending
        simp only [Ledger, hnot, Bool.false_eq_true, if_false] at hledger
        exact hledger.1
  constructor
  · intro _
    exact ⟨rfl, hcount⟩
  · intro entry h
    cases h
  · intro entry h
    cases h
  · intro entry context h
    cases h

theorem Balanced.step (hbalanced : Balanced session) {op : RunnerOp}
    (hcounted : Counted encoding session op) :
    Balanced (CompactionCounts.step encoding policy session op) := by
  cases op with
  | sessionStart loads => exact hbalanced.sessionStart loads
  | begin state => exact hbalanced.begin state
  | prepare request => exact hbalanced.prepare hcounted
  | update state => exact hbalanced.update state
  | save saves => exact hbalanced.save saves
  | turnEnd storage idle => exact (hbalanced.settle hcounted).1.armIdle idle
  | sessionEnd storage => exact hbalanced.sessionEnd hcounted
  | crash => exact hbalanced.crash hcounted

theorem Balanced.run {ops : List RunnerOp} (hbalanced : Balanced session)
    (hcounted : CountedRun encoding policy session ops) :
    Balanced (CompactionCounts.run encoding policy session ops) := by
  induction ops generalizing session with
  | nil => exact hbalanced
  | cons op rest ih => exact ih (hbalanced.step hcounted.1) hcounted.2

theorem Balanced.settles (hbalanced : Balanced session) {op : RunnerOp}
    (hcounted : Counted encoding session op) (hsettles : Settles policy session op) :
    (CompactionCounts.step encoding policy session op).storedCount =
      (CompactionCounts.step encoding policy session op).durableCompactions := by
  cases op with
  | turnEnd storage idle => exact (hbalanced.settle hcounted).2 hsettles
  | sessionEnd storage => exact ((hbalanced.sessionEnd hcounted).closed rfl).2
  | _ => exact hsettles.elim

theorem countedRun_append {ops : List RunnerOp} {op : RunnerOp}
    (h : CountedRun encoding policy session (ops ++ [op])) :
    CountedRun encoding policy session ops ∧
      Counted encoding (CompactionCounts.run encoding policy session ops) op := by
  induction ops generalizing session with
  | nil => exact ⟨trivial, h.1⟩
  | cons head rest ih =>
    obtain ⟨hrest, hop⟩ := ih h.2
    exact ⟨⟨h.1, hrest⟩, hop⟩

/-- In every run of the runner that meets the condition, the count that the end of a turn or
of the session leaves is the number of compactions of the durable context. -/
theorem count_settles (encoding : Encoding) (policy : Policy) (durable : Option Checkpoint)
    (ops : List RunnerOp) (op : RunnerOp)
    (hcounted : CountedRun encoding policy (Session.unopened durable) (ops ++ [op]))
    (hsettles : Settles policy (run encoding policy (Session.unopened durable) ops) op) :
    (run encoding policy (Session.unopened durable) (ops ++ [op])).storedCount =
      (run encoding policy (Session.unopened durable) (ops ++ [op])).durableCompactions := by
  obtain ⟨hrun, hop⟩ := countedRun_append hcounted
  have hbalanced := (unopened_balanced durable).run hrun
  have hlast : run encoding policy (Session.unopened durable) (ops ++ [op]) =
      step encoding policy (run encoding policy (Session.unopened durable) ops) op := by
    unfold run
    rw [List.foldl_append]
    rfl
  rw [hlast]
  exact hbalanced.settles hop hsettles

end Balance

section Samples

/-- Encodings that no operation of the samples reads. -/
def plainEncoding : Encoding where
  message _ := .null
  attachments _ := .null
  toolContent _ := .null
  arguments _ := ""
  decodeArguments _ := .null
  ensureOutputSize _ := .ok ()

/-- No idle compaction. -/
def plainPolicy : Policy := ⟨none, 1⟩

/-- A compaction that leaves one note, whose changes are saved. -/
def compaction (note : String) : RunnerOp :=
  .prepare ⟨⟨[.rewriteInput .compaction [.str note], .recordTranscriptItem (.str "compacted")],
    .ok none, [], []⟩, 1, false, false, none, false, true⟩

/-- A new session that is saved. -/
def opening : List RunnerOp :=
  [.sessionStart true, .begin (Checkpoint.empty "session"), .save true]

/-- The end of a turn with a store that answers. -/
def turnOver : RunnerOp := .turnEnd ⟨true, true⟩ false

/-- One compaction in one turn is counted. -/
theorem count_settles_once :
    CountedRun plainEncoding plainPolicy (Session.unopened none)
      ((opening ++ [compaction "first"]) ++ [turnOver]) ∧
    (run plainEncoding plainPolicy (Session.unopened none)
      ((opening ++ [compaction "first"]) ++ [turnOver])).storedCount = 1 ∧
    (run plainEncoding plainPolicy (Session.unopened none)
      ((opening ++ [compaction "first"]) ++ [turnOver])).storedCount =
      (run plainEncoding plainPolicy (Session.unopened none)
        ((opening ++ [compaction "first"]) ++ [turnOver])).durableCompactions := by
  have hcounted : CountedRun plainEncoding plainPolicy (Session.unopened none)
      ((opening ++ [compaction "first"]) ++ [turnOver]) := by
    refine ⟨trivial, trivial, trivial, ?_, ?_, trivial⟩
    · intro context entry hcontext hentry
      cases hcontext
      cases hentry
      refine ⟨?_, ?_⟩
      · intro _
        refine ⟨by decide +kernel, ?_⟩
        intro epoch h
        cases h
      · intro h
        exact absurd h (by decide +kernel)
    · intro _ context entry epoch hcontext hentry hpending _
      cases hcontext
      cases hentry
      cases hpending
      decide +kernel
  refine ⟨hcounted, by decide +kernel, ?_⟩
  exact count_settles plainEncoding plainPolicy none (opening ++ [compaction "first"]) turnOver
    hcounted rfl

/-- The second compaction of a turn replaces the staged epoch of the first: both contexts
were saved, and one compaction is counted. -/
theorem second_compaction_uncounted :
    Settles plainPolicy (run plainEncoding plainPolicy (Session.unopened none)
      (opening ++ [compaction "first", compaction "second"])) turnOver ∧
    (run plainEncoding plainPolicy (Session.unopened none)
      (opening ++ [compaction "first", compaction "second"] ++ [turnOver])).storedCount = 1 ∧
    (run plainEncoding plainPolicy (Session.unopened none)
      (opening ++ [compaction "first", compaction "second"] ++
        [turnOver])).durableCompactions = 2 :=
  ⟨rfl, by decide +kernel, by decide +kernel⟩

end Samples

end MobiusAgent.CompactionCounts
