import Mathlib.Data.List.TakeWhile
import MobiusAgent.HookDelivery
import MobiusAgent.SessionEvents

/-!
# The progress of journal projections

A projection of a session that fits never fails, wherever the gateway stopped
before. The cursor row of the session says how far its journal was projected:
the events of its records up to there are recorded and those after it are not.
Every transaction keeps this true but the first of an owner change, which
removes the row; a gateway that stops there is outside the condition.
-/

namespace MobiusAgent.SessionProgress

open JsonValue ProtocolEvents CheckpointRecords CheckpointValidation HookRecords
open RoutineSchedules HookStore RoutineCatalog HookTransactions RoutinePolling RoutineRuns
open HookDispatch HookDelivery SessionProjection SessionEvents

section Programs

variable {α β : Type}

/-- A program does not fail; it ends in a state after it, or is stopped in a state between its
transactions. Nothing is said of a stop inside an owner change. -/
def Ensures (program : Projecting α) (progress : Progress) (post : α → Progress → Prop)
    (halted : Progress → Prop) : Prop :=
  match program progress with
  | (.done value, after) => post value after
  | (.failed _, _) => False
  | (.stopped closing, after) => closing = false → halted after

variable {progress : Progress} {post : α → Progress → Prop} {halted : Progress → Prop}

theorem ensures_pure {value : α} (h : post value progress) :
    Ensures (pure value) progress post halted := h

theorem ensures_bind {first : Projecting β} {second : β → Projecting α}
    (h : Ensures first progress (fun value after => Ensures (second value) after post halted)
      halted) : Ensures (first >>= second) progress post halted := by
  unfold Ensures at h ⊢
  show match (match first progress with
    | (.done value, after) => second value after
    | (.failed error, after) => (.failed error, after)
    | (.stopped closing, after) => (.stopped closing, after)) with
    | (.done value, after) => post value after
    | (.failed _, _) => False
    | (.stopped closing, after) => closing = false → halted after
  cases hfirst : first progress with
  | mk outcome after =>
    rw [hfirst] at h
    cases outcome with
    | done value | failed error | stopped closing => exact h

theorem Ensures.mono {program : Projecting α} {post' : α → Progress → Prop}
    (h : Ensures program progress post halted)
    (hpost : ∀ value after, post value after → post' value after) :
    Ensures program progress post' halted := by
  unfold Ensures at h ⊢
  cases hprogram : program progress with
  | mk outcome after =>
    rw [hprogram] at h
    cases outcome with
    | done value => exact hpost value after h
    | failed error | stopped closing => exact h

theorem Ensures.weaken {program : Projecting α} {halted' : Progress → Prop}
    (h : Ensures program progress post halted) (hhalted : ∀ after, halted after → halted' after) :
    Ensures program progress post halted' := by
  unfold Ensures at h ⊢
  cases hprogram : program progress with
  | mk outcome after =>
    rw [hprogram] at h
    cases outcome with
    | done value | failed error => exact h
    | stopped closing => exact fun hclosing => hhalted after (h hclosing)

theorem ensures_inspect {query : BotDatabase → Except Error α} {value : α}
    (hquery : query progress.database = .ok value) (h : post value progress) :
    Ensures (inspect query) progress post halted := by
  unfold Ensures inspect
  rw [hquery]
  exact h

theorem ensures_transact {closing : Bool}
    {change : BotDatabase → Except Error (α × BotDatabase)} {value : α} {database : BotDatabase}
    (hhalted : closing = false → halted progress)
    (hchange : change progress.database = .ok (value, database))
    (h : ∀ budget, post value { progress with database := database, budget := budget }) :
    Ensures (transact closing change) progress post halted := by
  unfold Ensures transact
  cases hbudget : progress.budget with
  | zero => exact hhalted
  | succ budget =>
    simp only [hchange]
    exact h budget

theorem ensures_logProjected {post : Unit → Progress → Prop} {sessionId : SessionId}
    {sequence : Nat}
    (h : post () { progress with projected := progress.projected ++ [(sessionId, sequence)] }) :
    Ensures (logProjected sessionId sequence) progress post halted := h

theorem ensures_logSkipped {post : Unit → Progress → Prop} {sessionId : SessionId}
    {sequence : Nat}
    (h : post () { progress with skipped := progress.skipped ++ [(sessionId, sequence)] }) :
    Ensures (logSkipped sessionId sequence) progress post halted := h

/-- A program with enough transactions before the gateway stops ends in one way. -/
def Finishes (program : Projecting α) : Prop :=
  ∀ database projected skipped, ∃ cost kept outcome database' projected' skipped',
    (∀ closing, outcome ≠ .stopped closing) ∧ ∀ extra,
      program ⟨database, cost + extra, projected, skipped⟩ =
        (outcome, ⟨database', kept + extra, projected', skipped'⟩)

theorem ensures_ite {condition : Prop} [Decidable condition] {first second : Projecting α}
    (hfirst : condition → Ensures first progress post halted)
    (hsecond : ¬condition → Ensures second progress post halted) :
    Ensures (if condition then first else second) progress post halted := by
  split
  · exact hfirst ‹_›
  · exact hsecond ‹_›

end Programs

section Positions

def cursorRow (tables : HookTables) (id : SessionId) : Option CursorRow :=
  tables.cursors.find? (·.sessionId = id)

def savedCursor (tables : HookTables) (id : SessionId) : Nat :=
  match cursorRow tables id with
  | none => 0
  | some row => row.sequence.toNat

/-- The owner that the last configuration up to a cursor names. -/
def ownerAt (session : StoredSession) (cursor : Nat) : Option String :=
  ((session.records.filter fun record => decide (record.sequence ≤ cursor)).filterMap
    fun record => configuredOwner record.msg).getLast?

def ChangesOwner (session : StoredSession) (record : SessionRecord) : Prop :=
  ∃ next previous, configuredOwner record.msg = some next ∧
    ownerAt session (record.sequence - 1) = some previous ∧ previous ≠ next

def Projects (session : StoredSession) (record : SessionRecord) : Prop :=
  isLifecycle record = true ∨ ChangesOwner session record

/-- A session between two transactions of its projections. -/
structure Settled (session : StoredSession) (progress : Progress) : Prop where
  /-- The row holds an assigned sequence and the owner there. -/
  row : ∀ row, cursorRow progress.database.hooks session.id = some row →
    ∃ sequence : Nat, row.sequence = sequence ∧ sequence ≤ session.lastSequence ∧
      ownerAt session sequence = some row.botId
  known : ∀ event ∈ progress.database.hooks.events, ∀ sequence,
    event.id = sessionEventId session.id sequence →
      sequence ≤ savedCursor progress.database.hooks session.id
  logged : ∀ sequence, (session.id, sequence) ∈ progress.projected →
    sequence ≤ savedCursor progress.database.hooks session.id
  ordered : ((progress.projected.filter fun entry => decide (entry.1 = session.id)).map
    (·.2)).Pairwise (· < ·)
  complete : ∀ record ∈ session.records,
    record.sequence ≤ savedCursor progress.database.hooks session.id → Projects session record →
      (session.id, record.sequence) ∈ progress.projected ∨
        (session.id, record.sequence) ∈ progress.skipped

/-- What the projection of one session leaves to the others. -/
structure Frame (sessionId : SessionId) (before after : Progress) : Prop where
  cursors : ∀ other, other ≠ sessionId →
    cursorRow after.database.hooks other = cursorRow before.database.hooks other
  events : ∀ event ∈ after.database.hooks.events, event ∈ before.database.hooks.events ∨
    (∃ sequence, event.id = sessionEventId sessionId sequence) ∨
      ∃ key, event.id = "attention-" ++ key
  projected : ∃ added, after.projected = before.projected ++ added ∧
    ∀ entry ∈ added, entry.1 = sessionId
  skipped : ∀ entry ∈ before.skipped, entry ∈ after.skipped
  runs : after.database.runs = before.database.runs
  running : ∀ runId, after.database.hooks.event? (runningId runId) =
    before.database.hooks.event? (runningId runId)

variable {session other : StoredSession} {sessionId : SessionId}
  {before between after progress : Progress}

theorem Frame.refl (sessionId : SessionId) (progress : Progress) :
    Frame sessionId progress progress where
  cursors _ _ := rfl
  events _ hevent := .inl hevent
  projected := ⟨[], (List.append_nil _).symm, List.forall_mem_nil _⟩
  skipped _ hentry := hentry
  runs := rfl
  running _ := rfl

theorem Frame.trans (first : Frame sessionId before between)
    (second : Frame sessionId between after) : Frame sessionId before after where
  cursors other hother := (second.cursors other hother).trans (first.cursors other hother)
  events event hevent := by
    rcases second.events event hevent with hold | hnew
    · exact first.events event hold
    · exact .inr hnew
  projected := by
    obtain ⟨added, hadded, howned⟩ := first.projected
    obtain ⟨added', hadded', howned'⟩ := second.projected
    refine ⟨added ++ added', by rw [hadded', hadded, List.append_assoc], ?_⟩
    intro entry hentry
    rcases List.mem_append.mp hentry with hfirst | hsecond
    · exact howned entry hfirst
    · exact howned' entry hsecond
  skipped entry hentry := second.skipped entry (first.skipped entry hentry)
  runs := second.runs.trans first.runs
  running runId := (second.running runId).trans (first.running runId)

/-- A change that does not concern a session, but for records that are skipped. -/
structure Untouched (id : SessionId) (before after : Progress) : Prop where
  cursor : cursorRow after.database.hooks id = cursorRow before.database.hooks id
  events : ∀ event ∈ after.database.hooks.events, event ∈ before.database.hooks.events ∨
    ∀ sequence, event.id ≠ sessionEventId id sequence
  projected : ∃ added, after.projected = before.projected ++ added ∧
    ∀ entry ∈ added, entry.1 ≠ id
  skipped : ∀ entry ∈ before.skipped, entry ∈ after.skipped

theorem Untouched.saved {id : SessionId} (h : Untouched id before after) :
    savedCursor after.database.hooks id = savedCursor before.database.hooks id := by
  unfold savedCursor
  rw [h.cursor]

theorem Settled.keep (h : Settled session before) (hkept : Untouched session.id before after) :
    Settled session after := by
  have hsaved := hkept.saved
  obtain ⟨added, hadded, hothers⟩ := hkept.projected
  constructor
  · intro row hrow
    exact h.row row (hkept.cursor ▸ hrow)
  · intro event hevent sequence hid
    rw [hsaved]
    rcases hkept.events event hevent with hold | hnew
    · exact h.known event hold sequence hid
    · exact absurd hid (hnew sequence)
  · intro sequence hentry
    rw [hsaved]
    rw [hadded] at hentry
    rcases List.mem_append.mp hentry with hold | hnew
    · exact h.logged sequence hold
    · exact absurd rfl (hothers _ hnew)
  · rw [hadded, List.filter_append]
    have hnone : (added.filter fun entry => decide (entry.1 = session.id)) = [] := by
      rw [List.filter_eq_nil_iff]
      intro entry hentry
      rw [decide_eq_true_eq]
      exact hothers entry hentry
    rw [hnone, List.append_nil]
    exact h.ordered
  · intro record hrecord hle hprojects
    rw [hsaved] at hle
    rcases h.complete record hrecord hle hprojects with hlogged | hskipped
    · left
      rw [hadded]
      exact List.mem_append_left _ hlogged
    · exact .inr (hkept.skipped _ hskipped)

theorem Frame.untouched (h : Frame sessionId before after) {id : SessionId}
    (hother : id ≠ sessionId) : Untouched id before after := by
  obtain ⟨added, hadded, howned⟩ := h.projected
  refine ⟨h.cursors id hother, ?_, ⟨added, hadded, ?_⟩, h.skipped⟩
  · intro event hevent
    rcases h.events event hevent with hold | ⟨sequence', hid'⟩ | ⟨key, hid'⟩
    · exact .inl hold
    · right
      intro sequence hid
      exact hother (sessionEventId_inj (hid.symm.trans hid')).1
    · right
      intro sequence hid
      exact sessionEventId_ne_attention _ _ _ (hid.symm.trans hid')
  · intro entry hentry
    rw [howned entry hentry]
    exact Ne.symm hother

/-- A session while its journal is read. -/
structure Tracks (session : StoredSession) (progress : Progress) (position : Position) : Prop where
  settled : Settled session progress
  persisted : position.persisted = savedCursor progress.database.hooks session.id
  behind : position.persisted ≤ position.cursor
  bound : position.cursor ≤ session.lastSequence
  owner : position.owner = ownerAt session position.cursor
  current : ∀ row, cursorRow progress.database.hooks session.id = some row →
    position.owner = some row.botId
  read : ∀ record ∈ session.records, position.persisted < record.sequence →
    record.sequence ≤ position.cursor → Projects session record →
      (session.id, record.sequence) ∈ progress.skipped

theorem Tracks.keep {position : Position} (h : Tracks session before position)
    (hkept : Untouched session.id before after) : Tracks session after position where
  settled := h.settled.keep hkept
  persisted := h.persisted.trans hkept.saved.symm
  behind := h.behind
  bound := h.bound
  owner := h.owner
  current row hrow := h.current row (hkept.cursor ▸ hrow)
  read record hrecord hlow hhigh hprojects :=
    hkept.skipped _ (h.read record hrecord hlow hhigh hprojects)

end Positions

section Tables

variable {host : Host} {tables : HookTables} {sessionId : SessionId} {botId : String}
  {sequence : Nat}

/-- A cursor in the database that moves on. -/
structure Advanced (tables after : HookTables) (sessionId : SessionId) (botId : String)
    (sequence : Nat) : Prop where
  row : cursorRow after sessionId = some ⟨sessionId, botId, sequence⟩
  others : ∀ other, other ≠ sessionId → cursorRow after other = cursorRow tables other
  positioned : Positioned tables → Positioned after
  events : after.events = tables.events
  outbox : after.outbox = tables.outbox
  bindings : after.bindings = tables.bindings

theorem advanceCursorRow_of_owned
    (hrow : ∀ row, cursorRow tables sessionId = some row →
      row.botId = botId ∧ row.sequence < sequence) (hsequence : (sequence : Int) ≤ i64Max) :
    ∃ after, advanceCursorRow tables sessionId botId sequence = .ok (true, after) ∧
      Advanced tables after sessionId botId sequence := by
  unfold advanceCursorRow
  unfold cursorRow at hrow
  cases hfind : tables.cursors.find? (·.sessionId = sessionId) with
  | none =>
    dsimp only
    rw [if_neg (by omega)]
    refine ⟨_, rfl, ?_, ?_, ?_, rfl, rfl, rfl⟩
    · show (tables.cursors ++ [_]).find? _ = _
      rw [List.find?_append, hfind]
      simp
    · intro other hother
      show (tables.cursors ++ [_]).find? _ = _
      rw [List.find?_append]
      simp [cursorRow, Ne.symm hother]
    · intro hpositioned row hmem
      rcases List.mem_append.mp hmem with hold | hnew
      · exact hpositioned row hold
      · rw [List.mem_singleton.mp hnew]
        exact ⟨Int.natCast_nonneg sequence, hsequence⟩
  | some row =>
    obtain ⟨hbot, hlt⟩ := hrow row hfind
    have hid : row.sessionId = sessionId := by simpa using List.find?_some hfind
    dsimp only
    rw [if_neg (by rw [hbot]; exact not_not.mpr rfl), if_neg (by omega), if_pos hlt]
    have hmoved : ∀ other, (tables.cursors.map fun row =>
        if row.sessionId = sessionId then { row with sequence := sequence } else row).find?
          (·.sessionId = other) = (tables.cursors.find? (·.sessionId = other)).map fun row =>
        if row.sessionId = sessionId then { row with sequence := sequence } else row := by
      intro other
      rw [List.find?_map]
      congr 2
      funext row
      simp only [Function.comp_apply]
      split
      · rfl
      · rfl
    refine ⟨_, rfl, ?_, ?_, ?_, rfl, rfl, rfl⟩
    · show (tables.cursors.map _).find? _ = _
      rw [hmoved sessionId, hfind, Option.map_some, if_pos hid, ← hid, ← hbot]
    · intro other hother
      show (tables.cursors.map _).find? _ = _
      rw [hmoved other]
      cases hother' : tables.cursors.find? (·.sessionId = other) with
      | none => exact hother'.symm
      | some row =>
        have hkey : row.sessionId = other := by simpa using List.find?_some hother'
        rw [Option.map_some, if_neg (by rw [hkey]; exact hother)]
        exact hother'.symm
    · intro hpositioned row hmem
      obtain ⟨old, hold, rfl⟩ := List.mem_map.mp hmem
      split
      · exact ⟨Int.natCast_nonneg sequence, hsequence⟩
      · exact hpositioned old hold

theorem Advanced.tidy {after : HookTables} (h : Advanced tables after sessionId botId sequence)
    (htidy : Tidy host.digest tables) : Tidy host.digest after := by
  refine ⟨?_, ?_, ?_, h.positioned htidy.cursors⟩
  · unfold bindingKeys
    rw [h.bindings]
    exact htidy.keys
  · rw [h.outbox]
    exact htidy.identities
  · rw [h.outbox, h.events]
    exact htidy.caused

theorem Advanced.saved {after : HookTables} (h : Advanced tables after sessionId botId sequence) :
    savedCursor after sessionId = sequence := by
  unfold savedCursor
  rw [h.row]
  exact Int.toNat_natCast sequence

theorem event?_withEvent {event : HookEvent} {number : Option Nat} {id : String}
    (hid : event.id ≠ id) :
    (withEvent host.digest tables event number).event? id = tables.event? id := by
  show (tables.events ++ [event]).find? _ = tables.events.find? _
  rw [List.find?_append]
  simp [hid]

end Tables

section Catalogs

variable {host : Host} {state : BotState} {database : BotDatabase}

/-- The catalog without the bindings to closed sessions. -/
def closedState (state : BotState) (events : List HookEvent) : BotState :=
  { state with routines := state.routines.map fun routine => unsubscribed routine events }

/-- The encoding of a catalog is not longer without some of its bindings. -/
def ShorterClosed (host : Host) : Prop :=
  ∀ state events, host.frameBytes (closedState state events).untimed ≤
    host.frameBytes state.untimed

theorem closedState_timers (state : BotState) (events : List HookEvent) :
    ((closedState state events).timers.map timerBytes).sum ≤
      (state.timers.map timerBytes).sum := by
  unfold BotState.timers closedState
  induction state.routines with
  | nil => exact Nat.le_refl _
  | cons routine rest ih =>
    have hfirst : (((unsubscribed routine events).bindings).map timerBytes).sum ≤
        (routine.bindings.map timerBytes).sum :=
      (List.filter_sublist.map timerBytes).sum_le_sum fun _ _ => Nat.zero_le _
    simp only [List.map_cons, List.flatMap_cons, List.map_append, List.sum_append] at ih ⊢
    omega

theorem freshState_of_parts (hcatalog : database.catalog = some state)
    (hbytes : catalogBytes host state ≤ maxStateBytes)
    (hconfigs : ∀ bot ∈ state.bots, host.validateStored bot.config = .ok ())
    (hvalid : StateValid host state) : freshState host database = .ok state := by
  unfold freshState
  rw [hcatalog]
  dsimp only
  refine except_bind_ok_iff.mpr ⟨(), ?_, ?_⟩
  · rw [rejectIf_ok_iff, decide_eq_false_iff_not, Nat.not_lt]
    exact hbytes
  refine except_bind_ok_iff.mpr ⟨(), (forM_ok_iff _ _).mpr hconfigs, ?_⟩
  exact except_bind_ok_iff.mpr ⟨(), validateRecords_ok_iff.mpr hvalid, rfl⟩

theorem closedState_parts (hshorter : ShorterClosed host) (events : List HookEvent)
    (hbytes : catalogBytes host state ≤ maxStateBytes) (hvalid : StateValid host state) :
    catalogBytes host (closedState state events) ≤ maxStateBytes ∧
      StateValid host (closedState state events) := by
  constructor
  · have hframe := hshorter state events
    have htimers := closedState_timers state events
    unfold catalogBytes at hbytes ⊢
    omega
  · have hids : (closedState state events).routines.map (·.id) = state.routines.map (·.id) := by
      simp only [closedState, List.map_map]
      rfl
    have hpaths : ((closedState state events).routines.map fun routine =>
        pathComponents routine.instructions) =
        state.routines.map fun routine => pathComponents routine.instructions := by
      simp only [closedState, List.map_map]
      rfl
    refine ⟨hvalid.version, hvalid.bots, ?_, hvalid.pending, hvalid.botSet, hids ▸ hvalid.ids, ?_,
      hpaths ▸ hvalid.paths, hvalid.revision⟩
    · intro routine hroutine
      obtain ⟨old, hold, rfl⟩ := List.mem_map.mp hroutine
      exact unsubscribed_valid (hvalid.routines old hold) events
    · intro routine hroutine
      obtain ⟨old, hold, rfl⟩ := List.mem_map.mp hroutine
      exact hvalid.owners old hold

end Catalogs

section Transactions

variable {host : Host} {database : BotDatabase} {event : HookEvent}

theorem base_withHooks (h : Base host database) {hooks : HookTables}
    (htidy : Tidy host.digest hooks)
    (hvalid : ∀ event ∈ hooks.events, validateEvent event = .ok ()) :
    Base host { database with hooks := hooks } :=
  ⟨htidy, hvalid, h.catalog, h.runs⟩

theorem base_withEvent (h : Base host database) (hvalid : validateEvent event = .ok ())
    (sequence : Option Nat) :
    Base host { database with
      hooks := withEvent host.digest database.hooks event sequence } := by
  refine base_withHooks h (h.tidy.withEvent event sequence) ?_
  intro recorded hrecorded
  rcases List.mem_append.mp hrecorded with hold | hnew
  · exact h.valid recorded hold
  · rw [List.mem_singleton.mp hnew]
    exact hvalid

/-- A source that is closed by a new event. -/
structure Closed (database after : BotDatabase) (sessionId : SessionId) (event : HookEvent) :
    Prop where
  cursor : cursorRow after.hooks sessionId = none
  others : ∀ other, other ≠ sessionId → cursorRow after.hooks other = cursorRow database.hooks other
  events : after.hooks.events = database.hooks.events ++ [event]
  runs : after.runs = database.runs

theorem find?_forgotten (cursors : List CursorRow) (sessionId other : SessionId) :
    (cursors.filter fun row => decide (row.sessionId ≠ sessionId)).find? (·.sessionId = other) =
      if other = sessionId then none else cursors.find? (·.sessionId = other) := by
  rw [List.find?_filter]
  split
  · rename_i hsame
    rw [List.find?_eq_none]
    intro row hrow
    simp [hsame]
  · rename_i hother
    congr 1
    funext row
    by_cases hrow : row.sessionId = other
    · simp [hrow, hother]
    · simp [hrow]

theorem closeSessionSources_of_new (laws : HostLaws host) (hshorter : ShorterClosed host)
    (h : Base host database) {sessionId : SessionId} {previous : String}
    (hsource : event.source = .session sessionId)
    (hdata : event.data = .sessionOwnerChanged sessionId previous)
    (hvalid : validateEvent event = .ok ()) (hnone : database.hooks.event? event.id = none) :
    ∃ after, closeSessionSources host database [event] = .ok after ∧ Base host after ∧
      Closed database after sessionId event := by
  obtain ⟨state, hcatalog, hstate⟩ := h.catalog
  obtain ⟨hbytes, hconfigs, hstateValid⟩ := freshState_parts hcatalog hstate
  obtain ⟨hclosedBytes, hclosedValid⟩ := closedState_parts hshorter [event] hbytes hstateValid
  have hpruned := cancelSourcePending_pruned database.hooks event.source
  have htidy : Tidy host.digest (cancelSourcePending database.hooks event.source) :=
    h.tidy.prune hpruned h.tidy.keys
  have hbot : ∀ botId, event.source ≠ .bot botId := by
    intro botId
    rw [hsource]
    simp
  have hrecorded : recordEvent host.digest (cancelSourcePending database.hooks event.source)
      event none = .ok (true, _) :=
    laws.recordEvent_of_new htidy hvalid hbot hnone fun n hn => by cases hn
  have hclose : closeSource host database.hooks event = .ok
      { withEvent host.digest (cancelSourcePending database.hooks event.source) event none with
        bindings := (withEvent host.digest (cancelSourcePending database.hooks event.source) event
          none).bindings.filter fun row => !selectsSession sessionId row.selector
        cursors := (withEvent host.digest (cancelSourcePending database.hooks event.source) event
          none).cursors.filter fun row => decide (row.sessionId ≠ sessionId) } := by
    have hclosed : closedSession event = .ok sessionId := by
      unfold closedSession
      rw [hsource, hdata]
    unfold closeSource
    refine except_bind_ok_iff.mpr ⟨sessionId, hclosed, ?_⟩
    rw [hnone]
    exact except_bind_ok_iff.mpr ⟨_, hrecorded, rfl⟩
  have hstateOk : validateState (closedState state [event]) = .ok () :=
    validateState_ok_iff.mpr ⟨hclosedValid.botSet, hclosedValid.ids, hclosedValid.owners,
      hclosedValid.paths, hclosedValid.revision⟩
  have hjson : catalogJson host (closedState state [event]) =
      .ok (closedState state [event]) := by
    unfold catalogJson
    refine except_bind_ok_iff.mpr ⟨(), ?_, rfl⟩
    rw [rejectIf_ok_iff, decide_eq_false_iff_not, Nat.not_lt]
    exact hclosedBytes
  have htidyEvent := htidy.withEvent event none
  refine ⟨_, except_bind_ok_iff.mpr ⟨state, hstate, except_bind_ok_iff.mpr
    ⟨(), hstateOk, except_bind_ok_iff.mpr ⟨_, hjson, except_bind_ok_iff.mpr
      ⟨_, except_bind_ok_iff.mpr ⟨_, hclose, rfl⟩, rfl⟩⟩⟩⟩,
    ⟨?_, ?_, ?_, h.runs⟩, ⟨?_, ?_, rfl, rfl⟩⟩
  · refine ⟨htidyEvent.keys.sublist (List.filter_sublist.map _), htidyEvent.identities,
      htidyEvent.caused, ?_⟩
    intro row hrow
    exact h.tidy.cursors row (List.filter_sublist.subset hrow)
  · intro recorded hmem
    rcases List.mem_append.mp hmem with hold | hnew
    · exact h.valid recorded hold
    · rw [List.mem_singleton.mp hnew]
      exact hvalid
  · exact ⟨_, rfl, freshState_of_parts rfl hclosedBytes hconfigs hclosedValid⟩
  · show (database.hooks.cursors.filter _).find? _ = none
    rw [find?_forgotten, if_pos rfl]
  · intro other hother
    show (database.hooks.cursors.filter _).find? _ = _
    rw [find?_forgotten, if_neg hother]
    rfl

end Transactions

section Reading

variable {session : StoredSession} {record : SessionRecord} {cursor : Nat}

def recordsUpTo (session : StoredSession) (cursor : Nat) : List SessionRecord :=
  session.records.filter fun record => decide (record.sequence ≤ cursor)

def recordsAfter (session : StoredSession) (cursor : Nat) : List SessionRecord :=
  session.records.filter fun record => decide (cursor < record.sequence)

/-- The next record of a journal. -/
structure Upcoming (session : StoredSession) (cursor : Nat) (record : SessionRecord) : Prop where
  mem : record ∈ session.records
  later : cursor < record.sequence
  upTo : recordsUpTo session record.sequence = recordsUpTo session cursor ++ [record]
  before : recordsUpTo session (record.sequence - 1) = recordsUpTo session cursor

theorem upcoming_of_head {rest : List SessionRecord}
    (hordered : session.records.Pairwise fun first second => first.sequence < second.sequence)
    (h : recordsAfter session cursor = record :: rest) :
    Upcoming session cursor record ∧ recordsAfter session record.sequence = rest := by
  have hlist : ∀ records : List SessionRecord,
      records.Pairwise (fun first second => first.sequence < second.sequence) →
      (records.filter fun other => decide (cursor < other.sequence)) = record :: rest →
      (record ∈ records ∧ cursor < record.sequence) ∧
        (records.filter fun other => decide (other.sequence ≤ record.sequence)) =
          (records.filter fun other => decide (other.sequence ≤ cursor)) ++ [record] ∧
        (records.filter fun other => decide (other.sequence ≤ record.sequence - 1)) =
          (records.filter fun other => decide (other.sequence ≤ cursor)) ∧
        (records.filter fun other => decide (record.sequence < other.sequence)) = rest := by
    intro records hpairwise hfilter
    induction records with
    | nil => cases hfilter
    | cons first others ih =>
      rw [List.pairwise_cons] at hpairwise
      by_cases hafter : cursor < first.sequence
      · have hall : ∀ other ∈ others, cursor < other.sequence := by
          intro other hother
          have hlt := hpairwise.1 other hother
          omega
        have hrest : (others.filter fun other => decide (cursor < other.sequence)) = others :=
          List.filter_eq_self.mpr fun other hother => by simpa using hall other hother
        rw [List.filter_cons, if_pos (by simpa using hafter), hrest] at hfilter
        obtain ⟨rfl, rfl⟩ := List.cons.inj hfilter
        have hnone : ∀ bound, bound ≤ first.sequence →
            (others.filter fun other => decide (other.sequence ≤ bound)) = [] := by
          intro bound hbound
          rw [List.filter_eq_nil_iff]
          intro other hother
          have hlt := hpairwise.1 other hother
          rw [decide_eq_true_eq]
          omega
        have hself : (others.filter fun other => decide (first.sequence < other.sequence)) =
            others :=
          List.filter_eq_self.mpr fun other hother => by simpa using hpairwise.1 other hother
        refine ⟨⟨List.mem_cons_self, hafter⟩, ?_, ?_, ?_⟩
        · rw [List.filter_cons, if_pos (by simp), hnone _ (Nat.le_refl _), List.filter_cons,
            if_neg (by rw [decide_eq_true_eq]; omega), hnone _ (by omega)]
          rfl
        · rw [List.filter_cons, if_neg (by rw [decide_eq_true_eq]; omega), hnone _ (by omega),
            List.filter_cons, if_neg (by rw [decide_eq_true_eq]; omega), hnone _ (by omega)]
        · rw [List.filter_cons, if_neg (by rw [decide_eq_true_eq]; omega), hself]
      · rw [List.filter_cons, if_neg (by simpa using hafter)] at hfilter
        obtain ⟨⟨hmem, hlater⟩, hupTo, hbefore, hrest⟩ := ih hpairwise.2 hfilter
        refine ⟨⟨List.mem_cons_of_mem _ hmem, hlater⟩, ?_, ?_, ?_⟩
        · rw [List.filter_cons, if_pos (by rw [decide_eq_true_eq]; omega), hupTo,
            List.filter_cons, if_pos (by rw [decide_eq_true_eq]; omega), List.cons_append]
        · rw [List.filter_cons, if_pos (by rw [decide_eq_true_eq]; omega), hbefore,
            List.filter_cons, if_pos (by rw [decide_eq_true_eq]; omega)]
        · rw [List.filter_cons, if_neg (by rw [decide_eq_true_eq]; omega), hrest]
  obtain ⟨⟨hmem, hlater⟩, hupTo, hbefore, hrest⟩ := hlist session.records hordered h
  exact ⟨⟨hmem, hlater, hupTo, hbefore⟩, hrest⟩

theorem Upcoming.owner (h : Upcoming session cursor record) :
    ownerAt session record.sequence =
      (configuredOwner record.msg).or (ownerAt session cursor) := by
  show ((recordsUpTo session record.sequence).filterMap _).getLast? =
    (configuredOwner record.msg).or ((recordsUpTo session cursor).filterMap _).getLast?
  rw [h.upTo, List.filterMap_append]
  cases howner : configuredOwner record.msg with
  | none | some owner => simp [howner]

theorem Upcoming.previous (h : Upcoming session cursor record) :
    ownerAt session (record.sequence - 1) = ownerAt session cursor := by
  show ((recordsUpTo session (record.sequence - 1)).filterMap _).getLast? =
    ((recordsUpTo session cursor).filterMap _).getLast?
  rw [h.before]

theorem Upcoming.cases (h : Upcoming session cursor record) {other : SessionRecord}
    (hother : other ∈ session.records) (hle : other.sequence ≤ record.sequence) :
    other.sequence ≤ cursor ∨ other = record := by
  have hmem : other ∈ recordsUpTo session record.sequence :=
    List.mem_filter.mpr ⟨hother, by simpa using hle⟩
  rw [h.upTo] at hmem
  rcases List.mem_append.mp hmem with hold | hlast
  · left
    simpa using (List.mem_filter.mp hold).2
  · exact .inr (List.mem_singleton.mp hlast)

theorem ownerAt_named {owner : String} (h : ownerAt session cursor = some owner) :
    ∃ record ∈ session.records, configuredOwner record.msg = some owner := by
  have hmem := List.mem_of_getLast? h
  obtain ⟨record, hrecord, howner⟩ := List.mem_filterMap.mp hmem
  exact ⟨record, (List.mem_filter.mp hrecord).1, howner⟩

theorem ownerAt_isSome {host : Host} (hwell : WellFormed host session)
    (hrecord : record ∈ session.records) :
    (ownerAt session record.sequence).isSome = true := by
  have hordered := hwell.ordered
  have hheaded := hwell.headed
  unfold ownerAt
  rw [List.getLast?_isSome]
  cases hrecords : session.records with
  | nil =>
    rw [hrecords] at hrecord
    cases hrecord
  | cons first rest =>
    rw [hrecords] at hrecord hordered hheaded
    rw [List.pairwise_cons] at hordered
    have hfirst : first.sequence ≤ record.sequence := by
      rcases List.mem_cons.mp hrecord with rfl | hlater
      · exact Nat.le_refl _
      · exact Nat.le_of_lt (hordered.1 record hlater)
    obtain ⟨owner, howner⟩ := Option.isSome_iff_exists.mp (hheaded first rfl)
    intro hempty
    have hmem : owner ∈ ((first :: rest).filter fun other =>
        decide (other.sequence ≤ record.sequence)).filterMap
          fun other => configuredOwner other.msg :=
      List.mem_filterMap.mpr ⟨first, List.mem_filter.mpr
        ⟨List.mem_cons_self, by simpa using hfirst⟩, howner⟩
    rw [hempty] at hmem
    cases hmem

end Reading

section Moves

variable {host : Host} {session : StoredSession} {record : SessionRecord} {position : Position}
  {start before after : Progress} {event : HookEvent} {botId : String}

/-- A record was projected: its event and its cursor are saved. -/
structure Recorded (session : StoredSession) (record : SessionRecord) (botId : String)
    (event : HookEvent) (before after : Progress) : Prop where
  row : cursorRow after.database.hooks session.id = some ⟨session.id, botId, record.sequence⟩
  others : ∀ other, other ≠ session.id →
    cursorRow after.database.hooks other = cursorRow before.database.hooks other
  events : after.database.hooks.events = before.database.hooks.events ++ [event]
  id : event.id = sessionEventId session.id record.sequence
  projected : after.projected = before.projected ++ [(session.id, record.sequence)]
  skipped : after.skipped = before.skipped
  runs : after.database.runs = before.database.runs

theorem Tracks.project (h : Tracks session before position)
    (hnext : Upcoming session position.cursor record)
    (hrecorded : Recorded session record botId event before after)
    (hbound : record.sequence ≤ session.lastSequence)
    (howner : ownerAt session record.sequence = some botId) :
    Tracks session after ⟨record.sequence, some botId, record.sequence⟩ := by
  have hlater := hnext.later
  have hbehind := h.behind
  have hpersisted := h.persisted
  have hsaved : savedCursor after.database.hooks session.id = record.sequence := by
    unfold savedCursor
    rw [hrecorded.row]
    exact Int.toNat_natCast _
  refine ⟨⟨?_, ?_, ?_, ?_, ?_⟩, hsaved.symm, Nat.le_refl _, hbound, howner.symm, ?_, ?_⟩
  · intro row hrow
    rw [hrecorded.row] at hrow
    rw [← Option.some.inj hrow]
    exact ⟨record.sequence, rfl, hbound, howner⟩
  · intro other hother sequence hid
    rw [hsaved]
    rw [hrecorded.events] at hother
    rcases List.mem_append.mp hother with hold | hnew
    · have hle := h.settled.known other hold sequence hid
      omega
    · rw [List.mem_singleton.mp hnew, hrecorded.id] at hid
      exact Nat.le_of_eq (sessionEventId_inj hid).2.symm
  · intro sequence hentry
    rw [hsaved]
    rw [hrecorded.projected] at hentry
    rcases List.mem_append.mp hentry with hold | hnew
    · have hle := h.settled.logged sequence hold
      omega
    · exact Nat.le_of_eq (Prod.mk.inj (List.mem_singleton.mp hnew)).2
  · rw [hrecorded.projected, List.filter_append, List.map_append, List.pairwise_append]
    refine ⟨h.settled.ordered, ?_, ?_⟩
    · simp
    · intro old hold new hnew
      obtain ⟨entry, hentry, rfl⟩ := List.mem_map.mp hold
      obtain ⟨hmem, hid⟩ := List.mem_filter.mp hentry
      have hentryId : entry = (session.id, entry.2) := by
        rw [← of_decide_eq_true hid]
      have hle := h.settled.logged entry.2 (hentryId ▸ hmem)
      have hnew : new = record.sequence := by simpa using hnew
      omega
  · intro other hother hle hprojects
    rw [hsaved] at hle
    rw [hrecorded.projected, hrecorded.skipped]
    rcases hnext.cases hother hle with hread | rfl
    · by_cases hold : other.sequence ≤ position.persisted
      · rcases h.settled.complete other hother (hpersisted ▸ hold) hprojects with hlogged | hskip
        · exact .inl (List.mem_append_left _ hlogged)
        · exact .inr hskip
      · exact .inr (h.read other hother (by omega) hread hprojects)
    · exact .inl (List.mem_append_right _ (List.mem_singleton_self _))
  · intro row hrow
    rw [hrecorded.row] at hrow
    rw [← Option.some.inj hrow]
  · intro other _ hlow hhigh
    simp only at hlow hhigh
    omega

theorem Recorded.frame (h : Recorded session record botId event before after) :
    Frame session.id before after := by
  refine ⟨h.others, ?_, ⟨_, h.projected, ?_⟩, ?_, h.runs, ?_⟩
  · intro other hother
    rw [h.events] at hother
    rcases List.mem_append.mp hother with hold | hnew
    · exact .inl hold
    · rw [List.mem_singleton.mp hnew]
      exact .inr (.inl ⟨record.sequence, h.id⟩)
  · intro entry hentry
    rw [List.mem_singleton.mp hentry]
  · intro entry hentry
    rw [h.skipped]
    exact hentry
  · intro runId
    show after.database.hooks.events.find? _ = before.database.hooks.events.find? _
    rw [h.events, List.find?_append]
    have hother : event.id ≠ runningId runId := h.id ▸ sessionEventId_ne_running _ _ _
    simp [hother]

theorem Tracks.pass (h : Tracks session before position)
    (hnext : Upcoming session position.cursor record)
    (hbound : record.sequence ≤ session.lastSequence) {owner : Option String}
    (howner : owner = ownerAt session record.sequence)
    (hcurrent : ∀ row, cursorRow before.database.hooks session.id = some row →
      owner = some row.botId)
    (hpassed : Projects session record → (session.id, record.sequence) ∈ before.skipped) :
    Tracks session before ⟨record.sequence, owner, position.persisted⟩ := by
  have hlater := hnext.later
  have hbehind := h.behind
  refine ⟨h.settled, h.persisted, ?_, hbound, howner, hcurrent, ?_⟩
  · show position.persisted ≤ record.sequence
    omega
  · intro other hother hlow hhigh hprojects
    rcases hnext.cases hother hhigh with hread | rfl
    · exact h.read other hother hlow hread hprojects
    · exact hpassed hprojects

theorem Tracks.save (h : Tracks session before position) {hooks : HookTables} {budget : Nat}
    (hadvanced : Advanced before.database.hooks hooks session.id botId position.cursor)
    (howner : position.owner = some botId) :
    Tracks session
      { before with
        database := { before.database with hooks := hooks }
        budget := budget }
      ⟨position.cursor, position.owner, position.cursor⟩ := by
  have hpersisted := h.persisted
  have hbehind := h.behind
  have hsaved : savedCursor hooks session.id = position.cursor := hadvanced.saved
  have hat := h.owner.symm.trans howner
  refine ⟨⟨?_, ?_, ?_, h.settled.ordered, ?_⟩, hsaved.symm, Nat.le_refl _, h.bound, h.owner, ?_, ?_⟩
  · intro row hrow
    have hrow : cursorRow hooks session.id = some row := hrow
    rw [hadvanced.row] at hrow
    rw [← Option.some.inj hrow]
    exact ⟨position.cursor, rfl, h.bound, hat⟩
  · intro other hother sequence hid
    have hother : other ∈ hooks.events := hother
    rw [hadvanced.events] at hother
    have hle := h.settled.known other hother sequence hid
    show sequence ≤ savedCursor hooks session.id
    omega
  · intro sequence hentry
    have hle := h.settled.logged sequence hentry
    show sequence ≤ savedCursor hooks session.id
    omega
  · intro other hother hle hprojects
    have hle : other.sequence ≤ savedCursor hooks session.id := hle
    by_cases hold : other.sequence ≤ position.persisted
    · exact h.settled.complete other hother (hpersisted ▸ hold) hprojects
    · exact .inr (h.read other hother (by omega) (by omega) hprojects)
  · intro row hrow
    have hrow : cursorRow hooks session.id = some row := hrow
    rw [hadvanced.row] at hrow
    rw [← Option.some.inj hrow]
    exact howner
  · intro other _ hlow hhigh
    simp only at hlow hhigh
    omega

theorem Advanced.frame {hooks : HookTables} {sequence budget : Nat}
    (h : Advanced before.database.hooks hooks session.id botId sequence) :
    Frame session.id before
      { before with
        database := { before.database with hooks := hooks }
        budget := budget } := by
  refine ⟨h.others, ?_, ⟨[], (List.append_nil _).symm, List.forall_mem_nil _⟩, ?_, rfl, ?_⟩
  · intro event hevent
    have hevent : event ∈ hooks.events := hevent
    rw [h.events] at hevent
    exact .inl hevent
  · exact fun entry hentry => hentry
  · intro runId
    show hooks.events.find? _ = before.database.hooks.events.find? _
    rw [h.events]

/-- A projection of a session between two of its transactions. -/
structure Between (host : Host) (start : Progress) (session : StoredSession)
    (progress : Progress) : Prop where
  base : Base host progress.database
  settled : Settled session progress
  frame : Frame session.id start progress

/-- A projection of a session at a position. -/
structure Inside (host : Host) (start : Progress) (session : StoredSession) (progress : Progress)
    (position : Position) : Prop where
  base : Base host progress.database
  tracks : Tracks session progress position
  frame : Frame session.id start progress

theorem Inside.between (h : Inside host start session before position) :
    Between host start session before := ⟨h.base, h.tracks.settled, h.frame⟩

end Moves

section Projections

variable {host : Host} {attentionKey : SessionId → String → String → String → String}
  {session : StoredSession} {record : SessionRecord} {position : Position}
  {start progress : Progress} {botId : String}

/-- A session whose journal can be read on from its cursor. -/
structure Readable (host : Host)
    (attentionKey : SessionId → String → String → String → String) (session : StoredSession)
    (database : BotDatabase) : Prop where
  well : WellFormed host session
  fits : Fits session
  /-- The chain of its run names none of the events to come. -/
  clear : ∀ record ∈ session.records,
    savedCursor database.hooks session.id < record.sequence →
      Clear attentionKey database session record

theorem unnamed_frame {sessionId : SessionId} {own : String}
    (hframe : Frame sessionId start progress) (h : Unnamed start.database sessionId own) :
    Unnamed progress.database sessionId own := by
  intro run hrun hsession cause hcause
  refine h run (hframe.runs ▸ hrun) hsession cause ?_
  rw [← hframe.running run.id]
  exact hcause

theorem Readable.next (h : Readable host attentionKey session start.database)
    (hframe : Frame session.id start progress) (hrecord : record ∈ session.records)
    (hunread : savedCursor start.database.hooks session.id < record.sequence) :
    Clear attentionKey progress.database session record := by
  obtain ⟨hevent, hitems⟩ := h.clear record hrecord hunread
  exact ⟨unnamed_frame hframe hevent, fun item hitem => unnamed_frame hframe (hitems item hitem)⟩

theorem projectItem_ensures (laws : HostLaws host) (hkeys : SafeKeys attentionKey)
    (hreadable : Readable host attentionKey session start.database)
    (h : Inside host start session progress position) (hrecord : record ∈ session.records)
    (hunread : savedCursor start.database.hooks session.id < record.sequence)
    (hbot : validateId botId = .ok ()) {item : AttentionItem}
    (hitem : item ∈ pendingAttentionItems record.msg) :
    Ensures (projectItem host attentionKey botId session record item) progress
      (fun _ after => Inside host start session after position) (Between host start session) := by
  unfold projectItem
  refine ensures_bind (ensures_inspect rfl ?_)
  refine ensures_ite (fun _ => ensures_pure h) ?_
  intro hunknown
  obtain ⟨event, hevent, hvalid, hsource, -, hid⟩ := attentionEvent_valid hkeys h.base
    (hreadable.next h.frame hrecord hunread) hreadable.fits hreadable.well hrecord hbot hitem
  refine ensures_bind (ensures_inspect hevent ?_)
  have hnone : progress.database.hooks.event? event.id = none := by
    rw [hid]
    simpa [attentionId] using hunknown
  have hbots : ∀ botId, event.source ≠ .bot botId := by
    intro botId
    rw [hsource]
    simp
  have hrecorded : recordEvent host.digest progress.database.hooks event none = .ok (true, _) :=
    laws.recordEvent_of_new h.base.tidy hvalid hbots hnone fun n hn => by cases hn
  have hchange : (recordHook host progress.database event).map ((), ·) =
      .ok ((), { progress.database with
        hooks := withEvent host.digest progress.database.hooks event none }) := by
    unfold recordHook
    rw [hrecorded]
    rfl
  refine ensures_transact (fun _ => h.between) hchange ?_
  intro budget
  have hnew : ∀ other ∈ (withEvent host.digest progress.database.hooks event none).events,
      other ∈ progress.database.hooks.events ∨ other = event := by
    intro other hother
    rcases List.mem_append.mp hother with hold | hlast
    · exact .inl hold
    · exact .inr (List.mem_singleton.mp hlast)
  refine ⟨base_withEvent h.base hvalid none, h.tracks.keep ⟨rfl, ?_, ?_, fun _ he => he⟩,
    h.frame.trans ⟨fun _ _ => rfl, ?_, ?_, fun _ he => he, rfl, ?_⟩⟩
  · intro other hother
    rcases hnew other hother with hold | rfl
    · exact .inl hold
    · right
      intro sequence heq
      exact sessionEventId_ne_attention _ _ _ (heq.symm.trans hid)
  · exact ⟨[], (List.append_nil _).symm, List.forall_mem_nil _⟩
  · intro other hother
    rcases hnew other hother with hold | rfl
    · exact .inl hold
    · exact .inr (.inr ⟨_, hid⟩)
  · exact ⟨[], (List.append_nil _).symm, List.forall_mem_nil _⟩
  · intro runId
    refine event?_withEvent ?_
    rw [hid]
    exact attention_ne_running _ _

theorem projectAttention_ensures (laws : HostLaws host) (hkeys : SafeKeys attentionKey)
    (hreadable : Readable host attentionKey session start.database)
    (h : Inside host start session progress position) (hrecord : record ∈ session.records)
    (hunread : savedCursor start.database.hooks session.id < record.sequence)
    (hbot : validateId botId = .ok ()) {items : List AttentionItem}
    (hitems : ∀ item ∈ items, item ∈ pendingAttentionItems record.msg) :
    Ensures (projectAttention host attentionKey botId session record items) progress
      (fun _ after => Inside host start session after position) (Between host start session) := by
  induction items generalizing progress with
  | nil => exact ensures_pure h
  | cons item rest ih =>
    rw [List.forall_mem_cons] at hitems
    unfold projectAttention
    refine ensures_bind ?_
    refine (projectItem_ensures laws hkeys hreadable h hrecord hunread hbot hitems.1).mono ?_
    intro _ after hafter
    exact ih hafter hitems.2

theorem Tracks.unrecorded (h : Tracks session progress position) {sequence : Nat}
    (hlater : position.cursor < sequence) :
    progress.database.hooks.event? (sessionEventId session.id sequence) = none := by
  refine List.find?_eq_none.mpr ?_
  intro event hevent heq
  have hle := h.settled.known event hevent sequence (by simpa using heq)
  have hpersisted := h.persisted
  have hbehind := h.behind
  omega

theorem Tracks.row_before (h : Tracks session progress position) {sequence : Nat}
    (hlater : position.cursor < sequence) {row : CursorRow}
    (hrow : cursorRow progress.database.hooks session.id = some row) :
    row.sequence < sequence := by
  obtain ⟨saved, hsaved, -, -⟩ := h.settled.row row hrow
  have hcursor : savedCursor progress.database.hooks session.id = saved := by
    unfold savedCursor
    rw [hrow]
    show row.sequence.toNat = saved
    rw [hsaved]
    exact Int.toNat_natCast saved
  have hpersisted := h.persisted
  have hbehind := h.behind
  omega

theorem projectLifecycle_ensures (laws : HostLaws host)
    (hreadable : Readable host attentionKey session start.database)
    (h : Inside host start session progress position)
    (hnext : Upcoming session position.cursor record)
    (hunread : savedCursor start.database.hooks session.id < record.sequence)
    (hbot : validateId botId = .ok ()) (howner : ownerAt session record.sequence = some botId)
    (hcurrent : ∀ row, cursorRow progress.database.hooks session.id = some row →
      row.botId = botId) (hsame : ¬ChangesOwner session record) :
    Ensures (projectLifecycle host botId session record
        ⟨record.sequence, some botId, position.persisted⟩) progress
      (fun next after => Inside host start session after next ∧ next.cursor = record.sequence ∧
        next.owner = some botId) (Between host start session) := by
  have hrecord := hnext.mem
  have hassigned := (hreadable.well.assigned record hrecord).2
  have hlast := hreadable.well.last
  obtain ⟨event, hevent, hsome, hknown⟩ := lifecycleEvent_valid laws h.base
    (hreadable.next h.frame hrecord hunread).1 hreadable.fits hreadable.well hrecord hbot
  unfold projectLifecycle
  refine ensures_bind (ensures_inspect hevent ?_)
  cases event with
  | none =>
    have hquiet : ¬Projects session record := by
      rintro (hlifecycle | hchanges)
      · rw [hlifecycle] at hsome
        cases hsome
      · exact hsame hchanges
    refine ensures_pure ⟨⟨h.base, ?_, h.frame⟩, rfl, rfl⟩
    exact h.tracks.pass hnext hassigned howner.symm
      (fun row hrow => by rw [hcurrent row hrow]) fun hprojects => absurd hprojects hquiet
  | some event =>
    have hfacts := hknown event rfl
    obtain ⟨hooks, hadvance, hadvanced⟩ := advanceCursorRow_of_owned
      (fun row hrow => ⟨hcurrent row hrow, h.tracks.row_before hnext.later hrow⟩)
      (show (record.sequence : Int) ≤ i64Max by omega)
    have hnone : hooks.event? event.id = none := by
      unfold HookTables.event?
      rw [hadvanced.events, hfacts.id]
      exact h.tracks.unrecorded hnext.later
    have hbots : ∀ botId, event.source ≠ .bot botId := by
      intro botId
      rw [hfacts.source]
      simp
    have htidy := hadvanced.tidy h.base.tidy
    have hbase := base_withHooks h.base htidy (by rw [hadvanced.events]; exact h.base.valid)
    have hrecorded : recordEvent host.digest hooks event (some record.sequence) =
        .ok (true, withEvent host.digest hooks event (some record.sequence)) := by
      refine laws.recordEvent_of_new htidy hfacts.valid hbots hnone ?_
      intro n hn
      cases hn
      omega
    have hchange : (projectSession host progress.database.hooks event record.sequence).map
        (fun projected => (projected.1, { progress.database with hooks := projected.2 })) =
        .ok (true, { progress.database with
          hooks := withEvent host.digest hooks event (some record.sequence) }) := by
      have hproject : projectSession host progress.database.hooks event record.sequence =
          .ok (true, withEvent host.digest hooks event (some record.sequence)) := by
        unfold projectSession
        rw [hfacts.source]
        unfold projectEvent
        rw [hfacts.bot]
        exact except_bind_ok_iff.mpr ⟨_, hadvance, hrecorded⟩
      rw [hproject]
      rfl
    refine ensures_bind (ensures_transact (fun _ => h.between) hchange ?_)
    intro budget
    refine ensures_bind (ensures_logProjected (ensures_pure ?_))
    have hdone : Recorded session record botId event progress
        { progress with
          database := { progress.database with
            hooks := withEvent host.digest hooks event (some record.sequence) }
          budget := budget
          projected := progress.projected ++ [(session.id, record.sequence)] } := by
      refine ⟨hadvanced.row, hadvanced.others, ?_, hfacts.id, rfl, rfl, rfl⟩
      show hooks.events ++ [event] = _
      rw [hadvanced.events]
    exact ⟨⟨base_withEvent hbase hfacts.valid _, h.tracks.project hnext hdone hassigned howner,
      h.frame.trans hdone.frame⟩, rfl, rfl⟩

/-- What a projection has done with the next record. -/
def Past (host : Host) (start : Progress) (session : StoredSession) (record : SessionRecord)
    (next : Position) (after : Progress) : Prop :=
  Inside host start session after next ∧ next.cursor = record.sequence ∧ next.owner.isSome = true

theorem Tracks.row_owner (h : Tracks session progress position)
    (hprevious : ∀ owner, position.owner = some owner → owner = botId) {row : CursorRow}
    (hrow : cursorRow progress.database.hooks session.id = some row) : row.botId = botId :=
  hprevious row.botId (h.current row hrow)

theorem projectOwned_ensures (laws : HostLaws host) (hkeys : SafeKeys attentionKey)
    (hreadable : Readable host attentionKey session start.database)
    (h : Inside host start session progress position)
    (hnext : Upcoming session position.cursor record)
    (hunread : savedCursor start.database.hooks session.id < record.sequence)
    (hbot : validateId botId = .ok ()) (howner : ownerAt session record.sequence = some botId)
    (hprevious : ∀ owner, position.owner = some owner → owner = botId)
    (hsame : ¬ChangesOwner session record) (fallbackOwner : String) :
    Ensures (projectOwned host attentionKey session fallbackOwner record
        ⟨record.sequence, some botId, position.persisted⟩) progress
      (Past host start session record) (Between host start session) := by
  have hrecord := hnext.mem
  have hassigned := (hreadable.well.assigned record hrecord).2
  unfold projectOwned
  refine ensures_bind (ensures_inspect rfl ?_)
  refine ensures_ite ?_ ?_
  · intro _
    refine ensures_bind ?_
    refine (projectAttention_ensures laws hkeys hreadable h hrecord hunread hbot
      fun item hitem => hitem).mono ?_
    intro _ after hafter
    refine (projectLifecycle_ensures laws hreadable hafter hnext hunread hbot howner
      (fun row hrow => hafter.tracks.row_owner hprevious hrow) hsame).mono ?_
    rintro next final ⟨hinside, hcursor, hfinal⟩
    exact ⟨hinside, hcursor, by rw [hfinal]; rfl⟩
  · intro _
    refine ensures_bind (ensures_logSkipped (ensures_pure ⟨⟨h.base, ?_, ?_⟩, rfl, rfl⟩))
    · have hkept : Tracks session { progress with
          skipped := progress.skipped ++ [(session.id, record.sequence)] } position := by
        refine h.tracks.keep ⟨rfl, fun event hevent => .inl hevent, ?_, ?_⟩
        · exact ⟨[], (List.append_nil _).symm, List.forall_mem_nil _⟩
        · exact fun entry hentry => List.mem_append_left _ hentry
      refine hkept.pass hnext hassigned howner.symm ?_ ?_
      · intro row hrow
        rw [hkept.row_owner hprevious hrow]
      · exact fun _ => List.mem_append_right _ (List.mem_singleton_self _)
    · refine h.frame.trans ⟨fun _ _ => rfl, fun event hevent => .inl hevent, ?_, ?_, rfl,
        fun _ => rfl⟩
      · exact ⟨[], (List.append_nil _).symm, List.forall_mem_nil _⟩
      · exact fun entry hentry => List.mem_append_left _ hentry

theorem closeOwnerChange_ensures (laws : HostLaws host) (hshorter : ShorterClosed host)
    (hreadable : Readable host attentionKey session start.database)
    (h : Inside host start session progress position)
    (hnext : Upcoming session position.cursor record) {previous next : String}
    (hprevious : validateId previous = .ok ())
    (howner : ownerAt session record.sequence = some next) :
    Ensures (closeOwnerChange host session previous next record) progress
      (fun _ after => Past host start session record
        ⟨record.sequence, some next, record.sequence⟩ after) (Between host start session) := by
  have hrecord := hnext.mem
  have hassigned := (hreadable.well.assigned record hrecord).2
  have hlast := hreadable.well.last
  have hvalid := ownerChangedEvent_valid hreadable.fits hreadable.well hrecord hprevious
  obtain ⟨closed, hclose, hbase, hclosed⟩ := closeSessionSources_of_new laws hshorter h.base rfl
    rfl hvalid (h.tracks.unrecorded hnext.later)
  have hchange : (closeSessionSources host progress.database
      [ownerChangedEvent session previous record]).map ((), ·) = .ok ((), closed) := by
    rw [hclose]
    rfl
  unfold closeOwnerChange
  refine ensures_bind (ensures_transact (fun _ => h.between) hchange ?_)
  intro budget
  refine ensures_bind (ensures_logProjected ?_)
  obtain ⟨hooks, hadvance, hadvanced⟩ := @advanceCursorRow_of_owned closed.hooks session.id next
    record.sequence (fun row hrow => by rw [hclosed.cursor] at hrow; cases hrow) (by omega)
  have hsecond : (advanceSourceCursor closed.hooks session.id next record.sequence).map
      (fun hooks => ((), { closed with hooks := hooks })) =
      .ok ((), { closed with hooks := hooks }) := by
    unfold advanceSourceCursor
    rw [hadvance]
    rfl
  refine ensures_transact (fun hclosing => by cases hclosing) hsecond ?_
  intro budget'
  have hdone : Recorded session record next (ownerChangedEvent session previous record) progress
      { progress with
        database := { closed with hooks := hooks }
        budget := budget'
        projected := progress.projected ++ [(session.id, record.sequence)] } := by
    refine ⟨hadvanced.row, ?_, ?_, rfl, rfl, rfl, hclosed.runs⟩
    · intro other hother
      exact (hadvanced.others other hother).trans (hclosed.others other hother)
    · exact hadvanced.events.trans hclosed.events
  refine ⟨⟨?_, h.tracks.project hnext hdone hassigned howner, h.frame.trans hdone.frame⟩, rfl, rfl⟩
  exact base_withHooks hbase (hadvanced.tidy hbase.tidy) (by rw [hadvanced.events]; exact hbase.valid)

theorem projectRecord_ensures (laws : HostLaws host) (hkeys : SafeKeys attentionKey)
    (hshorter : ShorterClosed host)
    (hreadable : Readable host attentionKey session start.database)
    (h : Inside host start session progress position)
    (hnext : Upcoming session position.cursor record)
    (hunread : savedCursor start.database.hooks session.id < record.sequence)
    (fallbackOwner : String) :
    Ensures (projectRecord host attentionKey session fallbackOwner record position) progress
      (Past host start session record) (Between host start session) := by
  obtain ⟨owner, howner⟩ := Option.isSome_iff_exists.mp
    (ownerAt_isSome hreadable.well hnext.mem)
  have hvalid : ∀ {cursor : Nat} {named : String}, ownerAt session cursor = some named →
      validateId named = .ok () := by
    intro cursor named hnamed
    obtain ⟨other, hother, hconfigured⟩ := ownerAt_named hnamed
    exact hreadable.fits.owners other hother named hconfigured
  have hstep := hnext.owner
  have hbefore := hnext.previous
  have hposition := h.tracks.owner
  unfold projectRecord
  cases hconfigured : configuredOwner record.msg with
  | none =>
    rw [hconfigured, Option.none_or, ← hposition, howner] at hstep
    dsimp only
    rw [← hstep]
    refine projectOwned_ensures laws hkeys hreadable h hnext hunread (hvalid howner) howner ?_ ?_
      fallbackOwner
    · intro named hnamed
      exact (Option.some.inj (hstep.trans hnamed)).symm
    · rintro ⟨next, previous, hnamed, -⟩
      rw [hconfigured] at hnamed
      cases hnamed
  | some next =>
    rw [hconfigured, Option.some_or, howner] at hstep
    obtain rfl := Option.some.inj hstep
    dsimp only
    cases hprevious : position.owner with
    | none =>
      dsimp only
      refine projectOwned_ensures laws hkeys hreadable h hnext hunread (hvalid howner) howner ?_ ?_
        fallbackOwner
      · intro named hnamed
        rw [hprevious] at hnamed
        cases hnamed
      · rintro ⟨_, previous, -, hold, -⟩
        rw [hbefore, ← hposition, hprevious] at hold
        cases hold
    | some previous =>
      dsimp only
      refine ensures_ite ?_ ?_
      · rintro rfl
        refine projectOwned_ensures laws hkeys hreadable h hnext hunread (hvalid howner) howner ?_
          ?_ fallbackOwner
        · intro named hnamed
          rw [hprevious] at hnamed
          exact (Option.some.inj hnamed).symm
        · rintro ⟨next, other, hnamed, hold, hne⟩
          rw [hbefore, ← hposition, hprevious] at hold
          rw [hconfigured] at hnamed
          exact hne ((Option.some.inj hold).symm.trans (Option.some.inj hnamed))
      · intro _
        refine ensures_bind ?_
        refine (closeOwnerChange_ensures laws hshorter hreadable h hnext
          (hvalid (hposition ▸ hprevious)) howner).mono ?_
        intro _ after hafter
        exact ensures_pure hafter

theorem projectRecords_ensures (laws : HostLaws host) (hkeys : SafeKeys attentionKey)
    (hshorter : ShorterClosed host)
    (hreadable : Readable host attentionKey session start.database)
    (h : Inside host start session progress position)
    (hstart : savedCursor start.database.hooks session.id ≤ position.cursor)
    {page rest : List SessionRecord} (hpage : recordsAfter session position.cursor = page ++ rest)
    (fallbackOwner : String) :
    Ensures (projectRecords host attentionKey session fallbackOwner page position) progress
      (fun next after => Inside host start session after next ∧
        recordsAfter session next.cursor = rest ∧ position.cursor ≤ next.cursor ∧
        (next = position ∨ next.owner.isSome = true))
      (Between host start session) := by
  induction page generalizing progress position with
  | nil => exact ensures_pure ⟨h, hpage, Nat.le_refl _, .inl rfl⟩
  | cons record page ih =>
    obtain ⟨hnext, hafter⟩ := upcoming_of_head hreadable.well.ordered hpage
    have hlater := hnext.later
    unfold projectRecords
    refine ensures_bind ?_
    refine (projectRecord_ensures laws hkeys hshorter hreadable h hnext (by omega)
      fallbackOwner).mono ?_
    rintro next after ⟨hinside, hcursor, howner⟩
    rw [← hcursor] at hafter hlater
    refine (ih hinside (by omega) hafter).mono ?_
    rintro last final ⟨hlast, hrest, hle, hmoved⟩
    refine ⟨hlast, hrest, by omega, .inr ?_⟩
    rcases hmoved with hsame | hsome
    · rw [hsame]
      exact howner
    · exact hsome

/-- The records of a page up to a bound. -/
def pageThrough (session : StoredSession) (cursor : Nat) (through : Option Nat) :
    List SessionRecord := upTo through (session.rowsAfter cursor 100)

theorem decodeRows_ok {rows : List SessionRecord} (h : ∀ record ∈ rows, record.undecoded = none) :
    decodeRows rows = .ok rows := by
  have hnone : rows.findSome? (·.undecoded) = none := List.findSome?_eq_none_iff.mpr h
  simp only [decodeRows, hnone]

theorem eventsAfter_ok (hfits : Fits session) (cursor limit : Nat) :
    session.eventsAfter cursor limit = .ok (session.rowsAfter cursor limit) :=
  decodeRows_ok fun record hrecord =>
    hfits.decoded record (List.filter_sublist.subset (List.take_subset _ _ hrecord))

theorem pageThrough_prefix (session : StoredSession) (cursor : Nat) (through : Option Nat) :
    ∃ rest, recordsAfter session cursor = pageThrough session cursor through ++ rest := by
  have htake : session.rowsAfter cursor 100 <+: recordsAfter session cursor :=
    List.take_prefix _ _
  obtain ⟨rest, hrest⟩ := (List.takeWhile_prefix _).trans htake
  exact ⟨rest, hrest.symm⟩

theorem projectPage_ensures (laws : HostLaws host) (hkeys : SafeKeys attentionKey)
    (hshorter : ShorterClosed host)
    (hreadable : Readable host attentionKey session start.database)
    (h : Inside host start session progress ⟨position.cursor, position.owner, position.cursor⟩)
    (hstart : savedCursor start.database.hooks session.id ≤ position.cursor) {through : Option Nat}
    {rest : List SessionRecord}
    (hpage : recordsAfter session position.cursor =
      pageThrough session position.cursor through ++ rest) (fallbackOwner : String) :
    Ensures (projectPage host attentionKey session fallbackOwner through position) progress
      (fun next after => Inside host start session after
          ⟨next.cursor, next.owner, next.cursor⟩ ∧
        recordsAfter session next.cursor = rest ∧ position.cursor ≤ next.cursor)
      (Between host start session) := by
  unfold projectPage
  refine ensures_bind (ensures_inspect (eventsAfter_ok hreadable.fits _ _) ?_)
  refine ensures_bind ?_
  refine (projectRecords_ensures laws hkeys hshorter hreadable h hstart hpage
    fallbackOwner).mono ?_
  rintro next after ⟨hinside, hrest, hle, hmoved⟩
  refine ensures_ite ?_ ?_
  · intro hbehind
    have howner : next.owner.isSome = true := by
      rcases hmoved with rfl | hsome
      · simp only at hbehind
        omega
      · exact hsome
    obtain ⟨owner, howner⟩ := Option.isSome_iff_exists.mp howner
    have hlast := hreadable.well.last
    have hbound := hinside.tracks.bound
    have hpersisted := hinside.tracks.persisted
    obtain ⟨hooks, hadvance, hadvanced⟩ := @advanceCursorRow_of_owned after.database.hooks
      session.id owner next.cursor (fun row hrow => by
        refine ⟨Option.some.inj ((hinside.tracks.current row hrow).symm.trans howner), ?_⟩
        obtain ⟨saved, hsequence, -, -⟩ := hinside.tracks.settled.row row hrow
        have hcursor : savedCursor after.database.hooks session.id = saved := by
          unfold savedCursor
          rw [hrow]
          show row.sequence.toNat = saved
          rw [hsequence]
          exact Int.toNat_natCast saved
        omega) (by omega)
    have hchange : (advanceSourceCursor after.database.hooks session.id
        (next.owner.getD fallbackOwner) next.cursor).map
          (fun hooks => ((), { after.database with hooks := hooks })) =
        .ok ((), { after.database with hooks := hooks }) := by
      unfold advanceSourceCursor
      rw [howner, Option.getD_some, hadvance]
      rfl
    refine ensures_bind (ensures_transact (fun _ => hinside.between) hchange ?_)
    intro budget
    refine ensures_pure ⟨⟨?_, hinside.tracks.save hadvanced howner,
      hinside.frame.trans hadvanced.frame⟩, hrest, hle⟩
    exact base_withHooks hinside.base (hadvanced.tidy hinside.base.tidy)
      (by rw [hadvanced.events]; exact hinside.base.valid)
  · intro hsaved'
    have hbehind := hinside.tracks.behind
    have heq : next.persisted = next.cursor := by omega
    have hnext : (⟨next.cursor, next.owner, next.cursor⟩ : Position) = next := by
      cases next
      simp only at heq
      rw [heq]
    refine ensures_pure ⟨?_, hrest, hle⟩
    rw [hnext]
    exact hinside

theorem Settled.begin (h : Settled session progress) (hbase : Base host progress.database)
    (hwell : WellFormed host session) :
    ∃ owner, sourceCursor progress.database session.id =
        .ok (savedCursor progress.database.hooks session.id, owner) ∧
      Inside host progress session progress
        ⟨savedCursor progress.database.hooks session.id, owner,
          savedCursor progress.database.hooks session.id⟩ := by
  have hread : ∀ owner : Option String, ∀ record ∈ session.records,
      savedCursor progress.database.hooks session.id < record.sequence →
      record.sequence ≤ savedCursor progress.database.hooks session.id →
      Projects session record → (session.id, record.sequence) ∈ progress.skipped := by
    intro _ record _ hlow hhigh
    omega
  cases hrow : cursorRow progress.database.hooks session.id with
  | none =>
    have hsaved : savedCursor progress.database.hooks session.id = 0 := by
      unfold savedCursor
      rw [hrow]
    have hnone : ownerAt session 0 = none := by
      have hempty : recordsUpTo session 0 = [] := by
        refine List.filter_eq_nil_iff.mpr ?_
        intro record hrecord
        have hpositive := (hwell.assigned record hrecord).1
        rw [decide_eq_true_eq]
        omega
      show ((recordsUpTo session 0).filterMap _).getLast? = none
      rw [hempty]
      rfl
    refine ⟨none, ?_, hbase, ⟨h, rfl, Nat.le_refl _, ?_, ?_, ?_, hread none⟩, Frame.refl _ _⟩
    · unfold sourceCursor
      unfold cursorRow at hrow
      rw [hrow, hsaved]
    · rw [hsaved]
      exact Nat.zero_le _
    · rw [hsaved]
      exact hnone.symm
    · intro row hsome
      rw [hrow] at hsome
      cases hsome
  | some row =>
    obtain ⟨sequence, hsequence, hbound, howner⟩ := h.row row hrow
    have hsaved : savedCursor progress.database.hooks session.id = sequence := by
      unfold savedCursor
      rw [hrow]
      show row.sequence.toNat = sequence
      rw [hsequence]
      exact Int.toNat_natCast sequence
    refine ⟨some row.botId, ?_, hbase, ⟨h, rfl, Nat.le_refl _, ?_, ?_, ?_, hread none⟩,
      Frame.refl _ _⟩
    · unfold sourceCursor
      unfold cursorRow at hrow
      rw [hrow, hsaved]
      dsimp only
      rw [if_neg (by omega), hsequence, Int.toNat_natCast]
    · rw [hsaved]
      exact hbound
    · rw [hsaved]
      exact howner.symm
    · intro other hsome
      rw [hrow] at hsome
      rw [← Option.some.inj hsome]

theorem pageThrough_head {cursor bound : Nat} (hwell : WellFormed host session)
    {target : SessionRecord} (htarget : target ∈ session.records) (hlater : cursor < target.sequence)
    (hbound : target.sequence = bound) :
    ∃ record rest, pageThrough session cursor (some bound) = record :: rest := by
  have hmem : target ∈ recordsAfter session cursor :=
    List.mem_filter.mpr ⟨htarget, by simpa using hlater⟩
  have hordered : (recordsAfter session cursor).Pairwise
      fun first second => first.sequence < second.sequence :=
    hwell.ordered.sublist List.filter_sublist
  cases hrecords : recordsAfter session cursor with
  | nil =>
    rw [hrecords] at hmem
    cases hmem
  | cons record rest =>
    rw [hrecords] at hmem hordered
    rw [List.pairwise_cons] at hordered
    have hle : record.sequence ≤ bound := by
      rcases List.mem_cons.mp hmem with rfl | hrest
      · omega
      · have hlt := hordered.1 target hrest
        omega
    have hpage : pageThrough session cursor (some bound) = record ::
        (rest.take 99).takeWhile fun other => decide (other.sequence ≤ bound) := by
      show ((recordsAfter session cursor).take 100).takeWhile _ = _
      rw [hrecords, List.take_succ_cons, List.takeWhile_cons, if_pos (by simpa using hle)]
      rfl
    exact ⟨record, _, hpage⟩

theorem projectThrough_ensures (laws : HostLaws host) (hkeys : SafeKeys attentionKey)
    (hshorter : ShorterClosed host)
    (hreadable : Readable host attentionKey session start.database)
    {target : SessionRecord} (htarget : target ∈ session.records) {fuel : Nat}
    (h : Inside host start session progress ⟨position.cursor, position.owner, position.cursor⟩)
    (hstart : savedCursor start.database.hooks session.id ≤ position.cursor)
    (hfuel : (recordsAfter session position.cursor).length < fuel) (fallbackOwner : String) :
    Ensures (projectThrough host attentionKey session fallbackOwner target.sequence fuel position)
      progress (fun _ after => Between host start session after ∧
        target.sequence ≤ savedCursor after.database.hooks session.id)
      (Between host start session) := by
  induction fuel generalizing progress position with
  | zero => omega
  | succ fuel ih =>
    unfold projectThrough
    refine ensures_ite ?_ ?_
    · intro hdone
      refine ensures_pure ⟨h.between, ?_⟩
      have hpersisted := h.tracks.persisted
      simp only at hpersisted
      omega
    · intro hbefore
      obtain ⟨rest, hpage⟩ := pageThrough_prefix session position.cursor (some target.sequence)
      have hlater : position.cursor < target.sequence := by omega
      obtain ⟨record, page, hhead⟩ := pageThrough_head hreadable.well htarget hlater rfl
      refine ensures_bind ?_
      refine (projectPage_ensures laws hkeys hshorter hreadable h hstart hpage
        fallbackOwner).mono ?_
      rintro next after ⟨hinside, hrest, hle⟩
      have hshort : (recordsAfter session next.cursor).length <
          (recordsAfter session position.cursor).length := by
        rw [hrest, hpage, hhead, List.length_append, List.length_cons]
        omega
      refine ensures_ite ?_ ?_
      · intro hsame
        rw [hsame] at hshort
        omega
      · intro _
        exact ih hinside (by omega) (by omega)

theorem projectSessionJournal_ensures (laws : HostLaws host) (hkeys : SafeKeys attentionKey)
    (hshorter : ShorterClosed host) (hbase : Base host progress.database)
    (hsettled : Settled session progress)
    (hreadable : Readable host attentionKey session progress.database) (fallbackOwner : String) :
    Ensures (projectSessionJournal host attentionKey session fallbackOwner none) progress
      (fun _ after => Between host progress session after ∧
        recordsAfter session (savedCursor after.database.hooks session.id) =
          (recordsAfter session (savedCursor progress.database.hooks session.id)).drop 100)
      (Between host progress session) := by
  obtain ⟨owner, hcursor, hinside⟩ := hsettled.begin hbase hreadable.well
  unfold projectSessionJournal
  refine ensures_bind (ensures_inspect hcursor ?_)
  have hpage : recordsAfter session (savedCursor progress.database.hooks session.id) =
      pageThrough session (savedCursor progress.database.hooks session.id) none ++
        (recordsAfter session (savedCursor progress.database.hooks session.id)).drop 100 := by
    have hall : pageThrough session (savedCursor progress.database.hooks session.id) none =
        (recordsAfter session (savedCursor progress.database.hooks session.id)).take 100 :=
      List.takeWhile_eq_self_iff.mpr fun record _ => rfl
    rw [hall, List.take_append_drop]
  refine ensures_bind ?_
  refine (projectPage_ensures laws hkeys hshorter hreadable hinside (Nat.le_refl _) hpage
    fallbackOwner).mono ?_
  rintro next after ⟨hafter, hrest, -⟩
  refine ensures_pure ⟨hafter.between, ?_⟩
  have hpersisted := hafter.tracks.persisted
  simp only at hpersisted
  rw [← hpersisted]
  exact hrest

theorem closeReassignedSource_ensures (laws : HostLaws host) (hkeys : SafeKeys attentionKey)
    (hshorter : ShorterClosed host) (hbase : Base host progress.database)
    (hsettled : Settled session progress)
    (hreadable : Readable host attentionKey session progress.database)
    (hconfigured : ∃ record ∈ session.records.reverse.take 100,
      (configuredOwner record.msg).isSome = true) (previous : String) :
    Ensures (closeReassignedSource host attentionKey session previous) progress
      (fun _ after => Between host progress session after) (Between host progress session) := by
  have hpage : session.newestEvents 100 = .ok (session.records.reverse.take 100) :=
    decodeRows_ok fun record hrecord =>
      hreadable.fits.decoded record (List.mem_reverse.mp (List.take_subset _ _ hrecord))
  unfold closeReassignedSource
  refine ensures_bind (ensures_inspect hpage ?_)
  cases hfind : (session.records.reverse.take 100).find? fun record =>
      (configuredOwner record.msg).isSome with
  | none =>
    obtain ⟨record, hrecord, hsome⟩ := hconfigured
    exact absurd hsome (List.find?_eq_none.mp hfind record hrecord)
  | some target =>
    have htarget : target ∈ session.records :=
      List.mem_reverse.mp ((List.take_subset _ _) (List.mem_of_find?_eq_some hfind))
    obtain ⟨owner, hcursor, hinside⟩ := hsettled.begin hbase hreadable.well
    dsimp only
    unfold projectSessionJournal
    refine ensures_bind (ensures_inspect hcursor ?_)
    have hfuel : (recordsAfter session (savedCursor progress.database.hooks session.id)).length <
        session.records.length + 1 := Nat.lt_succ_of_le (List.length_filter_le _ _)
    refine (projectThrough_ensures laws hkeys hshorter hreadable htarget hinside (Nat.le_refl _)
      hfuel previous).mono ?_
    exact fun _ after hafter => hafter.1

end Projections

section Finite

variable (host : Host) (attentionKey : SessionId → String → String → String → String)

end Finite

section Gateways

variable {host : Host} {attentionKey : SessionId → String → String → String → String}
  {sessions : List StoredSession} {minted : List SessionId} {progress after : Progress}

/-- Nothing is known of a session that was never created. -/
structure Unborn (id : SessionId) (progress : Progress) : Prop where
  cursor : cursorRow progress.database.hooks id = none
  events : ∀ event ∈ progress.database.hooks.events, ∀ sequence,
    event.id ≠ sessionEventId id sequence
  projected : ∀ entry ∈ progress.projected, entry.1 ≠ id

theorem Unborn.keep {id : SessionId} (h : Unborn id progress) (hkept : Untouched id progress after) :
    Unborn id after := by
  obtain ⟨added, hadded, hothers⟩ := hkept.projected
  refine ⟨hkept.cursor.trans h.cursor, ?_, ?_⟩
  · intro event hevent
    rcases hkept.events event hevent with hold | hnew
    · exact h.events event hold
    · exact hnew
  · intro entry hentry
    rw [hadded] at hentry
    rcases List.mem_append.mp hentry with hold | hnew
    · exact h.projected entry hold
    · exact hothers entry hnew

/-- The tables and the sessions of a gateway between two transactions. -/
structure AllSettled (host : Host) (sessions : List StoredSession) (minted : List SessionId)
    (progress : Progress) : Prop where
  base : Base host progress.database
  settled : ∀ session ∈ sessions, Settled session progress
  unborn : ∀ id, id ∉ minted → Unborn id progress

theorem Between.allSettled {session : StoredSession} (hafter : Between host progress session after)
    (h : AllSettled host sessions minted progress) (hsession : session ∈ sessions)
    (hdistinct : (sessions.map (·.id)).Nodup) (hminted : session.id ∈ minted) :
    AllSettled host sessions minted after := by
  refine ⟨hafter.base, ?_, ?_⟩
  · intro other hother
    by_cases hsame : other.id = session.id
    · have heq := List.inj_on_of_nodup_map hdistinct hother hsession hsame
      rw [heq]
      exact hafter.settled
    · exact (h.settled other hother).keep (hafter.frame.untouched hsame)
  · intro id hid
    exact (h.unborn id hid).keep (hafter.frame.untouched fun hsame => hid (hsame ▸ hminted))

theorem Readable.frame {session : StoredSession} {sessionId : SessionId}
    (h : Readable host attentionKey session progress.database)
    (hframe : Frame sessionId progress after) (hother : session.id ≠ sessionId) :
    Readable host attentionKey session after.database := by
  refine ⟨h.well, h.fits, ?_⟩
  intro record hrecord hunread
  rw [(hframe.untouched hother).saved] at hunread
  obtain ⟨hevent, hitems⟩ := h.clear record hrecord hunread
  have hunnamed : ∀ own, Unnamed progress.database session.id own →
      Unnamed after.database session.id own := by
    intro own hown run hrun hsession cause hcause
    refine hown run (hframe.runs ▸ hrun) hsession cause ?_
    rw [← hframe.running run.id]
    exact hcause
  exact ⟨hunnamed _ hevent, fun item hitem => hunnamed _ (hitems item hitem)⟩

/-- How far the sessions were read. -/
def ReadOn (sessions : List StoredSession) (before after : Progress) : Prop :=
  ∀ session ∈ sessions, recordsAfter session (savedCursor after.database.hooks session.id) =
    (recordsAfter session (savedCursor before.database.hooks session.id)).drop 100

theorem projectSessions_ensures (laws : HostLaws host) (hkeys : SafeKeys attentionKey)
    (hshorter : ShorterClosed host) (hdistinct : (sessions.map (·.id)).Nodup)
    (hminted : ∀ session ∈ sessions, session.id ∈ minted) {list : List StoredSession}
    (hlist : list.Sublist sessions) (h : AllSettled host sessions minted progress)
    (hreadable : ∀ session ∈ list, Readable host attentionKey session progress.database) :
    Ensures (projectSessions host attentionKey list) progress
      (fun _ after => AllSettled host sessions minted after ∧ ReadOn list progress after ∧
        ∀ id, id ∉ list.map (·.id) → savedCursor after.database.hooks id =
          savedCursor progress.database.hooks id)
      (AllSettled host sessions minted) := by
  induction list generalizing progress with
  | nil =>
    exact ensures_pure ⟨h, List.forall_mem_nil _, fun _ _ => rfl⟩
  | cons session rest ih =>
    rw [List.forall_mem_cons] at hreadable
    have hsession : session ∈ sessions := hlist.subset List.mem_cons_self
    have hrestDistinct : ((session :: rest).map (·.id)).Nodup := hdistinct.sublist (hlist.map _)
    rw [List.map_cons, List.nodup_cons] at hrestDistinct
    have hall : ∀ after, Between host progress session after →
        AllSettled host sessions minted after :=
      fun after hafter => hafter.allSettled h hsession hdistinct (hminted session hsession)
    unfold projectSessions
    refine ensures_bind ?_
    have hjournal := projectSessionJournal_ensures laws hkeys hshorter h.base
      (h.settled session hsession) hreadable.1 session.ownerId
    unfold Ensures at hjournal ⊢
    cases hrun : projectSessionJournal host attentionKey session session.ownerId none progress with
    | mk outcome between =>
      rw [hrun] at hjournal
      cases outcome with
      | failed error => exact hjournal
      | stopped closing => exact fun hclosing => hall between (hjournal hclosing)
      | done value =>
        obtain ⟨hbetween, hread⟩ := hjournal
        have hothers : ∀ other ∈ rest, other.id ≠ session.id := by
          intro other hother hsame
          exact hrestDistinct.1 (hsame ▸ List.mem_map_of_mem hother)
        refine (ih ((List.sublist_cons_self _ _).trans hlist) (hall between hbetween) ?_).mono ?_
        · intro other hother
          exact (hreadable.2 other hother).frame hbetween.frame (hothers other hother)
        · rintro _ final ⟨hsettled, hrest, hkept⟩
          refine ⟨hsettled, ?_, ?_⟩
          · intro other hother
            rcases List.mem_cons.mp hother with rfl | hother
            · rw [hkept _ hrestDistinct.1]
              exact hread
            · rw [hrest other hother, (hbetween.frame.untouched (hothers other hother)).saved]
          · intro id hid
            rw [List.map_cons, List.mem_cons, not_or] at hid
            rw [hkept id hid.2, (hbetween.frame.untouched hid.1).saved]

theorem AllSettled.budget {sessions : List StoredSession} {minted : List SessionId}
    {database : BotDatabase} {budget budget' : Nat} {projected skipped : List (SessionId × Nat)}
    (h : AllSettled host sessions minted ⟨database, budget, projected, skipped⟩) :
    AllSettled host sessions minted ⟨database, budget', projected, skipped⟩ := by
  refine ⟨h.base, ?_, ?_⟩
  · intro session hsession
    obtain ⟨hrow, hknown, hlogged, hordered, hcomplete⟩ := h.settled session hsession
    exact ⟨hrow, hknown, hlogged, hordered, hcomplete⟩
  · intro id hid
    obtain ⟨hcursor, hevents, hprojected⟩ := h.unborn id hid
    exact ⟨hcursor, hevents, hprojected⟩

theorem Settled.assigned {session : StoredSession} {progress : Progress}
    (h : Settled session progress) :
    savedCursor progress.database.hooks session.id ≤ session.lastSequence := by
  unfold savedCursor
  cases hrow : cursorRow progress.database.hooks session.id with
  | none => exact Nat.zero_le _
  | some row =>
    obtain ⟨sequence, hsequence, hbound, -⟩ := h.row row hrow
    show row.sequence.toNat ≤ _
    rw [hsequence, Int.toNat_natCast]
    exact hbound

end Gateways

end MobiusAgent.SessionProgress
