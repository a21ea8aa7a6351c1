import MobiusAgent.SessionProgress

/-!
# The dispatch of stored events

A gateway creates and deletes sessions, their runners commit, other
transactions of the Bot store come between, and the stored events are
dispatched until the gateway stops. The sessions stay settled in every run
whose steps meet a condition: no projection fails, every journal record is
projected once and in order, and no session waits for another.
-/

namespace MobiusAgent.SessionDispatch

open JsonValue ProtocolEvents CheckpointRecords CheckpointValidation HookRecords
open RoutineSchedules HookStore RoutineCatalog HookTransactions RoutinePolling RoutineRuns
open HookDispatch HookDelivery SessionProjection SessionEvents SessionProgress

section Statements

variable {digest : String → String → String} {tables after : HookTables}
  {statement : HookStatement}

theorem Tidy.remap (h : Tidy digest tables) (change : OutboxRow → OutboxRow)
    (hsame : ∀ row, (change row).id = row.id ∧ (change row).eventId = row.eventId ∧
      (change row).botId = row.botId ∧ (change row).bindingId = row.bindingId) :
    Tidy digest { tables with outbox := tables.outbox.map change } := by
  refine ⟨h.keys, ?_, ?_, h.cursors⟩
  · intro row hrow
    obtain ⟨old, hold, rfl⟩ := List.mem_map.mp hrow
    obtain ⟨hid, hevent, hbot, hbinding⟩ := hsame old
    rw [hid, hevent, hbot, hbinding]
    exact h.identities old hold
  · intro row hrow
    obtain ⟨old, hold, rfl⟩ := List.mem_map.mp hrow
    rw [(hsame old).2.1]
    exact h.caused old hold

theorem Tidy.removeBot (h : Tidy digest tables) (botId : String) :
    Tidy digest (removeBot tables botId) := by
  refine ⟨h.keys.sublist (List.filter_sublist.map _), ?_, ?_, ?_⟩
  · exact fun row hrow => h.identities row (List.filter_sublist.subset hrow)
  · intro row hrow
    obtain ⟨hrow, hkept⟩ := List.mem_filter.mp hrow
    obtain ⟨event, hevent, hid⟩ := h.caused row hrow
    refine ⟨event, List.mem_filter.mpr ⟨hevent, ?_⟩, hid⟩
    rw [Bool.not_eq_true', List.any_eq_false] at hkept
    have hother := hkept event hevent
    simpa [hid] using hother
  · exact fun row hrow => h.cursors row (List.filter_sublist.subset hrow)

/-- The statements of other transactions of the Bot store: the identities of session events and
the cursors are the projection's, a cursor is forgotten after its session, and the sessions of a
Bot are deleted before it. -/
def Aside (sessions : List StoredSession) (tables : HookTables) : HookStatement → Prop
  | .record event sequence =>
    sequence = none ∧ ∀ sessionId number, event.id ≠ sessionEventId sessionId number
  | .advance _ _ _ => False
  | .forget sessionId => ∀ session ∈ sessions, session.id ≠ sessionId
  | .deleteBot botId => ∀ session ∈ sessions, ∀ row ∈ cursorRow tables session.id,
    row.botId ≠ botId
  | _ => True

/-- What another statement does to the tables. -/
structure Beside (sessions : List StoredSession) (tables after : HookTables) : Prop where
  cursors : ∀ session ∈ sessions, cursorRow after session.id = cursorRow tables session.id
  forgotten : ∀ id, cursorRow tables id = none → cursorRow after id = none
  events : ∀ event ∈ after.events, event ∈ tables.events ∨ (validateEvent event = .ok () ∧
    ∀ sessionId number, event.id ≠ sessionEventId sessionId number)

theorem Beside.same {sessions : List StoredSession} (hcursors : after.cursors = tables.cursors)
    (hevents : after.events = tables.events) : Beside sessions tables after := by
  have hrow : ∀ id, cursorRow after id = cursorRow tables id := by
    intro id
    unfold cursorRow
    rw [hcursors]
  refine ⟨fun session _ => hrow session.id, fun id hnone => (hrow id).trans hnone, ?_⟩
  intro event hevent
  rw [hevents] at hevent
  exact .inl hevent

theorem find?_none_of_filter {cursors : List CursorRow} {kept : CursorRow → Bool} {id : SessionId}
    (h : cursors.find? (·.sessionId = id) = none) :
    (cursors.filter kept).find? (·.sessionId = id) = none := by
  rw [List.find?_eq_none] at h ⊢
  exact fun row hrow => h row (List.filter_sublist.subset hrow)

/-- Other statements keep the tables tidy and leave the sessions. -/
theorem statement_beside {sessions : List StoredSession}
    (h : statement.apply digest tables = .ok after) (haside : Aside sessions tables statement)
    (htidy : Tidy digest tables) : Tidy digest after ∧ Beside sessions tables after := by
  cases statement with
  | accept id =>
    rw [← Except.ok.inj h]
    exact ⟨htidy.accept (some id), Beside.same rfl rfl⟩
  | fail id error retryAt =>
    rw [← Except.ok.inj h]
    refine ⟨Tidy.remap htidy _ ?_, Beside.same rfl rfl⟩
    intro row
    split
    · exact ⟨rfl, rfl, rfl, rfl⟩
    · exact ⟨rfl, rfl, rfl, rfl⟩
  | save botId routineId binding enabled afterSequence now =>
    have hsaved := saveBinding_saved h
    exact ⟨htidy.prune hsaved.pruned (hsaved.keys htidy.keys),
      Beside.same hsaved.pruned.cursors hsaved.pruned.events⟩
  | remove botId id =>
    rw [← Except.ok.inj h]
    exact ⟨htidy.prune (removeBinding_pruned tables botId id)
      (htidy.keys.sublist (List.filter_sublist.map _)), Beside.same rfl rfl⟩
  | unbindRoutine routineId | unbindSession sessionId =>
    rw [← Except.ok.inj h]
    exact ⟨htidy.prune (Pruned.of_bindings tables _)
      (htidy.keys.sublist (List.filter_sublist.map _)), Beside.same rfl rfl⟩
  | cancel source =>
    rw [← Except.ok.inj h]
    exact ⟨htidy.prune (cancelSourcePending_pruned tables source) htidy.keys,
      Beside.same rfl rfl⟩
  | record event sequence =>
    obtain ⟨hvalid, ⟨-, rfl⟩ | ⟨-, rfl⟩⟩ := record_cases h
    · exact ⟨htidy, Beside.same rfl rfl⟩
    · refine ⟨htidy.withEvent event sequence, fun _ _ => rfl, fun _ hnone => hnone, ?_⟩
      intro recorded hrecorded
      rcases List.mem_append.mp hrecorded with hold | hnew
      · exact .inl hold
      · rw [List.mem_singleton.mp hnew]
        exact .inr ⟨hvalid, haside.2⟩
  | advance sessionId botId sequence => exact absurd haside not_false
  | forget sessionId =>
    rw [← Except.ok.inj h]
    refine ⟨⟨htidy.keys, htidy.identities, htidy.caused, ?_⟩, ?_, ?_, fun event hevent =>
      .inl hevent⟩
    · exact fun row hrow => htidy.cursors row (List.filter_sublist.subset hrow)
    · intro session hsession
      show (tables.cursors.filter _).find? _ = _
      rw [find?_forgotten, if_neg (haside session hsession)]
      rfl
    · exact fun id hnone => find?_none_of_filter hnone
  | deleteBot botId =>
    rw [← Except.ok.inj h]
    refine ⟨Tidy.removeBot htidy botId, ?_, ?_, ?_⟩
    · intro session hsession
      show (tables.cursors.filter _).find? _ = tables.cursors.find? _
      cases hrow : tables.cursors.find? (·.sessionId = session.id) with
      | none => exact find?_none_of_filter hrow
      | some row =>
        have hkept := haside session hsession row hrow
        rw [List.find?_filter]
        rw [List.find?_eq_some_iff_append] at hrow ⊢
        obtain ⟨hmatch, first, rest, hsplit, hfirst⟩ := hrow
        refine ⟨by simpa [hkept] using hmatch, first, rest, hsplit, ?_⟩
        intro other hother
        have hno := hfirst other hother
        simp only [Bool.not_eq_eq_eq_not, Bool.not_true] at hno ⊢
        simp [hno]
    · exact fun id hnone => find?_none_of_filter hnone
    · exact fun event hevent => .inl (List.filter_sublist.subset hevent)

end Statements

section Runs

variable {host : Host} {attentionKey : SessionId → String → String → String → String} {hub : Hub}

/-- What the runner of a session commits: rows that newer ones supersede are dropped, records
follow the last sequence. -/
structure Continues (before after : StoredSession) : Prop where
  id : after.id = before.id
  last : before.lastSequence ≤ after.lastSequence
  records : ∃ (kept : SessionRecord → Bool) (added : List SessionRecord),
    after.records = before.records.filter kept ++ added ∧
      (∀ record ∈ before.records, (configuredOwner record.msg).isSome = true →
        kept record = true) ∧ ∀ record ∈ added, before.lastSequence < record.sequence

/-- The condition on a step. -/
def Meets (host : Host) (attentionKey : SessionId → String → String → String → String)
    (hub : Hub) : HubOp → Prop
  | .openSession session =>
    session.id ∉ hub.minted ∧ WellFormed host session ∧ Fits session
  | .commit session => ∃ before ∈ hub.sessions, Continues before session ∧
      WellFormed host session ∧ Fits session
  | .deleteSession _ => True
  | .elsewhere statements catalog runs commands =>
    (∀ statement ∈ statements, ∀ tables,
      (∀ session ∈ hub.sessions,
        cursorRow tables session.id = cursorRow hub.database.hooks session.id) →
      Aside hub.sessions tables statement) ∧
    (∀ hooks, freshState host ⟨some catalog, hooks, runs, commands⟩ = .ok catalog) ∧
      ∀ run ∈ runs, validateRun host run = .ok ()
  | .dispatch budget now =>
    (∀ session ∈ hub.sessions, ∀ record ∈ session.records,
      savedCursor hub.database.hooks session.id < record.sequence →
        Clear attentionKey hub.database session record) ∧
    ∀ closing, (dispatchStoredBotEvents host attentionKey hub.sessions now
      (hub.start budget)).1 = .stopped closing → closing = false
  | .reassigned sessionId previous budget => ∀ session ∈ hub.session? sessionId,
    (∀ record ∈ session.records, savedCursor hub.database.hooks session.id < record.sequence →
      Clear attentionKey hub.database session record) ∧
    (∃ record ∈ session.records.reverse.take 100, (configuredOwner record.msg).isSome = true) ∧
    ∀ closing, (closeReassignedSource host attentionKey session previous
      (hub.start budget)).1 = .stopped closing → closing = false

def MeetsRun (host : Host) (attentionKey : SessionId → String → String → String → String) :
    Hub → List HubOp → Prop
  | _, [] => True
  | hub, operation :: rest => Meets host attentionKey hub operation ∧
      MeetsRun host attentionKey (operation.step host attentionKey hub) rest

/-- A gateway between two steps. -/
structure Sound (host : Host) (hub : Hub) : Prop where
  settled : AllSettled host hub.sessions hub.minted (hub.start 0)
  fits : ∀ session ∈ hub.sessions, WellFormed host session ∧ Fits session
  distinct : (hub.sessions.map (·.id)).Nodup
  minted : ∀ session ∈ hub.sessions, session.id ∈ hub.minted
  failures : hub.failures = []

theorem Sound.after {α : Type} (h : Sound host hub) {program : Projecting α} {budget : Nat}
    {post : α → Progress → Prop}
    (hensures : Ensures program (hub.start budget) post (AllSettled host hub.sessions hub.minted))
    (hpost : ∀ value after, post value after → AllSettled host hub.sessions hub.minted after)
    (hstopped : ∀ closing, (program (hub.start budget)).1 = .stopped closing → closing = false) :
    Sound host (hub.after (program (hub.start budget))) := by
  unfold Ensures at hensures
  cases hrun : program (hub.start budget) with
  | mk outcome after =>
    rw [hrun] at hensures hstopped
    cases outcome with
    | failed error => exact absurd hensures not_false
    | done value =>
      exact ⟨(hpost value after hensures).budget, h.fits, h.distinct, h.minted, by
        show hub.failures ++ [] = []
        rw [h.failures]
        rfl⟩
    | stopped closing =>
      exact ⟨(hensures (hstopped closing rfl)).budget, h.fits, h.distinct, h.minted, by
        show hub.failures ++ [] = []
        rw [h.failures]
        rfl⟩

theorem Sound.readable (h : Sound host hub) {session : StoredSession}
    (hsession : session ∈ hub.sessions)
    (hclear : ∀ record ∈ session.records,
      savedCursor hub.database.hooks session.id < record.sequence →
        Clear attentionKey hub.database session record) :
    Readable host attentionKey session hub.database :=
  ⟨(h.fits session hsession).1, (h.fits session hsession).2, hclear⟩

theorem Continues.owner {before after : StoredSession} (h : Continues before after) {cursor : Nat}
    (hcursor : cursor ≤ before.lastSequence) : ownerAt after cursor = ownerAt before cursor := by
  obtain ⟨kept, added, hrecords, hkept, hadded⟩ := h.records
  have hnew : (added.filter fun record => decide (record.sequence ≤ cursor)) = [] := by
    rw [List.filter_eq_nil_iff]
    intro record hrecord
    have hlater := hadded record hrecord
    rw [decide_eq_true_eq]
    omega
  have hold : ∀ records : List SessionRecord,
      (∀ record ∈ records, (configuredOwner record.msg).isSome = true → kept record = true) →
      (((records.filter kept).filter fun record => decide (record.sequence ≤ cursor)).filterMap
        fun record => configuredOwner record.msg) =
      (records.filter fun record => decide (record.sequence ≤ cursor)).filterMap
        fun record => configuredOwner record.msg := by
    intro records hall
    induction records with
    | nil => rfl
    | cons record rest ih =>
      rw [List.forall_mem_cons] at hall
      have hrest := ih hall.2
      by_cases hkeep : kept record = true
      · by_cases hle : record.sequence ≤ cursor
        · simp only [List.filter_cons, hkeep, if_true, hle, decide_true, List.filterMap_cons]
          rw [hrest]
        · simp only [List.filter_cons, hkeep, if_true, hle, decide_false]
          exact hrest
      · have hnone : configuredOwner record.msg = none := by
          cases howner : configuredOwner record.msg with
          | none => rfl
          | some owner => exact absurd (hall.1 (by rw [howner]; rfl)) hkeep
        by_cases hle : record.sequence ≤ cursor
        · simp only [List.filter_cons, hkeep, hle, decide_true, if_true, List.filterMap_cons, hnone]
          exact hrest
        · simp only [List.filter_cons, hkeep, hle, decide_false]
          exact hrest
  unfold ownerAt
  rw [hrecords, List.filter_append, hnew, List.append_nil, hold before.records hkept]

theorem Continues.settled {before after : StoredSession} {progress : Progress}
    (hcontinues : Continues before after) (h : Settled before progress) :
    Settled after progress := by
  have hlast := hcontinues.last
  have hassigned := h.assigned
  have hid := hcontinues.id
  refine ⟨?_, ?_, ?_, ?_, ?_⟩
  · intro row hrow
    rw [hid] at hrow
    obtain ⟨sequence, hsequence, hbound, howner⟩ := h.row row hrow
    exact ⟨sequence, hsequence, by omega, (hcontinues.owner hbound).trans howner⟩
  · rw [hid]
    exact h.known
  · rw [hid]
    exact h.logged
  · rw [hid]
    exact h.ordered
  · rw [hid]
    intro record hrecord hle hprojects
    obtain ⟨kept, added, hrecords, -, hadded⟩ := hcontinues.records
    rw [hrecords] at hrecord
    rcases List.mem_append.mp hrecord with hold | hnew
    · refine h.complete record (List.mem_filter.mp hold).1 hle ?_
      rcases hprojects with hlifecycle | ⟨next, previous, hnamed, hprevious, hne⟩
      · exact .inl hlifecycle
      · rw [hcontinues.owner (by omega)] at hprevious
        exact .inr ⟨next, previous, hnamed, hprevious, hne⟩
    · have hlater := hadded record hnew
      omega

theorem Unborn.settled {session : StoredSession} {progress : Progress}
    (h : Unborn session.id progress) (hwell : WellFormed host session) :
    Settled session progress := by
  have hsaved : savedCursor progress.database.hooks session.id = 0 := by
    unfold savedCursor
    rw [h.cursor]
  refine ⟨?_, ?_, ?_, ?_, ?_⟩
  · intro row hrow
    rw [h.cursor] at hrow
    cases hrow
  · intro event hevent sequence hid
    exact absurd hid (h.events event hevent sequence)
  · intro sequence hentry
    exact absurd rfl (h.projected _ hentry)
  · have hnone : (progress.projected.filter fun entry => decide (entry.1 = session.id)) = [] := by
      rw [List.filter_eq_nil_iff]
      intro entry hentry
      rw [decide_eq_true_eq]
      exact h.projected entry hentry
    rw [hnone]
    exact List.Pairwise.nil
  · intro record hrecord hle
    have hpositive := (hwell.assigned record hrecord).1
    omega

theorem replay_beside {sessions : List StoredSession} {digest : String → String → String}
    {tables after : HookTables} {statements : List HookStatement}
    (h : replay digest tables statements = .ok after)
    (haside : ∀ statement ∈ statements, ∀ between : HookTables,
      (∀ session ∈ sessions, cursorRow between session.id = cursorRow tables session.id) →
      Aside sessions between statement) (htidy : Tidy digest tables) :
    Tidy digest after ∧ Beside sessions tables after := by
  induction statements generalizing tables with
  | nil =>
    rw [← Except.ok.inj h]
    exact ⟨htidy, Beside.same rfl rfl⟩
  | cons statement rest ih =>
    rw [List.forall_mem_cons] at haside
    obtain ⟨between, hfirst, hrest⟩ := bind_ok h
    obtain ⟨hbetween, hbeside⟩ := statement_beside hfirst (haside.1 tables fun _ _ => rfl) htidy
    have hlater : ∀ statement ∈ rest, ∀ later : HookTables,
        (∀ session ∈ sessions, cursorRow later session.id = cursorRow between session.id) →
        Aside sessions later statement := by
      intro statement hstatement later hcursors
      refine haside.2 statement hstatement later ?_
      intro session hsession
      rw [hcursors session hsession, hbeside.cursors session hsession]
    obtain ⟨hafter, hbeside'⟩ := ih hrest hlater hbetween
    refine ⟨hafter, ?_, ?_, ?_⟩
    · intro session hsession
      rw [hbeside'.cursors session hsession, hbeside.cursors session hsession]
    · exact fun id hnone => hbeside'.forgotten id (hbeside.forgotten id hnone)
    · intro event hevent
      rcases hbeside'.events event hevent with hold | hnew
      · exact hbeside.events event hold
      · exact .inr hnew

theorem step_sound (laws : HostLaws host) (hkeys : SafeKeys attentionKey)
    (hshorter : ShorterClosed host) (h : Sound host hub) {operation : HubOp}
    (hmeets : Meets host attentionKey hub operation) :
    Sound host (operation.step host attentionKey hub) := by
  cases operation with
  | openSession session =>
    obtain ⟨hfresh, hwell, hfits⟩ := hmeets
    refine ⟨⟨h.settled.base, ?_, ?_⟩, ?_, ?_, ?_, h.failures⟩
    · intro other hother
      rcases List.mem_append.mp hother with hold | hnew
      · exact h.settled.settled other hold
      · rw [List.mem_singleton.mp hnew]
        exact Unborn.settled (h.settled.unborn session.id hfresh) hwell
    · intro id hid
      refine h.settled.unborn id fun hold => hid (List.mem_append_left _ hold)
    · intro other hother
      rcases List.mem_append.mp hother with hold | hnew
      · exact h.fits other hold
      · rw [List.mem_singleton.mp hnew]
        exact ⟨hwell, hfits⟩
    · show ((hub.sessions ++ [session]).map (·.id)).Nodup
      rw [List.map_append, List.nodup_append]
      refine ⟨h.distinct, List.nodup_singleton _, ?_⟩
      intro first hfirst second hsecond heq
      obtain ⟨other, hother, rfl⟩ := List.mem_map.mp hfirst
      have hsecond : second = session.id := by simpa using hsecond
      exact hfresh (hsecond ▸ heq ▸ h.minted other hother)
    · intro other hother
      rcases List.mem_append.mp hother with hold | hnew
      · exact List.mem_append_left _ (h.minted other hold)
      · rw [List.mem_singleton.mp hnew]
        exact List.mem_append_right _ (List.mem_singleton_self _)
  | commit session =>
    obtain ⟨before, hbefore, hcontinues, hwell, hfits⟩ := hmeets
    have hcases : ∀ other ∈ (hub.replace session).sessions,
        other = session ∨ other ∈ hub.sessions := by
      intro other hother
      obtain ⟨old, hold, rfl⟩ := List.mem_map.mp hother
      split
      · exact .inl rfl
      · exact .inr hold
    have hids : (hub.replace session).sessions.map (·.id) = hub.sessions.map (·.id) := by
      show (hub.sessions.map _).map _ = _
      rw [List.map_map]
      refine List.map_congr_left ?_
      intro old _
      simp only [Function.comp_apply]
      split
      · rename_i hsame
        exact hsame.symm
      · rfl
    refine ⟨⟨h.settled.base, ?_, h.settled.unborn⟩, ?_, ?_, ?_, h.failures⟩
    · intro other hother
      rcases hcases other hother with rfl | hold
      · exact hcontinues.settled (h.settled.settled before hbefore)
      · exact h.settled.settled other hold
    · intro other hother
      rcases hcases other hother with rfl | hold
      · exact ⟨hwell, hfits⟩
      · exact h.fits other hold
    · show ((hub.replace session).sessions.map (·.id)).Nodup
      rw [hids]
      exact h.distinct
    · intro other hother
      rcases hcases other hother with rfl | hold
      · rw [hcontinues.id]
        exact h.minted before hbefore
      · exact h.minted other hold
  | deleteSession sessionId =>
    have hsub : ∀ other ∈ (HubOp.step host attentionKey hub (.deleteSession sessionId)).sessions,
        other ∈ hub.sessions := fun other hother => List.filter_sublist.subset hother
    exact ⟨⟨h.settled.base, fun other hother => h.settled.settled other (hsub other hother),
      h.settled.unborn⟩, fun other hother => h.fits other (hsub other hother),
      h.distinct.sublist (List.filter_sublist.map _),
      fun other hother => h.minted other (hsub other hother), h.failures⟩
  | elsewhere statements catalog runs commands =>
    obtain ⟨haside, hcatalog, hruns⟩ := hmeets
    show Sound host { hub with
      database := elsewhereDatabase host hub.database statements catalog runs commands }
    unfold elsewhereDatabase
    cases hreplay : replay host.digest hub.database.hooks statements with
    | error error => exact h
    | ok hooks =>
      obtain ⟨htidy, hbeside⟩ := replay_beside hreplay haside h.settled.base.tidy
      have hkept : ∀ id, cursorRow hooks id = cursorRow hub.database.hooks id →
          Untouched id (hub.start 0)
            ⟨⟨some catalog, hooks, runs, commands⟩, 0, hub.projected, hub.skipped⟩ := by
        intro id hcursor
        refine ⟨hcursor, ?_, ⟨[], (List.append_nil _).symm, List.forall_mem_nil _⟩,
          fun entry hentry => hentry⟩
        intro event hevent
        rcases hbeside.events event hevent with hold | ⟨-, hnew⟩
        · exact .inl hold
        · exact .inr (hnew id)
      refine ⟨⟨⟨htidy, ?_, ⟨catalog, rfl, hcatalog hooks⟩, hruns⟩, ?_, ?_⟩, h.fits, h.distinct,
        h.minted, h.failures⟩
      · intro event hevent
        rcases hbeside.events event hevent with hold | ⟨hvalid, -⟩
        · exact h.settled.base.valid event hold
        · exact hvalid
      · intro session hsession
        exact (h.settled.settled session hsession).keep
          (hkept session.id (hbeside.cursors session hsession))
      · intro id hid
        have hunborn := h.settled.unborn id hid
        have hcursor : cursorRow hooks id = cursorRow hub.database.hooks id :=
          (hbeside.forgotten id hunborn.cursor).trans hunborn.cursor.symm
        exact hunborn.keep (hkept id hcursor)
  | dispatch budget now =>
    obtain ⟨hclear, hstopped⟩ := hmeets
    have hbudget : AllSettled host hub.sessions hub.minted (hub.start budget) := h.settled.budget
    have hsessions := projectSessions_ensures laws hkeys hshorter h.distinct h.minted
      (List.Sublist.refl hub.sessions) hbudget
      fun session hsession => h.readable hsession (hclear session hsession)
    have hensures : Ensures (dispatchStoredBotEvents host attentionKey hub.sessions now)
        (hub.start budget) (fun _ after => AllSettled host hub.sessions hub.minted after)
        (AllSettled host hub.sessions hub.minted) := by
      unfold dispatchStoredBotEvents
      refine ensures_bind (hsessions.mono ?_)
      rintro _ after ⟨hafter, -, -⟩
      exact ensures_inspect rfl hafter
    exact h.after hensures (fun _ _ hafter => hafter) hstopped
  | reassigned sessionId previous budget =>
    cases hfind : hub.session? sessionId with
    | none =>
      simp only [HubOp.step, hfind]
      exact h
    | some session =>
      simp only [HubOp.step, hfind]
      obtain ⟨hclear, hconfigured, hstopped⟩ := hmeets session hfind
      have hsession : session ∈ hub.sessions := List.mem_of_find?_eq_some hfind
      have hbudget : AllSettled host hub.sessions hub.minted (hub.start budget) := h.settled.budget
      have hclose := closeReassignedSource_ensures laws hkeys hshorter hbudget.base
        (hbudget.settled session hsession) (h.readable hsession hclear) hconfigured previous
      have hall : ∀ after, Between host (hub.start budget) session after →
          AllSettled host hub.sessions hub.minted after := fun after hafter =>
        hafter.allSettled hbudget hsession h.distinct (h.minted session hsession)
      have hensures : Ensures (closeReassignedSource host attentionKey session previous)
          (hub.start budget) (fun _ after => AllSettled host hub.sessions hub.minted after)
          (AllSettled host hub.sessions hub.minted) :=
        (hclose.mono fun _ after hafter => hall after hafter).weaken hall
      exact h.after hensures (fun _ _ hafter => hafter) hstopped

theorem run_sound (laws : HostLaws host) (hkeys : SafeKeys attentionKey)
    (hshorter : ShorterClosed host) (h : Sound host hub) {operations : List HubOp}
    (hrun : MeetsRun host attentionKey hub operations) :
    Sound host (runHub host attentionKey hub operations) := by
  induction operations generalizing hub with
  | nil => exact h
  | cons operation rest ih => exact ih (step_sound laws hkeys hshorter h hrun.1) hrun.2

/-- A gateway with a readable Bot store and no session yet. -/
structure Begun (host : Host) (hub : Hub) : Prop where
  base : Base host hub.database
  sessions : hub.sessions = []
  cursors : hub.database.hooks.cursors = []
  events : ∀ event ∈ hub.database.hooks.events, ∀ id sequence, event.id ≠ sessionEventId id sequence
  projected : hub.projected = []
  failures : hub.failures = []

theorem Begun.sound (h : Begun host hub) : Sound host hub := by
  refine ⟨⟨h.base, ?_, ?_⟩, ?_, ?_, ?_, h.failures⟩
  · rw [h.sessions]
    exact List.forall_mem_nil _
  · intro id _
    refine ⟨?_, ?_, ?_⟩
    · show hub.database.hooks.cursors.find? _ = none
      rw [h.cursors]
      rfl
    · exact fun event hevent sequence => h.events event hevent id sequence
    · show ∀ entry ∈ hub.projected, entry.1 ≠ id
      rw [h.projected]
      exact List.forall_mem_nil _
  · rw [h.sessions]
    exact List.forall_mem_nil _
  · rw [h.sessions]
    exact List.nodup_nil
  · rw [h.sessions]
    exact List.forall_mem_nil _

end Runs

section Samples

/-- A configuration record. -/
def configured (sessionId : SessionId) (ownerId : String) : EventMsg :=
  .sessionConfigured sessionId { ownerId := ownerId } ⟨"default", "model", none, none⟩

/-- A session in its first turn. -/
def began (sessionId : SessionId) (author : MessageAuthor) : StoredSession where
  id := sessionId
  ownerId := helper.id
  records := [⟨1, 1000, configured sessionId helper.id, none⟩,
    ⟨2, 2000, .turnStarted false (minted 5).1 none, none⟩]
  executions := []
  active := .ok (some {
    submissionId := "message"
    turnId := (minted 5).1
    author := author
    startedAtMs := 2000
    modelCalls := 0
    toolCalls := 0
    failedToolCalls := 0
    usage := {}
    nextModelStep := 0
    stopHookActive := false
    phase := .model
    idle := false })
  lastSequence := 2

/-- The session with another owner. -/
def moved : StoredSession :=
  { began (minted 9).1 .user with
    ownerId := "owner"
    records := (began (minted 9).1 .user).records ++
      [⟨3, 3000, configured (minted 9).1 "owner", none⟩]
    lastSequence := 3 }

/-- Whether a computation ended. -/
def ended {α : Type} : Outcome α → Bool
  | .done _ => true
  | _ => false

end Samples

end MobiusAgent.SessionDispatch
