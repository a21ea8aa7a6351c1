import MobiusAgent.DecimalTexts
import MobiusAgent.RoutinePolling

/-!
# Runs of the routine operations

A run creates, updates, pauses, resumes, deletes and polls routines. Every
step keeps the store sound if it gives no timer a blank identity and arms none
before an occurrence that is already recorded under its identity, so the
scheduler can be polled after every run of such steps.
-/

namespace MobiusAgent.RoutineRuns

open JsonValue ProtocolEvents CheckpointRecords CheckpointValidation HookRecords DecimalTexts
open RoutineSchedules HookStore RoutineCatalog HookTransactions RoutinePolling

section Polls

variable {host : Host} {store : BotStore} {state : BotState} {tables : HookTables} {now : Int}

variable {database : BotDatabase} {routine : StoredRoutine}

theorem freshState_of_valid (hcatalog : database.catalog = some state)
    (hbytes : catalogBytes host state ≤ maxStateBytes)
    (hconfigs : ∀ bot ∈ state.bots, host.validateStored bot.config = .ok ())
    (hvalid : StateValid host state) : freshState host database = .ok state := by
  unfold freshState
  rw [hcatalog]
  refine except_bind_ok_iff.mpr ⟨(), rejectIf_ok_iff.mpr ?_, ?_⟩
  · rw [decide_eq_false_iff_not, Nat.not_lt]
    exact hbytes
  refine except_bind_ok_iff.mpr ⟨(), (forM_ok_iff _ _).mpr hconfigs, ?_⟩
  exact except_bind_ok_iff.mpr ⟨(), validateRecords_ok_iff.mpr hvalid, rfl⟩

theorem freshState_parts (hcatalog : database.catalog = some state)
    (h : freshState host database = .ok state) :
    catalogBytes host state ≤ maxStateBytes ∧
      (∀ bot ∈ state.bots, host.validateStored bot.config = .ok ()) ∧ StateValid host state := by
  unfold freshState at h
  rw [hcatalog] at h
  dsimp only at h
  obtain ⟨⟨⟩, hbytes, h⟩ := bind_ok h
  obtain ⟨⟨⟩, hconfigs, h⟩ := bind_ok h
  obtain ⟨⟨⟩, hrecords, -⟩ := bind_ok h
  rw [rejectIf_ok_iff, decide_eq_false_iff_not, Nat.not_lt] at hbytes
  exact ⟨hbytes, (forM_ok_iff _ _).mp hconfigs, validateRecords_ok_iff.mp hrecords⟩

theorem freshState_of_sound (hcatalog : database.catalog = some state)
    (h : CatalogSound host tables state) : freshState host database = .ok state :=
  freshState_of_valid hcatalog h.bytes h.configs h.valid

/-- The routines that are due at a poll. -/
def DueAt (host : Host) (state : BotState) (now : Int) : Prop :=
  ∀ routine ∈ state.routines, routine.enabled = true → ∀ stored ∈ routine.bindings,
    ∀ schedule endsAt, stored.definition.on = .schedule schedule endsAt →
      ∀ next, stored.nextDueAt = some next → next ≤ now →
        Continues host.library schedule endsAt next now

/-- The catalog after a poll. -/
def polledState (host : Host) (now : Int) (state : BotState) : BotState :=
  { state with routines := state.routines.map (polledRoutine host now) }

theorem polled_definitions (h : CatalogSound host tables state) (hhigh : now ≤ clockMax)
    (hdue : DueAt host state now) (hroutine : routine ∈ state.routines) :
    (polledRoutine host now routine).bindings.map (·.definition) =
      routine.bindings.map (·.definition) := by
  refine polledRoutine_bindings ?_
  intro henabled stored hstored
  exact (h.poll hhigh hroutine hstored (hdue routine hroutine henabled stored hstored)).definition

/-- A binding of a polled routine can be polled again, once what is due is recorded. -/
theorem polled_timers (laws : HostLaws host) (h : CatalogSound host tables state)
    (hhigh : now ≤ clockMax) (hdue : DueAt host state now) (hroutine : routine ∈ state.routines)
    {recorded : HookTables}
    (hrecorded : ∀ event ∈ recorded.events, event ∈ tables.events ∨
      event ∈ state.routines.flatMap (routineOccurrences host now))
    {after : StoredRoutineBinding RoutineAction}
    (hafter : after ∈ (polledRoutine host now routine).bindings) :
    TimerSound host recorded routine.id after := by
  have hid := (h.valid.routines routine hroutine).id
  have hoccurred : ∀ bindingId time, Occurred host recorded routine.id bindingId time →
      Occurred host tables routine.id bindingId time ∨
        (routine.enabled = true ∧ ∃ stored ∈ routine.bindings,
          stored.definition.id = bindingId ∧ time ∈ (polled host.library now stored).2.2) := by
    rintro bindingId time ⟨hpositive, event, hevent, heventId⟩
    rcases hrecorded event hevent with hold | hnew
    · exact .inl ⟨hpositive, event, hold, heventId⟩
    · obtain ⟨other, hother, henabled, stored, hstored, due, hdueTime, rfl⟩ :=
        mem_occurrences.mp hnew
      have hclock := (h.poll hhigh hother hstored
        (hdue other hother henabled stored hstored)).fresh due hdueTime
      obtain ⟨hroutineId, hbindingId, htime⟩ := laws.occurrenceId_inj
        (h.valid.routines other hother).id hid (by omega) (by omega) heventId
      have hsame := List.inj_on_of_nodup_map h.valid.ids hother hroutine hroutineId
      rw [hsame] at henabled hstored
      exact .inr ⟨henabled, stored, hstored, hbindingId, htime ▸ hdueTime⟩
  unfold polledRoutine at hafter
  split at hafter
  · rename_i henabled
    obtain ⟨stored, hstored, rfl⟩ := List.mem_map.mp hafter
    have hpolled := h.poll hhigh hroutine hstored
      (hdue routine hroutine henabled stored hstored)
    refine ⟨?_, ?_⟩
    · rw [hpolled.definition]
      exact (h.timers routine hroutine stored hstored).named
    · refine hpolled.ready.mono ?_
      intro time htime
      rw [hpolled.definition] at htime
      rcases hoccurred _ time htime with hold | ⟨-, other, hother, hsameId, hdueTime⟩
      · exact .inl hold
      · have hnodup := (validateBindings_ok (h.valid.routines routine hroutine).bindings).2
        rw [List.map_map] at hnodup
        rw [List.inj_on_of_nodup_map hnodup hother hstored hsameId] at hdueTime
        exact .inr hdueTime
  · rename_i hdisabled
    refine ⟨(h.timers routine hroutine after hafter).named,
      (h.timers routine hroutine after hafter).ready.mono ?_⟩
    intro time htime
    rcases hoccurred _ time htime with hold | ⟨henabled, -⟩
    · exact hold
    · exact absurd henabled hdisabled

theorem polled_valid (h : CatalogSound host tables state) (hhigh : now ≤ clockMax)
    (hdue : DueAt host state now)
    (hclock : ∀ routine ∈ state.routines, ∀ after ∈ (polledRoutine host now routine).bindings,
      ∀ next, after.nextDueAt = some next → 1 ≤ next) :
    StateValid host (polledState host now state) := by
  have hmap : ∀ {β : Type} (field : StoredRoutine → β),
      (∀ routine, field (polledRoutine host now routine) = field routine) →
      (polledState host now state).routines.map field = state.routines.map field := by
    intro β field hfield
    unfold polledState
    rw [List.map_map]
    exact List.map_congr_left fun routine _ => hfield routine
  refine ⟨h.valid.version, h.valid.bots, ?_, h.valid.pending, h.valid.botSet, ?_, ?_, ?_,
    h.valid.revision⟩
  · intro other hother
    obtain ⟨routine, hroutine, rfl⟩ := List.mem_map.mp hother
    obtain ⟨hid, hbot, hworkspace, hinstructions, -⟩ := @polledRoutine_frame host now routine
    have hvalid := h.valid.routines routine hroutine
    refine ⟨by rw [hid]; exact hvalid.id, by rw [hworkspace]; exact hvalid.workspace,
      by rw [hinstructions]; exact hvalid.inside, ?_, hclock routine hroutine⟩
    rw [polled_definitions h hhigh hdue hroutine]
    exact hvalid.bindings
  · rw [hmap (·.id) fun routine => (polledRoutine_frame routine).1]
    exact h.valid.ids
  · intro other hother
    obtain ⟨routine, hroutine, rfl⟩ := List.mem_map.mp hother
    rw [(polledRoutine_frame routine).2.1]
    exact h.valid.owners routine hroutine
  · rw [hmap (fun routine => pathComponents routine.instructions) fun routine => by
      rw [(polledRoutine_frame routine).2.2.2.1]]
    exact h.valid.paths

theorem occurrences_recorded (laws : HostLaws host) (h : CatalogSound host tables state)
    (hhigh : now ≤ clockMax) (hdue : DueAt host state now) {saved : HookTables}
    (htidy : Tidy host.digest saved) (hevents : saved.events = tables.events) :
    ∃ recorded, recordEvents host (state.routines.flatMap (routineOccurrences host now)) saved =
        .ok recorded ∧ Tidy host.digest recorded ∧ recorded.bindings = saved.bindings ∧
      ∀ event ∈ recorded.events, event ∈ tables.events ∨
        event ∈ state.routines.flatMap (routineOccurrences host now) := by
  have hresult := @recordEvents_of_consistent host saved laws
    (state.routines.flatMap (routineOccurrences host now)) htidy ?_ ?_ ?_ ?_
  · rw [hevents] at hresult
    exact hresult
  · intro event hevent
    obtain ⟨routine, hroutine, henabled, stored, hstored, time, htime, rfl⟩ :=
      mem_occurrences.mp hevent
    have hclock := (h.poll hhigh hroutine hstored
      (hdue routine hroutine henabled stored hstored)).fresh time htime
    have hvalid := h.valid.routines routine hroutine
    obtain ⟨hbytes, hsafe, -⟩ := (validateBindings_ok hvalid.bindings).1 stored.definition
      (List.mem_map.mpr ⟨stored, hstored, rfl⟩)
    obtain ⟨schedule, endsAt, hon⟩ := polled_schedule htime
    exact laws.occurrenceEvent_valid hvalid.id (h.valid.bot_id hroutine)
      ((h.timers routine hroutine stored hstored).named schedule endsAt hon) hbytes hsafe hclock.1
      (le_trans hclock.2.1 hhigh) (le_trans hclock.1 hclock.2.1) hhigh
  · intro event hevent botId
    obtain ⟨routine, -, -, stored, -, time, -, rfl⟩ := mem_occurrences.mp hevent
    intro hsource
    cases hsource
  · intro event hevent old hold hid
    rw [hevents] at hold
    obtain ⟨routine, hroutine, henabled, stored, hstored, time, htime, rfl⟩ :=
      mem_occurrences.mp hevent
    have hclock := (h.poll hhigh hroutine hstored
      (hdue routine hroutine henabled stored hstored)).fresh time htime
    exact absurd ⟨hclock.1, old, hold, hid⟩ hclock.2.2
  · intro event hevent other hother hid
    obtain ⟨routine, hroutine, henabled, stored, hstored, time, htime, rfl⟩ :=
      mem_occurrences.mp hevent
    obtain ⟨routine', hroutine', henabled', stored', hstored', time', htime', rfl⟩ :=
      mem_occurrences.mp hother
    have hclock := (h.poll hhigh hroutine hstored
      (hdue routine hroutine henabled stored hstored)).fresh time htime
    have hclock' := (h.poll hhigh hroutine' hstored'
      (hdue routine' hroutine' henabled' stored' hstored')).fresh time' htime'
    obtain ⟨hroutineId, hbindingId, hsameTime⟩ := laws.occurrenceId_inj
      (h.valid.routines routine' hroutine').id (h.valid.routines routine hroutine).id
      (by omega) (by omega) hid
    rw [List.inj_on_of_nodup_map h.valid.ids hroutine' hroutine hroutineId, hbindingId, hsameTime]

theorem polled_held (h : CatalogSound host tables state) (hhigh : now ≤ clockMax)
    (hdue : DueAt host state now) : Held tables (polledState host now state).routines := by
  intro other hother after hafter
  obtain ⟨routine, hroutine, rfl⟩ := List.mem_map.mp hother
  obtain ⟨hid, hbot, -⟩ := @polledRoutine_frame host now routine
  have hdefinitions := polled_definitions h hhigh hdue hroutine
  have hmem : after.definition ∈ routine.bindings.map (·.definition) :=
    hdefinitions ▸ List.mem_map_of_mem hafter
  obtain ⟨stored, hstored, hdefinition⟩ := List.mem_map.mp hmem
  obtain ⟨row, hrow, howner⟩ := h.held routine hroutine stored hstored
  refine ⟨row, ?_, by rw [hid]; exact howner⟩
  rw [hbot, ← hdefinition]
  exact hrow

theorem polled_bytes (h : CatalogSound host tables state) (hhigh : now ≤ clockMax)
    (hdue : DueAt host state now) (hroomy : Roomy host state) {recorded : HookTables}
    (htimers : ∀ routine ∈ state.routines, ∀ after ∈ (polledRoutine host now routine).bindings,
      TimerSound host recorded routine.id after) :
    catalogBytes host (polledState host now state) ≤ maxStateBytes := by
  have huntimed : (polledState host now state).untimed = state.untimed := by
    have hroutines : (state.routines.map (polledRoutine host now)).map StoredRoutine.untimed =
        state.routines.map StoredRoutine.untimed := by
      rw [List.map_map]
      exact List.map_congr_left fun routine hroutine =>
        polledRoutine_untimed (polled_definitions h hhigh hdue hroutine)
    unfold BotState.untimed polledState
    rw [hroutines]
  have hlength : (polledState host now state).timers.length = state.timers.length := by
    unfold BotState.timers polledState
    rw [List.length_flatMap, List.length_flatMap, List.map_map]
    congr 1
    refine List.map_congr_left ?_
    intro routine hroutine
    have hdefinitions := congrArg List.length (polled_definitions h hhigh hdue hroutine)
    rw [List.length_map, List.length_map] at hdefinitions
    exact hdefinitions
  refine catalogBytes_le ?_ ?_
  · unfold Roomy at hroomy ⊢
    rw [huntimed, hlength]
    exact hroomy
  · intro after hafter
    obtain ⟨other, hother, hafter⟩ := List.mem_flatMap.mp hafter
    obtain ⟨routine, hroutine, rfl⟩ := List.mem_map.mp hother
    exact (htimers routine hroutine after hafter).ready.bytes

theorem pollDue_sound (laws : HostLaws host) (h : Sound host store)
    (hpoll : Pollable host store now) :
    ∃ poll after, pollDue host store now = .ok (poll, after) ∧ Sound host after := by
  cases hcatalog : store.database.catalog with
  | none =>
    refine ⟨⟨isActive host store.database {} now, []⟩, store, ?_, h⟩
    unfold pollDue
    rw [show freshState host store.database = .ok {} by unfold freshState; rw [hcatalog]]
    rfl
  | some state =>
    have hsound := h.catalog state hcatalog
    have hdue : DueAt host state now := hpoll.continues state hcatalog
    have hpolls : ∀ routine ∈ state.routines, routine.enabled = true →
        ∀ stored ∈ routine.bindings, ∃ result, stored.poll host.library now = .ok result := by
      intro routine hroutine henabled stored hstored
      exact ⟨_, (hsound.poll hpoll.clock.2 hroutine hstored
        (hdue routine hroutine henabled stored hstored)).succeeds⟩
    have hfresh := freshState_of_sound hcatalog hsound
    have htick := pollRoutines_eq hpolls
    have hpending : ¬ state.pendingBotDeletion.isSome = true := by
      rw [hsound.pending]
      exact Bool.false_ne_true
    by_cases hchanged : state.routines.any (routineChanged host now) = true
    · have hheld := polled_held hsound hpoll.clock.2 hdue
      obtain ⟨saved, hsaved⟩ := @syncRoutineBindings_of_held store.database.hooks _ now
        h.tidy.cursors h.tidy.keys hheld
      obtain ⟨hpruned, hkeys, hheldSaved⟩ := syncRoutineBindings_synced hsaved
      have htidySaved := h.tidy.prune hpruned (hkeys h.tidy.keys)
      obtain ⟨recorded, hrecorded, htidy, hbindings, hevents⟩ :=
        occurrences_recorded laws hsound hpoll.clock.2 hdue htidySaved hpruned.events
      have htimers : ∀ routine ∈ state.routines,
          ∀ after ∈ (polledRoutine host now routine).bindings,
            TimerSound host recorded routine.id after := by
        intro routine hroutine after hafter
        exact polled_timers laws hsound hpoll.clock.2 hdue hroutine hevents hafter
      have hvalid := polled_valid hsound hpoll.clock.2 hdue
        fun routine hroutine after hafter next hnext =>
          ((htimers routine hroutine after hafter).ready.clock next hnext).1
      have hbytes := polled_bytes hsound hpoll.clock.2 hdue (hpoll.roomy state hcatalog)
        htimers
      have hstate : validateState (polledState host now state) = .ok () :=
        validateState_ok_iff.mpr
          ⟨hvalid.botSet, hvalid.ids, hvalid.owners, hvalid.paths, hvalid.revision⟩
      have hjson : catalogJson host (polledState host now state) =
          .ok (polledState host now state) := by
        refine except_bind_ok_iff.mpr ⟨(), rejectIf_ok_iff.mpr ?_, rfl⟩
        rw [decide_eq_false_iff_not, Nat.not_lt]
        exact hbytes
      have hcommit : saveCatalogWithHooks host store.database (polledState host now state)
          (state.routines.flatMap (routineOccurrences host now)) now none =
          .ok { store.database with
            catalog := some (polledState host now state), hooks := recorded } :=
        except_bind_ok_iff.mpr ⟨saved, hsaved,
          except_bind_ok_iff.mpr ⟨recorded, hrecorded, rfl⟩⟩
      refine ⟨⟨isActive host store.database state now,
          state.routines.flatMap (routineOccurrences host now)⟩,
        { store with database := { store.database with
          catalog := some (polledState host now state), hooks := recorded } }, ?_, htidy, ?_⟩
      · unfold pollDue
        refine except_bind_ok_iff.mpr ⟨state, hfresh, ?_⟩
        rw [if_neg hpending]
        refine except_bind_ok_iff.mpr ⟨_, htick, ?_⟩
        dsimp only
        rw [if_pos hchanged]
        exact except_bind_ok_iff.mpr ⟨(), hstate,
          except_bind_ok_iff.mpr ⟨_, hjson,
            except_bind_ok_iff.mpr ⟨_, hcommit, rfl⟩⟩⟩
      · intro other hother
        rw [← Option.some.inj hother]
        refine ⟨hbytes, hsound.configs, hvalid, hsound.pending, ?_, ?_⟩
        · intro routine hroutine stored hstored
          obtain ⟨row, hrow, howner⟩ := hheldSaved routine hroutine stored hstored
          refine ⟨row, ?_, howner⟩
          unfold HookTables.binding? at hrow ⊢
          rw [hbindings]
          exact hrow
        · intro other hother after hafter
          obtain ⟨routine, hroutine, rfl⟩ := List.mem_map.mp hother
          rw [(polledRoutine_frame routine).1]
          exact htimers routine hroutine after hafter
    · refine ⟨⟨isActive host store.database state now,
        state.routines.flatMap (routineOccurrences host now)⟩, store, ?_, h⟩
      unfold pollDue
      refine except_bind_ok_iff.mpr ⟨state, hfresh, ?_⟩
      rw [if_neg hpending]
      refine except_bind_ok_iff.mpr ⟨_, htick, ?_⟩
      dsimp only
      rw [if_neg hchanged]
      rfl

theorem nextAt_clock {occurred : Int → Prop} {stored : StoredRoutineBinding RoutineAction}
    (h : Ready occurred stored) {time : Int} (htime : stored.nextAt host.library now = some time) :
    1 ≤ time ∧ time ≤ clockMax := by
  cases hon : stored.definition.on with
  | event source kind routineOutcome sessionOutcome customName =>
    unfold StoredRoutineBinding.nextAt at htime
    rw [hon] at htime
    cases htime
  | schedule schedule endsAt =>
    cases hnext : stored.nextDueAt with
    | some next =>
      rw [nextAt_of_due hon hnext] at htime
      split at htime
      · rw [← Option.some.inj htime]
        exact h.clock next hnext
      · cases htime
    | none =>
      have honce : schedule.kind = .once := by
        by_contra hkind
        obtain ⟨next, hsome⟩ := h.continues schedule endsAt hon hkind
        cases hnext.symm.trans hsome
      unfold StoredRoutineBinding.nextAt at htime
      rw [hon] at htime
      dsimp only at htime
      rw [hnext, honce] at htime
      cases htime

theorem nextRunAt_clock (h : CatalogSound host tables state) (hroutine : routine ∈ state.routines)
    {time : Int} (htime : routine.nextRunAt host now = some time) : 1 ≤ time ∧ time ≤ clockMax := by
  unfold StoredRoutine.nextRunAt at htime
  split at htime
  · have hmem := List.min?_mem htime
    obtain ⟨stored, hstored, hat⟩ := List.mem_filterMap.mp hmem
    exact nextAt_clock (h.timers routine hroutine stored hstored).ready hat
  · cases htime

theorem nextRoutineAt_sound (h : Sound host store) (now : Int) :
    ∃ time, nextRoutineAt host store now = .ok time := by
  unfold nextRoutineAt
  cases hcatalog : store.database.catalog with
  | none =>
    rw [show freshState host store.database = .ok {} by unfold freshState; rw [hcatalog]]
    exact ⟨none, rfl⟩
  | some state =>
    have hsound := h.catalog state hcatalog
    rw [freshState_of_sound hcatalog hsound]
    dsimp only [bind, Except.bind]
    cases hmin : (state.routines.filterMap (·.nextRunAt host now)).min? with
    | none => exact ⟨none, rfl⟩
    | some time =>
      obtain ⟨routine, hroutine, htime⟩ := List.mem_filterMap.mp (List.min?_mem hmin)
      obtain ⟨hlow, hhigh⟩ := nextRunAt_clock hsound hroutine htime
      have hclock : InClock time := ⟨by unfold clockMin; omega, hhigh⟩
      have hfound : clockTime time = .ok time := if_pos hclock
      exact ⟨some time, except_bind_ok_iff.mpr ⟨time, hfound, rfl⟩⟩

end Polls

section Definitions

variable {library : CronLibrary}

theorem validateSchedule_stored {schedule : RoutineSchedule} {endsAt : Option Int}
    (h : validateSchedule library schedule endsAt (some maxScheduleTimestamp) = .ok ()) :
    validateSchedule library schedule endsAt none = .ok () := by
  unfold validateSchedule at h ⊢
  obtain ⟨htimes, hrest⟩ := bind_ok_iff.mp h
  refine bind_ok_iff.mpr ⟨?_, hrest⟩
  have htimes := rejectIf_ok_iff.mp htimes
  rw [Bool.or_eq_false_iff] at htimes
  rw [rejectIf_ok_iff, Bool.or_eq_false_iff]
  constructor
  · cases schedule.atTime with
    | none | some time => rfl
  · cases endsAt with
    | none => rfl
    | some end_ =>
      have hend := htimes.2
      simp only [Option.any_some, Option.getD_some, decide_eq_false_iff_not, not_not,
        Option.getD_none] at hend ⊢
      refine ⟨hend.1, le_trans hend.2 ?_⟩
      decide

theorem validateTrigger_stored {on : HookSelector}
    (h : validateTrigger library (some maxScheduleTimestamp) on = .ok ()) :
    validateTrigger library none on = .ok () := by
  unfold validateTrigger at h ⊢
  obtain ⟨hselector, hrest⟩ := bind_ok_iff.mp h
  refine bind_ok_iff.mpr ⟨hselector, ?_⟩
  cases on with
  | schedule schedule endsAt => exact validateSchedule_stored hrest
  | event source kind routineOutcome sessionOutcome customName => rfl

mutual
theorem validateRoutineAction_stored : (action : RoutineAction) → (depth : Nat) →
    validateRoutineAction library (some maxScheduleTimestamp) action depth = .ok () →
    validateRoutineAction library none action depth = .ok ()
  | .start, _, _ => by unfold validateRoutineAction; rfl
  | .stop runId, _, h => by
    unfold validateRoutineAction at h ⊢
    exact h
  | .pause, _, _ => by unfold validateRoutineAction; rfl
  | .resume, _, _ => by unfold validateRoutineAction; rfl
  | .delete, _, _ => by unfold validateRoutineAction; rfl
  | .update workspace instructions bindings, depth, h => by
    unfold validateRoutineAction at h ⊢
    obtain ⟨hworkspace, h⟩ := bind_ok_iff.mp h
    obtain ⟨hinstructions, h⟩ := bind_ok_iff.mp h
    obtain ⟨hbounds, h⟩ := bind_ok_iff.mp h
    refine bind_ok_iff.mpr ⟨hworkspace, bind_ok_iff.mpr ⟨hinstructions,
      bind_ok_iff.mpr ⟨hbounds, ?_⟩⟩⟩
    exact validateBindingList_stored bindings (depth + 1) [] h

theorem validateBindingList_stored : (bindings : List RoutineBinding) → (depth : Nat) →
    (ids : List String) →
    validateBindingList library (some maxScheduleTimestamp) bindings depth ids = .ok () →
    validateBindingList library none bindings depth ids = .ok ()
  | [], _, _, _ => by unfold validateBindingList; rfl
  | ⟨id, on, action⟩ :: rest, depth, ids, h => by
    unfold validateBindingList at h ⊢
    obtain ⟨hid, h⟩ := bind_ok_iff.mp h
    obtain ⟨htrigger, h⟩ := bind_ok_iff.mp h
    obtain ⟨haction, h⟩ := bind_ok_iff.mp h
    refine bind_ok_iff.mpr ⟨hid, bind_ok_iff.mpr ⟨validateTrigger_stored htrigger,
      bind_ok_iff.mpr ⟨validateRoutineAction_stored action depth haction, ?_⟩⟩⟩
    exact validateBindingList_stored rest depth (id :: ids) h
end

end Definitions

section Arming

variable {host : Host} {tables : HookTables} {now : Int} {resume : Bool}

/-- A timer is armed at a time of the clock after all its recorded occurrences. -/
def Arms (host : Host) (tables : HookTables) (routineId : String) (definition : RoutineBinding)
    (now : Int) (resume : Bool) : Prop :=
  ∀ schedule endsAt, definition.on = .schedule schedule endsAt →
    ∀ next, firstDue host.library schedule now resume = .ok (some next) →
      (1 ≤ next ∧ next ≤ clockMax) ∧
        ∀ time, Occurred host tables routineId definition.id time → time < next

theorem firstDue_some {library : CronLibrary} {schedule : RoutineSchedule} {next : Option Int}
    (hkind : schedule.kind ≠ .once) (h : firstDue library schedule now resume = .ok next) :
    ∃ first, next = some first := by
  unfold firstDue at h
  cases hother : schedule.kind with
  | once => exact absurd hother hkind
  | interval =>
    rw [hother] at h
    obtain ⟨every, -, h⟩ := bind_ok h
    split at h
    · exact ⟨_, (Except.ok.inj h).symm⟩
    · cases h
  | cron =>
    rw [hother] at h
    obtain ⟨first, -, h⟩ := bind_ok h
    exact ⟨first, (Except.ok.inj h).symm⟩

theorem reset_sound {routineId : String} {stored after : StoredRoutineBinding RoutineAction}
    (h : stored.reset host.library now resume = .ok after)
    (hnamed : TimerNamed stored.definition)
    (harms : Arms host tables routineId stored.definition now resume) :
    after.definition = stored.definition ∧ TimerSound host tables routineId after := by
  unfold StoredRoutineBinding.reset at h
  cases hon : stored.definition.on with
  | event source kind routineOutcome sessionOutcome customName =>
    rw [hon] at h
    rw [← Except.ok.inj h]
    refine ⟨rfl, hnamed, ⟨?_, ?_, ?_, ?_⟩⟩
    · intro next hnext
      cases hnext
    · intro next hnext
      cases hnext
    · intro minute hminute
      cases hminute
    · intro schedule endsAt hschedule
      cases hon.symm.trans hschedule
  | schedule schedule endsAt =>
    rw [hon] at h
    obtain ⟨first, hfirst, h⟩ := bind_ok h
    rw [← Except.ok.inj h]
    refine ⟨rfl, hnamed, ⟨?_, ?_, ?_, ?_⟩⟩
    · intro next hnext
      exact (harms schedule endsAt hon next (hfirst.trans (congrArg Except.ok hnext))).1
    · intro next hnext time htime
      exact .inl ((harms schedule endsAt hon next
        (hfirst.trans (congrArg Except.ok hnext))).2 time htime)
    · intro minute hminute
      cases hminute
    · intro other otherEnds hother hkind
      have hsame := hon.symm.trans hother
      injection hsame with hschedule
      rw [← hschedule] at hkind
      exact firstDue_some hkind hfirst

theorem new_sound {routineId : String} {definition : RoutineBinding}
    {after : StoredRoutineBinding RoutineAction}
    (h : StoredRoutineBinding.new host.library definition now resume = .ok after)
    (hnamed : TimerNamed definition)
    (harms : Arms host tables routineId definition now resume) :
    after.definition = definition ∧ TimerSound host tables routineId after :=
  @reset_sound host tables now resume routineId ⟨definition, none, none⟩ after h hnamed harms

theorem forall₂_map_eq {α β γ : Type} {first : α → γ} {second : β → γ} {items : List α}
    {results : List β}
    (h : List.Forall₂ (fun item result => second result = first item) items results) :
    results.map second = items.map first := by
  induction h with
  | nil => rfl
  | cons hfirst _ ih => rw [List.map_cons, List.map_cons, hfirst, ih]

theorem forall₂_sound {α : Type} {routineId : String} {items : List α}
    {definition : α → RoutineBinding} {results : List (StoredRoutineBinding RoutineAction)}
    (h : List.Forall₂ (fun item result => result.definition = definition item ∧
      TimerSound host tables routineId result) items results) :
    results.map (·.definition) = items.map definition ∧
      ∀ result ∈ results, TimerSound host tables routineId result := by
  refine ⟨forall₂_map_eq (h.imp fun _ _ hpair => hpair.1), ?_⟩
  intro result hresult
  obtain ⟨_, _, hpair⟩ := forall₂_mem_right h hresult
  exact hpair.2

end Arming

section Commits

variable {host : Host} {store : BotStore} {state : BotState} {tables : HookTables} {now : Int}

theorem timerSound_mono {routineId : String} {stored : StoredRoutineBinding RoutineAction}
    {recorded : HookTables} (laws : HostLaws host) (h : TimerSound host tables routineId stored)
    (hevents : ∀ event ∈ recorded.events, event ∈ tables.events ∨
      host.parseUuid event.id = .ok event.id) :
    TimerSound host recorded routineId stored := by
  refine ⟨h.named, h.ready.mono ?_⟩
  rintro time ⟨hpositive, event, hevent, hid⟩
  rcases hevents event hevent with hold | huuid
  · exact ⟨hpositive, event, hold, hid⟩
  · exact absurd hid (laws.uuid_ne_occurrence huuid _ _ _)

theorem saveCatalogWithHooks_sound (laws : HostLaws host)
    (htidy : Tidy host.digest store.database.hooks)
    {event : HookEvent} (huuid : host.parseUuid event.id = .ok event.id)
    {accepted : Option String} {database : BotDatabase} {files : List (String × String)}
    (h : saveCatalogWithHooks host store.database state [event] now accepted = .ok database)
    (hbytes : catalogBytes host state ≤ maxStateBytes)
    (hconfigs : ∀ bot ∈ state.bots, host.validateStored bot.config = .ok ())
    (hvalid : StateValid host state) (hpending : state.pendingBotDeletion = none)
    (htimers : ∀ routine ∈ state.routines, ∀ stored ∈ routine.bindings,
      TimerSound host store.database.hooks routine.id stored) :
    Sound host ⟨database, files⟩ := by
  unfold saveCatalogWithHooks at h
  obtain ⟨saved, hsaved, h⟩ := bind_ok h
  obtain ⟨recorded, hrecorded, h⟩ := bind_ok h
  unfold recordEvents at hrecorded
  obtain ⟨⟨isNew, between⟩, hbetween, hrecorded⟩ := bind_ok hrecorded
  have hlast : between = recorded := Except.ok.inj hrecorded
  rw [hlast] at hbetween
  obtain ⟨hpruned, hkeys, hheld⟩ := syncRoutineBindings_synced hsaved
  have hacceptedTidy := htidy.accept accepted
  have hsavedTidy := hacceptedTidy.prune hpruned (hkeys hacceptedTidy.keys)
  obtain ⟨hrecordedTidy, hbindings, hevents⟩ := hsavedTidy.record hbetween
  have hold : ∀ other ∈ recorded.events, other ∈ store.database.hooks.events ∨
      host.parseUuid other.id = .ok other.id := by
    intro other hother
    have hsame : saved.events = store.database.hooks.events :=
      hpruned.events.trans (acceptAction_frame _ _).1
    rcases hevents with hunchanged | happended
    · rw [hunchanged, hsame] at hother
      exact .inl hother
    · rw [happended, List.mem_append, List.mem_singleton, hsame] at hother
      rcases hother with hbefore | rfl
      · exact .inl hbefore
      · exact .inr huuid
  rw [← Except.ok.inj h]
  refine ⟨hrecordedTidy, ?_⟩
  intro other hother
  rw [← Option.some.inj hother]
  refine ⟨hbytes, hconfigs, hvalid, hpending, ?_, ?_⟩
  · intro routine hroutine stored hstored
    obtain ⟨row, hrow, howner⟩ := hheld routine hroutine stored hstored
    refine ⟨row, ?_, howner⟩
    unfold HookTables.binding? at hrow ⊢
    rw [hbindings]
    exact hrow
  · intro routine hroutine stored hstored
    exact timerSound_mono laws (htimers routine hroutine stored hstored) hold

theorem freshState_sound (h : Sound host store)
    (hfresh : freshState host store.database = .ok state) :
    (store.database.catalog = some state ∧
      CatalogSound host store.database.hooks state) ∨ state = {} := by
  cases hcatalog : store.database.catalog with
  | none =>
    unfold freshState at hfresh
    rw [hcatalog] at hfresh
    exact .inr (Except.ok.inj hfresh).symm
  | some other =>
    have hsound := h.catalog other hcatalog
    have hsame := Except.ok.inj ((freshState_of_sound hcatalog hsound).symm.trans hfresh)
    rw [← hsame]
    exact .inl ⟨rfl, hsound⟩

theorem routineAt_sound (h : Sound host store)
    (hfresh : freshState host store.database = .ok state) {index : Nat} {routine : StoredRoutine}
    (hroutine : routineAt state.routines index = .ok routine) :
    store.database.catalog = some state ∧ CatalogSound host store.database.hooks state ∧
      state.routines[index]? = some routine ∧ routine ∈ state.routines := by
  have hindex : state.routines[index]? = some routine := by
    unfold routineAt at hroutine
    split at hroutine
    · rename_i other hother
      rw [← Except.ok.inj hroutine]
      exact hother
    · cases hroutine
  have hmem := List.mem_of_getElem? hindex
  rcases freshState_sound h hfresh with ⟨hcatalog, hsound⟩ | rfl
  · exact ⟨hcatalog, hsound, hindex, hmem⟩
  · cases hmem

theorem stateValid_of_routines {routines : List StoredRoutine}
    (h : CatalogSound host tables state)
    (hstate : validateState { state with routines := routines } = .ok ())
    (hroutines : ∀ routine ∈ routines, RoutineValid host routine) :
    StateValid host { state with routines := routines } := by
  obtain ⟨hbots, hids, howners, hpaths, hrevision⟩ := validateState_ok_iff.mp hstate
  exact ⟨h.valid.version, h.valid.bots, hroutines, h.valid.pending, hbots, hids, howners, hpaths,
    hrevision⟩

theorem catalogJson_ok {row : BotState} (h : catalogJson host state = .ok row) :
    row = state ∧ catalogBytes host state ≤ maxStateBytes := by
  unfold catalogJson at h
  obtain ⟨⟨⟩, hbytes, h⟩ := bind_ok h
  have hbytes := rejectIf_ok_iff.mp hbytes
  rw [decide_eq_false_iff_not, Nat.not_lt] at hbytes
  exact ⟨(Except.ok.inj h).symm, hbytes⟩

theorem routineEvent_id {eventId : String} {routine : StoredRoutine} {data : String → HookData}
    {cause : Option HookEvent} {event : HookEvent}
    (h : routineEvent eventId routine data now cause = .ok event) : event.id = eventId := by
  unfold routineEvent causedEvent at h
  obtain ⟨⟨⟩, -, h⟩ := bind_ok h
  rw [← Except.ok.inj h]

theorem acceptUnchanged_sound (laws : HostLaws host) (h : Sound host store)
    (accepted : Option String) : Sound host (acceptUnchanged store accepted) := by
  obtain ⟨hevents, hbindings, -⟩ := acceptAction_frame store.database.hooks accepted
  refine ⟨h.tidy.accept accepted, ?_⟩
  intro state hstate
  have hsound := h.catalog state hstate
  refine ⟨hsound.bytes, hsound.configs, hsound.valid, hsound.pending, ?_, ?_⟩
  · intro routine hroutine stored hstored
    obtain ⟨row, hrow, howner⟩ := hsound.held routine hroutine stored hstored
    refine ⟨row, ?_, howner⟩
    unfold acceptUnchanged HookTables.binding? at *
    rw [hbindings]
    exact hrow
  · intro routine hroutine stored hstored
    refine timerSound_mono laws (hsound.timers routine hroutine stored hstored) ?_
    intro event hevent
    exact .inl (hevents ▸ hevent)

end Commits

section Inversion

variable {host : Host} {store after : BotStore} {now : Int}

/-- A catalog that is checked, fits into its row and is saved with the hooks. -/
structure SavesCatalog (host : Host) (database after : BotDatabase) (state : BotState)
    (events : List HookEvent) (now : Int) (accepted : Option String) : Prop where
  checked : validateState state = .ok ()
  bytes : catalogBytes host state ≤ maxStateBytes
  commit : saveCatalogWithHooks host database state events now accepted = .ok after

variable {accepted : Option String} {eventId : Uuid host} {cause : Option HookEvent} {id : String}

theorem savesCatalog_of {database : BotDatabase} {state row : BotState} {events : List HookEvent}
    {saved : BotDatabase} (hstate : validateState state = .ok ())
    (hrow : catalogJson host state = .ok row)
    (hcommit : saveCatalogWithHooks host database row events now accepted = .ok saved) :
    SavesCatalog host database saved state events now accepted := by
  obtain ⟨hsame, hbytes⟩ := catalogJson_ok hrow
  rw [hsame] at hcommit
  exact ⟨hstate, hbytes, hcommit⟩

theorem createRoutine_cases {botId : String} {definition : RoutineDefinition}
    {workspace : CanonicalWorkspace} {routineId fileId : Uuid host}
    (h : createRoutine host store botId definition workspace cause routineId fileId eventId now =
      .ok after) :
    validateDefinition host.library (some maxScheduleTimestamp) definition 0 = .ok () ∧
      ∃ state bindings event, freshState host store.database = .ok state ∧
        rejectIfDeleting state = .ok () ∧
        (state.bots.any fun bot => decide (bot.id = botId)) = true ∧
        (definition.bindings.mapM fun binding =>
          StoredRoutineBinding.new host.library binding now false) = .ok bindings ∧
        routineEvent eventId.1 ⟨routineId.1, botId, workspace.1, newInstructionPath host fileId.1,
          bindings, true⟩ .routineCreated now cause = .ok event ∧
        SavesCatalog host store.database after.database { state with
          routines := state.routines ++ [⟨routineId.1, botId, workspace.1,
            newInstructionPath host fileId.1, bindings, true⟩] } [event] now none := by
  unfold createRoutine at h
  obtain ⟨⟨⟩, hdefinition, h⟩ := bind_ok h
  obtain ⟨files, -, h⟩ := bind_ok h
  obtain ⟨state, hfresh, h⟩ := bind_ok h
  obtain ⟨⟨⟩, hpending, h⟩ := bind_ok h
  obtain ⟨⟨⟩, hbot, h⟩ := bind_ok h
  obtain ⟨bindings, hbindings, h⟩ := bind_ok h
  obtain ⟨⟨⟩, hstate, h⟩ := bind_ok h
  obtain ⟨event, hevent, h⟩ := bind_ok h
  obtain ⟨row, hrow, h⟩ := bind_ok h
  obtain ⟨database, hcommit, h⟩ := bind_ok h
  have hbot := rejectIf_ok_iff.mp hbot
  rw [Bool.not_eq_false'] at hbot
  rw [← Except.ok.inj h]
  exact ⟨hdefinition, state, bindings, event, hfresh, hpending, hbot, hbindings, hevent,
    savesCatalog_of hstate hrow hcommit⟩

theorem updateRoutine_cases {definition : RoutineDefinition} {workspace : CanonicalWorkspace}
    {lockFree : Bool} {fileId : Uuid host}
    (h : updateRoutine host store id definition workspace cause accepted lockFree fileId eventId
      now = .ok after) :
    validateDefinition host.library (some maxScheduleTimestamp) definition 0 = .ok () ∧
      ∃ state index routine, freshState host store.database = .ok state ∧
        rejectIfDeleting state = .ok () ∧
        resolveRoutine state.routines id = .ok index ∧
        routineAt state.routines index = .ok routine ∧
        (after = acceptUnchanged store accepted ∨ ∃ bindings event,
          rebuildBindings host now definition.bindings routine.bindings = .ok bindings ∧
          routineEvent eventId.1 { routine with
            bindings := bindings, workspace := workspace.1,
            instructions := newInstructionPath host fileId.1 } .routineUpdated now cause =
              .ok event ∧
          SavesCatalog host store.database after.database { state with
            routines := state.routines.set index { routine with
              bindings := bindings, workspace := workspace.1,
              instructions := newInstructionPath host fileId.1 } } [event] now accepted) := by
  unfold updateRoutine at h
  obtain ⟨⟨⟩, hdefinition, h⟩ := bind_ok h
  obtain ⟨state, hfresh, h⟩ := bind_ok h
  obtain ⟨⟨⟩, hpending, h⟩ := bind_ok h
  obtain ⟨index, hresolve, h⟩ := bind_ok h
  obtain ⟨routine, hroutine, h⟩ := bind_ok h
  obtain ⟨unchanged, -, h⟩ := bind_ok h
  refine ⟨hdefinition, state, index, routine, hfresh, hpending, hresolve, hroutine, ?_⟩
  split at h
  · exact .inl (Except.ok.inj h).symm
  · obtain ⟨⟨⟩, -, h⟩ := bind_ok h
    obtain ⟨files, -, h⟩ := bind_ok h
    obtain ⟨bindings, hbindings, h⟩ := bind_ok h
    obtain ⟨⟨⟩, hstate, h⟩ := bind_ok h
    obtain ⟨event, hevent, h⟩ := bind_ok h
    obtain ⟨row, hrow, h⟩ := bind_ok h
    obtain ⟨database, hcommit, h⟩ := bind_ok h
    rw [← Except.ok.inj h]
    exact .inr ⟨bindings, event, hbindings, hevent, savesCatalog_of hstate hrow hcommit⟩

theorem setRoutineEnabled_cases {enabled : Bool}
    (h : setRoutineEnabled host store id enabled cause accepted eventId now = .ok after) :
    ∃ state index routine, freshState host store.database = .ok state ∧
      rejectIfDeleting state = .ok () ∧
      resolveRoutine state.routines id = .ok index ∧
      routineAt state.routines index = .ok routine ∧
      (after = acceptUnchanged store accepted ∨ routine.enabled ≠ enabled ∧ ∃ bindings event,
        resetTimers host enabled routine.bindings now = .ok bindings ∧
        routineEvent eventId.1 { routine with enabled := enabled, bindings := bindings }
          (if enabled then .routineResumed else .routinePaused) now cause = .ok event ∧
        SavesCatalog host store.database after.database { state with
          routines := state.routines.set index
            { routine with enabled := enabled, bindings := bindings } } [event] now accepted) := by
  unfold setRoutineEnabled at h
  obtain ⟨state, hfresh, h⟩ := bind_ok h
  obtain ⟨⟨⟩, hpending, h⟩ := bind_ok h
  obtain ⟨index, hresolve, h⟩ := bind_ok h
  obtain ⟨routine, hroutine, h⟩ := bind_ok h
  refine ⟨state, index, routine, hfresh, hpending, hresolve, hroutine, ?_⟩
  split at h
  · exact .inl (Except.ok.inj h).symm
  · rename_i hother
    obtain ⟨bindings, hbindings, h⟩ := bind_ok h
    obtain ⟨⟨⟩, hstate, h⟩ := bind_ok h
    obtain ⟨event, hevent, h⟩ := bind_ok h
    obtain ⟨row, hrow, h⟩ := bind_ok h
    obtain ⟨database, hcommit, h⟩ := bind_ok h
    rw [← Except.ok.inj h]
    exact .inr ⟨hother, bindings, event, hbindings, hevent,
      savesCatalog_of hstate hrow hcommit⟩

theorem deleteRoutine_cases {lockFree : Bool}
    (h : deleteRoutine host store id cause accepted lockFree eventId now = .ok after) :
    ∃ state index routine event, freshState host store.database = .ok state ∧
      routineAt state.routines index = .ok routine ∧
      validateState { state with routines := state.routines.eraseIdx index } = .ok () ∧
      catalogBytes host { state with routines := state.routines.eraseIdx index } ≤
        maxStateBytes ∧
      routineEvent eventId.1 routine .routineDeleted now cause = .ok event ∧
      deleteRunsAndSaveCatalog host store.database
        { state with routines := state.routines.eraseIdx index } routine.id event accepted =
          .ok after.database := by
  unfold deleteRoutine at h
  obtain ⟨state, hfresh, h⟩ := bind_ok h
  obtain ⟨index, -, h⟩ := bind_ok h
  obtain ⟨routine, hroutine, h⟩ := bind_ok h
  obtain ⟨⟨⟩, -, h⟩ := bind_ok h
  obtain ⟨⟨⟩, -, h⟩ := bind_ok h
  obtain ⟨⟨⟩, hstate, h⟩ := bind_ok h
  obtain ⟨row, hrow, h⟩ := bind_ok h
  obtain ⟨event, hevent, h⟩ := bind_ok h
  obtain ⟨database, hcommit, h⟩ := bind_ok h
  obtain ⟨hsame, hbytes⟩ := catalogJson_ok hrow
  rw [hsame] at hcommit
  rw [← Except.ok.inj h]
  exact ⟨state, index, routine, event, hfresh, hroutine, hstate, hbytes, hevent, hcommit⟩

theorem pollDue_cases {result : RoutinePoll × BotStore} (h : pollDue host store now = .ok result) :
    ∃ state, freshState host store.database = .ok state ∧ (result.2 = store ∨
      ∃ tick, pollRoutines host now state.routines = .ok tick ∧
        SavesCatalog host store.database result.2.database
          { state with routines := tick.items } tick.events now none) := by
  unfold pollDue at h
  obtain ⟨state, hfresh, h⟩ := bind_ok h
  refine ⟨state, hfresh, ?_⟩
  dsimp only at h
  split at h
  · rw [← Except.ok.inj h]
    exact .inl rfl
  · obtain ⟨tick, htick, h⟩ := bind_ok h
    split at h
    · obtain ⟨⟨⟩, hstate, h⟩ := bind_ok h
      obtain ⟨row, hrow, h⟩ := bind_ok h
      obtain ⟨database, hcommit, h⟩ := bind_ok h
      rw [← Except.ok.inj h]
      exact .inr ⟨tick, htick, savesCatalog_of hstate hrow hcommit⟩
    · rw [← Except.ok.inj h]
      exact .inl rfl

end Inversion

section Rebuilding

variable {host : Host} {tables : HookTables} {now : Int}

theorem mem_of_mem_swapRemove {α : Type} {items : List α} {index : Nat} {item : α}
    (h : item ∈ swapRemove items index) : item ∈ items := by
  unfold swapRemove at h
  cases hlast : items.getLast? with
  | none =>
    rw [hlast] at h
    cases h
  | some last =>
    rw [hlast] at h
    rcases List.mem_or_eq_of_mem_set (List.mem_of_mem_dropLast h) with hmem | rfl
    · exact hmem
    · exact List.mem_of_getLast? hlast

theorem mem_swapRemove {α : Type} {items : List α} {index : Nat} {item removed : α}
    (hremoved : items[index]? = some removed) (hne : item ≠ removed) (h : item ∈ items) :
    item ∈ swapRemove items index := by
  cases hlast : items.getLast? with
  | none =>
    rw [List.getLast?_eq_none_iff.mp hlast] at h
    cases h
  | some last =>
    have hsplit := List.dropLast_append_getLast? last hlast
    unfold swapRemove
    rw [hlast]
    dsimp only
    rw [← hsplit] at hremoved h ⊢
    rcases Nat.lt_or_ge index items.dropLast.length with hindex | hindex
    · rw [List.set_append_left _ _ hindex, List.dropLast_concat]
      rw [List.getElem?_append_left hindex] at hremoved
      rcases List.mem_append.mp h with hinit | hitem
      · obtain ⟨position, hposition, hget⟩ := List.mem_iff_getElem.mp hinit
        have hother : index ≠ position := by
          rintro rfl
          rw [List.getElem?_eq_getElem hposition, hget] at hremoved
          exact hne (Option.some.inj hremoved)
        refine List.mem_iff_getElem.mpr ⟨position, by rw [List.length_set]; exact hposition, ?_⟩
        rw [List.getElem_set_ne hother]
        exact hget
      · rw [List.mem_singleton.mp hitem]
        exact List.mem_set hindex last
    · rw [List.set_append_right _ _ hindex]
      rw [List.getElem?_append_right hindex] at hremoved
      have hzero : index - items.dropLast.length = 0 := by
        by_contra hpositive
        have hbeyond : [last].length ≤ index - items.dropLast.length := by
          rw [List.length_singleton]
          omega
        rw [List.getElem?_eq_none hbeyond] at hremoved
        cases hremoved
      rw [hzero] at hremoved ⊢
      rw [List.set_cons_zero, List.dropLast_concat]
      rcases List.mem_append.mp h with hinit | hitem
      · exact hinit
      · exact absurd ((List.mem_singleton.mp hitem).trans (Option.some.inj hremoved)) hne

theorem sameBinding_fields {first second : RoutineBinding} (h : sameBinding first second = true) :
    first.id = second.id ∧ first.on = second.on := by
  unfold sameBinding at h
  simp only [Bool.and_eq_true, beq_iff_eq, decide_eq_true_eq] at h
  exact h.1

/-- A binding of an updated routine is a kept one or an armed one. -/
theorem rebuildBindings_forall {good : StoredRoutineBinding RoutineAction → Prop}
    {definitions : List RoutineBinding}
    {original previous results : List (StoredRoutineBinding RoutineAction)}
    (h : rebuildBindings host now definitions previous = .ok results)
    (hnodup : (definitions.map (·.id)).Nodup)
    (hprevious : ∀ prior ∈ previous, prior ∈ original)
    (hleft : ∀ definition ∈ definitions, ∀ prior ∈ original,
      sameBinding prior.definition definition = true → prior ∈ previous)
    (hkept : ∀ prior ∈ original, good prior)
    (harmed : ∀ definition ∈ definitions,
      (∀ prior ∈ original, sameBinding prior.definition definition = false) → ∀ armed,
        StoredRoutineBinding.new host.library definition now false = .ok armed →
        armed.definition = definition ∧ good armed) :
    List.Forall₂ (fun definition result => result.definition.id = definition.id ∧
      good result ∧ (result ∈ original ∨ result.definition = definition)) definitions results := by
  induction definitions generalizing previous results with
  | nil =>
    rw [← Except.ok.inj h]
    exact List.Forall₂.nil
  | cons definition rest ih =>
    rw [List.map_cons, List.nodup_cons] at hnodup
    rw [List.forall_mem_cons] at hleft harmed
    unfold rebuildBindings at h
    dsimp only at h
    cases hfind : previous.find? fun prior => sameBinding prior.definition definition with
    | some kept =>
      rw [hfind] at h
      obtain ⟨others, hothers, h⟩ := bind_ok h
      rw [← Except.ok.inj h]
      have hmatch := List.find?_some hfind
      have hsame : sameBinding kept.definition definition = true := hmatch
      have hindex : previous[previous.findIdx fun prior =>
          sameBinding prior.definition definition]? = some kept := by
        rw [← List.find?_eq_getElem?_findIdx]
        exact hfind
      have hmem := hprevious kept (List.mem_of_find?_eq_some hfind)
      refine List.Forall₂.cons ⟨(sameBinding_fields hsame).1, hkept kept hmem, .inl hmem⟩
        (ih hothers hnodup.2 ?_ ?_ harmed.2)
      · intro prior hprior
        exact hprevious prior (mem_of_mem_swapRemove hprior)
      · intro other hother prior hprior hsameOther
        refine mem_swapRemove hindex ?_ (hleft.2 other hother prior hprior hsameOther)
        rintro rfl
        have hids : other.id = definition.id :=
          (sameBinding_fields hsameOther).1.symm.trans (sameBinding_fields hsame).1
        exact hnodup.1 (List.mem_map.mpr ⟨other, hother, hids⟩)
    | none =>
      rw [hfind] at h
      obtain ⟨armed, hnew, h⟩ := bind_ok h
      obtain ⟨others, hothers, h⟩ := bind_ok h
      rw [← Except.ok.inj h]
      have hunknown : ∀ prior ∈ original, sameBinding prior.definition definition = false := by
        intro prior hprior
        refine Bool.eq_false_iff.mpr ?_
        intro hsame
        exact List.find?_eq_none.mp hfind prior (hleft.1 prior hprior hsame) hsame
      obtain ⟨hdefinition, hgood⟩ := harmed.1 hunknown armed hnew
      exact List.Forall₂.cons ⟨by rw [hdefinition], hgood, .inr hdefinition⟩
        (ih hothers hnodup.2 hprevious hleft.2 harmed.2)

theorem rebuilt_valid {library : CronLibrary} {good : StoredRoutineBinding RoutineAction → Prop}
    {definitions : List RoutineBinding}
    {original results : List (StoredRoutineBinding RoutineAction)}
    (h : List.Forall₂ (fun definition result => result.definition.id = definition.id ∧
      good result ∧ (result ∈ original ∨ result.definition = definition)) definitions results)
    (hdefinitions : validateBindings library none definitions 0 = .ok ())
    (horiginal : validateBindings library none (original.map (·.definition)) 0 = .ok ()) :
    validateBindings library none (results.map (·.definition)) 0 = .ok () := by
  unfold validateBindings at hdefinitions horiginal ⊢
  obtain ⟨hbounds, hlist⟩ := bind_ok_iff.mp hdefinitions
  obtain ⟨hnew, hnodup⟩ := validateBindingList_ok_iff.mp hlist
  obtain ⟨hpriors, -⟩ := validateBindingList_ok_iff.mp (bind_ok_iff.mp horiginal).2
  have hids : (results.map (·.definition)).map (·.id) = definitions.map (·.id) := by
    rw [List.map_map]
    exact forall₂_map_eq (h.imp fun _ _ hpair => hpair.1)
  refine bind_ok_iff.mpr ⟨?_, validateBindingList_ok_iff.mpr ⟨?_, hids ▸ hnodup⟩⟩
  · rw [List.length_map, ← h.length_eq]
    exact hbounds
  · intro binding hbinding
    obtain ⟨stored, hstored, rfl⟩ := List.mem_map.mp hbinding
    obtain ⟨new, hnewMem, -, -, hfrom⟩ := forall₂_mem_right h hstored
    cases hfrom with
    | inl hkept => exact hpriors stored.definition (List.mem_map_of_mem hkept)
    | inr hsame =>
      rw [hsame]
      exact hnew new hnewMem

end Rebuilding

section Operations

variable {host : Host} {store after : BotStore} {now : Int}

variable {definition : RoutineDefinition} {eventId : Uuid host} {cause : Option HookEvent}
  {accepted : Option String} {id : String}

theorem validateDefinition_bindings {library : CronLibrary}
    (h : validateDefinition library (some maxScheduleTimestamp) definition 0 = .ok ()) :
    validateBindings library none definition.bindings 0 = .ok () := by
  unfold validateDefinition at h
  obtain ⟨-, h⟩ := bind_ok_iff.mp h
  obtain ⟨-, h⟩ := bind_ok_iff.mp h
  unfold validateBindings at h ⊢
  obtain ⟨hbounds, h⟩ := bind_ok_iff.mp h
  exact bind_ok_iff.mpr ⟨hbounds, validateBindingList_stored _ _ _ h⟩

theorem createRoutine_sound (laws : HostLaws host) (h : Sound host store) {botId : String}
    {workspace : CanonicalWorkspace} {routineId fileId : Uuid host}
    (hcreate : createRoutine host store botId definition workspace cause routineId fileId eventId
      now = .ok after) (hnamed : ∀ binding ∈ definition.bindings, TimerNamed binding)
    (harms : ∀ binding ∈ definition.bindings,
      Arms host store.database.hooks routineId.1 binding now false) : Sound host after := by
  obtain ⟨hdefinition, state, bindings, event, hfresh, -, hbot, hbindings, hevent, hsaves⟩ :=
    createRoutine_cases hcreate
  rcases freshState_sound h hfresh with ⟨-, hsound⟩ | rfl
  · have harmed : List.Forall₂ (fun definition result => result.definition = definition ∧
        TimerSound host store.database.hooks routineId.1 result) definition.bindings bindings := by
      refine List.forall₂_iff_get.mpr ⟨(mapM_forall₂ hbindings).length_eq, ?_⟩
      intro index hindex hindex'
      have hmem := List.get_mem definition.bindings ⟨index, hindex⟩
      exact new_sound ((List.forall₂_iff_get.mp (mapM_forall₂ hbindings)).2 index hindex hindex')
        (hnamed _ hmem) (harms _ hmem)
    have hresults := @forall₂_sound host store.database.hooks RoutineBinding routineId.1
      definition.bindings id bindings harmed
    rw [List.map_id] at hresults
    have hevent : host.parseUuid event.id = .ok event.id := by
      rw [routineEvent_id hevent]
      exact eventId.2
    refine saveCatalogWithHooks_sound laws h.tidy hevent hsaves.commit hsaves.bytes hsound.configs
      (stateValid_of_routines hsound hsaves.checked ?_) hsound.pending ?_
    · intro routine hroutine
      rcases List.mem_append.mp hroutine with hold | hnew
      · exact hsound.valid.routines routine hold
      · rw [List.mem_singleton.mp hnew]
        refine ⟨routineId.2, workspace.2, laws.newInstructionPath_inside fileId, ?_, ?_⟩
        · rw [hresults.1]
          exact validateDefinition_bindings hdefinition
        · intro stored hstored next hnext
          exact ((hresults.2 stored hstored).ready.clock next hnext).1
    · intro routine hroutine
      rcases List.mem_append.mp hroutine with hold | hnew
      · exact hsound.timers routine hold
      · rw [List.mem_singleton.mp hnew]
        exact hresults.2
  · cases hbot

theorem changedRoutine_sound (laws : HostLaws host) (h : Sound host store) {state : BotState}
    (hsound : CatalogSound host store.database.hooks state) {index : Nat}
    {routine : StoredRoutine} {event : HookEvent} (huuid : host.parseUuid event.id = .ok event.id)
    {database : BotDatabase} {files : List (String × String)}
    (hsaves : SavesCatalog host store.database database
      { state with routines := state.routines.set index routine } [event] now accepted) 
    (hvalid : RoutineValid host routine)
    (htimers : ∀ stored ∈ routine.bindings,
      TimerSound host store.database.hooks routine.id stored) :
    Sound host ⟨database, files⟩ := by
  refine saveCatalogWithHooks_sound laws h.tidy huuid hsaves.commit hsaves.bytes hsound.configs
    (stateValid_of_routines hsound hsaves.checked ?_) hsound.pending ?_
  · intro other hother
    rcases List.mem_or_eq_of_mem_set hother with hold | rfl
    · exact hsound.valid.routines other hold
    · exact hvalid
  · intro other hother
    rcases List.mem_or_eq_of_mem_set hother with hold | rfl
    · exact hsound.timers other hold
    · exact htimers

theorem setRoutineEnabled_sound (laws : HostLaws host) (h : Sound host store) {enabled : Bool}
    (hset : setRoutineEnabled host store id enabled cause accepted eventId now = .ok after)
    (harms : enabled = true → ∀ state index routine, store.database.catalog = some state →
      resolveRoutine state.routines id = .ok index →
      routineAt state.routines index = .ok routine → routine.enabled = false →
      ∀ stored ∈ routine.bindings,
        Arms host store.database.hooks routine.id stored.definition now true) :
    Sound host after := by
  obtain ⟨state, index, routine, hfresh, -, hresolve, hroutine, hcase⟩ :=
    setRoutineEnabled_cases hset
  obtain ⟨hcatalog, hsound, hindex, hmem⟩ := routineAt_sound h hfresh hroutine
  rcases hcase with rfl | ⟨hother, bindings, event, hbindings, hevent, hsaves⟩
  · exact acceptUnchanged_sound laws h accepted
  have huuid : host.parseUuid event.id = .ok event.id := by
    rw [routineEvent_id hevent]
    exact eventId.2
  have hvalid := hsound.valid.routines routine hmem
  have hresults : bindings.map (·.definition) = routine.bindings.map (·.definition) ∧
      ∀ stored ∈ bindings, TimerSound host store.database.hooks routine.id stored := by
    cases enabled with
    | false =>
      rw [← Except.ok.inj hbindings]
      exact ⟨rfl, hsound.timers routine hmem⟩
    | true =>
      have hdisabled : routine.enabled = false := by
        cases hflag : routine.enabled with
        | false => rfl
        | true => exact absurd hflag hother
      have hpairs := mapM_forall₂ hbindings
      refine @forall₂_sound host store.database.hooks _ routine.id routine.bindings
        (·.definition) bindings (List.forall₂_iff_get.mpr ⟨hpairs.length_eq, ?_⟩)
      intro position hposition hposition'
      have hstored := List.get_mem routine.bindings ⟨position, hposition⟩
      exact reset_sound ((List.forall₂_iff_get.mp hpairs).2 position hposition hposition')
        (hsound.timers routine hmem _ hstored).named
        (harms rfl state index routine hcatalog hresolve hroutine hdisabled _ hstored)
  refine changedRoutine_sound laws h hsound huuid hsaves ⟨hvalid.id,
    hvalid.workspace, hvalid.inside, ?_, ?_⟩ hresults.2
  · exact hresults.1 ▸ hvalid.bindings
  · intro stored hstored next hnext
    exact ((hresults.2 stored hstored).ready.clock next hnext).1

theorem updateRoutine_sound (laws : HostLaws host) (h : Sound host store)
    {workspace : CanonicalWorkspace} {lockFree : Bool} {fileId : Uuid host}
    (hupdate : updateRoutine host store id definition workspace cause accepted lockFree fileId
      eventId now = .ok after)
    (hnamed : ∀ binding ∈ definition.bindings, TimerNamed binding)
    (harms : ∀ state index routine, store.database.catalog = some state →
      resolveRoutine state.routines id = .ok index →
      routineAt state.routines index = .ok routine → ∀ binding ∈ definition.bindings,
      (∀ prior ∈ routine.bindings, sameBinding prior.definition binding = false) →
        Arms host store.database.hooks routine.id binding now false) : Sound host after := by
  obtain ⟨hdefinition, state, index, routine, hfresh, -, hresolve, hroutine, hcase⟩ :=
    updateRoutine_cases hupdate
  obtain ⟨hcatalog, hsound, hindex, hmem⟩ := routineAt_sound h hfresh hroutine
  rcases hcase with rfl | ⟨bindings, event, hbindings, hevent, hsaves⟩
  · exact acceptUnchanged_sound laws h accepted
  have huuid : host.parseUuid event.id = .ok event.id := by
    rw [routineEvent_id hevent]
    exact eventId.2
  have hvalid := hsound.valid.routines routine hmem
  have hdefinitions := validateDefinition_bindings hdefinition
  have hrebuilt := @rebuildBindings_forall host now
    (TimerSound host store.database.hooks routine.id) definition.bindings routine.bindings
    routine.bindings bindings hbindings (validateBindings_ok hdefinitions).2
    (fun prior hprior => hprior) (fun _ _ prior hprior _ => hprior) (hsound.timers routine hmem)
    (fun binding hbinding hunknown armed hnew => new_sound hnew (hnamed binding hbinding)
      (harms state index routine hcatalog hresolve hroutine binding hbinding hunknown))
  have htimers : ∀ stored ∈ bindings,
      TimerSound host store.database.hooks routine.id stored := by
    intro stored hstored
    obtain ⟨_, _, hpair⟩ := forall₂_mem_right hrebuilt hstored
    exact hpair.2.1
  refine changedRoutine_sound laws h hsound huuid hsaves ⟨hvalid.id,
    workspace.2, laws.newInstructionPath_inside fileId,
    rebuilt_valid hrebuilt hdefinitions hvalid.bindings, ?_⟩ htimers
  intro stored hstored next hnext
  exact ((htimers stored hstored).ready.clock next hnext).1

theorem deleteRunsAndSaveCatalog_ok {database deleted : BotDatabase} {state : BotState}
    {routineId : String} {event : HookEvent} (htidy : Tidy host.digest database.hooks)
    (h : deleteRunsAndSaveCatalog host database state routineId event accepted = .ok deleted) :
    deleted.catalog = some state ∧ Tidy host.digest deleted.hooks ∧
      (deleted.hooks.bindings =
        database.hooks.bindings.filter fun row => decide (row.routineId ≠ some routineId)) ∧
      ∀ fact ∈ deleted.hooks.events, fact ∈ database.hooks.events ∨ fact = event := by
  unfold deleteRunsAndSaveCatalog at h
  obtain ⟨⟨isNew, recorded⟩, hrecorded, h⟩ := bind_ok h
  rw [← Except.ok.inj h]
  obtain ⟨hframeEvents, hframeBindings, -⟩ := acceptAction_frame database.hooks accepted
  have hacceptedTidy := htidy.accept accepted
  have hpruned := (Pruned.of_bindings (acceptAction database.hooks accepted)
    ((acceptAction database.hooks accepted).bindings.filter fun row =>
      decide (row.routineId ≠ some routineId))).trans
    (cancelSourcePending_pruned _ (.routine routineId))
  have hprunedTidy := hacceptedTidy.prune hpruned
    (hacceptedTidy.keys.sublist (List.filter_sublist.map _))
  obtain ⟨htidyRecorded, hbindings, hevents⟩ := hprunedTidy.record hrecorded
  refine ⟨rfl, htidyRecorded, ?_, ?_⟩
  · rw [← hframeBindings]
    exact hbindings
  · intro fact hfact
    rw [← hframeEvents]
    rcases hevents with hunchanged | happended
    · exact .inl (hunchanged ▸ hfact)
    · rw [happended, List.mem_append, List.mem_singleton] at hfact
      exact hfact

theorem eraseIdx_id_ne {routines : List StoredRoutine} {index : Nat}
    {routine kept : StoredRoutine} (hnodup : (routines.map (·.id)).Nodup)
    (hindex : routines[index]? = some routine) (hkept : kept ∈ routines.eraseIdx index) :
    kept.id ≠ routine.id := by
  intro hsame
  obtain ⟨hbound, hget⟩ := List.getElem?_eq_some_iff.mp hindex
  obtain ⟨position, hposition, hne, hgetKept⟩ := List.mem_eraseIdx_iff_getElem.mp hkept
  have hlength : (routines.map (·.id)).length = routines.length := List.length_map _
  have hids : (routines.map (·.id)).get ⟨position, hlength ▸ hposition⟩ =
      (routines.map (·.id)).get ⟨index, hlength ▸ hbound⟩ := by
    rw [List.get_eq_getElem, List.get_eq_getElem, List.getElem_map, List.getElem_map, hgetKept,
      hget, hsame]
  exact hne (congrArg Fin.val (List.nodup_iff_injective_get.mp hnodup hids))

theorem deleteRoutine_sound (laws : HostLaws host) (h : Sound host store) {lockFree : Bool}
    (hdelete : deleteRoutine host store id cause accepted lockFree eventId now = .ok after) :
    Sound host after := by
  obtain ⟨state, index, routine, event, hfresh, hroutine, hstate, hbytes, hevent, hcommit⟩ :=
    deleteRoutine_cases hdelete
  obtain ⟨-, hsound, hindex, -⟩ := routineAt_sound h hfresh hroutine
  obtain ⟨hcatalog, htidy, hbindings, hevents⟩ := deleteRunsAndSaveCatalog_ok h.tidy hcommit
  have hsub : ∀ kept ∈ state.routines.eraseIdx index, kept ∈ state.routines := fun kept hkept =>
    List.mem_of_mem_eraseIdx hkept
  refine ⟨htidy, ?_⟩
  intro other hother
  rw [← Option.some.inj (hcatalog.symm.trans hother)]
  refine ⟨hbytes, hsound.configs, stateValid_of_routines hsound hstate ?_, hsound.pending, ?_, ?_⟩
  · intro kept hkept
    exact hsound.valid.routines kept (hsub kept hkept)
  · intro kept hkept stored hstored
    obtain ⟨held, hheld, howner⟩ := hsound.held kept (hsub kept hkept) stored hstored
    refine ⟨held, ?_, howner⟩
    unfold HookTables.binding? at hheld ⊢
    rw [hbindings]
    refine find?_filter_of_kept hheld ?_
    rw [decide_eq_true_eq, howner]
    intro hsame
    exact eraseIdx_id_ne hsound.valid.ids hindex hkept (Option.some.inj hsame)
  · intro kept hkept stored hstored
    refine timerSound_mono laws (hsound.timers kept (hsub kept hkept) stored hstored) ?_
    intro fact hfact
    rcases hevents fact hfact with hbefore | rfl
    · exact .inl hbefore
    · right
      rw [routineEvent_id hevent]
      exact eventId.2

end Operations

section Runs

/-- The operations on routines, with what they learn from outside. -/
inductive RoutineOp (host : Host) where
  | create (botId : String) (definition : RoutineDefinition) (workspace : CanonicalWorkspace)
      (cause : Option HookEvent) (routineId fileId eventId : Uuid host) (now : Int)
  | update (id : String) (definition : RoutineDefinition) (workspace : CanonicalWorkspace)
      (cause : Option HookEvent) (acceptedActionId : Option String) (lockFree : Bool)
      (fileId eventId : Uuid host) (now : Int)
  | setEnabled (id : String) (enabled : Bool) (cause : Option HookEvent)
      (acceptedActionId : Option String) (eventId : Uuid host) (now : Int)
  | delete (id : String) (cause : Option HookEvent) (acceptedActionId : Option String)
      (lockFree : Bool) (eventId : Uuid host) (now : Int)
  | poll (now : Int)

variable (host : Host)

def RoutineOp.apply (store : BotStore) : RoutineOp host → Except Error BotStore
  | .create botId definition workspace cause routineId fileId eventId now =>
    createRoutine host store botId definition workspace cause routineId fileId eventId now
  | .update id definition workspace cause acceptedActionId lockFree fileId eventId now =>
    updateRoutine host store id definition workspace cause acceptedActionId lockFree fileId eventId
      now
  | .setEnabled id enabled cause acceptedActionId eventId now =>
    setRoutineEnabled host store id enabled cause acceptedActionId eventId now
  | .delete id cause acceptedActionId lockFree eventId now =>
    deleteRoutine host store id cause acceptedActionId lockFree eventId now
  | .poll now => (pollDue host store now).map Prod.snd

/-- The store after an operation; one that fails changes nothing. -/
def RoutineOp.step (store : BotStore) (operation : RoutineOp host) : BotStore :=
  match operation.apply host store with
  | .ok after => after
  | .error _ => store

def runOps (store : BotStore) (operations : List (RoutineOp host)) : BotStore :=
  operations.foldl (RoutineOp.step host) store

/-- An operation that names no timer with blanks, arms every timer after its recorded
occurrences, and polls at times at which all schedules go on. -/
def Admissible (store : BotStore) : RoutineOp host → Prop
  | .create _ definition _ _ routineId _ _ now => ∀ binding ∈ definition.bindings,
      TimerNamed binding ∧ Arms host store.database.hooks routineId.1 binding now false
  | .update id definition _ _ _ _ _ _ now =>
      (∀ binding ∈ definition.bindings, TimerNamed binding) ∧
      ∀ state index routine, store.database.catalog = some state →
        resolveRoutine state.routines id = .ok index →
        routineAt state.routines index = .ok routine → ∀ binding ∈ definition.bindings,
        (∀ prior ∈ routine.bindings, sameBinding prior.definition binding = false) →
          Arms host store.database.hooks routine.id binding now false
  | .setEnabled id enabled _ _ _ now => enabled = true → ∀ state index routine,
      store.database.catalog = some state → resolveRoutine state.routines id = .ok index →
      routineAt state.routines index = .ok routine → routine.enabled = false →
      ∀ stored ∈ routine.bindings,
        Arms host store.database.hooks routine.id stored.definition now true
  | .delete .. => True
  | .poll now => Pollable host store now

/-- A run of such operations. -/
def AdmissibleRun : BotStore → List (RoutineOp host) → Prop
  | _, [] => True
  | store, operation :: rest =>
    Admissible host store operation ∧ AdmissibleRun (operation.step host store) rest

/-- A store that was opened without routines: its catalog is read, and nothing has occurred. -/
structure Opened (store : BotStore) : Prop where
  catalog : ∀ state, store.database.catalog = some state →
    freshState host store.database = .ok state ∧ state.routines = [] ∧
      state.pendingBotDeletion = none
  keys : (bindingKeys store.database.hooks).Nodup
  cursors : Positioned store.database.hooks
  events : store.database.hooks.events = []
  outbox : store.database.hooks.outbox = []

variable {host} {store : BotStore}

theorem Opened.sound (h : Opened host store) : Sound host store := by
  refine ⟨⟨h.keys, ?_, ?_, h.cursors⟩, ?_⟩
  · rw [h.outbox]
    exact List.forall_mem_nil _
  · rw [h.outbox]
    exact List.forall_mem_nil _
  · intro state hstate
    obtain ⟨hfresh, hroutines, hpending⟩ := h.catalog state hstate
    unfold freshState at hfresh
    rw [hstate] at hfresh
    obtain ⟨⟨⟩, hbytes, hfresh⟩ := bind_ok hfresh
    obtain ⟨⟨⟩, hconfigs, hfresh⟩ := bind_ok hfresh
    obtain ⟨⟨⟩, hrecords, -⟩ := bind_ok hfresh
    have hbytes := rejectIf_ok_iff.mp hbytes
    rw [decide_eq_false_iff_not, Nat.not_lt] at hbytes
    refine ⟨hbytes, (forM_ok_iff _ _).mp hconfigs, validateRecords_ok_iff.mp hrecords, hpending,
      ?_, ?_⟩
    · unfold Held
      rw [hroutines]
      exact List.forall_mem_nil _
    · rw [hroutines]
      exact List.forall_mem_nil _

theorem step_sound (laws : HostLaws host) (h : Sound host store) {operation : RoutineOp host}
    (hadmissible : Admissible host store operation) :
    Sound host (operation.step host store) := by
  unfold RoutineOp.step
  split
  · rename_i after happly
    cases operation with
    | create botId definition workspace cause routineId fileId eventId now =>
      exact createRoutine_sound laws h happly
        (fun binding hbinding => (hadmissible binding hbinding).1)
        (fun binding hbinding => (hadmissible binding hbinding).2)
    | update id definition workspace cause acceptedActionId lockFree fileId eventId now =>
      exact updateRoutine_sound laws h happly hadmissible.1 hadmissible.2
    | setEnabled id enabled cause acceptedActionId eventId now =>
      exact setRoutineEnabled_sound laws h happly hadmissible
    | delete id cause acceptedActionId lockFree eventId now =>
      exact deleteRoutine_sound laws h happly
    | poll now =>
      obtain ⟨poll, polled, hpoll, hsound⟩ := pollDue_sound laws h hadmissible
      have happly : (pollDue host store now).map Prod.snd = .ok after := happly
      rw [hpoll] at happly
      rw [← Except.ok.inj happly]
      exact hsound
  · exact h

theorem run_sound (laws : HostLaws host) (h : Sound host store)
    {operations : List (RoutineOp host)} (hrun : AdmissibleRun host store operations) :
    Sound host (runOps host store operations) := by
  induction operations generalizing store with
  | nil => exact h
  | cons operation rest ih => exact ih (step_sound laws h hrun.1) hrun.2

/-- After every run of admissible operations the next time is found, and the scheduler can be
polled at every time at which the schedules of due timers go on. -/
theorem scheduling_never_wedged (laws : HostLaws host) (hopened : Opened host store)
    {operations : List (RoutineOp host)} (hrun : AdmissibleRun host store operations) :
    (∀ now, ∃ time, nextRoutineAt host (runOps host store operations) now = .ok time) ∧
      ∀ now, Pollable host (runOps host store operations) now →
        ∃ poll after, pollDue host (runOps host store operations) now = .ok (poll, after) := by
  have hsound := run_sound laws hopened.sound hrun
  refine ⟨nextRoutineAt_sound hsound, ?_⟩
  intro now hpoll
  obtain ⟨poll, after, hpolled, -⟩ := pollDue_sound laws hsound hpoll
  exact ⟨poll, after, hpolled⟩

end Runs

section Samples

/-- A library without cron expressions. -/
def plainLibrary : CronLibrary where
  Cron := Unit
  Zone := Unit
  parseCron _ := .error "no expression"
  parseZone _ := .error "no time zone"
  findNext _ _ _ _ := .error "no occurrence"

/-- A host whose digests are the length of the first part and both parts. -/
def plainHost : Host where
  library := plainLibrary
  digest first second := toString first.toList.length ++ ":" ++ (first ++ second)
  parseUuid text :=
    if text.toList.length = 36 ∧ text.toList.all uuidAlphabet.contains = true then .ok text
    else .error "invalid character"
  validateStored _ := .ok ()
  routinesDir := "/routines"
  frameBytes _ := 512

theorem isDigit_plain {c : Char} (h : c.isDigit = true) : isControl c = false := by
  obtain ⟨hlow, hhigh⟩ := isDigit_range h
  unfold isControl
  have hnat : c.toNat = c.val.toNat := rfl
  simp only [Bool.or_eq_false_iff, Bool.and_eq_false_iff, decide_eq_false_iff_not]
  constructor
  · omega
  · left
    omega

theorem toString_short {number digits : Nat} (hpos : 0 < digits) (hlt : number < 10 ^ digits) :
    (toString number).utf8ByteSize ≤ digits := by
  rw [utf8ByteSize_eq, toString_bytes]
  exact (Nat.length_repr_le_iff hpos).mpr hlt

theorem toString_separated {first second : Nat} {rest rest' : String}
    (h : toString first ++ ":" ++ rest = toString second ++ ":" ++ rest') :
    first = second ∧ rest = rest' := by
  have hlist := congrArg String.toList h
  simp only [String.toList_append, List.append_assoc] at hlist
  have htake := congrArg (List.takeWhile Char.isDigit) hlist
  have hdrop := congrArg (List.dropWhile Char.isDigit) hlist
  rw [List.takeWhile_append_of_pos (toString_digits first),
    List.takeWhile_append_of_pos (toString_digits second)] at htake
  rw [List.dropWhile_append_of_pos (toString_digits first),
    List.dropWhile_append_of_pos (toString_digits second)] at hdrop
  have hnumber : toString (first : Int) = toString (second : Int) := by
    refine String.toList_inj.mp (List.append_cancel_right htake)
  have hrest : ':' :: rest.toList = ':' :: rest'.toList := hdrop
  refine ⟨?_, String.toList_inj.mp (List.cons.inj hrest).2⟩
  exact Int.ofNat_inj.mp
    (toString_inj_of_nonneg (Int.natCast_nonneg first) (Int.natCast_nonneg second) hnumber)

theorem plainHost_laws : HostLaws plainHost where
  uuid text h := by
    unfold plainHost at h
    simp only at h
    split at h
    · rename_i hparsed
      refine ⟨hparsed.1, ?_⟩
      intro c hc
      exact List.contains_iff_mem.mp (List.all_eq_true.mp hparsed.2 c hc)
    · cases h
  digest_injective first second first' second' h := by
    obtain ⟨hlength, hparts⟩ := toString_separated h
    have hlist := congrArg String.toList hparts
    rw [String.toList_append, String.toList_append] at hlist
    obtain ⟨hfirst, hsecond⟩ := List.append_inj hlist hlength
    exact ⟨String.toList_inj.mp hfirst, String.toList_inj.mp hsecond⟩
  digest_safe key time hbytes hsafe hlow hhigh := by
    obtain ⟨number, rfl⟩ := Int.eq_ofNat_of_zero_le (by omega : 0 ≤ time)
    have hlength : key.toList.length ≤ key.utf8ByteSize := by
      rw [utf8ByteSize_eq]
      have hle := List.length_le_sum_of_one_le (key.toList.map Char.utf8Size) ?_
      · rwa [List.length_map] at hle
      · intro size hsize
        obtain ⟨c, -, rfl⟩ := List.mem_map.mp hsize
        exact Char.utf8Size_pos c
    have hcount := @toString_short key.toList.length 3 (by omega) (by omega)
    unfold clockMax at hhigh
    have htime := @toString_short number 13 (by omega) (by omega)
    have hnumber : toString (number : Int) = toString number := rfl
    have hcolon : ":".utf8ByteSize = 1 := rfl
    constructor
    · show (toString key.toList.length ++ ":" ++ (key ++ toString (number : Int))).utf8ByteSize ≤ _
      simp only [String.utf8ByteSize_append, hnumber, hcolon]
      omega
    · have hplain : ∀ number : Nat, (toString number).toList.any isControl = false := by
        intro number
        refine List.any_eq_false.mpr ?_
        intro c hc
        rw [isDigit_plain (toString_digits number c hc)]
        exact Bool.false_ne_true
      have hseparator : ":".toList.any isControl = false := by decide
      show (toString key.toList.length ++ ":" ++ (key ++ toString (number : Int))).toList.any _ = _
      simp only [String.toList_append, List.any_append, hnumber, hplain, hsafe, hseparator,
        Bool.or_self]
  routines_absolute := by decide

def helper : StoredBot where
  id := "00000000-0000-4000-8000-000000000001"
  handle := "helper"
  name := "Helper"
  description := "Helps"
  revision := 1
  config := .null

def helperStore : BotStore where
  database := { catalog := some { bots := [helper] } }

theorem helperStore_opened : Opened plainHost helperStore where
  catalog state h := by
    cases h
    exact ⟨rfl, rfl, rfl⟩
  keys := List.nodup_nil
  cursors := List.forall_mem_nil _
  events := rfl
  outbox := rfl

/-- An identifier by its last digit. -/
def minted (digit : Nat) : Uuid plainHost :=
  ⟨"00000000-0000-4000-8000-00000000000" ++ toString (digit % 10), by
    have hdigits : ∀ last : Fin 10, plainHost.parseUuid
        ("00000000-0000-4000-8000-00000000000" ++ toString last.val) =
        .ok ("00000000-0000-4000-8000-00000000000" ++ toString last.val) := by
      decide +kernel
    exact hdigits ⟨digit % 10, Nat.mod_lt digit (by omega)⟩⟩

def work : CanonicalWorkspace := ⟨"/work", rfl⟩

/-- A routine that starts once at a time. -/
def report (id : String) (time : Int) : RoutineDefinition where
  workspace := "/work"
  instructions := "Report"
  bindings := [⟨id, .schedule { kind := .once, atTime := some time } none, .start⟩]

def created (id : String) : RoutineOp plainHost :=
  .create helper.id (report id 100) work none (minted 2) (minted 3) (minted 4) 50

def updated (definition : RoutineDefinition) (fileId eventId : Uuid plainHost) (now : Int) :
    RoutineOp plainHost :=
  .update (minted 2).1 definition work none none true fileId eventId now

/-- The timer is removed and added again. -/
def readded : List (RoutineOp plainHost) :=
  [created "timer", .poll 200, updated ⟨"/work", "Report", []⟩ (minted 5) (minted 6) 210,
    updated (report "timer" 100) (minted 7) (minted 8) 220]

/-- A routine that starts in long intervals. -/
def rarely : RoutineOp plainHost :=
  .create helper.id ⟨"/work", "Report",
    [⟨"timer", .schedule { kind := .interval, everySeconds := some 8210266876800 } none, .start⟩]⟩
    work none (minted 2) (minted 3) (minted 4) 50

def reported : StoredRoutine where
  id := (minted 2).1
  botId := helper.id
  workspace := "/work"
  instructions := newInstructionPath plainHost (minted 3).1
  bindings := [⟨⟨"timer", .schedule { kind := .once, atTime := some 100 } none, .start⟩, some 100,
    none⟩]
  enabled := true

theorem created_catalog : (runOps plainHost helperStore [created "timer"]).database.catalog =
    some { bots := [helper], routines := [reported] } := rfl

theorem created_admissible : AdmissibleRun plainHost helperStore [created "timer"] := by
  refine ⟨?_, trivial⟩
  intro binding hbinding
  rw [List.mem_singleton.mp hbinding]
  refine ⟨fun _ _ _ => rfl, ?_⟩
  intro schedule endsAt hon next hnext
  cases hon
  cases hnext
  refine ⟨by decide, ?_⟩
  rintro time ⟨-, event, hevent, -⟩
  exact absurd hevent List.not_mem_nil

/-- Its timer is polled after it is due. -/
theorem created_timer_polled : ∃ poll after,
    pollDue plainHost (runOps plainHost helperStore [created "timer"]) 200 = .ok (poll, after) := by
  refine (scheduling_never_wedged plainHost_laws helperStore_opened
    created_admissible).2 200 ⟨by decide, ?_, ?_⟩
  · intro state hstate
    rw [created_catalog] at hstate
    cases hstate
    unfold Roomy
    decide
  · intro state hstate routine hroutine henabled stored hstored schedule endsAt hon next hnext hle
    rw [created_catalog] at hstate
    cases hstate
    rw [List.mem_singleton.mp hroutine] at hstored
    rw [List.mem_singleton.mp hstored] at hon
    cases hon
    trivial

def failure {α : Type} : Except Error α → Option Error
  | .ok _ => none
  | .error error => some error

/-- Accepted routines with a blank timer, a timer that is added again or a long interval stop the
scheduler. -/
theorem accepted_routines_wedge : Opened plainHost helperStore ∧
    (InClock 60 ∧ InClock 200 ∧ InClock 300) ∧
    failure (pollDue plainHost (runOps plainHost helperStore [created " "]) 200) =
      some (.config "hook identity must contain 1 to 256 safe bytes") ∧
    failure (pollDue plainHost (runOps plainHost helperStore readded) 300) =
      some (.config "hook event ID has conflicting content") ∧
    failure (nextRoutineAt plainHost (runOps plainHost helperStore [rarely]) 60) =
      some (.config "routine timestamp is invalid") :=
  ⟨helperStore_opened, by decide, by decide +kernel⟩

end Samples

end MobiusAgent.RoutineRuns
