import MobiusAgent.HookRecords

/-!
# The timer of a routine binding

`StoredRoutineBinding` of `bots.rs`: how a schedule is checked, when its next
occurrence is due, and what one poll of it does. The cron library and the
clock of the time zones are outside; they are a parameter that parses
expressions and zones and finds occurrences. Times are Unix seconds, whose
64-bit arithmetic is checked or saturating as in the source.
-/

namespace MobiusAgent.RoutineSchedules

open ProtocolEvents CheckpointValidation HookRecords

/-- The cron library and the time zone database. -/
structure CronLibrary where
  Cron : Type
  Zone : Type
  /-- `Cron::from_str`. -/
  parseCron : String → Except String Cron
  /-- `str::parse` to a time zone. -/
  parseZone : String → Except String Zone
  /-- `Cron::find_next_occurrence` from an instant, inclusive or not. -/
  findNext : Cron → Zone → Int → Bool → Except String Int

/-- The earliest time of the clock. -/
def clockMin : Int := -8334601228800

/-- The latest time of the clock. -/
def clockMax : Int := 8210266876799

/-- A time that the clock can show. -/
def InClock (now : Int) : Prop := clockMin ≤ now ∧ now ≤ clockMax

/-- Whether the clock can show a time. -/
instance (now : Int) : Decidable (InClock now) := inferInstanceAs (Decidable (_ ∧ _))

/-- `div_euclid(60)`. -/
def minuteOf (now : Int) : Int := now / 60

/-- A value brought into the range of an `i64`. -/
def saturate (value : Int) : Int := max i64Min (min i64Max value)

/-- The latest time of a schedule. -/
def maxScheduleTimestamp : Int := 253402300799

section Library

variable (library : CronLibrary)

/-- The loop of `next_cron_occurrence` after its first round. -/
def advanceCursor (cron : library.Cron) (zone : library.Zone) (minimum : Int)
    (currentMinute : Bool) (previous : Int) : Except Error Int :=
  match library.findNext cron zone previous false with
  | .error error => .error (.config ("invalid persisted cron schedule: " ++ error))
  | .ok timestamp =>
    if minimum < timestamp ∨ (currentMinute = true ∧ timestamp = minimum) then .ok timestamp
    else if timestamp ≤ previous then
      .error (.config "persisted cron schedule did not advance its timestamp")
    else advanceCursor cron zone minimum currentMinute timestamp
termination_by (minimum - previous).toNat
decreasing_by
  simp only [not_or, not_lt, not_le] at *
  omega

def nextCronOccurrence (schedule : RoutineSchedule) (now : Int) (currentMinute : Bool) :
    Except Error Int :=
  match schedule.expression with
  | none => .error (.config "cron schedule is missing its expression")
  | some expression =>
    match library.parseCron expression with
    | .error error => .error (.config ("invalid persisted cron schedule: " ++ error))
    | .ok cron =>
      match schedule.timeZone with
      | none => .error (.config "cron schedule is missing its time zone")
      | some timeZone =>
        match library.parseZone timeZone with
        | .error error => .error (.config ("invalid persisted cron time zone: " ++ error))
        | .ok zone =>
          if InClock now then
            let minimum := minuteOf now * 60
            match library.findNext cron zone minimum currentMinute with
            | .error error => .error (.config ("invalid persisted cron schedule: " ++ error))
            | .ok timestamp =>
              if minimum < timestamp ∨ (currentMinute = true ∧ timestamp = minimum) then
                .ok timestamp
              else advanceCursor library cron zone minimum currentMinute timestamp
          else .error (.config "cron timestamp is outside the supported range")

def isCronCharacter (c : Char) : Bool :=
  c.isAlphanum || c == '*' || c == '/' || c == ',' || c == '-'

/-- `split_ascii_whitespace`. -/
def asciiFields (expression : String) : List (List Char) :=
  (expression.toList.splitOnP fun c =>
    c == ' ' || c == '\t' || c == '\n' || c == '\r' || c.toNat == 12).filter (!·.isEmpty)

def validateSchedule (schedule : RoutineSchedule) (endsAt : Option Int)
    (timestampLimit : Option Int) : Check := do
  rejectIf ((schedule.atTime.any fun time =>
        timestampLimit.any fun limit => decide (¬ (1 ≤ time ∧ time ≤ limit))) ||
      endsAt.any fun time => decide (¬ (1 ≤ time ∧ time ≤ timestampLimit.getD i64Max)))
    (.config ("schedule timestamps must be Unix epoch seconds within the supported range, " ++
      "not milliseconds"))
  let populated := schedule.atTime.isSome.toNat + schedule.everySeconds.isSome.toNat +
    schedule.expression.isSome.toNat
  let mismatch : Error := .config "schedule fields do not match the selected schedule kind"
  match schedule.kind with
  | .once => do
    rejectIf (!(populated == 1 && schedule.atTime.isSome && schedule.timeZone.isNone)) mismatch
    rejectIf (endsAt.any fun end_ => schedule.atTime.any fun time => decide (end_ < time))
      (.config "a once schedule cannot end before it runs")
  | .interval => do
    rejectIf (!(populated == 1 && schedule.everySeconds.isSome && schedule.timeZone.isNone))
      mismatch
    rejectIf (schedule.everySeconds.getD 0 < 60) (.config "interval must be at least 60 seconds")
  | .cron => do
    rejectIf (!(populated == 1 && schedule.expression.isSome && schedule.timeZone.isSome))
      mismatch
    match library.parseZone (schedule.timeZone.getD "") with
    | .error error => .error (.config ("invalid cron time zone: " ++ error))
    | .ok _ => do
      let fields := asciiFields (schedule.expression.getD "")
      rejectIf (fields.length != 5 || fields.any fun field => !field.all isCronCharacter)
        (.config "schedule must be a five-field cron expression")
      match library.parseCron (schedule.expression.getD "") with
      | .error error => .error (.config ("invalid cron schedule: " ++ error))
      | .ok _ => .ok ()

end Library

/-- A routine binding with the state of its timer. -/
structure StoredRoutineBinding (Action : Type) where
  definition : HookBinding Action
  nextDueAt : Option Int
  lastMatchedMinute : Option Int
  deriving DecidableEq

section Binding

variable (library : CronLibrary) {Action : Type}

/-- `i64::try_from` of an interval. -/
def intervalSeconds (everySeconds : Option Nat) (missing large : String) : Except Error Int :=
  match everySeconds with
  | none => .error (.config missing)
  | some every =>
    if (every : Int) ≤ i64Max then .ok every
    else .error (.config (large ++ intConversionError))

/-- The first occurrence after a reset. -/
def firstDue (schedule : RoutineSchedule) (now : Int) (resume : Bool) :
    Except Error (Option Int) :=
  match schedule.kind with
  | .once => .ok (schedule.atTime.filter fun time => !resume || decide (now < time))
  | .interval => do
    let every ← intervalSeconds schedule.everySeconds "interval schedule is missing its interval"
      "interval schedule is too large: "
    match checkedAddInt now every with
    | some next => .ok (some next)
    | none => .error (.config "interval schedule overflows its timestamp")
  | .cron => do
    let next ← nextCronOccurrence library schedule now (!resume)
    return some next

def StoredRoutineBinding.reset (binding : StoredRoutineBinding Action) (now : Int)
    (resume : Bool) : Except Error (StoredRoutineBinding Action) :=
  match binding.definition.on with
  | .schedule schedule _ => do
    let next ← firstDue library schedule now resume
    return { binding with nextDueAt := next, lastMatchedMinute := none }
  | .event .. => .ok { binding with nextDueAt := none, lastMatchedMinute := none }

def StoredRoutineBinding.new (definition : HookBinding Action) (now : Int) (resume : Bool) :
    Except Error (StoredRoutineBinding Action) :=
  StoredRoutineBinding.reset library ⟨definition, none, none⟩ now resume

def StoredRoutineBinding.nextAt (binding : StoredRoutineBinding Action) (now : Int) :
    Option Int :=
  match binding.definition.on with
  | .event .. => none
  | .schedule schedule endsAt =>
    let next := match binding.nextDueAt, schedule.kind with
      | some next, _ => some next
      | none, .cron => (nextCronOccurrence library schedule now false).toOption
      | none, _ => none
    next.filter fun next => endsAt.all fun end_ => decide (next ≤ end_)

/-- The next time on the grid of an interval after a firing. -/
def advanceInterval (schedule : RoutineSchedule) (nextDueAt : Option Int) (now : Int) :
    Except Error Int := do
  let every ← intervalSeconds schedule.everySeconds "interval is missing" "interval is too large: "
  match nextDueAt with
  | none => .error (.config "interval has no next occurrence")
  | some next =>
    let missed := saturate ((saturate (now - next)).tdiv every + 1)
    match checkedAddInt next (saturate (every * missed)) with
    | some later => .ok later
    | none => .error (.config "interval timestamp overflows")

/-- The next occurrence after a firing. -/
def laterDue (schedule : RoutineSchedule) (nextDueAt : Option Int) (now : Int) :
    Except Error (Option Int) :=
  match schedule.kind with
  | .once => .ok none
  | .cron => do
    let next ← nextCronOccurrence library schedule now false
    return some next
  | .interval => do
    let next ← advanceInterval schedule nextDueAt now
    return some next

def StoredRoutineBinding.advance (binding : StoredRoutineBinding Action) (now : Int) :
    Except Error (StoredRoutineBinding Action) :=
  match binding.definition.on with
  | .event .. => .ok binding
  | .schedule schedule _ => do
    let next ← laterDue library schedule binding.nextDueAt now
    return { binding with nextDueAt := next, lastMatchedMinute := some (minuteOf now) }

/-- A cron binding whose next occurrence lies in a minute that is over. -/
def StoredRoutineBinding.isStale (binding : StoredRoutineBinding Action)
    (schedule : RoutineSchedule) (now : Int) : Bool :=
  decide (schedule.kind = .cron) &&
    binding.nextDueAt.all fun next => decide (minuteOf next < minuteOf now)

/-- A stale cron binding is due in the current minute or later. -/
def StoredRoutineBinding.refresh (binding : StoredRoutineBinding Action)
    (schedule : RoutineSchedule) (now : Int) : Except Error (StoredRoutineBinding Action) :=
  if binding.isStale schedule now then do
    let next ← nextCronOccurrence library schedule now true
    return { binding with nextDueAt := some next }
  else .ok binding

/-- What `poll_due` does with one binding: its timer afterwards, whether it
changed, and the occurrence that became due. -/
def StoredRoutineBinding.poll (binding : StoredRoutineBinding Action) (now : Int) :
    Except Error (StoredRoutineBinding Action × Bool × Option Int) :=
  match binding.definition.on with
  | .event .. => .ok (binding, false, none)
  | .schedule schedule _ => do
    let refreshed ← binding.refresh library schedule now
    match refreshed.nextAt library now with
    | none => return (refreshed, binding.isStale schedule now, none)
    | some time =>
      if now < time ∨ refreshed.lastMatchedMinute = some (minuteOf now) then
        return (refreshed, binding.isStale schedule now, none)
      else do
        let advanced ← refreshed.advance library now
        return (advanced, true, some time)

end Binding

section Arithmetic

theorem saturate_eq {value : Int} (hmin : i64Min ≤ value) (hmax : value ≤ i64Max) :
    saturate value = value := by
  unfold saturate
  omega

theorem checkedAddInt_of_le {a b : Int} (hmin : i64Min ≤ a + b) (hmax : a + b ≤ i64Max) :
    checkedAddInt a b = some (a + b) :=
  if_pos ⟨hmin, hmax⟩

theorem minuteOf_le (now : Int) : minuteOf now * 60 ≤ now ∧ now < minuteOf now * 60 + 60 := by
  unfold minuteOf
  omega

theorem minuteOf_mono {earlier later : Int} (h : earlier ≤ later) :
    minuteOf earlier ≤ minuteOf later := by
  unfold minuteOf
  omega

theorem minuteOf_whole {time : Int} (h : time % 60 = 0) : minuteOf time * 60 = time := by
  unfold minuteOf
  omega

theorem inClock_minute {now : Int} (h : InClock now) : InClock (minuteOf now * 60) := by
  unfold InClock clockMin clockMax minuteOf at *
  omega

/-- An interval accepted by validation advances without saturation or overflow. -/
theorem advanceInterval_eq {schedule : RoutineSchedule} {every : Nat} {next now : Int}
    (hevery : schedule.everySeconds = some every) (hpositive : 60 ≤ every)
    (hlow : clockMin < next) (hdue : next ≤ now) (hnow : now ≤ clockMax)
    (hfit : (every : Int) ≤ clockMax - clockMin) :
    advanceInterval schedule (some next) now =
      .ok (next + every * ((now - next) / every + 1)) := by
  have hpos : (0 : Int) < every := by omega
  have hdiff : saturate (now - next) = now - next :=
    saturate_eq (by unfold i64Min clockMin clockMax at *; omega)
      (by unfold i64Max clockMin clockMax at *; omega)
  have hquotient : (now - next).tdiv every = (now - next) / every :=
    Int.tdiv_eq_ediv_of_nonneg (by omega)
  have hnonneg : 0 ≤ (now - next) / every := Int.ediv_nonneg (by omega) (by omega)
  have hbound : every * ((now - next) / every) ≤ now - next := Int.mul_ediv_self_le (by omega)
  have hsmall : (now - next) / every ≤ now - next := Int.ediv_le_self _ (by omega)
  have hcount : saturate ((now - next) / every + 1) = (now - next) / every + 1 :=
    saturate_eq (by unfold i64Min clockMin clockMax at *; omega)
      (by unfold i64Max clockMin clockMax at *; omega)
  have hproduct : (every : Int) * ((now - next) / every + 1) =
      every * ((now - next) / every) + every := by ring
  have hgrid : saturate ((every : Int) * ((now - next) / every + 1)) =
      every * ((now - next) / every + 1) := by
    rw [hproduct]
    have hge : (0 : Int) ≤ every * ((now - next) / every) := Int.mul_nonneg (by omega) hnonneg
    exact saturate_eq (by unfold i64Min clockMin clockMax at *; omega)
      (by unfold i64Max clockMin clockMax at *; omega)
  have hsum : checkedAddInt next (every * ((now - next) / every + 1)) =
      some (next + every * ((now - next) / every + 1)) := by
    rw [hproduct]
    have hge : (0 : Int) ≤ every * ((now - next) / every) := Int.mul_nonneg (by omega) hnonneg
    exact checkedAddInt_of_le (by unfold i64Min clockMin clockMax at *; omega)
      (by unfold i64Max clockMin clockMax at *; omega)
  have hinteger : (every : Int) ≤ i64Max := by
    unfold i64Max clockMin clockMax at *
    omega
  unfold advanceInterval intervalSeconds
  rw [hevery]
  dsimp only
  rw [if_pos hinteger]
  dsimp only [bind, Except.bind]
  rw [hdiff, hquotient, hcount, hgrid, hsum]

end Arithmetic

section Occurrences

/-- A time after a cursor, which itself counts if the cursor is inclusive. -/
def Past (inclusive : Bool) (cursor time : Int) : Prop :=
  cursor < time ∨ (inclusive = true ∧ time = cursor)

structure FirstAfter (occurs : Int → Prop) (cursor : Int) (inclusive : Bool) (next : Int) :
    Prop where
  found : occurs next
  past : Past inclusive cursor next
  least : ∀ time, occurs time → Past inclusive cursor time → next ≤ time

/-- The library finds the occurrences of a cron schedule: at every instant of
the clock it returns the next one, and occurrences are whole minutes. -/
structure Finds (library : CronLibrary) (schedule : RoutineSchedule) (occurs : Int → Prop) :
    Prop where
  /-- The expression and the zone are parsed, and the next occurrence is found. -/
  next : ∃ expression cron timeZone zone, schedule.expression = some expression ∧
    library.parseCron expression = .ok cron ∧ schedule.timeZone = some timeZone ∧
    library.parseZone timeZone = .ok zone ∧ ∀ cursor inclusive, InClock cursor →
      ∃ time, library.findNext cron zone cursor inclusive = .ok time ∧
        FirstAfter occurs cursor inclusive time
  whole : ∀ time, occurs time → time % 60 = 0

variable {library : CronLibrary} {schedule : RoutineSchedule} {occurs : Int → Prop}

theorem nextCronOccurrence_finds (hfinds : Finds library schedule occurs) {now : Int}
    (hclock : InClock now) (currentMinute : Bool) :
    ∃ next, nextCronOccurrence library schedule now currentMinute = .ok next ∧
      FirstAfter occurs (minuteOf now * 60) currentMinute next := by
  obtain ⟨expression, cron, timeZone, zone, hexpression, hcron, htimeZone, hzone, hnext⟩ :=
    hfinds.next
  obtain ⟨next, hfound, hfirst⟩ :=
    hnext (minuteOf now * 60) currentMinute (inClock_minute hclock)
  refine ⟨next, ?_, hfirst⟩
  unfold nextCronOccurrence
  rw [hexpression]
  dsimp only
  rw [hcron]
  dsimp only
  rw [htimeZone]
  dsimp only
  rw [hzone]
  dsimp only
  rw [if_pos hclock, hfound]
  exact if_pos hfirst.past

end Occurrences

section Timers

variable (library : CronLibrary) {Action : Type}

/-- One occurrence of a binding, with the time of the poll that found it due. -/
structure Occurrence where
  time : Int
  firedAt : Int
  deriving DecidableEq

/-- What happens to the routine of a binding. -/
inductive TimerOp where
  | poll (now : Int)
  | pause (now : Int)
  | resume (now : Int)
  deriving DecidableEq

/-- The time of an operation. -/
def TimerOp.now : TimerOp → Int
  | .poll now => now
  | .pause now => now
  | .resume now => now

/-- A binding, whether its routine is enabled, and what was seen of it: its
last reset, whether it was a resume, and its occurrences in order. -/
structure Watch (Action : Type) where
  binding : StoredRoutineBinding Action
  enabled : Bool
  /-- The time of the last reset. -/
  since : Int
  /-- Whether a resume was the last reset. -/
  resumed : Bool
  fired : List Occurrence

/-- One operation; an operation that fails changes nothing. -/
def Watch.step (watch : Watch Action) : TimerOp → Watch Action
  | .poll now =>
    if watch.enabled then
      match watch.binding.poll library now with
      | .ok (binding, _, time) => { watch with
          binding := binding
          fired := watch.fired ++ time.toList.map fun time => ⟨time, now⟩ }
      | .error _ => watch
    else watch
  | .pause _ => { watch with enabled := false }
  | .resume now =>
    if watch.enabled then watch
    else match watch.binding.reset library now true with
      | .ok binding =>
        { watch with binding := binding, enabled := true, since := now, resumed := true }
      | .error _ => watch

def observe (binding : StoredRoutineBinding Action) (created : Int) (operations : List TimerOp) :
    Watch Action :=
  operations.foldl (Watch.step library) ⟨binding, true, created, false, []⟩

/-- The operations follow a clock that never goes back. -/
def Clocked (last : Int) : List TimerOp → Prop
  | [] => True
  | operation :: rest =>
    last ≤ operation.now ∧ InClock operation.now ∧ Clocked operation.now rest

def lastTime (created : Int) (operations : List TimerOp) : Int :=
  operations.foldl (fun _ operation => operation.now) created

variable (schedule : RoutineSchedule) (endsAt : Option Int) (occurs : Int → Prop)

/-- The state of a timer by the kind of its schedule. -/
def Timed (watch : Watch Action) (now : Int) : Prop :=
  match schedule.kind with
  | .once => ∃ time, schedule.atTime = some time ∧ (∀ end_ ∈ endsAt, time ≤ end_) ∧
      ((watch.binding.nextDueAt = some time ∧ watch.binding.lastMatchedMinute = none ∧
          watch.fired = []) ∨
        (watch.binding.nextDueAt = none ∧ time ≤ now ∧
          ((∃ firedAt, watch.fired = [⟨time, firedAt⟩]) ∨
            (watch.fired = [] ∧ watch.resumed = true ∧ time ≤ watch.since))))
  | .interval => ∃ every : Nat, ∃ k : Nat, schedule.everySeconds = some every ∧ 60 ≤ every ∧
      1 ≤ k ∧ watch.binding.nextDueAt = some (watch.since + every * k)
  | .cron => ∃ next cursor inclusive, watch.binding.nextDueAt = some next ∧
      FirstAfter occurs cursor inclusive next ∧ cursor % 60 = 0 ∧ cursor ≤ now ∧
      (∀ minute, watch.binding.lastMatchedMinute = some minute →
        ∃ occurrence ∈ watch.fired, occurrence.time = minute * 60) ∧
      (inclusive = false → watch.binding.lastMatchedMinute = some (minuteOf cursor) ∨
        (watch.resumed = true ∧ minuteOf watch.since * 60 = cursor))

/-- What holds of a binding at some time of every run. -/
structure Sound (watch : Watch Action) (now : Int) : Prop where
  on : watch.binding.definition.on = .schedule schedule endsAt
  since_clock : InClock watch.since
  since_le : watch.since ≤ now
  /-- Occurrences are dated at most at their poll, which is past. -/
  dated : ∀ occurrence ∈ watch.fired, occurrence.time ≤ occurrence.firedAt ∧
    occurrence.firedAt ≤ now
  increasing : watch.fired.Pairwise fun earlier later => earlier.time < later.time
  /-- The next one is later than all of them, and than a resume. -/
  due : ∀ next, watch.binding.nextDueAt = some next →
    (∀ occurrence ∈ watch.fired, occurrence.time < next) ∧
      (watch.resumed = true → watch.since < next)
  matched : ∀ minute, watch.binding.lastMatchedMinute = some minute →
    ∃ occurrence ∈ watch.fired, minuteOf occurrence.firedAt = minute
  timed : Timed schedule endsAt occurs watch now

end Timers

section Polling

variable {library : CronLibrary} {Action : Type} {binding refreshed : StoredRoutineBinding Action}
  {schedule : RoutineSchedule} {endsAt : Option Int} {occurs : Int → Prop} {now : Int}

theorem refresh_definition (h : binding.refresh library schedule now = .ok refreshed) :
    refreshed.definition = binding.definition ∧
      refreshed.lastMatchedMinute = binding.lastMatchedMinute := by
  unfold StoredRoutineBinding.refresh at h
  split at h
  · obtain ⟨next, -, h⟩ := bind_ok h
    rw [← Except.ok.inj h]
    exact ⟨rfl, rfl⟩
  · rw [← Except.ok.inj h]
    exact ⟨rfl, rfl⟩

theorem refresh_of_ne (hkind : schedule.kind ≠ .cron) :
    binding.refresh library schedule now = .ok binding := by
  unfold StoredRoutineBinding.refresh StoredRoutineBinding.isStale
  rw [decide_eq_false hkind, Bool.false_and]
  rfl

theorem poll_idle (hon : binding.definition.on = .schedule schedule endsAt)
    (hrefresh : binding.refresh library schedule now = .ok refreshed)
    (hidle : ∀ time, refreshed.nextAt library now = some time →
      now < time ∨ refreshed.lastMatchedMinute = some (minuteOf now)) :
    binding.poll library now = .ok (refreshed, binding.isStale schedule now, none) := by
  unfold StoredRoutineBinding.poll
  rw [hon]
  dsimp only
  rw [hrefresh]
  dsimp only [bind, Except.bind]
  cases hnext : refreshed.nextAt library now with
  | none => rfl
  | some time =>
    dsimp only
    rw [if_pos (hidle time hnext)]
    rfl

theorem poll_fires {time : Int} {next : Option Int}
    (hon : binding.definition.on = .schedule schedule endsAt)
    (hrefresh : binding.refresh library schedule now = .ok refreshed)
    (hnext : refreshed.nextAt library now = some time) (hdue : time ≤ now)
    (hfresh : refreshed.lastMatchedMinute ≠ some (minuteOf now))
    (hlater : laterDue library schedule refreshed.nextDueAt now = .ok next) :
    binding.poll library now = .ok ({ refreshed with
      nextDueAt := next
      lastMatchedMinute := some (minuteOf now) }, true, some time) := by
  have hrefreshed : refreshed.definition.on = .schedule schedule endsAt := by
    rw [(refresh_definition hrefresh).1, hon]
  unfold StoredRoutineBinding.poll
  rw [hon]
  dsimp only
  rw [hrefresh]
  dsimp only [bind, Except.bind]
  rw [hnext]
  dsimp only
  rw [if_neg (not_or.mpr ⟨not_lt.mpr hdue, hfresh⟩), StoredRoutineBinding.advance, hrefreshed]
  dsimp only
  rw [hlater]
  rfl

theorem nextAt_of_due {next : Int} (hon : binding.definition.on = .schedule schedule endsAt)
    (hdue : binding.nextDueAt = some next) :
    binding.nextAt library now =
      if ∀ end_ ∈ endsAt, next ≤ end_ then some next else none := by
  unfold StoredRoutineBinding.nextAt
  rw [hon]
  dsimp only
  rw [hdue]
  dsimp only
  cases endsAt with
  | none => simp
  | some end_ => simp [Option.filter_some]

end Polling

section Steps

variable {library : CronLibrary} {Action : Type} {watch : Watch Action}
  {schedule : RoutineSchedule} {endsAt : Option Int} {occurs : Int → Prop} {last now : Int}

theorem Sound.later (h : Sound schedule endsAt occurs watch last) (hle : last ≤ now) :
    Sound schedule endsAt occurs watch now := by
  refine ⟨h.on, h.since_clock, le_trans h.since_le hle, ?_, h.increasing, h.due, h.matched, ?_⟩
  · intro occurrence hoccurrence
    obtain ⟨hdated, hfired⟩ := h.dated occurrence hoccurrence
    exact ⟨hdated, le_trans hfired hle⟩
  · have htimed := h.timed
    unfold Timed at htimed ⊢
    cases hkind : schedule.kind with
    | once =>
      rw [hkind] at htimed
      obtain ⟨time, htime, hends, hstate⟩ := htimed
      refine ⟨time, htime, hends, ?_⟩
      cases hstate with
      | inl hpending => exact .inl hpending
      | inr hdone => exact .inr ⟨hdone.1, le_trans hdone.2.1 hle, hdone.2.2⟩
    | interval =>
      rw [hkind] at htimed
      exact htimed
    | cron =>
      rw [hkind] at htimed
      obtain ⟨next, cursor, inclusive, hnext, hfirst, hwhole, hcursor, hrest⟩ := htimed
      exact ⟨next, cursor, inclusive, hnext, hfirst, hwhole, le_trans hcursor hle, hrest⟩

/-- A watch whose due occurrence fired. -/
def Watch.fire (watch : Watch Action) (now time : Int) (next : Option Int) : Watch Action :=
  { watch with
    binding := { watch.binding with
      nextDueAt := next
      lastMatchedMinute := some (minuteOf now) }
    fired := watch.fired ++ [⟨time, now⟩] }

theorem Sound.fire (h : Sound schedule endsAt occurs watch now) {time : Int} {next : Option Int}
    (hnext : watch.binding.nextDueAt = some time) (hdue : time ≤ now)
    (hlater : ∀ later, next = some later → time < later)
    (htimed : Timed schedule endsAt occurs (watch.fire now time next) now) :
    Sound schedule endsAt occurs (watch.fire now time next) now := by
  obtain ⟨hbefore, hsince⟩ := h.due time hnext
  refine ⟨h.on, h.since_clock, h.since_le, ?_, ?_, ?_, ?_, htimed⟩
  · intro occurrence hoccurrence
    rcases List.mem_append.mp hoccurrence with hearlier | hnew
    · exact h.dated occurrence hearlier
    · rw [List.mem_singleton.mp hnew]
      exact ⟨hdue, le_refl now⟩
  · refine List.pairwise_append.mpr ⟨h.increasing, List.pairwise_singleton _ _, ?_⟩
    intro earlier hearlier later hnew
    rw [List.mem_singleton.mp hnew]
    exact hbefore earlier hearlier
  · intro later hnextDue
    have hlate := hlater later hnextDue
    constructor
    · intro occurrence hoccurrence
      rcases List.mem_append.mp hoccurrence with hearlier | hnew
      · exact lt_trans (hbefore occurrence hearlier) hlate
      · rw [List.mem_singleton.mp hnew]
        exact hlate
    · intro hresumed
      exact lt_trans (hsince hresumed) hlate
  · intro minute hminute
    exact ⟨⟨time, now⟩, List.mem_append_right _ (List.mem_singleton_self _),
      Option.some.inj hminute⟩

theorem step_poll_idle {refreshed : StoredRoutineBinding Action} {changed : Bool}
    (henabled : watch.enabled = true)
    (hpoll : watch.binding.poll library now = .ok (refreshed, changed, none)) :
    watch.step library (.poll now) = { watch with binding := refreshed } := by
  rw [Watch.step, if_pos henabled, hpoll]
  simp only [Option.toList_none, List.map_nil, List.append_nil]

theorem step_poll_fires {advanced : StoredRoutineBinding Action} {changed : Bool} {time : Int}
    (henabled : watch.enabled = true)
    (hpoll : watch.binding.poll library now = .ok (advanced, changed, some time)) :
    watch.step library (.poll now) =
      { watch with binding := advanced, fired := watch.fired ++ [⟨time, now⟩] } := by
  rw [Watch.step, if_pos henabled, hpoll]
  rfl

/-- What a poll of an enabled binding does. -/
structure Polled (library : CronLibrary) (schedule : RoutineSchedule) (endsAt : Option Int)
    (occurs : Int → Prop) (watch : Watch Action) (now : Int) : Prop where
  succeeds : ∃ result, watch.binding.poll library now = .ok result
  sound : Sound schedule endsAt occurs (watch.step library (.poll now)) now
  /-- It leaves the occurrences as they are or appends one that is not dated before a resume. -/
  fired : (watch.step library (.poll now)).fired = watch.fired ∨
    ∃ time, (watch.step library (.poll now)).fired = watch.fired ++ [⟨time, now⟩] ∧
      (watch.resumed = true → watch.since < time)

theorem Sound.poll_once (h : Sound schedule endsAt occurs watch now)
    (hkind : schedule.kind = .once) (henabled : watch.enabled = true) :
    Polled library schedule endsAt occurs watch now ∧
    ∀ time, schedule.atTime = some time → time ≤ now →
      ¬ (watch.resumed = true ∧ time ≤ watch.since) →
      ∃ firedAt, (watch.step library (.poll now)).fired = [⟨time, firedAt⟩] := by
  have hrefresh : watch.binding.refresh library schedule now = .ok watch.binding :=
    refresh_of_ne (by rw [hkind]; exact RoutineScheduleKind.noConfusion)
  have htimed := h.timed
  unfold Timed at htimed
  rw [hkind] at htimed
  obtain ⟨time, htime, hends, hstate⟩ := htimed
  have hself : { watch with binding := watch.binding } = watch := rfl
  cases hstate with
  | inr hdone =>
    obtain ⟨hnone, hpast, hfired⟩ := hdone
    have hpoll : watch.binding.poll library now =
        .ok (watch.binding, watch.binding.isStale schedule now, none) := by
      refine poll_idle h.on hrefresh ?_
      intro next hnext
      unfold StoredRoutineBinding.nextAt at hnext
      rw [h.on] at hnext
      dsimp only at hnext
      rw [hnone, hkind] at hnext
      cases hnext
    have hstep := step_poll_idle henabled hpoll
    rw [hself] at hstep
    refine ⟨⟨⟨_, hpoll⟩, by rw [hstep]; exact h, .inl (by rw [hstep])⟩, ?_⟩
    intro other hother _ hresumed
    have hsame : other = time := Option.some.inj (hother.symm.trans htime)
    rw [hstep, hsame]
    rw [hsame] at hresumed
    cases hfired with
    | inl hfired => exact hfired
    | inr hlost => exact absurd ⟨hlost.2.1, hlost.2.2⟩ hresumed
  | inl hpending =>
    obtain ⟨hnext, hmatched, hfired⟩ := hpending
    have hat : watch.binding.nextAt library now = some time := by
      rw [nextAt_of_due h.on hnext, if_pos hends]
    by_cases hdue : time ≤ now
    · have hpoll := poll_fires h.on hrefresh hat hdue (by rw [hmatched]; exact (Option.some_ne_none _).symm)
        (show laterDue library schedule watch.binding.nextDueAt now = .ok none by
          rw [laterDue, hkind])
      have hstep := step_poll_fires henabled hpoll
      have hsound : Sound schedule endsAt occurs (watch.fire now time none) now := by
        refine h.fire hnext hdue (fun later hlater => by cases hlater) ?_
        unfold Timed
        rw [hkind]
        refine ⟨time, htime, hends, .inr ⟨rfl, hdue, .inl ⟨now, ?_⟩⟩⟩
        rw [Watch.fire, hfired]
        rfl
      refine ⟨⟨⟨_, hpoll⟩, by rw [hstep]; exact hsound, .inr ⟨time, by rw [hstep], ?_⟩⟩, ?_⟩
      · exact (h.due time hnext).2
      · intro other hother _ _
        rw [Option.some.inj (hother.symm.trans htime), hstep, hfired]
        exact ⟨now, rfl⟩
    · have hpoll : watch.binding.poll library now =
          .ok (watch.binding, watch.binding.isStale schedule now, none) := by
        refine poll_idle h.on hrefresh ?_
        intro next hnextAt
        rw [hat] at hnextAt
        rw [← Option.some.inj hnextAt]
        exact .inl (not_le.mp hdue)
      have hstep := step_poll_idle henabled hpoll
      rw [hself] at hstep
      refine ⟨⟨⟨_, hpoll⟩, by rw [hstep]; exact h, .inl (by rw [hstep])⟩, ?_⟩
      intro other hother hpast _
      rw [Option.some.inj (hother.symm.trans htime)] at hpast
      exact absurd hpast hdue

theorem grid_later {every : Nat} (hpositive : 60 ≤ every) (next now : Int) :
    now < next + every * ((now - next) / every + 1) := by
  have hsplit := Int.mul_ediv_add_emod (now - next) every
  have hmod := Int.emod_lt_of_pos (now - next) (show (0 : Int) < every by omega)
  have hproduct : (every : Int) * ((now - next) / every + 1) =
      every * ((now - next) / every) + every := by ring
  rw [hproduct]
  omega

theorem Sound.poll_interval (h : Sound schedule endsAt occurs watch now)
    (hkind : schedule.kind = .interval) (hclock : InClock now) (henabled : watch.enabled = true) :
    Polled library schedule endsAt occurs watch now ∧
    (∀ time, (watch.step library (.poll now)).fired = watch.fired ++ [⟨time, now⟩] →
      ∃ every k later : Nat, schedule.everySeconds = some every ∧ 1 ≤ k ∧ k < later ∧
        time = watch.since + every * k ∧
        (watch.step library (.poll now)).binding.nextDueAt =
          some (watch.since + every * later) ∧
        now < watch.since + every * later ∧ watch.since + every * later ≤ now + every) ∧
    ∃ every k : Nat, schedule.everySeconds = some every ∧ 1 ≤ k ∧
      watch.binding.nextDueAt = some (watch.since + every * k) ∧
      (watch.since + every * k ≤ now → (∀ end_ ∈ endsAt, watch.since + every * k ≤ end_) →
        (∀ occurrence ∈ watch.fired, minuteOf occurrence.firedAt ≠ minuteOf now) →
        (watch.step library (.poll now)).fired =
          watch.fired ++ [⟨watch.since + every * k, now⟩]) := by
  have hrefresh : watch.binding.refresh library schedule now = .ok watch.binding :=
    refresh_of_ne (by rw [hkind]; exact RoutineScheduleKind.noConfusion)
  have htimed := h.timed
  unfold Timed at htimed
  rw [hkind] at htimed
  obtain ⟨every, k, hevery, hpositive, hk, hnext⟩ := htimed
  generalize htime : watch.since + every * k = time at hnext
  have hself : { watch with binding := watch.binding } = watch := rfl
  by_cases hfires : watch.binding.nextAt library now = some time ∧ time ≤ now ∧
      watch.binding.lastMatchedMinute ≠ some (minuteOf now)
  · obtain ⟨hat, hdue, hfresh⟩ := hfires
    have hk' : (every : Int) * 1 ≤ every * k := Int.mul_le_mul_of_nonneg_left (by omega) (by omega)
    have hlow : clockMin < time := by
      have hsince := h.since_clock.1
      omega
    have hfit : (every : Int) ≤ clockMax - clockMin := by
      have hsince := h.since_clock.1
      have hnow := hclock.2
      omega
    have hadvance := advanceInterval_eq hevery hpositive hlow hdue hclock.2 hfit
    have hquotient : 0 ≤ (now - time) / every := Int.ediv_nonneg (by omega) (by omega)
    have hlater := grid_later hpositive time now
    have hfirst : time + every * ((now - time) / every + 1) ≤ now + every := by
      have hbound : every * ((now - time) / every) ≤ now - time :=
        Int.mul_ediv_self_le (by omega)
      rw [mul_add, mul_one]
      omega
    have hgrid : time + every * ((now - time) / every + 1) =
        watch.since + every * ((k + ((now - time) / every).toNat + 1 : Nat) : Int) := by
      push_cast
      rw [Int.toNat_of_nonneg hquotient, ← htime]
      ring
    rw [hgrid] at hadvance hlater hfirst
    have hpoll := poll_fires h.on hrefresh hat hdue hfresh
      (show laterDue library schedule watch.binding.nextDueAt now = .ok _ by
        rw [laterDue, hkind, hnext, hadvance]
        rfl)
    have hstep := step_poll_fires henabled hpoll
    have hsound : Sound schedule endsAt occurs (watch.fire now time
        (some (watch.since + every * ((k + ((now - time) / every).toNat + 1 : Nat) : Int))))
        now := by
      refine h.fire hnext hdue ?_ ?_
      · intro later hlate
        rw [← Option.some.inj hlate]
        omega
      · unfold Timed
        rw [hkind]
        exact ⟨every, k + ((now - time) / every).toNat + 1, hevery, hpositive, by omega, rfl⟩
    refine ⟨⟨⟨_, hpoll⟩, by rw [hstep]; exact hsound, .inr ⟨time, by rw [hstep], ?_⟩⟩, ?_,
      every, k, hevery, hk, by rw [htime]; exact hnext, fun _ _ _ => by rw [hstep, htime]⟩
    · exact (h.due time hnext).2
    · intro other hother
      have hsame : other = time := by
        rw [hstep] at hother
        have hlast := List.append_cancel_left hother
        injection hlast with hlast
        injection hlast with hlast
        exact hlast.symm
      refine ⟨every, k, k + ((now - time) / every).toNat + 1, hevery, hk, by omega, ?_, ?_, hlater,
        hfirst⟩
      · rw [hsame, htime]
      · rw [hstep]
  · have hpoll : watch.binding.poll library now =
        .ok (watch.binding, watch.binding.isStale schedule now, none) := by
      refine poll_idle h.on hrefresh ?_
      intro next hnextAt
      have hsame : next = time := by
        rw [nextAt_of_due h.on hnext] at hnextAt
        split at hnextAt
        · exact (Option.some.inj hnextAt).symm
        · cases hnextAt
      rw [hsame] at hnextAt ⊢
      by_cases hdue : time ≤ now
      · by_cases hmatched : watch.binding.lastMatchedMinute = some (minuteOf now)
        · exact .inr hmatched
        · exact absurd ⟨hnextAt, hdue, hmatched⟩ hfires
      · exact .inl (not_le.mp hdue)
    have hstep := step_poll_idle henabled hpoll
    rw [hself] at hstep
    refine ⟨⟨⟨_, hpoll⟩, by rw [hstep]; exact h, .inl (by rw [hstep])⟩, ?_,
      every, k, hevery, hk, by rw [htime]; exact hnext, fun hdue hends hfree => ?_⟩
    · intro other hother
      rw [hstep, List.self_eq_append_right] at hother
      cases hother
    · rw [htime] at hdue hends
      refine absurd ⟨by rw [nextAt_of_due h.on hnext, if_pos hends], hdue, fun hmatched => ?_⟩ hfires
      obtain ⟨occurrence, hmem, hminute⟩ := h.matched _ hmatched
      exact hfree occurrence hmem hminute

/-- A refresh of a cron schedule keeps the invariant and is due in no earlier minute. -/
theorem Sound.refresh (h : Sound schedule endsAt occurs watch now)
    (hkind : schedule.kind = .cron) (hfinds : Finds library schedule occurs)
    (hclock : InClock now) :
    ∃ refreshed, watch.binding.refresh library schedule now = .ok refreshed ∧
      Sound schedule endsAt occurs { watch with binding := refreshed } now ∧
      ∀ next, refreshed.nextDueAt = some next → minuteOf now ≤ minuteOf next := by
  have htimed := h.timed
  unfold Timed at htimed
  rw [hkind] at htimed
  obtain ⟨next, cursor, inclusive, hnext, hfirst, hwhole, hcursor, hmatched, hcovered⟩ := htimed
  obtain ⟨hbefore, hsince⟩ := h.due next hnext
  unfold StoredRoutineBinding.refresh
  by_cases hstale : watch.binding.isStale schedule now = true
  · have hminute : minuteOf next < minuteOf now := by
      unfold StoredRoutineBinding.isStale at hstale
      rw [hnext, hkind] at hstale
      exact of_decide_eq_true hstale
    obtain ⟨later, hlater, hlaterFirst⟩ := nextCronOccurrence_finds hfinds hclock true
    have hpast : next < later := by
      have hstart := minuteOf_le next
      have hge : minuteOf now * 60 ≤ later := by
        cases hlaterFirst.past with
        | inl hlt => exact le_of_lt hlt
        | inr heq => exact le_of_eq heq.2.symm
      omega
    refine ⟨{ watch.binding with nextDueAt := some later }, ?_, ?_, ?_⟩
    · rw [if_pos hstale, hlater]
      rfl
    · refine ⟨h.on, h.since_clock, h.since_le, h.dated, h.increasing, ?_, h.matched, ?_⟩
      · intro other hother
        rw [← Option.some.inj hother]
        exact ⟨fun occurrence hoccurrence => lt_trans (hbefore occurrence hoccurrence) hpast,
          fun hresumed => lt_trans (hsince hresumed) hpast⟩
      · unfold Timed
        rw [hkind]
        exact ⟨later, minuteOf now * 60, true, rfl, hlaterFirst, by omega, (minuteOf_le now).1,
          hmatched, fun hfalse => by cases hfalse⟩
    · intro other hother
      rw [← Option.some.inj hother]
      have hge : minuteOf now * 60 ≤ later := by
        cases hlaterFirst.past with
        | inl hlt => exact le_of_lt hlt
        | inr heq => exact le_of_eq heq.2.symm
      unfold minuteOf at *
      omega
  · refine ⟨watch.binding, if_neg hstale, h, ?_⟩
    intro other hother
    unfold StoredRoutineBinding.isStale at hstale
    rw [hother, hkind] at hstale
    simpa using hstale

theorem Sound.poll_cron (h : Sound schedule endsAt occurs watch now)
    (hkind : schedule.kind = .cron) (hfinds : Finds library schedule occurs)
    (hclock : InClock now) (henabled : watch.enabled = true) :
    Polled library schedule endsAt occurs watch now ∧
    (∀ time, (watch.step library (.poll now)).fired = watch.fired ++ [⟨time, now⟩] →
      occurs time ∧ time = minuteOf now * 60) ∧
    (occurs (minuteOf now * 60) → (∀ end_ ∈ endsAt, minuteOf now * 60 ≤ end_) →
      (watch.resumed = true → minuteOf watch.since < minuteOf now) →
      ∃ occurrence ∈ (watch.step library (.poll now)).fired,
        occurrence.time = minuteOf now * 60) := by
  obtain ⟨refreshed, hrefresh, hsound, hminute⟩ := h.refresh hkind hfinds hclock
  have htimed := hsound.timed
  unfold Timed at htimed
  rw [hkind] at htimed
  obtain ⟨next, cursor, inclusive, hnext, hfirst, hwhole, hcursor, hmatched, hcovered⟩ := htimed
  dsimp only at hnext hmatched hcovered
  have hon : refreshed.definition.on = .schedule schedule endsAt := hsound.on
  have hnow := minuteOf_le now
  have hnextMinute := hminute next hnext
  have hnextWhole := minuteOf_whole (hfinds.whole next hfirst.found)
  -- A due occurrence was either fired in this minute, or it is the start of the minute.
  have hcurrent : occurs (minuteOf now * 60) →
      (watch.resumed = true → minuteOf watch.since < minuteOf now) →
      next = minuteOf now * 60 ∨ refreshed.lastMatchedMinute = some (minuteOf now) := by
    intro hoccurs hresumed
    have hcursorWhole := minuteOf_whole hwhole
    have hcursorMinute := minuteOf_mono hcursor
    by_cases hpast : Past inclusive cursor (minuteOf now * 60)
    · have hle := hfirst.least _ hoccurs hpast
      exact .inl (by omega)
    · unfold Past at hpast
      have hsame : cursor = minuteOf now * 60 := by omega
      have hexclusive : inclusive = false := by
        cases inclusive with
        | false => rfl
        | true => exact absurd (.inr ⟨rfl, hsame.symm⟩) hpast
      rcases hcovered hexclusive with hlast | ⟨hwasResumed, hsince⟩
      · refine .inr ?_
        rw [hlast]
        congr 1
        omega
      · have hlater := hresumed hwasResumed
        omega
  by_cases hfires : refreshed.nextAt library now = some next ∧ next ≤ now ∧
      refreshed.lastMatchedMinute ≠ some (minuteOf now)
  · obtain ⟨hat, hdue, hfresh⟩ := hfires
    have htime : next = minuteOf now * 60 := by
      have hle := minuteOf_mono hdue
      omega
    obtain ⟨later, hlater, hlaterFirst⟩ := nextCronOccurrence_finds hfinds hclock false
    have hpoll := poll_fires h.on hrefresh hat hdue hfresh
      (show laterDue library schedule refreshed.nextDueAt now = .ok (some later) by
        rw [laterDue, hkind, hlater]
        rfl)
    have hstep := step_poll_fires henabled hpoll
    have hfired : Sound schedule endsAt occurs
        (Watch.fire { watch with binding := refreshed } now next (some later)) now := by
      refine hsound.fire hnext hdue ?_ ?_
      · intro other hother
        rw [← Option.some.inj hother, htime]
        rcases hlaterFirst.past with hlt | ⟨hfalse, -⟩
        · exact hlt
        · cases hfalse
      · unfold Timed
        rw [hkind]
        refine ⟨later, minuteOf now * 60, false, rfl, hlaterFirst, by omega, hnow.1, ?_, ?_⟩
        · intro minute hlast
          refine ⟨⟨next, now⟩, List.mem_append_right _ List.mem_cons_self, ?_⟩
          rw [← Option.some.inj hlast, htime]
        · intro _
          refine .inl ?_
          show some (minuteOf now) = _
          congr 1
          unfold minuteOf
          omega
    refine ⟨⟨⟨_, hpoll⟩, by rw [hstep]; exact hfired, .inr ⟨next, by rw [hstep], ?_⟩⟩, ?_, ?_⟩
    · exact (hsound.due next hnext).2
    · intro other hother
      rw [hstep] at hother
      have hlast := List.append_cancel_left hother
      injection hlast with hlast
      injection hlast with hlast
      rw [← hlast]
      exact ⟨hfirst.found, htime⟩
    · intro _ _ _
      rw [hstep]
      exact ⟨⟨next, now⟩, List.mem_append_right _ List.mem_cons_self, htime⟩
  · have hpoll : watch.binding.poll library now =
        .ok (refreshed, watch.binding.isStale schedule now, none) := by
      refine poll_idle h.on hrefresh ?_
      intro other hother
      have hsame : other = next := by
        rw [nextAt_of_due hon hnext] at hother
        split at hother
        · exact (Option.some.inj hother).symm
        · cases hother
      rw [hsame] at hother ⊢
      by_cases hdue : next ≤ now
      · by_cases hlast : refreshed.lastMatchedMinute = some (minuteOf now)
        · exact .inr hlast
        · exact absurd ⟨hother, hdue, hlast⟩ hfires
      · exact .inl (not_le.mp hdue)
    have hstep := step_poll_idle henabled hpoll
    refine ⟨⟨⟨_, hpoll⟩, by rw [hstep]; exact hsound, .inl (by rw [hstep])⟩, ?_, ?_⟩
    · intro other hother
      rw [hstep] at hother
      rw [List.self_eq_append_right] at hother
      cases hother
    · intro hoccurs hends hresumed
      rw [hstep]
      rcases hcurrent hoccurs hresumed with htime | hlast
      · by_cases hlast : refreshed.lastMatchedMinute = some (minuteOf now)
        · exact hmatched _ hlast
        · have hat : refreshed.nextAt library now = some next := by
            rw [nextAt_of_due hon hnext, if_pos (by rw [htime]; exact hends)]
          exact absurd ⟨hat, by omega, hlast⟩ hfires
      · exact hmatched _ hlast

theorem Sound.poll (h : Sound schedule endsAt occurs watch now)
    (hfinds : schedule.kind = .cron → Finds library schedule occurs) (hclock : InClock now)
    (henabled : watch.enabled = true) : Polled library schedule endsAt occurs watch now := by
  cases hkind : schedule.kind with
  | once => exact (h.poll_once hkind henabled).1
  | interval => exact (h.poll_interval hkind hclock henabled).1
  | cron => exact (h.poll_cron hkind (hfinds hkind) hclock henabled).1

/-- A resume keeps the invariant, and is followed by later occurrences only. -/
theorem Sound.resume (h : Sound schedule endsAt occurs watch now)
    (hfinds : schedule.kind = .cron → Finds library schedule occurs) (hclock : InClock now)
    {binding : StoredRoutineBinding Action}
    (hreset : watch.binding.reset library now true = .ok binding) :
    Sound schedule endsAt occurs
      { watch with binding := binding, enabled := true, since := now, resumed := true } now := by
  unfold StoredRoutineBinding.reset at hreset
  rw [h.on] at hreset
  obtain ⟨next, hnext, hreset⟩ := bind_ok hreset
  have hbinding := Except.ok.inj hreset
  have hpast : ∀ occurrence ∈ watch.fired, occurrence.time ≤ now := by
    intro occurrence hoccurrence
    have hdated := h.dated occurrence hoccurrence
    omega
  have htimed := h.timed
  unfold Timed at htimed
  unfold firstDue at hnext
  -- Every kind sets a next occurrence after the resume, if any.
  suffices hlater : (∀ later, next = some later → now < later) ∧
      Timed schedule endsAt occurs
        { watch with binding := binding, enabled := true, since := now, resumed := true } now by
    refine ⟨?_, hclock, le_refl now, h.dated, h.increasing, ?_, ?_, hlater.2⟩
    · rw [← hbinding]
      exact h.on
    · intro later hdue
      rw [← hbinding] at hdue
      have hlate := hlater.1 later hdue
      refine ⟨?_, fun _ => hlate⟩
      intro occurrence hoccurrence
      have hold := hpast occurrence hoccurrence
      omega
    · intro minute hminute
      rw [← hbinding] at hminute
      cases hminute
  cases hkind : schedule.kind with
  | once =>
    rw [hkind] at htimed hnext
    obtain ⟨time, htime, hends, hstate⟩ := htimed
    have hfilter := Except.ok.inj hnext
    rw [htime] at hfilter
    unfold Timed
    rw [hkind, ← hbinding]
    by_cases hafter : now < time
    · have hsome : next = some time := by
        rw [← hfilter, Option.filter_some, if_pos (by simpa using hafter)]
      constructor
      · intro later hlater
        rw [← Option.some.inj (hsome.symm.trans hlater)]
        exact hafter
      · refine ⟨time, htime, hends, .inl ⟨hsome, rfl, ?_⟩⟩
        cases hstate with
        | inl hpending => exact hpending.2.2
        | inr hdone =>
          have hle := hdone.2.1
          omega
    · have hnone : next = none := by
        rw [← hfilter, Option.filter_some, if_neg (by simpa using hafter)]
      constructor
      · intro later hlater
        cases hnone.symm.trans hlater
      · refine ⟨time, htime, hends, .inr ⟨hnone, not_lt.mp hafter, ?_⟩⟩
        cases hstate with
        | inl hpending => exact .inr ⟨hpending.2.2, rfl, not_lt.mp hafter⟩
        | inr hdone =>
          cases hdone.2.2 with
          | inl hfired => exact .inl hfired
          | inr hlost => exact .inr ⟨hlost.1, rfl, not_lt.mp hafter⟩
  | interval =>
    rw [hkind] at htimed hnext
    obtain ⟨every, k, hevery, hpositive, -, -⟩ := htimed
    obtain ⟨seconds, hseconds, hnext⟩ := bind_ok hnext
    have hsame : seconds = every := by
      unfold intervalSeconds at hseconds
      rw [hevery] at hseconds
      dsimp only at hseconds
      split at hseconds
      · exact (Except.ok.inj hseconds).symm
      · cases hseconds
    have hsum : next = some (now + every) := by
      split at hnext
      · rename_i sum hsum
        rw [← Except.ok.inj hnext, checkedAddInt_eq_some hsum, hsame]
      · cases hnext
    unfold Timed
    rw [hkind, ← hbinding]
    constructor
    · intro later hlater
      rw [← Option.some.inj (hsum.symm.trans hlater)]
      omega
    · refine ⟨every, 1, hevery, hpositive, le_refl 1, ?_⟩
      rw [hsum, Nat.cast_one, mul_one]
  | cron =>
    rw [hkind] at hnext
    obtain ⟨later, hlater, hfirst⟩ := nextCronOccurrence_finds (hfinds hkind) hclock false
    have hsome : next = some later := by
      rw [Bool.not_true, hlater] at hnext
      exact (Except.ok.inj hnext).symm
    have hwhole := minuteOf_whole ((hfinds hkind).whole later hfirst.found)
    have hstart := minuteOf_le now
    have hafter : minuteOf now * 60 < later := by
      rcases hfirst.past with hlt | ⟨hfalse, -⟩
      · exact hlt
      · cases hfalse
    unfold Timed
    rw [hkind, ← hbinding]
    constructor
    · intro other hother
      rw [← Option.some.inj (hsome.symm.trans hother)]
      omega
    · refine ⟨later, minuteOf now * 60, false, hsome, hfirst, by omega, hstart.1, ?_, ?_⟩
      · intro minute hminute
        cases hminute
      · intro _
        exact .inr ⟨rfl, rfl⟩

theorem new_sound (hfinds : schedule.kind = .cron → Finds library schedule occurs)
    {definition : HookBinding Action} (hon : definition.on = .schedule schedule endsAt)
    {limit : Option Int} (hvalid : validateSchedule library schedule endsAt limit = .ok ())
    (hclock : InClock now) {binding : StoredRoutineBinding Action}
    (hnew : StoredRoutineBinding.new library definition now false = .ok binding) :
    Sound schedule endsAt occurs ⟨binding, true, now, false, []⟩ now := by
  unfold StoredRoutineBinding.new StoredRoutineBinding.reset at hnew
  dsimp only at hnew
  rw [hon] at hnew
  obtain ⟨next, hnext, hnew⟩ := bind_ok hnew
  have hbinding := Except.ok.inj hnew
  unfold firstDue at hnext
  unfold validateSchedule at hvalid
  obtain ⟨-, hvalid⟩ := bind_ok_iff.mp hvalid
  refine ⟨by rw [← hbinding]; exact hon, hclock, le_refl now, List.forall_mem_nil _,
    List.Pairwise.nil, ?_, ?_, ?_⟩
  · intro next _
    refine ⟨List.forall_mem_nil _, ?_⟩
    intro hresumed
    cases hresumed
  · intro minute hminute
    rw [← hbinding] at hminute
    cases hminute
  unfold Timed
  cases hkind : schedule.kind with
  | once =>
    rw [hkind] at hnext hvalid
    obtain ⟨hfields, hends⟩ := bind_ok_iff.mp hvalid
    have hfields := rejectIf_ok_iff.mp hfields
    have hends := rejectIf_ok_iff.mp hends
    cases htime : schedule.atTime with
    | none => simp [htime] at hfields
    | some time =>
      refine ⟨time, rfl, ?_, .inl ⟨?_, by rw [← hbinding], rfl⟩⟩
      · intro end_ hend
        rw [Option.mem_def.mp hend, htime] at hends
        simpa using hends
      · rw [← hbinding, ← Except.ok.inj hnext, htime]
        rfl
  | interval =>
    rw [hkind] at hnext hvalid
    obtain ⟨hfields, hlength⟩ := bind_ok_iff.mp hvalid
    have hfields := rejectIf_ok_iff.mp hfields
    have hlength := rejectIf_ok_iff.mp hlength
    cases hevery : schedule.everySeconds with
    | none => simp [hevery] at hfields
    | some every =>
      obtain ⟨seconds, hseconds, hnext⟩ := bind_ok hnext
      rw [hevery] at hseconds hlength
      have hsame : seconds = every := by
        unfold intervalSeconds at hseconds
        dsimp only at hseconds
        split at hseconds
        · exact (Except.ok.inj hseconds).symm
        · cases hseconds
      have hpositive : 60 ≤ every := by simpa using hlength
      refine ⟨every, 1, rfl, hpositive, le_refl 1, ?_⟩
      split at hnext
      · rename_i sum hsum
        rw [← hbinding, ← Except.ok.inj hnext, checkedAddInt_eq_some hsum, hsame, Nat.cast_one,
          mul_one]
      · cases hnext
  | cron =>
    rw [hkind] at hnext
    obtain ⟨later, hlater, hfirst⟩ := nextCronOccurrence_finds (hfinds hkind) hclock true
    rw [Bool.not_false, hlater] at hnext
    refine ⟨later, minuteOf now * 60, true, ?_, hfirst, by omega, (minuteOf_le now).1, ?_,
      fun hfalse => by cases hfalse⟩
    · rw [← hbinding, ← Except.ok.inj hnext]
    · intro minute hminute
      rw [← hbinding] at hminute
      cases hminute

theorem Sound.step (h : Sound schedule endsAt occurs watch last)
    (hfinds : schedule.kind = .cron → Finds library schedule occurs) {operation : TimerOp}
    (hle : last ≤ operation.now) (hclock : InClock operation.now) :
    Sound schedule endsAt occurs (watch.step library operation) operation.now := by
  have hlater := h.later hle
  cases operation with
  | poll now =>
    by_cases henabled : watch.enabled = true
    · exact (hlater.poll hfinds hclock henabled).sound
    · rw [Watch.step, if_neg henabled]
      exact hlater
  | pause now => exact ⟨hlater.on, hlater.since_clock, hlater.since_le, hlater.dated,
      hlater.increasing, hlater.due, hlater.matched, hlater.timed⟩
  | resume now =>
    rw [Watch.step]
    split
    · exact hlater
    · split
      · rename_i binding hreset
        exact hlater.resume hfinds hclock hreset
      · exact hlater

theorem Sound.run (h : Sound schedule endsAt occurs watch last)
    (hfinds : schedule.kind = .cron → Finds library schedule occurs)
    {operations : List TimerOp} (hclock : Clocked last operations) :
    Sound schedule endsAt occurs (operations.foldl (Watch.step library) watch)
      (lastTime last operations) := by
  induction operations generalizing watch last with
  | nil => exact h
  | cons operation rest ih =>
    obtain ⟨hle, hnow, hrest⟩ := hclock
    exact ih (h.step hfinds hle hnow) hrest

end Steps

section Punctuality

variable {Action : Type}

/-- What holds of the occurrences of a binding after a poll. -/
structure Punctual (library : CronLibrary) (schedule : RoutineSchedule) (endsAt : Option Int)
    (occurs : Int → Prop) (before : Watch Action) (now : Int) : Prop where
  succeeds : ∃ result, before.binding.poll library now = .ok result
  increasing : (before.step library (.poll now)).fired.Pairwise
    fun earlier later => earlier.time < later.time
  dated : ∀ occurrence ∈ (before.step library (.poll now)).fired,
    occurrence.time ≤ occurrence.firedAt
  /-- The poll fires at most once, and nothing that is dated before a resume. -/
  single : (before.step library (.poll now)).fired = before.fired ∨
    ∃ time, (before.step library (.poll now)).fired = before.fired ++ [⟨time, now⟩] ∧
      (before.resumed = true → before.since < time)
  /-- An interval stays on its grid, and is next due at the first time of the grid after the
  poll. -/
  interval : schedule.kind = .interval → ∀ time,
    (before.step library (.poll now)).fired = before.fired ++ [⟨time, now⟩] →
    ∃ every k later : Nat, schedule.everySeconds = some every ∧ 1 ≤ k ∧ k < later ∧
      time = before.since + every * k ∧
      (before.step library (.poll now)).binding.nextDueAt =
        some (before.since + every * later) ∧
      now < before.since + every * later ∧ before.since + every * later ≤ now + every
  /-- An interval is due at a time of its grid, which fires once it is reached and not past the
  end, unless another one fired in the same minute. -/
  due : schedule.kind = .interval → ∃ every k : Nat, schedule.everySeconds = some every ∧ 1 ≤ k ∧
    before.binding.nextDueAt = some (before.since + every * k) ∧
    (before.since + every * k ≤ now → (∀ end_ ∈ endsAt, before.since + every * k ≤ end_) →
      (∀ occurrence ∈ before.fired, minuteOf occurrence.firedAt ≠ minuteOf now) →
      (before.step library (.poll now)).fired =
        before.fired ++ [⟨before.since + every * k, now⟩])
  /-- A schedule for one time has fired after the first poll at or after it, unless a resume
  dropped it. -/
  once : schedule.kind = .once → ∀ time, schedule.atTime = some time → time ≤ now →
    ¬ (before.resumed = true ∧ time ≤ before.since) →
    ∃ firedAt, (before.step library (.poll now)).fired = [⟨time, firedAt⟩] ∧
      (before.fired = [] → firedAt = now)
  /-- A cron schedule has fired exactly once for a matching minute in which it is polled, unless
  it has ended or was resumed in that minute. -/
  cron : schedule.kind = .cron → occurs (minuteOf now * 60) →
    (∀ end_ ∈ endsAt, minuteOf now * 60 ≤ end_) →
    (before.resumed = true → minuteOf before.since < minuteOf now) →
    ∃! occurrence, occurrence ∈ (before.step library (.poll now)).fired ∧
      occurrence.time = minuteOf now * 60
  matching : schedule.kind = .cron → ∀ time,
    (before.step library (.poll now)).fired = before.fired ++ [⟨time, now⟩] →
    occurs time ∧ time = minuteOf now * 60

theorem occurrence_unique {fired : List Occurrence}
    (hincreasing : fired.Pairwise fun earlier later => earlier.time < later.time)
    {first second : Occurrence} (hfirst : first ∈ fired) (hsecond : second ∈ fired)
    (htime : first.time = second.time) : first = second := by
  have hnodup : (fired.map Occurrence.time).Nodup := by
    refine List.pairwise_map.mpr (hincreasing.imp ?_)
    intro earlier later hlt
    exact ne_of_lt hlt
  exact List.inj_on_of_nodup_map hnodup hfirst hsecond htime

/-- In every run of polls, pauses and resumes on a clock that never goes back, an accepted schedule
is punctual at every poll. -/
theorem schedule_punctual {library : CronLibrary} {definition : HookBinding Action}
    {schedule : RoutineSchedule} {endsAt : Option Int} {occurs : Int → Prop}
    (hon : definition.on = .schedule schedule endsAt)
    (hvalid : validateSchedule library schedule endsAt (some maxScheduleTimestamp) = .ok ())
    (hfinds : schedule.kind = .cron → Finds library schedule occurs) {created : Int}
    (hcreated : InClock created) {binding : StoredRoutineBinding Action}
    (hnew : StoredRoutineBinding.new library definition created false = .ok binding)
    {operations : List TimerOp} (hclock : Clocked created operations) {now : Int}
    (hlast : lastTime created operations ≤ now) (hnow : InClock now)
    (henabled : (observe library binding created operations).enabled = true) :
    Punctual library schedule endsAt occurs (observe library binding created operations) now := by
  have hsound : Sound schedule endsAt occurs (observe library binding created operations) now :=
    ((new_sound hfinds hon hvalid hcreated hnew).run hfinds hclock).later hlast
  have hpolled := hsound.poll hfinds hnow henabled
  refine ⟨hpolled.succeeds, hpolled.sound.increasing,
    fun occurrence hmem => (hpolled.sound.dated occurrence hmem).1, hpolled.fired, ?_, ?_, ?_,
    ?_, ?_⟩
  · intro hkind
    exact (hsound.poll_interval hkind hnow henabled).2.1
  · intro hkind
    exact (hsound.poll_interval hkind hnow henabled).2.2
  · intro hkind time htime hdue hkept
    obtain ⟨firedAt, hfired⟩ :=
      (hsound.poll_once hkind henabled).2 time htime hdue hkept
    refine ⟨firedAt, hfired, ?_⟩
    intro hempty
    rcases hpolled.fired with hsame | ⟨other, happended, -⟩
    · rw [hempty] at hsame
      cases hfired.symm.trans hsame
    · rw [hempty] at happended
      have hlist := hfired.symm.trans happended
      injection hlist with hlist
      injection hlist
  · intro hkind hoccurs hends hresumed
    obtain ⟨occurrence, hmem, htime⟩ :=
      (hsound.poll_cron hkind (hfinds hkind) hnow henabled).2.2 hoccurs hends hresumed
    refine ⟨occurrence, ⟨hmem, htime⟩, ?_⟩
    rintro other ⟨hother, hsame⟩
    exact occurrence_unique hpolled.sound.increasing hother hmem (hsame.trans htime.symm)
  · intro hkind
    exact (hsound.poll_cron hkind (hfinds hkind) hnow henabled).2.1

/-- A library that knows the expression for every minute and the zone of the clock. -/
def minuteLibrary : CronLibrary where
  Cron := Unit
  Zone := Unit
  parseCron := fun expression => if expression = "* * * * *" then .ok () else .error "pattern"
  parseZone := fun timeZone => if timeZone = "UTC" then .ok () else .error "zone"
  findNext := fun _ _ cursor inclusive =>
    .ok (if inclusive = true ∧ cursor % 60 = 0 then cursor else (minuteOf cursor + 1) * 60)

def everyMinute : RoutineSchedule :=
  { kind := .cron, expression := some "* * * * *", timeZone := some "UTC" }

theorem minuteLibrary_finds : Finds minuteLibrary everyMinute fun time => time % 60 = 0 := by
  refine ⟨⟨"* * * * *", (), "UTC", (), rfl, rfl, rfl, rfl, ?_⟩, fun time htime => htime⟩
  intro cursor inclusive _
  refine ⟨_, rfl, ?_⟩
  unfold minuteOf
  split
  · rename_i hcurrent
    exact ⟨hcurrent.2, .inr ⟨hcurrent.1, rfl⟩, fun time _ hpast => by unfold Past at hpast; omega⟩
  · rename_i hlater
    refine ⟨by omega, .inl (by omega), ?_⟩
    intro time hwhole hpast
    rcases hpast with hlt | ⟨hinclusive, heq⟩
    · omega
    · exact absurd ⟨hinclusive, heq ▸ hwhole⟩ hlater

/-- A binding for every minute, created at second 130, has fired exactly once in the minute of
a poll at second 200. -/
theorem schedule_punctual_every_minute :
    Punctual minuteLibrary everyMinute none (fun time => time % 60 = 0)
      (observe minuteLibrary (⟨⟨"timer", .schedule everyMinute none, ()⟩, some 120, none⟩ :
        StoredRoutineBinding Unit) 130 [.poll 140, .pause 150, .resume 160, .poll 170]) 200 := by
  have hnew : StoredRoutineBinding.new minuteLibrary
      (⟨"timer", .schedule everyMinute none, ()⟩ : HookBinding Unit) 130 false =
        .ok ⟨⟨"timer", .schedule everyMinute none, ()⟩, some 120, none⟩ := by decide
  refine schedule_punctual rfl (by decide) (fun _ => minuteLibrary_finds) (by decide) hnew
    ?_ (by decide) (by decide) (by decide)
  exact ⟨by decide, by decide, by decide, by decide, by decide, by decide, by decide, by decide,
    trivial⟩

end Punctuality

end MobiusAgent.RoutineSchedules
