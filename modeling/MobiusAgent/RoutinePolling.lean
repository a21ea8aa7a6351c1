import Mathlib.Algebra.Order.BigOperators.Group.List
import MobiusAgent.HookTransactions

/-!
# Polling the routines of a catalog

`poll_due` and `next_routine_at` read every routine in one pass, so one routine
could stop all others. The invariant of the store says when they succeed: the
records are valid, every timer is due at a time of the clock that is later than
every occurrence recorded under its identity, and the hook tables hold the
binding of every routine. Every operation keeps it if it arms no timer badly.
-/

namespace MobiusAgent.RoutinePolling

open JsonValue ProtocolEvents CheckpointRecords CheckpointValidation HookRecords
open RoutineSchedules HookStore RoutineCatalog HookTransactions

section Text

theorem escapedLength_le {c : Char} (h : isControl c = false) :
    escapedLength c ≤ 2 * c.utf8Size := by
  have hpos := Char.utf8Size_pos c
  unfold escapedLength
  unfold isControl at h
  simp only [Bool.or_eq_false_iff, decide_eq_false_iff_not] at h
  split
  · omega
  · split
    · omega
    · omega

theorem stringLength_le {text : String} (h : text.toList.any isControl = false) :
    stringLength text ≤ 2 * text.utf8ByteSize + 2 := by
  have hsum : ∀ chars : List Char, chars.any isControl = false →
      (chars.map escapedLength).sum ≤ 2 * (chars.map Char.utf8Size).sum := by
    intro chars
    induction chars with
    | nil => intro _; simp
    | cons c rest ih =>
      intro hany
      rw [List.any_cons, Bool.or_eq_false_iff] at hany
      have hc := escapedLength_le hany.1
      have hrest := ih hany.2
      simp only [List.map_cons, List.sum_cons]
      omega
  have hlist := hsum text.toList h
  unfold stringLength
  rw [utf8ByteSize_eq]
  omega

theorem validateId_ok_iff (id : String) : validateId id = .ok () ↔
    isBlank id = false ∧ id.utf8ByteSize ≤ 256 ∧ id.toList.any isControl = false := by
  unfold validateId
  rw [rejectIf_ok_iff, Bool.or_eq_false_iff, Bool.or_eq_false_iff, decide_eq_false_iff_not,
    Nat.not_lt, and_assoc]

theorem toString_inj_of_nonneg {first second : Int} (hfirst : 0 ≤ first) (hsecond : 0 ≤ second)
    (h : toString first = toString second) : first = second := by
  obtain ⟨m, rfl⟩ := Int.eq_ofNat_of_zero_le hfirst
  obtain ⟨n, rfl⟩ := Int.eq_ofNat_of_zero_le hsecond
  have hrepr : Nat.repr m = Nat.repr n := h
  rw [Nat.repr_eq_ofList_toDigits, Nat.repr_eq_ofList_toDigits, String.ofList_inj] at hrepr
  have hdigits := congrArg (fun digits => Nat.ofDigitChars 10 digits 0) hrepr
  simp only [Nat.ofDigitChars_ten_toDigits] at hdigits
  rw [hdigits]

theorem integerLength_le {value : Int} {digits : Nat} (hnonneg : 0 ≤ value) (hpos : 0 < digits)
    (hlt : value < 10 ^ digits) : integerLength value ≤ digits := by
  obtain ⟨n, rfl⟩ := Int.eq_ofNat_of_zero_le hnonneg
  have hn : n < 10 ^ digits := by exact_mod_cast hlt
  unfold integerLength
  rw [if_neg (by omega), Int.natAbs_natCast]
  have hle := (Nat.digits_length_le_iff (b := 10) (by omega) n (k := digits)).mpr hn
  omega

end Text

section Identities

/-- The characters of a canonical identifier. -/
def uuidAlphabet : List Char := "0123456789abcdef-".toList

/-- What is known of the outside. -/
structure HostLaws (host : Host) : Prop where
  uuid : ∀ text, host.parseUuid text = .ok text →
    text.toList.length = 36 ∧ ∀ c ∈ text.toList, c ∈ uuidAlphabet
  digest_injective : ∀ first second first' second',
    host.digest first second = host.digest first' second' → first = first' ∧ second = second'
  /-- The digest of an occurrence is short and has no control character. -/
  digest_safe : ∀ key time, key.utf8ByteSize ≤ 165 → key.toList.any isControl = false →
    1 ≤ time → time ≤ clockMax → (host.digest key (toString time)).utf8ByteSize ≤ 240 ∧
      (host.digest key (toString time)).toList.any isControl = false
  routines_absolute : isAbsolute host.routinesDir = true

variable {host : Host}

theorem uuidAlphabet_plain : ∀ c ∈ uuidAlphabet, c.utf8Size = 1 ∧ isControl c = false ∧
    isWhitespace c = false ∧ (c == '/') = false ∧ c ≠ 's' := by
  have hall : uuidAlphabet.all (fun c => decide (c.utf8Size = 1 ∧ isControl c = false ∧
      isWhitespace c = false ∧ (c == '/') = false ∧ c ≠ 's')) = true := by
    decide
  intro c hc
  exact of_decide_eq_true (List.all_eq_true.mp hall c hc)

variable {text bindingId : String} {time : Int}

theorem HostLaws.uuid_bytes (laws : HostLaws host) (h : host.parseUuid text = .ok text) :
    text.utf8ByteSize = 36 := by
  obtain ⟨hlength, halphabet⟩ := laws.uuid text h
  have hsizes : text.toList.map Char.utf8Size = List.replicate 36 1 := by
    refine List.eq_replicate_iff.mpr ⟨by rw [List.length_map, hlength], ?_⟩
    intro size hsize
    obtain ⟨c, hc, rfl⟩ := List.mem_map.mp hsize
    exact (uuidAlphabet_plain c (halphabet c hc)).1
  rw [utf8ByteSize_eq, hsizes]
  rfl

theorem HostLaws.uuid_safe (laws : HostLaws host) (h : host.parseUuid text = .ok text) :
    text.toList.any isControl = false := by
  refine List.any_eq_false.mpr ?_
  intro c hc
  rw [(uuidAlphabet_plain c ((laws.uuid text h).2 c hc)).2.1]
  exact Bool.false_ne_true

theorem HostLaws.uuid_id (laws : HostLaws host) (h : host.parseUuid text = .ok text) :
    validateId text = .ok () := by
  refine (validateId_ok_iff text).mpr ⟨?_, by rw [laws.uuid_bytes h]; omega, laws.uuid_safe h⟩
  obtain ⟨hlength, halphabet⟩ := laws.uuid text h
  obtain ⟨c, hc⟩ := List.exists_mem_of_length_pos (by omega : 0 < text.toList.length)
  refine Bool.eq_false_iff.mpr ?_
  intro hblank
  have hspace := List.all_eq_true.mp hblank c hc
  rw [(uuidAlphabet_plain c (halphabet c hc)).2.2.1] at hspace
  cases hspace

theorem HostLaws.uuid_ne_occurrence (laws : HostLaws host) (h : host.parseUuid text = .ok text)
    (routineId bindingId : String) (time : Int) :
    text ≠ occurrenceId host routineId bindingId time := by
  intro heq
  have hmem : 's' ∈ text.toList := by
    rw [heq]
    simp [occurrenceId, stableId]
  exact (uuidAlphabet_plain 's' ((laws.uuid text h).2 's' hmem)).2.2.2.2 rfl

theorem append_separated {first second rest rest' : String}
    (hlength : first.toList.length = second.toList.length)
    (h : first ++ ":" ++ rest = second ++ ":" ++ rest') : first = second ∧ rest = rest' := by
  have hlist := congrArg String.toList h
  simp only [String.toList_append, List.append_assoc] at hlist
  obtain ⟨hfirst, hrest⟩ := List.append_inj hlist hlength
  exact ⟨String.toList_inj.mp hfirst, String.toList_inj.mp (List.append_cancel_left hrest)⟩

theorem HostLaws.occurrenceId_inj (laws : HostLaws host)
    {routineId routineId' bindingId' : String} {time' : Int}
    (hid : host.parseUuid routineId = .ok routineId)
    (hid' : host.parseUuid routineId' = .ok routineId') (htime : 0 ≤ time) (htime' : 0 ≤ time')
    (h : occurrenceId host routineId bindingId time = occurrenceId host routineId' bindingId' time') :
    routineId = routineId' ∧ bindingId = bindingId' ∧ time = time' := by
  have hdigest : host.digest (routineId ++ ":" ++ bindingId) (toString time) =
      host.digest (routineId' ++ ":" ++ bindingId') (toString time') := by
    have hlist := congrArg String.toList h
    simp only [occurrenceId, stableId, String.toList_append] at hlist
    exact String.toList_inj.mp (List.append_cancel_left hlist)
  obtain ⟨hkey, htext⟩ := laws.digest_injective _ _ _ _ hdigest
  have hlength : routineId.toList.length = routineId'.toList.length := by
    rw [(laws.uuid _ hid).1, (laws.uuid _ hid').1]
  obtain ⟨hroutine, hbinding⟩ := append_separated hlength hkey
  exact ⟨hroutine, hbinding, toString_inj_of_nonneg htime htime' htext⟩

theorem HostLaws.outboxId_inj (laws : HostLaws host) {eventId eventId' botId bindingId' : String}
    (h : outboxId host.digest eventId botId bindingId = outboxId host.digest eventId' botId bindingId') :
    eventId = eventId' ∧ bindingId = bindingId' := by
  have hdigest : host.digest eventId (botId ++ ":" ++ bindingId) =
      host.digest eventId' (botId ++ ":" ++ bindingId') := by
    have hlist := congrArg String.toList h
    simp only [outboxId, stableId, String.toList_append] at hlist
    have htext := List.append_cancel_left hlist
    simpa only [← String.toList_append, String.toList_inj] using htext
  obtain ⟨hevent, htext⟩ := laws.digest_injective _ _ _ _ hdigest
  exact ⟨hevent, (append_separated rfl htext).2⟩

theorem namedComponents_append (segments segments' : List (List Char)) :
    namedComponents (segments ++ segments') =
      namedComponents segments ++ namedComponents segments' := by
  unfold namedComponents
  rw [List.filter_append, List.map_append]

theorem namedComponents_long {segment : List Char} (h : 3 < segment.length) :
    namedComponents [segment] = [.normal segment] := by
  have hempty : segment ≠ [] := by
    rintro rfl
    simp at h
  have hdot : segment ≠ ['.'] := by
    rintro rfl
    simp at h
  have hdots : segment ≠ ['.', '.'] := by
    rintro rfl
    simp at h
  unfold namedComponents
  rw [List.filter_cons_of_pos (by simp [hempty, hdot]), List.filter_nil, List.map_singleton,
    if_neg hdots]

/-- A new file of instructions lies in the directory of routines. -/
theorem newInstructionPath_inside (hnamed : ∀ text, host.parseUuid text = .ok text →
      text.toList.length = 36 ∧ ∀ c ∈ text.toList, c ∈ uuidAlphabet)
    (habsolute : isAbsolute host.routinesDir = true) (fileId : Uuid host) :
    isAbsolute (newInstructionPath host fileId.1) = true ∧
      parentIs (newInstructionPath host fileId.1) host.routinesDir = true := by
  unfold isAbsolute at habsolute
  have hroot : host.routinesDir.toList.head? = some '/' := by simpa using habsolute
  obtain ⟨tail, htail⟩ : ∃ tail, host.routinesDir.toList = '/' :: tail := by
    cases hdir : host.routinesDir.toList with
    | nil => rw [hdir] at hroot; cases hroot
    | cons c tail =>
      rw [hdir] at hroot
      exact ⟨tail, by rw [Option.some.inj hroot]⟩
  have hpath : (newInstructionPath host fileId.1).toList =
      host.routinesDir.toList ++ '/' :: (fileId.1 ++ ".md").toList := by
    simp [newInstructionPath]
  have hplain : ∀ c ∈ (fileId.1 ++ ".md").toList, (c == '/') = false := by
    intro c hc
    rw [String.toList_append, List.mem_append] at hc
    cases hc with
    | inl hid => exact (uuidAlphabet_plain c ((hnamed _ fileId.2).2 c hid)).2.2.2.1
    | inr hmd =>
      have hall : ".md".toList.all (fun c => decide ((c == '/') = false)) = true := by decide
      exact of_decide_eq_true (List.all_eq_true.mp hall c hmd)
  have hsplit : (newInstructionPath host fileId.1).toList.splitOnP (· == '/') =
      host.routinesDir.toList.splitOnP (· == '/') ++ [(fileId.1 ++ ".md").toList] := by
    rw [hpath, List.splitOnP_append_cons _ _ (by rfl), List.splitOnP_eq_singleton hplain]
  have hlong : 3 < (fileId.1 ++ ".md").toList.length := by
    rw [String.toList_append, List.length_append, (hnamed _ fileId.2).1]
    omega
  have hnamed : namedComponents [(fileId.1 ++ ".md").toList] =
      [.normal (fileId.1 ++ ".md").toList] := namedComponents_long hlong
  have hhead : (newInstructionPath host fileId.1).toList.head? = some '/' := by
    rw [hpath, htail]
    rfl
  obtain ⟨first, rest, hdir⟩ := List.exists_cons_of_ne_nil
    (List.splitOnP_ne_nil (· == '/') host.routinesDir.toList)
  have hdirectory : pathComponents host.routinesDir =
      .rootDir :: namedComponents (first :: rest) := by
    unfold pathComponents
    rw [hdir]
    exact if_pos hroot
  have hcomponents : pathComponents (newInstructionPath host fileId.1) =
      pathComponents host.routinesDir ++ [.normal (fileId.1 ++ ".md").toList] := by
    rw [hdirectory, List.cons_append, ← hnamed, ← namedComponents_append]
    unfold pathComponents
    rw [hsplit, hdir]
    exact if_pos hhead
  constructor
  · unfold isAbsolute
    rw [hhead]
    rfl
  · unfold parentIs
    rw [hcomponents, List.getLast?_concat, List.dropLast_concat]
    exact beq_self_eq_true _

theorem HostLaws.newInstructionPath_inside (laws : HostLaws host) (fileId : Uuid host) :
    isAbsolute (newInstructionPath host fileId.1) = true ∧
      parentIs (newInstructionPath host fileId.1) host.routinesDir = true :=
  RoutinePolling.newInstructionPath_inside laws.uuid laws.routines_absolute fileId

theorem HostLaws.occurrenceId_valid (laws : HostLaws host) {routineId : String}
    (hid : host.parseUuid routineId = .ok routineId) (hbytes : bindingId.utf8ByteSize ≤ 128)
    (hsafe : bindingId.toList.any isControl = false) (hlow : 1 ≤ time) (hhigh : time ≤ clockMax) :
    validateId (occurrenceId host routineId bindingId time) = .ok () := by
  have hkey : (routineId ++ ":" ++ bindingId).utf8ByteSize ≤ 165 := by
    rw [String.utf8ByteSize_append, String.utf8ByteSize_append, laws.uuid_bytes hid]
    have hcolon : ":".utf8ByteSize = 1 := rfl
    omega
  have hkeySafe : (routineId ++ ":" ++ bindingId).toList.any isControl = false := by
    rw [String.toList_append, String.toList_append, List.any_append, List.any_append,
      laws.uuid_safe hid, hsafe]
    decide
  obtain ⟨hshort, hplain⟩ := laws.digest_safe _ time hkey hkeySafe hlow hhigh
  refine (validateId_ok_iff _).mpr ⟨?_, ?_, ?_⟩
  · refine Bool.eq_false_iff.mpr ?_
    intro hblank
    have hspace := List.all_eq_true.mp hblank 's' (by simp [occurrenceId, stableId])
    revert hspace
    decide
  · unfold occurrenceId stableId
    rw [String.utf8ByteSize_append, String.utf8ByteSize_append]
    have hkind : "schedule".utf8ByteSize = 8 := rfl
    have hdash : "-".utf8ByteSize = 1 := rfl
    omega
  · unfold occurrenceId stableId
    rw [String.toList_append, String.toList_append, List.any_append, List.any_append, hplain]
    decide

theorem occurrenceEvent_bytes (routine : StoredRoutine) (bindingId : String) (time now : Int) :
    jsonLength (occurrenceEvent host routine bindingId time now).json =
      stringLength (occurrenceId host routine.id bindingId time) + stringLength routine.id +
        2 * stringLength bindingId + stringLength routine.botId + integerLength now + 164 := by
  have hkeys : stringLength "id" = 4 ∧ stringLength "source" = 8 ∧ stringLength "cause_id" = 10 ∧
      stringLength "ancestry" = 10 ∧ stringLength "bot_id" = 8 ∧
      stringLength "occurred_at" = 13 ∧ stringLength "data" = 6 ∧ stringLength "type" = 6 ∧
      stringLength "schedule" = 10 ∧ stringLength "routine_id" = 12 ∧
      stringLength "binding_id" = 12 ∧ stringLength "schedule_due" = 14 := by
    decide
  obtain ⟨h1, h2, h3, h4, h5, h6, h7, h8, h9, h10, h11, h12⟩ := hkeys
  simp only [occurrenceEvent, HookEvent.json, HookSource.json, HookData.json, tagged, optionalJson,
    List.map_nil, jsonLength, fieldsLength, itemsLength, h1, h2, h3, h4, h5, h6, h7, h8, h9, h10,
    h11, h12]
  omega

theorem HostLaws.occurrenceEvent_valid (laws : HostLaws host) {routine : StoredRoutine}
    {now : Int} (hid : host.parseUuid routine.id = .ok routine.id)
    (hbot : host.parseUuid routine.botId = .ok routine.botId) (hblank : isBlank bindingId = false)
    (hbytes : bindingId.utf8ByteSize ≤ 128) (hsafe : bindingId.toList.any isControl = false)
    (hlow : 1 ≤ time) (hhigh : time ≤ clockMax) (hnow : 1 ≤ now) (hclock : now ≤ clockMax) :
    validateEvent (occurrenceEvent host routine bindingId time now) = .ok () := by
  have hevent := laws.occurrenceId_valid hid hbytes hsafe hlow hhigh
  have hbinding : validateId bindingId = .ok () :=
    (validateId_ok_iff _).mpr ⟨hblank, by omega, hsafe⟩
  unfold validateEvent
  refine bind_ok_iff.mpr ⟨hevent, bind_ok_iff.mpr ⟨laws.uuid_id hbot, ?_⟩⟩
  refine bind_ok_iff.mpr ⟨?_, bind_ok_iff.mpr ⟨rfl, ?_⟩⟩
  · exact bind_ok_iff.mpr ⟨laws.uuid_id hid, hbinding⟩
  refine bind_ok_iff.mpr ⟨rfl, bind_ok_iff.mpr ⟨rfl, ?_⟩⟩
  rw [rejectIf_ok_iff, decide_eq_false_iff_not, occurrenceEvent_bytes]
  have hidBytes := stringLength_le ((validateId_ok_iff _).mp hevent).2.2
  have hidSize := ((validateId_ok_iff _).mp hevent).2.1
  have hroutine := stringLength_le (laws.uuid_safe hid)
  have hroutineSize := laws.uuid_bytes hid
  have hbotBytes := stringLength_le (laws.uuid_safe hbot)
  have hbotSize := laws.uuid_bytes hbot
  have hbindingBytes := stringLength_le hsafe
  have hdigits : integerLength now ≤ 13 :=
    integerLength_le (by omega) (by omega) (by unfold clockMax at hclock; omega)
  have hlimit : maxHookEventBytes = 532480 := rfl
  omega

end Identities

section Timers

variable {library : CronLibrary} {Action : Type} {stored : StoredRoutineBinding Action}
  {schedule : RoutineSchedule} {endsAt : Option Int} {occurred : Int → Prop} {now : Int}

theorem advanceCursor_after {cron : library.Cron} {zone : library.Zone}
    {minimum previous time : Int} {currentMinute : Bool}
    (h : advanceCursor library cron zone minimum currentMinute previous = .ok time) :
    Past currentMinute minimum time := by
  fun_induction advanceCursor library cron zone minimum currentMinute previous with
  | case1 => cases h
  | case2 previous timestamp _ hpast => exact Except.ok.inj h ▸ hpast
  | case3 => cases h
  | case4 previous timestamp _ _ _ ih => exact ih h

/-- From one occurrence of a cron schedule the library leads to one that is past a minute. -/
inductive Leads (library : CronLibrary) (cron : library.Cron) (zone : library.Zone)
    (minimum : Int) (currentMinute : Bool) : Int → Int → Prop
  | here {time : Int} : Past currentMinute minimum time →
      Leads library cron zone minimum currentMinute time time
  | further {previous next time : Int} : ¬ Past currentMinute minimum previous →
      library.findNext cron zone previous false = .ok next → previous < next →
      Leads library cron zone minimum currentMinute next time →
      Leads library cron zone minimum currentMinute previous time

theorem Leads.advanceCursor {cron : library.Cron} {zone : library.Zone}
    {minimum previous time : Int} {currentMinute : Bool}
    (h : Leads library cron zone minimum currentMinute previous time)
    (hbefore : ¬ Past currentMinute minimum previous) :
    advanceCursor library cron zone minimum currentMinute previous = .ok time := by
  induction h with
  | here hpast => exact absurd hpast hbefore
  | @further previous next time _ hnext hlater hleads ih =>
    unfold RoutineSchedules.advanceCursor
    rw [hnext]
    by_cases hpast : Past currentMinute minimum next
    · cases hleads with
      | here _ => exact if_pos hpast
      | further hnot => exact absurd hpast hnot
    · exact (if_neg hpast).trans ((if_neg (not_le.mpr hlater)).trans (ih hpast))

theorem nextCronOccurrence_after {time : Int} {currentMinute : Bool}
    (h : nextCronOccurrence library schedule now currentMinute = .ok time) :
    Past currentMinute (minuteOf now * 60) time := by
  unfold nextCronOccurrence at h
  split at h
  · cases h
  split at h
  · cases h
  split at h
  · cases h
  split at h
  · cases h
  split at h
  · dsimp only at h
    split at h
    · cases h
    split at h
    · rename_i hpast
      exact Except.ok.inj h ▸ hpast
    · exact advanceCursor_after h
  · cases h

/-- Whether a timer follows a cron schedule. -/
def IsCron (stored : StoredRoutineBinding Action) : Prop :=
  ∃ schedule endsAt, stored.definition.on = .schedule schedule endsAt ∧ schedule.kind = .cron

/-- A timer that can be polled, where some times have occurred: it is due at a
time of the clock after all of them, but for those of the minute that a cron
schedule matched last. -/
structure Ready (occurred : Int → Prop) (stored : StoredRoutineBinding Action) : Prop where
  clock : ∀ next, stored.nextDueAt = some next → 1 ≤ next ∧ next ≤ clockMax
  later : ∀ next, stored.nextDueAt = some next → ∀ time, occurred time →
    time < next ∨ (IsCron stored ∧ stored.lastMatchedMinute = some (minuteOf time) ∧
      minuteOf next = minuteOf time)
  matched : ∀ minute, stored.lastMatchedMinute = some minute → 0 ≤ minute ∧ minute < 10 ^ 12
  continues : ∀ schedule endsAt, stored.definition.on = .schedule schedule endsAt →
    schedule.kind ≠ .once → ∃ next, stored.nextDueAt = some next

/-- The schedule of a due timer goes on after a poll. -/
def Continues (library : CronLibrary) (schedule : RoutineSchedule) (endsAt : Option Int)
    (next now : Int) : Prop :=
  match schedule.kind with
  | .once => True
  | .interval => (∀ end_ ∈ endsAt, next ≤ end_) →
      ∀ every ∈ schedule.everySeconds, now + (every : Nat) ≤ clockMax
  | .cron => ∀ expression ∈ schedule.expression, ∀ timeZone ∈ schedule.timeZone, ∀ cron zone,
      library.parseCron expression = .ok cron → library.parseZone timeZone = .ok zone →
        ∀ currentMinute, ∃ first later,
          library.findNext cron zone (minuteOf now * 60) currentMinute = .ok first ∧
            Leads library cron zone (minuteOf now * 60) currentMinute first later ∧
            1 ≤ later ∧ later ≤ clockMax

theorem validateSchedule_cron {limit : Option Int}
    (hvalid : validateSchedule library schedule endsAt limit = .ok ())
    (hkind : schedule.kind = .cron) :
    ∃ expression timeZone cron zone, schedule.expression = some expression ∧
      schedule.timeZone = some timeZone ∧ library.parseCron expression = .ok cron ∧
      library.parseZone timeZone = .ok zone := by
  unfold validateSchedule at hvalid
  obtain ⟨-, hvalid⟩ := bind_ok_iff.mp hvalid
  rw [hkind] at hvalid
  obtain ⟨hfields, hparsed⟩ := bind_ok_iff.mp hvalid
  have hfields := rejectIf_ok_iff.mp hfields
  cases hexpression : schedule.expression with
  | none => simp [hexpression] at hfields
  | some expression =>
    cases htimeZone : schedule.timeZone with
    | none => simp [htimeZone] at hfields
    | some timeZone =>
      rw [hexpression, htimeZone] at hparsed
      dsimp only [Option.getD_some] at hparsed
      cases hzone : library.parseZone timeZone with
      | error error =>
        rw [hzone] at hparsed
        cases hparsed
      | ok zone =>
        rw [hzone] at hparsed
        obtain ⟨-, hparsed⟩ := bind_ok_iff.mp hparsed
        cases hcron : library.parseCron expression with
        | error error =>
          rw [hcron] at hparsed
          cases hparsed
        | ok cron => exact ⟨expression, timeZone, cron, zone, rfl, rfl, hcron, hzone⟩

theorem Continues.cron {next : Int} (h : Continues library schedule endsAt next now)
    (hkind : schedule.kind = .cron)
    (hvalid : validateSchedule library schedule endsAt none = .ok ()) (hclock : InClock now)
    (currentMinute : Bool) :
    ∃ later, nextCronOccurrence library schedule now currentMinute = .ok later ∧ 1 ≤ later ∧
      later ≤ clockMax := by
  obtain ⟨expression, timeZone, cron, zone, hexpression, htimeZone, hcron, hzone⟩ :=
    validateSchedule_cron hvalid hkind
  unfold Continues at h
  rw [hkind] at h
  obtain ⟨first, later, hfirst, hleads, hbounds⟩ :=
    h expression hexpression timeZone htimeZone cron zone hcron hzone currentMinute
  refine ⟨later, ?_, hbounds⟩
  unfold nextCronOccurrence
  rw [hexpression]
  dsimp only
  rw [hcron]
  dsimp only
  rw [htimeZone]
  dsimp only
  rw [hzone]
  dsimp only
  rw [if_pos hclock, hfirst]
  by_cases hpast : Past currentMinute (minuteOf now * 60) first
  · cases hleads with
    | here _ => exact if_pos hpast
    | further hnot => exact absurd hpast hnot
  · exact (if_neg hpast).trans (hleads.advanceCursor hpast)

theorem minuteOf_small (hlow : 1 ≤ now) (hhigh : now ≤ clockMax) :
    0 ≤ minuteOf now ∧ minuteOf now < 10 ^ 12 := by
  unfold clockMax at hhigh
  unfold minuteOf
  omega

theorem inClock_of_due {next : Int} (hlow : 1 ≤ next) (hdue : next ≤ now)
    (hhigh : now ≤ clockMax) : InClock now := by
  unfold InClock clockMin
  omega

/-- A stale cron timer is refreshed to the current minute or later. -/
theorem Ready.refresh (h : Ready occurred stored)
    (hon : stored.definition.on = .schedule schedule endsAt) (hkind : schedule.kind = .cron)
    (hhigh : now ≤ clockMax)
    (hvalid : validateSchedule library schedule endsAt none = .ok ())
    (hcontinues : ∀ next, stored.nextDueAt = some next → next ≤ now →
      Continues library schedule endsAt next now) :
    ∃ refreshed, stored.refresh library schedule now = .ok refreshed ∧
      refreshed.definition = stored.definition ∧ Ready occurred refreshed ∧
      (stored.isStale schedule now = false → refreshed = stored) ∧
      ∃ next, refreshed.nextDueAt = some next ∧ minuteOf now * 60 ≤ next := by
  have hcron : schedule.kind ≠ .once := by
    rw [hkind]
    decide
  obtain ⟨next, hnext⟩ := h.continues schedule endsAt hon hcron
  by_cases hstale : minuteOf next < minuteOf now
  · have hdue : next ≤ now := by
      unfold minuteOf at hstale
      omega
    obtain ⟨later, hfound, hlow, hhigh⟩ := (hcontinues next hnext hdue).cron hkind hvalid
      (inClock_of_due (h.clock next hnext).1 hdue hhigh) true
    have hpast := nextCronOccurrence_after hfound
    have hminute : minuteOf now * 60 ≤ later := by
      rcases hpast with hlt | ⟨-, heq⟩
      · omega
      · omega
    have hisStale : stored.isStale schedule now = true := by
      unfold StoredRoutineBinding.isStale
      rw [hnext]
      simp [hkind, hstale]
    refine ⟨{ stored with nextDueAt := some later }, ?_, rfl, ⟨?_, ?_, h.matched, ?_⟩, ?_, later,
      rfl, hminute⟩
    · unfold StoredRoutineBinding.refresh
      rw [if_pos hisStale, hfound]
      rfl
    · intro other hother
      rw [← Option.some.inj hother]
      exact ⟨hlow, hhigh⟩
    · intro other hother time htime
      rw [← Option.some.inj hother]
      left
      rcases h.later next hnext time htime with hlt | ⟨-, -, hsame⟩
      · unfold minuteOf at *
        omega
      · unfold minuteOf at *
        omega
    · intro other otherEnds hother hothers
      exact ⟨later, rfl⟩
    · intro hfresh
      rw [hisStale] at hfresh
      cases hfresh
  · have hisStale : stored.isStale schedule now = false := by
      unfold StoredRoutineBinding.isStale
      rw [hnext]
      simp [hstale]
    refine ⟨stored, ?_, rfl, h, fun _ => rfl, next, hnext, ?_⟩
    · unfold StoredRoutineBinding.refresh
      rw [hisStale]
      rfl
    · unfold minuteOf at *
      omega

/-- What a poll of a timer does. -/
structure PolledTimer (library : CronLibrary) (occurred : Int → Prop)
    (stored after : StoredRoutineBinding Action) (changed : Bool) (due : Option Int) (now : Int) :
    Prop where
  succeeds : stored.poll library now = .ok (after, changed, due)
  definition : after.definition = stored.definition
  unchanged : changed = false → after = stored ∧ due = none
  fresh : ∀ time ∈ due, 1 ≤ time ∧ time ≤ now ∧ ¬ occurred time
  ready : Ready (fun time => occurred time ∨ time ∈ due) after

theorem Ready.idle (h : Ready occurred stored) :
    Ready (fun time => occurred time ∨ time ∈ (none : Option Int)) stored := by
  refine ⟨h.clock, ?_, h.matched, h.continues⟩
  intro next hnext time htime
  rcases htime with htime | htime
  · exact h.later next hnext time htime
  · cases htime

theorem Ready.poll_refreshed {refreshed : StoredRoutineBinding Action}
    (hon : stored.definition.on = .schedule schedule endsAt)
    (hrefresh : stored.refresh library schedule now = .ok refreshed)
    (hready : Ready occurred refreshed)
    (hstale : stored.isStale schedule now = false → refreshed = stored)
    (hnone : refreshed.nextDueAt = none → schedule.kind ≠ .cron)
    (hfires : ∀ next, refreshed.nextDueAt = some next → next ≤ now →
      (∀ end_ ∈ endsAt, next ≤ end_) → refreshed.lastMatchedMinute ≠ some (minuteOf now) →
      ¬ occurred next ∧ ∃ result, laterDue library schedule (some next) now = .ok result ∧
        Ready (fun time => occurred time ∨ time ∈ some next)
          { refreshed with
            nextDueAt := result
            lastMatchedMinute := some (minuteOf now) }) :
    ∃ after changed due, PolledTimer library occurred stored after changed due now := by
  obtain ⟨hdefinition, -⟩ := refresh_definition hrefresh
  have hrefreshed : refreshed.definition.on = .schedule schedule endsAt := by
    rw [hdefinition, hon]
  have hidle : (∀ time, refreshed.nextAt library now = some time →
      now < time ∨ refreshed.lastMatchedMinute = some (minuteOf now)) →
      ∃ after changed due, PolledTimer library occurred stored after changed due now := by
    intro hidle
    refine ⟨refreshed, stored.isStale schedule now, none, poll_idle hon hrefresh hidle,
      hdefinition, fun hunchanged => ⟨hstale hunchanged, rfl⟩, ?_, hready.idle⟩
    intro time htime
    cases htime
  cases hnext : refreshed.nextDueAt with
  | none =>
    refine hidle ?_
    intro time htime
    unfold StoredRoutineBinding.nextAt at htime
    rw [hrefreshed] at htime
    dsimp only at htime
    rw [hnext] at htime
    cases hkind : schedule.kind with
    | cron => exact absurd hkind (hnone hnext)
    | once | interval =>
      rw [hkind] at htime
      cases htime
  | some next =>
    have hat : refreshed.nextAt library now =
        if ∀ end_ ∈ endsAt, next ≤ end_ then some next else none :=
      nextAt_of_due hrefreshed hnext
    by_cases hdue : next ≤ now ∧ (∀ end_ ∈ endsAt, next ≤ end_) ∧
        refreshed.lastMatchedMinute ≠ some (minuteOf now)
    · obtain ⟨hpast, hends, hminute⟩ := hdue
      obtain ⟨hfresh, result, hresult, hafter⟩ := hfires next hnext hpast hends hminute
      rw [if_pos hends] at hat
      rw [← hnext] at hresult
      refine ⟨_, true, some next, poll_fires hon hrefresh hat hpast hminute hresult, hdefinition,
        fun hunchanged => absurd hunchanged (by decide), ?_, hafter⟩
      intro time htime
      rw [← Option.some.inj htime]
      exact ⟨(hready.clock next hnext).1, hpast, hfresh⟩
    · refine hidle ?_
      intro time htime
      rw [hat] at htime
      split at htime
      · rename_i hends
        rw [← Option.some.inj htime]
        by_cases hpast : next ≤ now
        · by_cases hminute : refreshed.lastMatchedMinute = some (minuteOf now)
          · exact .inr hminute
          · exact absurd ⟨hpast, hends, hminute⟩ hdue
        · exact .inl (by omega)
      · cases htime

theorem validateSchedule_interval {limit : Option Int}
    (hvalid : validateSchedule library schedule endsAt limit = .ok ())
    (hkind : schedule.kind = .interval) :
    ∃ every : Nat, schedule.everySeconds = some every ∧ 60 ≤ every := by
  unfold validateSchedule at hvalid
  obtain ⟨-, hvalid⟩ := bind_ok_iff.mp hvalid
  rw [hkind] at hvalid
  obtain ⟨hfields, hlength⟩ := bind_ok_iff.mp hvalid
  have hfields := rejectIf_ok_iff.mp hfields
  have hlength := rejectIf_ok_iff.mp hlength
  cases hevery : schedule.everySeconds with
  | none => simp [hevery] at hfields
  | some every =>
    rw [hevery] at hlength
    exact ⟨every, rfl, by simpa using hlength⟩

theorem Ready.fresh {next : Int} (h : Ready occurred stored) (hnext : stored.nextDueAt = some next)
    (hother : ¬ IsCron stored) {time : Int} (htime : occurred time) : time < next := by
  rcases h.later next hnext time htime with hlt | ⟨hcron, -⟩
  · exact hlt
  · exact absurd hcron hother

theorem not_isCron (hon : stored.definition.on = .schedule schedule endsAt)
    (hkind : schedule.kind ≠ .cron) : ¬ IsCron stored := by
  rintro ⟨other, otherEnds, hother, hcron⟩
  rw [hon] at hother
  injection hother with hschedule
  rw [← hschedule] at hcron
  exact hkind hcron

theorem Ready.poll (h : Ready occurred stored) (hhigh : now ≤ clockMax)
    (hvalid : ∀ schedule endsAt, stored.definition.on = .schedule schedule endsAt →
      validateSchedule library schedule endsAt none = .ok ())
    (hcontinues : ∀ schedule endsAt, stored.definition.on = .schedule schedule endsAt →
      ∀ next, stored.nextDueAt = some next → next ≤ now →
        Continues library schedule endsAt next now) :
    ∃ after changed due, PolledTimer library occurred stored after changed due now := by
  cases hon : stored.definition.on with
  | event source kind routineOutcome sessionOutcome customName =>
    have hpoll : stored.poll library now = .ok (stored, false, none) := by
      unfold StoredRoutineBinding.poll
      rw [hon]
    exact ⟨stored, false, none, hpoll, rfl, fun _ => ⟨rfl, rfl⟩,
      fun time htime => absurd htime (Option.not_mem_none time), h.idle⟩
  | schedule schedule endsAt =>
    have hvalid := hvalid schedule endsAt hon
    have hcontinues := hcontinues schedule endsAt hon
    have hminute : ∀ next, 1 ≤ next → next ≤ now → 0 ≤ minuteOf now ∧ minuteOf now < 10 ^ 12 :=
      fun next hlow hdue => minuteOf_small (le_trans hlow hdue) hhigh
    cases hkind : schedule.kind with
    | once =>
      have hne : schedule.kind ≠ .cron := by rw [hkind]; decide
      refine poll_refreshed hon (refresh_of_ne hne) h (fun _ => rfl) (fun _ => hne) ?_
      intro next hnext hdue _ _
      refine ⟨fun hoccurred => absurd (h.fresh hnext (not_isCron hon hne) hoccurred) (lt_irrefl _),
        none, by unfold laterDue; rw [hkind], ?_, ?_, ?_, ?_⟩
      · intro later hlater
        cases hlater
      · intro later hlater
        cases hlater
      · intro minute hmatched
        rw [← Option.some.inj hmatched]
        exact hminute next (h.clock next hnext).1 hdue
      · intro other otherEnds hother honce
        rw [show ({ stored with nextDueAt := none, lastMatchedMinute := some (minuteOf now) } :
          StoredRoutineBinding Action).definition.on = .schedule schedule endsAt from hon] at hother
        injection hother with hschedule
        rw [← hschedule] at honce
        exact absurd hkind honce
    | interval =>
      have hne : schedule.kind ≠ .cron := by rw [hkind]; decide
      obtain ⟨every, hevery, hlength⟩ := validateSchedule_interval hvalid hkind
      refine poll_refreshed hon (refresh_of_ne hne) h (fun _ => rfl) (fun _ => hne) ?_
      intro next hnext hdue hends _
      have hroom := hcontinues next hnext hdue
      unfold Continues at hroom
      rw [hkind] at hroom
      have hroom := hroom hends every hevery
      have hclock := h.clock next hnext
      have hgrid := grid_later hlength next now
      have hbound : (every : Int) * ((now - next) / every) ≤ now - next :=
        Int.mul_ediv_self_le (by omega)
      have hproduct : (every : Int) * ((now - next) / every + 1) =
          every * ((now - next) / every) + every := by ring
      refine ⟨fun hoccurred => absurd (h.fresh hnext (not_isCron hon hne) hoccurred) (lt_irrefl _),
        some (next + every * ((now - next) / every + 1)), ?_, ?_, ?_, ?_, ?_⟩
      · unfold laterDue
        rw [hkind]
        dsimp only
        rw [advanceInterval_eq hevery hlength (by unfold clockMin; omega) hdue hhigh
          (by unfold clockMin; omega)]
        rfl
      · intro later hlater
        have hlater := Option.some.inj hlater
        omega
      · intro later hlater time htime
        have hlater := Option.some.inj hlater
        left
        rcases htime with htime | htime
        · have hearlier := h.fresh hnext (not_isCron hon hne) htime
          omega
        · have hsame := Option.some.inj htime
          omega
      · intro minute hmatched
        rw [← Option.some.inj hmatched]
        exact hminute next hclock.1 hdue
      · intro _ _ _ _
        exact ⟨_, rfl⟩
    | cron =>
      obtain ⟨refreshed, hrefresh, hdefinition, hready, hstale, next, hnext, hcurrent⟩ :=
        h.refresh hon hkind hhigh hvalid hcontinues
      have hcron : IsCron refreshed := ⟨schedule, endsAt, by rw [hdefinition, hon], hkind⟩
      refine poll_refreshed hon hrefresh hready hstale (fun hnone => ?_) ?_
      · cases hnext.symm.trans hnone
      intro other hother hdue _ hunmatched
      have hsame := Option.some.inj (hnext.symm.trans hother)
      rw [← hsame] at hdue ⊢
      have hminutes : minuteOf next = minuteOf now := by
        unfold minuteOf at hcurrent ⊢
        omega
      have hstrict : ∀ time, occurred time → time < next := by
        intro time htime
        rcases hready.later next hnext time htime with hlt | ⟨-, hmatched, hminuteOf⟩
        · exact hlt
        · rw [← hminuteOf, hminutes] at hmatched
          exact absurd hmatched hunmatched
      have hlater : ∃ later, nextCronOccurrence library schedule now false = .ok later ∧
          1 ≤ later ∧ later ≤ clockMax := by
        obtain ⟨first, hfirst⟩ := h.continues schedule endsAt hon (by rw [hkind]; decide)
        have hfirstDue : first ≤ now := by
          by_cases hfresh : stored.isStale schedule now = false
          · rw [hstale hfresh, hfirst] at hnext
            have hequal := Option.some.inj hnext
            omega
          · have hstaleNow : minuteOf first < minuteOf now := by
              unfold StoredRoutineBinding.isStale at hfresh
              rw [hfirst] at hfresh
              simpa [hkind] using hfresh
            unfold minuteOf at hstaleNow
            omega
        exact (hcontinues first hfirst hfirstDue).cron hkind hvalid
          (inClock_of_due (h.clock first hfirst).1 hfirstDue hhigh) false
      obtain ⟨later, hfound, hlaterLow, hlaterHigh⟩ := hlater
      have hpast : minuteOf now * 60 < later := by
        rcases nextCronOccurrence_after hfound with hlt | ⟨hfalse, -⟩
        · exact hlt
        · cases hfalse
      refine ⟨fun hoccurred => absurd (hstrict next hoccurred) (lt_irrefl _), some later, ?_, ?_, ?_,
        ?_, ?_⟩
      · unfold laterDue
        rw [hkind]
        dsimp only
        rw [hfound]
        rfl
      · intro result hresult
        rw [← Option.some.inj hresult]
        exact ⟨hlaterLow, hlaterHigh⟩
      · intro result hresult time htime
        have hresult := Option.some.inj hresult
        have hbefore : time ≤ next := by
          rcases htime with htime | htime
          · exact le_of_lt (hstrict time htime)
          · exact le_of_eq (Option.some.inj htime).symm
        by_cases hlt : time < result
        · exact .inl hlt
        · right
          refine ⟨hcron, ?_, ?_⟩
          · rw [Option.some.injEq]
            unfold minuteOf at *
            omega
          · unfold minuteOf at *
            omega
      · intro minute hmatched
        rw [← Option.some.inj hmatched]
        exact hminute next (hready.clock next hnext).1 hdue
      · intro _ _ _ _
        exact ⟨later, rfl⟩

theorem Ready.mono {others : Int → Prop} (h : Ready others stored)
    (hsub : ∀ time, occurred time → others time) : Ready occurred stored :=
  ⟨h.clock, fun next hnext time htime => h.later next hnext time (hsub time htime), h.matched,
    h.continues⟩

end Timers

section Records

variable {host : Host} {state : BotState} {routine : StoredRoutine}

variable {id : String} {ids : List String} {limit : Option Int} {library : CronLibrary}

theorem validateUuid_ok {invalid : String} (h : validateUuid host id invalid = .ok ()) :
    host.parseUuid id = .ok id := by
  unfold validateUuid at h
  cases hparse : host.parseUuid id with
  | error error =>
    rw [hparse] at h
    cases h
  | ok text =>
    rw [hparse] at h
    have hsame : text = id := by simpa using rejectIf_ok_iff.mp h
    rw [hsame]

theorem validateUuid_of_parsed (invalid : String) (h : host.parseUuid id = .ok id) :
    validateUuid host id invalid = .ok () := by
  unfold validateUuid
  rw [h]
  exact rejectIf_ok_iff.mpr (by simp)

def SafeId (id : String) : Prop := validateBindingId id [] = .ok ()

theorem validateBindingId_ok_iff :
    validateBindingId id ids = .ok () ↔ SafeId id ∧ id ∉ ids := by
  unfold SafeId validateBindingId
  rw [rejectIf_ok_iff, rejectIf_ok_iff, Bool.or_eq_false_iff, Bool.or_eq_false_iff]
  simp

/-- The bindings of a routine are valid iff each of them is and their identities are distinct. -/
theorem validateBindingList_ok_iff {bindings : List RoutineBinding} {depth : Nat} :
    validateBindingList library limit bindings depth ids = .ok () ↔
      (∀ binding ∈ bindings, SafeId binding.id ∧ binding.id ∉ ids ∧
        validateTrigger library limit binding.on = .ok () ∧
        validateRoutineAction library limit binding.action depth = .ok ()) ∧
      (bindings.map (·.id)).Nodup := by
  induction bindings generalizing ids with
  | nil =>
    unfold validateBindingList
    simp
  | cons binding rest ih =>
    obtain ⟨id, on, action⟩ := binding
    unfold validateBindingList
    rw [bind_ok_iff, bind_ok_iff, bind_ok_iff, ih, validateBindingId_ok_iff, List.forall_mem_cons,
      List.map_cons, List.nodup_cons]
    constructor
    · rintro ⟨⟨hsafe, hnew⟩, htrigger, haction, hrest, hnodup⟩
      refine ⟨⟨⟨hsafe, hnew, htrigger, haction⟩, ?_⟩, ?_, hnodup⟩
      · intro other hother
        obtain ⟨hother, hfresh, hvalid⟩ := hrest other hother
        exact ⟨hother, fun hmem => hfresh (List.mem_cons_of_mem _ hmem), hvalid⟩
      · intro hmem
        obtain ⟨other, hother, hsame⟩ := List.mem_map.mp hmem
        exact (hrest other hother).2.1 (hsame ▸ List.mem_cons_self)
    · rintro ⟨⟨⟨hsafe, hnew, htrigger, haction⟩, hrest⟩, hdistinct, hnodup⟩
      refine ⟨⟨hsafe, hnew⟩, htrigger, haction, ?_, hnodup⟩
      intro other hother
      obtain ⟨hsafeOther, hfresh, hvalid⟩ := hrest other hother
      refine ⟨hsafeOther, ?_, hvalid⟩
      intro hmem
      rcases List.mem_cons.mp hmem with hsame | hmem
      · exact hdistinct (List.mem_map.mpr ⟨other, hother, hsame⟩)
      · exact hfresh hmem

theorem validateBindings_ok {bindings : List RoutineBinding} {depth : Nat}
    (h : validateBindings library limit bindings depth = .ok ()) :
    (∀ binding ∈ bindings, binding.id.utf8ByteSize ≤ 128 ∧
      binding.id.toList.any isControl = false ∧
      validateTrigger library limit binding.on = .ok ()) ∧
    (bindings.map (·.id)).Nodup := by
  unfold validateBindings at h
  obtain ⟨-, h⟩ := bind_ok_iff.mp h
  obtain ⟨hbindings, hnodup⟩ := validateBindingList_ok_iff.mp h
  refine ⟨?_, hnodup⟩
  intro binding hbinding
  obtain ⟨hsafe, -, htrigger, -⟩ := hbindings binding hbinding
  have hid := rejectIf_ok_iff.mp hsafe
  simp only [Bool.or_eq_false_iff, decide_eq_false_iff_not, Nat.not_lt] at hid
  exact ⟨hid.1.1.2, hid.1.2, htrigger⟩

theorem validateTrigger_schedule {schedule : RoutineSchedule} {endsAt : Option Int}
    (h : validateTrigger library limit (.schedule schedule endsAt) = .ok ()) :
    validateSchedule library schedule endsAt limit = .ok () := by
  unfold validateTrigger at h
  exact (bind_ok_iff.mp h).2

/-- What is known of a routine read from disk. -/
structure RoutineValid (host : Host) (routine : StoredRoutine) : Prop where
  id : host.parseUuid routine.id = .ok routine.id
  workspace : validateStoredWorkspace routine.workspace = .ok ()
  /-- The file of instructions lies in the directory of routines. -/
  inside : isAbsolute routine.instructions = true ∧
    parentIs routine.instructions host.routinesDir = true
  bindings : validateBindings host.library none (routine.bindings.map (·.definition)) 0 = .ok ()
  due : ∀ stored ∈ routine.bindings, ∀ next, stored.nextDueAt = some next → 1 ≤ next

theorem validateRoutineRecord_ok_iff :
    validateRoutineRecord host routine = .ok () ↔ RoutineValid host routine := by
  unfold validateRoutineRecord
  rw [bind_ok_iff, bind_ok_iff, bind_ok_iff, bind_ok_iff, rejectIf_ok_iff, rejectIf_ok_iff,
    Bool.or_eq_false_iff, Bool.not_eq_false', Bool.not_eq_false', List.any_eq_false]
  constructor
  · rintro ⟨hid, hworkspace, hinside, hbindings, hdue⟩
    refine ⟨validateUuid_ok hid, hworkspace, hinside, hbindings, ?_⟩
    intro stored hstored next hnext
    have hpositive := hdue stored hstored
    rw [hnext] at hpositive
    simp only [Option.any_some, decide_eq_true_eq] at hpositive
    omega
  · rintro ⟨hid, hworkspace, hinside, hbindings, hdue⟩
    refine ⟨validateUuid_of_parsed _ hid, hworkspace, hinside, hbindings, ?_⟩
    intro stored hstored
    cases hnext : stored.nextDueAt with
    | none => simp
    | some next =>
      have hpositive := hdue stored hstored next hnext
      simp only [Option.any_some, decide_eq_true_eq]
      omega

theorem validateRoutineSet_ok_iff {botIds : List String} {paths : List (List PathComponent)}
    {routines : List StoredRoutine} :
    validateRoutineSet botIds routines ids paths = .ok () ↔
      ((routines.map (·.id)).Nodup ∧ ∀ routine ∈ routines, routine.id ∉ ids) ∧
      (∀ routine ∈ routines, routine.botId ∈ botIds) ∧
      ((routines.map fun routine => pathComponents routine.instructions).Nodup ∧
        ∀ routine ∈ routines, pathComponents routine.instructions ∉ paths) := by
  induction routines generalizing ids paths with
  | nil => simp [validateRoutineSet]
  | cons routine rest ih =>
    unfold validateRoutineSet
    rw [bind_ok_iff, bind_ok_iff, bind_ok_iff, rejectIf_ok_iff, rejectIf_ok_iff, rejectIf_ok_iff,
      ih, List.forall_mem_cons, List.forall_mem_cons, List.forall_mem_cons]
    simp only [List.map_cons, List.nodup_cons, List.mem_cons, not_or, List.contains_iff_mem,
      List.mem_map, not_exists, not_and, Bool.eq_false_iff, ne_eq, Bool.not_eq_true',
      not_not]
    constructor
    · rintro ⟨hid, hbot, hpath, ⟨hids, hfresh⟩, hbots, hpaths, hfreshPaths⟩
      exact ⟨⟨⟨fun other hother heq => (hfresh other hother).1 heq, hids⟩, hid,
        fun other hother => (hfresh other hother).2⟩, ⟨hbot, hbots⟩,
        ⟨fun other hother heq => (hfreshPaths other hother).1 heq, hpaths⟩, hpath,
        fun other hother => (hfreshPaths other hother).2⟩
    · rintro ⟨⟨⟨hnew, hids⟩, hid, hfresh⟩, ⟨hbot, hbots⟩, ⟨hnewPath, hpaths⟩, hpath, hfreshPaths⟩
      exact ⟨hid, hbot, hpath, ⟨hids, fun other hother =>
        ⟨fun heq => hnew other hother heq, hfresh other hother⟩⟩, hbots, hpaths,
        fun other hother => ⟨fun heq => hnewPath other hother heq, hfreshPaths other hother⟩⟩

/-- The rule that spans a pending deletion and its Bot. -/
def PendingRevision (state : BotState) : Prop :=
  (state.pendingBotDeletion.any fun pending =>
    (state.bots.find? (·.id = pending.botId)).any fun bot =>
      decide (bot.revision ≠ pending.expectedRevision)) = false

/-- What is known of a catalog read from disk. -/
structure StateValid (host : Host) (state : BotState) : Prop where
  version : (state.version != stateVersion) = false
  bots : ∀ bot ∈ state.bots, validateBotRecord host bot = .ok ()
  routines : ∀ routine ∈ state.routines, RoutineValid host routine
  pending : ∀ pending ∈ state.pendingBotDeletion.toList,
    validatePendingDeletion host pending = .ok ()
  botSet : validateBotSet state.bots [] [] = .ok ()
  ids : (state.routines.map (·.id)).Nodup
  owners : ∀ routine ∈ state.routines, routine.botId ∈ state.bots.map (·.id)
  paths : (state.routines.map fun routine => pathComponents routine.instructions).Nodup
  revision : PendingRevision state

theorem validateState_ok_iff : validateState state = .ok () ↔
    validateBotSet state.bots [] [] = .ok () ∧ (state.routines.map (·.id)).Nodup ∧
      (∀ routine ∈ state.routines, routine.botId ∈ state.bots.map (·.id)) ∧
      (state.routines.map fun routine => pathComponents routine.instructions).Nodup ∧
      PendingRevision state := by
  unfold validateState
  rw [bind_ok_iff, bind_ok_iff, rejectIf_ok_iff, validateRoutineSet_ok_iff]
  constructor
  · rintro ⟨hbots, ⟨⟨hids, -⟩, howners, hpaths, -⟩, hrevision⟩
    exact ⟨hbots, hids, howners, hpaths, hrevision⟩
  · rintro ⟨hbots, hids, howners, hpaths, hrevision⟩
    exact ⟨hbots, ⟨⟨hids, fun _ _ => List.not_mem_nil⟩, howners, hpaths,
      fun _ _ => List.not_mem_nil⟩, hrevision⟩

theorem validateRecords_ok_iff : validateRecords host state = .ok () ↔ StateValid host state := by
  unfold validateRecords
  rw [bind_ok_iff, bind_ok_iff, bind_ok_iff, bind_ok_iff, rejectIf_ok_iff, validateState_ok_iff]
  constructor
  · rintro ⟨hversion, hbots, hroutines, hpending, hbotSet, hids, howners, hpaths, hrevision⟩
    refine ⟨hversion, (forM_ok_iff _ _).mp hbots, ?_, (forM_ok_iff _ _).mp hpending, hbotSet, hids,
      howners, hpaths, hrevision⟩
    intro routine hroutine
    exact validateRoutineRecord_ok_iff.mp ((forM_ok_iff _ _).mp hroutines routine hroutine)
  · intro h
    refine ⟨h.version, (forM_ok_iff _ _).mpr h.bots, (forM_ok_iff _ _).mpr ?_,
      (forM_ok_iff _ _).mpr h.pending, h.botSet, h.ids, h.owners, h.paths, h.revision⟩
    intro routine hroutine
    exact validateRoutineRecord_ok_iff.mpr (h.routines routine hroutine)

theorem StateValid.bot_id (h : StateValid host state) (hroutine : routine ∈ state.routines) :
    host.parseUuid routine.botId = .ok routine.botId := by
  obtain ⟨bot, hbot, hid⟩ := List.mem_map.mp (h.owners routine hroutine)
  have hvalid := h.bots bot hbot
  unfold validateBotRecord at hvalid
  rw [← hid]
  exact validateUuid_ok (bind_ok_iff.mp hvalid).1

end Records

section Ticks

variable {host : Host} {tables after : HookTables} {now : Int}

/-- A timer after a poll that succeeds. -/
def polled (library : CronLibrary) (now : Int) (stored : StoredRoutineBinding RoutineAction) :
    StoredRoutineBinding RoutineAction × Bool × Option Int :=
  match stored.poll library now with
  | .ok result => result
  | .error _ => (stored, false, none)

/-- The occurrences of a timer. -/
def dueEvents (host : Host) (now : Int) (routine : StoredRoutine)
    (stored : StoredRoutineBinding RoutineAction) : List HookEvent :=
  ((polled host.library now stored).2.2.map fun time =>
    occurrenceEvent host routine stored.definition.id time now).toList

def polledRoutine (host : Host) (now : Int) (routine : StoredRoutine) : StoredRoutine :=
  if routine.enabled then
    { routine with bindings := routine.bindings.map fun stored => (polled host.library now stored).1 }
  else routine

def routineOccurrences (host : Host) (now : Int) (routine : StoredRoutine) : List HookEvent :=
  if routine.enabled then routine.bindings.flatMap (dueEvents host now routine) else []

def routineChanged (host : Host) (now : Int) (routine : StoredRoutine) : Bool :=
  routine.enabled && routine.bindings.any fun stored => (polled host.library now stored).2.1

variable {routine : StoredRoutine}

theorem pollBindings_eq {bindings : List (StoredRoutineBinding RoutineAction)}
    (h : ∀ stored ∈ bindings, ∃ result, stored.poll host.library now = .ok result) :
    pollBindings host routine now bindings =
      .ok ⟨bindings.map fun stored => (polled host.library now stored).1,
        bindings.any fun stored => (polled host.library now stored).2.1,
        bindings.flatMap (dueEvents host now routine)⟩ := by
  induction bindings with
  | nil => rfl
  | cons stored rest ih =>
    rw [List.forall_mem_cons] at h
    obtain ⟨result, hresult⟩ := h.1
    have hpolled : polled host.library now stored = result := by
      unfold polled
      rw [hresult]
    unfold pollBindings
    rw [hresult, ih h.2]
    simp only [List.map_cons, List.any_cons, List.flatMap_cons, dueEvents, hpolled]
    rfl

theorem pollRoutines_eq {routines : List StoredRoutine}
    (h : ∀ routine ∈ routines, routine.enabled = true → ∀ stored ∈ routine.bindings,
      ∃ result, stored.poll host.library now = .ok result) :
    pollRoutines host now routines =
      .ok ⟨routines.map (polledRoutine host now), routines.any (routineChanged host now),
        routines.flatMap (routineOccurrences host now)⟩ := by
  induction routines with
  | nil => rfl
  | cons routine rest ih =>
    rw [List.forall_mem_cons] at h
    unfold pollRoutines
    simp only [List.map_cons, List.any_cons, List.flatMap_cons]
    by_cases henabled : routine.enabled = true
    · rw [if_pos henabled, pollBindings_eq (h.1 henabled), ih h.2]
      simp only [polledRoutine, routineChanged, routineOccurrences, henabled, Bool.true_and]
      rfl
    · rw [if_neg henabled, ih h.2]
      simp only [polledRoutine, routineChanged, routineOccurrences,
        Bool.eq_false_iff.mpr henabled, Bool.false_and, Bool.false_or]
      rfl

/-- An occurrence of a timer is recorded. -/
def Occurred (host : Host) (tables : HookTables) (routineId bindingId : String) (time : Int) :
    Prop :=
  1 ≤ time ∧ ∃ event ∈ tables.events, event.id = occurrenceId host routineId bindingId time

/-- A timer has an identity that is not blank. -/
def TimerNamed (definition : RoutineBinding) : Prop :=
  ∀ schedule endsAt, definition.on = .schedule schedule endsAt → isBlank definition.id = false

theorem polled_schedule {library : CronLibrary} {stored : StoredRoutineBinding RoutineAction}
    {time : Int} (h : time ∈ (polled library now stored).2.2) :
    ∃ schedule endsAt, stored.definition.on = .schedule schedule endsAt := by
  cases hon : stored.definition.on with
  | schedule schedule endsAt => exact ⟨schedule, endsAt, rfl⟩
  | event source kind routineOutcome sessionOutcome customName =>
    unfold polled StoredRoutineBinding.poll at h
    rw [hon] at h
    cases h

/-- What is known of a timer in the catalog. -/
structure TimerSound (host : Host) (tables : HookTables) (routineId : String)
    (stored : StoredRoutineBinding RoutineAction) : Prop where
  named : TimerNamed stored.definition
  ready : Ready (Occurred host tables routineId stored.definition.id) stored

/-- What is known of the catalog. -/
structure CatalogSound (host : Host) (tables : HookTables) (state : BotState) : Prop where
  bytes : catalogBytes host state ≤ maxStateBytes
  configs : ∀ bot ∈ state.bots, host.validateStored bot.config = .ok ()
  valid : StateValid host state
  pending : state.pendingBotDeletion = none
  held : Held tables state.routines
  timers : ∀ routine ∈ state.routines, ∀ stored ∈ routine.bindings,
    TimerSound host tables routine.id stored

/-- What is known of the store. -/
structure Sound (host : Host) (store : BotStore) : Prop where
  tidy : Tidy host.digest store.database.hooks
  catalog : ∀ state, store.database.catalog = some state →
    CatalogSound host store.database.hooks state

theorem mem_occurrences {routines : List StoredRoutine} {event : HookEvent} :
    event ∈ routines.flatMap (routineOccurrences host now) ↔
      ∃ routine ∈ routines, routine.enabled = true ∧ ∃ stored ∈ routine.bindings,
        ∃ time ∈ (polled host.library now stored).2.2,
          event = occurrenceEvent host routine stored.definition.id time now := by
  rw [List.mem_flatMap]
  refine exists_congr fun routine => and_congr_right fun _ => ?_
  unfold routineOccurrences
  split
  · rename_i henabled
    rw [List.mem_flatMap]
    simp only [henabled, true_and]
    refine exists_congr fun stored => and_congr_right fun _ => ?_
    unfold dueEvents
    simp only [Option.mem_toList, Option.map_eq_some_iff, Option.mem_def]
    exact exists_congr fun time => and_congr_right fun _ => eq_comm
  · rename_i hdisabled
    simp [hdisabled]

theorem HostLaws.outboxId_event (laws : HostLaws host)
    {eventId eventId' botId botId' bindingId bindingId' : String}
    (h : outboxId host.digest eventId botId bindingId =
      outboxId host.digest eventId' botId' bindingId') : eventId = eventId' := by
  have hlist := congrArg String.toList h
  simp only [outboxId, stableId, String.toList_append] at hlist
  have htext := List.append_cancel_left hlist
  simp only [String.toList_inj] at htext
  exact (laws.digest_injective _ _ _ _ htext).1

theorem HostLaws.recordEvent_of_new (laws : HostLaws host) (htidy : Tidy host.digest tables)
    {event : HookEvent} {sequence : Option Nat} (hvalid : validateEvent event = .ok ())
    (hsource : ∀ botId, event.source ≠ .bot botId) (hnone : tables.event? event.id = none)
    (hsequence : ∀ n ∈ sequence, (n : Int) ≤ i64Max) :
    recordEvent host.digest tables event sequence =
      .ok (true, withEvent host.digest tables event sequence) := by
  have hbots : ∀ row ∈ candidateBindings tables event, row.botId = event.botId := by
    intro row hrow
    have hmatch := (List.mem_filter.mp hrow).2
    cases hsrc : event.source with
    | bot botId => exact absurd hsrc (hsource botId)
    | routine _ | session _ | schedule _ _ | gateway | client _ =>
      simp [hsrc] at hmatch; exact hmatch.2
  have hkeys : ((candidateBindings tables event).map fun row => (row.botId, row.id)).Nodup :=
    htidy.keys.sublist (List.Sublist.map _ List.filter_sublist)
  have hnodup : ((candidateBindings tables event).map fun row =>
      (outboxRow host.digest event row).id).Nodup := by
    refine List.Nodup.map_on ?_ (List.Nodup.of_map _ hkeys)
    intro first hfirst second hsecond hids
    have hbot : first.botId = second.botId :=
      (hbots first hfirst).trans (hbots second hsecond).symm
    have hactions : outboxId host.digest event.id second.botId first.id =
        outboxId host.digest event.id second.botId second.id := by
      rw [← hbot]
      exact hids.trans (by rw [hbot]; rfl)
    refine List.inj_on_of_nodup_map hkeys hfirst hsecond ?_
    rw [Prod.mk.injEq]
    exact ⟨hbot, (laws.outboxId_inj hactions).2⟩
  refine recordEvent_of_fresh hvalid hnone hsequence hnodup ?_
  intro row _ other hother hids
  rw [htidy.identities other hother] at hids
  have hevent := laws.outboxId_event hids
  obtain ⟨cause, hcause, hid⟩ := htidy.caused other hother
  have hunknown := List.find?_eq_none.mp hnone cause hcause
  simp [hid, hevent] at hunknown

theorem recordEvents_of_consistent (laws : HostLaws host) {events : List HookEvent}
    (htidy : Tidy host.digest tables)
    (hvalid : ∀ event ∈ events, validateEvent event = .ok ())
    (hsource : ∀ event ∈ events, ∀ botId, event.source ≠ .bot botId)
    (hrecorded : ∀ event ∈ events, ∀ old ∈ tables.events, old.id = event.id → old = event)
    (hsame : ∀ event ∈ events, ∀ other ∈ events, other.id = event.id → other = event) :
    ∃ after, recordEvents host events tables = .ok after ∧ Tidy host.digest after ∧
      after.bindings = tables.bindings ∧
      ∀ event ∈ after.events, event ∈ tables.events ∨ event ∈ events := by
  induction events generalizing tables with
  | nil => exact ⟨tables, rfl, htidy, rfl, fun event hevent => .inl hevent⟩
  | cons event rest ih =>
    have hstep : ∃ isNew between, recordEvent host.digest tables event none =
        .ok (isNew, between) := by
      cases hprevious : tables.event? event.id with
      | some previous =>
        have hmem := List.mem_of_find?_eq_some hprevious
        have hid : previous.id = event.id := by simpa using List.find?_some hprevious
        have hequal := hrecorded event List.mem_cons_self previous hmem hid
        refine ⟨false, tables, ?_⟩
        unfold recordEvent
        rw [hvalid event List.mem_cons_self, hprevious, hequal]
        refine except_bind_ok_iff.mpr ⟨(), rfl, ?_⟩
        exact except_bind_ok_iff.mpr
          ⟨(), rejectIf_ok_iff.mpr (by simp), rfl⟩
      | none =>
        refine ⟨true, _, laws.recordEvent_of_new htidy (hvalid event List.mem_cons_self)
          (hsource event List.mem_cons_self) hprevious ?_⟩
        intro n hn
        cases hn
    obtain ⟨isNew, between, hbetween⟩ := hstep
    obtain ⟨htidy', hbindings, hevents⟩ := htidy.record hbetween
    have hmem : ∀ old ∈ between.events, old ∈ tables.events ∨ old = event := by
      intro old hold
      rcases hevents with hsameEvents | happended
      · exact .inl (hsameEvents ▸ hold)
      · rw [happended, List.mem_append, List.mem_singleton] at hold
        exact hold
    obtain ⟨after, hafter, htidyAfter, hbindingsAfter, heventsAfter⟩ := ih htidy'
      (fun later hlater => hvalid later (List.mem_cons_of_mem _ hlater))
      (fun later hlater => hsource later (List.mem_cons_of_mem _ hlater))
      (fun later hlater old hold hid => by
        rcases hmem old hold with hold | rfl
        · exact hrecorded later (List.mem_cons_of_mem _ hlater) old hold hid
        · exact hsame later (List.mem_cons_of_mem _ hlater) old List.mem_cons_self hid)
      (fun later hlater other hother =>
        hsame later (List.mem_cons_of_mem _ hlater) other (List.mem_cons_of_mem _ hother))
    refine ⟨after, ?_, htidyAfter, hbindingsAfter.trans hbindings, ?_⟩
    · unfold recordEvents
      rw [hbetween]
      exact hafter
    · intro later hlater
      rcases heventsAfter later hlater with hbefore | hrest
      · rcases hmem later hbefore with hold | rfl
        · exact .inl hold
        · exact .inr List.mem_cons_self
      · exact .inr (List.mem_cons_of_mem _ hrest)

/-- The catalog has room for its timers at any time. -/
def Roomy (host : Host) (state : BotState) : Prop :=
  host.frameBytes state.untimed + 25 * state.timers.length ≤ maxStateBytes

/-- A time at which the catalog can be polled. -/
structure Pollable (host : Host) (store : BotStore) (now : Int) : Prop where
  clock : InClock now
  roomy : ∀ state, store.database.catalog = some state → Roomy host state
  continues : ∀ state, store.database.catalog = some state → ∀ routine ∈ state.routines,
    routine.enabled = true → ∀ stored ∈ routine.bindings, ∀ schedule endsAt,
      stored.definition.on = .schedule schedule endsAt → ∀ next, stored.nextDueAt = some next →
        next ≤ now → Continues host.library schedule endsAt next now

theorem Ready.bytes {occurred : Int → Prop} {stored : StoredRoutineBinding RoutineAction}
    (h : Ready occurred stored) : timerBytes stored ≤ 25 := by
  have hnext : optionalLength stored.nextDueAt ≤ 13 := by
    unfold optionalLength
    cases hdue : stored.nextDueAt with
    | none => decide
    | some next =>
      obtain ⟨hlow, hhigh⟩ := h.clock next hdue
      unfold clockMax at hhigh
      exact integerLength_le (by omega) (by omega) (by omega)
  have hminute : optionalLength stored.lastMatchedMinute ≤ 12 := by
    unfold optionalLength
    cases hmatched : stored.lastMatchedMinute with
    | none => decide
    | some minute =>
      obtain ⟨hlow, hhigh⟩ := h.matched minute hmatched
      exact integerLength_le hlow (by omega) hhigh
  unfold timerBytes
  omega

theorem catalogBytes_le {state : BotState} (hroomy : Roomy host state)
    (htimers : ∀ stored ∈ state.timers, timerBytes stored ≤ 25) :
    catalogBytes host state ≤ maxStateBytes := by
  have hsum : (state.timers.map timerBytes).sum ≤ state.timers.length * 25 := by
    have hle := List.sum_le_card_nsmul (state.timers.map timerBytes) 25 (by
      intro bytes hbytes
      obtain ⟨stored, hstored, rfl⟩ := List.mem_map.mp hbytes
      exact htimers stored hstored)
    rw [List.length_map] at hle
    exact hle
  unfold Roomy at hroomy
  unfold catalogBytes
  omega

theorem CatalogSound.poll {state : BotState} (h : CatalogSound host tables state)
    (hhigh : now ≤ clockMax) (hroutine : routine ∈ state.routines)
    {stored : StoredRoutineBinding RoutineAction} (hstored : stored ∈ routine.bindings)
    (hcontinues : ∀ schedule endsAt, stored.definition.on = .schedule schedule endsAt →
      ∀ next, stored.nextDueAt = some next → next ≤ now →
        Continues host.library schedule endsAt next now) :
    PolledTimer host.library (Occurred host tables routine.id stored.definition.id) stored
      (polled host.library now stored).1 (polled host.library now stored).2.1
      (polled host.library now stored).2.2 now := by
  obtain ⟨hbindings, -⟩ := validateBindings_ok (h.valid.routines routine hroutine).bindings
  obtain ⟨-, -, htrigger⟩ :=
    hbindings stored.definition (List.mem_map.mpr ⟨stored, hstored, rfl⟩)
  obtain ⟨after, changed, due, hpolled⟩ :=
    (h.timers routine hroutine stored hstored).ready.poll hhigh
      (fun schedule endsAt hon => validateTrigger_schedule (hon ▸ htrigger)) hcontinues
  have hresult : polled host.library now stored = (after, changed, due) := by
    unfold polled
    rw [hpolled.succeeds]
  rw [hresult]
  exact hpolled

theorem polledRoutine_frame (routine : StoredRoutine) :
    (polledRoutine host now routine).id = routine.id ∧
      (polledRoutine host now routine).botId = routine.botId ∧
      (polledRoutine host now routine).workspace = routine.workspace ∧
      (polledRoutine host now routine).instructions = routine.instructions ∧
      (polledRoutine host now routine).enabled = routine.enabled := by
  unfold polledRoutine
  split
  · exact ⟨rfl, rfl, rfl, rfl, rfl⟩
  · exact ⟨rfl, rfl, rfl, rfl, rfl⟩

theorem polledRoutine_bindings
    (hdefinition : routine.enabled = true → ∀ stored ∈ routine.bindings,
      (polled host.library now stored).1.definition = stored.definition) :
    (polledRoutine host now routine).bindings.map (·.definition) =
      routine.bindings.map (·.definition) := by
  unfold polledRoutine
  split
  · rename_i henabled
    rw [List.map_map]
    exact List.map_congr_left (hdefinition henabled)
  · rfl

theorem polledRoutine_untimed
    (h : (polledRoutine host now routine).bindings.map (·.definition) =
      routine.bindings.map (·.definition)) :
    (polledRoutine host now routine).untimed = routine.untimed := by
  have hbindings : (polledRoutine host now routine).bindings.map
      (fun binding => (⟨binding.definition, none, none⟩ : StoredRoutineBinding RoutineAction)) =
      routine.bindings.map fun binding => ⟨binding.definition, none, none⟩ := by
    have hmap := congrArg (List.map fun definition =>
      (⟨definition, none, none⟩ : StoredRoutineBinding RoutineAction)) h
    rw [List.map_map, List.map_map] at hmap
    exact hmap
  obtain ⟨hid, hbot, hworkspace, hinstructions, henabled⟩ :=
    @polledRoutine_frame host now routine
  unfold StoredRoutine.untimed
  rw [hbindings, hid, hbot, hworkspace, hinstructions, henabled]

end Ticks

end MobiusAgent.RoutinePolling
