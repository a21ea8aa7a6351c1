import Mathlib.Algebra.Ring.Nat
import MobiusAgent.StoreRefinement

/-!
# When a save is accepted

A save of an existing session is accepted exactly under a condition on the
offer and the stored checkpoint, and if its events can be journalled: each
meets the conditions of `store_event` on the journal that the earlier ones
leave. They depend on the journal of the session only, so they can be asked of
the tables before the save.
-/

namespace MobiusAgent.StoreAcceptance

open JsonValue ProtocolEvents CheckpointRecords CheckpointValidation StoreTables
open StoreTransactions StoreContext StoreRefinement

section Journalling

variable {Text : Type}

def phaseRows (rows : List (EventRow Text)) (phase : ModelStepContentPhase) :
    List (EventRow Text) :=
  rows.filter fun row => decide (row.streamPhase = some phase)

def phaseBytes (rows : List (EventRow Text)) (phase : ModelStepContentPhase) : Nat :=
  ((phaseRows rows phase).map fun row => (row.deltaBytes.getD 0).toNat).sum

def phaseCounts (accs : PhaseMetrics) : ModelStepContentPhase → StreamMetricAccumulator
  | .reasoning => accs.reasoning
  | .commentary => accs.commentary
  | .finalAnswer => accs.finalAnswer

/-- The deltas of a model step can be counted, on top of some counts. -/
structure StreamsFit (accs : PhaseMetrics) (rows : List (EventRow Text)) : Prop where
  lengths : ∀ row ∈ rows, row.streamPhase.isSome → 0 ≤ row.deltaBytes.getD 0
  chunks : ∀ phase, (phaseCounts accs phase).chunkCount + (phaseRows rows phase).length ≤ u64Max
  bytes : ∀ phase, (phaseCounts accs phase).utf8Bytes + phaseBytes rows phase ≤ u64Max

/-- What `store_event` asks of one event and the journal of its session. -/
structure EventFits (tables : Tables Text) (id : SessionId) (event : TimestampedEvent) :
    Prop where
  time : 0 ≤ event.recordedAtMs
  delta : ∀ delta, event.event.msg = .assistantContentDelta delta →
    (delta.delta.utf8ByteSize : Int) ≤ i64Max
  sequence : ∃ row, tables.session? id = some row ∧ row.latestEventSequence < i64Max
  /-- The deltas of a model step that completes can be counted. -/
  streams : ∀ step, event.event.msg = .modelStepCompleted step →
    StreamsFit {} (deltaRows tables id step.modelStepId)

/-- The events of a save can be journalled: each fits the journal that the
earlier ones leave. -/
def Journalable (codecs : Codecs Text) (tables : Tables Text) (id : SessionId)
    (transcript : Option (Int × List Json)) : List TimestampedEvent → Prop
  | [] => True
  | event :: rest => EventFits tables id event ∧
    ∀ record next, storeEvent codecs tables id event transcript = .ok (record, next) →
      Journalable codecs next id transcript rest

variable {acc : StreamMetricAccumulator} {recordedAtMs bytes : Int}

theorem observe_ok_iff : (∃ next, acc.observe recordedAtMs bytes = .ok next) ↔
    0 ≤ bytes ∧ acc.chunkCount + 1 ≤ u64Max ∧ acc.utf8Bytes + bytes.toNat ≤ u64Max := by
  by_cases hbytes : bytes < 0
  · have hnot : ¬0 ≤ bytes := by omega
    simp [StreamMetricAccumulator.observe, rejectIf, hbytes, hnot, bind, Except.bind]
  · have hnonneg : 0 ≤ bytes := by omega
    by_cases hchunks : acc.chunkCount + 1 ≤ u64Max <;>
    by_cases htotal : acc.utf8Bytes + bytes.toNat ≤ u64Max <;>
      cases hlast : acc.lastDeltaAtMs <;>
      simp [StreamMetricAccumulator.observe, rejectIf, hbytes, hnonneg, hlast, orError,
        checkedAdd, hchunks, htotal, bind, Except.bind, pure, Except.pure]

theorem observe_counts {next : StreamMetricAccumulator}
    (h : acc.observe recordedAtMs bytes = .ok next) :
    next.chunkCount = acc.chunkCount + 1 ∧ next.utf8Bytes = acc.utf8Bytes + bytes.toNat := by
  simp only [StreamMetricAccumulator.observe, except_bind_ok_iff] at h
  obtain ⟨_, -, chunkCount, hchunks, utf8Bytes, hbytes, h⟩ := h
  have hchunk := checkedAdd_eq_some (orError_ok hchunks)
  have hbyte := checkedAdd_eq_some (orError_ok hbytes)
  obtain rfl := Except.ok.inj h
  dsimp only
  rw [hchunk, hbyte]
  cases acc.lastDeltaAtMs <;> exact ⟨rfl, rfl⟩

theorem phaseCounts_observe {accs next : PhaseMetrics} {phase : ModelStepContentPhase}
    {recordedAtMs bytes : Int} (h : accs.observe phase recordedAtMs bytes = .ok next) :
    (phaseCounts accs phase).observe recordedAtMs bytes = .ok (phaseCounts next phase) ∧
      ∀ other, other ≠ phase → phaseCounts next other = phaseCounts accs other := by
  cases phase <;>
  · simp only [PhaseMetrics.observe, except_bind_ok_iff] at h
    obtain ⟨acc, hacc, h⟩ := h
    obtain rfl := Except.ok.inj h
    refine ⟨hacc, fun other hother => ?_⟩
    cases other <;> first | rfl | exact absurd rfl hother

theorem phaseObserve_ok_iff {accs : PhaseMetrics} {phase : ModelStepContentPhase}
    {recordedAtMs bytes : Int} :
    (∃ next, accs.observe phase recordedAtMs bytes = .ok next) ↔
      ∃ next, (phaseCounts accs phase).observe recordedAtMs bytes = .ok next := by
  cases phase <;>
  · simp only [PhaseMetrics.observe, except_bind_ok_iff, phaseCounts]
    constructor
    · rintro ⟨next, acc, hacc, -⟩
      exact ⟨acc, hacc⟩
    · rintro ⟨acc, hacc⟩
      exact ⟨_, acc, hacc, rfl⟩

theorem phaseRows_cons (row : EventRow Text) (rows : List (EventRow Text))
    (phase : ModelStepContentPhase) :
    phaseRows (row :: rows) phase =
      if row.streamPhase = some phase then row :: phaseRows rows phase
      else phaseRows rows phase := by
  simp [phaseRows, List.filter_cons]

theorem streamsFit_cons_none {accs : PhaseMetrics} {row : EventRow Text}
    {rows : List (EventRow Text)} (hrow : row.streamPhase = none) :
    StreamsFit accs (row :: rows) ↔ StreamsFit accs rows := by
  have hrows : ∀ phase, phaseRows (row :: rows) phase = phaseRows rows phase := by
    intro phase
    rw [phaseRows_cons, hrow, if_neg (by simp)]
  constructor
  · rintro ⟨hlengths, hchunks, hbytes⟩
    simp only [phaseBytes, hrows] at hchunks hbytes
    exact ⟨fun other hother => hlengths other (List.mem_cons_of_mem _ hother), hchunks, hbytes⟩
  · rintro ⟨hlengths, hchunks, hbytes⟩
    refine ⟨fun other hother hphase => ?_, ?_, ?_⟩
    · rcases List.mem_cons.mp hother with rfl | hother
      · rw [hrow] at hphase
        cases hphase
      · exact hlengths other hother hphase
    · simpa only [hrows] using hchunks
    · simpa only [phaseBytes, hrows] using hbytes

theorem streamsFit_cons_some {accs next : PhaseMetrics} {row : EventRow Text}
    {rows : List (EventRow Text)} {phase : ModelStepContentPhase}
    (hrow : row.streamPhase = some phase)
    (hnext : accs.observe phase row.recordedAtMs (row.deltaBytes.getD 0) = .ok next) :
    StreamsFit accs (row :: rows) ↔ StreamsFit next rows := by
  obtain ⟨hown, hothers⟩ := phaseCounts_observe hnext
  obtain ⟨hchunk, hbyte⟩ := observe_counts hown
  obtain ⟨hlength, -⟩ := observe_ok_iff.mp ⟨_, hown⟩
  have hcounts : ∀ other,
      (phaseCounts accs other).chunkCount + (phaseRows (row :: rows) other).length =
        (phaseCounts next other).chunkCount + (phaseRows rows other).length ∧
      (phaseCounts accs other).utf8Bytes + phaseBytes (row :: rows) other =
        (phaseCounts next other).utf8Bytes + phaseBytes rows other := by
    intro other
    rw [phaseBytes, phaseBytes, phaseRows_cons, hrow]
    by_cases hother : other = phase
    · subst hother
      rw [if_pos rfl, hchunk, hbyte, List.length_cons, List.map_cons, List.sum_cons]
      omega
    · rw [if_neg (fun h => hother (Option.some.inj h).symm), hothers other hother]
      exact ⟨rfl, rfl⟩
  constructor
  · rintro ⟨hlengths, hchunks, hbytes⟩
    exact ⟨fun other hother => hlengths other (List.mem_cons_of_mem _ hother),
      fun other => (hcounts other).1 ▸ hchunks other,
      fun other => (hcounts other).2 ▸ hbytes other⟩
  · rintro ⟨hlengths, hchunks, hbytes⟩
    refine ⟨fun other hother hphase => ?_, fun other => (hcounts other).1 ▸ hchunks other,
      fun other => (hcounts other).2 ▸ hbytes other⟩
    rcases List.mem_cons.mp hother with rfl | hother
    · exact hlength
    · exact hlengths other hother hphase

theorem observeRows_ok_iff {accs : PhaseMetrics} {rows : List (EventRow Text)}
    (hfits : ∀ phase, (phaseCounts accs phase).chunkCount ≤ u64Max ∧
      (phaseCounts accs phase).utf8Bytes ≤ u64Max) :
    (∃ result, observeRows accs rows = .ok result) ↔ StreamsFit accs rows := by
  induction rows generalizing accs with
  | nil =>
    refine ⟨fun _ => ⟨fun row hrow => (by cases hrow), ?_, ?_⟩, fun _ => ⟨accs, rfl⟩⟩
    · exact fun phase => (hfits phase).1
    · exact fun phase => (hfits phase).2
  | cons row rows ih =>
    rw [observeRows]
    cases hrow : row.streamPhase with
    | none =>
      rw [streamsFit_cons_none hrow, ← ih hfits]
      rfl
    | some phase =>
      simp only [except_bind_ok_iff]
      constructor
      · rintro ⟨result, next, hnext, hrest⟩
        obtain ⟨hown, hothers⟩ := phaseCounts_observe hnext
        obtain ⟨-, hchunk, hbyte⟩ := observe_ok_iff.mp ⟨_, hown⟩
        obtain ⟨hchunk', hbyte'⟩ := observe_counts hown
        rw [streamsFit_cons_some hrow hnext, ← ih]
        · exact ⟨result, hrest⟩
        · intro other
          by_cases hother : other = phase
          · subst hother
            omega
          · rw [hothers other hother]
            exact hfits other
      · intro hstreams
        have hroom : 0 ≤ row.deltaBytes.getD 0 ∧
            (phaseCounts accs phase).chunkCount + 1 ≤ u64Max ∧
            (phaseCounts accs phase).utf8Bytes + (row.deltaBytes.getD 0).toNat ≤ u64Max := by
          have hchunks := hstreams.chunks phase
          have hbytes := hstreams.bytes phase
          rw [phaseBytes, phaseRows_cons, if_pos hrow, List.map_cons, List.sum_cons] at hbytes
          rw [phaseRows_cons, if_pos hrow, List.length_cons] at hchunks
          refine ⟨hstreams.lengths row List.mem_cons_self (by rw [hrow]; rfl), ?_, ?_⟩ <;> omega
        obtain ⟨next, hnext⟩ := phaseObserve_ok_iff.mpr
          ((@observe_ok_iff _ row.recordedAtMs _).mpr hroom)
        obtain ⟨hown, hothers⟩ := phaseCounts_observe hnext
        obtain ⟨hchunk', hbyte'⟩ := observe_counts hown
        rw [streamsFit_cons_some hrow hnext, ← ih] at hstreams
        · obtain ⟨result, hrest⟩ := hstreams
          exact ⟨result, next, hnext, hrest⟩
        · intro other
          by_cases hother : other = phase
          · subst hother
            omega
          · rw [hothers other hother]
            exact hfits other

variable {tables : Tables Text} {id : SessionId}

theorem eventIndex_ok_iff {msg : EventMsg} : (∃ index, eventIndex msg = .ok index) ↔
    ∀ delta, msg = .assistantContentDelta delta → (delta.delta.utf8ByteSize : Int) ≤ i64Max := by
  cases msg with
  | assistantContentDelta delta =>
    by_cases hfits : (delta.delta.utf8ByteSize : Int) ≤ i64Max <;> simp [eventIndex, hfits]
  | _ => simp [eventIndex]

/-- The metrics of an event can be loaded exactly if the deltas of the step it
completes can be counted. -/
theorem eventMetrics_ok_iff {msg : EventMsg} {index : EventIndex}
    (h : eventIndex msg = .ok index) : (∃ metrics, eventMetrics tables id index = .ok metrics) ↔
      ∀ step, msg = .modelStepCompleted step →
        StreamsFit {} (deltaRows tables id step.modelStepId) := by
  cases msg with
  | assistantContentDelta delta =>
    rw [eventIndex] at h
    split at h
    · obtain rfl := Except.ok.inj h
      simp [eventMetrics]
    · cases h
  | modelStepCompleted step =>
    obtain rfl := Except.ok.inj h
    have hrows := @observeRows_ok_iff _ {} (deltaRows tables id step.modelStepId)
      (by rintro (_ | _ | _) <;> exact ⟨Nat.zero_le _, Nat.zero_le _⟩)
    simp only [eventMetrics, if_true, loadStreamMetrics, except_bind_ok_iff,
      EventMsg.modelStepCompleted.injEq, forall_eq']
    rw [← hrows]
    constructor
    · rintro ⟨metrics, accs, haccs, -⟩
      exact ⟨accs, haccs⟩
    · rintro ⟨accs, haccs⟩
      exact ⟨_, accs, haccs, rfl⟩
  | _ =>
    obtain rfl := Except.ok.inj h
    simp [eventMetrics]

variable {codecs : Codecs Text} {checks : ExternalChecks} {store : AbstractStore}
  {transcript : Option (Int × List Json)}

/-- An event is stored exactly if it fits the journal of its session. -/
theorem storeEvent_ok_iff {event : TimestampedEvent}
    (hrefines : Refines codecs checks tables store) :
    (∃ result, storeEvent codecs tables id event transcript = .ok result) ↔
      EventFits tables id event := by
  simp only [storeEvent, except_bind_ok_iff]
  constructor
  · rintro ⟨result, _, htime, index, hindex, row, hrow, sequence, hsequence, metrics, hmetrics, -⟩
    have htime := of_decide_eq_false (rejectIf_ok htime)
    have hlatest := orError_ok hsequence
    refine ⟨by omega, eventIndex_ok_iff.mp ⟨index, hindex⟩, ⟨row, orError_ok hrow, ?_⟩,
      (eventMetrics_ok_iff hindex).mp ⟨metrics, hmetrics⟩⟩
    unfold checkedAddInt at hlatest
    split at hlatest
    · omega
    · cases hlatest
  · rintro ⟨htime, hdelta, ⟨row, hrow, hlatest⟩, hstreams⟩
    obtain ⟨index, hindex⟩ := eventIndex_ok_iff.mpr hdelta
    obtain ⟨metrics, hmetrics⟩ := (eventMetrics_ok_iff hindex).mpr hstreams
    have hnonneg := hrefines.eventSequence id row hrow
    have hsequence : checkedAddInt row.latestEventSequence 1 =
        some (row.latestEventSequence + 1) := by
      refine if_pos ⟨?_, by omega⟩
      unfold i64Min
      omega
    have hfree : hasEvent tables id (row.latestEventSequence + 1) = false := by
      rw [hasEvent, List.any_eq_false]
      intro other hother
      simp only [Bool.and_eq_true, decide_eq_true_eq, not_and]
      intro hid heq
      obtain ⟨owner, howner, hle⟩ := hrefines.events other hother
      rw [hid, hrow, Option.some.injEq] at howner
      subst howner
      omega
    refine ⟨_, (), rejectIf_of_not (by omega), index, hindex, row, by rw [hrow]; rfl,
      row.latestEventSequence + 1, by rw [hsequence]; rfl, metrics, hmetrics, (), ?_, rfl⟩
    rw [hfree]
    rfl

theorem storeEvents_ok_iff {events : List TimestampedEvent}
    (hrefines : Refines codecs checks tables store) :
    (∃ result, storeEvents codecs tables id transcript events = .ok result) ↔
      Journalable codecs tables id transcript events := by
  induction events generalizing tables with
  | nil => exact ⟨fun _ => trivial, fun _ => ⟨_, rfl⟩⟩
  | cons event events ih =>
    simp only [storeEvents, except_bind_ok_iff, Journalable]
    rw [← @storeEvent_ok_iff _ _ _ _ _ _ transcript _ hrefines]
    constructor
    · rintro ⟨result, ⟨record, next⟩, hevent, ⟨more, last⟩, hrest, -⟩
      refine ⟨⟨_, hevent⟩, fun other mid hother => ?_⟩
      obtain ⟨-, rfl⟩ := Prod.mk.inj (Except.ok.inj (hevent.symm.trans hother))
      have hmid := (storeEvent_journaled codecs hevent).refines codecs checks hrefines
        (storeEvent_session codecs hevent)
      exact (ih hmid).mp ⟨_, hrest⟩
    · rintro ⟨⟨⟨record, next⟩, hevent⟩, hrest⟩
      have hmid := (storeEvent_journaled codecs hevent).refines codecs checks hrefines
        (storeEvent_session codecs hevent)
      obtain ⟨⟨more, last⟩, hlast⟩ := (ih hmid).mpr (hrest record next hevent)
      exact ⟨_, _, hevent, _, hlast, rfl⟩

end Journalling

section Saves

variable {Text : Type} (codecs : Codecs Text) (checks : ExternalChecks)

/-- What a save of an existing session needs, its events apart. -/
structure SaveCondition (stored : Checkpoint) (shared : SharedCheckpoint)
    (execution : Option ExecutionRecord) : Prop where
  valid : validateCheckpoint shared.header = .ok ()
  execution : validateOptionalExecution checks shared.header execution = .ok ()
  sequence : stored.sequence < shared.header.sequence
  epoch : stored.contextEpoch ≤ shared.header.contextEpoch
  context : shared.header.contextEpoch = stored.contextEpoch →
    stored.context <+: shared.checkpoint.context
  sequenceFits : (shared.header.sequence : Int) ≤ i64Max
  epochFits : (shared.header.contextEpoch : Int) ≤ i64Max
  countFits : (shared.context.length : Int) ≤ i64Max

/-- Two databases with the same journal of one session. -/
structure SameJournal (id : SessionId) (tables other : Tables Text) : Prop where
  eventJournal : other.eventJournal = tables.eventJournal
  latest : (other.session? id).map (·.latestEventSequence) =
    (tables.session? id).map (·.latestEventSequence)

variable {tables other : Tables Text} {id : SessionId}

theorem journalEvent_congr (event : Event) (index : EventIndex) (row : EventRow Text)
    (h : SameJournal id tables other) :
    SameJournal id (journalEvent codecs tables id event index row)
      (journalEvent codecs other id event index row) := by
  have hlatest : ∀ base : Tables Text,
      ((journalEvent codecs base id event index row).session? id).map (·.latestEventSequence) =
        ((base.session? id).map (·.latestEventSequence)).map fun _ => row.sequence := by
    intro base
    have hlookup := session?_updateSession base id id
      (fun session => { session with latestEventSequence := row.sequence }) fun _ => rfl
    rw [if_pos rfl] at hlookup
    have hfind : (journalEvent codecs base id event index row).session? id =
        (base.session? id).map fun session =>
          { session with latestEventSequence := row.sequence } := hlookup
    rw [hfind, Option.map_map, Option.map_map]
    rfl
  refine ⟨?_, ?_⟩
  · simp only [journalEvent, h.eventJournal]
  · rw [hlatest, hlatest, h.latest]

theorem storeEvent_congr {next : Tables Text} {event : TimestampedEvent}
    {transcript : Option (Int × List Json)} {record : JournalEvent}
    (h : SameJournal id tables other)
    (hstore : storeEvent codecs tables id event transcript = .ok (record, next)) :
    ∃ next', storeEvent codecs other id event transcript = .ok (record, next') ∧
      SameJournal id next next' := by
  simp only [storeEvent, except_bind_ok_iff] at hstore
  obtain ⟨_, htime, index, hindex, session, hsession, sequence, hsequence, metrics, hmetrics, _,
    hkey, hstore⟩ := hstore
  obtain ⟨hrecord, hnext⟩ := Prod.mk.inj (Except.ok.inj hstore)
  have hother : ∃ session', other.session? id = some session' ∧
      session'.latestEventSequence = session.latestEventSequence := by
    have hfound := orError_ok hsession
    have hlatest := h.latest
    rw [hfound, Option.map_some, Option.map_eq_some_iff] at hlatest
    exact hlatest
  obtain ⟨session', hsession', hsame⟩ := hother
  have hmetrics' : eventMetrics other id index = .ok metrics := by
    rw [← hmetrics]
    simp only [eventMetrics, loadStreamMetrics, deltaRows, h.eventJournal]
  have hkey' : rejectIf (hasEvent other id sequence) constraintViolation = .ok () := by
    rw [← hkey]
    simp only [hasEvent, h.eventJournal]
  refine ⟨journalEvent codecs other id event.event index _, ?_,
    hnext ▸ journalEvent_congr codecs event.event index _ h⟩
  simp only [storeEvent, htime, hindex, hsession', orError, bind, Except.bind, hsame]
  unfold orError at hsequence
  simp only [hsequence, hmetrics', hkey', ← hrecord]
  rfl

theorem storeEvents_congr {transcript : Option (Int × List Json)} {events : List TimestampedEvent}
    (h : SameJournal id tables other)
    (hevents : ∃ result, storeEvents codecs tables id transcript events = .ok result) :
    ∃ result, storeEvents codecs other id transcript events = .ok result := by
  induction events generalizing tables other with
  | nil => exact ⟨_, rfl⟩
  | cons event events ih =>
    obtain ⟨⟨records, last⟩, hevents⟩ := hevents
    simp only [storeEvents, except_bind_ok_iff] at hevents
    obtain ⟨⟨record, next⟩, hevent, ⟨more, final⟩, hrest, -⟩ := hevents
    obtain ⟨next', hevent', hsame⟩ := storeEvent_congr codecs h hevent
    obtain ⟨⟨records', last'⟩, hrest'⟩ := ih hsame ⟨_, hrest⟩
    refine ⟨(record :: records', last'), ?_⟩
    simp only [storeEvents, hevent', bind, Except.bind, hrest']
    rfl

/-- A checkpoint newer than everything of its session can be stored. -/
theorem storeCheckpoint_succeeds {shared : SharedCheckpoint} {row : SessionRow Text}
    (transcriptDelta : List Json) (execution : Option ExecutionRecord)
    (hrow : tables.session? shared.header.sessionId = some row)
    (hadvance : row.latestSequence < shared.header.sequence)
    (hepoch : (shared.header.contextEpoch : Int) ≤ i64Max)
    (hcount : (shared.context.length : Int) ≤ i64Max)
    (htranscripts : ∀ batch ∈ tables.transcriptDelta,
      batch.sessionId = shared.header.sessionId → batch.sequence < shared.header.sequence)
    (hexecutions : ∀ record ∈ tables.executionJournal,
      record.sessionId = shared.header.sessionId → record.sequence < shared.header.sequence) :
    ∃ next, storeCheckpoint codecs tables shared shared.header.sequence transcriptDelta
      execution = .ok next := by
  have hlength : contextCount shared = .ok (shared.context.length : Int) := by
    simp [contextCount, hcount]
  have hnot : ¬(shared.header.sequence : Int) ≤ row.latestSequence := by omega
  have hbatch : (tables.transcriptDelta.any fun batch =>
      decide (batch.sessionId = shared.header.sessionId) &&
        decide (batch.sequence = shared.header.sequence)) = false := by
    rw [List.any_eq_false]
    intro batch hmem
    simp only [Bool.and_eq_true, decide_eq_true_eq, not_and]
    intro hid hsequence
    have hlt := htranscripts batch hmem hid
    omega
  have hrecord : (tables.executionJournal.any fun record =>
      decide (record.sessionId = shared.header.sessionId) &&
        decide (record.sequence = shared.header.sequence)) = false := by
    rw [List.any_eq_false]
    intro record hmem
    simp only [Bool.and_eq_true, decide_eq_true_eq, not_and]
    intro hid hsequence
    have hlt := hexecutions record hmem hid
    omega
  have hupsert : upsertSession codecs tables shared shared.header.sequence
      shared.header.contextEpoch shared.context.length =
      .ok (tables.updateSession shared.header.sessionId (advanceRow codecs shared
        shared.header.sequence shared.header.contextEpoch shared.context.length)) := by
    simp only [upsertSession, hrow, rejectIf_of_not hnot, bind, Except.bind]
    rfl
  have hdelta : ∀ mid : Tables Text, mid.transcriptDelta = tables.transcriptDelta →
      mid.executionJournal = tables.executionJournal →
      ∃ next, insertNonemptyTranscript codecs mid shared.header.sessionId
        shared.header.sequence transcriptDelta = .ok next ∧
        next.executionJournal = tables.executionJournal := by
    intro mid hmid hjournal
    unfold insertNonemptyTranscript insertTranscript
    split
    · exact ⟨mid, rfl, hjournal⟩
    · rw [hmid, hbatch]
      exact ⟨_, rfl, hjournal⟩
  obtain ⟨mid, hmid, hjournal⟩ := hdelta { tables.updateSession shared.header.sessionId
      (advanceRow codecs shared shared.header.sequence shared.header.contextEpoch
        shared.context.length) with
    messageReceipts := insertReceipts shared.header.sessionId shared.header.pendingMessages
      tables.messageReceipts } rfl rfl
  have hstore : storeCheckpoint codecs tables shared shared.header.sequence transcriptDelta
      execution = execution.elim (.ok mid) fun record =>
        insertExecution codecs mid shared.header.sessionId shared.header.sequence record := by
    simp only [storeCheckpoint, sqliteInteger_of_fits hepoch, hlength, hupsert, bind,
      Except.bind]
    have hsame : (tables.updateSession shared.header.sessionId (advanceRow codecs shared
        shared.header.sequence shared.header.contextEpoch
        shared.context.length)).messageReceipts = tables.messageReceipts := rfl
    rw [hsame, hmid]
    cases execution with
    | none | some record => rfl
  rw [hstore]
  cases execution with
  | none => exact ⟨mid, rfl⟩
  | some record =>
    simp only [Option.elim_some, insertExecution, hjournal, hrecord]
    exact ⟨_, rfl⟩

theorem SameJournal.symm (h : SameJournal id tables other) : SameJournal id other tables :=
  ⟨h.eventJournal.symm, h.latest.symm⟩

variable {codecs} in
theorem sameJournal_append {shared : SharedCheckpoint} {mid last appended : Tables Text}
    {row : SessionRow Text} {start : Nat} (hprepared : Prepared codecs tables mid shared start)
    (hlast : RowStored codecs mid last shared)
    (hrow : tables.session? shared.header.sessionId = some row)
    (happend : appendContext codecs last shared start = .ok appended) :
    SameJournal shared.header.sessionId tables appended := by
  simp only [appendContext, except_bind_ok_iff] at happend
  obtain ⟨epoch, -, happend⟩ := happend
  obtain rfl := insertContext_ok codecs happend
  obtain ⟨found, hfound, -, -, -, -, -, hlatest⟩ := hlast.own
  have hmid : mid.session? shared.header.sessionId = some row := by
    simpa only [Tables.session?, hprepared.sessions] using hrow
  refine ⟨hlast.eventJournal.trans hprepared.eventJournal, ?_⟩
  have hsession : (addContextRows last (storedRows shared.header.sessionId epoch start
      ((shared.context.drop start).map fun item =>
        codecs.item.encode item.value))).session? shared.header.sessionId = some found := hfound
  rw [hmid] at hlatest
  rw [hsession, hrow, Option.map_some, Option.map_some, hlatest]
  rfl

variable {codecs} in
/-- Where everything is read back, the rows compare exactly if the stored
context is a prefix of the offer. -/
theorem compareStored_ok_iff {shared : SharedCheckpoint} {stored : Checkpoint}
    {row : SessionRow Text} {cached : Option ContextCache} {dataVersion : Nat}
    (hlossless : codecs.Lossless) (hrep : Represents codecs tables row stored)
    (hsound : HintSound codecs (appliedHint cached shared stored dataVersion) 0
      (contextTexts tables stored.sessionId)
      (shared.context.take stored.context.length)) :
    (stored.context.length ≤ shared.context.length ∧
        compareStored codecs tables stored shared cached dataVersion = .ok ()) ↔
      stored.context <+: shared.checkpoint.context := by
  rw [List.prefix_iff_eq_take, SharedCheckpoint.checkpoint, ← List.map_take]
  constructor
  · rintro ⟨hlength, hcompared⟩
    exact (comparePrefix_ok_iff hlossless hrep.items
      (length_offered codecs hrep hlength) hsound).mp hcompared
  · intro hequal
    have hlength : stored.context.length ≤ shared.context.length := by
      have hlengths := congrArg List.length hequal
      rw [List.length_map, List.length_take] at hlengths
      omega
    exact ⟨hlength, (comparePrefix_ok_iff hlossless hrep.items
      (length_offered codecs hrep hlength) hsound).mpr hequal⟩

/-- Where everything is read back, a save of an existing session is accepted
exactly under its condition. -/
theorem saveWithEvents_accepted_iff {store : AbstractStore} {shared : SharedCheckpoint}
    {stored : Checkpoint} (transcriptDelta : List Json) (execution : Option ExecutionRecord)
    (events : List TimestampedEvent) {cached : Option ContextCache} {dataVersion : Nat}
    (hlossless : codecs.Lossless) (hrefines : Refines codecs checks tables store)
    (hstored : store shared.header.sessionId = some stored)
    (hsound : HintSound codecs (appliedHint cached shared stored dataVersion) 0
      (contextTexts tables stored.sessionId)
      (shared.context.take stored.context.length)) :
    (∃ result, saveWithEvents codecs checks tables shared transcriptDelta execution events
        cached dataVersion = .ok result) ↔
      SaveCondition checks stored shared execution ∧
      Journalable codecs tables shared.header.sessionId
        (some (shared.header.sequence, transcriptDelta)) events := by
  obtain ⟨hid, -, row, hrow, hrep⟩ := hrefines.present _ stored hstored
  have hsounds : ∀ other, store shared.header.sessionId = some other →
      HintSound codecs (appliedHint cached shared other dataVersion) 0
        (contextTexts tables other.sessionId)
        (shared.context.take other.context.length) := by
    intro other hother
    rw [hstored, Option.some.injEq] at hother
    exact hother ▸ hsound
  constructor
  · rintro ⟨⟨records, next⟩, h⟩
    simp only [saveWithEvents, except_bind_ok_iff] at h
    obtain ⟨_, hvalid, _, hexecution, sequence, hsequence, ⟨⟨start, rewritten⟩, mid⟩, hprepare,
      last, hstore, appended, happend, hevents⟩ := h
    obtain ⟨rfl, hsequenceFits⟩ := sqliteInteger_ok hsequence
    have hprepared := prepareAppend_prepared codecs checks hrefines hsounds hprepare
    rw [prepareAppend_eq codecs cached dataVersion hrow hid hrep, appendDecision_ok_iff]
      at hprepare
    obtain ⟨-, hepochFits, hadvance, hforth, hcontext, -⟩ := hprepare
    obtain ⟨hlast, -, hcountFits⟩ := storeCheckpoint_stored codecs hstore
    refine ⟨⟨hvalid, hexecution, hadvance, hforth,
      fun hsame => (compareStored_ok_iff hlossless hrep hsound).mp (hcontext hsame),
      hsequenceFits, hepochFits, hcountFits⟩, (storeEvents_ok_iff hrefines).mp ?_⟩
    exact storeEvents_congr codecs (sameJournal_append hprepared hlast hrow happend).symm
      ⟨_, hevents⟩
  · rintro ⟨hcondition, hevents⟩
    have hdecision := (appendDecision_ok_iff tables stored shared _ _).mpr
      ⟨hcondition.sequenceFits, hcondition.epochFits, hcondition.sequence, hcondition.epoch,
        fun hsame => (compareStored_ok_iff hlossless hrep hsound).mpr (hcondition.context hsame),
        rfl⟩
    rw [← prepareAppend_eq codecs cached dataVersion hrow hid hrep] at hdecision
    obtain ⟨⟨⟨start, rewritten⟩, mid⟩, hprepare⟩ : ∃ result,
        prepareAppend codecs tables shared cached dataVersion = .ok result := ⟨_, hdecision⟩
    have hprepared := prepareAppend_prepared codecs checks hrefines hsounds hprepare
    have hmid : mid.session? shared.header.sessionId = some row := by
      simpa only [Tables.session?, hprepared.sessions] using hrow
    have hlt : row.latestSequence < shared.header.sequence := by
      have hadvance := hcondition.sequence
      rw [hrep.sequence]
      omega
    obtain ⟨last, hlast⟩ := storeCheckpoint_succeeds codecs transcriptDelta execution hmid hlt
      hcondition.epochFits hcondition.countFits
      (by
        intro batch hbatch hbid
        rw [hprepared.transcriptDelta] at hbatch
        obtain ⟨old, hold, hle⟩ := hrefines.transcripts batch hbatch
        rw [hbid, hrow, Option.some.injEq] at hold
        subst hold
        omega)
      (by
        intro record hrecord hrid
        rw [hprepared.executionJournal] at hrecord
        obtain ⟨old, hold, hle⟩ := hrefines.executions record hrecord
        rw [hrid, hrow, Option.some.injEq] at hold
        subst hold
        omega)
    have hrowStored := (storeCheckpoint_stored codecs hlast).1
    have hinsert : ∃ next, appendContext codecs last shared start = .ok next := by
      simp only [appendContext, sqliteInteger_of_fits hcondition.epochFits, bind, Except.bind]
      refine insertContext_succeeds codecs ?_ ?_
      · have hwithin := hprepared.within
        have hcount := hcondition.countFits
        rw [List.length_drop]
        omega
      · intro other hother hoid hoepoch
        have hmem : other ∈ sessionRows mid shared.header.sessionId := by
          rw [sessionRows, List.mem_filter, ← hrowStored.contextItems]
          exact ⟨hother, decide_eq_true hoid⟩
        rw [hprepared.own] at hmem
        have hbound := (mem_storedRows hmem).2.2.2
        rw [hprepared.items.length_eq, List.length_map, List.length_take] at hbound
        have hwithin := hprepared.within
        omega
    obtain ⟨appended, happend⟩ := hinsert
    obtain ⟨result, hresult⟩ := storeEvents_congr codecs
      (sameJournal_append hprepared hrowStored hrow happend)
      ((storeEvents_ok_iff hrefines).mpr hevents)
    refine ⟨result, ?_⟩
    simp only [saveWithEvents, hcondition.valid, hcondition.execution,
      sqliteInteger_of_fits hcondition.sequenceFits, bind, Except.bind, hprepare, hlast, happend]
    exact hresult

end Saves

end MobiusAgent.StoreAcceptance
