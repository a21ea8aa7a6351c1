import MobiusAgent.StoreContext

/-!
# The tables refine a map from sessions to checkpoints

The abstract store is a map from a session's identity to its latest
checkpoint. The tables refine it when every mapped session has one row and
its context rows represent the checkpoint, and no other session has rows.
Loading reads the map, an accepted save or fork updates it at one session, a
deletion removes a tree, and journalling leaves it alone.
-/

namespace MobiusAgent.StoreRefinement

open JsonValue ProtocolEvents CheckpointRecords CheckpointValidation StoreTables
open StoreTransactions StoreContext

/-- What the store is for: the latest checkpoint of every session. -/
abbrev AbstractStore := SessionId → Option Checkpoint

/-- The map changed at one session. -/
def AbstractStore.put (store : AbstractStore) (checkpoint : Checkpoint) : AbstractStore :=
  fun id => if id = checkpoint.sessionId then some checkpoint else store id

/-- The map without some sessions. -/
def AbstractStore.remove (store : AbstractStore) (gone : List SessionId) : AbstractStore :=
  fun id => if gone.contains id then none else store id

/-- Queued messages that pass the check made when one is built or decoded. -/
def QueueValid (checks : ExternalChecks) (header : CheckpointHeader) : Prop :=
  header.pendingMessages.forM (validateQueuedMessage checks) = .ok ()

/-- What the store checked before it kept a checkpoint. -/
structure Storable (checks : ExternalChecks) (header : CheckpointHeader) : Prop where
  valid : validateCheckpoint header = .ok ()
  queue : QueueValid checks header
  sequence : (header.sequence : Int) ≤ i64Max
  epoch : (header.contextEpoch : Int) ≤ i64Max

section Sessions

variable {Text : Type}

theorem session?_id {tables : Tables Text} {id : SessionId} {row : SessionRow Text}
    (h : tables.session? id = some row) : row.sessionId = id := by
  have hfound := List.find?_some h
  simpa using hfound

theorem session?_updateSession (tables : Tables Text) (id other : SessionId)
    (change : SessionRow Text → SessionRow Text)
    (hid : ∀ row, (change row).sessionId = row.sessionId) :
    (tables.updateSession id change).session? other =
      if other = id then (tables.session? other).map change else tables.session? other := by
  simp only [Tables.session?, Tables.updateSession]
  induction tables.sessions with
  | nil => simp
  | cons row rows ih =>
    simp only [List.map_cons, List.find?_cons]
    by_cases hrow : row.sessionId = id
    · by_cases hother : row.sessionId = other
      · have heq : other = id := hother.symm.trans hrow
        simp [hrow, hid, heq]
      · have hne : id ≠ other := fun h => hother (hrow.trans h)
        simp only [hrow, if_true, hid, hne, decide_false]
        exact ih
    · by_cases hother : row.sessionId = other
      · have hne : other ≠ id := fun h => hrow (hother.trans h)
        simp [hother, hne]
      · simp only [hrow, if_false, hother, decide_false]
        exact ih

theorem session?_append (tables : Tables Text) (row : SessionRow Text) (other : SessionId)
    (hnew : tables.session? row.sessionId = none) :
    (Tables.session? { tables with sessions := tables.sessions ++ [row] } other) =
      if other = row.sessionId then some row else tables.session? other := by
  simp only [Tables.session?] at hnew ⊢
  rw [List.find?_append]
  by_cases hother : other = row.sessionId
  · subst hother
    rw [hnew]
    simp
  · have hne : row.sessionId ≠ other := fun h => hother h.symm
    simp [hother, hne]

theorem session?_withoutSessions (tables : Tables Text) (gone : List SessionId)
    (id : SessionId) :
    (Tables.withoutSessions tables gone).session? id =
      if gone.contains id then none else tables.session? id := by
  simp only [Tables.session?, Tables.withoutSessions]
  induction tables.sessions with
  | nil => simp
  | cons row rows ih =>
    by_cases hgone : gone.contains row.sessionId
    · rw [List.filter_cons_of_neg (by simpa using hgone), ih, List.find?_cons]
      by_cases hid : row.sessionId = id
      · subst hid
        rw [if_pos hgone, if_pos hgone]
      · simp [hid]
    · rw [List.filter_cons_of_pos (by simpa using hgone), List.find?_cons, List.find?_cons, ih]
      by_cases hid : row.sessionId = id
      · subst hid
        have hmem : row.sessionId ∉ gone := by simpa using hgone
        simp [hmem]
      · simp [hid]

end Sessions

section Refinement

variable {Text : Type} (codecs : Codecs Text) (checks : ExternalChecks)

structure Refines (tables : Tables Text) (store : AbstractStore) : Prop where
  keys : (tables.sessions.map (·.sessionId)).Nodup
  absent : ∀ id, store id = none → tables.session? id = none ∧ sessionRows tables id = []
  present : ∀ id stored, store id = some stored → stored.sessionId = id ∧
    Storable checks stored.toCheckpointHeader ∧
    ∃ row, tables.session? id = some row ∧ Represents codecs tables row stored
  /-- Transcript batches are not newer than their checkpoint. -/
  transcripts : ∀ batch ∈ tables.transcriptDelta, ∃ row,
    tables.session? batch.sessionId = some row ∧ batch.sequence ≤ row.latestSequence
  /-- Execution records are not newer than their checkpoint. -/
  executions : ∀ record ∈ tables.executionJournal, ∃ row,
    tables.session? record.sessionId = some row ∧ record.sequence ≤ row.latestSequence
  events : ∀ event ∈ tables.eventJournal, ∃ row,
    tables.session? event.sessionId = some row ∧ event.sequence ≤ row.latestEventSequence
  eventSequence : ∀ id row, tables.session? id = some row → 0 ≤ row.latestEventSequence

theorem Refines.items_put {tables : Tables Text} {store : AbstractStore}
    {checkpoint : Checkpoint} (h : Refines codecs checks tables (store.put checkpoint)) :
    List.Forall₂ (Written codecs) (contextTexts tables checkpoint.sessionId)
      checkpoint.context := by
  obtain ⟨-, -, row, -, hrep⟩ := h.present checkpoint.sessionId checkpoint (if_pos rfl)
  exact hrep.items

theorem refines_empty : Refines codecs checks (.empty : Tables Text) fun _ => none := by
  refine ⟨List.nodup_nil, fun id _ => ⟨rfl, rfl⟩, fun id stored h => ?_, ?_, ?_, ?_, ?_⟩
  · cases h
  · intro batch h; cases h
  · intro record h; cases h
  · intro event h; cases h
  · intro id row h; cases h

theorem decodeCheckpoint_eq {stored : CheckpointHeader} (h : Storable checks stored)
    (hreads : codecs.header.ReadsBack stored) :
    decodeCheckpoint codecs checks stored.sessionId stored.sequence
      (codecs.header.encode stored) = .ok stored := by
  have hqueue := h.queue
  rw [QueueValid] at hqueue
  rw [Codec.ReadsBack] at hreads
  have hsequence : ¬(stored.sequence : Int) < 0 := by omega
  simp only [decodeCheckpoint, hreads, bind, Except.bind, hqueue,
    Except.mapError, h.valid, rejectIf, hsequence, ne_eq, not_true, or_self, decide_false,
    Bool.false_eq_true, if_false]
  rfl

/-- A loaded checkpoint is one of its session, and its items are read from the
texts of the context rows. -/
theorem load_decodes {tables : Tables Text} {store : AbstractStore} {id : SessionId}
    {checkpoint : Checkpoint} (h : Refines codecs checks tables store)
    (hload : load codecs checks tables id = .ok (some checkpoint)) :
    checkpoint.sessionId = id ∧
      List.Forall₂ (Decodes codecs) (contextTexts tables id) checkpoint.context := by
  unfold load at hload
  cases hstore : store id with
  | none =>
    rw [(h.absent id hstore).1] at hload
    cases hload
  | some stored =>
    obtain ⟨rfl, -, row, hrow, hrep⟩ := h.present id stored hstore
    simp only [hrow, except_bind_ok_iff] at hload
    obtain ⟨header, hheader, epoch, -, _, -, context, hcontext, hload⟩ := hload
    obtain rfl := Option.some.inj (Except.ok.inj hload)
    rw [hrep.epoch, hrep.count, ← hrep.items.length_eq, loadContext_ok_iff hrep.rows]
      at hcontext
    refine ⟨?_, hcontext⟩
    simp only [decodeCheckpoint, except_bind_ok_iff] at hheader
    obtain ⟨decoded, -, _, -, _, -, _, -, _, hindex, hheader⟩ := hheader
    obtain rfl := Except.ok.inj hheader
    have hsame := of_decide_eq_false (rejectIf_ok_iff.mp hindex)
    rw [not_or, not_not] at hsame
    exact hsame.1

theorem load_eq {tables : Tables Text} {store : AbstractStore} (hlossless : codecs.Lossless)
    (h : Refines codecs checks tables store) (id : SessionId) :
    load codecs checks tables id = .ok (store id) := by
  unfold load
  cases hstore : store id with
  | none => rw [(h.absent id hstore).1]
  | some stored =>
    obtain ⟨hid, hstorable, row, hrow, hrep⟩ := h.present id stored hstore
    subst hid
    have hepoch : sqliteInteger stored.contextEpoch "context epoch" =
        .ok (stored.contextEpoch : Int) := by
      simp [sqliteInteger, hstorable.epoch]
    have hdecode := decodeCheckpoint_eq codecs checks hstorable (hlossless.header _)
    have hcontext := (loadContext_ok_iff hrep.rows).mpr (decodes_of_written hlossless hrep.items)
    rw [hrep.items.length_eq] at hcontext
    simp only [hrow, hrep.sequence, hrep.header, hdecode, hrep.epoch, hrep.count]
    simp only [bind, Except.bind, hepoch, hcontext, rejectIf, ne_eq, not_true, decide_false,
      Bool.false_eq_true, if_false]
    rfl

end Refinement

section Journal

variable {Text : Type} (codecs : Codecs Text) (checks : ExternalChecks)

/-- Only the journal of one session was written. -/
structure Journaled (id : SessionId) (tables next : Tables Text) : Prop where
  contextItems : next.contextItems = tables.contextItems
  transcriptDelta : next.transcriptDelta = tables.transcriptDelta
  executionJournal : next.executionJournal = tables.executionJournal
  /-- The session's event sequence advanced and bounds its new events. -/
  sessions : ∃ latest, next.sessions = (tables.updateSession id fun row =>
      { row with latestEventSequence := latest }).sessions ∧
    (∀ row, tables.session? id = some row → row.latestEventSequence ≤ latest) ∧
    ∀ event ∈ next.eventJournal, event ∈ tables.eventJournal ∨
      event.sessionId = id ∧ event.sequence ≤ latest

theorem orError_ok {α : Type} {value : Option α} {error : Error} {result : α}
    (h : orError value error = .ok result) : value = some result := by
  unfold orError at h
  split at h
  · rw [Except.ok.inj h]
  · cases h

variable {transcript : Option (Int × List Json)} {id : SessionId} {tables next : Tables Text}

theorem storeEvent_journaled {event : TimestampedEvent} {record : JournalEvent}
    (h : storeEvent codecs tables id event transcript = .ok (record, next)) :
    Journaled id tables next := by
  simp only [storeEvent, except_bind_ok_iff] at h
  obtain ⟨_, -, index, -, session, hsession, sequence, hsequence, metrics, -, _, -, h⟩ := h
  have hfound := orError_ok hsession
  have hnext := checkedAddInt_eq_some (orError_ok hsequence)
  obtain ⟨-, h⟩ := Prod.mk.inj (Except.ok.inj h)
  subst h
  refine ⟨rfl, rfl, rfl, sequence, rfl, fun row hrow => ?_, fun row hrow => ?_⟩
  · rw [hfound, Option.some.injEq] at hrow
    rw [← hrow, hnext]
    omega
  · rcases List.mem_append.mp (List.mem_of_mem_filter hrow) with hold | hnew
    · exact .inl hold
    · rw [List.mem_singleton.mp hnew]
      exact .inr ⟨rfl, le_refl _⟩

theorem storeEvent_session {event : TimestampedEvent} {record : JournalEvent}
    (h : storeEvent codecs tables id event transcript = .ok (record, next)) :
    ∃ row, tables.session? id = some row := by
  simp only [storeEvent, except_bind_ok_iff] at h
  obtain ⟨_, -, index, -, session, hsession, -⟩ := h
  exact ⟨session, orError_ok hsession⟩

theorem Journaled.session? (h : Journaled id tables next) : ∃ latest,
    (∀ other, next.session? other = if other = id then
      (tables.session? other).map fun row => { row with latestEventSequence := latest }
      else tables.session? other) ∧
    (∀ row, tables.session? id = some row → row.latestEventSequence ≤ latest) ∧
    ∀ event ∈ next.eventJournal, event ∈ tables.eventJournal ∨
      event.sessionId = id ∧ event.sequence ≤ latest := by
  obtain ⟨latest, hsessions, hbound, hevents⟩ := h.sessions
  refine ⟨latest, fun other => ?_, hbound, hevents⟩
  have hlookup := session?_updateSession tables id other
    (fun row => { row with latestEventSequence := latest }) fun _ => rfl
  rw [← hlookup]
  simp only [Tables.session?, hsessions]

theorem Journaled.refines {store : AbstractStore} (hrefines : Refines codecs checks tables store)
    (h : Journaled id tables next) (hexists : ∃ row, tables.session? id = some row) :
    Refines codecs checks next store := by
  obtain ⟨latest, hsession, hbound, hevents⟩ := h.session?
  have hrow : ∀ other row, tables.session? other = some row → ∃ row',
      next.session? other = some row' ∧ row'.sessionId = row.sessionId ∧
      row'.latestSequence = row.latestSequence ∧
      row'.latestCheckpointJson = row.latestCheckpointJson ∧
      row'.contextEpoch = row.contextEpoch ∧ row'.contextCount = row.contextCount ∧
      row.latestEventSequence ≤ row'.latestEventSequence := by
    intro other row hrow
    rw [hsession]
    split
    · rename_i hother
      rw [hrow, Option.map_some]
      exact ⟨_, rfl, rfl, rfl, rfl, rfl, rfl, hbound row (hother ▸ hrow)⟩
    · exact ⟨row, hrow, rfl, rfl, rfl, rfl, rfl, le_refl _⟩
  obtain ⟨session, hfound⟩ := hexists
  refine ⟨?_, ?_, ?_, ?_, ?_, ?_, ?_⟩
  · obtain ⟨latest, hsessions, -, -⟩ := h.sessions
    rw [hsessions]
    simp only [Tables.updateSession, List.map_map]
    have hids : ((fun row : SessionRow Text => row.sessionId) ∘ fun row =>
        if row.sessionId = id then { row with latestEventSequence := latest } else row) =
        fun row => row.sessionId := by
      funext row
      simp only [Function.comp]
      split <;> rfl
    rw [hids]
    exact hrefines.keys
  · intro other hother
    obtain ⟨hnone, hrows⟩ := hrefines.absent other hother
    refine ⟨?_, by simpa only [sessionRows, h.contextItems] using hrows⟩
    rw [hsession, hnone]
    simp
  · intro other stored hother
    obtain ⟨hid, hstorable, row, hfind, hrep⟩ := hrefines.present other stored hother
    obtain ⟨row', hfind', hi, hs, hj, he, hc, -⟩ := hrow other row hfind
    refine ⟨hid, hstorable, row', hfind', ?_⟩
    refine ⟨hi.trans hrep.sessionId, hs.trans hrep.sequence, hj.trans hrep.header,
      he.trans hrep.epoch, hc.trans hrep.count, ?_, ?_⟩
    · simpa only [contextTexts, sessionRows, h.contextItems] using hrep.rows
    · simpa only [contextTexts, sessionRows, h.contextItems] using hrep.items
  · intro batch hbatch
    rw [h.transcriptDelta] at hbatch
    obtain ⟨row, hfind, hle⟩ := hrefines.transcripts batch hbatch
    obtain ⟨row', hfind', -, hs, -⟩ := hrow _ row hfind
    exact ⟨row', hfind', hs ▸ hle⟩
  · intro record hrecord
    rw [h.executionJournal] at hrecord
    obtain ⟨row, hfind, hle⟩ := hrefines.executions record hrecord
    obtain ⟨row', hfind', -, hs, -⟩ := hrow _ row hfind
    exact ⟨row', hfind', hs ▸ hle⟩
  · intro event hevent
    rcases hevents event hevent with hold | ⟨hid, hle⟩
    · obtain ⟨row, hfind, hle⟩ := hrefines.events event hold
      obtain ⟨row', hfind', -, -, -, -, -, hmono⟩ := hrow _ row hfind
      exact ⟨row', hfind', le_trans hle hmono⟩
    · refine ⟨{ session with latestEventSequence := latest }, ?_, hle⟩
      rw [hsession, hid, if_pos rfl, hfound]
      rfl
  · intro other row' hfind'
    rw [hsession] at hfind'
    split at hfind'
    · rename_i hother
      subst hother
      rw [hfound, Option.map_some, Option.some.injEq] at hfind'
      rw [← hfind']
      exact le_trans (hrefines.eventSequence _ _ hfound) (hbound session hfound)
    · exact hrefines.eventSequence _ _ hfind'

theorem storeEvents_contextItems {events : List TimestampedEvent} {records : List JournalEvent}
    (h : storeEvents codecs tables id transcript events = .ok (records, next)) :
    next.contextItems = tables.contextItems := by
  induction events generalizing tables records with
  | nil =>
    obtain ⟨-, hnext⟩ := Prod.mk.inj (Except.ok.inj h)
    rw [hnext]
  | cons event events ih =>
    simp only [storeEvents, except_bind_ok_iff] at h
    obtain ⟨⟨record, mid⟩, hevent, ⟨more, last⟩, hrest, h⟩ := h
    obtain ⟨-, rfl⟩ := Prod.mk.inj (Except.ok.inj h)
    exact (ih hrest).trans (storeEvent_journaled codecs hevent).contextItems

theorem storeEvents_refines {store : AbstractStore} {events : List TimestampedEvent}
    {records : List JournalEvent} (hrefines : Refines codecs checks tables store)
    (hexists : ∃ row, tables.session? id = some row)
    (h : storeEvents codecs tables id transcript events = .ok (records, next)) :
    Refines codecs checks next store := by
  induction events generalizing tables records with
  | nil =>
    obtain ⟨-, hnext⟩ := Prod.mk.inj (Except.ok.inj h)
    exact hnext ▸ hrefines
  | cons event events ih =>
    simp only [storeEvents, except_bind_ok_iff] at h
    obtain ⟨⟨record, mid⟩, hevent, ⟨more, last⟩, hrest, h⟩ := h
    have hjournaled := storeEvent_journaled codecs hevent
    obtain ⟨-, hlast⟩ := Prod.mk.inj (Except.ok.inj h)
    dsimp only at hlast hrest
    subst hlast
    refine ih (hjournaled.refines codecs checks hrefines hexists) ?_ hrest
    obtain ⟨row, hrow⟩ := hexists
    obtain ⟨latest, hsession, -, -⟩ := hjournaled.session?
    exact ⟨_, by rw [hsession, if_pos rfl, hrow, Option.map_some]⟩

end Journal

section Saves

variable {Text : Type} (codecs : Codecs Text) (checks : ExternalChecks)

theorem rejectIf_ok {condition : Bool} {error : Error} {u : Unit}
    (h : rejectIf condition error = .ok u) : condition = false :=
  rejectIf_ok_iff.mp h

theorem rejectIf_of_not {condition : Prop} [Decidable condition] {error : Error}
    (h : ¬condition) : rejectIf (decide condition) error = .ok () := by
  simp [rejectIf, h]

theorem sqliteInteger_of_fits {value : Nat} {name : String} (h : (value : Int) ≤ i64Max) :
    sqliteInteger value name = .ok (value : Int) := by
  simp [sqliteInteger, h]

variable {shared : SharedCheckpoint} {store : AbstractStore} {tables mid next : Tables Text}

theorem contextCount_ok {count : Int} (h : contextCount shared = .ok count) :
    count = shared.context.length ∧ (shared.context.length : Int) ≤ i64Max := by
  unfold contextCount at h
  split at h
  · rename_i hfits
    exact ⟨(Except.ok.inj h).symm, hfits⟩
  · cases h

/-- The tables once an append was prepared. -/
structure Prepared (tables mid : Tables Text) (shared : SharedCheckpoint) (start : Nat) :
    Prop where
  sessions : mid.sessions = tables.sessions
  transcriptDelta : mid.transcriptDelta = tables.transcriptDelta
  executionJournal : mid.executionJournal = tables.executionJournal
  eventJournal : mid.eventJournal = tables.eventJournal
  within : start ≤ shared.context.length
  /-- The session's rows are numbered texts of the offered epoch. -/
  own : sessionRows mid shared.header.sessionId = storedRows shared.header.sessionId
    shared.header.contextEpoch 0 (contextTexts mid shared.header.sessionId)
  items : List.Forall₂ (Written codecs) (contextTexts mid shared.header.sessionId)
    ((shared.context.take start).map (·.value))
  others : ∀ other, other ≠ shared.header.sessionId →
    sessionRows mid other = sessionRows tables other

theorem sessionRows_dropContext (tables : Tables Text) (id other : SessionId) :
    sessionRows (dropContext tables id) other =
      if other = id then [] else sessionRows tables other := by
  simp only [sessionRows, dropContext, List.filter_filter]
  split
  · rename_i hother
    subst hother
    rw [List.filter_eq_nil_iff]
    intro row _
    by_cases hrow : row.sessionId = other <;> simp [hrow]
  · rename_i hother
    congr 1
    funext row
    by_cases hrow : row.sessionId = other
    · simp [hrow, hother]
    · simp [hrow]

/-- The decision on an existing session accepts exactly if sequence and epoch
advance and, within one epoch, the rows compare. -/
theorem appendDecision_ok_iff (tables : Tables Text) (stored : Checkpoint)
    (shared : SharedCheckpoint) (compared : Except Error Unit)
    (result : (Nat × Bool) × Tables Text) :
    appendDecision tables stored shared compared = .ok result ↔
      (shared.header.sequence : Int) ≤ i64Max ∧ (shared.header.contextEpoch : Int) ≤ i64Max ∧
      stored.sequence < shared.header.sequence ∧
      stored.contextEpoch ≤ shared.header.contextEpoch ∧
      (shared.header.contextEpoch = stored.contextEpoch →
        stored.context.length ≤ shared.context.length ∧ compared = .ok ()) ∧
      result = if shared.header.contextEpoch = stored.contextEpoch then
        ((stored.context.length, false), tables)
        else ((0, true), dropContext tables shared.header.sessionId) := by
  constructor
  · intro h
    simp only [appendDecision, except_bind_ok_iff] at h
    obtain ⟨_, hsequence, _, hepoch, _, hadvance, _, hback, h⟩ := h
    have hadvance := of_decide_eq_false (rejectIf_ok hadvance)
    have hback := of_decide_eq_false (rejectIf_ok hback)
    refine ⟨(sqliteInteger_ok hsequence).2, (sqliteInteger_ok hepoch).2, by omega, by omega, ?_⟩
    split at h
    · rename_i hne
      rw [if_neg hne]
      exact ⟨fun heq => absurd heq hne, (Except.ok.inj h).symm⟩
    · rename_i hsame
      rw [not_not] at hsame
      simp only [except_bind_ok_iff] at h
      obtain ⟨_, hshort, _, hcompared, h⟩ := h
      have hshort := of_decide_eq_false (rejectIf_ok hshort)
      rw [if_pos hsame]
      exact ⟨fun _ => ⟨by omega, hcompared⟩, (Except.ok.inj h).symm⟩
  · rintro ⟨hsequence, hepoch, hadvance, hforth, hcontext, hresult⟩
    have hnot : ¬shared.header.sequence ≤ stored.sequence := by omega
    have hback : ¬shared.header.contextEpoch < stored.contextEpoch := by omega
    rw [appendDecision, sqliteInteger_of_fits hsequence, sqliteInteger_of_fits hepoch,
      rejectIf_of_not hnot, rejectIf_of_not hback, hresult]
    by_cases hsame : shared.header.contextEpoch = stored.contextEpoch
    · obtain ⟨hlength, hcompared⟩ := hcontext hsame
      have hshort : ¬shared.context.length < stored.context.length := by omega
      rw [if_neg (not_not.mpr hsame), rejectIf_of_not hshort, hcompared, if_pos hsame]
      rfl
    · rw [if_pos hsame, if_neg hsame]
      rfl

theorem length_offered {row : SessionRow Text} {stored : Checkpoint}
    (hrep : Represents codecs tables row stored)
    (hlength : stored.context.length ≤ shared.context.length) :
    (contextTexts tables stored.sessionId).length =
      (shared.context.take stored.context.length).length := by
  rw [List.length_take, hrep.items.length_eq]
  omega

theorem prepareAppend_prepared {cached : Option ContextCache} {dataVersion start : Nat}
    {rewritten : Bool} (hrefines : Refines codecs checks tables store)
    (hsound : ∀ stored, store shared.header.sessionId = some stored →
      HintSound codecs (appliedHint cached shared stored dataVersion) 0
        (contextTexts tables stored.sessionId)
        (shared.context.take stored.context.length))
    (h : prepareAppend codecs tables shared cached dataVersion = .ok ((start, rewritten), mid)) :
    Prepared codecs tables mid shared start := by
  cases hstore : store shared.header.sessionId with
  | none =>
    obtain ⟨hrow, hrows⟩ := hrefines.absent _ hstore
    simp only [prepareAppend, hrow, Except.ok.injEq, Prod.mk.injEq] at h
    obtain ⟨⟨hstart, -⟩, hmid⟩ := h
    subst hstart hmid
    have htexts := @contextTexts_eq _ [] shared.header.contextEpoch _ _ hrows
    refine ⟨rfl, rfl, rfl, rfl, Nat.zero_le _, ?_, ?_, fun _ _ => rfl⟩
    · rw [htexts, hrows]
      rfl
    · rw [htexts]
      exact .nil
  | some stored =>
    obtain ⟨hid, -, row, hrow, hrep⟩ := hrefines.present _ stored hstore
    rw [prepareAppend_eq codecs cached dataVersion hrow hid hrep, appendDecision_ok_iff] at h
    obtain ⟨-, -, -, -, hcontext, h⟩ := h
    split at h
    · rename_i hsame
      obtain ⟨hfirst, hmid⟩ := Prod.mk.inj h
      obtain ⟨hstart, -⟩ := Prod.mk.inj hfirst
      subst hstart hmid
      obtain ⟨hlength, hcompared⟩ := hcontext hsame
      have hwritten := comparePrefix_written (length_offered codecs hrep hlength)
        (hsound stored hstore) hcompared
      have hrows := hrep.rows
      rw [hid] at hrows hwritten
      rw [← hsame] at hrows
      exact ⟨rfl, rfl, rfl, rfl, hlength, hrows, hwritten, fun _ _ => rfl⟩
    · obtain ⟨hfirst, hmid⟩ := Prod.mk.inj h
      obtain ⟨hstart, -⟩ := Prod.mk.inj hfirst
      subst hstart hmid
      have hnone : sessionRows (dropContext tables shared.header.sessionId)
          shared.header.sessionId = [] := by
        rw [sessionRows_dropContext, if_pos rfl]
      have htexts := @contextTexts_eq _ [] shared.header.contextEpoch _ _ hnone
      refine ⟨rfl, rfl, rfl, rfl, Nat.zero_le _, ?_, ?_, fun other hother => ?_⟩
      · rw [htexts, hnone]
        rfl
      · rw [htexts]
        exact .nil
      · rw [sessionRows_dropContext, if_neg hother]

/-- The tables once the row of a checkpoint was stored. -/
structure RowStored (tables next : Tables Text) (shared : SharedCheckpoint) : Prop where
  /-- The session's row is that of the checkpoint and keeps its event sequence. -/
  own : ∃ row, next.session? shared.header.sessionId = some row ∧
    row.sessionId = shared.header.sessionId ∧
    row.latestSequence = shared.header.sequence ∧
    row.latestCheckpointJson = codecs.header.encode shared.header ∧
    row.contextEpoch = shared.header.contextEpoch ∧
    row.contextCount = shared.context.length ∧
    row.latestEventSequence =
      ((tables.session? shared.header.sessionId).map (·.latestEventSequence)).getD 0
  advances : ∀ row, tables.session? shared.header.sessionId = some row →
    row.latestSequence < shared.header.sequence
  others : ∀ other, other ≠ shared.header.sessionId →
    next.session? other = tables.session? other
  keys : (tables.sessions.map (·.sessionId)).Nodup → (next.sessions.map (·.sessionId)).Nodup
  contextItems : next.contextItems = tables.contextItems
  eventJournal : next.eventJournal = tables.eventJournal
  transcripts : ∀ batch ∈ next.transcriptDelta, batch ∈ tables.transcriptDelta ∨
    batch.sessionId = shared.header.sessionId ∧ batch.sequence = shared.header.sequence
  executions : ∀ record ∈ next.executionJournal, record ∈ tables.executionJournal ∨
    record.sessionId = shared.header.sessionId ∧ record.sequence = shared.header.sequence

theorem newRow_stored (parent : Option (SessionId × Int))
    (hrow : tables.session? shared.header.sessionId = none) :
    RowStored codecs tables { tables with sessions := tables.sessions ++ [newRow codecs shared
      parent shared.header.sequence shared.header.contextEpoch shared.context.length] }
      shared := by
  have hlookup := fun other => session?_append tables
    (newRow codecs shared parent shared.header.sequence shared.header.contextEpoch
      shared.context.length) other hrow
  refine ⟨⟨_, (hlookup _).trans (if_pos rfl), rfl, rfl, rfl, rfl, rfl, by simp [hrow, newRow]⟩,
    fun row hsome => ?_, fun other hother => (hlookup other).trans (if_neg hother), fun hkeys => ?_,
    rfl, rfl, fun _ h => .inl h, fun _ h => .inl h⟩
  · rw [hrow] at hsome
    cases hsome
  · rw [List.map_append, List.nodup_append]
    refine ⟨hkeys, List.nodup_singleton _, fun id hid other hother => ?_⟩
    rw [List.map_singleton, List.mem_singleton] at hother
    rintro rfl
    obtain ⟨row, hmem, hid⟩ := List.mem_map.mp hid
    have hnone := List.find?_eq_none.mp hrow row hmem
    have heq : row.sessionId = shared.header.sessionId := hid.trans hother
    exact hnone (by simpa using heq)

theorem upsertSession_stored
    (h : upsertSession codecs tables shared shared.header.sequence shared.header.contextEpoch
      shared.context.length = .ok next) : RowStored codecs tables next shared := by
  unfold upsertSession at h
  cases hrow : tables.session? shared.header.sessionId with
  | none =>
    rw [hrow, Except.ok.injEq] at h
    subst h
    exact newRow_stored codecs none hrow
  | some row =>
    simp only [hrow, except_bind_ok_iff] at h
    obtain ⟨_, hadvance, h⟩ := h
    have hadvance := of_decide_eq_false (rejectIf_ok hadvance)
    have hnext := (Except.ok.inj h).symm
    subst hnext
    have hlookup := fun other => session?_updateSession tables shared.header.sessionId other
      (advanceRow codecs shared shared.header.sequence shared.header.contextEpoch
        shared.context.length) fun _ => rfl
    refine ⟨⟨advanceRow codecs shared shared.header.sequence shared.header.contextEpoch
        shared.context.length row, by rw [hlookup, if_pos rfl, hrow, Option.map_some],
        show row.sessionId = _ from session?_id hrow, rfl, rfl, rfl, rfl,
        by simp [hrow, advanceRow]⟩, fun other hsome => ?_,
      fun other hother => by rw [hlookup, if_neg hother], fun hkeys => ?_, rfl, rfl,
      fun _ h => .inl h, fun _ h => .inl h⟩
    · rw [hrow, Option.some.injEq] at hsome
      subst hsome
      omega
    · simp only [Tables.updateSession, List.map_map]
      have hids : ((fun row : SessionRow Text => row.sessionId) ∘ fun row =>
          if row.sessionId = shared.header.sessionId then
            advanceRow codecs shared shared.header.sequence shared.header.contextEpoch
              shared.context.length row
          else row) = fun row => row.sessionId := by
        funext row
        simp only [Function.comp]
        split <;> rfl
      rw [hids]
      exact hkeys

theorem insertTranscript_stored {items : List Json} (hmid : RowStored codecs tables mid shared)
    (h : insertTranscript codecs mid shared.header.sessionId shared.header.sequence items =
      .ok next) : RowStored codecs tables next shared := by
  simp only [insertTranscript, except_bind_ok_iff] at h
  obtain ⟨_, -, h⟩ := h
  have hnext := (Except.ok.inj h).symm
  subst hnext
  refine ⟨hmid.own, hmid.advances, hmid.others, hmid.keys, hmid.contextItems, hmid.eventJournal,
    fun batch hbatch => ?_, hmid.executions⟩
  rcases List.mem_append.mp hbatch with hold | hnew
  · exact hmid.transcripts batch hold
  · rw [List.mem_singleton.mp hnew]
    exact .inr ⟨rfl, rfl⟩

theorem insertExecution_stored {record : ExecutionRecord}
    (hmid : RowStored codecs tables mid shared)
    (h : insertExecution codecs mid shared.header.sessionId shared.header.sequence record =
      .ok next) : RowStored codecs tables next shared := by
  simp only [insertExecution, except_bind_ok_iff] at h
  obtain ⟨_, -, h⟩ := h
  have hnext := (Except.ok.inj h).symm
  subst hnext
  refine ⟨hmid.own, hmid.advances, hmid.others, hmid.keys, hmid.contextItems, hmid.eventJournal,
    hmid.transcripts, fun other hother => ?_⟩
  rcases List.mem_append.mp hother with hold | hnew
  · exact hmid.executions other hold
  · rw [List.mem_singleton.mp hnew]
    exact .inr ⟨rfl, rfl⟩

theorem storeCheckpoint_stored {transcriptDelta : List Json} {execution : Option ExecutionRecord}
    (h : storeCheckpoint codecs tables shared shared.header.sequence transcriptDelta execution =
      .ok next) :
    RowStored codecs tables next shared ∧ (shared.header.contextEpoch : Int) ≤ i64Max ∧
      (shared.context.length : Int) ≤ i64Max := by
  simp only [storeCheckpoint, except_bind_ok_iff] at h
  obtain ⟨epoch, hepoch, count, hcount, mid, hupsert, last, htranscript, h⟩ := h
  obtain ⟨rfl, hepochFits⟩ := sqliteInteger_ok hepoch
  obtain ⟨rfl, hcountFits⟩ := contextCount_ok hcount
  obtain ⟨how, had, hot, hke, hco, hev, htr, hex⟩ := upsertSession_stored codecs hupsert
  have hmid : ∀ receipts, RowStored codecs tables { mid with messageReceipts := receipts }
      shared := fun _ => ⟨how, had, hot, hke, hco, hev, htr, hex⟩
  have hlast : RowStored codecs tables last shared := by
    unfold insertNonemptyTranscript at htranscript
    split at htranscript
    · rw [Except.ok.injEq] at htranscript
      exact htranscript ▸ hmid _
    · exact insertTranscript_stored codecs (hmid _) htranscript
  refine ⟨?_, hepochFits, hcountFits⟩
  cases execution with
  | none => exact (Except.ok.inj h) ▸ hlast
  | some record => exact insertExecution_stored codecs hlast h

theorem appendContext_rows {stored : Tables Text} {start : Nat}
    (hprepared : Prepared codecs tables mid shared start)
    (hcontext : stored.contextItems = mid.contextItems)
    (h : appendContext codecs stored shared start = .ok next) (other : SessionId) :
    sessionRows next other = if other = shared.header.sessionId then
        storedRows other shared.header.contextEpoch 0
          (contextTexts mid shared.header.sessionId ++
            (shared.context.drop start).map fun item => codecs.item.encode item.value)
      else sessionRows tables other := by
  simp only [appendContext, except_bind_ok_iff] at h
  obtain ⟨epoch, hepoch, h⟩ := h
  obtain ⟨rfl, -⟩ := sqliteInteger_ok hepoch
  rw [insertContext_ok codecs h]
  have hlength : (contextTexts mid shared.header.sessionId).length = start := by
    rw [hprepared.items.length_eq, List.length_map, List.length_take,
      Nat.min_eq_left hprepared.within]
  have hsplit : sessionRows (addContextRows stored
      (storedRows shared.header.sessionId shared.header.contextEpoch start
        ((shared.context.drop start).map fun item => codecs.item.encode item.value))) other =
      sessionRows mid other ++
      (storedRows shared.header.sessionId shared.header.contextEpoch start
        ((shared.context.drop start).map fun item => codecs.item.encode item.value)).filter
          fun row => decide (row.sessionId = other) := by
    simp only [sessionRows, addContextRows, List.filter_append, hcontext]
  rw [hsplit]
  split
  · rename_i hother
    subst hother
    rw [storedRows_append, ← hprepared.own, Nat.zero_add, hlength, List.filter_eq_self.mpr]
    intro row hmem
    exact decide_eq_true (mem_storedRows hmem).1
  · rename_i hother
    rw [List.filter_eq_nil_iff.mpr, List.append_nil, hprepared.others other hother]
    intro row hmem
    have hrow := (mem_storedRows hmem).1
    simp only [decide_eq_true_eq]
    exact fun heq => hother (heq.symm.trans hrow)

/-- A stored row and its appended context represent the checkpoint. -/
theorem appendContext_refines {stored : Tables Text} {start : Nat}
    (hrefines : Refines codecs checks tables store)
    (hprepared : Prepared codecs tables mid shared start)
    (hstored : RowStored codecs mid stored shared) (hstorable : Storable checks shared.header)
    (h : appendContext codecs stored shared start = .ok next) :
    Refines codecs checks next (store.put shared.checkpoint) := by
  have hrows := appendContext_rows codecs hprepared hstored.contextItems h
  have htexts : contextTexts next shared.header.sessionId =
      contextTexts mid shared.header.sessionId ++
        (shared.context.drop start).map fun item => codecs.item.encode item.value :=
    contextTexts_eq ((hrows _).trans (if_pos rfl))
  have hitems : List.Forall₂ (Written codecs) (contextTexts next shared.header.sessionId)
      shared.checkpoint.context := by
    have hnew := @written_encode _ codecs ((shared.context.drop start).map (·.value))
    rw [List.map_map] at hnew
    have hall := List.rel_append hprepared.items hnew
    dsimp only at hall
    rw [← List.map_append, List.take_append_drop] at hall
    rw [htexts]
    exact hall
  simp only [appendContext, except_bind_ok_iff] at h
  obtain ⟨epoch, hepoch, h⟩ := h
  obtain ⟨rfl, -⟩ := sqliteInteger_ok hepoch
  have hnext := insertContext_ok codecs h
  subst hnext
  have hsession : ∀ other, mid.session? other = tables.session? other := by
    intro other
    simp only [Tables.session?, hprepared.sessions]
  obtain ⟨row, hrow, hid, hsequence, hheader, hrowEpoch, hcount, hevent⟩ := hstored.own
  refine ⟨hstored.keys (by rw [hprepared.sessions]; exact hrefines.keys), ?_, ?_, ?_, ?_, ?_, ?_⟩
  · intro other hother
    have hne : other ≠ shared.header.sessionId := by
      rintro rfl
      simp [AbstractStore.put, SharedCheckpoint.checkpoint] at hother
    have hold : store other = none := by
      simpa [AbstractStore.put, SharedCheckpoint.checkpoint, hne] using hother
    obtain ⟨hnone, hempty⟩ := hrefines.absent other hold
    refine ⟨?_, ?_⟩
    · exact (hstored.others other hne).trans ((hsession other).trans hnone)
    · rw [hrows, if_neg hne, hempty]
  · intro other checkpoint hother
    by_cases hne : other = shared.header.sessionId
    · subst hne
      have heq : checkpoint = shared.checkpoint := by
        simpa [AbstractStore.put, SharedCheckpoint.checkpoint] using hother.symm
      subst heq
      refine ⟨rfl, hstorable, row, hrow, hid, hsequence, hheader, hrowEpoch, ?_, ?_, hitems⟩
      · rw [hcount, SharedCheckpoint.checkpoint, List.length_map]
      · exact ((hrows _).trans (if_pos rfl)).trans (htexts ▸ rfl)
    · have hold : store other = some checkpoint := by
        simpa [AbstractStore.put, SharedCheckpoint.checkpoint, hne] using hother
      obtain ⟨hcid, hcstorable, crow, hcrow, hrep⟩ := hrefines.present other checkpoint hold
      refine ⟨hcid, hcstorable, crow, ?_, hrep.sessionId, hrep.sequence, hrep.header, hrep.epoch,
        hrep.count, ?_, ?_⟩
      · exact (hstored.others other hne).trans ((hsession other).trans hcrow)
      · rw [contextTexts, hcid, hrows, if_neg hne, ← hcid]
        exact hrep.rows
      · rw [contextTexts, hcid, hrows, if_neg hne, ← hcid]
        exact hrep.items
  · intro batch hbatch
    rcases hstored.transcripts batch hbatch with hold | ⟨hid', hseq⟩
    · rw [hprepared.transcriptDelta] at hold
      obtain ⟨old, hold, hle⟩ := hrefines.transcripts batch hold
      by_cases hne : batch.sessionId = shared.header.sessionId
      · refine ⟨row, by rw [hne]; exact hrow, ?_⟩
        have hadvance := hstored.advances old (by rw [hsession, ← hne]; exact hold)
        rw [hsequence]
        omega
      · exact ⟨old, (hstored.others _ hne).trans ((hsession _).trans hold), hle⟩
    · exact ⟨row, by rw [hid']; exact hrow, by rw [hsequence, hseq]⟩
  · intro record hrecord
    rcases hstored.executions record hrecord with hold | ⟨hid', hseq⟩
    · rw [hprepared.executionJournal] at hold
      obtain ⟨old, hold, hle⟩ := hrefines.executions record hold
      by_cases hne : record.sessionId = shared.header.sessionId
      · refine ⟨row, by rw [hne]; exact hrow, ?_⟩
        have hadvance := hstored.advances old (by rw [hsession, ← hne]; exact hold)
        rw [hsequence]
        omega
      · exact ⟨old, (hstored.others _ hne).trans ((hsession _).trans hold), hle⟩
    · exact ⟨row, by rw [hid']; exact hrow, by rw [hsequence, hseq]⟩
  · intro event hmem
    have hold : event ∈ tables.eventJournal := by
      rw [← hprepared.eventJournal, ← hstored.eventJournal]
      exact hmem
    obtain ⟨old, hold, hle⟩ := hrefines.events event hold
    by_cases hne : event.sessionId = shared.header.sessionId
    · refine ⟨row, by rw [hne]; exact hrow, ?_⟩
      rw [hne] at hold
      rw [hevent, hsession, hold]
      exact hle
    · exact ⟨old, (hstored.others _ hne).trans ((hsession _).trans hold), hle⟩
  · intro other found hfound
    by_cases hne : other = shared.header.sessionId
    · subst hne
      have heq : found = row := Option.some.inj (hfound.symm.trans hrow)
      rw [heq, hevent, hsession]
      cases hold : tables.session? shared.header.sessionId with
      | none => exact le_refl _
      | some old => exact hrefines.eventSequence _ old hold
    · have hold : tables.session? other = some found :=
        (hsession other).symm.trans ((hstored.others other hne).symm.trans hfound)
      exact hrefines.eventSequence other found hold

/-- Only the context of one session may have changed. -/
def OthersKept (id : SessionId) (tables next : Tables Text) : Prop :=
  ∀ other, other ≠ id → contextTexts next other = contextTexts tables other

variable {codecs} in
theorem othersKept_append {stored : Tables Text} {start : Nat}
    (hprepared : Prepared codecs tables mid shared start)
    (hcontext : stored.contextItems = mid.contextItems)
    (h : appendContext codecs stored shared start = .ok next) :
    OthersKept shared.header.sessionId tables next := by
  intro other hother
  rw [contextTexts, appendContext_rows codecs hprepared hcontext h, if_neg hother]
  rfl

theorem OthersKept.of_contextItems {id : SessionId} {last : Tables Text}
    (h : OthersKept id tables next) (hsame : last.contextItems = next.contextItems) :
    OthersKept id tables last := by
  intro other hother
  rw [← h other hother]
  simp only [contextTexts, sessionRows, hsame]

theorem saveWithEvents_refines {transcriptDelta : List Json} {execution : Option ExecutionRecord}
    {events : List TimestampedEvent} {cached : Option ContextCache} {dataVersion : Nat}
    {records : List JournalEvent} (hrefines : Refines codecs checks tables store)
    (hqueue : QueueValid checks shared.header)
    (hsound : ∀ stored, store shared.header.sessionId = some stored →
      HintSound codecs (appliedHint cached shared stored dataVersion) 0
        (contextTexts tables stored.sessionId)
        (shared.context.take stored.context.length))
    (h : saveWithEvents codecs checks tables shared transcriptDelta execution events cached
      dataVersion = .ok (records, next)) :
    Refines codecs checks next (store.put shared.checkpoint) ∧
      OthersKept shared.header.sessionId tables next := by
  simp only [saveWithEvents, except_bind_ok_iff] at h
  obtain ⟨_, hvalid, _, -, sequence, hsequence, ⟨⟨start, rewritten⟩, mid⟩, hprepare, stored,
    hstore, appended, happend, hevents⟩ := h
  obtain ⟨rfl, hsequenceFits⟩ := sqliteInteger_ok hsequence
  have hprepared := prepareAppend_prepared codecs checks hrefines hsound hprepare
  obtain ⟨hrow, hepochFits, -⟩ := storeCheckpoint_stored codecs hstore
  have hstorable : Storable checks shared.header :=
    ⟨hvalid, hqueue, hsequenceFits, hepochFits⟩
  have hsaved := appendContext_refines codecs checks hrefines hprepared hrow hstorable happend
  obtain ⟨-, -, row, hfound, -⟩ := hsaved.present shared.header.sessionId shared.checkpoint
    (if_pos rfl)
  exact ⟨storeEvents_refines codecs checks hsaved ⟨row, hfound⟩ hevents,
    (othersKept_append hprepared hrow.contextItems happend).of_contextItems
      (storeEvents_contextItems codecs hevents)⟩

end Saves

section ForksAndDeletions

variable {Text : Type} (codecs : Codecs Text) (checks : ExternalChecks)

variable {store : AbstractStore} {tables next : Tables Text}

theorem insertNonemptyTranscript_contextItems {id : SessionId} {sequence : Int}
    {items : List Json}
    (h : insertNonemptyTranscript codecs tables id sequence items = .ok next) :
    next.contextItems = tables.contextItems := by
  unfold insertNonemptyTranscript at h
  split at h
  · rw [Except.ok.inj h]
  · simp only [insertTranscript, except_bind_ok_iff] at h
    obtain ⟨_, -, h⟩ := h
    rw [← Except.ok.inj h]

theorem insertNonemptyTranscript_refines {id : SessionId} {sequence : Int} {items : List Json}
    {row : SessionRow Text} (hrefines : Refines codecs checks tables store)
    (hrow : tables.session? id = some row) (hle : sequence ≤ row.latestSequence)
    (h : insertNonemptyTranscript codecs tables id sequence items = .ok next) :
    Refines codecs checks next store := by
  unfold insertNonemptyTranscript at h
  split at h
  · exact (Except.ok.inj h) ▸ hrefines
  · simp only [insertTranscript, except_bind_ok_iff] at h
    obtain ⟨_, -, h⟩ := h
    have hnext := (Except.ok.inj h).symm
    subst hnext
    refine ⟨hrefines.keys, hrefines.absent, fun other stored hother => ?_, fun batch hbatch => ?_,
      hrefines.executions, hrefines.events, hrefines.eventSequence⟩
    · obtain ⟨hid, hstorable, found, hfound, hrep⟩ := hrefines.present other stored hother
      exact ⟨hid, hstorable, found, hfound, hrep.sessionId, hrep.sequence, hrep.header,
        hrep.epoch, hrep.count, hrep.rows, hrep.items⟩
    · rcases List.mem_append.mp hbatch with hold | hnew
      · exact hrefines.transcripts batch hold
      · rw [List.mem_singleton.mp hnew]
        exact ⟨row, hrow, hle⟩

/-- An accepted fork adds its session to the map and keeps other contexts. -/
theorem fork_refines {parent : SessionId} {parentSequence : Nat} {shared : SharedCheckpoint}
    {summary : SessionSummary} (hrefines : Refines codecs checks tables store)
    (hqueue : QueueValid checks shared.header)
    (h : fork codecs tables parent parentSequence shared = .ok (summary, next)) :
    Refines codecs checks next (store.put shared.checkpoint) ∧
      OthersKept shared.header.sessionId tables next := by
  simp only [fork, except_bind_ok_iff] at h
  obtain ⟨_, -, _, -, point, -, sequence, hsequence, _, hvalid, durable, -, _, -, epoch, hepoch,
    count, hcount, _, hnew, appended, happend, last, htranscript, _, -, h⟩ := h
  obtain ⟨rfl, hsequenceFits⟩ := sqliteInteger_ok hsequence
  obtain ⟨rfl, hepochFits⟩ := sqliteInteger_ok hepoch
  obtain ⟨rfl, -⟩ := contextCount_ok hcount
  obtain ⟨-, hnext⟩ := Prod.mk.inj (Except.ok.inj h)
  subst hnext
  have hnone : tables.session? shared.header.sessionId = none := by
    have hnot := rejectIf_ok hnew
    simpa using hnot
  have habsent : store shared.header.sessionId = none := by
    cases hstore : store shared.header.sessionId with
    | none => rfl
    | some stored =>
      obtain ⟨-, -, row, hrow, -⟩ := hrefines.present _ stored hstore
      rw [hnone] at hrow
      cases hrow
  have hrows := (hrefines.absent _ habsent).2
  have htexts := @contextTexts_eq _ [] shared.header.contextEpoch _ _ hrows
  have hprepared : Prepared codecs tables tables shared 0 := by
    refine ⟨rfl, rfl, rfl, rfl, Nat.zero_le _, ?_, ?_, fun _ _ => rfl⟩
    · rw [htexts, hrows]
      rfl
    · rw [htexts]
      exact .nil
  have hstored := newRow_stored codecs (some (parent, point)) hnone
  have hforked := appendContext_refines codecs checks hrefines hprepared hstored
    ⟨hvalid, hqueue, hsequenceFits, hepochFits⟩ happend
  obtain ⟨-, -, row, hrow, hrep⟩ := hforked.present shared.header.sessionId shared.checkpoint
    (if_pos rfl)
  refine ⟨insertNonemptyTranscript_refines codecs checks hforked hrow ?_ htranscript,
    (othersKept_append hprepared hstored.contextItems happend).of_contextItems
      (insertNonemptyTranscript_contextItems codecs htranscript)⟩
  rw [hrep.sequence]
  exact le_refl _

theorem sessionRows_withoutSessions {gone : List SessionId} {id : SessionId}
    (hid : gone.contains id = false) :
    sessionRows (Tables.withoutSessions tables gone) id = sessionRows tables id := by
  simp only [sessionRows, Tables.withoutSessions, List.filter_filter]
  congr 1
  funext row
  by_cases hrow : row.sessionId = id
  · simp only [hrow, decide_true, hid, Bool.not_false, Bool.and_true]
  · simp [hrow]

/-- Removing sessions with all their rows removes them from the map. -/
theorem withoutSessions_refines (gone : List SessionId)
    (hrefines : Refines codecs checks tables store) :
    Refines codecs checks (Tables.withoutSessions tables gone) (store.remove gone) := by
  have hrows : ∀ id, gone.contains id = false →
      sessionRows (Tables.withoutSessions tables gone) id = sessionRows tables id :=
    fun id hid => sessionRows_withoutSessions hid
  have hkept : ∀ {id : SessionId} {row : SessionRow Text}, gone.contains id = false →
      tables.session? id = some row →
      (Tables.withoutSessions tables gone).session? id = some row := by
    intro id row hid hrow
    rw [session?_withoutSessions, hid]
    exact hrow
  refine ⟨?_, ?_, ?_, ?_, ?_, ?_, ?_⟩
  · exact (List.filter_sublist.map _).nodup hrefines.keys
  · intro id hid
    rw [session?_withoutSessions]
    by_cases hgone : gone.contains id = true
    · refine ⟨if_pos hgone, ?_⟩
      simp only [sessionRows, Tables.withoutSessions, List.filter_filter]
      rw [List.filter_eq_nil_iff]
      intro row _
      by_cases hrow : row.sessionId = id
      · have hmem : id ∈ gone := by simpa using hgone
        simp [hrow, hmem]
      · simp [hrow]
    · have hstore : store id = none := by
        simpa only [AbstractStore.remove, hgone, Bool.false_eq_true, if_false] using hid
      obtain ⟨hnone, hempty⟩ := hrefines.absent id hstore
      rw [Bool.not_eq_true] at hgone
      rw [hrows id hgone]
      exact ⟨by rw [hnone]; simp, hempty⟩
  · intro id stored hid
    have hgone : gone.contains id = false := by
      by_contra hnot
      rw [Bool.not_eq_false] at hnot
      simp only [AbstractStore.remove, hnot, if_true] at hid
      cases hid
    have hstore : store id = some stored := by
      simpa only [AbstractStore.remove, hgone, Bool.false_eq_true, if_false] using hid
    obtain ⟨heq, hstorable, row, hrow, hrep⟩ := hrefines.present id stored hstore
    refine ⟨heq, hstorable, row, hkept hgone hrow, hrep.sessionId, hrep.sequence, hrep.header,
      hrep.epoch, hrep.count, ?_, ?_⟩
    · rw [contextTexts, hrows stored.sessionId (heq ▸ hgone)]
      exact hrep.rows
    · rw [contextTexts, hrows stored.sessionId (heq ▸ hgone)]
      exact hrep.items
  · intro batch hbatch
    obtain ⟨hbatch, hgone⟩ := List.mem_filter.mp hbatch
    obtain ⟨row, hrow, hle⟩ := hrefines.transcripts batch hbatch
    exact ⟨row, hkept (by simpa using hgone) hrow, hle⟩
  · intro record hrecord
    obtain ⟨hrecord, hgone⟩ := List.mem_filter.mp hrecord
    obtain ⟨row, hrow, hle⟩ := hrefines.executions record hrecord
    exact ⟨row, hkept (by simpa using hgone) hrow, hle⟩
  · intro event hevent
    obtain ⟨hevent, hgone⟩ := List.mem_filter.mp hevent
    obtain ⟨row, hrow, hle⟩ := hrefines.events event hevent
    exact ⟨row, hkept (by simpa using hgone) hrow, hle⟩
  · intro id row hrow
    rw [session?_withoutSessions] at hrow
    split at hrow
    · cases hrow
    · exact hrefines.eventSequence id row hrow

theorem deleteSessions_refines {roots tree : List SessionId}
    (hrefines : Refines codecs checks tables store)
    (h : deleteSessions tables roots = .ok (some (tree, next))) :
    Refines codecs checks next (store.remove tree) ∧
      ∀ id, tree.contains id = false → contextTexts next id = contextTexts tables id := by
  unfold deleteSessions at h
  dsimp only at h
  split at h
  · cases h
  · simp only [except_bind_ok_iff] at h
    obtain ⟨_, -, _, -, h⟩ := h
    obtain ⟨htree, hnext⟩ := Prod.mk.inj (Option.some.inj (Except.ok.inj h))
    subst htree hnext
    refine ⟨withoutSessions_refines codecs checks _ hrefines, fun id hid => ?_⟩
    rw [contextTexts, sessionRows_withoutSessions hid]
    rfl

end ForksAndDeletions

end MobiusAgent.StoreRefinement
