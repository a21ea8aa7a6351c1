import MobiusAgent.StoreJournal

/-!
# Turn pages of the event journal

`event_page` reads one fixed-size batch of a session's journal, newest first.
`event_turn_page` scans such batches until it has seen one whole turn and the
start of an older one; a client follows the cursor of each page to the next.
For journals whose turns do not overlap, the pages are computed in closed
form, whatever the size of the batches.
-/

namespace MobiusAgent.StoreTurnPages

open JsonValue ProtocolEvents CheckpointRecords CheckpointValidation StoreTables
open StoreTransactions StoreConnections StoreJournal

/-- One newest-first page of normalized session events. -/
structure EventPage where
  /-- Durable sequence high-water, including discarded transient events. -/
  latestSequence : Int
  events : List JournalEvent
  /-- The cursor of the next older page. -/
  nextBeforeSequence : Option Int

section Query

variable {Text : Type} (codecs : Codecs Text) (decoders : Decoders Text)

def decodeJournalEvent (tables : Tables Text) (id : SessionId) (row : EventRow Text) :
    Except Error JournalEvent := do
  rejectIf (row.sequence < 0)
    (.checkpoint ("event journal row has a negative sequence: " ++ negativeConversionError))
  let event ← decodeEvent codecs decoders tables id row.eventJson
  let metrics ← codecs.metrics.decode row.streamMetricsJson
  return ⟨row.sequence, row.recordedAtMs, event, metrics⟩

/-- The rows of a session, `ORDER BY sequence DESC`. -/
def newestRows (tables : Tables Text) (id : SessionId) : List (EventRow Text) :=
  (tables.eventJournal.filter (·.sessionId = id)).insertionSort fun a b => b.sequence ≤ a.sequence

def rowsBefore (tables : Tables Text) (id : SessionId) (before : Option Int) :
    List (EventRow Text) :=
  (newestRows tables id).filter fun row => before.all fun cursor => decide (row.sequence < cursor)

/-- `event_page` of the SQLite store. -/
def eventPage (tables : Tables Text) (id : SessionId) (limit : Nat) (before : Option Int) :
    Except Error EventPage := do
  rejectIf (limit = 0) (.checkpoint "event journal page limit must be positive")
  rejectIf (i64Max < (limit + 1 : Nat)) (.checkpoint "event journal page limit is too large")
  rejectIf (before.any (i64Max < ·))
    (.checkpoint ("event journal cursor exceeds SQLite INTEGER: " ++ intConversionError))
  let session ← orError (tables.session? id)
    (.checkpoint "event journal session does not exist")
  rejectIf (session.latestEventSequence < 0)
    (.checkpoint ("event journal sequence became negative: " ++ negativeConversionError))
  let rows := (rowsBefore tables id before).take (limit + 1)
  let events ← (rows.take limit).mapM (decodeJournalEvent codecs decoders tables id)
  return ⟨session.latestEventSequence, events,
    if limit < rows.length then events.getLast?.map (·.sequence) else none⟩

end Query

/-- The variables of `event_turn_page`. -/
structure TurnScan where
  /-- The high-water of the first batch. -/
  latestSequence : Int := 0
  /-- The records of the page so far, newest first. -/
  events : List JournalEvent := []
  /-- The turn whose start was found. -/
  foundStart : Option String := none
  /-- Whether the start of an older turn was found. -/
  hasEarlierTurn : Bool := false
  /-- The records older than the last start taken. -/
  startsBefore : List JournalEvent := []
  /-- Whether no terminal event was seen since that start. -/
  inGap : Bool := true

/-- One batch of the scan, left at the start of an older turn. -/
def scanEvents (scan : TurnScan) : List JournalEvent → TurnScan
  | [] => scan
  | event :: rest =>
    match scan.foundStart with
    | some turnId =>
      match event.event.msg with
      | .turnStarted _ started _ =>
        if started = turnId then
          scanEvents { scan with
            events := scan.events ++ scan.startsBefore ++ [event]
            startsBefore := []
            inGap := true } rest
        else { scan with hasEarlierTurn := true }
      | .turnComplete .. => scanEvents { scan with inGap := false } rest
      | .turnAborted .. => scanEvents { scan with inGap := false } rest
      | _ =>
        if scan.inGap then
          scanEvents { scan with startsBefore := scan.startsBefore ++ [event] } rest
        else scanEvents scan rest
    | none =>
      match event.event.msg with
      | .turnStarted _ started _ =>
        scanEvents { scan with
          foundStart := some started
          events := scan.events ++ [event] } rest
      | _ => scanEvents { scan with events := scan.events ++ [event] } rest

/-- The loop of `event_turn_page` over the batches of a store. -/
def scanPages (page : Option Int → Except Error EventPage) :
    Nat → TurnScan → Option Int → Option (Except Error TurnScan)
  | 0, _, _ => none
  | fuel + 1, scan, cursor =>
    match page cursor with
    | .error error => some (.error error)
    | .ok batch =>
      let scan := if scan.events.isEmpty then
        { scan with latestSequence := batch.latestSequence } else scan
      let scan := scanEvents scan batch.events
      if scan.hasEarlierTurn then some (.ok scan)
      else match batch.nextBeforeSequence with
        | none => some (.ok scan)
        | some next => scanPages page fuel scan (some next)

def startedTurn (event : JournalEvent) : Option String :=
  match event.event.msg with
  | .turnStarted _ turnId _ => some turnId
  | _ => none

def endedTurn (event : JournalEvent) : Option String :=
  match event.event.msg with
  | .turnComplete _ turnId => some turnId
  | .turnAborted _ turnId _ => some turnId
  | _ => none

/-- Whether an event is the start of an agent. -/
def isConfigured (event : JournalEvent) : Bool :=
  match event.event.msg with
  | .sessionConfigured .. => true
  | _ => false

/-- The oldest start among the collected records, with its position. -/
def oldestStart (events : List JournalEvent) : Option (Nat × Int × String) :=
  events.zipIdx.reverse.findSome? fun (event, index) =>
    (startedTurn event).map fun turnId => (index, event.sequence, turnId)

def cutPage (scan : TurnScan) : EventPage :=
  match oldestStart scan.events with
  | none => ⟨scan.latestSequence, [], none⟩
  | some (startIndex, startSequence, turnId) =>
    let pageStart :=
      ((scan.events.take startIndex).findIdx? fun event => endedTurn event == some turnId).getD 0
    let events := (scan.events.take (startIndex + 1)).drop pageStart
    if scan.hasEarlierTurn then
      ⟨scan.latestSequence, events ++ scan.startsBefore.filter isConfigured,
        some startSequence⟩
    else ⟨scan.latestSequence, events, none⟩

/-- `event_turn_page`, with fuel for its loop. -/
def eventTurnPage (page : Option Int → Except Error EventPage) (fuel : Nat)
    (before : Option Int) : Option (Except Error EventPage) :=
  (scanPages page fuel {} before).map fun scanned => scanned.map cutPage

/-- The pages that a client reads who follows the cursors. -/
def turnPages (page : Option Int → Except Error EventPage) (fuel : Nat) :
    Nat → Option Int → Option (Except Error (List EventPage))
  | 0, _ => none
  | pages + 1, cursor =>
    match eventTurnPage page fuel cursor with
    | none => none
    | some (.error error) => some (.error error)
    | some (.ok first) =>
      match first.nextBeforeSequence with
      | none => some (.ok [first])
      | some next =>
        (turnPages page fuel pages (some next)).map fun rest => rest.map (first :: ·)

def turnPageBatchSize : Nat := 100

section Scanning

/-- An event that neither starts nor ends a turn. -/
def Plain (event : JournalEvent) : Prop := startedTurn event = none ∧ endedTurn event = none

/-- How a scan goes on after an event that may start or end a turn. -/
def visit (scan : TurnScan) (event : JournalEvent) (next : TurnScan → TurnScan) : TurnScan :=
  match scan.foundStart, startedTurn event with
  | none, none => next { scan with events := scan.events ++ [event] }
  | none, some turnId =>
    next { scan with
      foundStart := some turnId
      events := scan.events ++ [event] }
  | some turnId, some started =>
    if started = turnId then
      next { scan with
        events := scan.events ++ scan.startsBefore ++ [event]
        startsBefore := []
        inGap := true }
    else { scan with hasEarlierTurn := true }
  | some _, none =>
    if (endedTurn event).isSome then next { scan with inGap := false }
    else if scan.inGap then next { scan with startsBefore := scan.startsBefore ++ [event] }
    else next scan

theorem scanEvents_nil (scan : TurnScan) : scanEvents scan [] = scan := rfl

theorem scanEvents_cons (scan : TurnScan) (event : JournalEvent) (rest : List JournalEvent) :
    scanEvents scan (event :: rest) = visit scan event fun next => scanEvents next rest := by
  rw [scanEvents, visit]
  cases hfound : scan.foundStart with
  | none => cases hmsg : event.event.msg <;> simp only [startedTurn, hmsg]
  | some turnId =>
    cases hmsg : event.event.msg <;>
      simp only [startedTurn, endedTurn, hmsg, Option.isSome_some, Option.isSome_none,
        if_true, Bool.false_eq_true, if_false]

variable {event : JournalEvent} {turnId : String} {events : List JournalEvent}

theorem scanEvents_before (scan : TurnScan) (rest : List JournalEvent)
    (hfound : scan.foundStart = none) (hstart : startedTurn event = none) :
    scanEvents scan (event :: rest) =
      scanEvents { scan with events := scan.events ++ [event] } rest := by
  rw [scanEvents_cons, visit, hfound, hstart]

theorem scanEvents_found (scan : TurnScan) (rest : List JournalEvent)
    (hfound : scan.foundStart = none) (hstart : startedTurn event = some turnId) :
    scanEvents scan (event :: rest) =
      scanEvents { scan with
        foundStart := some turnId
        events := scan.events ++ [event] } rest := by
  rw [scanEvents_cons, visit, hfound, hstart]

theorem scanEvents_same (scan : TurnScan) (rest : List JournalEvent)
    (hfound : scan.foundStart = some turnId) (hstart : startedTurn event = some turnId) :
    scanEvents scan (event :: rest) =
      scanEvents { scan with
        events := scan.events ++ scan.startsBefore ++ [event]
        startsBefore := []
        inGap := true } rest := by
  rw [scanEvents_cons, visit, hfound, hstart]
  dsimp only
  rw [if_pos rfl]

theorem scanEvents_other (scan : TurnScan) {other : String} (rest : List JournalEvent)
    (hfound : scan.foundStart = some turnId) (hstart : startedTurn event = some other)
    (hother : other ≠ turnId) :
    scanEvents scan (event :: rest) = { scan with hasEarlierTurn := true } := by
  rw [scanEvents_cons, visit, hfound, hstart]
  dsimp only
  rw [if_neg hother]

theorem startedTurn_of_ended (h : endedTurn event = some turnId) : startedTurn event = none := by
  unfold endedTurn at h
  unfold startedTurn
  split at h
  · rename_i hmsg
    rw [hmsg]
  · rename_i hmsg
    rw [hmsg]
  · cases h

theorem scanEvents_ended (scan : TurnScan) {other : String} (rest : List JournalEvent)
    (hfound : scan.foundStart = some turnId) (hended : endedTurn event = some other) :
    scanEvents scan (event :: rest) = scanEvents { scan with inGap := false } rest := by
  rw [scanEvents_cons, visit, hfound, startedTurn_of_ended hended, hended]
  dsimp only
  rw [if_pos (Option.isSome_some)]

theorem scanEvents_gap (hplain : ∀ event ∈ events, Plain event) (scan : TurnScan)
    (rest : List JournalEvent) (hfound : scan.foundStart = some turnId) (hgap : scan.inGap = true) :
    scanEvents scan (events ++ rest) =
      scanEvents { scan with startsBefore := scan.startsBefore ++ events } rest := by
  induction events generalizing scan with
  | nil => rw [List.nil_append, List.append_nil]
  | cons event events ih =>
    obtain ⟨hstart, hended⟩ := hplain event List.mem_cons_self
    have hstep : scanEvents scan (event :: (events ++ rest)) =
        scanEvents { scan with startsBefore := scan.startsBefore ++ [event] }
          (events ++ rest) := by
      rw [scanEvents_cons, visit, hfound, hstart, hended]
      dsimp only
      rw [if_neg (by simp), if_pos hgap]
    have hevents : ∀ other ∈ events, Plain other := fun other hother =>
      hplain other (List.mem_cons_of_mem _ hother)
    rw [List.cons_append, hstep,
      ih hevents { scan with startsBefore := scan.startsBefore ++ [event] } hfound hgap,
      List.append_assoc, List.singleton_append]

theorem scanEvents_skip (hplain : ∀ event ∈ events, Plain event) {scan : TurnScan}
    (rest : List JournalEvent) (hfound : scan.foundStart = some turnId)
    (hgap : scan.inGap = false) : scanEvents scan (events ++ rest) = scanEvents scan rest := by
  induction events with
  | nil => rw [List.nil_append]
  | cons event events ih =>
    obtain ⟨hstart, hended⟩ := hplain event List.mem_cons_self
    rw [List.cons_append, scanEvents_cons, visit, hfound, hstart, hended]
    dsimp only
    rw [if_neg (by simp), if_neg (by rw [hgap]; exact Bool.false_ne_true)]
    exact ih fun other hother => hplain other (List.mem_cons_of_mem _ hother)

theorem scanEvents_take (hstarts : ∀ event ∈ events, startedTurn event = none) (scan : TurnScan)
    (rest : List JournalEvent) (hfound : scan.foundStart = none) :
    scanEvents scan (events ++ rest) =
      scanEvents { scan with events := scan.events ++ events } rest := by
  induction events generalizing scan with
  | nil => rw [List.nil_append, List.append_nil]
  | cons event events ih =>
    have hevents : ∀ other ∈ events, startedTurn other = none := fun other hother =>
      hstarts other (List.mem_cons_of_mem _ hother)
    rw [List.cons_append, scanEvents_before _ _ hfound (hstarts event List.mem_cons_self),
      ih hevents { scan with events := scan.events ++ [event] } hfound,
      List.append_assoc, List.singleton_append]

theorem scanEvents_append (scan : TurnScan) (first rest : List JournalEvent)
    (hearlier : scan.hasEarlierTurn = false) :
    scanEvents scan (first ++ rest) =
      if (scanEvents scan first).hasEarlierTurn then scanEvents scan first
      else scanEvents (scanEvents scan first) rest := by
  induction first generalizing scan with
  | nil =>
    rw [List.nil_append, scanEvents_nil, if_neg (by rw [hearlier]; exact Bool.false_ne_true)]
  | cons event first ih =>
    rw [List.cons_append, scanEvents_cons, scanEvents_cons, visit, visit]
    cases hfound : scan.foundStart with
    | none =>
      cases hstart : startedTurn event with
      | none | some started => exact ih _ hearlier
    | some turnId =>
      cases hstart : startedTurn event with
      | none =>
        dsimp only
        split
        · exact ih _ hearlier
        · split
          · exact ih _ hearlier
          · exact ih _ hearlier
      | some started =>
        dsimp only
        split
        · exact ih _ hearlier
        · rw [if_pos rfl]

theorem scanEvents_latestSequence (scan : TurnScan) (events : List JournalEvent) :
    (scanEvents scan events).latestSequence = scan.latestSequence := by
  induction events generalizing scan with
  | nil => rfl
  | cons event events ih =>
    rw [scanEvents_cons, visit]
    cases hfound : scan.foundStart with
    | none =>
      cases hstart : startedTurn event with
      | none | some started => exact ih _
    | some turnId =>
      cases hstart : startedTurn event with
      | none =>
        dsimp only
        split
        · exact ih _
        · split
          · exact ih _
          · exact ih _
      | some started =>
        dsimp only
        split
        · exact ih _
        · rfl

end Scanning

section Batches

def older (newest : List JournalEvent) (cursor : Option Int) : List JournalEvent :=
  newest.filter fun event => cursor.all fun before => decide (event.sequence < before)

/-- The journal has strictly decreasing sequences. -/
def Newest (newest : List JournalEvent) : Prop :=
  newest.Pairwise fun later earlier => earlier.sequence < later.sequence

theorem older_none (newest : List JournalEvent) : older newest none = newest := by
  unfold older
  exact List.filter_eq_self.mpr fun event _ => rfl

theorem older_after {first rest : List JournalEvent} {event : JournalEvent}
    (hnewest : Newest (first ++ event :: rest)) :
    older (first ++ event :: rest) (some event.sequence) = rest := by
  obtain ⟨-, htail, hcross⟩ := List.pairwise_append.mp hnewest
  obtain ⟨hrest, -⟩ := List.pairwise_cons.mp htail
  have hfirst : first.filter (fun other => decide (other.sequence < event.sequence)) = [] := by
    apply List.filter_eq_nil_iff.mpr
    intro other hother
    have hlater := hcross other hother event List.mem_cons_self
    simp only [decide_eq_true_eq]
    omega
  have hself : rest.filter (fun other => decide (other.sequence < event.sequence)) = rest := by
    apply List.filter_eq_self.mpr
    intro other hother
    exact decide_eq_true (hrest other hother)
  unfold older
  simp only [Option.all_some]
  rw [List.filter_append, hfirst, List.nil_append, List.filter_cons_of_neg, hself]
  simp only [decide_eq_true_eq]
  omega

/-- A cursor inside the journal cuts what is read before a cursor. -/
theorem older_older {newest first rest : List JournalEvent} {event : JournalEvent}
    {cursor : Option Int} (hnewest : Newest newest)
    (holder : older newest cursor = first ++ event :: rest) :
    older newest (some event.sequence) = rest := by
  have hsorted : Newest (first ++ event :: rest) := by
    rw [← holder]
    exact List.Pairwise.filter _ hnewest
  have hcursor : ∀ before ∈ cursor, event.sequence < before := by
    have hmem : event ∈ older newest cursor := by
      rw [holder]
      exact List.mem_append_right _ List.mem_cons_self
    have hall := (List.mem_filter.mp hmem).2
    intro before hbefore
    rw [Option.mem_def.mp hbefore] at hall
    exact of_decide_eq_true hall
  have hagain : older newest (some event.sequence) =
      older (older newest cursor) (some event.sequence) := by
    unfold older
    rw [List.filter_filter]
    apply List.filter_congr
    intro other _
    simp only [Option.all_some]
    by_cases hother : other.sequence < event.sequence
    · have hall : cursor.all (fun before => decide (other.sequence < before)) = true := by
        cases cursor with
        | none => rfl
        | some before =>
          have hbefore := hcursor before rfl
          exact decide_eq_true (by omega)
      rw [hall, Bool.and_true]
    · rw [decide_eq_false hother, Bool.false_and]
  rw [hagain, holder]
  exact older_after hsorted

/-- The batches of a store over one journal. -/
def Serves (page : Option Int → Except Error EventPage) (limit : Nat) (latest : Int)
    (newest : List JournalEvent) : Prop :=
  ∀ cursor : Option Int, (∀ before ∈ cursor, ∃ event ∈ newest, event.sequence = before) →
    page cursor = .ok ⟨latest, (older newest cursor).take limit,
      if limit < (older newest cursor).length then
        ((older newest cursor).take limit).getLast?.map (·.sequence)
      else none⟩

variable {page : Option Int → Except Error EventPage} {limit : Nat} {latest : Int}
  {newest : List JournalEvent}

theorem TurnScan.latestSequence_self {scan : TurnScan}
    (hlatest : scan.latestSequence = latest) :
    { scan with latestSequence := latest } = scan := by
  rw [← hlatest]

/-- The loop over the batches scans the journal before the cursor as a whole. -/
theorem scanPages_eq (hserves : Serves page limit latest newest) (hlimit : 0 < limit)
    (hnewest : Newest newest) {fuel : Nat} {scan : TurnScan} {cursor : Option Int}
    (hcursor : ∀ before ∈ cursor, ∃ event ∈ newest, event.sequence = before)
    (hfuel : (older newest cursor).length < fuel) (hearlier : scan.hasEarlierTurn = false)
    (hlatest : scan.latestSequence = latest ∨ scan.events = []) :
    scanPages page fuel scan cursor =
      some (.ok (scanEvents { scan with latestSequence := latest } (older newest cursor))) := by
  induction fuel generalizing scan cursor with
  | zero => omega
  | succ fuel ih =>
    have hstart : (if scan.events.isEmpty then { scan with latestSequence := latest } else scan) =
        { scan with latestSequence := latest } := by
      split
      · rfl
      · rename_i hempty
        cases hlatest with
        | inl hlatest => rw [← hlatest]
        | inr hnil =>
          rw [hnil] at hempty
          exact absurd rfl hempty
    rw [scanPages, hserves cursor hcursor]
    dsimp only
    rw [hstart]
    generalize hbegin : ({ scan with latestSequence := latest } : TurnScan) = start
    have hkept : start.latestSequence = latest := by rw [← hbegin]
    have hopen : start.hasEarlierTurn = false := by rw [← hbegin]; exact hearlier
    by_cases hmore : limit < (older newest cursor).length
    · have hsplit := scanEvents_append start ((older newest cursor).take limit)
        ((older newest cursor).drop limit) hopen
      rw [List.take_append_drop] at hsplit
      rw [if_pos hmore, hsplit]
      split
      · rfl
      · rename_i hrest
        have htake : (older newest cursor).take limit ≠ [] := by
          intro hnil
          have hlength := congrArg List.length hnil
          rw [List.length_take, List.length_nil] at hlength
          omega
        obtain ⟨event, hevent⟩ : ∃ event, ((older newest cursor).take limit).getLast? = some event :=
          ⟨_, List.getLast?_eq_some_getLast htake⟩
        have hwhole : older newest cursor = ((older newest cursor).take limit).dropLast ++
            event :: (older newest cursor).drop limit := by
          have hjoin := List.take_append_drop limit (older newest cursor)
          rw [← List.dropLast_append_getLast? event hevent, List.append_assoc,
            List.singleton_append] at hjoin
          exact hjoin.symm
        have hnext : older newest (some event.sequence) = (older newest cursor).drop limit :=
          older_older hnewest hwhole
        have hmem : event ∈ newest :=
          (List.mem_filter.mp (List.mem_of_mem_take (List.mem_of_getLast? hevent))).1
        have hlength : (older newest (some event.sequence)).length < fuel := by
          rw [hnext, List.length_drop]
          omega
        have hlater : (scanEvents start ((older newest cursor).take limit)).latestSequence =
            latest := (scanEvents_latestSequence _ _).trans hkept
        rw [hevent]
        dsimp only [Option.map_some]
        rw [ih (fun before hbefore => ⟨event, hmem, Option.some.inj hbefore⟩) hlength
          (Bool.eq_false_iff.mpr hrest) (.inl hlater), hnext,
          TurnScan.latestSequence_self hlater]
    · rw [if_neg hmore, List.take_of_length_le (by omega)]
      dsimp only
      split
      · rfl
      · rfl

end Batches

section Turns

/-- One turn of a journal with the records up to the next turn, in the order
of recording. A turn without a terminal event lasts until the next turn. -/
structure Turn where
  id : String
  /-- The starts before the last one, each with the records that follow it. -/
  earlier : List (JournalEvent × List JournalEvent)
  start : JournalEvent
  /-- The records after the last start. -/
  tail : List JournalEvent
  finish : Option JournalEvent
  /-- The records between the terminal event and the next turn. -/
  gap : List JournalEvent
  earlier_started : ∀ part ∈ earlier, startedTurn part.1 = some id
  /-- Between them lies no start and no terminal event. -/
  earlier_plain : ∀ part ∈ earlier, ∀ event ∈ part.2, Plain event
  started : startedTurn start = some id
  /-- No start and no terminal event follows it. -/
  tail_plain : ∀ event ∈ tail, Plain event
  /-- The terminal event is of this turn. -/
  finished : ∀ event ∈ finish, endedTurn event = some id
  /-- The gap has no start and no terminal event. -/
  gap_plain : ∀ event ∈ gap, Plain event
  /-- Only a finished turn is followed by a gap. -/
  gap_finished : finish = none → gap = []

/-- The records before the last start. -/
def Turn.preparation (turn : Turn) : List JournalEvent :=
  turn.earlier.flatMap fun part => part.1 :: part.2

/-- The records from the oldest start to the terminal event. -/
def Turn.extent (turn : Turn) : List JournalEvent :=
  turn.preparation ++ turn.start :: turn.tail ++ turn.finish.toList

/-- All records up to the next turn. -/
def Turn.records (turn : Turn) : List JournalEvent := turn.extent ++ turn.gap

/-- The records after the last boundary of the turn. -/
def Turn.trailing (turn : Turn) : List JournalEvent :=
  if turn.finish.isSome then turn.gap else turn.tail

/-- The oldest start. -/
def Turn.first (turn : Turn) : JournalEvent :=
  match turn.earlier with
  | [] => turn.start
  | part :: _ => part.1

/-- The records after the oldest start. -/
def Turn.later (turn : Turn) : List JournalEvent :=
  match turn.earlier with
  | [] => turn.tail ++ turn.finish.toList
  | part :: parts => part.2 ++ (parts.flatMap fun part => part.1 :: part.2) ++
      turn.start :: turn.tail ++ turn.finish.toList

theorem Turn.extent_eq (turn : Turn) : turn.extent = turn.first :: turn.later := by
  unfold Turn.extent Turn.preparation Turn.first Turn.later
  cases turn.earlier with
  | nil => rfl
  | cons part parts => simp only [List.flatMap_cons, List.cons_append, List.append_assoc]

theorem Turn.first_started (turn : Turn) : startedTurn turn.first = some turn.id := by
  unfold Turn.first
  split
  · exact turn.started
  · rename_i hearlier
    exact turn.earlier_started _ (by rw [hearlier]; exact List.mem_cons_self)

theorem endedTurn_of_started {event : JournalEvent} {turnId : String}
    (hstarted : startedTurn event = some turnId) : endedTurn event = none := by
  cases hended : endedTurn event with
  | none => rfl
  | some other =>
    rw [startedTurn_of_ended hended] at hstarted
    cases hstarted

theorem scanEvents_preparation {parts : List (JournalEvent × List JournalEvent)} {turnId : String}
    (hstarted : ∀ part ∈ parts, startedTurn part.1 = some turnId)
    (hplain : ∀ part ∈ parts, ∀ event ∈ part.2, Plain event) (latest : Int)
    (events rest : List JournalEvent) :
    scanEvents { latestSequence := latest, events := events, foundStart := some turnId }
      ((parts.flatMap fun part => part.1 :: part.2).reverse ++ rest) =
    scanEvents { latestSequence := latest
                 events := events ++ (parts.flatMap fun part => part.1 :: part.2).reverse
                 foundStart := some turnId } rest := by
  induction parts using List.reverseRecOn generalizing events with
  | nil => simp only [List.flatMap_nil, List.reverse_nil, List.nil_append, List.append_nil]
  | append_singleton parts part ih =>
    have hlast : part ∈ parts ++ [part] := List.mem_append_right _ List.mem_cons_self
    have hflat : ((parts ++ [part]).flatMap fun part => part.1 :: part.2).reverse =
        part.2.reverse ++ part.1 :: (parts.flatMap fun part => part.1 :: part.2).reverse := by
      simp only [List.flatMap_append, List.flatMap_cons, List.flatMap_nil, List.append_nil,
        List.reverse_append, List.reverse_cons, List.append_assoc, List.singleton_append]
    rw [hflat, List.append_assoc, List.cons_append,
      scanEvents_gap (fun event hevent => hplain part hlast event (List.mem_reverse.mp hevent))
        _ _ rfl rfl,
      scanEvents_same _ _ rfl (hstarted part hlast)]
    dsimp only
    rw [ih (fun other hother => hstarted other (List.mem_append_left _ hother))
      (fun other hother => hplain other (List.mem_append_left _ hother))]
    simp only [List.nil_append, List.append_assoc, List.singleton_append]

theorem Turn.records_reverse (turn : Turn) : turn.records.reverse =
    turn.gap.reverse ++ turn.finish.toList.reverse ++ turn.tail.reverse ++
      turn.start :: turn.preparation.reverse := by
  simp only [Turn.records, Turn.extent, List.reverse_append, List.reverse_cons,
    List.append_assoc, List.singleton_append]

theorem Turn.startedTurn_after (turn : Turn) :
    ∀ event ∈ turn.gap.reverse ++ turn.finish.toList.reverse ++ turn.tail.reverse,
      startedTurn event = none := by
  intro event hevent
  simp only [List.mem_append, List.mem_reverse, Option.mem_toList] at hevent
  obtain (hgap | hfinish) | htail := hevent
  · exact (turn.gap_plain event hgap).1
  · exact startedTurn_of_ended (turn.finished event hfinish)
  · exact (turn.tail_plain event htail).1

theorem scanEvents_turn (turn : Turn) (latest : Int) (rest : List JournalEvent) :
    scanEvents { latestSequence := latest } (turn.records.reverse ++ rest) =
      scanEvents { latestSequence := latest
                   events := turn.records.reverse
                   foundStart := some turn.id } rest := by
  have hparts := scanEvents_preparation turn.earlier_started turn.earlier_plain latest
    (turn.gap.reverse ++ turn.finish.toList.reverse ++ turn.tail.reverse ++ [turn.start]) rest
  rw [turn.records_reverse, List.append_assoc, List.cons_append,
    scanEvents_take turn.startedTurn_after _ _ rfl, scanEvents_found _ _ rfl turn.started]
  dsimp only
  rw [List.nil_append]
  rw [show turn.preparation = turn.earlier.flatMap fun part => part.1 :: part.2 from rfl, hparts]
  simp only [List.append_assoc, List.singleton_append]

/-- The scan leaves at the last start of the turn before, with the records
after the last boundary of that turn. -/
theorem scanEvents_previous {scan : TurnScan} {turnId : String} (turn : Turn)
    (rest : List JournalEvent) (hfound : scan.foundStart = some turnId)
    (hgap : scan.inGap = true) (hother : turn.id ≠ turnId) :
    ∃ inGap, scanEvents scan (turn.records.reverse ++ rest) =
      { scan with
        startsBefore := scan.startsBefore ++ turn.trailing.reverse
        hasEarlierTurn := true
        inGap := inGap } := by
  have hgaps : ∀ event ∈ turn.gap.reverse, Plain event := fun event hevent =>
    turn.gap_plain event (List.mem_reverse.mp hevent)
  have htails : ∀ event ∈ turn.tail.reverse, Plain event := fun event hevent =>
    turn.tail_plain event (List.mem_reverse.mp hevent)
  obtain ⟨latest, events, found, hasEarlier, startsBefore, inGap⟩ := scan
  dsimp only at hfound hgap
  subst hfound hgap
  rw [turn.records_reverse]
  unfold Turn.trailing
  cases hfinish : turn.finish with
  | none =>
    refine ⟨true, ?_⟩
    rw [turn.gap_finished hfinish]
    simp only [Option.toList_none, List.reverse_nil, List.nil_append, Option.isSome_none,
      Bool.false_eq_true, if_false, List.append_assoc, List.cons_append]
    rw [scanEvents_gap htails _ _ rfl rfl, scanEvents_other _ _ rfl turn.started hother]
  | some event =>
    refine ⟨false, ?_⟩
    simp only [Option.toList_some, List.reverse_singleton, Option.isSome_some, if_true,
      List.append_assoc, List.cons_append, List.nil_append]
    rw [scanEvents_gap hgaps _ _ rfl rfl,
      scanEvents_ended _ _ rfl (turn.finished event hfinish),
      scanEvents_skip htails _ rfl rfl, scanEvents_other _ _ rfl turn.started hother]

theorem oldestStart_concat (events : List JournalEvent) {event : JournalEvent} {turnId : String}
    (hstarted : startedTurn event = some turnId) :
    oldestStart (events ++ [event]) = some (events.length, event.sequence, turnId) := by
  unfold oldestStart
  rw [List.zipIdx_append, List.reverse_append]
  simp only [Nat.zero_add, List.zipIdx_cons, List.zipIdx_nil, List.reverse_singleton,
    List.singleton_append, List.findSome?_cons, hstarted, Option.map_some]

theorem oldestStart_none {events : List JournalEvent}
    (hstarts : ∀ event ∈ events, startedTurn event = none) : oldestStart events = none := by
  unfold oldestStart
  apply List.findSome?_eq_none_iff.mpr
  rintro ⟨event, index⟩ hmem
  have hevent : event ∈ events :=
    (List.mem_zipIdx' (List.mem_reverse.mp hmem)).2 ▸ List.getElem_mem _
  simp only [hstarts event hevent, Option.map_none]

theorem Turn.later_eq (turn : Turn) : ∃ body, turn.later = body ++ turn.finish.toList ∧
    ∀ event ∈ body, endedTurn event = none := by
  have hbody : ∀ event ∈ turn.start :: turn.tail, endedTurn event = none := by
    intro event hevent
    cases hevent with
    | head => exact endedTurn_of_started turn.started
    | tail _ htail => exact (turn.tail_plain event htail).2
  unfold Turn.later
  split
  · exact ⟨turn.tail, rfl, fun event hevent => hbody event (List.mem_cons_of_mem _ hevent)⟩
  · rename_i part parts hearlier
    refine ⟨_, rfl, ?_⟩
    intro event hevent
    have hpart : part ∈ turn.earlier := by rw [hearlier]; exact List.mem_cons_self
    have hparts : ∀ other ∈ parts, other ∈ turn.earlier := by
      intro other hother
      rw [hearlier]
      exact List.mem_cons_of_mem _ hother
    simp only [List.mem_append, List.mem_flatMap] at hevent
    obtain (hevent | ⟨other, hother, hevent⟩) | hevent := hevent
    · exact (turn.earlier_plain part hpart event hevent).2
    · cases hevent with
      | head => exact endedTurn_of_started (turn.earlier_started other (hparts other hother))
      | tail _ hevent => exact (turn.earlier_plain other (hparts other hother) event hevent).2
    · exact hbody event hevent

theorem Turn.pageStart_eq (turn : Turn) :
    ((turn.gap.reverse ++ turn.later.reverse).findIdx? fun event =>
      endedTurn event == some turn.id).getD 0 = turn.gap.length := by
  obtain ⟨body, hlater, hbody⟩ := turn.later_eq
  have hnone : ∀ events : List JournalEvent, (∀ event ∈ events, endedTurn event = none) →
      events.findIdx? (fun event => endedTurn event == some turn.id) = none := by
    intro events hevents
    apply List.findIdx?_eq_none_iff.mpr
    intro event hevent
    rw [hevents event hevent]
    rfl
  have hgap := hnone turn.gap.reverse fun event hevent =>
    (turn.gap_plain event (List.mem_reverse.mp hevent)).2
  rw [List.findIdx?_append, hgap, hlater, List.reverse_append]
  cases hfinish : turn.finish with
  | none =>
    rw [turn.gap_finished hfinish, Option.toList_none, List.reverse_nil, List.nil_append,
      hnone body.reverse fun event hevent => hbody event (List.mem_reverse.mp hevent)]
    rfl
  | some event =>
    rw [Option.toList_some, List.reverse_singleton, List.singleton_append, List.findIdx?_cons,
      turn.finished event hfinish, beq_self_eq_true]
    simp only [if_true, Option.map_some, Nat.zero_add, List.length_reverse, Option.none_or,
      Option.getD_some]

theorem cutPage_turn (turn : Turn) (latest : Int) (hasEarlierTurn inGap : Bool)
    (startsBefore : List JournalEvent) :
    cutPage ⟨latest, turn.records.reverse, some turn.id, hasEarlierTurn, startsBefore, inGap⟩ =
      if hasEarlierTurn then
        ⟨latest, turn.extent.reverse ++ startsBefore.filter isConfigured,
          some turn.first.sequence⟩
      else ⟨latest, turn.extent.reverse, none⟩ := by
  have hrecords : turn.records.reverse =
      turn.gap.reverse ++ turn.later.reverse ++ [turn.first] := by
    rw [Turn.records, turn.extent_eq, List.reverse_append, List.reverse_cons, List.append_assoc]
  have hextent : (turn.gap.reverse ++ turn.later.reverse ++ [turn.first]).drop turn.gap.length =
      turn.extent.reverse := by
    rw [turn.extent_eq, List.reverse_cons, List.append_assoc]
    exact List.drop_left' List.length_reverse
  unfold cutPage
  dsimp only
  rw [hrecords, oldestStart_concat _ turn.first_started]
  dsimp only
  rw [List.take_left, turn.pageStart_eq,
    List.take_of_length_le (by rw [List.length_append, List.length_singleton]), hextent]

end Turns

section Pages

/-- The pages of the turns of a journal, newest first. -/
def pagesOf (latest : Int) : List Turn → List EventPage
  | [] => [⟨latest, [], none⟩]
  | [turn] => [⟨latest, turn.extent.reverse, none⟩]
  | turn :: previous :: turns =>
    ⟨latest, turn.extent.reverse ++ previous.trailing.reverse.filter isConfigured,
      some turn.first.sequence⟩ :: pagesOf latest (previous :: turns)

def newestFirst (lead : List JournalEvent) (turns : List Turn) : List JournalEvent :=
  (turns.flatMap fun turn => turn.records.reverse) ++ lead.reverse

variable {page : Option Int → Except Error EventPage} {limit : Nat} {latest : Int}
  {newest lead : List JournalEvent}

theorem eventTurnPage_eq (hserves : Serves page limit latest newest) (hlimit : 0 < limit)
    (hnewest : Newest newest) {fuel : Nat} {cursor : Option Int}
    (hcursor : ∀ before ∈ cursor, ∃ event ∈ newest, event.sequence = before)
    (hfuel : newest.length < fuel) :
    eventTurnPage page fuel cursor =
      some (.ok (cutPage (scanEvents { latestSequence := latest } (older newest cursor)))) := by
  have hlength : (older newest cursor).length < fuel :=
    lt_of_le_of_lt (List.length_filter_le _ _) hfuel
  have hscan := @scanPages_eq page limit latest newest hserves hlimit hnewest fuel {} cursor
    hcursor hlength rfl (.inr rfl)
  rw [eventTurnPage, hscan]
  rfl

theorem cutPage_lead (hlead : ∀ event ∈ lead, Plain event) :
    cutPage (scanEvents { latestSequence := latest } (newestFirst lead [])) =
      ⟨latest, [], none⟩ := by
  have hstarts : ∀ event ∈ lead.reverse, startedTurn event = none := fun event hevent =>
    (hlead event (List.mem_reverse.mp hevent)).1
  have hscan := scanEvents_take hstarts { latestSequence := latest } [] rfl
  rw [List.append_nil, scanEvents_nil] at hscan
  rw [newestFirst, List.flatMap_nil, List.nil_append, hscan, cutPage]
  dsimp only
  rw [List.nil_append, oldestStart_none hstarts]

theorem cutPage_oldest (hlead : ∀ event ∈ lead, Plain event) (turn : Turn) :
    cutPage (scanEvents { latestSequence := latest } (newestFirst lead [turn])) =
      ⟨latest, turn.extent.reverse, none⟩ := by
  have hplain : ∀ event ∈ lead.reverse, Plain event := fun event hevent =>
    hlead event (List.mem_reverse.mp hevent)
  have hscan := scanEvents_gap hplain
    { latestSequence := latest, events := turn.records.reverse, foundStart := some turn.id } []
    rfl rfl
  rw [List.append_nil, scanEvents_nil] at hscan
  rw [newestFirst, List.flatMap_cons, List.flatMap_nil, List.append_nil, scanEvents_turn, hscan,
    cutPage_turn]
  rfl

theorem cutPage_previous {turn previous : Turn} (turns : List Turn)
    (hids : previous.id ≠ turn.id) :
    cutPage (scanEvents { latestSequence := latest }
        (newestFirst lead (turn :: previous :: turns))) =
      ⟨latest, turn.extent.reverse ++ previous.trailing.reverse.filter isConfigured,
        some turn.first.sequence⟩ := by
  obtain ⟨inGap, hscan⟩ := @scanEvents_previous
    { latestSequence := latest, events := turn.records.reverse, foundStart := some turn.id }
    turn.id previous ((turns.flatMap fun turn => turn.records.reverse) ++ lead.reverse)
    rfl rfl hids
  rw [newestFirst, List.flatMap_cons, List.flatMap_cons, List.append_assoc, List.append_assoc,
    scanEvents_turn, hscan, cutPage_turn]
  rfl

theorem older_first (hnewest : Newest newest) {turn : Turn} {turns : List Turn}
    {cursor : Option Int} (holder : older newest cursor = newestFirst lead (turn :: turns)) :
    turn.first ∈ newest ∧
      older newest (some turn.first.sequence) = newestFirst lead turns := by
  have hsplit : older newest cursor =
      (turn.gap.reverse ++ turn.later.reverse) ++ turn.first :: newestFirst lead turns := by
    rw [holder, newestFirst, List.flatMap_cons, Turn.records, turn.extent_eq,
      List.reverse_append, List.reverse_cons, newestFirst]
    simp only [List.append_assoc, List.cons_append, List.nil_append]
  refine ⟨?_, older_older hnewest hsplit⟩
  have hmem : turn.first ∈ older newest cursor := by
    rw [hsplit]
    exact List.mem_append_right _ List.mem_cons_self
  exact (List.mem_filter.mp hmem).1

/-- Following the cursors reads the page of every turn, whatever the size of the batches. -/
theorem turnPages_eq (hserves : Serves page limit latest newest) (hlimit : 0 < limit)
    (hnewest : Newest newest) (hlead : ∀ event ∈ lead, Plain event) {turns : List Turn}
    (hids : (turns.map Turn.id).Nodup) {fuel pages : Nat} {cursor : Option Int}
    (hcursor : ∀ before ∈ cursor, ∃ event ∈ newest, event.sequence = before)
    (hfuel : newest.length < fuel) (hpages : turns.length < pages)
    (holder : older newest cursor = newestFirst lead turns) :
    turnPages page fuel pages cursor = some (.ok (pagesOf latest turns)) := by
  induction turns generalizing pages cursor with
  | nil =>
    cases pages with
    | zero => omega
    | succ pages =>
      rw [turnPages, eventTurnPage_eq hserves hlimit hnewest hcursor hfuel, holder,
        cutPage_lead hlead]
      rfl
  | cons turn turns ih =>
    cases pages with
    | zero => omega
    | succ pages =>
      rw [turnPages, eventTurnPage_eq hserves hlimit hnewest hcursor hfuel, holder]
      obtain ⟨hmem, hnext⟩ := older_first hnewest holder
      cases turns with
      | nil =>
        rw [cutPage_oldest hlead]
        rfl
      | cons previous turns =>
        obtain ⟨hfresh, hrest⟩ := List.nodup_cons.mp hids
        have hother : previous.id ≠ turn.id := fun heq =>
          hfresh (by rw [← heq]; exact List.mem_cons_self)
        have hlength : (previous :: turns).length < pages := by
          rw [List.length_cons] at hpages
          omega
        rw [cutPage_previous turns hother]
        dsimp only
        rw [ih hrest (fun before hbefore => ⟨turn.first, hmem, Option.some.inj hbefore⟩) hlength
          hnext]
        rfl

end Pages

section Stored

variable {Text : Type} (codecs : Codecs Text) (decoders : Decoders Text)

/-- The journal of a session in the tables of a store, newest first. -/
structure Stores (tables : Tables Text) (id : SessionId) (latest : Int)
    (newest : List JournalEvent) : Prop where
  session : ∃ session, tables.session? id = some session ∧ session.latestEventSequence = latest
  latest_nonneg : 0 ≤ latest
  rows : List.Forall₂ (fun row event => decodeJournalEvent codecs decoders tables id row = .ok event)
    (newestRows tables id) newest
  keys : ((tables.eventJournal.filter (·.sessionId = id)).map (·.sequence)).Nodup
  integers : ∀ row ∈ tables.eventJournal, row.sequence ≤ i64Max

variable {codecs decoders} {tables : Tables Text} {id : SessionId} {latest : Int}
  {newest : List JournalEvent}

theorem decodeJournalEvent_sequence {row : EventRow Text} {event : JournalEvent}
    (h : decodeJournalEvent codecs decoders tables id row = .ok event) :
    event.sequence = row.sequence := by
  unfold decodeJournalEvent at h
  simp only [except_bind_ok_iff] at h
  obtain ⟨_, -, decoded, -, metrics, -, h⟩ := h
  rw [← Except.ok.inj h]

theorem mapM_of_forall₂ {rows : List (EventRow Text)} {events : List JournalEvent}
    (h : List.Forall₂ (fun row event => decodeJournalEvent codecs decoders tables id row =
      .ok event) rows events) :
    rows.mapM (decodeJournalEvent codecs decoders tables id) = .ok events := by
  induction h with
  | nil => rfl
  | cons hrow _ ih =>
    rw [List.mapM_cons, hrow, ih]
    rfl

theorem sequences_of_forall₂ {rows : List (EventRow Text)} {events : List JournalEvent}
    (h : List.Forall₂ (fun row event => decodeJournalEvent codecs decoders tables id row =
      .ok event) rows events) :
    events.map (·.sequence) = rows.map (·.sequence) := by
  induction h with
  | nil => rfl
  | cons hrow _ ih => rw [List.map_cons, List.map_cons, ih, decodeJournalEvent_sequence hrow]

theorem Stores.decreasing (hstores : Stores codecs decoders tables id latest newest) :
    Newest newest := by
  have hsorted : (newestRows tables id).Pairwise fun a b => b.sequence ≤ a.sequence :=
    have : IsTrans (EventRow Text) fun a b => b.sequence ≤ a.sequence :=
      ⟨fun _ _ _ hab hbc => le_trans hbc hab⟩
    have : @Std.Total (EventRow Text) fun a b => b.sequence ≤ a.sequence :=
      ⟨fun a b => le_total b.sequence a.sequence⟩
    List.pairwise_insertionSort _ _
  have hdistinct : ((newestRows tables id).map (·.sequence)).Nodup :=
    (List.Perm.nodup_iff ((List.perm_insertionSort _ _).map _)).mpr hstores.keys
  have hrows : ((newestRows tables id).map (·.sequence)).Pairwise fun a b => b < a := by
    have hle : ((newestRows tables id).map (·.sequence)).Pairwise fun a b => b ≤ a :=
      List.pairwise_map.mpr hsorted
    exact List.Pairwise.imp₂ (fun _ _ hle hne => lt_of_le_of_ne hle (Ne.symm hne)) hle hdistinct
  rw [← sequences_of_forall₂ hstores.rows] at hrows
  exact List.pairwise_map.mp hrows

theorem Stores.serves (hstores : Stores codecs decoders tables id latest newest) {limit : Nat}
    (hpositive : 0 < limit) (hinteger : ((limit + 1 : Nat) : Int) ≤ i64Max) :
    Serves (eventPage codecs decoders tables id limit) limit latest newest := by
  intro cursor hcursor
  obtain ⟨session, hsession, hlatest⟩ := hstores.session
  have hbefore : List.Forall₂
      (fun row event => decodeJournalEvent codecs decoders tables id row = .ok event)
      (rowsBefore tables id cursor) (older newest cursor) := by
    refine List.rel_filter ?_ hstores.rows
    intro row event hrow
    dsimp only
    rw [decodeJournalEvent_sequence hrow]
  have hlength := hbefore.length_eq
  have hevents := mapM_of_forall₂ (List.forall₂_take limit hbefore)
  have hsequences : ∀ event ∈ newest, event.sequence ≤ i64Max := by
    intro event hevent
    have hmem : event.sequence ∈ (newestRows tables id).map (·.sequence) := by
      rw [← sequences_of_forall₂ hstores.rows]
      exact List.mem_map_of_mem hevent
    obtain ⟨row, hrow, hsequence⟩ := List.mem_map.mp hmem
    rw [← hsequence]
    exact hstores.integers row (List.mem_filter.mp ((List.mem_insertionSort _).mp hrow)).1
  have hcursors : cursor.any (fun before => decide (i64Max < before)) = false := by
    cases hvalue : cursor with
    | none => rfl
    | some before =>
      obtain ⟨event, hevent, hsequence⟩ := hcursor before hvalue
      have hbound := hsequences event hevent
      simp only [Option.any_some, decide_eq_false_iff_not]
      omega
  have htake : ((rowsBefore tables id cursor).take (limit + 1)).take limit =
      (rowsBefore tables id cursor).take limit := by
    rw [List.take_take, Nat.min_eq_left (by omega)]
  have hmore : limit < ((rowsBefore tables id cursor).take (limit + 1)).length ↔
      limit < (older newest cursor).length := by
    rw [List.length_take, hlength]
    omega
  have hnonneg : ¬ session.latestEventSequence < 0 := by
    rw [hlatest]
    exact not_lt.mpr hstores.latest_nonneg
  have hpass : ∀ (condition : Prop) [Decidable condition] (error : Error), ¬ condition →
      rejectIf (decide condition) error = .ok () := fun condition _ error hcondition =>
    rejectIf_ok_iff.mpr (decide_eq_false hcondition)
  unfold eventPage
  simp only [except_bind_ok_iff, hcursors, hsession, htake, hmore]
  refine ⟨(), hpass _ _ (by omega), (), hpass _ _ (by omega), (), rfl, session, rfl, (),
    hpass _ _ hnonneg, _, hevents, ?_⟩
  rw [hlatest]
  rfl

end Stored

section Partition

variable {latest : Int} {lead : List JournalEvent}

/-- The pages, newest first, partition the turns of a journal, newest first. -/
structure Partition (turns : List Turn) (pages : List EventPage) : Prop where
  /-- A page with events shows one turn from its terminal event, or from the newest event if it
  has none, to its oldest start; besides, it shows agent starts that lie between turns. -/
  extents : List.Forall₂ (fun page turn => ∃ between,
      page.events = turn.extent.reverse ++ between ∧
      ∀ event ∈ between, isConfigured event = true ∧ ∃ other ∈ turns, event ∈ other.gap)
    (pages.filter fun page => !page.events.isEmpty) turns
  cursors : (pages.filterMap (·.nextBeforeSequence)).Pairwise (· > ·)
  shown : ∀ turn ∈ turns, ∀ event ∈ turn.extent, ∃ page ∈ pages, event ∈ page.events
  between : ∀ turn ∈ turns.tail, ∀ event ∈ turn.gap, isConfigured event = true →
    ∃ page ∈ pages, event ∈ page.events
  once : (pages.flatMap (·.events)).Nodup

/-- No agent starts after the last start of a turn that has no terminal event
and is followed by another turn. -/
def Settled (turns : List Turn) : Prop :=
  ∀ turn ∈ turns.tail, turn.finish = none → ∀ event ∈ turn.tail, isConfigured event = false

theorem Turn.extent_ne_nil (turn : Turn) : turn.extent ≠ [] := by
  rw [turn.extent_eq]
  exact List.cons_ne_nil _ _

variable {turn : Turn} {turns : List Turn}

theorem Turn.trailing_configured
    (hsettled : turn.finish = none → ∀ event ∈ turn.tail, isConfigured event = false) :
    turn.trailing.reverse.filter isConfigured = turn.gap.reverse.filter isConfigured := by
  unfold Turn.trailing
  cases hfinish : turn.finish with
  | some event => rfl
  | none =>
    rw [turn.gap_finished hfinish]
    simp only [Option.isSome_none, Bool.false_eq_true, if_false, List.reverse_nil,
      List.filter_nil]
    apply List.filter_eq_nil_iff.mpr
    intro event hevent
    rw [hsettled hfinish event (List.mem_reverse.mp hevent)]
    exact Bool.false_ne_true

theorem Turn.records_gap (turn : Turn) :
    turn.records.reverse = turn.gap.reverse ++ turn.extent.reverse := by
  rw [Turn.records, List.reverse_append]

theorem pagesOf_sublist (hsettled : Settled (turn :: turns)) :
    List.Sublist ((pagesOf latest (turn :: turns)).flatMap (·.events))
      (turn.extent.reverse ++ newestFirst lead turns) := by
  induction turns generalizing turn with
  | nil =>
    rw [pagesOf, List.flatMap_singleton]
    exact List.sublist_append_left _ _
  | cons previous turns ih =>
    have hprevious := hsettled previous List.mem_cons_self
    have hrest : Settled (previous :: turns) := fun other hother =>
      hsettled other (List.mem_cons_of_mem _ hother)
    have hjournal : newestFirst lead (previous :: turns) = previous.gap.reverse ++
        (previous.extent.reverse ++ newestFirst lead turns) := by
      rw [newestFirst, List.flatMap_cons, previous.records_gap, newestFirst]
      simp only [List.append_assoc]
    rw [pagesOf, List.flatMap_cons, hjournal, Turn.trailing_configured hprevious,
      List.append_assoc]
    exact (List.Sublist.refl _).append (List.filter_sublist.append (ih hrest))

theorem pagesOf_cons (turn : Turn) (turns : List Turn) : ∃ between cursor rest,
    pagesOf latest (turn :: turns) =
      ⟨latest, turn.extent.reverse ++ between, cursor⟩ :: rest := by
  cases turns with
  | nil => exact ⟨[], none, [], by rw [pagesOf, List.append_nil]⟩
  | cons previous turns => exact ⟨_, _, _, rfl⟩

theorem pagesOf_shown (hturn : turn ∈ turns) {event : JournalEvent} (hevent : event ∈ turn.extent) :
    ∃ page ∈ pagesOf latest turns, event ∈ page.events := by
  induction turns with
  | nil => cases hturn
  | cons newer turns ih =>
    cases hturn with
    | head =>
      obtain ⟨between, cursor, rest, hpages⟩ := @pagesOf_cons latest turn turns
      rw [hpages]
      exact ⟨_, List.mem_cons_self, List.mem_append_left _ (List.mem_reverse.mpr hevent)⟩
    | tail _ hturn =>
      obtain ⟨page, hpage, hshown⟩ := ih hturn
      cases turns with
      | nil => cases hturn
      | cons previous turns => exact ⟨page, List.mem_cons_of_mem _ hpage, hshown⟩

theorem settled_of_once (honce : ((pagesOf latest turns).flatMap (·.events)).Nodup) :
    Settled turns := by
  induction turns with
  | nil => exact fun turn hturn => by cases hturn
  | cons turn turns ih =>
    cases turns with
    | nil => exact fun turn hturn => by cases hturn
    | cons previous turns =>
      rw [pagesOf, List.flatMap_cons] at honce
      have hrest := ih (List.Nodup.of_append_right honce)
      intro other hother hfinish event hevent
      cases hother with
      | tail _ hother => exact hrest other hother hfinish event hevent
      | head =>
        by_contra hconfigured
        have htrailing : event ∈ previous.trailing.reverse.filter isConfigured := by
          apply List.mem_filter.mpr
          refine ⟨List.mem_reverse.mpr ?_, Bool.eq_true_of_not_eq_false hconfigured⟩
          unfold Turn.trailing
          rw [hfinish]
          exact hevent
        have hextent : event ∈ (pagesOf latest (previous :: turns)).flatMap (·.events) := by
          have hmem : event ∈ previous.extent := by
            unfold Turn.extent
            exact List.mem_append_left _ (List.mem_append_right _ (List.mem_cons_of_mem _ hevent))
          exact List.mem_flatMap.mpr (pagesOf_shown List.mem_cons_self hmem)
        exact (List.nodup_append.mp honce).2.2 event (List.mem_append_right _ htrailing)
          event hextent rfl

theorem pagesOf_between (hsettled : Settled turns) (hturn : turn ∈ turns.tail)
    {event : JournalEvent} (hevent : event ∈ turn.gap) (hconfigured : isConfigured event = true) :
    ∃ page ∈ pagesOf latest turns, event ∈ page.events := by
  induction turns with
  | nil => cases hturn
  | cons newer turns ih =>
    cases turns with
    | nil => cases hturn
    | cons previous turns =>
      cases hturn with
      | head =>
        refine ⟨_, List.mem_cons_self, List.mem_append_right _ ?_⟩
        rw [Turn.trailing_configured (hsettled turn List.mem_cons_self)]
        exact List.mem_filter.mpr ⟨List.mem_reverse.mpr hevent, hconfigured⟩
      | tail _ hturn =>
        have hrest : Settled (previous :: turns) := fun other hother =>
          hsettled other (List.mem_cons_of_mem _ hother)
        obtain ⟨page, hpage, hshown⟩ := ih hrest hturn
        exact ⟨page, List.mem_cons_of_mem _ hpage, hshown⟩

theorem pagesOf_extents {all : List Turn} (hsettled : Settled turns)
    (hall : ∀ turn ∈ turns, turn ∈ all) :
    List.Forall₂ (fun page turn => ∃ between,
        page.events = turn.extent.reverse ++ between ∧
        ∀ event ∈ between, isConfigured event = true ∧ ∃ other ∈ all, event ∈ other.gap)
      ((pagesOf latest turns).filter fun page => !page.events.isEmpty) turns := by
  have hfull : ∀ (turn : Turn) (between : List JournalEvent),
      (!(turn.extent.reverse ++ between).isEmpty) = true := by
    intro turn between
    rw [turn.extent_eq]
    simp
  induction turns with
  | nil => exact List.Forall₂.nil
  | cons turn turns ih =>
    cases turns with
    | nil =>
      rw [pagesOf, List.filter_cons_of_pos (by simpa using turn.extent_ne_nil)]
      exact .cons ⟨[], (List.append_nil _).symm, fun event hevent => by cases hevent⟩ .nil
    | cons previous turns =>
      have hrest : Settled (previous :: turns) := fun other hother =>
        hsettled other (List.mem_cons_of_mem _ hother)
      rw [pagesOf, List.filter_cons_of_pos (by exact hfull turn _)]
      refine .cons ⟨_, rfl, ?_⟩ (ih hrest fun other hother => hall other
        (List.mem_cons_of_mem _ hother))
      intro event hevent
      rw [Turn.trailing_configured (hsettled previous List.mem_cons_self)] at hevent
      obtain ⟨hgap, hconfigured⟩ := List.mem_filter.mp hevent
      exact ⟨hconfigured, previous, hall previous (List.mem_cons_of_mem _ List.mem_cons_self),
        List.mem_reverse.mp hgap⟩

theorem pagesOf_cursors (hnewest : Newest (newestFirst lead (turn :: turns))) :
    ((pagesOf latest (turn :: turns)).filterMap (·.nextBeforeSequence)).Pairwise (· > ·) ∧
      ∀ cursor ∈ (pagesOf latest (turn :: turns)).filterMap (·.nextBeforeSequence),
        cursor ≤ turn.first.sequence := by
  induction turns generalizing turn with
  | nil =>
    constructor
    · exact List.Pairwise.nil
    · intro cursor hcursor
      cases hcursor
  | cons previous turns ih =>
    rw [newestFirst, List.flatMap_cons, List.append_assoc] at hnewest
    obtain ⟨-, htail, hcross⟩ := List.pairwise_append.mp hnewest
    obtain ⟨hpairwise, hbound⟩ := ih htail
    have hfirst : ∀ (other : Turn), other.first ∈ other.records.reverse := by
      intro other
      rw [List.mem_reverse, Turn.records, other.extent_eq]
      exact List.mem_append_left _ List.mem_cons_self
    have holder : previous.first.sequence < turn.first.sequence := by
      refine hcross turn.first (hfirst turn) previous.first ?_
      rw [List.flatMap_cons, List.append_assoc]
      exact List.mem_append_left _ (hfirst previous)
    rw [pagesOf, List.filterMap_cons]
    dsimp only
    constructor
    · refine List.pairwise_cons.mpr ⟨?_, hpairwise⟩
      intro cursor hcursor
      have hle := hbound cursor hcursor
      omega
    · intro cursor hcursor
      cases hcursor with
      | head => exact le_refl _
      | tail _ hcursor =>
        have hle := hbound cursor hcursor
        omega

theorem pagesOf_partition_iff (hnewest : Newest (newestFirst lead turns)) :
    Partition turns (pagesOf latest turns) ↔ Settled turns := by
  constructor
  · intro hpartition
    exact settled_of_once hpartition.once
  · intro hsettled
    refine ⟨pagesOf_extents hsettled fun _ hturn => hturn, ?_,
      fun _ hturn _ hevent => pagesOf_shown hturn hevent,
      fun _ hturn _ hevent hconfigured => pagesOf_between hsettled hturn hevent hconfigured, ?_⟩
    · cases turns with
      | nil => exact List.Pairwise.nil
      | cons turn turns => exact (pagesOf_cursors hnewest).1
    · cases turns with
      | nil => exact List.nodup_nil
      | cons turn turns =>
        have hdistinct : (newestFirst lead (turn :: turns)).Nodup := hnewest.imp fun hlt heq => by
          rw [heq] at hlt
          omega
        have hsub : List.Sublist (turn.extent.reverse ++ newestFirst lead turns)
            (newestFirst lead (turn :: turns)) := by
          rw [newestFirst, newestFirst, List.flatMap_cons, turn.records_gap, List.append_assoc,
            List.append_assoc]
          exact List.sublist_append_right _ _
        exact hdistinct.sublist ((pagesOf_sublist hsettled).trans hsub)

/-- For every stored journal of turns that do not overlap, and for batches of every size, the
client who follows the cursors reads the same pages; they partition the journal exactly if no
agent starts after the last start of an unfinished turn that another turn follows. -/
theorem turn_pages_partition_iff {Text : Type} {codecs : Codecs Text} {decoders : Decoders Text}
    {tables : Tables Text} {id : SessionId} {turns : List Turn}
    (hstores : Stores codecs decoders tables id latest (newestFirst lead turns))
    (hlead : ∀ event ∈ lead, Plain event) (hids : (turns.map Turn.id).Nodup) :
    (∃ pages, (∀ limit fuel count : Nat, 0 < limit → ((limit + 1 : Nat) : Int) ≤ i64Max →
        (newestFirst lead turns).length < fuel → turns.length < count →
        turnPages (eventPage codecs decoders tables id limit) fuel count none =
          some (.ok pages)) ∧
      Partition turns pages) ↔ Settled turns := by
  have hread : ∀ limit fuel count : Nat, 0 < limit → ((limit + 1 : Nat) : Int) ≤ i64Max →
      (newestFirst lead turns).length < fuel → turns.length < count →
      turnPages (eventPage codecs decoders tables id limit) fuel count none =
        some (.ok (pagesOf latest turns)) := by
    intro limit fuel count hpositive hinteger hfuel hcount
    exact turnPages_eq (hstores.serves hpositive hinteger) hpositive hstores.decreasing hlead hids
      (fun before hbefore => by cases hbefore) hfuel hcount (older_none _)
  constructor
  · rintro ⟨pages, hpages, hpartition⟩
    have hsame := (hpages 1 _ _ (by omega) (by decide) (Nat.lt_succ_self _)
      (Nat.lt_succ_self _)).symm.trans
      (hread 1 _ _ (by omega) (by decide) (Nat.lt_succ_self _) (Nat.lt_succ_self _))
    rw [Except.ok.inj (Option.some.inj hsame)] at hpartition
    exact (pagesOf_partition_iff hstores.decreasing).mp hpartition
  · intro hsettled
    exact ⟨pagesOf latest turns, hread, (pagesOf_partition_iff hstores.decreasing).mpr hsettled⟩

end Partition

section Samples

def sampleEvent (sequence : Int) (msg : EventMsg) : JournalEvent := ⟨sequence, 1, ⟨none, msg⟩, []⟩

/-- The start of an agent. -/
def sampleConfigured : EventMsg :=
  .sessionConfigured "session" {} ⟨"route", "model", none, none⟩

/-- A turn that an agent left without its end, and the records after it. -/
def sampleUnfinished (tail : List JournalEvent) (hplain : ∀ event ∈ tail, Plain event) : Turn where
  id := "first"
  earlier := []
  start := sampleEvent 1 (.turnStarted false "first" none)
  tail := tail
  finish := none
  gap := []
  earlier_started := List.forall_mem_nil _
  earlier_plain := List.forall_mem_nil _
  started := rfl
  tail_plain := hplain
  finished := fun _ hevent => absurd hevent (Option.not_mem_none _)
  gap_plain := List.forall_mem_nil _
  gap_finished := fun _ => rfl

def sampleFinished (sequence : Int) : Turn where
  id := "second"
  earlier := []
  start := sampleEvent sequence (.turnStarted false "second" none)
  tail := []
  finish := some (sampleEvent (sequence + 1) (.turnComplete false "second"))
  gap := []
  earlier_started := List.forall_mem_nil _
  earlier_plain := List.forall_mem_nil _
  started := rfl
  tail_plain := List.forall_mem_nil _
  finished := fun event hevent => by rw [← Option.some.inj hevent]; rfl
  gap_plain := List.forall_mem_nil _
  gap_finished := fun hnone => absurd hnone (Option.some_ne_none _)

/-- A store that records some events of one session. -/
def journalRun (events : List EventMsg) : List (Operation openChecks) :=
  sampleRun ++ events.map fun msg => .appendEvent 0 "session" ⟨1, ⟨none, msg⟩⟩

/-- A journal written through the store: a turn without its end, a session start
and another turn. -/
def interruptedRun : List (Operation openChecks) :=
  journalRun [.turnStarted false "first" none, sampleConfigured, .turnStarted false "second" none,
    .turnComplete false "second"]

/-- The same without the record of the next start. -/
def abandonedRun : List (Operation openChecks) :=
  journalRun [.turnStarted false "first" none, .turnStarted false "second" none,
    .turnComplete false "second"]

/-- The turns of the second run, newest first. -/
def abandonedTurns : List Turn := [sampleFinished 2, sampleUnfinished [] (List.forall_mem_nil _)]

/-- The turns of the first run, newest first. -/
def interruptedTurns : List Turn :=
  [sampleFinished 3, sampleUnfinished [sampleEvent 2 sampleConfigured] fun event hevent => by
    rw [List.mem_singleton.mp hevent]
    exact ⟨rfl, rfl⟩]

theorem abandonedRun_stores : Stores documentCodecs plainDecoders
    (run documentCodecs openChecks .empty abandonedRun).1.tables "session" 3
    (newestFirst [] abandonedTurns) := by
  refine ⟨⟨_, rfl, rfl⟩, by decide, ?_, by decide, by decide⟩
  exact .cons rfl (.cons rfl (.cons rfl .nil))

theorem interruptedRun_stores : Stores documentCodecs plainDecoders
    (run documentCodecs openChecks .empty interruptedRun).1.tables "session" 4
    (newestFirst [] interruptedTurns) := by
  refine ⟨⟨_, rfl, rfl⟩, by decide, ?_, by decide, by decide⟩
  exact .cons rfl (.cons rfl (.cons rfl (.cons rfl .nil)))

/-- The pages of a turn left without its end and of the turn after it. -/
theorem turn_pages_partition_abandoned :
    ∃ pages, (∀ limit fuel count : Nat, 0 < limit → ((limit + 1 : Nat) : Int) ≤ i64Max →
        3 < fuel → 2 < count →
        turnPages (eventPage documentCodecs plainDecoders
          (run documentCodecs openChecks .empty abandonedRun).1.tables "session" limit) fuel count
          none = some (.ok pages)) ∧
      Partition abandonedTurns pages := by
  refine (turn_pages_partition_iff abandonedRun_stores (List.forall_mem_nil _) (by decide)).mpr ?_
  intro turn hturn hfinish event hevent
  rw [List.mem_singleton.mp hturn] at hevent
  cases hevent

/-- The agent start after an unfinished turn is on the page of that turn and on the page of the
turn after it. -/
theorem configured_shown_twice :
    (newestFirst [] interruptedTurns).length = 4 ∧ (interruptedTurns.map Turn.id).Nodup ∧
    turnPages (eventPage documentCodecs plainDecoders
        (run documentCodecs openChecks .empty interruptedRun).1.tables "session"
        turnPageBatchSize) 5 3 none =
      some (.ok
        [⟨4, [sampleEvent 4 (.turnComplete false "second"),
            sampleEvent 3 (.turnStarted false "second" none), sampleEvent 2 sampleConfigured],
          some 3⟩,
         ⟨4, [sampleEvent 2 sampleConfigured, sampleEvent 1 (.turnStarted false "first" none)],
          none⟩]) ∧
    ¬ ∃ pages, turnPages (eventPage documentCodecs plainDecoders
        (run documentCodecs openChecks .empty interruptedRun).1.tables "session"
        turnPageBatchSize) 5 3 none = some (.ok pages) ∧ Partition interruptedTurns pages := by
  have hserves : Serves (eventPage documentCodecs plainDecoders
      (run documentCodecs openChecks .empty interruptedRun).1.tables "session" turnPageBatchSize)
      turnPageBatchSize 4 (newestFirst [] interruptedTurns) :=
    interruptedRun_stores.serves (by decide) (by decide)
  have hread := turnPages_eq hserves (by decide) interruptedRun_stores.decreasing
    (List.forall_mem_nil _) (by decide) (fun _ hcursor => absurd hcursor (Option.not_mem_none _))
    (show (newestFirst [] interruptedTurns).length < 5 by decide)
    (show interruptedTurns.length < 3 by decide) (older_none _)
  refine ⟨rfl, by decide, hread, ?_⟩
  rintro ⟨pages, hpages, hpartition⟩
  rw [hread] at hpages
  rw [← Except.ok.inj (Option.some.inj hpages)] at hpartition
  have hsettled := settled_of_once hpartition.once
  have hconfigured := hsettled _ List.mem_cons_self rfl (sampleEvent 2 sampleConfigured)
    List.mem_cons_self
  cases hconfigured

end Samples

end MobiusAgent.StoreTurnPages
