import MobiusAgent.StoreConnections

/-!
# Reading the event journal

A long tool output is journalled as a reference to the transcript item that
was committed with it. `decode_event` resolves the reference through the
transcript row of the same session, with a decoder of its own. The rows of
every run decode to the events they were recorded for if what was stored of
them is read back, as long as the session is not deleted.
-/

namespace MobiusAgent.StoreJournal

open JsonValue ProtocolEvents CheckpointRecords CheckpointValidation StoreTables
open StoreTransactions StoreContext StoreRefinement StoreConnections

/-- The error of a reference without its output. -/
def invalidReference : Error :=
  .checkpoint "tool event transcript reference is missing or invalid"

/-- The error of a value of another shape. -/
def wrongShape : Error := .json "invalid type"

section Decoding

variable {Text : Type} (codecs : Codecs Text)

/-- How values that hold no text part are read. -/
structure Decoders (Text : Type) where
  /-- A part that is no text: an image, a file, or another shape. -/
  part : Json → Except Error ContentPart
  /-- The text column of an extracted string, which is not quoted. -/
  raw : String → Text

variable (decoders : Decoders Text)

/-- The row of `transcript_delta` at a checkpoint sequence. -/
def batch? (tables : Tables Text) (id : SessionId) (sequence : Int) : Option Text :=
  (tables.transcriptDelta.find? fun row =>
    decide (row.sessionId = id) && decide (row.sequence = sequence)).map (·.itemsJson)

/-- The column of `json_extract`: nothing is null, and a number is no text. -/
def extractedText : Option Json → Except Error (Option Text)
  | none => .ok none
  | some .null => .ok none
  | some (.bool _) => .error .sqlite
  | some (.number _) => .error .sqlite
  | some (.decimal _) => .error .sqlite
  | some (.str value) => .ok (some (decoders.raw value))
  | some (.arr items) => .ok (some (codecs.item.encode (.arr items)))
  | some (.obj fields) => .ok (some (codecs.item.encode (.obj fields)))

/-- The item that a reference names. -/
def referencedItem (tables : Tables Text) (id : SessionId) (sequence : Int) (index : Nat) :
    Except Error Json :=
  match batch? tables id sequence with
  | none => .error invalidReference
  | some itemsJson => do
    let items ← codecs.items.decode itemsJson
    let text ← extractedText codecs decoders items[index]?
    let itemJson ← orError text invalidReference
    codecs.item.decode itemJson

/-- The decoder of one output part: a text part has no other fields. -/
def decodePart (part : Json) : Except Error ContentPart :=
  match part with
  | .obj fields =>
    if part.getStr "type" = some "input_text" then
      if fields.all fun field => field.1 == "type" || field.1 == "text" then
        match part.getStr "text" with
        | some text => .ok (.text text)
        | none => .error wrongShape
      else .error wrongShape
    else decoders.part part
  | _ => decoders.part part

/-- The parts of an output, up to the first that cannot be read. -/
def decodeParts : List Json → Except Error (List ContentPart)
  | [] => .ok []
  | part :: rest => do
    let first ← decodePart decoders part
    let later ← decodeParts rest
    return first :: later

/-- The decoder of an output. -/
def decodeContent : Json → Except Error (List ContentPart)
  | .arr parts => decodeParts decoders parts
  | _ => .error wrongShape

def decodeEvent (tables : Tables Text) (id : SessionId) (json : Text) : Except Error Event := do
  match ← codecs.event.decode json with
  | .inline event => return event
  | .toolOutput submissionId turnId callId name isError sequence index => do
    let item ← referencedItem codecs decoders tables id sequence index
    rejectIf (item.getStr "type" != some "function_call_output" ||
      item.getStr "call_id" != some callId || item.getBool "_mobius_is_error" != some isError)
      invalidReference
    let output ← decodeContent decoders ((item.get "output").getD .null)
    return ⟨submissionId, .toolCallEnd turnId callId name output isError⟩

theorem mem_of_lookup {key : String} {value : Json} {fields : List (String × Json)}
    (h : Json.lookup key fields = some value) : (key, value) ∈ fields := by
  induction fields with
  | nil => cases h
  | cons field rest ih =>
    obtain ⟨name, first⟩ := field
    unfold Json.lookup at h
    split at h
    · rename_i hname
      rw [hname, Option.some.inj h]
      exact List.mem_cons_self
    · exact List.mem_cons_of_mem _ (ih h)

theorem keys_of_two {first second : String} {one other : Json} {fields : List (String × Json)}
    (hlength : fields.length = 2) (hne : first ≠ second)
    (hone : (first, one) ∈ fields) (hother : (second, other) ∈ fields) :
    ∀ field ∈ fields, field.1 = first ∨ field.1 = second := by
  obtain ⟨a, b, rfl⟩ := List.length_eq_two.mp hlength
  simp only [List.mem_cons, List.not_mem_nil, or_false] at hone hother ⊢
  rintro field (rfl | rfl)
  · rcases hone with hone | hone
    · exact .inl (by rw [← hone])
    · rcases hother with hother | hother
      · exact .inr (by rw [← hother])
      · exact absurd (congrArg Prod.fst (hone.trans hother.symm)) hne
  · rcases hother with hother | hother
    · rcases hone with hone | hone
      · exact absurd (congrArg Prod.fst (hone.trans hother.symm)) hne
      · exact .inl (by rw [← hone])
    · exact .inr (by rw [← hother])

theorem decodePart_matching {stored : Json} {part : ContentPart}
    (h : matchingPart stored part = true) : decodePart decoders stored = .ok part := by
  cases part with
  | image image | file file => cases h
  | text text =>
    simp only [matchingPart, Bool.and_eq_true, beq_iff_eq] at h
    obtain ⟨⟨hfields, htype⟩, htext⟩ := h
    cases stored with
    | obj fields =>
      have hlength : fields.length = 2 := by simpa [Json.asObject] using hfields
      have hkeys : ∀ field ∈ fields, field.1 = "type" ∨ field.1 = "text" := by
        simp only [Json.getStr, Json.get, Option.bind_eq_some_iff] at htype htext
        obtain ⟨one, hone, -⟩ := htype
        obtain ⟨other, hother, -⟩ := htext
        exact keys_of_two hlength (by decide) (mem_of_lookup hone) (mem_of_lookup hother)
      have hall : (fields.all fun field => field.1 == "type" || field.1 == "text") = true := by
        rw [List.all_eq_true]
        intro field hfield
        simpa using hkeys field hfield
      simp only [decodePart, htype, hall, htext, if_true]
    | _ => simp [Json.asObject] at hfields

theorem decodeParts_matching {parts : List Json} {output : List ContentPart}
    (hlength : parts.length = output.length)
    (h : ∀ pair ∈ parts.zip output, matchingPart pair.1 pair.2 = true) :
    decodeParts decoders parts = .ok output := by
  induction parts generalizing output with
  | nil =>
    cases output with
    | nil => rfl
    | cons part rest => cases hlength
  | cons stored parts ih =>
    cases output with
    | nil => cases hlength
    | cons part rest =>
      rw [List.zip_cons_cons, List.forall_mem_cons] at h
      have hrest := ih (Nat.succ.inj hlength) h.2
      have hfirst := decodePart_matching decoders h.1
      simp only [decodeParts, hfirst, hrest, bind, Except.bind, pure, Except.pure]

theorem matchingOutput_fields {item : Json} {callId : String} {output : List ContentPart}
    {isError : Bool} (h : matchingOutput item callId output isError = true) :
    item.getStr "type" = some "function_call_output" ∧ item.getStr "call_id" = some callId ∧
      item.getBool "_mobius_is_error" = some isError ∧
        decodeContent decoders ((item.get "output").getD .null) = .ok output := by
  simp only [matchingOutput, Bool.and_eq_true, beq_iff_eq, Option.any_eq_true] at h
  obtain ⟨⟨⟨htype, hcall⟩, herror⟩, parts, hparts, hlength, hmatch⟩ := h
  refine ⟨htype, hcall, herror, ?_⟩
  obtain ⟨value, hvalue, harray⟩ := Option.bind_eq_some_iff.mp hparts
  cases value with
  | arr items =>
    obtain rfl := Option.some.inj harray
    rw [hvalue, Option.getD_some, decodeContent]
    exact decodeParts_matching decoders hlength (List.all_eq_true.mp hmatch)
  | _ => cases harray

theorem extractedText_matching {item : Json} {callId : String} {output : List ContentPart}
    {isError : Bool} (h : matchingOutput item callId output isError = true) :
    extractedText codecs decoders (some item) = .ok (some (codecs.item.encode item)) := by
  have htype := (matchingOutput_fields decoders h).1
  cases item with
  | obj fields => rfl
  | _ => cases htype

/-- An event recorded for a session, with the transcript batch committed with
it. -/
structure Recording where
  sessionId : SessionId
  record : JournalEvent
  /-- The sequence and the items of the batch. -/
  transcript : Option (Int × List Json)

def Recording.stored (recording : Recording) : StoredEvent :=
  storedEvent recording.record.event recording.transcript

/-- What was stored of an event is read back: its row, and for a reference the
item it names in its batch. -/
structure ReadBack (recording : Recording) : Prop where
  event : codecs.event.ReadsBack recording.stored
  item : ∀ submissionId turnId callId name isError sequence index items,
    recording.stored = .toolOutput submissionId turnId callId name isError sequence index →
    recording.transcript = some (sequence, items) →
    ∃ read, codecs.items.decode (codecs.items.encode items) = .ok read ∧
      read[index]? = items[index]? ∧ ∀ item, items[index]? = some item → codecs.item.ReadsBack item

/-- A row holds a recorded event, and the transcript batch it was stored with is
still there. -/
structure Holds (tables : Tables Text) (row : EventRow Text) (recording : Recording) : Prop where
  /-- The row was written by `store_event`. -/
  json : row.eventJson = codecs.event.encode recording.stored
  batch : ∀ sequence items, recording.transcript = some (sequence, items) → items ≠ [] →
    batch? tables row.sessionId sequence = some (codecs.items.encode items)

theorem stored_reference {recording : Recording} {submissionId : Option String}
    {turnId callId name : String} {isError : Bool} {sequence : Int} {index : Nat}
    (h : recording.stored =
      .toolOutput submissionId turnId callId name isError sequence index) :
    ∃ items output item, recording.transcript = some (sequence, items) ∧
      recording.record.event = ⟨submissionId, .toolCallEnd turnId callId name output isError⟩ ∧
      items[index]? = some item ∧ matchingOutput item callId output isError = true := by
  obtain ⟨id, ⟨key, recordedAtMs, ⟨submission, msg⟩, metrics⟩, transcript⟩ := recording
  simp only [Recording.stored, storedEvent] at h
  split at h
  · rename_i turn call tool output failed batch items
    split at h
    · split at h
      · rename_i position hposition
        obtain ⟨hbound, hmatch, -⟩ := List.findIdx?_eq_some_iff_getElem.mp hposition
        cases h
        exact ⟨items, output, items[index], rfl, rfl, List.getElem?_eq_getElem hbound, hmatch⟩
      · cases h
    · cases h
  · cases h

theorem stored_inline {recording : Recording} {event : Event}
    (h : recording.stored = .inline event) : recording.record.event = event := by
  unfold Recording.stored storedEvent at h
  split at h
  · split at h
    · split at h
      · cases h
      · exact StoredEvent.inline.inj h
    · exact StoredEvent.inline.inj h
  · exact StoredEvent.inline.inj h

theorem Holds.decodeEvent {tables : Tables Text} {row : EventRow Text} {recording : Recording}
    (h : Holds codecs tables row recording) (hreads : ReadBack codecs recording) :
    decodeEvent codecs decoders tables row.sessionId row.eventJson =
      .ok recording.record.event := by
  have hevent := hreads.event
  rw [Codec.ReadsBack] at hevent
  rw [StoreJournal.decodeEvent, h.json, hevent]
  cases hstored : recording.stored with
  | inline event =>
    rw [stored_inline hstored]
    rfl
  | toolOutput submissionId turnId callId name isError sequence index =>
    obtain ⟨items, output, item, htranscript, hsource, hitem, hmatch⟩ := stored_reference hstored
    obtain ⟨read, hread, hplace, hback⟩ := hreads.item _ _ _ _ _ _ _ items hstored htranscript
    have hnonempty : items ≠ [] := by
      rintro rfl
      cases hitem
    have hbatch := h.batch sequence items htranscript hnonempty
    obtain ⟨htype, hcall, herror, houtput⟩ := matchingOutput_fields decoders hmatch
    have hdecode := hback item hitem
    rw [Codec.ReadsBack] at hdecode
    have hreference : referencedItem codecs decoders tables row.sessionId sequence index =
        .ok item := by
      simp only [referencedItem, hbatch, hread, bind, Except.bind, hplace, hitem,
        extractedText_matching codecs decoders hmatch, orError, hdecode]
    rw [hsource]
    simp only [hreference, htype, hcall, herror, houtput, bne_self_eq_false, Bool.or_false,
      rejectIf, bind, Except.bind, pure, Except.pure, Bool.false_eq_true, if_false]

theorem Holds.of_batches {tables next : Tables Text} {row : EventRow Text}
    {recording : Recording} (h : Holds codecs tables row recording)
    (hbatches : ∀ sequence text, batch? tables row.sessionId sequence = some text →
      batch? next row.sessionId sequence = some text) : Holds codecs next row recording :=
  ⟨h.json, fun sequence items htranscript hitems =>
    hbatches _ _ (h.batch sequence items htranscript hitems)⟩

end Decoding

section Recording

variable {Text : Type} (codecs : Codecs Text) (checks : ExternalChecks)

def recordingKey (recording : Recording) : SessionId × Int :=
  (recording.sessionId, recording.record.sequence)

def recordedBy (world : World Text) : Operation checks → List Recording
  | .save index offer transcriptDelta execution events =>
    match world.connections[index]? with
    | none => []
    | some connection =>
      if isLive world.heap offer.shared then
        match saveWithEvents codecs checks world.tables offer.shared transcriptDelta execution
            events (cachedContext connection.caches offer.shared.header.sessionId)
            connection.dataVersion with
        | .error _ => []
        | .ok (records, _) => records.map fun record => ⟨offer.shared.header.sessionId, record,
            some (offer.shared.header.sequence, transcriptDelta)⟩
      else []
  | .appendEvent index id event =>
    match world.connections[index]? with
    | none => []
    | some _ =>
      match storeEvent codecs world.tables id event none with
      | .error _ => []
      | .ok (record, _) => [⟨id, record, none⟩]
  | _ => []

/-- The recorded events that remain: a deleted session has none. -/
def remaining (recorded : List Recording) : Outcome → List Recording
  | .deleted tree => recorded.filter fun recording => !tree.contains recording.sessionId
  | _ => recorded

/-- The events recorded in a run, of the sessions that were not deleted since. -/
def recordings (world : World Text) (recorded : List Recording) :
    List (Operation checks) → List Recording
  | [] => recorded
  | operation :: rest =>
    recordings (step codecs checks world operation).1
      (remaining recorded (step codecs checks world operation).2 ++
        recordedBy codecs checks world operation) rest

/-- Every row of the journal holds an event that was recorded, each under its own key. -/
structure Journal (tables : Tables Text) (recorded : List Recording) : Prop where
  rows : ∀ row ∈ tables.eventJournal, ∃ recording ∈ recorded,
    recordingKey recording = (row.sessionId, row.sequence) ∧ Holds codecs tables row recording
  /-- Recorded sequences are not newer than the latest one. -/
  bounded : ∀ recording ∈ recorded, ∃ session,
    tables.session? recording.sessionId = some session ∧
    recording.record.sequence ≤ session.latestEventSequence
  keys : (recorded.map recordingKey).Nodup

/-- What the journal relies on was kept. -/
structure Kept (tables next : Tables Text) : Prop where
  eventJournal : next.eventJournal = tables.eventJournal
  sessions : ∀ id session, tables.session? id = some session → ∃ later,
    next.session? id = some later ∧ later.latestEventSequence = session.latestEventSequence
  batches : ∀ id sequence text, batch? tables id sequence = some text →
    batch? next id sequence = some text

theorem Kept.trans {first second third : Tables Text} (h : Kept first second)
    (h' : Kept second third) : Kept first third := by
  refine ⟨h'.eventJournal.trans h.eventJournal, fun id session hsession => ?_,
    fun id sequence text hbatch => h'.batches id sequence text (h.batches id sequence text hbatch)⟩
  obtain ⟨middle, hmiddle, hsame⟩ := h.sessions id session hsession
  obtain ⟨later, hlater, hlatest⟩ := h'.sessions id middle hmiddle
  exact ⟨later, hlater, hlatest.trans hsame⟩

variable {tables next : Tables Text} {shared : SharedCheckpoint} {id : SessionId}
  {recorded : List Recording}

theorem Kept.of_eq (hjournal : next.eventJournal = tables.eventJournal)
    (hsessions : next.sessions = tables.sessions)
    (hbatches : next.transcriptDelta = tables.transcriptDelta) : Kept tables next := by
  refine ⟨hjournal, fun id session hsession => ⟨session, ?_, rfl⟩, fun id sequence text hbatch => ?_⟩
  · rw [Tables.session?, hsessions]
    exact hsession
  · rw [batch?, hbatches]
    exact hbatch

variable {codecs} in
theorem Journal.kept {tables next : Tables Text} {recorded : List Recording}
    (h : Journal codecs tables recorded) (hkept : Kept tables next) :
    Journal codecs next recorded := by
  refine ⟨fun row hrow => ?_, fun recording hrecording => ?_, h.keys⟩
  · rw [hkept.eventJournal] at hrow
    obtain ⟨recording, hrecording, hkey, hholds⟩ := h.rows row hrow
    exact ⟨recording, hrecording, hkey, hholds.of_batches codecs (hkept.batches row.sessionId)⟩
  · obtain ⟨session, hsession, hle⟩ := h.bounded recording hrecording
    obtain ⟨later, hlater, hlatest⟩ := hkept.sessions _ session hsession
    exact ⟨later, hlater, hlatest ▸ hle⟩

theorem prepareAppend_kept {mid : Tables Text} {cached : Option ContextCache} {dataVersion : Nat}
    {decision : Nat × Bool}
    (h : prepareAppend codecs tables shared cached dataVersion = .ok (decision, mid)) :
    Kept tables mid := by
  unfold prepareAppend at h
  split at h
  · obtain ⟨-, rfl⟩ := Prod.mk.inj (Except.ok.inj h)
    exact .of_eq rfl rfl rfl
  · simp only [except_bind_ok_iff] at h
    obtain ⟨nextSequence, -, nextEpoch, -, _, -, _, -, h⟩ := h
    split at h
    · obtain ⟨-, rfl⟩ := Prod.mk.inj (Except.ok.inj h)
      exact .of_eq rfl rfl rfl
    · simp only [except_bind_ok_iff] at h
      obtain ⟨count, -, _, -, h⟩ := h
      split at h
      · obtain ⟨-, rfl⟩ := Prod.mk.inj (Except.ok.inj h)
        exact .of_eq rfl rfl rfl
      · simp only [except_bind_ok_iff] at h
        obtain ⟨_, -, h⟩ := h
        obtain ⟨-, rfl⟩ := Prod.mk.inj (Except.ok.inj h)
        exact .of_eq rfl rfl rfl

theorem appendContext_kept {start : Nat} (h : appendContext codecs tables shared start = .ok next) :
    Kept tables next := by
  simp only [appendContext, except_bind_ok_iff] at h
  obtain ⟨epoch, -, h⟩ := h
  rw [insertContext_ok codecs h]
  exact .of_eq rfl rfl rfl

theorem insertNonemptyTranscript_kept {sequence : Int} {items : List Json}
    (h : insertNonemptyTranscript codecs tables id sequence items = .ok next) :
    Kept tables next ∧
      (items ≠ [] → batch? next id sequence = some (codecs.items.encode items)) := by
  unfold insertNonemptyTranscript at h
  split at h
  · rename_i hempty
    obtain rfl := Except.ok.inj h
    exact ⟨.of_eq rfl rfl rfl, fun hitems => absurd (List.isEmpty_iff.mp hempty) hitems⟩
  · simp only [insertTranscript, except_bind_ok_iff] at h
    obtain ⟨_, hfree, h⟩ := h
    have hnone := rejectIf_ok hfree
    obtain rfl := Except.ok.inj h
    refine ⟨⟨rfl, fun other session hsession => ⟨session, hsession, rfl⟩, ?_⟩, fun _ => ?_⟩
    · intro other key text hbatch
      rw [batch?, Option.map_eq_some_iff] at hbatch
      obtain ⟨row, hrow, rfl⟩ := hbatch
      rw [batch?, List.find?_append, hrow]
      rfl
    · have habsent : (tables.transcriptDelta.find? fun row =>
          decide (row.sessionId = id) && decide (row.sequence = sequence)) = none := by
        rw [List.find?_eq_none]
        exact fun row hrow => by simpa using List.any_eq_false.mp hnone row hrow
      rw [batch?, List.find?_append, habsent]
      simp

theorem storeCheckpoint_kept {transcriptDelta : List Json} {execution : Option ExecutionRecord}
    (h : storeCheckpoint codecs tables shared shared.header.sequence transcriptDelta execution =
      .ok next) :
    Kept tables next ∧ (transcriptDelta ≠ [] →
      batch? next shared.header.sessionId shared.header.sequence =
        some (codecs.items.encode transcriptDelta)) := by
  simp only [storeCheckpoint, except_bind_ok_iff] at h
  obtain ⟨epoch, hepoch, count, hcount, mid, hupsert, last, htranscript, h⟩ := h
  obtain ⟨rfl, -⟩ := sqliteInteger_ok hepoch
  obtain ⟨rfl, -⟩ := contextCount_ok hcount
  have hrow := upsertSession_stored codecs hupsert
  have hdelta : mid.transcriptDelta = tables.transcriptDelta := by
    unfold upsertSession at hupsert
    split at hupsert
    · rw [← Except.ok.inj hupsert]
    · simp only [except_bind_ok_iff] at hupsert
      obtain ⟨_, -, hupsert⟩ := hupsert
      rw [← Except.ok.inj hupsert]
      rfl
  have hmid : ∀ receipts, Kept tables { mid with messageReceipts := receipts } := by
    intro receipts
    refine ⟨hrow.eventJournal, fun id session hsession => ?_, fun id sequence text hbatch => ?_⟩
    · by_cases hid : id = shared.header.sessionId
      · subst hid
        obtain ⟨later, hlater, -, -, -, -, -, hlatest⟩ := hrow.own
        exact ⟨later, hlater, by rw [hlatest, hsession]; rfl⟩
      · exact ⟨session, (hrow.others id hid).trans hsession, rfl⟩
    · rw [batch?, hdelta]
      exact hbatch
  obtain ⟨hlast, hnew⟩ := insertNonemptyTranscript_kept codecs htranscript
  cases execution with
  | none =>
    obtain rfl := Except.ok.inj h
    exact ⟨(hmid _).trans hlast, hnew⟩
  | some record =>
    simp only [insertExecution, except_bind_ok_iff] at h
    obtain ⟨_, -, h⟩ := h
    obtain rfl := Except.ok.inj h
    exact ⟨((hmid _).trans hlast).trans (.of_eq rfl rfl rfl), hnew⟩

variable {codecs} in
theorem Journal.storeEvent {event : TimestampedEvent} {transcript : Option (Int × List Json)}
    {record : JournalEvent} (hjournal : Journal codecs tables recorded)
    (hbatch : ∀ sequence items, transcript = some (sequence, items) → items ≠ [] →
      batch? tables id sequence = some (codecs.items.encode items))
    (h : storeEvent codecs tables id event transcript = .ok (record, next)) :
    Journal codecs next (recorded ++ [⟨id, record, transcript⟩]) := by
  simp only [StoreTables.storeEvent, except_bind_ok_iff] at h
  obtain ⟨_, -, index, -, session, hfound, sequence, hsequence, metrics, -, _, -, h⟩ := h
  obtain ⟨rfl, rfl⟩ := Prod.mk.inj (Except.ok.inj h)
  have hrow := orError_ok hfound
  have hnew : sequence = session.latestEventSequence + 1 :=
    checkedAddInt_eq_some (orError_ok hsequence)
  have hlookup := fun other => session?_updateSession tables id other
    (fun row => { row with latestEventSequence := sequence }) fun _ => rfl
  have hown : recorded.all (fun recording => decide (recordingKey recording ≠ (id, sequence))) := by
    rw [List.all_eq_true]
    intro recording hrecording
    rw [decide_eq_true_eq]
    rintro hkey
    obtain ⟨rfl, hsame⟩ := Prod.mk.inj hkey
    obtain ⟨other, hother, hle⟩ := hjournal.bounded recording hrecording
    rw [hrow, Option.some.injEq] at hother
    rw [hsame, ← hother] at hle
    omega
  refine ⟨fun row hmem => ?_, fun recording hrecording => ?_, ?_⟩
  · rcases List.mem_append.mp (List.mem_of_mem_filter hmem) with hold | hadded
    · obtain ⟨recording, hrecording, hkey, hholds⟩ := hjournal.rows row hold
      exact ⟨recording, List.mem_append_left _ hrecording, hkey,
        hholds.of_batches codecs fun _ _ hfound => hfound⟩
    · rw [List.mem_singleton.mp hadded]
      exact ⟨_, List.mem_append_right _ List.mem_cons_self, rfl, ⟨rfl, hbatch⟩⟩
  · rcases List.mem_append.mp hrecording with hold | hadded
    · obtain ⟨other, hother, hle⟩ := hjournal.bounded recording hold
      have hnext := hlookup recording.sessionId
      split at hnext
      · rename_i hid
        rw [hid, hrow, Option.some.injEq] at hother
        rw [hid, hrow, Option.map_some] at hnext
        refine ⟨_, by rw [hid]; exact hnext, ?_⟩
        rw [← hother] at hle
        dsimp only
        omega
      · exact ⟨other, hnext.trans hother, hle⟩
    · rw [List.mem_singleton.mp hadded]
      have hnext := hlookup id
      rw [if_pos rfl, hrow, Option.map_some] at hnext
      exact ⟨_, hnext, le_refl _⟩
  · rw [List.map_append, List.map_singleton, List.nodup_append]
    refine ⟨hjournal.keys, List.nodup_singleton _, ?_⟩
    intro key hkey other hother
    obtain ⟨recording, hrecording, rfl⟩ := List.mem_map.mp hkey
    rw [List.mem_singleton.mp hother]
    have hne := List.all_eq_true.mp hown recording hrecording
    rw [decide_eq_true_eq] at hne
    exact hne

variable {codecs} in
theorem Journal.storeEvents {events : List TimestampedEvent}
    {transcript : Option (Int × List Json)} {records : List JournalEvent}
    (hjournal : Journal codecs tables recorded)
    (hbatch : ∀ sequence items, transcript = some (sequence, items) → items ≠ [] →
      batch? tables id sequence = some (codecs.items.encode items))
    (h : storeEvents codecs tables id transcript events = .ok (records, next)) :
    Journal codecs next (recorded ++ records.map fun record => ⟨id, record, transcript⟩) := by
  induction events generalizing tables recorded records with
  | nil =>
    obtain ⟨rfl, rfl⟩ := Prod.mk.inj (Except.ok.inj h)
    rw [List.map_nil, List.append_nil]
    exact hjournal
  | cons event rest ih =>
    simp only [StoreTables.storeEvents, except_bind_ok_iff] at h
    obtain ⟨⟨record, mid⟩, hevent, ⟨later, last⟩, hrest, h⟩ := h
    obtain ⟨rfl, rfl⟩ := Prod.mk.inj (Except.ok.inj h)
    have hmid := hjournal.storeEvent hbatch hevent
    have hkept := (storeEvent_journaled codecs hevent).transcriptDelta
    have hlast := ih hmid (fun sequence items htranscript hitems => by
      rw [batch?, hkept]
      exact hbatch sequence items htranscript hitems) hrest
    rw [← List.append_cons] at hlast
    rw [List.map_cons]
    exact hlast

variable {codecs checks} in
theorem Journal.save {transcriptDelta : List Json} {execution : Option ExecutionRecord}
    {events : List TimestampedEvent} {cached : Option ContextCache} {dataVersion : Nat}
    {records : List JournalEvent} (hjournal : Journal codecs tables recorded)
    (h : saveWithEvents codecs checks tables shared transcriptDelta execution events cached
      dataVersion = .ok (records, next)) :
    Journal codecs next (recorded ++ records.map fun record =>
      ⟨shared.header.sessionId, record, some (shared.header.sequence, transcriptDelta)⟩) := by
  simp only [saveWithEvents, except_bind_ok_iff] at h
  obtain ⟨_, -, _, -, sequence, hsequence, ⟨⟨start, rewritten⟩, mid⟩, hprepare, stored,
    hstore, appended, happend, hevents⟩ := h
  obtain ⟨rfl, -⟩ := sqliteInteger_ok hsequence
  have hprepared := prepareAppend_kept codecs hprepare
  obtain ⟨hstored, hnew⟩ := storeCheckpoint_kept codecs hstore
  have happended := appendContext_kept codecs happend
  refine (hjournal.kept ((hprepared.trans hstored).trans happended)).storeEvents ?_ hevents
  intro key items htranscript hitems
  obtain ⟨rfl, rfl⟩ := Prod.mk.inj (Option.some.inj htranscript)
  exact happended.batches _ _ _ (hnew hitems)

theorem fork_kept {parent : SessionId} {parentSequence : Nat} {summary : SessionSummary}
    (h : fork codecs tables parent parentSequence shared = .ok (summary, next)) :
    Kept tables next := by
  simp only [fork, except_bind_ok_iff] at h
  obtain ⟨_, -, _, -, point, -, sequence, -, _, -, durable, -, _, -, epoch, -, count, -, _, hfree,
    appended, happend, last, htranscript, fresh, -, h⟩ := h
  obtain ⟨-, rfl⟩ := Prod.mk.inj (Except.ok.inj h)
  have hnone : tables.session? shared.header.sessionId = none := by
    have habsent := rejectIf_ok hfree
    simpa using habsent
  have hadded : Kept tables { tables with sessions := tables.sessions ++ [newRow codecs shared
      (some (parent, point)) sequence epoch count] } := by
    refine ⟨rfl, fun id session hsession => ⟨session, ?_, rfl⟩, fun _ _ _ hbatch => hbatch⟩
    have hlookup := session?_append tables (newRow codecs shared (some (parent, point)) sequence
      epoch count) id hnone
    rw [hlookup, if_neg, hsession]
    rintro rfl
    rw [newRow, hnone] at hsession
    cases hsession
  exact (hadded.trans (appendContext_kept codecs happend)).trans
    (insertNonemptyTranscript_kept codecs htranscript).1

variable {codecs} in
theorem Journal.delete (hjournal : Journal codecs tables recorded) (gone : List SessionId) :
    Journal codecs (Tables.withoutSessions tables gone)
      (recorded.filter fun recording => !gone.contains recording.sessionId) := by
  have hbatches : ∀ id, gone.contains id = false → ∀ sequence text,
      batch? tables id sequence = some text →
        batch? (Tables.withoutSessions tables gone) id sequence = some text := by
    intro id hid sequence text hbatch
    rw [batch?, Option.map_eq_some_iff] at hbatch ⊢
    obtain ⟨row, hrow, rfl⟩ := hbatch
    refine ⟨row, ?_, rfl⟩
    simp only [Tables.withoutSessions]
    rw [List.find?_filter]
    rw [← hrow]
    refine congrArg (fun p => List.find? p tables.transcriptDelta) (funext fun other => ?_)
    by_cases hother : other.sessionId = id
    · rw [hother, hid]
      simp
    · simp [hother]
  refine ⟨fun row hrow => ?_, fun recording hrecording => ?_, ?_⟩
  · obtain ⟨hmem, hkept⟩ := List.mem_filter.mp hrow
    have hid : gone.contains row.sessionId = false := by simpa using hkept
    obtain ⟨recording, hrecording, hkey, hholds⟩ := hjournal.rows row hmem
    have hsame : recording.sessionId = row.sessionId := (Prod.mk.inj hkey).1
    exact ⟨recording, List.mem_filter.mpr ⟨hrecording, hsame ▸ hkept⟩, hkey,
      hholds.of_batches codecs (hbatches row.sessionId hid)⟩
  · obtain ⟨hmem, hkept⟩ := List.mem_filter.mp hrecording
    obtain ⟨session, hsession, hle⟩ := hjournal.bounded recording hmem
    refine ⟨session, ?_, hle⟩
    rw [session?_withoutSessions, if_neg (by simpa using hkept)]
    exact hsession
  · exact hjournal.keys.sublist (List.filter_sublist.map _)

variable {codecs checks} in
/-- One operation keeps the journal readable and records its events. -/
theorem Journal.step {world : World Text} {recorded : List Recording}
    (hjournal : Journal codecs world.tables recorded) (operation : Operation checks) :
    Journal codecs (step codecs checks world operation).1.tables
      (remaining recorded (step codecs checks world operation).2 ++
        recordedBy codecs checks world operation) := by
  have hsame : Journal codecs world.tables (recorded ++ []) := by
    rw [List.append_nil]
    exact hjournal
  cases operation with
  | allocate address value =>
    rw [StoreConnections.step]
    split <;> exact hsame
  | release address | connect dataVersion | disconnect index => exact hsame
  | load index id behind addresses =>
    rw [StoreConnections.step, withConnection]
    split
    · unfold loadOn
      split
      · exact hsame
      · exact hsame
      · split <;> exact hsame
    · exact hsame
  | save index offer transcriptDelta execution events =>
    simp only [StoreConnections.step, withConnection, recordedBy]
    cases hconnection : world.connections[index]? with
    | none => exact hsame
    | some connection =>
      simp only [saveOn]
      split
      · cases hsave : saveWithEvents codecs checks world.tables offer.shared transcriptDelta
            execution events (cachedContext connection.caches offer.shared.header.sessionId)
            connection.dataVersion with
        | error error => exact hsame
        | ok saved => exact hjournal.save hsave
      · exact hsame
  | fork index parent parentSequence offer =>
    simp only [StoreConnections.step, withConnection, recordedBy, List.append_nil]
    cases hconnection : world.connections[index]? with
    | none => exact hjournal
    | some connection =>
      simp only [forkOn]
      split
      · cases hfork : StoreTransactions.fork codecs world.tables parent parentSequence
            offer.shared with
        | error error => exact hjournal
        | ok forked => exact hjournal.kept (fork_kept codecs hfork)
      · exact hjournal
  | delete index roots =>
    simp only [StoreConnections.step, withConnection, recordedBy, List.append_nil]
    cases hconnection : world.connections[index]? with
    | none => exact hjournal
    | some connection =>
      simp only [deleteOn]
      split
      · exact hjournal
      · cases hdelete : deleteSessions world.tables roots with
        | error error => exact hjournal
        | ok deleted =>
          cases deleted with
          | none => exact hjournal
          | some deleted =>
            obtain ⟨tree, tables⟩ := deleted
            have htables : tables = Tables.withoutSessions world.tables tree := by
              unfold deleteSessions at hdelete
              dsimp only at hdelete
              split at hdelete
              · cases hdelete
              · simp only [except_bind_ok_iff] at hdelete
                obtain ⟨_, -, _, -, hdelete⟩ := hdelete
                obtain ⟨rfl, rfl⟩ := Prod.mk.inj (Option.some.inj (Except.ok.inj hdelete))
                rfl
            subst htables
            exact hjournal.delete tree
  | appendEvent index id event =>
    simp only [StoreConnections.step, withConnection, recordedBy]
    cases hconnection : world.connections[index]? with
    | none => exact hsame
    | some connection =>
      simp only [appendEventOn]
      cases hevent : StoreTables.storeEvent codecs world.tables id event none with
      | error error => exact hsame
      | ok stored =>
        exact hjournal.storeEvent (fun _ _ htranscript => by cases htranscript) hevent

theorem run_journal {world : World Text} (hjournal : Journal codecs world.tables recorded)
    (operations : List (Operation checks)) :
    Journal codecs (run codecs checks world operations).1.tables
      (recordings codecs checks world recorded operations) := by
  induction operations generalizing world recorded with
  | nil => exact hjournal
  | cons operation rest ih => exact ih (hjournal.step operation)

/-- Decoders of a store without attachments. -/
def plainDecoders : Decoders Document := ⟨fun _ => .error wrongShape, fun text => .item (.str text)⟩

def longLine : String := "0123456789 0123456789 0123456789 0123456789 0123456789 01234567"

/-- A stored output of a tool call. -/
def outputItem (parts : List String) : Json :=
  .obj [("_mobius_is_error", .bool false), ("call_id", .str "call"),
    ("output", .arr (parts.map fun text => .obj [("text", .str text), ("type", .str "input_text")])),
    ("type", .str "function_call_output")]

/-- The end of a call with a long output. -/
def longOutput : Event :=
  ⟨some "submission", .toolCallEnd "turn" "call" "read"
    ((List.replicate 66 longLine).map .text) false⟩

/-- The call's output is the second item of its batch with the call's identity. -/
def longBatch : List Json := [outputItem ["short"], outputItem (List.replicate 66 longLine)]

/-- A run that saves a session with that batch and the event. -/
def longRun : List (Operation openChecks) :=
  [.connect 1, .allocate 0 (.str "hello"),
    .save 0 (sampleOffer 0) longBatch none [⟨1, longOutput⟩]]

/-- The start of a call with a fraction among its arguments. -/
def fractionCall (literal : String) : Event :=
  ⟨some "submission", .toolCallBegin "turn" "call" "read" (.obj [("score", .decimal literal)])⟩

/-- A run that records the start of that call. -/
def fractionRun : List (Operation openChecks) :=
  sampleRun ++ [.appendEvent 0 "session" ⟨1, fractionCall "0.9565269861816759"⟩]

/-- In every run over any connections, every row of the journal is read as the
event it was recorded for, inline or through its reference, if what was stored of
the event is read back; and no key is recorded twice. -/
theorem journal_rows_decode (decoders : Decoders Text) (operations : List (Operation checks)) :
    ((recordings codecs checks (.empty : World Text) [] operations).map recordingKey).Nodup ∧
    ∀ row ∈ (run codecs checks (.empty : World Text) operations).1.tables.eventJournal,
      ∃ recording ∈ recordings codecs checks (.empty : World Text) [] operations,
        recordingKey recording = (row.sessionId, row.sequence) ∧
        (ReadBack codecs recording →
          decodeEvent codecs decoders (run codecs checks (.empty : World Text) operations).1.tables
            row.sessionId row.eventJson = .ok recording.record.event) := by
  have hempty : Journal codecs (.empty : World Text).tables [] := by
    refine ⟨?_, ?_, List.nodup_nil⟩
    · intro row hrow
      cases hrow
    · intro recording hrecording
      cases hrecording
  have hjournal := run_journal codecs checks hempty operations
  refine ⟨hjournal.keys, fun row hrow => ?_⟩
  obtain ⟨recording, hrecording, hkey, hholds⟩ := hjournal.rows row hrow
  exact ⟨recording, hrecording, hkey, fun hreads => hholds.decodeEvent codecs decoders hreads⟩

end Recording

/-- A long output is stored by reference to the second item of its batch, and
read as the event that was recorded. -/
theorem journal_rows_decode_reference :
    recordings documentCodecs openChecks .empty [] longRun =
      [⟨"session", ⟨1, 1, longOutput, []⟩, some (0, longBatch)⟩] ∧
    Recording.stored ⟨"session", ⟨1, 1, longOutput, []⟩, some (0, longBatch)⟩ =
      .toolOutput (some "submission") "turn" "call" "read" false 0 1 ∧
    ∃ row, (run documentCodecs openChecks .empty longRun).1.tables.eventJournal = [row] ∧
      decodeEvent documentCodecs plainDecoders
        (run documentCodecs openChecks .empty longRun).1.tables row.sessionId row.eventJson =
          .ok longOutput := by
  have hrecorded : recordings documentCodecs openChecks .empty [] longRun =
      [⟨"session", ⟨1, 1, longOutput, []⟩, some (0, longBatch)⟩] := rfl
  refine ⟨hrecorded, rfl, _, rfl, ?_⟩
  obtain ⟨recording, hmem, -, hdecode⟩ := (journal_rows_decode documentCodecs openChecks
    plainDecoders longRun).2 _ (List.mem_singleton_self _)
  rw [hrecorded, List.mem_singleton] at hmem
  subst hmem
  exact hdecode ⟨rfl, fun _ _ _ _ _ _ _ items _ _ => ⟨items, rfl, rfl, fun _ _ => rfl⟩⟩

/-- The start of a call with such a fraction is read as another event. -/
theorem rounded_arguments_change :
    recordings roundingCodecs openChecks .empty [] fractionRun =
      [⟨"session", ⟨1, 1, fractionCall "0.9565269861816759", []⟩, none⟩] ∧
    (∃ row, (run roundingCodecs openChecks .empty fractionRun).1.tables.eventJournal = [row] ∧
      decodeEvent roundingCodecs plainDecoders
        (run roundingCodecs openChecks .empty fractionRun).1.tables row.sessionId row.eventJson =
          .ok (fractionCall "0.956526986181676")) ∧
    fractionCall "0.956526986181676" ≠ fractionCall "0.9565269861816759" :=
  ⟨rfl, ⟨_, rfl, rfl⟩, by decide⟩

end MobiusAgent.StoreJournal
