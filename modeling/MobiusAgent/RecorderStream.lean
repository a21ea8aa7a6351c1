import MobiusAgent.RecorderLoop

/-!
# The recorder preserves the event stream

What the recorder writes is compared with what was submitted. Both are read
as marks: events, saves and flushes. A stored event is a batch of one or
more adjacent submitted deltas of one stream, and nothing is merged across
another mark. While neither the store nor the frontend refuses anything, the
stored marks followed by the pending batch are the submitted marks. After
the store's first refusal the log only grows by error replies, and after the
frontend's by replies.
-/

namespace MobiusAgent.RecorderStream

open ProtocolEvents CheckpointRecords RecorderLoop

/-- One position of the stream: an event or a barrier. -/
inductive Mark where
  | event (event : TimestampedEvent)
  /-- A save with the events committed in it. -/
  | save (command : SaveCommand)
  | flush (ticket : Nat)
  deriving DecidableEq

/-- The mark a log entry makes durable or acknowledges. -/
def entryMark : LogEntry → Option Mark
  | .appended event => some (.event event)
  | .saved command => some (.save command)
  | .flushed ticket => some (.flush ticket)
  | _ => none

/-- The durable marks of a log, in order. -/
def marks (log : List LogEntry) : List Mark := log.filterMap entryMark

/-- The mark a wake-up submits. -/
def inputMark : Input → Option Mark
  | .timer => none
  | .command (.append command) => some (.event command.event)
  | .command (.save command) => some (.save command)
  | .command (.flush ticket) => some (.flush ticket)

def submitted (inputs : List Input) : List Mark := inputs.filterMap inputMark

/-- Two deltas as one, recorded when the first was. -/
def joinDeltas (first next : TimestampedEvent) : TimestampedEvent :=
  ⟨first.recordedAtMs, appendText first.event (deltaText next.event)⟩

/-- A stored event and the adjacent submitted events it holds. -/
inductive Batch : TimestampedEvent → List TimestampedEvent → Prop where
  /-- An event stored as it was submitted. -/
  | single (event : TimestampedEvent) : Batch event [event]
  /-- One more delta of the same stream that still fits. -/
  | extend {event next : TimestampedEvent} {block : List TimestampedEvent} {key : StreamKey}
      (batch : Batch event block) (hkey : StreamKey.of event.event = some key)
      (hnext : StreamKey.of next.event = some key)
      (hfits : (deltaText event.event).utf8ByteSize + (deltaText next.event).utf8ByteSize ≤
        streamBatchBytes) :
      Batch (joinDeltas event next) (block ++ [next])

/-- Stored marks against submitted marks: batches in order, barriers kept. -/
inductive Merged : List Mark → List Mark → Prop where
  | nil : Merged [] []
  | batch {event : TimestampedEvent} {block : List TimestampedEvent} {stored rest : List Mark}
      (hbatch : Batch event block) (hrest : Merged stored rest) :
      Merged (.event event :: stored) (block.map .event ++ rest)
  | save (command : SaveCommand) {stored rest : List Mark} (hrest : Merged stored rest) :
      Merged (.save command :: stored) (.save command :: rest)
  | flush (ticket : Nat) {stored rest : List Mark} (hrest : Merged stored rest) :
      Merged (.flush ticket :: stored) (.flush ticket :: rest)

theorem Merged.append {stored stored' rest rest' : List Mark} (h : Merged stored rest)
    (h' : Merged stored' rest') : Merged (stored ++ stored') (rest ++ rest') := by
  induction h with
  | nil => exact h'
  | batch hbatch _ ih =>
    rw [List.append_assoc]
    exact .batch hbatch ih
  | save command _ ih => exact .save command ih
  | flush ticket _ ih => exact .flush ticket ih

variable {block : List TimestampedEvent} {event : TimestampedEvent} {stored sub : List Mark}
  {log more : List LogEntry} {s next : RecorderState} {env : RecorderEnv}

theorem Merged.snoc_batch {rest : List Mark} (h : Merged stored rest) (hbatch : Batch event block) :
    Merged (stored ++ [.event event]) (rest ++ block.map .event) := by
  have hone := Merged.batch hbatch .nil
  rw [List.append_nil] at hone
  exact h.append hone

theorem Merged.split {before after : List Mark} {barrier : Mark}
    (hbarrier : ∀ event, barrier ≠ .event event) (h : Merged (before ++ barrier :: after) sub) :
    ∃ earlier later, sub = earlier ++ barrier :: later ∧ Merged before earlier ∧
      Merged after later := by
  induction before generalizing sub with
  | nil =>
    cases h with
    | batch => exact absurd rfl (hbarrier _)
    | save command hrest | flush ticket hrest => exact ⟨[], _, rfl, .nil, hrest⟩
  | cons mark before ih =>
    cases h with
    | batch hbatch hrest =>
      obtain ⟨earlier, later, hsub, hbefore, hafter⟩ := ih hrest
      refine ⟨_ ++ earlier, later, ?_, .batch hbatch hbefore, hafter⟩
      rw [hsub, List.append_assoc]
    | save command hrest =>
      obtain ⟨earlier, later, hsub, hbefore, hafter⟩ := ih hrest
      exact ⟨.save command :: earlier, later, by rw [hsub, List.cons_append],
        .save command hbefore, hafter⟩
    | flush ticket hrest =>
      obtain ⟨earlier, later, hsub, hbefore, hafter⟩ := ih hrest
      exact ⟨.flush ticket :: earlier, later, by rw [hsub, List.cons_append],
        .flush ticket hbefore, hafter⟩

theorem streamKey_appendText (event : Event) (text : String) :
    StreamKey.of (appendText event text) = StreamKey.of event := by
  obtain ⟨submission, msg⟩ := event
  cases msg <;> rfl

theorem deltaText_appendText {event : Event} {key : StreamKey} (text : String)
    (h : StreamKey.of event = some key) :
    deltaText (appendText event text) = deltaText event ++ text := by
  obtain ⟨submission, msg⟩ := event
  cases msg <;> first | rfl | cases h

theorem appendText_appendText (event : Event) (a b : String) :
    appendText (appendText event a) b = appendText event (a ++ b) := by
  obtain ⟨submission, msg⟩ := event
  cases msg <;> simp [appendText, String.append_assoc]

theorem Batch.bytes (h : Batch event block) :
    block = [event] ∨ (deltaText event.event).utf8ByteSize ≤ streamBatchBytes := by
  cases h with
  | single => exact .inl rfl
  | extend batch hkey hnext hfits =>
    refine .inr ?_
    simp only [joinDeltas]
    rw [deltaText_appendText _ hkey, String.utf8ByteSize_append]
    exact hfits

/-- Put one mark before coalesced marks, joining adjacent deltas of one stream. -/
def coalesceCons (mark : Mark) (rest : List Mark) : List Mark :=
  match mark, rest with
  | .event first, .event next :: tail =>
    if (StreamKey.of first.event).isSome ∧ StreamKey.of first.event = StreamKey.of next.event then
      .event (joinDeltas first next) :: tail
    else mark :: rest
  | mark, rest => mark :: rest

/-- The stream with the text of all adjacent deltas of one stream joined. -/
def coalesce (stream : List Mark) : List Mark := stream.foldr coalesceCons []

theorem coalesceCons_joinDeltas {first next : TimestampedEvent} {key : StreamKey}
    (hfirst : StreamKey.of first.event = some key) (hnext : StreamKey.of next.event = some key)
    (rest : List Mark) :
    coalesceCons (.event (joinDeltas first next)) rest =
      coalesceCons (.event first) (coalesceCons (.event next) rest) := by
  have hjoined : StreamKey.of (joinDeltas first next).event = some key := by
    rw [joinDeltas, streamKey_appendText, hfirst]
  cases rest with
  | nil => simp [coalesceCons, hfirst, hnext]
  | cons mark tail =>
    cases mark with
    | save | flush => simp [coalesceCons, hfirst, hnext]
    | event third =>
      by_cases hthird : some key = StreamKey.of third.event
      · have hpair : StreamKey.of (joinDeltas next third).event = some key := by
          rw [joinDeltas, streamKey_appendText, hnext]
        simp only [coalesceCons, hjoined, hnext, hfirst, ← hthird, hpair, Option.isSome_some,
          and_self, if_true]
        simp only [joinDeltas, deltaText_appendText _ hnext, appendText_appendText]
      · simp [coalesceCons, hjoined, hnext, hfirst, hthird]

theorem Batch.coalesce (h : Batch event block) (rest : List Mark) :
    coalesceCons (.event event) rest = (block.map Mark.event).foldr coalesceCons rest := by
  induction h generalizing rest with
  | single => rfl
  | extend batch hkey hnext hfits ih =>
    rw [coalesceCons_joinDeltas hkey hnext, ih, List.map_append, List.foldr_append]
    rfl

theorem Merged.coalesce_eq (h : Merged stored sub) : coalesce stored = coalesce sub := by
  induction h with
  | nil => rfl
  | batch hbatch _ ih =>
    simp only [coalesce, List.foldr_cons, List.foldr_append] at ih ⊢
    rw [ih, hbatch.coalesce]
  | save command _ ih | flush ticket _ ih =>
    simp only [coalesce, List.foldr_cons] at ih ⊢
    rw [ih]

/-- An entry by which the store or the frontend refused something. -/
def refused : LogEntry → Bool
  | .storeFailed _ => true
  | .unpublished _ => true
  | _ => false

/-- A log in which neither the store nor the frontend refused anything. -/
def Clean (log : List LogEntry) : Prop := ∀ entry ∈ log, refused entry = false

def replyEntries (ticket : Option Nat) (outcome : Except String Unit) : List LogEntry :=
  (ticket.map (LogEntry.replied · outcome)).toList

theorem replyTo_eq (s : RecorderState) (ticket : Option Nat) (outcome : Except String Unit) :
    replyTo s ticket outcome = { s with log := s.log ++ replyEntries ticket outcome } := by
  cases ticket with
  | none => simp [replyTo, replyEntries]
  | some ticket => rfl

theorem marks_replyEntries (ticket : Option Nat) (outcome : Except String Unit) :
    marks (replyEntries ticket outcome) = [] := by
  cases ticket <;> rfl

theorem marks_append (log more : List LogEntry) : marks (log ++ more) = marks log ++ marks more :=
  List.filterMap_append

theorem Clean.left (h : Clean (log ++ more)) : Clean log :=
  fun entry hentry => h entry (List.mem_append_left _ hentry)

theorem publish_clean (h : Clean (publish env s event).2.log) :
    publish env s event =
      (true, { s with sends := s.sends + 1, log := s.log ++ [.published event] }) := by
  unfold publish at h ⊢
  dsimp only at h ⊢
  split
  · rfl
  · rename_i hrefused
    rw [if_neg hrefused] at h
    exact absurd (h (.unpublished event) (by simp [RecorderState.note])) (by simp [refused])

/-- Publishing the records of a save without a refusal makes nothing durable
and keeps the loop state. -/
theorem publishAll_clean {events : List TimestampedEvent}
    (h : Clean (publishAll env s events).2.log) :
    ∃ sends log, publishAll env s events = (true, { s with sends := sends, log := log }) ∧
      marks log = marks s.log := by
  induction events generalizing s with
  | nil => exact ⟨s.sends, s.log, rfl, rfl⟩
  | cons event rest ih =>
    simp only [publishAll] at h ⊢
    cases hpublish : publish env s event with
    | mk sent next =>
      rw [hpublish] at h
      cases sent with
      | false =>
        have hone : Clean (publish env s event).2.log := by rw [hpublish]; exact h
        rw [publish_clean hone] at hpublish
        cases hpublish
      | true =>
        have hlog : Clean (publishAll env next rest).2.log := h
        obtain ⟨sends, log, hrest, hmarks⟩ := ih hlog
        have hnext : next = { s with
            sends := s.sends + 1, log := s.log ++ [.published event] } := by
          unfold publish at hpublish
          dsimp only at hpublish
          split at hpublish
          · exact (congrArg Prod.snd hpublish).symm
          · cases congrArg Prod.fst hpublish
        refine ⟨sends, log, ?_, ?_⟩
        · dsimp only
          rw [hrest, hnext]
        · rw [hmarks, hnext, marks_append]
          exact List.append_nil _

theorem recordAppend_clean {command : AppendCommand}
    (h : Clean (recordAppend env s command).2.log) :
    ∃ calls sends log, recordAppend env s command =
        (none, { s with storeCalls := calls, sends := sends, log := log }) ∧
      marks log = marks s.log ++ [.event command.event] := by
  unfold recordAppend at h ⊢
  dsimp only at h ⊢
  cases hstore : env.store s.storeCalls with
  | error error =>
    simp only [hstore, replyTo_eq] at h
    exact absurd (h (.storeFailed error) (by simp [RecorderState.note])) (by simp [refused])
  | ok _ =>
    simp only [hstore] at h ⊢
    cases hpublish : publish env (RecorderState.note
        { s with storeCalls := s.storeCalls + 1 } (.appended command.event)) command.event with
    | mk sent next =>
      rw [hpublish] at h
      have hnext : Clean next.log := by
        cases sent <;> simp only [replyTo_eq] at h <;> exact h.left
      have hclosed := publish_clean (by rw [hpublish]; exact hnext)
      rw [hpublish] at hclosed
      cases hclosed
      simp only [replyTo_eq]
      refine ⟨_, _, _, rfl, ?_⟩
      simp only [RecorderState.note, marks_append, marks_replyEntries, List.append_nil]
      exact List.append_nil _

theorem recordSave_clean {command : SaveCommand} (h : Clean (recordSave env s command).2.log) :
    ∃ calls sends log, recordSave env s command =
        (true, { s with storeCalls := calls, sends := sends, log := log }) ∧
      marks log = marks s.log ++ [.save command] := by
  unfold recordSave at h ⊢
  dsimp only at h ⊢
  cases hstore : env.store s.storeCalls with
  | error error =>
    simp only [hstore] at h
    exact absurd (h (.storeFailed error) (by simp [RecorderState.note])) (by simp [refused])
  | ok _ =>
    simp only [hstore] at h ⊢
    cases hpublish : publishAll env (RecorderState.note
        { s with storeCalls := s.storeCalls + 1 } (.saved command)) command.events with
    | mk sent next =>
      rw [hpublish] at h
      have hnext : Clean next.log := Clean.left h
      obtain ⟨sends, log, hclosed, hmarks⟩ := publishAll_clean (by rw [hpublish]; exact hnext)
      rw [hpublish] at hclosed
      cases hclosed
      refine ⟨_, _, _, rfl, ?_⟩
      simp only [RecorderState.note] at hmarks ⊢
      rw [marks_append, hmarks, marks_append]
      exact List.append_nil _

/-- While nothing was refused: what was submitted is what is durable,
followed by the pending batch. -/
structure StreamInv (s : RecorderState) (sub : List Mark) : Prop where
  healthy : s.terminalError = none
  running : s.stopped = false
  /-- The durable marks and the pending batch are the submitted marks. -/
  stream : ∃ done block, sub = done ++ block.map Mark.event ∧ Merged (marks s.log) done ∧
    match s.pending with
    | none => block = []
    | some batch => Batch batch.event block

theorem flushStream_clean (hinv : StreamInv s sub) (h : Clean (flushStream env s).2.log) :
    ∃ next, flushStream env s = (none, next) ∧ Merged (marks next.log) sub ∧
      next.pending = none ∧ next.terminalError = none ∧ next.stopped = false ∧
      next.lastStream = s.lastStream := by
  obtain ⟨done, block, hsub, hmerged, hpending⟩ := hinv.stream
  unfold flushStream at h ⊢
  cases hbatch : s.pending with
  | none =>
    rw [hbatch] at hpending
    subst hpending
    rw [List.map_nil, List.append_nil] at hsub
    exact ⟨s, rfl, hsub ▸ hmerged, hbatch, hinv.healthy, hinv.running, rfl⟩
  | some batch =>
    simp only [hbatch] at h hpending ⊢
    obtain ⟨calls, sends, log, hrecord, hmarks⟩ := recordAppend_clean h
    refine ⟨_, hrecord, ?_, rfl, hinv.healthy, hinv.running, rfl⟩
    rw [hmarks, hsub]
    exact hmerged.snoc_batch hpending

/-- An answer that carries an error. -/
def ErrorReply : LogEntry → Prop
  | .replied _ (.error _) => True
  | _ => False

/-- An answer to a caller. -/
def Reply : LogEntry → Prop
  | .replied _ _ => True
  | _ => False

theorem ErrorReply.reply {entry : LogEntry} (h : ErrorReply entry) : Reply entry := by
  cases entry with
  | replied => trivial
  | _ => cases h

/-- After the first refusal only answers follow, and only errors after one of
the store. -/
def FailTail : List LogEntry → Prop
  | [] => True
  | .storeFailed _ :: rest => ∀ entry ∈ rest, ErrorReply entry
  | .unpublished _ :: rest => ∀ entry ∈ rest, Reply entry
  | _ :: rest => FailTail rest

/-- The store or the frontend refused something of this log. -/
def Failure (log : List LogEntry) : Prop := ∃ entry ∈ log, refused entry = true

theorem failure_append (h : Failure (log ++ more)) : Failure log ∨ Failure more := by
  obtain ⟨entry, hentry, hrefused⟩ := h
  rcases List.mem_append.mp hentry with hlog | hmore
  · exact .inl ⟨entry, hlog, hrefused⟩
  · exact .inr ⟨entry, hmore, hrefused⟩

theorem FailTail.append {log more : List LogEntry} (hlog : ¬Failure log)
    (hmore : FailTail more) : FailTail (log ++ more) := by
  induction log with
  | nil => exact hmore
  | cons entry rest ih =>
    have hrest : ¬Failure rest := fun ⟨other, hother, hrefused⟩ =>
      hlog ⟨other, List.mem_cons_of_mem _ hother, hrefused⟩
    cases entry with
    | storeFailed | unpublished => exact absurd ⟨_, List.mem_cons_self .., rfl⟩ hlog
    | appended | saved | published | flushed | replied => exact ih hrest

theorem FailTail.of_none (hlog : ¬Failure log) : FailTail log := by
  have hnil : FailTail [] := trivial
  have h := FailTail.append hlog hnil
  rwa [List.append_nil] at h

theorem FailTail.append_errors (hlog : FailTail log) (hmore : ∀ entry ∈ more, ErrorReply entry) :
    FailTail (log ++ more) := by
  induction log with
  | nil =>
    refine .of_none fun ⟨entry, hentry, hrefused⟩ => ?_
    have herror := hmore entry hentry
    cases entry with
    | storeFailed | unpublished => cases herror
    | appended | saved | published | flushed | replied => cases hrefused
  | cons entry rest ih =>
    cases entry with
    | storeFailed error =>
      intro entry hentry
      rcases List.mem_append.mp hentry with hrest | hentry
      · exact hlog entry hrest
      · exact hmore entry hentry
    | unpublished event =>
      intro entry hentry
      rcases List.mem_append.mp hentry with hrest | hentry
      · exact hlog entry hrest
      · exact (hmore entry hentry).reply
    | appended | saved | published | flushed | replied => exact ih hlog

theorem FailTail.after {before after : List LogEntry} {error : Error}
    (h : FailTail (before ++ .storeFailed error :: after)) :
    ∀ entry ∈ after, ErrorReply entry := by
  induction before with
  | nil => exact h
  | cons entry rest ih =>
    cases entry with
    | storeFailed =>
      intro entry hentry
      exact h entry (List.mem_append_right _ (List.mem_cons_of_mem _ hentry))
    | unpublished =>
      cases h (.storeFailed error) (List.mem_append_right _ List.mem_cons_self)
    | appended | saved | published | flushed | replied => exact ih h

theorem FailTail.after_unpublished {before after : List LogEntry} {event : TimestampedEvent}
    (h : FailTail (before ++ .unpublished event :: after)) : ∀ entry ∈ after, Reply entry := by
  induction before with
  | nil => exact h
  | cons entry rest ih =>
    cases entry with
    | storeFailed =>
      cases h (.unpublished event) (List.mem_append_right _ List.mem_cons_self)
    | unpublished =>
      intro entry hentry
      exact h entry (List.mem_append_right _ (List.mem_cons_of_mem _ hentry))
    | appended | saved | published | flushed | replied => exact ih h

theorem errorReply_replyEntries {ticket : Option Nat} {message : String} :
    ∀ entry ∈ replyEntries ticket (.error message), ErrorReply entry := by
  cases ticket with
  | none => intro entry hentry; cases hentry
  | some ticket =>
    intro entry hentry
    rw [List.mem_singleton.mp hentry]
    trivial

theorem reply_replyEntries {ticket : Option Nat} {outcome : Except String Unit} :
    ∀ entry ∈ replyEntries ticket outcome, Reply entry := by
  cases ticket with
  | none => intro entry hentry; cases hentry
  | some ticket =>
    intro entry hentry
    rw [List.mem_singleton.mp hentry]
    trivial

theorem not_failure_of_replies {entries : List LogEntry} (h : ∀ entry ∈ entries, Reply entry) :
    ¬Failure entries := by
  rintro ⟨entry, hentry, hrefused⟩
  have hreply := h entry hentry
  cases entry with
  | storeFailed | unpublished => cases hreply
  | appended | saved | published | flushed | replied => cases hrefused

/-- What a call of the store and its answers add to the log. -/
structure Growth (s next : RecorderState) (failed : Prop) : Prop where
  log : ∃ new, next.log = s.log ++ new ∧ FailTail new ∧ (Failure new → failed)
  pending : next.pending = s.pending
  terminalError : next.terminalError = s.terminalError
  stopped : next.stopped = s.stopped

theorem Growth.trans {mid : RecorderState} {failed : Prop} (h : Growth s mid False)
    (h' : Growth mid next failed) : Growth s next failed := by
  obtain ⟨new, hnew, htail, hfail⟩ := h.log
  obtain ⟨new', hnew', htail', hfail'⟩ := h'.log
  refine ⟨⟨new ++ new', ?_, FailTail.append hfail htail', ?_⟩,
    h'.pending.trans h.pending, h'.terminalError.trans h.terminalError,
    h'.stopped.trans h.stopped⟩
  · rw [hnew', hnew, List.append_assoc]
  · intro hfailure
    rcases failure_append hfailure with hfirst | hsecond
    · exact (hfail hfirst).elim
    · exact hfail' hsecond

/-- Without a refusal, the key of the last stream does not matter. -/
theorem Growth.streaming {failed : Prop} (h : Growth s next failed) (hnone : ¬failed)
    (key : Option StreamKey) : Growth s { next with lastStream := key } False := by
  obtain ⟨new, hnew, htail, hfail⟩ := h.log
  exact ⟨⟨new, hnew, htail, fun hfailure => hnone (hfail hfailure)⟩, h.pending,
    h.terminalError, h.stopped⟩

/-- What publishing adds to the log: no refusal, or one at the end. -/
structure Sending (s next : RecorderState) (sent : Bool) : Prop where
  log : ∃ new, next.log = s.log ++ new ∧ (sent = true → ¬Failure new) ∧
    (sent = false → ∃ before event, new = before ++ [.unpublished event] ∧ ¬Failure before)
  pending : next.pending = s.pending
  terminalError : next.terminalError = s.terminalError
  stopped : next.stopped = s.stopped

theorem publish_sending (env : RecorderEnv) (s : RecorderState) (event : TimestampedEvent) :
    Sending s (publish env s event).2 (publish env s event).1 := by
  have hnone : ¬Failure [.published event] := by
    rintro ⟨entry, hentry, hrefused⟩
    cases List.mem_singleton.mp hentry
    cases hrefused
  have hempty : ¬Failure [] := by
    rintro ⟨entry, hentry, -⟩
    cases hentry
  unfold publish
  dsimp only
  split
  · exact ⟨⟨[.published event], rfl, fun _ => hnone, fun h => by cases h⟩, rfl, rfl, rfl⟩
  · exact ⟨⟨[.unpublished event], rfl, fun h => (by cases h),
      fun _ => ⟨[], event, rfl, hempty⟩⟩, rfl, rfl, rfl⟩

theorem publishAll_sending (env : RecorderEnv) (events : List TimestampedEvent)
    (s : RecorderState) : Sending s (publishAll env s events).2 (publishAll env s events).1 := by
  induction events generalizing s with
  | nil =>
    refine ⟨⟨[], (List.append_nil _).symm, fun _ => ?_, fun h => by cases h⟩, rfl, rfl, rfl⟩
    rintro ⟨entry, hentry, -⟩
    cases hentry
  | cons event rest ih =>
    have hone := publish_sending env s event
    simp only [publishAll]
    cases hpublish : publish env s event with
    | mk sent next =>
      rw [hpublish] at hone
      cases sent with
      | false => exact hone
      | true =>
        obtain ⟨⟨new, hnew, hclean, -⟩, hp, ht, hs⟩ := hone
        obtain ⟨⟨new', hnew', hclean', hlast⟩, hp', ht', hs'⟩ := ih next
        have hjoin : ∀ {entries}, ¬Failure entries → ¬Failure (new ++ entries) := by
          intro entries hentries hfailure
          exact (failure_append hfailure).elim (hclean rfl) hentries
        refine ⟨⟨new ++ new', ?_, fun hsent => hjoin (hclean' hsent), fun hsent => ?_⟩,
          hp'.trans hp, ht'.trans ht, hs'.trans hs⟩
        · rw [hnew', hnew, List.append_assoc]
        · obtain ⟨before, refusal, hbefore, hnone⟩ := hlast hsent
          exact ⟨new ++ before, refusal, by rw [hbefore, List.append_assoc], hjoin hnone⟩

theorem Sending.growth {sent : Bool} {entry : LogEntry} {replies : List LogEntry}
    (h : Sending (s.note entry) next sent) (hentry : refused entry = false)
    (hreplies : ∀ reply ∈ replies, Reply reply) :
    Growth s { next with log := next.log ++ replies } (sent = false) := by
  obtain ⟨⟨new, hnew, hclean, hlast⟩, hp, ht, hs⟩ := h
  have hjoin : ∀ {entries}, ¬Failure entries → ¬Failure (entry :: entries) := by
    rintro entries hentries ⟨other, hother, hrefused⟩
    rcases List.mem_cons.mp hother with rfl | hother
    · rw [hentry] at hrefused
      cases hrefused
    · exact hentries ⟨other, hother, hrefused⟩
  refine ⟨⟨entry :: new ++ replies, ?_, ?_, fun hfailure => ?_⟩, hp, ht, hs⟩
  · dsimp only
    rw [hnew, RecorderState.note]
    simp only [List.append_assoc, List.cons_append, List.nil_append]
  · cases sent with
    | true =>
      refine FailTail.append (hjoin (hclean rfl)) (.of_none (not_failure_of_replies hreplies))
    | false =>
      obtain ⟨before, event, rfl, hnone⟩ := hlast rfl
      rw [← List.cons_append, List.append_assoc]
      exact FailTail.append (hjoin hnone) hreplies
  · cases sent with
    | true =>
      rcases failure_append hfailure with hfailure | hfailure
      · exact absurd hfailure (hjoin (hclean rfl))
      · exact absurd hfailure (not_failure_of_replies hreplies)
    | false => rfl

theorem note_growth (s : RecorderState) (entry : LogEntry) (hentry : refused entry = false) :
    Growth s (s.note entry) False := by
  have hnone : ¬Failure [entry] := by
    rintro ⟨other, hother, hrefused⟩
    rw [List.mem_singleton.mp hother, hentry] at hrefused
    cases hrefused
  exact ⟨⟨[entry], rfl, FailTail.of_none hnone, hnone⟩, rfl, rfl, rfl⟩

theorem replyTo_growth (s : RecorderState) (ticket : Option Nat)
    (outcome : Except String Unit) : Growth s (replyTo s ticket outcome) False := by
  rw [replyTo_eq]
  have hnone := not_failure_of_replies (@reply_replyEntries ticket outcome)
  exact ⟨⟨_, rfl, FailTail.of_none hnone, hnone⟩, rfl, rfl, rfl⟩

theorem failure_growth (s : RecorderState) (error : Error) (ticket : Option Nat)
    (message : String) :
    Growth s (replyTo (s.note (.storeFailed error)) ticket (.error message)) True := by
  rw [replyTo_eq]
  refine ⟨⟨.storeFailed error :: replyEntries ticket (.error message), ?_,
    errorReply_replyEntries, fun _ => trivial⟩, rfl, rfl, rfl⟩
  simp [RecorderState.note, List.append_assoc]

theorem recordAppend_growth (env : RecorderEnv) (s : RecorderState) (command : AppendCommand) :
    Growth s (recordAppend env s command).2 ((recordAppend env s command).1.isSome = true) := by
  unfold recordAppend
  dsimp only
  cases hstore : env.store s.storeCalls with
  | error error =>
    obtain ⟨⟨new, hnew, htail, -⟩, hp, ht, hs⟩ := failure_growth
      { s with storeCalls := s.storeCalls + 1 } error command.result error.display
    exact ⟨⟨new, hnew, htail, fun _ => rfl⟩, hp, ht, hs⟩
  | ok _ =>
    have hsending := publish_sending env (RecorderState.note
      { s with storeCalls := s.storeCalls + 1 } (.appended command.event)) command.event
    have hgrowth := hsending.growth rfl (@reply_replyEntries command.result (.ok ()))
    dsimp only
    cases hsent : publish env (RecorderState.note { s with storeCalls := s.storeCalls + 1 }
        (.appended command.event)) command.event with
    | mk sent next =>
      rw [hsent] at hgrowth
      obtain ⟨⟨new, hnew, htail, hfail⟩, hp, ht, hs⟩ := hgrowth
      cases sent with
      | true =>
        simp only [replyTo_eq]
        exact ⟨⟨new, hnew, htail, fun h => by cases hfail h⟩, hp, ht, hs⟩
      | false =>
        simp only [replyTo_eq]
        exact ⟨⟨new, hnew, htail, fun _ => rfl⟩, hp, ht, hs⟩

theorem recordSave_growth (env : RecorderEnv) (s : RecorderState) (command : SaveCommand) :
    Growth s (recordSave env s command).2 ((recordSave env s command).1 = false) := by
  unfold recordSave
  dsimp only
  cases hstore : env.store s.storeCalls with
  | error error =>
    obtain ⟨⟨new, hnew, htail, -⟩, hp, ht, hs⟩ := failure_growth
      { s with storeCalls := s.storeCalls + 1 } error (some command.result) error.display
    exact ⟨⟨new, hnew, htail, fun _ => rfl⟩, hp, ht, hs⟩
  | ok _ =>
    have hsending := publishAll_sending env command.events (RecorderState.note
      { s with storeCalls := s.storeCalls + 1 } (.saved command))
    have hgrowth := hsending.growth rfl (@reply_replyEntries (some command.result) (.ok ()))
    dsimp only
    cases hsent : publishAll env (RecorderState.note { s with storeCalls := s.storeCalls + 1 }
        (.saved command)) command.events with
    | mk sent next =>
      rw [hsent] at hgrowth
      obtain ⟨⟨new, hnew, htail, hfail⟩, hp, ht, hs⟩ := hgrowth
      exact ⟨⟨new, hnew, htail, hfail⟩, hp, ht, hs⟩

theorem reject_eq (s : RecorderState) (command : RecorderCommand) (message : String) :
    (reject s command message).2 =
      { s with log := s.log ++ replyEntries command.ticket (.error (failureError message)) } := by
  cases command with
  | append append => exact replyTo_eq ..
  | save save | flush result => rfl

theorem flushStream_growth (env : RecorderEnv) (s : RecorderState) :
    Growth { s with pending := none } (flushStream env s).2
      ((flushStream env s).1.isSome = true) := by
  unfold flushStream
  cases hpending : s.pending with
  | none =>
    refine ⟨⟨[], (List.append_nil _).symm, trivial, ?_⟩, hpending, rfl, rfl⟩
    rintro ⟨entry, hentry, -⟩
    cases hentry
  | some batch => exact recordAppend_growth env { s with pending := none } batch

/-- The recorder is out of service: it remembers a failure or has returned. -/
def Out (s : RecorderState) : Prop := s.terminalError.isSome = true ∨ s.stopped = true

/-- What one wake-up in service does to the log. -/
structure Served (s next : RecorderState) : Prop where
  /-- The log grows by a well-formed tail, and a refusal ends the service. -/
  log : ∃ new, next.log = s.log ++ new ∧ FailTail new ∧ (Failure new → Out next)
  pending : Out next → next.pending = none

/-- A wake-up that flushed without a refusal is served by what it does next. -/
theorem Served.flushed {mid later : RecorderState} {failed : Prop}
    (hflushed : Growth { s with pending := none } mid False) (h : Growth mid later failed)
    (hlog : next.log = later.log) (hpending : next.pending = later.pending)
    (hout : failed → Out next) : Served s next := by
  obtain ⟨⟨new, hnew, htail, hfail⟩, hnone, -, -⟩ := hflushed.trans h
  exact ⟨⟨new, hlog.trans hnew, htail, fun hfailure => hout (hfail hfailure)⟩,
    fun _ => hpending.trans hnone⟩

/-- A wake-up that is refused as it flushes answers the command with the refusal. -/
theorem Served.refused {mid : RecorderState} {failed : Prop}
    (hflushed : Growth { s with pending := none } mid failed) (ticket : Option Nat)
    (message : String)
    (hlog : next.log = mid.log ++ replyEntries ticket (.error (failureError message)))
    (hpending : next.pending = mid.pending) (hout : Out next) : Served s next := by
  obtain ⟨⟨new, hnew, htail, -⟩, hnone, -, -⟩ := hflushed
  refine ⟨⟨new ++ replyEntries ticket (.error (failureError message)), ?_,
    htail.append_errors errorReply_replyEntries, fun _ => hout⟩, fun _ => hpending.trans hnone⟩
  rw [hlog, hnew, List.append_assoc]

theorem stepAppend_served (env : RecorderEnv) (hs : ¬Out s) (append : AppendCommand) :
    Served s (stepAppend env s append) := by
  unfold stepAppend
  cases hmerge : s.pending.bind (mergeBatch · append) with
  | some batch =>
    obtain ⟨⟨new, hnew, htail, hfail⟩, -, hterminal, hstopped⟩ :=
      replyTo_growth { s with pending := some batch } append.result (.ok ())
    refine ⟨⟨new, hnew, htail, fun h => (hfail h).elim⟩, fun hout => absurd ?_ hs⟩
    simpa only [Out, hterminal, hstopped] using hout
  | none =>
    have hflush := flushStream_growth env s
    cases hresult : flushStream env s with
    | mk failure mid =>
      rw [hresult] at hflush
      cases failure with
      | some message =>
        dsimp only
        refine Served.refused hflush append.result message ?_ ?_ (.inl rfl)
        · rw [reject_eq]
          rfl
        · rw [reject_eq]
      | none =>
        dsimp only
        split
        · obtain ⟨⟨new, hnew, htail, hfail⟩, -, hterminal, hstopped⟩ :=
            (hflush.streaming Bool.false_ne_true mid.lastStream).trans
              (replyTo_growth mid append.result (.ok ()))
          refine ⟨⟨new, hnew, htail, fun h => (hfail h).elim⟩, fun hout => absurd ?_ hs⟩
          simpa only [Out, hterminal, hstopped] using hout
        · have hnext := recordAppend_growth env
            { mid with lastStream := StreamKey.of append.event.event } append
          exact .flushed (hflush.streaming Bool.false_ne_true _) hnext rfl rfl .inl

theorem stepBarrier_served (env : RecorderEnv) (s : RecorderState)
    (command : RecorderCommand) : Served s (stepBarrier env s command) := by
  unfold stepBarrier
  have hflush := flushStream_growth env s
  cases hresult : flushStream env s with
  | mk failure mid =>
    rw [hresult] at hflush
    cases failure with
    | some message =>
      have hreject := reject_eq mid command message
      dsimp only
      cases hcase : reject mid command message with
      | mk ended next =>
        rw [hcase] at hreject
        dsimp only at hreject
        subst hreject
        cases ended with
        | true => exact Served.refused hflush command.ticket message rfl rfl (.inr rfl)
        | false => exact Served.refused hflush command.ticket message rfl rfl (.inl rfl)
    | none =>
      have hflushed := hflush.streaming Bool.false_ne_true none
      cases command with
      | append append =>
        obtain ⟨⟨new, hnew, htail, hfail⟩, hpending, -, -⟩ := hflushed
        exact ⟨⟨new, hnew, htail, fun h => (hfail h).elim⟩, fun _ => hpending⟩
      | flush result =>
        exact .flushed hflushed (note_growth { mid with lastStream := none } (.flushed result) rfl)
          rfl rfl False.elim
      | save save =>
        have hsave := recordSave_growth env { mid with lastStream := none } save
        dsimp only
        cases hcase : recordSave env { mid with lastStream := none } save with
        | mk continues next =>
          rw [hcase] at hsave
          cases continues with
          | true => exact .flushed hflushed hsave rfl rfl fun hfailed => nomatch hfailed
          | false => exact .flushed hflushed hsave rfl rfl fun _ => .inr rfl

/-- What holds of the recorder whatever the store and the frontend answer. -/
structure ServiceInv (s : RecorderState) : Prop where
  tail : FailTail s.log
  remembered : Failure s.log → Out s
  pending : Out s → s.pending = none

theorem ServiceInv.served (hinv : ServiceInv s) (hs : ¬Out s) (h : Served s next) :
    ServiceInv next := by
  obtain ⟨new, hnew, htail, hfail⟩ := h.log
  have hnone : ¬Failure s.log := fun hf => hs (hinv.remembered hf)
  refine ⟨hnew ▸ .append hnone htail, fun hf => ?_, h.pending⟩
  rw [hnew] at hf
  rcases failure_append hf with hf | hf
  · exact absurd hf hnone
  · exact hfail hf

theorem step_command_out (env : RecorderEnv) (hs : Out s) (command : RecorderCommand) :
    ∃ message stopped, step env s (.command command) =
      { s with
        stopped := stopped
        log := s.log ++ replyEntries command.ticket (.error message) } ∧
      (s.stopped = true → stopped = true) := by
  unfold step
  dsimp only
  split
  · rename_i hstopped
    exact ⟨recorderStopped, s.stopped, replyTo_eq .., fun h => h⟩
  · rename_i hstopped
    cases hterminal : s.terminalError with
    | none => exact absurd hs (by simp [Out, hterminal, hstopped])
    | some message =>
      have hreject := reject_eq s command message
      dsimp only
      cases hcase : reject s command message with
      | mk ended next =>
        rw [hcase] at hreject
        dsimp only at hreject
        subst hreject
        exact ⟨failureError message, ended, by rw [hterminal], fun h => absurd h hstopped⟩

theorem step_serviceInv (hinv : ServiceInv s) (input : Input) : ServiceInv (step env s input) := by
  by_cases hs : Out s
  · cases input with
    | timer =>
      have hidle := hinv.pending hs
      simpa [step, hidle] using hinv
    | command command =>
      obtain ⟨message, stopped, hstep, hkeeps⟩ := step_command_out env hs command
      rw [hstep]
      refine ⟨hinv.tail.append_errors errorReply_replyEntries, fun _ => ?_, fun _ => ?_⟩
      · exact hs.imp id hkeeps
      · exact hinv.pending hs
  · have hhealthy : s.terminalError = none ∧ s.stopped = false := by
      simpa [Out] using hs
    refine hinv.served hs ?_
    cases input with
    | timer =>
      simp only [step, hhealthy.2, Bool.false_eq_true, false_or]
      split
      · exact ⟨⟨[], (List.append_nil _).symm, trivial, by rintro ⟨e, he, -⟩; cases he⟩,
          fun h => absurd h hs⟩
      · obtain ⟨⟨new, hnew, htail, hfail⟩, hpending, -, -⟩ := flushStream_growth env s
        exact ⟨⟨new, hnew, htail, fun h => .inl (hfail h)⟩, fun _ => hpending⟩
    | command command =>
      simp only [step, hhealthy.1, hhealthy.2, Bool.false_eq_true, if_false]
      cases command with
      | append append => exact stepAppend_served env hs append
      | save save | flush result => exact stepBarrier_served env s _

theorem run_serviceInv (env : RecorderEnv) (inputs : List Input) :
    ServiceInv (run env inputs) := by
  have hinitial : ServiceInv .initial := by
    refine ⟨trivial, ?_, ?_⟩
    · rintro ⟨entry, hentry, -⟩
      cases hentry
    · intro _
      rfl
  unfold run
  generalize RecorderState.initial = s at hinitial
  induction inputs generalizing s with
  | nil => exact hinitial
  | cons input rest ih => exact ih _ (step_serviceInv hinitial input)

theorem mergeBatch_some {batch command merged : AppendCommand} (hbatch : Batch batch.event block)
    (h : mergeBatch batch command = some merged) :
    Batch merged.event (block ++ [command.event]) := by
  unfold mergeBatch at h
  cases hkey : StreamKey.of batch.event.event with
  | none => simp [hkey] at h
  | some key =>
    cases hnext : StreamKey.of command.event.event with
    | none => simp [hkey, hnext] at h
    | some next =>
      simp only [hkey, hnext] at h
      split at h
      · rename_i hfits
        rw [Option.some.injEq] at h
        subst h
        exact .extend hbatch hkey (hfits.1 ▸ hnext) hfits.2
      · cases h

theorem Clean.of_growth {failed : Prop} (h : Growth s next failed) (hclean : Clean next.log) :
    Clean s.log := by
  obtain ⟨new, hnew, -, -⟩ := h.log
  exact Clean.left (hnew ▸ hclean)

theorem stepAppend_clean (hinv : StreamInv s sub) (append : AppendCommand)
    (h : Clean (stepAppend env s append).log) :
    StreamInv (stepAppend env s append) (sub ++ [.event append.event]) := by
  unfold stepAppend at h ⊢
  cases hmerge : s.pending.bind (mergeBatch · append) with
  | some merged =>
    obtain ⟨batch, hpending, hmerged⟩ := Option.bind_eq_some_iff.mp hmerge
    obtain ⟨done, block, hsub, hdone, hblock⟩ := hinv.stream
    rw [hpending] at hblock
    simp only [replyTo_eq]
    refine ⟨hinv.healthy, hinv.running, done, block ++ [append.event], ?_, ?_, ?_⟩
    · rw [hsub, List.map_append, List.append_assoc]
      rfl
    · rwa [marks_append, marks_replyEntries, List.append_nil]
    · exact mergeBatch_some hblock hmerged
  | none =>
    simp only [hmerge] at h ⊢
    have hflush : Clean (flushStream env s).2.log := by
      cases hresult : flushStream env s with
      | mk failure mid =>
        simp only [hresult] at h
        cases failure with
        | some message =>
          simp only [reject_eq] at h
          exact h.left
        | none =>
          dsimp only at h
          split at h
          · simp only [replyTo_eq] at h
            exact h.left
          · have hmid := Clean.of_growth (recordAppend_growth env
              { mid with lastStream := StreamKey.of append.event.event } append) h
            exact hmid
    obtain ⟨mid, hresult, hmerged, hpending, hterminal, hstopped, hlast⟩ :=
      flushStream_clean hinv hflush
    simp only [hresult] at h ⊢
    split
    · simp only [replyTo_eq]
      refine ⟨hterminal, hstopped, sub, [append.event], rfl, ?_, .single _⟩
      rwa [marks_append, marks_replyEntries, List.append_nil]
    · rename_i hkey
      rw [if_neg hkey] at h
      obtain ⟨calls, sends, log, hrecord, hmarks⟩ := recordAppend_clean
        (s := { mid with lastStream := StreamKey.of append.event.event }) h
      rw [hrecord]
      refine ⟨rfl, by simp, sub ++ [.event append.event], [], by simp, ?_, ?_⟩
      · rw [hmarks]
        exact hmerged.snoc_batch (.single _)
      · simp only [hpending]

theorem stepBarrier_clean (hinv : StreamInv s sub) {command : RecorderCommand} {mark : Mark}
    (hmark : inputMark (.command command) = some mark) (hbarrier : ∀ a, command ≠ .append a)
    (h : Clean (stepBarrier env s command).log) :
    StreamInv (stepBarrier env s command) (sub ++ [mark]) := by
  unfold stepBarrier at h ⊢
  have hflush : Clean (flushStream env s).2.log := by
    cases hresult : flushStream env s with
    | mk failure mid =>
      simp only [hresult] at h
      cases failure with
      | some message =>
        have hreject := reject_eq mid command message
        dsimp only at h
        cases hcase : reject mid command message with
        | mk ended next =>
          rw [hcase] at hreject h
          dsimp only at hreject
          subst hreject
          cases ended <;> exact h.left
      | none =>
        cases command with
        | append a => exact absurd rfl (hbarrier a)
        | flush result => exact h.left
        | save save =>
          have hsave := recordSave_growth env { mid with lastStream := none } save
          dsimp only at h
          cases hcase : recordSave env { mid with lastStream := none } save with
          | mk continues next =>
            rw [hcase] at hsave h
            have hnext : Clean next.log := by cases continues <;> exact h
            have hmid := Clean.of_growth hsave hnext
            exact hmid
  obtain ⟨mid, hresult, hmerged, hpending, hterminal, hstopped, -⟩ :=
    flushStream_clean hinv hflush
  simp only [hresult] at h ⊢
  cases command with
  | append a => exact absurd rfl (hbarrier a)
  | flush result =>
    cases hmark
    refine ⟨rfl, hstopped, sub ++ [.flush result], [], by simp, ?_, ?_⟩
    · simp only [RecorderState.note, marks_append]
      exact hmerged.append (.flush result .nil)
    · simp only [RecorderState.note, hpending]
  | save save =>
    cases hmark
    dsimp only at h ⊢
    have hsave : Clean (recordSave env { mid with lastStream := none } save).2.log := by
      cases hcase : recordSave env { mid with lastStream := none } save with
      | mk continues next =>
        rw [hcase] at h
        cases continues <;> exact h
    obtain ⟨calls, sends, log, hrecord, hmarks⟩ := recordSave_clean hsave
    rw [hrecord]
    refine ⟨rfl, hstopped, sub ++ [.save save], [], by simp, ?_, ?_⟩
    · simp only [hmarks]
      exact hmerged.append (.save save .nil)
    · simp only [hpending]

theorem step_clean (hinv : StreamInv s sub) (input : Input) (h : Clean (step env s input).log) :
    StreamInv (step env s input) (sub ++ (inputMark input).toList) := by
  cases input with
  | timer =>
    simp only [step, hinv.running, Bool.false_eq_true, false_or] at h ⊢
    rw [show inputMark .timer = none from rfl, Option.toList_none, List.append_nil]
    split
    · exact hinv
    · rename_i hpending
      rw [if_neg hpending] at h
      obtain ⟨mid, hresult, hmerged, hmid, -, hstopped, -⟩ := flushStream_clean hinv h
      rw [hresult]
      exact ⟨rfl, hstopped, sub, [], by simp, hmerged, by simp only [hmid]⟩
  | command command =>
    simp only [step, hinv.running, hinv.healthy, Bool.false_eq_true, if_false] at h ⊢
    cases command with
    | append append => exact stepAppend_clean hinv append h
    | save save | flush result => exact stepBarrier_clean hinv rfl (by simp) h

theorem step_log (env : RecorderEnv) (hinv : ServiceInv s) (input : Input) :
    ∃ new, (step env s input).log = s.log ++ new := by
  by_cases hs : Out s
  · cases input with
    | timer => exact ⟨[], by simp [step, hinv.pending hs]⟩
    | command command =>
      obtain ⟨message, stopped, hstep, -⟩ := step_command_out env hs command
      exact ⟨_, by rw [hstep]⟩
  · have hhealthy : s.terminalError = none ∧ s.stopped = false := by
      simpa [Out] using hs
    cases input with
    | timer =>
      simp only [step, hhealthy.2, Bool.false_eq_true, false_or]
      split
      · exact ⟨[], by simp⟩
      · obtain ⟨new, hnew, -, -⟩ := (flushStream_growth env s).log
        exact ⟨new, hnew⟩
    | command command =>
      simp only [step, hhealthy.1, hhealthy.2, Bool.false_eq_true, if_false]
      cases command with
      | append append =>
        obtain ⟨new, hnew, -, -⟩ := (stepAppend_served env hs append).log
        exact ⟨new, hnew⟩
      | save save =>
        obtain ⟨new, hnew, -, -⟩ := (stepBarrier_served env s (.save save)).log
        exact ⟨new, hnew⟩
      | flush result =>
        obtain ⟨new, hnew, -, -⟩ := (stepBarrier_served env s (.flush result)).log
        exact ⟨new, hnew⟩

theorem run_clean (env : RecorderEnv) (inputs : List Input) (h : Clean (run env inputs).log) :
    StreamInv (run env inputs) (submitted inputs) := by
  induction inputs using List.reverseRecOn with
  | nil => exact ⟨rfl, rfl, [], [], rfl, .nil, rfl⟩
  | append_singleton inputs input ih =>
    have hrun : run env (inputs ++ [input]) = step env (run env inputs) input := by
      simp [run, List.foldl_append]
    rw [hrun] at h ⊢
    obtain ⟨new, hnew⟩ := step_log env (run_serviceInv env inputs) input
    have hinv := step_clean (ih (Clean.left (hnew ▸ h))) input h
    have hsub : submitted (inputs ++ [input]) =
        submitted inputs ++ (inputMark input).toList := by
      simp only [submitted, List.filterMap_append]
      cases hmark : inputMark input <;> simp [hmark]
    rwa [hsub]

/-- Every stored event is one that was submitted or a batch within the limit. -/
def WithinLimit (stored sub : List Mark) : Prop :=
  ∀ event, Mark.event event ∈ stored →
    Mark.event event ∈ sub ∨ (deltaText event.event).utf8ByteSize ≤ streamBatchBytes

theorem Merged.withinLimit (h : Merged stored sub) : WithinLimit stored sub := by
  induction h with
  | nil => intro event hevent; cases hevent
  | batch hbatch _ ih =>
    intro event hevent
    rcases List.mem_cons.mp hevent with heq | hrest
    · cases heq
      rcases hbatch.bytes with hblock | hbytes
      · exact .inl (by simp [hblock])
      · exact .inr hbytes
    · exact (ih event hrest).imp (List.mem_append_right _) id
  | save command _ ih | flush ticket _ ih =>
    intro event hevent
    rcases List.mem_cons.mp hevent with heq | hrest
    · cases heq
    · exact (ih event hrest).imp (List.mem_cons_of_mem _) id

theorem shutdown_clean {inputs : List Input} (h : Clean (shutdown env (run env inputs)).log) :
    Merged (marks (shutdown env (run env inputs)).log) (submitted inputs) := by
  have hstopped : Clean (run env inputs).log := by
    unfold shutdown at h
    split at h
    · exact h
    · have hmid := Clean.of_growth (flushStream_growth env (run env inputs)) h
      exact hmid
  have hinv := run_clean env inputs hstopped
  simp only [shutdown, hinv.running, Bool.false_eq_true, if_false] at h ⊢
  obtain ⟨mid, hresult, hmerged, -⟩ := flushStream_clean hinv h
  rwa [hresult]

theorem run_refuses {inputs : List Input} (h : Failure (run env inputs).log)
    (command : RecorderCommand) : ∃ message, (run env (inputs ++ [.command command])).log =
      (run env inputs).log ++ replyEntries command.ticket (.error message) := by
  have hout : Out (run env inputs) := (run_serviceInv env inputs).remembered h
  obtain ⟨message, stopped, hstep, -⟩ := step_command_out env hout command
  refine ⟨message, ?_⟩
  have hrun : run env (inputs ++ [.command command]) =
      step env (run env inputs) (.command command) := by
    simp [run, List.foldl_append]
  rw [hrun, hstep]

/-- The recorder's contract over any sequence of commands and timer firings.
While neither the store nor the frontend refuses anything, closing the
channel leaves exactly the submitted stream durable, up to joining adjacent
deltas of one stream within the byte limit; before that, every save or
acknowledged flush stands after everything submitted before it, and only the
pending batch is missing. After the store's first refusal nothing more is
stored and every command is answered by an error; and so it is after a record
that the frontend did not take, apart from the answer to the one who saved it. -/
theorem recorder_preserves_stream (env : RecorderEnv) (inputs : List Input) :
    (Clean (shutdown env (run env inputs)).log →
      Merged (marks (shutdown env (run env inputs)).log) (submitted inputs) ∧
      coalesce (marks (shutdown env (run env inputs)).log) = coalesce (submitted inputs) ∧
      WithinLimit (marks (shutdown env (run env inputs)).log) (submitted inputs)) ∧
    (Clean (run env inputs).log →
      (∃ done block, submitted inputs = done ++ block.map Mark.event ∧
        Merged (marks (run env inputs).log) done ∧
        match (run env inputs).pending with
        | none => block = []
        | some batch => Batch batch.event block) ∧
      ∀ before entry after mark, (run env inputs).log = before ++ entry :: after →
        entryMark entry = some mark → (∀ event, mark ≠ .event event) →
        ∃ earlier later, submitted inputs = earlier ++ mark :: later ∧
          Merged (marks before) earlier) ∧
    (∀ before error after, (run env inputs).log = before ++ .storeFailed error :: after →
      (∀ entry ∈ after, ErrorReply entry) ∧
      ∀ command, ∃ message, (run env (inputs ++ [.command command])).log =
        (run env inputs).log ++ replyEntries command.ticket (.error message)) ∧
    ∀ before event after, (run env inputs).log = before ++ .unpublished event :: after →
      (∀ entry ∈ after, Reply entry) ∧
      ∀ command, ∃ message, (run env (inputs ++ [.command command])).log =
        (run env inputs).log ++ replyEntries command.ticket (.error message) := by
  refine ⟨fun h => ?_, fun h => ⟨(run_clean env inputs h).stream, ?_⟩, ?_, ?_⟩
  · have hmerged := shutdown_clean h
    exact ⟨hmerged, hmerged.coalesce_eq, hmerged.withinLimit⟩
  · intro before entry after mark hlog hmark hbarrier
    obtain ⟨done, block, hsub, hmerged, -⟩ := (run_clean env inputs h).stream
    have hmarks : marks (run env inputs).log = marks before ++ mark :: marks after := by
      rw [hlog, marks_append]
      simp only [marks, List.filterMap_cons, hmark]
    rw [hmarks] at hmerged
    obtain ⟨earlier, later, hdone, hearlier, -⟩ := hmerged.split hbarrier
    refine ⟨earlier, later ++ block.map .event, ?_, hearlier⟩
    rw [hsub, hdone, List.append_assoc, List.cons_append]
  · intro before error after hlog
    exact ⟨FailTail.after (hlog ▸ (run_serviceInv env inputs).tail),
      run_refuses ⟨_, by rw [hlog]; exact List.mem_append_right _ List.mem_cons_self, rfl⟩⟩
  · intro before event after hlog
    exact ⟨FailTail.after_unpublished (hlog ▸ (run_serviceInv env inputs).tail),
      run_refuses ⟨_, by rw [hlog]; exact List.mem_append_right _ List.mem_cons_self, rfl⟩⟩

/-- A warning submitted by nobody in particular. -/
def plainWarning (message : String) : TimestampedEvent := ⟨0, ⟨none, .warning message⟩⟩

/-- A final-answer delta of one model step. -/
def plainDelta (text : String) : TimestampedEvent :=
  ⟨0, ⟨some "submission", .assistantContentDelta ⟨"session", "turn", "step", text, .finalAnswer⟩⟩⟩

/-- Three deltas of one step and a flush, with a store and a frontend that
take everything: the second and third delta are stored as one batch before
the flush is acknowledged. -/
theorem recorder_preserves_stream_deltas :
    let env : RecorderEnv := ⟨fun _ => .ok (), fun _ => true⟩
    let inputs : List Input := [.command (.append ⟨plainDelta "a", some 1⟩),
      .command (.append ⟨plainDelta "b", some 2⟩), .command (.append ⟨plainDelta "c", none⟩),
      .command (.flush 3)]
    Clean (shutdown env (run env inputs)).log ∧
      marks (shutdown env (run env inputs)).log =
        [.event (plainDelta "a"), .event (plainDelta "bc"), .flush 3] ∧
      Merged (marks (shutdown env (run env inputs)).log) (submitted inputs) := by
  intro env inputs
  have hclean : Clean (shutdown env (run env inputs)).log := by
    intro entry hentry
    simp only [show (shutdown env (run env inputs)).log =
      [.appended (plainDelta "a"), .published (plainDelta "a"), .replied 1 (.ok ()),
        .replied 2 (.ok ()), .appended (plainDelta "bc"), .published (plainDelta "bc"),
        .flushed 3] from by rfl, List.mem_cons, List.not_mem_nil, or_false] at hentry
    rcases hentry with h | h | h | h | h | h | h <;> rw [h] <;> rfl
  exact ⟨hclean, by rfl, ((recorder_preserves_stream env inputs).1 hclean).1⟩

/-- A frontend that is gone stops the recorder although the store takes
everything: the second event is never stored. -/
theorem recorder_stops_without_frontend :
    ¬∀ env inputs, (∀ n, env.store n = .ok ()) →
      Merged (marks (shutdown env (run env inputs)).log) (submitted inputs) := by
  intro h
  have hmerged := h ⟨fun _ => .ok (), fun _ => false⟩
    [.command (.append ⟨plainWarning "a", none⟩), .command (.append ⟨plainWarning "b", none⟩)]
    fun _ => rfl
  have hcoalesce := hmerged.coalesce_eq
  exact absurd (congrArg List.length hcoalesce) (by decide)

end MobiusAgent.RecorderStream
