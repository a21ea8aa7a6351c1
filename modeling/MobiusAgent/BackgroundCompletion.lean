import MobiusAgent.BackgroundCommands

/-!
# Output and completion of background commands

Once a poll has reported that a command runs, the task will see that its id is
held and tell the listener when it ends; a command that ends before its initial
wait is over tells nobody but that wait. What the polls report, one after the
other, is the text of the command exactly when no poll that finds the command
running cuts a character.
-/

namespace MobiusAgent.BackgroundCompletion

open LossyUtf8 BackgroundCommands
open ProtocolEvents (SessionId Error)

section Events

variable {events : List Event} {event : Event} {stream : CommandStream}

theorem emitted_snoc : emitted stream (events ++ [event]) =
    emitted stream events ++ event.bytes stream := by
  unfold emitted
  rw [List.flatMap_append, List.flatMap_singleton]

theorem replies_snoc : replies (events ++ [event]) = replies events ++ event.reply?.toList := by
  unfold replies
  rw [List.filterMap_append]
  cases hreply : event.reply? with
  | none => rw [List.filterMap_cons_none hreply, List.filterMap_nil, Option.toList_none]
  | some reply => rw [List.filterMap_cons_some hreply, List.filterMap_nil, Option.toList_some]

theorem notices_snoc : notices (events ++ [event]) =
    notices events + if event.isNotice then 1 else 0 := by
  unfold notices
  rw [List.countP_append, List.countP_singleton]

/-- A poll reported that the command runs. -/
def Reported (events : List Event) : Prop := ∃ reply ∈ replies events, reply.status = .running

/-- A poll or a stop reported how the command ended. -/
def Closed (events : List Event) : Prop := ∃ reply ∈ replies events, reply.status ≠ .running

def Cut (events : List Event) : Prop := ∃ reply ∈ replies events, reply.truncated = true

/-- The command was stopped. -/
def Stopped (events : List Event) : Prop := ∃ caller, .stopRequested caller ∈ events

/-- The initial wait returned how the command ended. -/
def EndedFirst (events : List Event) : Prop :=
  ∃ reply, .replied true reply ∈ events ∧ reply.status ≠ .running

theorem exists_reply_snoc {p : BackgroundCommandPoll → Prop} :
    (∃ reply ∈ replies (events ++ [event]), p reply) ↔
      (∃ reply ∈ replies events, p reply) ∨ ∃ reply, event.reply? = some reply ∧ p reply := by
  rw [replies_snoc]
  constructor
  · rintro ⟨reply, hreply, hp⟩
    rcases List.mem_append.mp hreply with hold | hnew
    · exact .inl ⟨reply, hold, hp⟩
    · exact .inr ⟨reply, Option.mem_toList.mp hnew, hp⟩
  · rintro (⟨reply, hold, hp⟩ | ⟨reply, hnew, hp⟩)
    · exact ⟨reply, List.mem_append_left _ hold, hp⟩
    · exact ⟨reply, List.mem_append_right _ (Option.mem_toList.mpr hnew), hp⟩

theorem reported_before (hnew : ∀ reply, event.reply? = some reply → reply.status ≠ .running)
    (h : Reported (events ++ [event])) : Reported events := by
  rcases exists_reply_snoc.mp h with hbefore | ⟨reply, hreply, hrunning⟩
  · exact hbefore
  · exact absurd hrunning (hnew reply hreply)

theorem reported_quiet (hnone : event.reply? = none) (h : Reported (events ++ [event])) :
    Reported events :=
  reported_before (fun reply hreply => by rw [hnone] at hreply; cases hreply) h

theorem finish_closed (output : BufferedOutput) (outcome : TaskOutcome) :
    (finish output outcome).status ≠ .running := by
  rcases outcome with (_ | _) | _ | _ <;> exact nofun

end Events

section Notices

variable {start c next : Command} {events : List Event} {event : Event}

/-- Whether the backend returned. -/
def hasReturned : Task → Bool
  | .finishing _ | .leaving _ | .over (.returned _) => true
  | _ => false

/-- Whether the listener was called if it had to be. -/
def hasTold : Task → Bool
  | .leaving _ | .over (.returned _) => true
  | _ => false

/-- What is told of a command, and to whom. -/
structure Told (events : List Event) (c : Command) : Prop where
  /-- The `FINISHED` bit says that the backend returned. -/
  finished : c.finished = hasReturned c.task
  notices : notices events = if hasTold c.task && (c.listening && c.noticed) then 1 else 0
  /-- Once a poll marked a running command, the task sees it. -/
  held : Reported events ∨ (∃ initial, c.place = .marked initial) →
    c.held = true ∧ (c.finished = true → c.noticed = true)
  /-- Only a stop, the end of the session or a cancelled wait aborts a task. -/
  aborted : c.aborted = true → Stopped events ∨ .shutdown ∈ events ∨
    (c.delivered = false ∧ c.place = .gone)
  cancelled : c.task = .over .cancelled → c.aborted = true

theorem finished_step (h : Step c event next) (hold : c.finished = hasReturned c.task) :
    next.finished = hasReturned next.task := by
  cases h with
  | finish task => rfl
  | notify task told | pass task told | leave task | panic task | cancel task told =>
    rw [task] at hold
    exact hold
  | _ => exact hold

theorem notices_step (h : Step c event next)
    (hold : notices events = if hasTold c.task && (c.listening && c.noticed) then 1 else 0) :
    notices (events ++ [event]) =
      if hasTold next.task && (next.listening && next.noticed) then 1 else 0 := by
  rw [notices_snoc, hold]
  cases h with
  | notify task told | pass task told =>
    rw [task]
    dsimp only
    rw [told]
    rfl
  | finish task | leave task | panic task | cancel task aborted =>
    rw [task]
    rfl
  | _ => rfl

theorem held_step (h : Step c event next)
    (hold : Reported events ∨ (∃ initial, c.place = .marked initial) →
      c.held = true ∧ (c.finished = true → c.noticed = true)) :
    Reported (events ++ [event]) ∨ (∃ initial, next.place = .marked initial) →
      next.held = true ∧ (next.finished = true → next.noticed = true) := by
  cases h with
  | output | notify | pass | leave | panic | cancel | refuse =>
    exact fun hcase => hold (hcase.imp_left (reported_quiet rfl))
  | finish task =>
    intro hcase
    obtain ⟨hheld, _⟩ := hold (hcase.imp_left (reported_quiet rfl))
    exact ⟨hheld, fun _ => hheld⟩
  | mark place =>
    intro hcase
    refine ⟨rfl, fun hfinished => ?_⟩
    change c.finished = true at hfinished
    change (_ ∨ ∃ initial, (if c.finished = true then _ else _) = _) at hcase
    rw [if_pos hfinished] at hcase
    rcases hcase with hreported | ⟨initial, hmarked⟩
    · exact (hold (.inl (reported_quiet rfl hreported))).2 hfinished
    · cases hmarked
  | running place => exact fun _ => hold (.inr ⟨_, place⟩)
  | collect | stopped =>
    rintro (hreported | ⟨initial, hmarked⟩)
    · refine hold (.inl (reported_before (fun reply hreply => ?_) hreported))
      rw [← Option.some.inj hreply]
      exact finish_closed _ _
    · cases hmarked
  | _ =>
    rintro (hreported | ⟨initial, hmarked⟩)
    · exact hold (.inl (reported_quiet rfl hreported))
    · cases hmarked

theorem aborted_step (h : Step c event next)
    (hold : c.aborted = true → Stopped events ∨ .shutdown ∈ events ∨
      (c.delivered = false ∧ c.place = .gone)) :
    next.aborted = true → Stopped (events ++ [event]) ∨ .shutdown ∈ events ++ [event] ∨
      (next.delivered = false ∧ next.place = .gone) := by
  have hlast : event ∈ events ++ [event] := List.mem_append_right _ List.mem_cons_self
  have hbefore : c.aborted = true →
      (c.delivered = false ∧ c.place = .gone → next.delivered = false ∧ next.place = .gone) →
      Stopped (events ++ [event]) ∨ .shutdown ∈ events ++ [event] ∨
        (next.delivered = false ∧ next.place = .gone) := by
    intro haborted hgone
    rcases hold haborted with ⟨caller, hstop⟩ | hshutdown | hdropped
    · exact .inl ⟨caller, List.mem_append_left _ hstop⟩
    · exact .inr (.inl (List.mem_append_left _ hshutdown))
    · exact .inr (.inr (hgone hdropped))
  cases h with
  | stop place known => exact fun _ => .inl ⟨_, hlast⟩
  | shutdown place => exact fun _ => .inr (.inl hlast)
  | drop place waits => exact fun _ => .inr (.inr ⟨waits, rfl⟩)
  | look place | find place | mark place | running place | collect place =>
    refine fun haborted => hbefore haborted fun hgone => ?_
    rw [place] at hgone
    cases hgone.2
  | stopped | abandonPoll | abandonStop | evict =>
    exact fun haborted => hbefore haborted fun hgone => ⟨hgone.1, rfl⟩
  | _ => exact fun haborted => hbefore haborted id

theorem cancelled_step (h : Step c event next) (hold : c.task = .over .cancelled → c.aborted = true) :
    next.task = .over .cancelled → next.aborted = true := by
  cases h with
  | finish | notify | pass | leave | panic => exact nofun
  | cancel task aborted => exact fun _ => aborted
  | stop | shutdown | drop => exact fun _ => rfl
  | _ => exact hold

theorem told {id : String} {owner : SessionId} {text : String} {listening : Bool}
    (h : Run (.start id owner text listening) events c) : Told events c := by
  induction h with
  | nil =>
    refine ⟨rfl, rfl, ?_, nofun, nofun⟩
    rintro (⟨reply, hreply, _⟩ | ⟨initial, hmarked⟩)
    · cases hreply
    · cases hmarked
  | step before step ih =>
    exact ⟨finished_step step ih.finished, notices_step step ih.notices, held_step step ih.held,
      aborted_step step ih.aborted, cancelled_step step ih.cancelled⟩

end Notices

section Delivery

variable {c next : Command} {events : List Event} {event : Event}

/-- The poll that works on an entry: the initial one or not. -/
def pollOf : Place → Option Bool
  | .looked initial | .marked initial | .collecting initial => some initial
  | _ => none

/-- Until the initial wait is over, the id is held by its poll only. -/
def Waits (c : Command) : Prop :=
  c.delivered = false → (∃ initial, c.place = .marked initial) ∨
    (c.noticed = false ∧ (c.held = true → c.finished = true))

/-- Who knows of a command. -/
structure Delivery (events : List Event) (c : Command) : Prop where
  polling : ∀ initial, pollOf c.place = some initial → initial = !c.delivered
  waiting : Waits c
  reported : Reported events → c.delivered = true
  collected : EndedFirst events → c.noticed = false ∧ c.task.isFinished = true

theorem polling_step (h : Step c event next)
    (hold : ∀ initial, pollOf c.place = some initial → initial = !c.delivered) :
    ∀ initial, pollOf next.place = some initial → initial = !next.delivered := by
  cases h with
  | look | find => exact fun initial hinitial => (Option.some.inj hinitial).symm
  | mark place =>
    intro initial hinitial
    refine hold initial ?_
    rw [place]
    change pollOf (if c.finished = true then _ else _) = some initial at hinitial
    split_ifs at hinitial <;> exact hinitial
  | running | collect | stop | stopped | shutdown | drop | abandonPoll | abandonStop | evict =>
    exact nofun
  | _ => exact hold

theorem delivered_poll (h : ∀ initial, pollOf c.place = some initial → initial = !c.delivered)
    {initial : Bool} (hpoll : pollOf c.place = some initial) : (c.delivered || initial) = true := by
  rw [h initial hpoll]
  exact Bool.or_not_self _

theorem waiting_step (h : Step c event next) (hfinished : c.finished = hasReturned c.task)
    (hpolling : ∀ initial, pollOf c.place = some initial → initial = !c.delivered)
    (hold : Waits c) : Waits next := by
  have hunmarked : (∀ initial, c.place ≠ .marked initial) → c.delivered = false →
      c.noticed = false ∧ (c.held = true → c.finished = true) := by
    intro hplace hwaits
    refine (hold hwaits).resolve_left ?_
    rintro ⟨initial, hmarked⟩
    exact hplace initial hmarked
  cases h with
  | finish task =>
    intro hwaits
    rcases hold hwaits with hmarked | ⟨_, hheld⟩
    · exact .inl hmarked
    · refine .inr ⟨Bool.eq_false_iff.mpr fun hsome => ?_, fun _ => rfl⟩
      rw [hfinished, task] at hheld
      exact nomatch hheld hsome
  | mark place =>
    intro hwaits
    have hquiet := hunmarked (by rw [place]; exact nofun) hwaits
    change (∃ initial, (if c.finished = true then _ else _) = _) ∨ _
    by_cases hdone : c.finished = true
    · exact .inr ⟨hquiet.1, fun _ => hdone⟩
    · rw [if_neg hdone]
      exact .inl ⟨_, rfl⟩
  | running place | collect place =>
    intro hwaits
    exact absurd ((delivered_poll hpolling (by rw [place]; rfl)).symm.trans hwaits) nofun
  | look place | find place | stop place | stopped place | shutdown place | drop place
  | abandonPoll place | abandonStop place | evict place =>
    exact fun hwaits => .inr (hunmarked (by rw [place]; exact nofun) hwaits)
  | _ => exact hold

theorem delivered_step (h : Step c event next)
    (hpolling : ∀ initial, pollOf c.place = some initial → initial = !c.delivered)
    (hold : Reported events → c.delivered = true) :
    Reported (events ++ [event]) → next.delivered = true := by
  cases h with
  | running place | collect place => exact fun _ => delivered_poll hpolling (by rw [place]; rfl)
  | stopped place task =>
    refine fun hreported => hold (reported_before (fun reply hreply => ?_) hreported)
    rw [← Option.some.inj hreply]
    exact finish_closed _ _
  | _ => exact fun hreported => hold (reported_quiet rfl hreported)

theorem collected_step (h : Step c event next)
    (hpolling : ∀ initial, pollOf c.place = some initial → initial = !c.delivered)
    (hwaiting : Waits c)
    (hold : EndedFirst events → c.noticed = false ∧ c.task.isFinished = true) :
    EndedFirst (events ++ [event]) → next.noticed = false ∧ next.task.isFinished = true := by
  rintro ⟨reply, hreply, hstatus⟩
  have hbefore : event ≠ .replied true reply → c.noticed = false ∧ c.task.isFinished = true := by
    intro hother
    rcases List.mem_append.mp hreply with hmember | hnew
    · exact hold ⟨reply, hmember, hstatus⟩
    · exact absurd (List.mem_singleton.mp hnew).symm hother
  cases h with
  | finish task | notify task | pass task | leave task | panic task | cancel task =>
    have hover := (hbefore nofun).2
    rw [task] at hover
    cases hover
  | running place =>
    refine hbefore fun hsame => ?_
    have hreplied := (Event.replied.inj hsame).2
    rw [← hreplied] at hstatus
    exact hstatus rfl
  | collect place task =>
    rename_i initial outcome
    refine ⟨?_, by rw [task]; rfl⟩
    cases initial with
    | false => exact (hbefore (fun hsame => nomatch (Event.replied.inj hsame).1)).1
    | true =>
      have hdelivered : c.delivered = false := by
        simpa using (hpolling true (by rw [place]; rfl)).symm
      rcases hwaiting hdelivered with ⟨other, hmarked⟩ | ⟨hnoticed, _⟩
      · rw [place] at hmarked
        cases hmarked
      · exact hnoticed
  | _ => exact hbefore nofun

theorem delivery {id : String} {owner : SessionId} {text : String} {listening : Bool}
    (h : Run (.start id owner text listening) events c) : Delivery events c := by
  induction h with
  | nil =>
    refine ⟨nofun, fun _ => .inr ⟨rfl, nofun⟩, ?_, ?_⟩
    · rintro ⟨reply, hreply, _⟩
      cases hreply
    · rintro ⟨reply, hreply, _⟩
      cases hreply
  | step before step ih =>
    exact ⟨polling_step step ih.polling,
      waiting_step step (told before).finished ih.polling ih.waiting,
      delivered_step step ih.polling ih.reported,
      collected_step step ih.polling ih.waiting ih.collected⟩

end Delivery

section Text

variable {c next : Command} {events : List Event} {event : Event} {stream : CommandStream}

def backendText (stream : CommandStream) : Task → String
  | .over (.returned (.ok command)) =>
    match stream with
    | .stdout => command.stdout
    | .stderr => command.stderr
  | _ => ""

/-- Whether a command wrote anything. -/
def Wrote (events : List Event) : Prop := emitted .stdout events ≠ [] ∨ emitted .stderr events ≠ []

theorem emitted_quiet (h : ∀ stream, event.bytes stream = []) (stream : CommandStream) :
    emitted stream (events ++ [event]) = emitted stream events := by
  rw [emitted_snoc, h, List.append_nil]

theorem wrote_quiet (h : ∀ stream, event.bytes stream = []) :
    Wrote (events ++ [event]) ↔ Wrote events := by
  unfold Wrote
  rw [emitted_quiet h, emitted_quiet h]

theorem push_of {output : BufferedOutput} {target : CommandStream} {bytes : List UInt8}
    (h : (output.push target bytes).truncated = false) (stream : CommandStream) :
    output.truncated = false ∧ (output.push target bytes).of stream =
      output.of stream ++ (Event.output target bytes).bytes stream := by
  change (output.truncated || !(bytes.drop (min bytes.length
    (maxPollOutputBytes - (output.stdout.length + output.stderr.length)))).isEmpty) = false at h
  obtain ⟨htruncated, hdropped⟩ := Bool.or_eq_false_iff.mp h
  have hnone : bytes.drop (min bytes.length
      (maxPollOutputBytes - (output.stdout.length + output.stderr.length))) = [] := by
    simpa using hdropped
  have hkept : bytes.take (min bytes.length
      (maxPollOutputBytes - (output.stdout.length + output.stderr.length))) = bytes :=
    List.take_of_length_le (List.drop_eq_nil_iff.mp hnone)
  refine ⟨htruncated, ?_⟩
  cases target with
  | stdout =>
    cases stream with
    | stdout =>
      change output.stdout ++ bytes.take _ = output.stdout ++ bytes
      rw [hkept]
    | stderr => exact (List.append_nil _).symm
  | stderr =>
    cases stream with
    | stdout => exact (List.append_nil _).symm
    | stderr =>
      change output.stderr ++ bytes.take _ = output.stderr ++ bytes
      rw [hkept]

theorem finish_text {output : BufferedOutput} (h : output.sawOutput = true) (outcome : TaskOutcome)
    (stream : CommandStream) :
    (finish output outcome).text stream = fromUtf8Lossy (output.of stream) := by
  cases outcome with
  | returned result =>
    cases result with
    | error error => cases stream <;> rfl
    | ok command =>
      cases stream with
      | stdout => exact if_pos h
      | stderr => exact if_pos h
  | panicked => cases stream <;> rfl
  | cancelled => cases stream <;> rfl

theorem finish_backend {output : BufferedOutput} (h : output.sawOutput = false)
    {stream : CommandStream} (hnone : output.of stream = []) (outcome : TaskOutcome) :
    (finish output outcome).text stream = backendText stream (.over outcome) := by
  have hempty : fromUtf8Lossy (output.of stream) = "" := by
    rw [hnone]
    rfl
  have hsaw : output.sawOutput ≠ true := by
    rw [h]
    nofun
  cases outcome with
  | returned result =>
    cases result with
    | error error => cases stream <;> exact hempty
    | ok command =>
      cases stream with
      | stdout => exact if_neg hsaw
      | stderr => exact if_neg hsaw
  | panicked => cases stream <;> exact hempty
  | cancelled => cases stream <;> exact hempty

theorem finish_truncated {output : BufferedOutput} {outcome : TaskOutcome}
    (h : (finish output outcome).truncated = false) : output.truncated = false := by
  cases outcome with
  | returned result =>
    cases result with
    | error error => exact (Bool.or_eq_false_iff.mp h).1
    | ok command => exact h
  | panicked => exact h
  | cancelled => exact h

theorem replyText_snoc {stream : CommandStream} :
    replyText stream (events ++ [event]) =
      replyText stream events ++ String.join (event.reply?.toList.map (·.text stream)) := by
  unfold replyText
  rw [replies_snoc, List.map_append, String.join_append]

/-- Whenever a poll reports that the command runs, what it wrote to the stream so far ends where a
character ends. -/
def Bounded (stream : CommandStream) (events : List Event) : Prop :=
  ∀ before after initial reply, events = before ++ .replied initial reply :: after →
    reply.status = .running → Whole (emitted stream before)

theorem bounded_snoc : Bounded stream (events ++ [event]) ↔ Bounded stream events ∧
    ∀ initial reply, event = .replied initial reply → reply.status = .running →
      Whole (emitted stream events) := by
  constructor
  · intro h
    constructor
    · intro before after initial reply hsplit hrunning
      refine h before (after ++ [event]) initial reply ?_ hrunning
      rw [hsplit, List.append_assoc, List.cons_append]
    · rintro initial reply rfl hrunning
      exact h events [] initial reply rfl hrunning
  · rintro ⟨hold, hnew⟩ before after initial reply hsplit hrunning
    rcases List.eq_nil_or_concat after with rfl | ⟨init, last, rfl⟩
    · obtain ⟨rfl, hevent⟩ := List.append_inj' hsplit rfl
      exact hnew initial reply (List.cons.inj hevent).1 hrunning
    · rw [List.concat_eq_append, ← List.cons_append, ← List.append_assoc] at hsplit
      exact hold before init initial reply (List.append_inj' hsplit rfl).1 hrunning

/-- What was reported of a stream is what was read piece by piece, up to the rest; the pieces are
cut where a poll found the command running. -/
def Pieces (stream : CommandStream) (events : List Event) (rest : List UInt8) : Prop :=
  ∃ pieces : List (List UInt8), emitted stream events = pieces.flatten ++ rest ∧
    replyText stream events = String.ofList (pieces.flatMap decodeLossy) ∧
    (Bounded stream events ↔ ∀ piece ∈ pieces, Whole piece)

theorem Pieces.quiet {rest : List UInt8} (h : Pieces stream events rest)
    (hreply : event.reply? = none) : Pieces stream (events ++ [event]) (rest ++ event.bytes stream) := by
  obtain ⟨pieces, hemitted, htext, hbounded⟩ := h
  refine ⟨pieces, ?_, ?_, ?_⟩
  · rw [emitted_snoc, hemitted, List.append_assoc]
  · rw [replyText_snoc, hreply, htext]
    exact String.append_empty
  · rw [bounded_snoc, ← hbounded]
    refine and_iff_left ?_
    rintro initial reply rfl
    cases hreply

theorem Pieces.taken {rest : List UInt8} (h : Pieces stream events rest) {initial : Bool}
    {reply : BackgroundCommandPoll} (hrunning : reply.status = .running)
    (htext : reply.text stream = fromUtf8Lossy rest) :
    Pieces stream (events ++ [.replied initial reply]) [] := by
  obtain ⟨pieces, hemitted, hbefore, hbounded⟩ := h
  refine ⟨pieces ++ [rest], ?_, ?_, ?_⟩
  · rw [emitted_snoc, hemitted, List.flatten_append, List.flatten_singleton]
    rfl
  · rw [replyText_snoc, hbefore, List.flatMap_append, List.flatMap_singleton, String.ofList_append]
    change _ ++ ("" ++ reply.text stream) = _
    rw [htext, String.empty_append]
    rfl
  · rw [bounded_snoc, hbounded, List.forall_mem_append, List.forall_mem_singleton]
    refine and_congr_right fun hpieces => ?_
    have hread : Whole pieces.flatten := ⟨_, (flatMap_decodeLossy hpieces).symm⟩
    rw [hemitted]
    constructor
    · exact fun hwhole => hread.cancel (hwhole initial reply rfl hrunning)
    · exact fun hrest _ _ _ _ => hread.append hrest

theorem Pieces.read {rest : List UInt8} (h : Pieces stream events rest)
    {reply : BackgroundCommandPoll} (hreply : event.reply? = some reply)
    (hclosed : reply.status ≠ .running) (htext : reply.text stream = fromUtf8Lossy rest)
    (hbytes : event.bytes stream = []) {text : List Char}
    (hwhole : emitted stream (events ++ [event]) = encode text) :
    replyText stream (events ++ [event]) = String.ofList text ↔
      Bounded stream (events ++ [event]) := by
  obtain ⟨pieces, hemitted, hbefore, hbounded⟩ := h
  rw [emitted_snoc, hbytes, List.append_nil, hemitted] at hwhole
  have hall : (pieces ++ [rest]).flatten = encode text := by
    rw [List.flatten_append, List.flatten_singleton, hwhole]
  have hexact := pieces_exact hall
  have hread : replyText stream (events ++ [event]) =
      String.ofList ((pieces ++ [rest]).flatMap decodeLossy) := by
    rw [replyText_snoc, hbefore, List.flatMap_append, List.flatMap_singleton, String.ofList_append,
      hreply]
    change _ ++ ("" ++ reply.text stream) = _
    rw [htext, String.empty_append]
    rfl
  have hcuts : Bounded stream (events ++ [event]) ↔ ∀ piece ∈ pieces, Whole piece := by
    rw [bounded_snoc, ← hbounded]
    refine and_iff_left ?_
    rintro initial other rfl hrunning
    rw [← Option.some.inj hreply] at hclosed
    exact absurd hrunning hclosed
  rw [hread, String.ofList_inj, hexact, hcuts, List.forall_mem_append, List.forall_mem_singleton]
  refine and_iff_left_of_imp fun hpieces => ?_
  exact Whole.cancel ⟨_, (flatMap_decodeLossy hpieces).symm⟩ ⟨text, hwhole⟩

/-- What became of the output of a command. -/
structure Flow (events : List Event) (c : Command) : Prop where
  seen : c.output.sawOutput = true ↔ Wrote events
  kept : ¬Closed events → ¬Cut events → c.output.truncated = false → ∀ stream,
    Pieces stream events (c.output.of stream)
  closed : Closed events → c.place = .gone ∧ c.task.isFinished = true
  spoken : Closed events → ¬Cut events → Wrote events → ∀ stream text,
    emitted stream events = encode text →
      (replyText stream events = String.ofList text ↔ Bounded stream events)
  /-- The reply of a command that wrote nothing is what its backend returned. -/
  silent : Closed events → ¬Cut events → ¬Wrote events → ∀ stream,
    replyText stream events = backendText stream c.task

theorem Flow.same (h : Flow events c) (hreply : event.reply? = none)
    (hbytes : ∀ stream, event.bytes stream = []) (houtput : next.output = c.output)
    (hplace : c.place = .gone → next.place = .gone)
    (htask : c.task.isFinished = true → next.task = c.task) : Flow (events ++ [event]) next := by
  have hreplies : replies (events ++ [event]) = replies events := by
    rw [replies_snoc, hreply, Option.toList_none, List.append_nil]
  have htext : ∀ stream, replyText stream (events ++ [event]) = replyText stream events := by
    intro stream
    unfold replyText
    rw [hreplies]
  have hbounded : ∀ stream, Bounded stream (events ++ [event]) ↔ Bounded stream events := by
    intro stream
    rw [bounded_snoc]
    refine and_iff_left ?_
    rintro initial reply rfl
    cases hreply
  have hclosed : Closed (events ++ [event]) ↔ Closed events := by
    unfold Closed
    rw [hreplies]
  have hcut : Cut (events ++ [event]) ↔ Cut events := by
    unfold Cut
    rw [hreplies]
  constructor
  · rw [houtput, wrote_quiet hbytes]
    exact h.seen
  · rw [hclosed, hcut, houtput]
    intro hopen hwhole hkept stream
    have hpieces := (h.kept hopen hwhole hkept stream).quiet hreply
    rwa [hbytes, List.append_nil] at hpieces
  · rw [hclosed]
    intro hold
    obtain ⟨hgone, hfinished⟩ := h.closed hold
    refine ⟨hplace hgone, ?_⟩
    rw [htask hfinished]
    exact hfinished
  · rw [hclosed, hcut, wrote_quiet hbytes]
    intro hold hwhole hsome stream text
    rw [emitted_quiet hbytes, htext, hbounded]
    exact h.spoken hold hwhole hsome stream text
  · rw [hclosed, hcut, wrote_quiet hbytes]
    intro hold hwhole hnone stream
    rw [htext, htask (h.closed hold).2]
    exact h.silent hold hwhole hnone stream

theorem Flow.output (h : Flow events c) (htask : c.task = .executing) (target : CommandStream)
    (bytes : List UInt8) :
    Flow (events ++ [.output target bytes]) { c with output := c.output.push target bytes } := by
  have hreplies : replies (events ++ [.output target bytes]) = replies events := by
    rw [replies_snoc]
    exact List.append_nil _
  have hopen : ¬Closed events := by
    intro hclosed
    have hfinished := (h.closed hclosed).2
    rw [htask] at hfinished
    cases hfinished
  have hclosed : ¬Closed (events ++ [.output target bytes]) := by
    unfold Closed
    rw [hreplies]
    exact hopen
  constructor
  · change (c.output.sawOutput || !bytes.isEmpty) = true ↔ _
    rw [Bool.or_eq_true, h.seen]
    unfold Wrote
    rw [emitted_snoc, emitted_snoc]
    cases target <;> cases bytes <;> simp [Event.bytes]
  · intro _ hwhole hkept stream
    obtain ⟨hbefore, hof⟩ := push_of hkept stream
    have hcut : ¬Cut events := by
      unfold Cut at hwhole
      rwa [hreplies] at hwhole
    have hpieces := @Pieces.quiet _ (.output target bytes) _ _ (h.kept hopen hcut hbefore stream) rfl
    rwa [← hof] at hpieces
  · exact fun hsome => absurd hsome hclosed
  · exact fun hsome => absurd hsome hclosed
  · exact fun hsome => absurd hsome hclosed

theorem Flow.running (h : Flow events c) {initial : Bool} (hplace : c.place = .marked initial) :
    Flow (events ++ [.replied initial (pollRunning c.id c.output)]) { c with
      output := c.output.taken
      place := .listed
      delivered := c.delivered || initial } := by
  have hopen : ¬Closed events := by
    intro hclosed
    have hgone := (h.closed hclosed).1
    rw [hplace] at hgone
    cases hgone
  have hclosed : ¬Closed (events ++ [.replied initial (pollRunning c.id c.output)]) := by
    intro hsome
    rcases exists_reply_snoc.mp hsome with hold | ⟨reply, hreply, hstatus⟩
    · exact hopen hold
    · rw [← Option.some.inj hreply] at hstatus
      exact hstatus rfl
  constructor
  · rw [wrote_quiet fun _ => rfl]
    exact h.seen
  · intro _ hwhole _ stream
    have hcut : ¬Cut events := fun hold => hwhole (exists_reply_snoc.mpr (.inl hold))
    have hkept : c.output.truncated = false := by
      refine Bool.eq_false_iff.mpr fun htruncated => hwhole ?_
      exact exists_reply_snoc.mpr (.inr ⟨_, rfl, htruncated⟩)
    have htaken : (c.output.taken).of stream = [] := by cases stream <;> rfl
    change Pieces stream _ ((c.output.taken).of stream)
    rw [htaken]
    refine (h.kept hopen hcut hkept stream).taken rfl ?_
    cases stream <;> rfl
  · exact fun hsome => absurd hsome hclosed
  · exact fun hsome => absurd hsome hclosed
  · exact fun hsome => absurd hsome hclosed

theorem Flow.ends (h : Flow events c) {outcome : TaskOutcome} (htask : c.task = .over outcome)
    (hplace : c.place ≠ .gone) (hreply : event.reply? = some (finish c.output outcome))
    (hbytes : ∀ stream, event.bytes stream = []) (houtput : next.output = c.output.taken)
    (hgone : next.place = .gone) (hsame : next.task = c.task) : Flow (events ++ [event]) next := by
  have hopen : ¬Closed events := fun hclosed => hplace (h.closed hclosed).1
  have hclosed : Closed (events ++ [event]) :=
    exists_reply_snoc.mpr (.inr ⟨_, hreply, finish_closed _ _⟩)
  have hpieces : ¬Cut (events ++ [event]) → ∀ stream, Pieces stream events (c.output.of stream) := by
    intro hwhole
    refine h.kept hopen (fun hold => hwhole (exists_reply_snoc.mpr (.inl hold))) ?_
    refine @finish_truncated _ outcome (Bool.eq_false_iff.mpr fun htruncated => ?_)
    exact hwhole (exists_reply_snoc.mpr (.inr ⟨_, hreply, htruncated⟩))
  constructor
  · rw [houtput, wrote_quiet hbytes]
    exact h.seen
  · exact fun hnone => absurd hclosed hnone
  · intro _
    refine ⟨hgone, ?_⟩
    rw [hsame, htask]
    rfl
  · rw [wrote_quiet hbytes]
    intro _ hwhole hsome stream text htext
    refine (hpieces hwhole stream).read hreply (finish_closed _ _) ?_ (hbytes stream) htext
    exact finish_text (h.seen.mpr hsome) outcome stream
  · rw [wrote_quiet hbytes]
    intro _ hwhole hnone stream
    obtain ⟨pieces, hparts, hbefore, _⟩ := hpieces hwhole stream
    have hempty : pieces.flatten ++ c.output.of stream = [] := by
      rw [← hparts]
      by_contra hsome
      refine hnone ?_
      cases stream with
      | stdout => exact .inl hsome
      | stderr => exact .inr hsome
    obtain ⟨hno, hof⟩ := List.append_eq_nil_iff.mp hempty
    have hread : pieces.flatMap decodeLossy = [] := by
      refine List.flatMap_eq_nil_iff.mpr fun piece hpiece => ?_
      rw [List.flatten_eq_nil_iff.mp hno piece hpiece]
      rfl
    have hsaw : c.output.sawOutput = false :=
      Bool.eq_false_iff.mpr fun hsaw => hnone (h.seen.mp hsaw)
    rw [replyText_snoc, hbefore, hread, hreply, hsame, htask, ← finish_backend hsaw hof outcome]
    change "" ++ ("" ++ _) = _
    rw [String.empty_append, String.empty_append]

theorem Flow.step (h : Flow events c) (hstep : Step c event next) :
    Flow (events ++ [event]) next := by
  have hgoes : c.task.isFinished = false → c.task.isFinished = true → next.task = c.task := by
    intro hunfinished hfinished
    rw [hunfinished] at hfinished
    cases hfinished
  have hlisted : ∀ {place : Place}, c.place = place → place ≠ .gone → c.place = .gone →
      next.place = .gone := by
    intro place hplace hsome hgone
    exact absurd (hplace.symm.trans hgone) hsome
  cases hstep with
  | output task => exact h.output task _ _
  | running place => exact h.running place
  | collect place task | stopped place task =>
    exact h.ends task (by rw [place]; exact nofun) rfl (fun _ => rfl) rfl rfl rfl
  | finish task | notify task | pass task | leave task | panic task | cancel task =>
    exact h.same rfl (fun _ => rfl) rfl id (hgoes (by rw [task]; rfl))
  | look place | find place | mark place | stop place =>
    exact h.same rfl (fun _ => rfl) rfl (hlisted place nofun) fun _ => rfl
  | refuse => exact h.same rfl (fun _ => rfl) rfl id fun _ => rfl
  | _ => exact h.same rfl (fun _ => rfl) rfl (fun _ => rfl) fun _ => rfl

theorem flow {id : String} {owner : SessionId} {text : String} {listening : Bool}
    (h : Run (.start id owner text listening) events c) : Flow events c := by
  induction h with
  | nil =>
    have hopen : ¬Closed [] := by
      rintro ⟨reply, hreply, _⟩
      cases hreply
    refine ⟨⟨nofun, ?_⟩, fun _ _ _ stream => ⟨[], ?_, rfl, ?_⟩, fun h => absurd h hopen,
      fun h => absurd h hopen, fun h => absurd h hopen⟩
    · rintro (hsome | hsome)
      · exact absurd rfl hsome
      · exact absurd rfl hsome
    · cases stream <;> rfl
    · refine iff_of_true ?_ nofun
      intro before after initial reply hsplit
      cases before <;> cases hsplit
  | step before step ih => exact ih.step step

end Text

section Calls

variable {start c next : Command} {events : List Event} {event : Event}

/-- The session that made a call. -/
def Event.caller? : Event → Option SessionId
  | .polled caller _ | .stopRequested caller | .refused caller _ => some caller
  | _ => none

theorem step_owned (h : Step c event next) : (next.owner = c.owner ∧ next.id = c.id) ∧
    ∀ caller, Event.caller? event = some caller → caller ≠ c.owner →
      event = .refused caller (unknown c.id) := by
  have howner : ∀ {caller : SessionId}, lookUp (some c) caller c.id = .ok () →
      caller = c.owner := by
    intro caller hknown
    by_contra hother
    change (if c.owner ≠ caller then _ else _) = _ at hknown
    rw [if_pos (Ne.symm hother)] at hknown
    cases hknown
  refine ⟨by cases h <;> exact ⟨rfl, rfl⟩, ?_⟩
  intro caller hcaller hother
  cases h with
  | look place known | find place known | stop place known =>
    rw [Option.some.inj hcaller] at known
    exact absurd (howner known) hother
  | refuse refused =>
    rw [Option.some.inj hcaller] at refused ⊢
    cases hlisted : c.isListed with
    | true =>
      rw [hlisted, if_pos rfl] at refused
      change (if c.owner ≠ caller then _ else _) = _ at refused
      rw [if_pos (Ne.symm hother)] at refused
      rw [Except.error.inj refused]
    | false =>
      rw [hlisted] at refused
      rw [← Except.error.inj refused]
  | _ => cases hcaller

theorem owned (h : Run start events c) : (c.owner = start.owner ∧ c.id = start.id) ∧
    ∀ caller, caller ≠ start.owner → ∀ event ∈ events, Event.caller? event = some caller →
      event = .refused caller (unknown start.id) := by
  induction h with
  | nil => exact ⟨⟨rfl, rfl⟩, fun _ _ => nofun⟩
  | step before step ih =>
    obtain ⟨⟨howner, hid⟩, hcalls⟩ := ih
    obtain ⟨⟨hnextOwner, hnextId⟩, hnew⟩ := step_owned step
    refine ⟨⟨hnextOwner.trans howner, hnextId.trans hid⟩, ?_⟩
    intro caller hother event hevent hcaller
    rcases List.mem_append.mp hevent with hold | hlast
    · exact hcalls caller hother event hold hcaller
    · rw [List.mem_singleton.mp hlast] at hcaller ⊢
      rw [← hid]
      exact hnew caller hcaller (howner ▸ hother)

end Calls

/-- What the owner of a command relies on. A backend that panics never completes. -/
structure Kept (events : List Event) (c : Command) : Prop where
  /-- The completion of a command that was reported as running is told once. -/
  announced : Reported events → c.listening = true → ¬Stopped events → .shutdown ∉ events →
    ∀ outcome, c.task = .over outcome → outcome ≠ .panicked → notices events = 1
  once : notices events ≤ 1
  /-- A completion that the initial wait returned is not told. -/
  first : EndedFirst events → notices events = 0
  owned : ∀ caller, caller ≠ c.owner → ∀ event ∈ events, Event.caller? event = some caller →
    event = .refused caller (unknown c.id)
  /-- The replies of a command that wrote a text are the text, unless one was cut. -/
  spoken : Closed events → ¬Cut events → Wrote events → ∀ stream text,
    emitted stream events = encode text → replyText stream events = String.ofList text
  /-- The reply of a command that wrote nothing is what its backend returned. -/
  silent : Closed events → ¬Cut events → ¬Wrote events → ∀ stream,
    replyText stream events = backendText stream c.task

/-- Whenever a poll reports that the command runs, what it wrote so far to a stream that is a text
ends where a character ends; this concerns commands that end without a cut reply. -/
def Unbroken (events : List Event) : Prop :=
  Closed events → ¬Cut events → Wrote events → ∀ stream, Whole (emitted stream events) →
    Bounded stream events

/-- Output and completion of a background command are kept in every run, exactly as long as no poll
that reports a running command cuts a character of its output. The notice of a task that panicked is
not promised, and commands that `start` refuses at its limit are not in a run. -/
theorem output_and_completion_kept {id : String} {owner : SessionId} {text : String}
    {listening : Bool} {events : List Event} {c : Command}
    (h : Run (.start id owner text listening) events c) : Kept events c ↔ Unbroken events := by
  have htold := told h
  have hdelivery := delivery h
  have hflow := flow h
  constructor
  · intro hkept hclosed hwhole hsome stream htext
    obtain ⟨all, hall⟩ := htext
    exact (hflow.spoken hclosed hwhole hsome stream all hall).mp
      (hkept.spoken hclosed hwhole hsome stream all hall)
  · intro hunbroken
    constructor
    · intro hreported hlistening hstopped hshutdown outcome htask hpanicked
      cases outcome with
      | panicked => exact absurd rfl hpanicked
      | cancelled =>
        rcases htold.aborted (htold.cancelled htask) with hstop | hend | ⟨hwaits, _⟩
        · exact absurd hstop hstopped
        · exact absurd hend hshutdown
        · rw [hdelivery.reported hreported] at hwaits
          cases hwaits
      | returned result =>
        have hfinished : c.finished = true := by
          rw [htold.finished, htask]
          rfl
        have hnoticed := (htold.held (.inl hreported)).2 hfinished
        rw [htold.notices, htask, hlistening, hnoticed]
        rfl
    · rw [htold.notices]
      split_ifs <;> decide
    · intro hfirst
      rw [htold.notices, (hdelivery.collected hfirst).1, Bool.and_false, Bool.and_false]
      rfl
    · obtain ⟨⟨howner, hid⟩, hcalls⟩ := owned h
      rw [howner, hid]
      exact hcalls
    · intro hclosed hwhole hsome stream all hall
      exact (hflow.spoken hclosed hwhole hsome stream all hall).mpr
        (hunbroken hclosed hwhole hsome stream ⟨all, hall⟩)
    · exact hflow.silent

/-- A command that was just started. -/
def printing : Command := .start "command" "chat" "printf" false

/-- The buffer after a chunk, a poll and another chunk. -/
def buffered (before after : List UInt8) : BufferedOutput :=
  (BufferedOutput.push {} .stdout before).taken.push .stdout after

/-- A command writes a chunk, is polled while it runs, writes another chunk and exits. -/
def printingEvents (before after : List UInt8) : List Event :=
  [.output .stdout before, .polled "chat" true, .quiet,
    .replied true (pollRunning "command" (BufferedOutput.push {} .stdout before)),
    .output .stdout after, .quiet, .quiet, .quiet, .polled "chat" false,
    .replied false (finish (buffered before after) (.returned (.ok ⟨0, "", ""⟩)))]

theorem printing_runs (before after : List UInt8) :
    ∃ c, Run printing (printingEvents before after) c := by
  have hwritten := Run.nil.step (@Step.output printing .stdout before rfl)
  have hpolled := ((hwritten.step (@Step.look _ "chat" rfl rfl rfl)).step (.mark rfl)).step
    (.running rfl)
  have hended := (((hpolled.step (@Step.output _ .stdout after rfl)).step
    (@Step.finish _ (.ok ⟨0, "", ""⟩) rfl)).step (.pass rfl rfl)).step (.leave rfl)
  exact ⟨_, (hended.step (@Step.find _ "chat" rfl rfl rfl)).step (.collect rfl rfl)⟩

/-- A character that the poll cuts is replaced twice. -/
theorem output_lost : ∃ c, Run printing (printingEvents [0xC3] [0xA9]) c ∧
    ¬Kept (printingEvents [0xC3] [0xA9]) c := by
  obtain ⟨c, hrun⟩ := printing_runs [0xC3] [0xA9]
  refine ⟨c, hrun, fun hkept => ?_⟩
  have hclosed : Closed (printingEvents [0xC3] [0xA9]) :=
    ⟨_, List.mem_cons_of_mem _ List.mem_cons_self, nofun⟩
  have hwhole : ¬Cut (printingEvents [0xC3] [0xA9]) := by
    rintro ⟨reply, hreply, hcut⟩
    rcases List.mem_cons.mp hreply with rfl | hreply
    · cases hcut
    · rw [List.mem_singleton.mp hreply] at hcut
      cases hcut
  have htext := hkept.spoken hclosed hwhole (.inl nofun) .stdout ['é'] (by decide)
  exact absurd htext (by decide)

/-- Characters that the poll leaves whole are reported. -/
theorem output_and_completion_kept_whole : ∃ c,
    Run printing (printingEvents [0xC3, 0xA9] [33]) c ∧
      Kept (printingEvents [0xC3, 0xA9] [33]) c := by
  obtain ⟨c, hrun⟩ := printing_runs [0xC3, 0xA9] [33]
  refine ⟨c, hrun, (output_and_completion_kept hrun).mpr ?_⟩
  intro _ _ _ stream _ before later initial reply hsplit hrunning
  rcases before with _ | ⟨_, _ | ⟨_, _ | ⟨_, _ | ⟨_, before⟩⟩⟩⟩
  · cases hsplit
  · cases hsplit
  · cases hsplit
  · cases hsplit
    cases stream with
    | stdout => exact ⟨['é'], by decide⟩
    | stderr => exact .nil
  · have hrest := congrArg (List.drop 4) hsplit
    have hlast : .replied initial reply ∈ (printingEvents [0xC3, 0xA9] [33]).drop 4 := by
      rw [hrest]
      exact List.mem_append_right _ List.mem_cons_self
    simp only [printingEvents, List.drop_succ_cons, List.drop_zero, List.mem_cons,
      List.not_mem_nil, reduceCtorEq, false_or, or_false, Event.replied.injEq] at hlast
    rw [hlast.2] at hrunning
    cases hrunning

/-- A command buffers at most what one poll returns, and its end is reported at most once. -/
theorem end_reported_once {id : String} {owner : SessionId} {text : String} {listening : Bool}
    {events : List Event} {c : Command} (h : Run (.start id owner text listening) events c) :
    c.output.stdout.length + c.output.stderr.length ≤ maxPollOutputBytes ∧
      (replies events).countP (·.status ≠ .running) ≤ 1 := by
  induction h with
  | nil => exact ⟨Nat.zero_le _, Nat.zero_le _⟩
  | @step events c next event before step ih =>
    refine ⟨?_, ?_⟩
    · cases step with
      | @output stream bytes =>
        have hbound := ih.1
        unfold BufferedOutput.push
        cases stream <;> simp only [List.length_append, List.length_take] <;> omega
      | running | collect | stopped => exact Nat.zero_le _
      | _ => exact ih.1
    · rw [replies_snoc, List.countP_append]
      by_cases hended : Closed events
      · have hgone := ((flow before).closed hended).1
        have hnone : event.reply? = none := by
          cases step with
          | running place | collect place | stopped place => cases place.symm.trans hgone
          | _ => rfl
        rw [hnone]
        exact ih.2
      · have hzero : (replies events).countP (·.status ≠ .running) = 0 :=
          List.countP_eq_zero.mpr fun reply hreply hstatus =>
            hended ⟨reply, hreply, of_decide_eq_true hstatus⟩
        rw [hzero, Nat.zero_add]
        exact List.countP_le_length.trans (by cases event.reply? <;> simp)

/-- The end of the printing command is reported once. -/
theorem end_reported_once_printed : ∃ c, Run printing (printingEvents [33] [33]) c ∧
    c.output.stdout.length + c.output.stderr.length ≤ maxPollOutputBytes ∧
      (replies (printingEvents [33] [33])).countP (·.status ≠ .running) = 1 := by
  obtain ⟨c, hrun⟩ := printing_runs [33] [33]
  obtain ⟨hbytes, honce⟩ := end_reported_once hrun
  exact ⟨c, hrun, hbytes, le_antisymm honce (by decide)⟩

end MobiusAgent.BackgroundCompletion
