import MobiusAgent.SessionProjection
import MobiusAgent.RoutineRuns

/-!
# The hook events of journal records

Two validators check the identities behind a session event: the protocol's,
when a message is submitted, and the hooks', when the event is recorded. The
first bounds them by 4096 bytes, the second by 256 bytes without control
characters, and both bound the causal chain by sixteen, which the projection
extends before the second check. This module says which authors, sessions and
widgets the second validator accepts.
-/

namespace MobiusAgent.SessionEvents

open JsonValue ProtocolEvents CheckpointRecords CheckpointValidation HookRecords
open RoutineSchedules HookStore RoutineCatalog HookTransactions RoutinePolling RoutineRuns
open HookDispatch SessionProjection DecimalTexts

section Identities

theorem dashed_number {first second : String} {number number' : Nat}
    (h : first ++ "-" ++ toString number = second ++ "-" ++ toString number') :
    first = second ∧ number = number' := by
  have hlist := congrArg (fun text => text.toList.reverse) h
  simp only [String.toList_append, List.reverse_append, List.append_assoc] at hlist
  have hdigits : ∀ n : Nat, ∀ c ∈ (toString n).toList.reverse, c.isDigit = true :=
    fun n c hc => toString_digits n c (List.mem_reverse.mp hc)
  have htake := congrArg (List.takeWhile Char.isDigit) hlist
  have hdrop := congrArg (List.dropWhile Char.isDigit) hlist
  rw [List.takeWhile_append_of_pos (hdigits number),
    List.takeWhile_append_of_pos (hdigits number')] at htake
  rw [List.dropWhile_append_of_pos (hdigits number),
    List.dropWhile_append_of_pos (hdigits number')] at hdrop
  have hnumber : toString (number : Int) = toString (number' : Int) := by
    have hreverse := List.append_cancel_right htake
    exact String.toList_inj.mp (List.reverse_injective hreverse)
  have hrest : '-' :: first.toList.reverse = '-' :: second.toList.reverse := hdrop
  constructor
  · exact String.toList_inj.mp (List.reverse_injective (List.cons.inj hrest).2)
  · exact Int.ofNat_inj.mp (toString_inj_of_nonneg (Int.natCast_nonneg number)
      (Int.natCast_nonneg number') hnumber)

theorem sessionEventId_inj {sessionId sessionId' : SessionId} {sequence sequence' : Nat}
    (h : sessionEventId sessionId sequence = sessionEventId sessionId' sequence') :
    sessionId = sessionId' ∧ sequence = sequence' := by
  obtain ⟨hfront, hsequence⟩ := dashed_number h
  have hlist := congrArg String.toList hfront
  simp only [String.toList_append] at hlist
  exact ⟨String.toList_inj.mp (List.append_cancel_left hlist), hsequence⟩

theorem sessionEventId_ne_attention (sessionId : SessionId) (sequence : Nat) (key : String) :
    sessionEventId sessionId sequence ≠ "attention-" ++ key := by
  intro heq
  have hlist := congrArg (fun text => text.toList.head?) heq
  simp [sessionEventId] at hlist

theorem sessionEventId_ne_running (sessionId : SessionId) (sequence : Nat) (runId : String) :
    sessionEventId sessionId sequence ≠ runningId runId := by
  intro heq
  have hlist := congrArg (fun text => text.toList.head?) heq
  simp [sessionEventId, runningId] at hlist

theorem attention_ne_running (key runId : String) : "attention-" ++ key ≠ runningId runId := by
  intro heq
  have hlist := congrArg (fun text => text.toList.head?) heq
  simp [runningId] at hlist

end Identities

section Chains

/-- What the hooks' validator asks of a cause and its chain. -/
structure Chained (own : String) (causality : Option String × List String) : Prop where
  cause : ∀ id ∈ causality.1.toList, validateId id = .ok ()
  bounded : causality.2.length ≤ maxHookAncestry
  distinct : causality.2.Nodup
  members : ∀ id ∈ causality.2, validateId id = .ok ()
  other : own ∉ causality.2

theorem Chained.none (own : String) : Chained own (none, []) where
  cause := List.forall_mem_nil _
  bounded := Nat.zero_le _
  distinct := List.nodup_nil
  members := List.forall_mem_nil _
  other := List.not_mem_nil

variable {lineage : List String} {own : String}

theorem mem_pushNew {id other : String} :
    other ∈ pushNew lineage id ↔ other ∈ lineage ∨ other = id := by
  unfold pushNew
  split
  · rename_i hmem
    constructor
    · exact .inl
    · rintro (hother | rfl)
      · exact hother
      · exact List.contains_iff_mem.mp hmem
  · simp

theorem pushNew_nodup (h : lineage.Nodup) (id : String) : (pushNew lineage id).Nodup := by
  unfold pushNew
  split
  · exact h
  · rename_i hmem
    rw [List.contains_iff_mem] at hmem
    rw [List.nodup_append]
    refine ⟨h, List.nodup_singleton id, ?_⟩
    intro first hfirst second hsecond heq
    rw [List.mem_singleton] at hsecond
    exact hmem (hsecond ▸ heq ▸ hfirst)

theorem pushNew_length (lineage : List String) (id : String) :
    (pushNew lineage id).length ≤ lineage.length + 1 := by
  unfold pushNew
  split
  · omega
  · simp

theorem pushNew_known {id : String} (h : id ∈ lineage) :
    pushNew lineage id = lineage := if_pos (List.contains_iff_mem.mpr h)

/-- What the author of a turn must satisfy for the events of the turn to be accepted: the
identities behind its message are identities of hooks, other than the event, and a chain of
fifteen has room for what the projection adds. -/
def SafeAuthor (own : String) : MessageAuthor → Prop
  | .user => True
  | .source messageId source causeId ancestry _ _ =>
    validateId messageId = .ok () ∧ (∀ id ∈ ancestry, validateId id = .ok () ∧ own ≠ id) ∧
      (ancestry.length ≠ maxHookAncestry →
        own ≠ messageId ∧
          ∀ id ∈ (causalEvent source causeId).toList, validateId id = .ok () ∧ own ≠ id) ∧
      (ancestry.length + 1 = maxHookAncestry →
        messageId ∈ ancestry ∨
          ∀ id ∈ (causalEvent source causeId).toList, id ∈ ancestry ∨ id = messageId)

theorem validAuthor_ancestry {messageId handle : String} {source : MessageSource}
    {causeId : Option String} {ancestry : List String} {symbol : Option String}
    (h : ValidAuthor (.source messageId source causeId ancestry handle symbol)) :
    ancestry.length ≤ maxHookAncestry ∧ ancestry.Nodup := by
  unfold ValidAuthor validateAuthor at h
  obtain ⟨⟨⟩, hbound, -⟩ := bind_ok h
  rw [rejectIf_ok_iff, Bool.or_eq_false_iff, decide_eq_false_iff_not, decide_eq_false_iff_not,
    not_not, Nat.not_lt] at hbound
  exact hbound

theorem pushNew_chained {messageId : String} (hmessage : validateId messageId = .ok ())
    (hown : own ≠ messageId) (hlength : lineage.length < maxHookAncestry ∨ messageId ∈ lineage)
    (hbound : lineage.length ≤ maxHookAncestry) (hnodup : lineage.Nodup)
    (hmembers : ∀ id ∈ lineage, validateId id = .ok () ∧ own ≠ id) :
    Chained own (some messageId, pushNew lineage messageId) where
  cause := by
    intro id hid
    rw [List.mem_singleton.mp hid]
    exact hmessage
  bounded := by
    rcases hlength with hroom | hknown
    · have hle := pushNew_length lineage messageId
      show (pushNew lineage messageId).length ≤ _
      omega
    · show (pushNew lineage messageId).length ≤ _
      rw [pushNew_known hknown]
      exact hbound
  distinct := pushNew_nodup hnodup messageId
  members := by
    intro id hid
    rcases mem_pushNew.mp hid with hold | rfl
    · exact (hmembers id hold).1
    · exact hmessage
  other := by
    intro hmem
    rcases mem_pushNew.mp hmem with hold | hid
    · exact (hmembers own hold).2 rfl
    · exact hown hid

theorem sessionCausality_chained {author : MessageAuthor} (hvalid : ValidAuthor author)
    (hsafe : SafeAuthor own author) : Chained own (sessionCausality author) := by
  cases author with
  | user => exact Chained.none own
  | source messageId source causeId ancestry handle symbol =>
    obtain ⟨hbound, hnodup⟩ := validAuthor_ancestry hvalid
    obtain ⟨hmessage, hancestry, hadded, hroom⟩ := hsafe
    simp only [sessionCausality]
    by_cases hfull : ancestry.length = maxHookAncestry
    · rw [if_pos hfull]
      exact ⟨fun id hid => List.mem_singleton.mp hid ▸ hmessage, hbound, hnodup,
        fun id hid => (hancestry id hid).1, fun hmem => (hancestry own hmem).2 rfl⟩
    · rw [if_neg hfull]
      obtain ⟨hother, hevent⟩ := hadded hfull
      simp only [causalOrigin]
      cases hcause : causalEvent source causeId with
      | none => exact pushNew_chained hmessage hother (.inl (by omega)) hbound hnodup hancestry
      | some event =>
        rw [hcause] at hevent hroom
        obtain ⟨hid, hown⟩ := hevent event (List.mem_singleton_self event)
        have hlineage : ∀ id ∈ pushNew ancestry event, validateId id = .ok () ∧ own ≠ id := by
          intro id hmem
          rcases mem_pushNew.mp hmem with hold | rfl
          · exact hancestry id hold
          · exact ⟨hid, hown⟩
        have hlength := pushNew_length ancestry event
        refine pushNew_chained hmessage hother ?_ (by omega) (pushNew_nodup hnodup event) hlineage
        by_cases hlast : ancestry.length + 1 = maxHookAncestry
        · rcases hroom hlast with hknown | hevent
          · exact .inr (mem_pushNew.mpr (.inl hknown))
          · rcases hevent event (List.mem_singleton_self event) with hold | heq
            · left
              rw [pushNew_known hold]
              omega
            · exact .inr (mem_pushNew.mpr (.inr heq.symm))
        · left
          omega

theorem validateEvent_parts {event : HookEvent} (h : validateEvent event = .ok ()) :
    validateId event.id = .ok () ∧ event.ancestry.length ≤ maxHookAncestry ∧
      event.id ∉ event.ancestry ∧ event.ancestry.Nodup ∧
      ∀ id ∈ event.ancestry, validateId id = .ok () := by
  have hchain := validateEvent_chain h
  unfold validateEvent at h
  obtain ⟨hid, h⟩ := bind_ok_iff.mp h
  obtain ⟨-, h⟩ := bind_ok_iff.mp h
  obtain ⟨-, h⟩ := bind_ok_iff.mp h
  obtain ⟨hbound, h⟩ := bind_ok_iff.mp h
  obtain ⟨hmembers, -⟩ := bind_ok_iff.mp h
  rw [rejectIf_ok_iff, Bool.or_eq_false_iff, Bool.or_eq_false_iff, decide_eq_false_iff_not,
    decide_eq_false_iff_not, not_not, Nat.not_lt] at hbound
  exact ⟨hid, hbound.1.1, hchain, hbound.2, (forM_ok_iff _ _).mp hmembers⟩

theorem cause_chained {cause : HookEvent} (h : validateEvent cause = .ok ())
    (hown : own ≠ cause.id) (hother : own ∉ cause.ancestry) :
    Chained own (some cause.id, if cause.ancestry.length < maxHookAncestry
      then cause.ancestry ++ [cause.id] else cause.ancestry) := by
  obtain ⟨hid, hbound, hself, hnodup, hmembers⟩ := validateEvent_parts h
  have hcause : ∀ id ∈ (some cause.id).toList, validateId id = .ok () :=
    fun id hmem => List.mem_singleton.mp hmem ▸ hid
  by_cases hroom : cause.ancestry.length < maxHookAncestry
  · rw [if_pos hroom]
    refine ⟨hcause, ?_, ?_, ?_, ?_⟩
    · simp only [List.length_append, List.length_singleton]
      omega
    · show (cause.ancestry ++ [cause.id]).Nodup
      rw [List.nodup_append]
      refine ⟨hnodup, List.nodup_singleton _, ?_⟩
      intro first hfirst second hsecond heq
      rw [List.mem_singleton] at hsecond
      exact hself (hsecond ▸ heq ▸ hfirst)
    · intro id hmem
      rcases List.mem_append.mp hmem with hold | hlast
      · exact hmembers id hold
      · rw [List.mem_singleton.mp hlast]
        exact hid
    · intro hmem
      rcases List.mem_append.mp hmem with hold | hlast
      · exact hother hold
      · exact hown (List.mem_singleton.mp hlast)
  · rw [if_neg hroom]
    exact ⟨hcause, hbound, hnodup, hmembers, hother⟩

end Chains

section Sizes

theorem validateId_bytes {id : String} (h : validateId id = .ok ()) : stringLength id ≤ 514 := by
  obtain ⟨-, hbytes, hsafe⟩ := (validateId_ok_iff id).mp h
  have hlength := stringLength_le hsafe
  omega

theorem chain_bytes {chain : List String} (h : ∀ id ∈ chain, validateId id = .ok ()) :
    itemsLength (chain.map .str) ≤ 515 * chain.length := by
  induction chain with
  | nil => exact Nat.zero_le _
  | cons id rest ih =>
    rw [List.forall_mem_cons] at h
    have hid := validateId_bytes h.1
    have hrest := ih h.2
    cases rest with
    | nil =>
      simp only [List.map_cons, List.map_nil, itemsLength, jsonLength, List.length_cons,
        List.length_nil]
      omega
    | cons other rest =>
      simp only [List.map_cons, itemsLength, jsonLength, List.length_cons] at hrest ⊢
      omega

theorem optional_bytes {id : Option String} (h : ∀ known ∈ id.toList, validateId known = .ok ()) :
    jsonLength (optionalJson id) ≤ 514 := by
  cases id with
  | none => simp [optionalJson, jsonLength]
  | some known => exact validateId_bytes (h known (List.mem_singleton_self known))

theorem time_bytes {time : Int} (hlow : i64Min ≤ time) (hhigh : time ≤ i64Max) :
    integerLength (time / 1000) ≤ 20 := by
  have hsmall : (time / 1000).natAbs < 10 ^ 19 := by
    unfold i64Min at hlow
    unfold i64Max at hhigh
    omega
  have hdigits := (Nat.digits_length_le_iff (b := 10) (by omega) (time / 1000).natAbs
    (k := 19)).mpr hsmall
  unfold integerLength
  split
  · omega
  · omega

theorem sessionEvent_bytes (event : HookEvent) (sessionId : SessionId)
    (hsource : event.source = .session sessionId) :
    jsonLength event.json = stringLength event.id + stringLength sessionId +
      jsonLength (optionalJson event.causeId) + itemsLength (event.ancestry.map .str) +
      stringLength event.botId + integerLength event.occurredAt + jsonLength event.data.json +
      108 := by
  have hkeys : stringLength "id" = 4 ∧ stringLength "source" = 8 ∧ stringLength "cause_id" = 10 ∧
      stringLength "ancestry" = 10 ∧ stringLength "bot_id" = 8 ∧
      stringLength "occurred_at" = 13 ∧ stringLength "data" = 6 ∧ stringLength "type" = 6 ∧
      stringLength "session" = 9 ∧ stringLength "session_id" = 12 := by
    decide
  obtain ⟨h1, h2, h3, h4, h5, h6, h7, h8, h9, h10⟩ := hkeys
  simp only [HookEvent.json, hsource, HookSource.json, tagged, jsonLength, fieldsLength, h1, h2,
    h3, h4, h5, h6, h7, h8, h9, h10]
  omega

/-- The room for what a session event holds besides the envelope. -/
def maxDataBytes : Nat := maxHookEventBytes - 11264

theorem sessionEvent_valid {event : HookEvent} {sessionId : SessionId}
    (hsource : event.source = .session sessionId) (hid : validateId event.id = .ok ())
    (hsession : stringLength sessionId ≤ 514) (hbot : validateId event.botId = .ok ())
    (hchain : Chained event.id (event.causeId, event.ancestry))
    (htime : integerLength event.occurredAt ≤ 20)
    (hdata : jsonLength event.data.json ≤ maxDataBytes) : validateEvent event = .ok () := by
  have hsourceValid : validateSource event.source = .ok () := by
    rw [hsource]
    rfl
  unfold validateEvent
  refine bind_ok_iff.mpr ⟨hid, bind_ok_iff.mpr ⟨hbot, ?_⟩⟩
  refine bind_ok_iff.mpr ⟨hsourceValid, bind_ok_iff.mpr ⟨?_, ?_⟩⟩
  · rw [rejectIf_ok_iff, Bool.or_eq_false_iff, Bool.or_eq_false_iff, decide_eq_false_iff_not,
      decide_eq_false_iff_not, not_not, Nat.not_lt, List.any_eq_false]
    refine ⟨⟨hchain.bounded, ?_⟩, hchain.distinct⟩
    intro id hmem heq
    exact hchain.other (beq_iff_eq.mp heq ▸ hmem)
  refine bind_ok_iff.mpr ⟨(forM_ok_iff _ _).mpr hchain.members, ?_⟩
  refine bind_ok_iff.mpr ⟨(forM_ok_iff _ _).mpr hchain.cause, ?_⟩
  rw [rejectIf_ok_iff, decide_eq_false_iff_not, sessionEvent_bytes event sessionId hsource]
  have hidBytes := validateId_bytes hid
  have hbotBytes := validateId_bytes hbot
  have hcauseBytes := optional_bytes hchain.cause
  have hchainBytes := chain_bytes hchain.members
  have hchainLength := hchain.bounded
  have hroom : maxDataBytes = 521216 := rfl
  have hlimit : maxHookEventBytes = 532480 := rfl
  have hancestry : maxHookAncestry = 16 := rfl
  simp only at hcauseBytes hchainBytes hchainLength
  omega

end Sizes

section Sessions

variable (host : Host)

/-- The identities of a lifecycle boundary. -/
def TurnLifecycle.ids : TurnLifecycle → List String
  | .started turnId => [turnId]
  | .approvalRequested turnId requestId => [turnId, requestId]
  | .finished turnId => [turnId]

def TurnLifecycle.turn : TurnLifecycle → String
  | .started turnId => turnId
  | .approvalRequested turnId _ => turnId
  | .finished turnId => turnId

def StoredSession.authors (session : StoredSession) : List MessageAuthor :=
  session.executions.map (·.author) ++ match session.active with
    | .ok active => active.toList.map (·.author)
    | .error _ => []

/-- What the runner of a session and the checkpoint store keep true of it: the journal begins
with a configuration, turns and requests have minted identifiers, a turn ends with its execution
in one transaction, and the messages behind the executions passed `validate_submission`. -/
structure WellFormed (session : StoredSession) : Prop where
  ordered : session.records.Pairwise fun first second => first.sequence < second.sequence
  assigned : ∀ record ∈ session.records,
    1 ≤ record.sequence ∧ record.sequence ≤ session.lastSequence
  last : (session.lastSequence : Int) ≤ i64Max
  headed : ∀ record ∈ session.records.head?, (configuredOwner record.msg).isSome = true
  times : ∀ record ∈ session.records, i64Min ≤ record.recordedAtMs ∧ record.recordedAtMs ≤ i64Max
  minted : ∀ record ∈ session.records, ∀ lifecycle ∈ turnLifecycle record.msg,
    ∀ id ∈ TurnLifecycle.ids lifecycle, host.parseUuid id = .ok id
  finished : ∀ record ∈ session.records, ∀ turnId,
    turnLifecycle record.msg = some (.finished turnId) →
      (session.executionForTurn turnId).isSome = true
  /-- The authors passed `validate_submission`. -/
  authors : ∀ author ∈ StoredSession.authors session, ValidAuthor author

/-- What the projection asks of a session beyond that. -/
structure Fits (session : StoredSession) : Prop where
  decoded : ∀ record ∈ session.records, record.undecoded = none
  loaded : ∀ record ∈ session.records, ∀ lifecycle ∈ turnLifecycle record.msg,
    ∃ author, session.turnAuthor (TurnLifecycle.turn lifecycle) = .ok author
  /-- The identities of its events are identities of hooks. -/
  ids : ∀ record ∈ session.records, validateId (sessionEventId session.id record.sequence) = .ok ()
  owners : ∀ record ∈ session.records, ∀ owner ∈ configuredOwner record.msg,
    validateId owner = .ok ()
  authors : ∀ record ∈ session.records, ∀ lifecycle ∈ turnLifecycle record.msg,
    ∀ author, session.turnAuthor (TurnLifecycle.turn lifecycle) = .ok (some author) →
      SafeAuthor (sessionEventId session.id record.sequence) author
  items : ∀ record ∈ session.records, ∀ item ∈ pendingAttentionItems record.msg,
    stringLength item.capability + stringLength item.itemId ≤ maxDataBytes - 2048

/-- What the tables of the Bot database keep true. -/
structure Base (database : BotDatabase) : Prop where
  tidy : Tidy host.digest database.hooks
  valid : ∀ event ∈ database.hooks.events, validateEvent event = .ok ()
  catalog : ∃ state, database.catalog = some state ∧ freshState host database = .ok state
  runs : ∀ run ∈ database.runs, validateRun host run = .ok ()

/-- No chain of a run of the session names an event. -/
def Unnamed (database : BotDatabase) (sessionId : SessionId) (own : String) : Prop :=
  ∀ run ∈ database.runs, run.sessionId = some sessionId →
    ∀ cause ∈ database.hooks.event? (runningId run.id), own ∉ cause.ancestry

/-- The identity of the event of an attention item. -/
def attentionId (attentionKey : SessionId → String → String → String → String)
    (sessionId : SessionId) (item : AttentionItem) : String :=
  "attention-" ++ attentionKey sessionId item.capability item.widgetId item.itemId

/-- No chain of a run of the session names an event of a record. -/
def Clear (attentionKey : SessionId → String → String → String → String)
    (database : BotDatabase) (session : StoredSession) (record : SessionRecord) : Prop :=
  Unnamed database session.id (sessionEventId session.id record.sequence) ∧
    ∀ item ∈ pendingAttentionItems record.msg,
      Unnamed database session.id (attentionId attentionKey session.id item)

variable {host} {database : BotDatabase} {session : StoredSession} {record : SessionRecord}
  {attentionKey : SessionId → String → String → String → String}

theorem event?_mem {tables : HookTables} {id : String} {event : HookEvent}
    (h : tables.event? id = some event) : event ∈ tables.events ∧ event.id = id := by
  have hid := List.find?_some h
  exact ⟨List.mem_of_find?_eq_some h, by simpa using hid⟩

theorem Base.history (h : Base host database) :
    history host database = .ok database.runs.reverse := by
  obtain ⟨state, -, hstate⟩ := h.catalog
  unfold SessionProjection.history
  rw [hstate]
  refine except_bind_ok_iff.mpr ⟨state, rfl, ?_⟩
  refine except_bind_ok_iff.mpr ⟨(), (forM_ok_iff _ _).mpr ?_, rfl⟩
  intro run hrun
  exact h.runs run (List.mem_reverse.mp hrun)

variable {own botId : String} {turnId : Option String}

theorem runCausality_chained (h : Base host database) (hunnamed : Unnamed database session.id own)
    (hown : ∀ runId, own ≠ runningId runId) :
    ∃ causality, runCausality host database session.id = .ok causality ∧
      Chained own causality := by
  unfold runCausality
  rw [h.history]
  dsimp only [bind, Except.bind]
  cases hfind : database.runs.reverse.find? (·.sessionId = some session.id) with
  | none => exact ⟨_, rfl, Chained.none _⟩
  | some run =>
    have hrun := List.mem_reverse.mp (List.mem_of_find?_eq_some hfind)
    have hsession : run.sessionId = some session.id := by simpa using List.find?_some hfind
    dsimp only
    cases hcause : database.hooks.event? (runningId run.id) with
    | none => exact ⟨_, rfl, Chained.none _⟩
    | some cause =>
      obtain ⟨hmem, hid⟩ := event?_mem hcause
      refine ⟨_, rfl, cause_chained (h.valid cause hmem) ?_ ?_⟩
      · rw [hid]
        exact hown run.id
      · exact hunnamed run hrun hsession cause hcause

theorem turnAuthor_mem {turnId : String} {author : MessageAuthor}
    (h : session.turnAuthor turnId = .ok (some author)) :
    author ∈ StoredSession.authors session := by
  unfold StoredSession.turnAuthor at h
  unfold StoredSession.authors
  split at h
  · rename_i execution hexecution
    rw [← Option.some.inj (Except.ok.inj h)]
    exact List.mem_append_left _ (List.mem_map_of_mem (List.mem_of_find?_eq_some hexecution))
  · cases hloaded : session.active with
    | error error =>
      rw [hloaded] at h
      cases h
    | ok loaded =>
      rw [hloaded] at h
      obtain ⟨active, hactive, rfl⟩ := Option.map_eq_some_iff.mp (Except.ok.inj h)
      obtain ⟨hactive, -⟩ := Option.filter_eq_some_iff.mp hactive
      refine List.mem_append_right _ (List.mem_map.mpr ⟨active, ?_, rfl⟩)
      rw [hactive]
      exact List.mem_singleton_self active

theorem recordCausality_chained (h : Base host database)
    (hunnamed : Unnamed database session.id own) (hown : ∀ runId, own ≠ runningId runId)
    (hturn : ∃ causality, turnCausality session turnId = .ok causality ∧ Chained own causality) :
    ∃ causality, recordCausality host database session turnId = .ok causality ∧
      Chained own causality := by
  obtain ⟨⟨causeId, ancestry⟩, hcausality, hchained⟩ := hturn
  unfold recordCausality
  rw [hcausality]
  cases causeId with
  | none => exact runCausality_chained h hunnamed hown
  | some causeId => exact ⟨_, rfl, hchained⟩

theorem sessionId_bytes {sequence : Nat}
    (h : validateId (sessionEventId session.id sequence) = .ok ()) :
    stringLength session.id ≤ 514 := by
  obtain ⟨-, hbytes, hsafe⟩ := (validateId_ok_iff _).mp h
  unfold sessionEventId at hbytes hsafe
  rw [String.toList_append, String.toList_append, String.toList_append, List.any_append,
    List.any_append, List.any_append] at hsafe
  simp only [Bool.or_eq_false_iff] at hsafe
  rw [String.utf8ByteSize_append, String.utf8ByteSize_append, String.utf8ByteSize_append] at hbytes
  have hlength := stringLength_le hsafe.1.1.2
  omega

theorem lifecycle_bytes (laws : HostLaws host) {lifecycle : TurnLifecycle}
    {data : HookData × String} (hsession : stringLength session.id ≤ 514)
    (hminted : ∀ id ∈ TurnLifecycle.ids lifecycle, host.parseUuid id = .ok id)
    (h : lifecycleData session lifecycle = .ok data) :
    jsonLength data.1.json ≤ maxDataBytes ∧ data.2 = TurnLifecycle.turn lifecycle := by
  have hroom : maxDataBytes = 521216 := rfl
  have huuid : ∀ id ∈ TurnLifecycle.ids lifecycle, stringLength id ≤ 74 := by
    intro id hid
    have hlength := stringLength_le (laws.uuid_safe (hminted id hid))
    have hbytes := laws.uuid_bytes (hminted id hid)
    omega
  have hkeys : stringLength "type" = 6 ∧ stringLength "session_id" = 12 ∧
      stringLength "turn_id" = 9 ∧ stringLength "request_id" = 12 ∧
      stringLength "outcome" = 9 ∧ stringLength "session_turn_started" = 22 ∧
      stringLength "session_turn_finished" = 23 ∧ stringLength "session_approval" = 18 := by
    decide
  obtain ⟨h1, h2, h3, h4, h5, h6, h7, h8⟩ := hkeys
  cases lifecycle with
  | started turnId =>
    have hturn := huuid turnId (List.mem_singleton_self turnId)
    rw [← Except.ok.inj h]
    refine ⟨?_, rfl⟩
    simp only [HookData.json, tagged, jsonLength, fieldsLength, h1, h2, h3, h6]
    omega
  | approvalRequested turnId requestId =>
    have hturn := huuid turnId List.mem_cons_self
    have hrequest := huuid requestId (List.mem_cons_of_mem _ (List.mem_singleton_self requestId))
    rw [← Except.ok.inj h]
    refine ⟨?_, rfl⟩
    simp only [HookData.json, tagged, jsonLength, fieldsLength, h1, h2, h3, h4, h8]
    omega
  | finished turnId =>
    have hturn := huuid turnId (List.mem_singleton_self turnId)
    simp only [lifecycleData] at h
    split at h
    · cases h
    · rename_i execution hexecution
      have houtcome : stringLength (outcomeText execution.outcome) ≤ 11 := by
        cases execution.outcome with
        | completed | aborted | failed => decide
      rw [← Except.ok.inj h]
      refine ⟨?_, rfl⟩
      simp only [HookData.json, tagged, jsonLength, fieldsLength, h1, h2, h3, h5, h7]
      omega

theorem sessionHook_chained (h : Base host database) (hunnamed : Unnamed database session.id own)
    (hown : ∀ runId, own ≠ runningId runId)
    (hturn : ∃ causality, turnCausality session turnId = .ok causality ∧ Chained own causality)
    (botId : String) (record : SessionRecord) (data : HookData) :
    ∃ event, sessionHook host database botId session record data turnId = .ok event ∧
      Chained own (event.causeId, event.ancestry) ∧
      event.id = sessionEventId session.id record.sequence ∧ event.botId = botId ∧
      event.source = .session session.id ∧ event.data = data ∧
      event.occurredAt = record.recordedAtMs / 1000 := by
  obtain ⟨causality, hcausality, hchained⟩ := recordCausality_chained h hunnamed hown hturn
  exact ⟨_, except_bind_ok_iff.mpr ⟨causality, hcausality, rfl⟩, hchained, rfl, rfl, rfl,
    rfl, rfl⟩

/-- What is known of an event of a record. -/
structure RecordEvent (session : StoredSession) (record : SessionRecord) (botId : String)
    (event : HookEvent) : Prop where
  valid : validateEvent event = .ok ()
  id : event.id = sessionEventId session.id record.sequence
  bot : event.botId = botId
  source : event.source = .session session.id

theorem sessionHook_valid (h : Base host database)
    (hunnamed : Unnamed database session.id (sessionEventId session.id record.sequence))
    (hfits : Fits session) (hwell : WellFormed host session) (hrecord : record ∈ session.records)
    (hbot : validateId botId = .ok ()) {data : HookData}
    (hturn : ∃ causality, turnCausality session turnId = .ok causality ∧
      Chained (sessionEventId session.id record.sequence) causality)
    (hdata : jsonLength data.json ≤ maxDataBytes) :
    ∃ event, sessionHook host database botId session record data turnId = .ok event ∧
      RecordEvent session record botId event := by
  obtain ⟨event, hevent, hchained, hid, hbotId, hsource, hdataEq, htime⟩ :=
    sessionHook_chained h hunnamed (sessionEventId_ne_running _ _) hturn botId record data
  obtain ⟨hlow, hhigh⟩ := hwell.times record hrecord
  have hidValid := hfits.ids record hrecord
  refine ⟨event, hevent, ⟨?_, hid, hbotId, hsource⟩⟩
  refine sessionEvent_valid hsource ?_ (sessionId_bytes hidValid) ?_ ?_ ?_ ?_
  · rw [hid]
    exact hidValid
  · rw [hbotId]
    exact hbot
  · rw [hid]
    exact hchained
  · rw [htime]
    exact time_bytes hlow hhigh
  · rw [hdataEq]
    exact hdata

def isLifecycle (record : SessionRecord) : Bool :=
  announces record || (turnLifecycle record.msg).isSome

/-- Every record of a session that fits projects to nothing or to an accepted event. -/
theorem lifecycleEvent_valid (laws : HostLaws host) (h : Base host database)
    (hunnamed : Unnamed database session.id (sessionEventId session.id record.sequence))
    (hfits : Fits session) (hwell : WellFormed host session) (hrecord : record ∈ session.records)
    (hbot : validateId botId = .ok ()) :
    ∃ event, lifecycleEvent host database botId session record = .ok event ∧
      event.isSome = isLifecycle record ∧
      ∀ recorded ∈ event, RecordEvent session record botId recorded := by
  have hsession := sessionId_bytes (hfits.ids record hrecord)
  unfold lifecycleEvent isLifecycle
  by_cases hannounces : announces record = true
  · rw [if_pos hannounces, hannounces]
    have hdata : jsonLength (HookData.sessionCreated session.id).json ≤ maxDataBytes := by
      have hroom : maxDataBytes = 521216 := rfl
      have hkeys : stringLength "type" = 6 ∧ stringLength "session_id" = 12 ∧
          stringLength "session_created" = 17 := by decide
      obtain ⟨h1, h2, h3⟩ := hkeys
      simp only [HookData.json, tagged, jsonLength, fieldsLength, h1, h2, h3]
      omega
    obtain ⟨event, hevent, hknown⟩ := @sessionHook_valid host database session record botId none h
      hunnamed hfits hwell hrecord hbot _ ⟨_, rfl, Chained.none _⟩ hdata
    refine ⟨some event, except_bind_ok_iff.mpr ⟨event, hevent, rfl⟩, rfl, ?_⟩
    rintro recorded ⟨⟩
    exact hknown
  · rw [if_neg hannounces, Bool.eq_false_iff.mpr hannounces, Bool.false_or]
    cases hlifecycle : turnLifecycle record.msg with
    | none => exact ⟨none, rfl, rfl, fun recorded hmem => by cases hmem⟩
    | some lifecycle =>
      have hdata : ∃ data, lifecycleData session lifecycle = .ok data := by
        cases lifecycle with
        | started turnId | approvalRequested turnId requestId => exact ⟨_, rfl⟩
        | finished turnId =>
          obtain ⟨execution, hexecution⟩ := Option.isSome_iff_exists.mp
            (hwell.finished record hrecord turnId hlifecycle)
          refine ⟨(.sessionTurnFinished session.id turnId execution.outcome, turnId), ?_⟩
          simp only [lifecycleData, hexecution]
      obtain ⟨data, hdata⟩ := hdata
      obtain ⟨hbytes, hturn⟩ := lifecycle_bytes laws hsession
        (hwell.minted record hrecord lifecycle hlifecycle) hdata
      have hchained : ∃ causality, turnCausality session (some data.2) = .ok causality ∧
          Chained (sessionEventId session.id record.sequence) causality := by
        obtain ⟨author, hauthor⟩ := hfits.loaded record hrecord lifecycle hlifecycle
        simp only [turnCausality, hturn, hauthor]
        refine ⟨_, rfl, ?_⟩
        cases author with
        | none => exact Chained.none _
        | some author =>
          exact sessionCausality_chained (hwell.authors author (turnAuthor_mem hauthor))
            (hfits.authors record hrecord lifecycle hlifecycle author hauthor)
      obtain ⟨event, hevent, hknown⟩ :=
        sessionHook_valid h hunnamed hfits hwell hrecord hbot hchained hbytes
      refine ⟨some event, except_bind_ok_iff.mpr ⟨data, hdata,
        except_bind_ok_iff.mpr ⟨event, hevent, rfl⟩⟩, rfl, ?_⟩
      rintro recorded ⟨⟩
      exact hknown

theorem takeChars_bytes (count : Nat) (text : String) :
    stringLength (takeChars count text) ≤ 6 * count + 2 := by
  have hescaped : ∀ c : Char, escapedLength c ≤ 6 := by
    intro c
    have hsize := Char.utf8Size_le_four c
    unfold escapedLength
    split
    · omega
    · split
      · omega
      · omega
  have hsum : ∀ chars : List Char, (chars.map escapedLength).sum ≤ 6 * chars.length := by
    intro chars
    induction chars with
    | nil => exact Nat.zero_le _
    | cons c rest ih =>
      have hc := hescaped c
      simp only [List.map_cons, List.sum_cons, List.length_cons]
      omega
  have htake := hsum (text.toList.take count)
  have hlength := List.length_take_le count text.toList
  unfold stringLength takeChars
  rw [String.toList_ofList]
  omega

/-- What is known of the keys of attention events: hexadecimal SHA-256. -/
def SafeKeys (attentionKey : SessionId → String → String → String → String) : Prop :=
  ∀ sessionId capability widgetId itemId,
    (attentionKey sessionId capability widgetId itemId).utf8ByteSize ≤ 64 ∧
      (attentionKey sessionId capability widgetId itemId).toList.any isControl = false

theorem attentionId_valid {key : String} (hbytes : key.utf8ByteSize ≤ 64)
    (hsafe : key.toList.any isControl = false) : validateId ("attention-" ++ key) = .ok () := by
  refine (validateId_ok_iff _).mpr ⟨?_, ?_, ?_⟩
  · refine Bool.eq_false_iff.mpr ?_
    intro hblank
    have hspace := List.all_eq_true.mp hblank 'a' (by simp)
    revert hspace
    decide
  · rw [String.utf8ByteSize_append]
    have hkind : "attention-".utf8ByteSize = 10 := rfl
    omega
  · rw [String.toList_append, List.any_append, hsafe]
    decide

theorem attention_bytes (hsession : stringLength session.id ≤ 514) {item : AttentionItem}
    (hitem : stringLength item.capability + stringLength item.itemId ≤ maxDataBytes - 2048) :
    jsonLength (HookData.sessionAttention session.id item.capability item.itemId
      (takeChars 200 item.text)).json ≤ maxDataBytes := by
  have hroom : maxDataBytes = 521216 := rfl
  have htext := takeChars_bytes 200 item.text
  have hkeys : stringLength "type" = 6 ∧ stringLength "session_id" = 12 ∧
      stringLength "capability" = 12 ∧ stringLength "item_id" = 9 ∧ stringLength "text" = 6 ∧
      stringLength "session_attention" = 19 := by
    decide
  obtain ⟨h1, h2, h3, h4, h5, h6⟩ := hkeys
  simp only [HookData.json, tagged, jsonLength, fieldsLength, h1, h2, h3, h4, h5, h6]
  omega

theorem attentionEvent_valid (hkeys : SafeKeys attentionKey) (h : Base host database)
    (hclear : Clear attentionKey database session record) (hfits : Fits session)
    (hwell : WellFormed host session) (hrecord : record ∈ session.records)
    (hbot : validateId botId = .ok ()) {item : AttentionItem}
    (hitem : item ∈ pendingAttentionItems record.msg) :
    ∃ event, attentionEvent host attentionKey database botId session record item = .ok event ∧
      validateEvent event = .ok () ∧ event.source = .session session.id ∧
      event.botId = botId ∧ event.id = attentionId attentionKey session.id item := by
  obtain ⟨event, hevent, hchained, -, hbotId, hsource, hdata, htime⟩ :=
    @sessionHook_chained host database session _ none h (hclear.2 item hitem)
      (attention_ne_running _) ⟨_, rfl, Chained.none _⟩ botId record (.sessionAttention session.id item.capability item.itemId (takeChars 200 item.text))
  obtain ⟨hlow, hhigh⟩ := hwell.times record hrecord
  obtain ⟨hkeyBytes, hkeySafe⟩ :=
    hkeys session.id item.capability item.widgetId item.itemId
  have hsession := sessionId_bytes (hfits.ids record hrecord)
  refine ⟨{ event with id := attentionId attentionKey session.id item },
    except_bind_ok_iff.mpr ⟨event, hevent, rfl⟩, ?_, hsource, hbotId, rfl⟩
  refine sessionEvent_valid hsource (attentionId_valid hkeyBytes hkeySafe) hsession ?_ hchained
    ?_ ?_
  · show validateId event.botId = .ok ()
    rw [hbotId]
    exact hbot
  · show integerLength event.occurredAt ≤ 20
    rw [htime]
    exact time_bytes hlow hhigh
  · show jsonLength event.data.json ≤ maxDataBytes
    rw [hdata]
    exact attention_bytes hsession (hfits.items record hrecord item hitem)

theorem ownerChangedEvent_valid (hfits : Fits session) (hwell : WellFormed host session)
    (hrecord : record ∈ session.records) {previous : String}
    (hprevious : validateId previous = .ok ()) :
    validateEvent (ownerChangedEvent session previous record) = .ok () := by
  obtain ⟨hlow, hhigh⟩ := hwell.times record hrecord
  have hid := hfits.ids record hrecord
  have hsession := sessionId_bytes hid
  refine sessionEvent_valid rfl hid hsession hprevious (Chained.none _) (time_bytes hlow hhigh) ?_
  have hroom : maxDataBytes = 521216 := rfl
  have hbytes := validateId_bytes hprevious
  have hkeys : stringLength "type" = 6 ∧ stringLength "session_id" = 12 ∧
      stringLength "previous_bot_id" = 17 ∧ stringLength "session_owner_changed" = 23 := by
    decide
  obtain ⟨h1, h2, h3, h4⟩ := hkeys
  simp only [ownerChangedEvent, HookData.json, tagged, jsonLength, fieldsLength, h1, h2, h3, h4]
  omega

end Sessions

end MobiusAgent.SessionEvents
