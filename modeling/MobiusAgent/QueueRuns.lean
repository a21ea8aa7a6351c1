import MobiusAgent.MessageQueue

/-!
# The message queue over whole runs

The abstract queue is a log: every accepted message has one entry, in the
order of acceptance, and an entry only ever turns from waiting to delivered.
The queue of the code is the waiting part of such a log in every run, so no
message is lost, delivered twice or overtaken by a later one of its batch.
-/

namespace MobiusAgent.QueueRuns

open JsonValue ProtocolEvents CheckpointRecords CheckpointValidation MessageQueue

/-- What happens to the queue. -/
inductive QueueOp where
  /-- `Messages::enqueue`. -/
  | submit (id : String) (activeTurnId : Option String) (message : MessageSubmission)
  | edit (id arguments : String) (input : Option String)
  /-- `stage_model_messages`, before a model request of the turn. -/
  | stage (turnId : String)
  /-- `consume_next_turn`. -/
  | consume (id : String)
  /-- `finish_message_turn`. -/
  | finish (turnId : String) (outcome : ExecutionOutcome)

/-- What the caller of an operation gets: nothing for a stage or the end of a turn. -/
abbrev Answer := Except Error (Option SubmissionResult)

/-- The messages that leave the queue for the model, and the answer. -/
structure Outcome where
  batch : List QueuedMessage
  answer : Answer

section Operations

variable (settings : MessageSettings) (checks : ExternalChecks)
  (widget : String → MessageEvent → Json)

/-- The queue after an operation, and its outcome. -/
def applyOp (queue : List QueuedMessage) : QueueOp → List QueuedMessage × Outcome
  | .submit id activeTurnId message =>
    match enqueue settings widget queue id activeTurnId message with
    | .ok (result, longer, _) => (longer, ⟨[], .ok (some result)⟩)
    | .error error => (queue, ⟨[], .error error⟩)
  | .edit id arguments input =>
    match edit checks widget queue id arguments input with
    | .ok (result, edited, _) => (edited, ⟨[], .ok (some result)⟩)
    | .error error => (queue, ⟨[], .error error⟩)
  | .stage turnId =>
    let staged := stageModelMessages queue turnId
    (staged.2, ⟨staged.1, .ok none⟩)
  | .consume id =>
    match consumeNextTurn queue id with
    | .ok (_, queued, rest) => (rest, ⟨[queued], .ok none⟩)
    | .error error => (queue, ⟨[], .error error⟩)
  | .finish turnId outcome => (finishMessageTurn queue turnId outcome, ⟨[], .ok none⟩)

/-- The queue after a run from the empty one, and the outcome of every operation. -/
def runOps : List QueueOp → List QueuedMessage × List Outcome
  | operations => operations.foldl (fun state operation =>
      let next := applyOp settings checks widget state.1 operation
      (next.1, state.2 ++ [next.2])) ([], [])

end Operations

/-- An accepted message. -/
structure Entry where
  /-- The message, as it was last edited. -/
  message : QueuedMessage
  /-- Whether the model got it. -/
  delivered : Bool

def waiting (log : List Entry) : List QueuedMessage :=
  (log.filter fun entry => !entry.delivered).map Entry.message

def delivered (log : List Entry) : List QueuedMessage :=
  (log.filter Entry.delivered).map Entry.message

/-- Deliver the waiting messages of one kind. -/
def deliver (chosen : QueuedMessage → Bool) (log : List Entry) : List Entry :=
  log.map fun entry => ⟨entry.message, entry.delivered || chosen entry.message⟩

/-- Change the waiting messages. -/
def renew (change : QueuedMessage → QueuedMessage) (log : List Entry) : List Entry :=
  log.map fun entry => if entry.delivered then entry else ⟨change entry.message, false⟩

def submitted (id : String) (boundary : QueuedMessageBoundary) (message : MessageSubmission) :
    QueuedMessage :=
  ⟨messagesOwner, id, boundary, message.author, message.text, message.attachments, message.reply⟩

/-- A submission that can wait: its target is not stale, there is room, and its id is new. -/
structure Admitted (settings : MessageSettings) (log : List Entry) (id : String)
    (activeTurnId : Option String) (message : MessageSubmission) (boundary : QueuedMessageBoundary) :
    Prop where
  target : prepareBoundary settings activeTurnId message = .ok boundary
  room : (waiting log).length < settings.maxPending ∧ (waiting log).length < maxQueuedMessages
  fresh : ∀ other ∈ waiting log, other.id ≠ id

/-- An edit that is possible: of a waiting message of the user, to a text that is valid under an id
that no other waiting message has. -/
structure Editable (checks : ExternalChecks) (before after : List Entry) (message : QueuedMessage)
    (id arguments : String) (input : Option String) (text : String) : Prop where
  named : message.id = arguments
  author : message.author = .user
  given : input = some text ∧ isBlank text = false
  fresh : ∀ other ∈ waiting before ++ waiting after, other.id ≠ id
  valid : validateQueuedMessage checks (editedMessage message id text) = .ok ()

/-- An answer that accepts nothing. -/
def Refuses : Answer → Prop
  | .ok (some (.rejected _)) => True
  | .error _ => True
  | _ => False

/-- What an operation does to the log, what it delivers, and what it answers. -/
inductive Explains (settings : MessageSettings) (checks : ExternalChecks) :
    QueueOp → List Entry → Outcome → List Entry → Prop
  /-- A submission that can wait is accepted, and is the last one. -/
  | accept {id : String} {activeTurnId : Option String} {message : MessageSubmission}
      {log : List Entry} {boundary : QueuedMessageBoundary}
      (admitted : Admitted settings log id activeTurnId message boundary) :
      Explains settings checks (.submit id activeTurnId message) log
        ⟨[], .ok (some (.accepted (boundary.delivery = .steer)))⟩
        (log ++ [⟨submitted id boundary message, false⟩])
  /-- Any other is refused. -/
  | refuse {id : String} {activeTurnId : Option String} {message : MessageSubmission}
      {log : List Entry} {answer : Answer}
      (barred : ∀ boundary, ¬Admitted settings log id activeTurnId message boundary)
      (refused : Refuses answer) :
      Explains settings checks (.submit id activeTurnId message) log ⟨[], answer⟩ log
  /-- An edited message keeps its place, and all but its id and text. -/
  | replace {id arguments text : String} {input : Option String} {before after : List Entry}
      {message : QueuedMessage}
      (editable : Editable checks before after message id arguments input text) :
      Explains settings checks (.edit id arguments input) (before ++ ⟨message, false⟩ :: after)
        ⟨[], .ok (some (.accepted (message.boundary.delivery = .steer)))⟩
        (before ++ ⟨editedMessage message id text, false⟩ :: after)
  /-- An edit that is not possible is refused. -/
  | refuseEdit {id arguments : String} {input : Option String} {log : List Entry}
      {answer : Answer}
      (barred : ∀ before message after text, log = before ++ ⟨message, false⟩ :: after →
        ¬Editable checks before after message id arguments input text)
      (refused : Refuses answer) :
      Explains settings checks (.edit id arguments input) log ⟨[], answer⟩ log
  /-- A model request gets all that steer its turn, in their order. -/
  | stage {turnId : String} {log : List Entry} :
      Explains settings checks (.stage turnId) log
        ⟨(waiting log).filter (steers turnId), .ok none⟩ (deliver (steers turnId) log)
  /-- A turn starts with one message. -/
  | consume {id : String} {before after : List Entry} {message : QueuedMessage}
      (starts : startsTurn message = true) (named : message.id = id) :
      Explains settings checks (.consume id) (before ++ ⟨message, false⟩ :: after)
        ⟨[message], .ok none⟩ (before ++ ⟨message, true⟩ :: after)
  /-- No waiting message of this name can start a turn. -/
  | missing {id : String} {log : List Entry} {error : Error}
      (absent : ∀ message ∈ waiting log, startsTurn message = true → message.id ≠ id) :
      Explains settings checks (.consume id) log ⟨[], .error error⟩ log
  /-- A turn that did not complete leaves what steered it to a later one. -/
  | finish {turnId : String} {outcome : ExecutionOutcome} {log : List Entry}
      (failed : outcome ≠ .completed) :
      Explains settings checks (.finish turnId outcome) log ⟨[], .ok none⟩
        (renew (promote turnId) log)
  | complete {turnId : String} {log : List Entry} :
      Explains settings checks (.finish turnId .completed) log ⟨[], .ok none⟩ log

/-- A log that explains a run and its outcomes, one by one. -/
inductive History (settings : MessageSettings) (checks : ExternalChecks) :
    List QueueOp → List Outcome → List Entry → Prop
  /-- Nothing was accepted. -/
  | nil : History settings checks [] [] []
  | step {operations : List QueueOp} {outcomes : List Outcome} {log next : List Entry}
      {operation : QueueOp} {outcome : Outcome}
      (before : History settings checks operations outcomes log)
      (explains : Explains settings checks operation log outcome next) :
      History settings checks (operations ++ [operation]) (outcomes ++ [outcome]) next

section Logs

variable {log before after : List Entry} {message : QueuedMessage}

theorem waiting_append (first second : List Entry) :
    waiting (first ++ second) = waiting first ++ waiting second := by
  unfold waiting
  rw [List.filter_append, List.map_append]

theorem delivered_append (first second : List Entry) :
    delivered (first ++ second) = delivered first ++ delivered second := by
  unfold delivered
  rw [List.filter_append, List.map_append]

theorem waiting_insert : waiting (before ++ ⟨message, false⟩ :: after) =
    waiting before ++ message :: waiting after := waiting_append before _

theorem waiting_skip : waiting (before ++ ⟨message, true⟩ :: after) =
    waiting before ++ waiting after := waiting_append before _

theorem waiting_split {index : Nat} (h : (waiting log)[index]? = some message) :
    ∃ before after, log = before ++ ⟨message, false⟩ :: after ∧
      (waiting before).length = index := by
  induction log generalizing index with
  | nil => cases h
  | cons entry rest ih =>
    obtain ⟨found, isDelivered⟩ := entry
    cases isDelivered with
    | true =>
      obtain ⟨before, after, rfl, hlength⟩ := ih h
      exact ⟨⟨found, true⟩ :: before, after, rfl, hlength⟩
    | false =>
      cases index with
      | zero =>
        obtain rfl := Option.some.inj h
        exact ⟨[], rest, rfl, rfl⟩
      | succ index =>
        obtain ⟨before, after, rfl, hlength⟩ := ih h
        exact ⟨⟨found, false⟩ :: before, after, rfl, congrArg (· + 1) hlength⟩

theorem waiting_deliver (chosen : QueuedMessage → Bool) (log : List Entry) :
    waiting (deliver chosen log) = (waiting log).filter fun message => !chosen message := by
  induction log with
  | nil => rfl
  | cons entry rest ih =>
    obtain ⟨message, isDelivered⟩ := entry
    unfold waiting deliver at ih ⊢
    cases isDelivered <;> cases hchosen : chosen message <;> simp [hchosen, ih]

theorem delivered_deliver (chosen : QueuedMessage → Bool) (log : List Entry) :
    (delivered (deliver chosen log)).Perm (delivered log ++ (waiting log).filter chosen) := by
  induction log with
  | nil => exact .nil
  | cons entry rest ih =>
    obtain ⟨message, isDelivered⟩ := entry
    unfold waiting delivered deliver at ih ⊢
    cases isDelivered with
    | true => simpa using ih
    | false =>
      cases hchosen : chosen message with
      | false => simpa [hchosen] using ih
      | true => simpa [hchosen] using (ih.cons message).trans List.perm_middle.symm

theorem waiting_renew (change : QueuedMessage → QueuedMessage) (log : List Entry) :
    waiting (renew change log) = (waiting log).map change := by
  induction log with
  | nil => rfl
  | cons entry rest ih =>
    obtain ⟨message, isDelivered⟩ := entry
    unfold waiting renew at ih ⊢
    cases isDelivered <;> simp [ih]

theorem delivered_renew (change : QueuedMessage → QueuedMessage) (log : List Entry) :
    delivered (renew change log) = delivered log := by
  induction log with
  | nil => rfl
  | cons entry rest ih =>
    obtain ⟨message, isDelivered⟩ := entry
    unfold delivered renew at ih ⊢
    cases isDelivered <;> simp [ih]

variable {settings : MessageSettings} {checks : ExternalChecks} {operation : QueueOp}
  {outcome : Outcome} {next : List Entry}

theorem Explains.delivered (h : Explains settings checks operation log outcome next) :
    (QueueRuns.delivered next).Perm (QueueRuns.delivered log ++ outcome.batch) := by
  cases h with
  | refuse barred refused => rw [List.append_nil]
  | refuseEdit barred refused => rw [List.append_nil]
  | missing absent => rw [List.append_nil]
  | complete => rw [List.append_nil]
  | accept admitted =>
    rw [delivered_append]
    rfl
  | replace editable =>
    rw [delivered_append, delivered_append, List.append_nil]
    rfl
  | stage => exact delivered_deliver _ _
  | consume starts named =>
    rw [delivered_append, delivered_append, List.append_assoc]
    exact (List.perm_append_singleton _ _).symm.append_left _
  | finish failed => rw [delivered_renew, List.append_nil]

theorem History.delivered {operations : List QueueOp} {outcomes : List Outcome}
    (h : History settings checks operations outcomes log) :
    (outcomes.flatMap Outcome.batch).Perm (QueueRuns.delivered log) := by
  induction h with
  | nil => exact .nil
  | step before explains ih =>
    rw [List.flatMap_append, List.flatMap_singleton]
    exact (ih.append_right _).trans explains.delivered.symm

end Logs

section Runs

variable {settings : MessageSettings} {checks : ExternalChecks}
  {widget : String → MessageEvent → Json} {queue : List QueuedMessage} {log : List Entry}

/-- A queue in which every message can be told by its id. -/
structure Orderly (queue : List QueuedMessage) : Prop where
  owned : ∀ message ∈ queue, message.owner = messagesOwner
  ids : (queue.map (·.id)).Nodup
  bounded : queue.length ≤ maxQueuedMessages

theorem Orderly.hasId_iff (h : Orderly queue) {id : String} {message : QueuedMessage}
    (hmem : message ∈ queue) : hasId id message = true ↔ message.id = id := by
  unfold hasId
  rw [h.owned message hmem, beq_self_eq_true, Bool.true_and, beq_iff_eq]

/-- A submission that can wait is accepted, and any other leaves the queue and is refused. -/
theorem enqueue_cases (h : Orderly queue) (hlog : waiting log = queue) (id : String)
    (activeTurnId : Option String) (message : MessageSubmission) :
    (∃ boundary longer events, Admitted settings log id activeTurnId message boundary ∧
      enqueue settings widget queue id activeTurnId message =
        .ok (.accepted (boundary.delivery = .steer), longer, events) ∧
      push queue (submitted id boundary message) = some longer) ∨
    ∃ reason, enqueue settings widget queue id activeTurnId message =
        .ok (.rejected reason, queue, []) ∧
      ∀ boundary, ¬Admitted settings log id activeTurnId message boundary := by
  have hcount : (queue.filter fun queued => queued.owner == messagesOwner).length =
      queue.length := by
    rw [List.filter_eq_self.mpr fun queued hqueued => by rw [h.owned queued hqueued]; rfl]
  unfold enqueue
  cases hboundary : prepareBoundary settings activeTurnId message with
  | error reason =>
    refine .inr ⟨reason, rfl, fun boundary hadmitted => ?_⟩
    have htarget := hadmitted.target
    rw [hboundary] at htarget
    cases htarget
  | ok boundary =>
    dsimp only
    rw [hcount]
    have hassemble : assemble messagesOwner id boundary (submittedEvent message boundary) =
        .ok (submitted id boundary message) := by
      simp [assemble, submittedEvent, submitted]
    by_cases hfull : settings.maxPending ≤ queue.length
    · refine .inr ⟨_, if_pos hfull, fun other hadmitted => ?_⟩
      have hroom := hadmitted.room.1
      rw [hlog] at hroom
      exact absurd hfull (Nat.not_le.mpr hroom)
    rw [if_neg hfull, hassemble]
    dsimp only
    cases hpush : push queue (submitted id boundary message) with
    | some longer =>
      obtain ⟨-, hroom, hother⟩ := push_eq_some hpush
      refine .inl ⟨boundary, longer, _, ⟨hboundary, ?_, fun other hmem hsame => ?_⟩, rfl, hpush⟩
      · rw [hlog]
        exact ⟨Nat.lt_of_not_le hfull, hroom⟩
      · rw [hlog] at hmem
        refine hother other hmem ?_
        rw [h.owned other hmem, hsame]
        rfl
    | none =>
      refine .inr ⟨_, rfl, fun other hadmitted => ?_⟩
      have hsome : push queue (submitted id boundary message) =
          some (queue ++ [submitted id boundary message]) := by
        refine if_neg (not_or.mpr ⟨?_, fun hany => ?_⟩)
        · have hroom := hadmitted.room.2
          rw [hlog] at hroom
          exact Nat.not_le.mpr hroom
        · obtain ⟨taken, hmem, hsame⟩ := List.any_eq_true.mp hany
          rw [← hlog] at hmem
          exact hadmitted.fresh taken hmem (beq_iff_eq.mp (Bool.and_eq_true_iff.mp hsame).2)
      rw [hsome] at hpush
      cases hpush

theorem edit_refused {id arguments : String} {input : Option String} {result : SubmissionResult}
    {edited : List QueuedMessage} {events : List EventMsg}
    (h : edit checks widget queue id arguments input = .ok (result, edited, events)) :
    (∃ inputChanged, result = .accepted inputChanged) ∨
      edited = queue ∧ ∃ reason, result = .rejected reason := by
  unfold edit at h
  split at h
  · cases h
    exact .inr ⟨rfl, _, rfl⟩
  split at h
  · cases h
    exact .inr ⟨rfl, _, rfl⟩
  split at h
  · cases h
    exact .inr ⟨rfl, _, rfl⟩
  dsimp only at h
  split at h
  · cases h
  · cases h
    exact .inr ⟨rfl, _, rfl⟩
  · cases h
    exact .inl ⟨_, rfl⟩

theorem edit_possible {before after : List Entry} {message : QueuedMessage} {id arguments : String}
    {input : Option String} {text : String}
    (h : Orderly (waiting (before ++ ⟨message, false⟩ :: after)))
    (hedit : Editable checks before after message id arguments input text) :
    ∃ inputChanged edited events, edit checks widget
      (waiting (before ++ ⟨message, false⟩ :: after)) id arguments input =
        .ok (.accepted inputChanged, edited, events) := by
  rw [waiting_insert] at h ⊢
  have hids := h.ids
  rw [List.map_append, List.map_cons, List.nodup_append] at hids
  have hmember : message ∈ waiting before ++ message :: waiting after :=
    List.mem_append_right _ (List.mem_cons_self ..)
  have hnamed := (h.hasId_iff hmember).mpr hedit.named
  have hearlier : ∀ other ∈ waiting before, hasId arguments other = false := fun other hother => by
    by_contra hhas
    have hsame := (h.hasId_iff (List.mem_append_left _ hother)).mp (by simpa using hhas)
    exact hids.2.2 other.id (List.mem_map.mpr ⟨other, hother, rfl⟩) message.id
      (List.mem_cons_self ..) (hsame.trans hedit.named.symm)
  have hfound : (waiting before ++ message :: waiting after).find? (hasId arguments) =
      some message := by
    rw [List.find?_append, List.find?_eq_none.mpr fun other hother => by
      rw [hearlier other hother]; exact Bool.false_ne_true, Option.none_or, List.find?_cons, hnamed]
  have hindex : (waiting before ++ message :: waiting after).findIdx? (hasId arguments) =
      some (waiting before).length := by
    rw [List.findIdx?_append, List.findIdx?_eq_none_iff.mpr hearlier, Option.none_or,
      List.findIdx?_cons, if_pos hnamed, Option.map_some, Nat.zero_add]
  have herased : (waiting before ++ message :: waiting after).eraseIdx (waiting before).length =
      waiting before ++ waiting after := by
    rw [List.eraseIdx_append_of_length_le (Nat.le_refl _), Nat.sub_self]
    rfl
  have hfresh : ¬(waiting before ++ waiting after).any (hasId id) = true := fun hany => by
    obtain ⟨other, hother, hhas⟩ := List.any_eq_true.mp hany
    unfold hasId at hhas
    exact hedit.fresh other hother (beq_iff_eq.mp (Bool.and_eq_true_iff.mp hhas).2)
  obtain ⟨hinput, hblank⟩ := hedit.given
  have hfilter : (input.filter fun text => !isBlank text) = some text :=
    Option.filter_eq_some_iff.mpr ⟨hinput, by rw [hblank]; rfl⟩
  unfold edit replace
  rw [hfilter]
  dsimp only
  rw [hfound]
  dsimp only
  rw [if_neg (not_not.mpr hedit.author), hindex]
  dsimp only
  rw [herased, if_neg hfresh, find_at hindex hfound]
  dsimp only
  rw [replaceMessage_edited, hedit.valid]
  exact ⟨_, _, _, rfl⟩

theorem consumeNextTurn_finds {id : String} {message : QueuedMessage} (hmember : message ∈ queue)
    (hstarts : startsTurn message = true) (hid : message.id = id) :
    ∃ result, consumeNextTurn queue id = .ok result := by
  unfold consumeNextTurn
  cases hfound : queue.findIdx? fun queued => startsTurn queued && queued.id == id with
  | none =>
    have hnot := List.findIdx?_eq_none_iff.mp hfound message hmember
    rw [hstarts, hid, beq_self_eq_true] at hnot
    cases hnot
  | some index =>
    obtain ⟨hless, -, -⟩ := List.findIdx?_eq_some_iff_getElem.mp hfound
    dsimp only
    rw [List.getElem?_eq_getElem hless]
    exact ⟨_, rfl⟩

theorem Orderly.push (h : Orderly queue) {item : QueuedMessage} {longer : List QueuedMessage}
    (howner : item.owner = messagesOwner) (hpush : push queue item = some longer) :
    Orderly longer := by
  obtain ⟨rfl, hroom, hother⟩ := push_eq_some hpush
  refine ⟨List.forall_mem_append.mpr ⟨h.owned, List.forall_mem_singleton.mpr howner⟩, ?_, ?_⟩
  · rw [List.map_append, List.map_singleton, List.nodup_append]
    refine ⟨h.ids, List.nodup_singleton _, ?_⟩
    intro id hid other hnew hsame
    obtain ⟨message, hmessage, rfl⟩ := List.mem_map.mp hid
    refine hother message hmessage ?_
    rw [h.owned message hmessage, howner, hsame, List.mem_singleton.mp hnew]
  · rw [List.length_append, List.length_singleton]
    omega

theorem Orderly.set (h : Orderly queue) {index : Nat} {queued replacement : QueuedMessage}
    (hqueued : queue[index]? = some queued) (howner : replacement.owner = messagesOwner)
    (hother : ∀ other ∈ queue.eraseIdx index, other.id ≠ replacement.id) :
    Orderly (queue.set index replacement) := by
  have hless : index < queue.length := (List.getElem?_eq_some_iff.mp hqueued).1
  have hperm := List.set_perm_cons_eraseIdx hless replacement
  have hrest := List.eraseIdx_sublist queue index
  refine ⟨?_, ?_, ?_⟩
  · intro message hmessage
    rcases List.mem_cons.mp (hperm.subset hmessage) with rfl | hold
    · exact howner
    · exact h.owned message (hrest.subset hold)
  · refine (hperm.map (·.id)).nodup_iff.mpr (List.nodup_cons.mpr ⟨?_, h.ids.sublist (hrest.map _)⟩)
    intro hmem
    obtain ⟨other, hmember, hsame⟩ := List.mem_map.mp hmem
    exact hother other hmember hsame
  · rw [List.length_set]
    exact h.bounded

theorem Orderly.sublist (h : Orderly queue) {rest : List QueuedMessage}
    (hrest : rest.Sublist queue) : Orderly rest :=
  ⟨fun message hmessage => h.owned message (hrest.subset hmessage), h.ids.sublist (hrest.map _),
    hrest.length_le.trans h.bounded⟩

theorem promote_same (turnId : String) (message : QueuedMessage) :
    (promote turnId message).owner = message.owner ∧ (promote turnId message).id = message.id := by
  unfold promote
  split <;> exact ⟨rfl, rfl⟩

theorem Orderly.promote (h : Orderly queue) (turnId : String) :
    Orderly (queue.map (promote turnId)) := by
  refine ⟨?_, ?_, ?_⟩
  · intro message hmessage
    obtain ⟨old, hold, rfl⟩ := List.mem_map.mp hmessage
    rw [(promote_same turnId old).1]
    exact h.owned old hold
  · have hids : (queue.map (MessageQueue.promote turnId)).map (·.id) = queue.map (·.id) := by
      rw [List.map_map]
      exact List.map_congr_left fun message _ => (promote_same turnId message).2
    rw [hids]
    exact h.ids
  · rw [List.length_map]
    exact h.bounded

variable (settings checks widget)

/-- Every operation is explained by the log, and keeps the queue in order. -/
theorem step_explained (h : Orderly queue) (hlog : waiting log = queue) (operation : QueueOp) :
    ∃ next, Explains settings checks operation log
        (applyOp settings checks widget queue operation).2 next ∧
      waiting next = (applyOp settings checks widget queue operation).1 ∧
      Orderly (applyOp settings checks widget queue operation).1 := by
  unfold applyOp
  cases operation with
  | submit id activeTurnId message =>
    dsimp only
    rcases @enqueue_cases settings widget queue log h hlog id activeTurnId message with
      ⟨boundary, longer, events, hadmitted, hresult, hpush⟩ | ⟨reason, hresult, hbarred⟩
    · rw [hresult]
      refine ⟨_, .accept hadmitted, ?_, h.push rfl hpush⟩
      rw [waiting_append, hlog, (push_eq_some hpush).1]
      rfl
    · rw [hresult]
      exact ⟨log, .refuse hbarred trivial, hlog, h⟩
  | edit id arguments input =>
    dsimp only
    have hbarred : (∀ inputChanged edited events, edit checks widget queue id arguments input ≠
        .ok (.accepted inputChanged, edited, events)) →
        ∀ before message after text, log = before ++ ⟨message, false⟩ :: after →
          ¬Editable checks before after message id arguments input text := by
      intro hrefused before message after text hsplit hedit
      rw [← hlog, hsplit] at h hrefused
      obtain ⟨inputChanged, edited, events, haccepted⟩ :=
        @edit_possible checks widget _ _ _ _ _ _ _ h hedit
      exact hrefused inputChanged edited events haccepted
    cases hresult : edit checks widget queue id arguments input with
    | error error =>
      refine ⟨log, .refuseEdit (hbarred ?_) trivial, hlog, h⟩
      intro inputChanged edited events haccepted
      rw [hresult] at haccepted
      cases haccepted
    | ok result =>
      obtain ⟨result, edited, events⟩ := result
      rcases edit_refused hresult with ⟨inputChanged, rfl⟩ | ⟨rfl, reason, rfl⟩
      · obtain ⟨index, queued, text, hqueued, hnamed, hauthor, hinput, hblank, hother, hvalid,
          rfl, rfl⟩ := edit_accepted hresult
        have hmember := List.mem_of_getElem? hqueued
        have hnamed := (h.hasId_iff hmember).mp hnamed
        have hfresh : ∀ other ∈ queue.eraseIdx index, other.id ≠ id := fun other hmember hsame => by
          have hhas := (h.hasId_iff ((List.eraseIdx_sublist queue _).subset hmember)).mpr hsame
          rw [hother other hmember] at hhas
          cases hhas
        have hordered := @Orderly.set _ h _ _ (editedMessage queued id text) hqueued
          (h.owned queued hmember) hfresh
        rw [← hlog] at hqueued
        obtain ⟨before, after, rfl, rfl⟩ := waiting_split hqueued
        have herased : (waiting (before ++ ⟨queued, false⟩ :: after)).eraseIdx
            (waiting before).length = waiting before ++ waiting after := by
          rw [waiting_insert, List.eraseIdx_append_of_length_le (Nat.le_refl _), Nat.sub_self]
          rfl
        rw [← hlog, herased] at hfresh
        refine ⟨_, .replace ⟨hnamed, hauthor, ⟨hinput, hblank⟩, hfresh, hvalid⟩, ?_, hordered⟩
        rw [← hlog, waiting_insert, waiting_insert, List.set_append_right _ _ (Nat.le_refl _),
          Nat.sub_self]
        rfl
      · refine ⟨log, .refuseEdit (hbarred ?_) trivial, hlog, h⟩
        intro inputChanged edited events haccepted
        rw [hresult] at haccepted
        cases haccepted
  | stage turnId =>
    refine ⟨deliver (steers turnId) log, ?_, ?_, h.sublist List.filter_sublist⟩
    · rw [← hlog]
      exact .stage
    · rw [waiting_deliver, hlog]
      rfl
  | consume id =>
    dsimp only
    cases hresult : consumeNextTurn queue id with
    | error error =>
      refine ⟨log, .missing fun message hmember hstarts hid => ?_, hlog, h⟩
      rw [hlog] at hmember
      obtain ⟨index, hfound⟩ := consumeNextTurn_finds hmember hstarts hid
      rw [hresult] at hfound
      cases hfound
    | ok result =>
      obtain ⟨index, queued, rest⟩ := result
      obtain ⟨hqueued, rfl, hstarts, hid⟩ := consumeNextTurn_ok hresult
      rw [← hlog] at hqueued
      obtain ⟨before, after, rfl, rfl⟩ := waiting_split hqueued
      refine ⟨_, .consume hstarts hid, ?_, h.sublist (List.eraseIdx_sublist queue _)⟩
      rw [← hlog, waiting_skip, waiting_insert, List.eraseIdx_append_of_length_le (Nat.le_refl _),
        Nat.sub_self]
      rfl
  | finish turnId outcome =>
    dsimp only
    unfold finishMessageTurn
    by_cases hcompleted : outcome = .completed
    · rw [if_pos hcompleted, hcompleted]
      exact ⟨log, .complete, hlog, h⟩
    · rw [if_neg hcompleted]
      refine ⟨_, .finish hcompleted, ?_, h.promote turnId⟩
      rw [waiting_renew, hlog]
      rfl

/-- In every run the queue is the waiting part of a log that explains the run: a message has a
place in it exactly if its caller was told that it is accepted, keeps the place when it is edited or
waits for a later turn, and is delivered at most once, in the order of its batch. At most the
permitted number wait, with distinct ids. -/
theorem queue_refines_log (operations : List QueueOp) : ∃ log,
    History settings checks operations (runOps settings checks widget operations).2 log ∧
    waiting log = (runOps settings checks widget operations).1 ∧
    ((runOps settings checks widget operations).2.flatMap Outcome.batch).Perm (delivered log) ∧
    Orderly (runOps settings checks widget operations).1 := by
  have hrun : ∃ log,
      History settings checks operations (runOps settings checks widget operations).2 log ∧
      waiting log = (runOps settings checks widget operations).1 ∧
      Orderly (runOps settings checks widget operations).1 := by
    induction operations using List.reverseRecOn with
    | nil => exact ⟨[], .nil, rfl, List.forall_mem_nil _, List.nodup_nil, Nat.zero_le _⟩
    | append_singleton before operation ih =>
      obtain ⟨log, hhistory, hlog, horderly⟩ := ih
      obtain ⟨next, hexplains, hnext, hkept⟩ :=
        step_explained settings checks widget horderly hlog operation
      unfold runOps at *
      rw [List.foldl_append]
      exact ⟨next, hhistory.step hexplains, hnext, hkept⟩
  obtain ⟨log, hhistory, hlog, horderly⟩ := hrun
  exact ⟨log, hhistory, hlog, hhistory.delivered, horderly⟩

end Runs

end MobiusAgent.QueueRuns
