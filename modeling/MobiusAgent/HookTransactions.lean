import MobiusAgent.RoutineCatalog

/-!
# What the transactions on the hook tables do

One lemma says all that each transaction can do. Recording an event adds it
with one outbox row for each consumer, or finds it unchanged. Saving bindings
and accepting or dropping actions rearrange the tables: no event and no action
identity is added. Later results use these lemmas and not the definitions.
-/

namespace MobiusAgent.HookTransactions

open ProtocolEvents CheckpointRecords CheckpointValidation HookRecords RoutineSchedules
open HookStore RoutineCatalog

section Recording

variable {digest : String → String → String} {tables filled after : HookTables}
  {event : HookEvent} {sequence : Option Nat}

/-- The bindings that consume an event. -/
def consumers (tables : HookTables) (event : HookEvent) (sequence : Option Nat) :
    List BindingRow :=
  (candidateBindings tables event).filter fun row =>
    consumes row event sequence && !revisits tables row event

/-- The outbox rows that an event causes. -/
def newRows (digest : String → String → String) (tables : HookTables) (event : HookEvent)
    (sequence : Option Nat) : List OutboxRow :=
  if maxHookAncestry ≤ event.ancestry.length then []
  else (consumers tables event sequence).map (outboxRow digest event)

def withEvent (digest : String → String → String) (tables : HookTables) (event : HookEvent)
    (sequence : Option Nat) : HookTables :=
  { tables with
    events := tables.events ++ [event]
    journalSequences := tables.journalSequences ++
      sequence.toList.map fun sequence => (event.id, sequence)
    outbox := tables.outbox ++ newRows digest tables event sequence }

theorem revisits_append (hchain : event.id ∉ event.ancestry) (row other : BindingRow) :
    revisits { tables with outbox := tables.outbox ++ [outboxRow digest event other] } row event =
      revisits tables row event := by
  have hsame : ∀ ancestor ∈ event.ancestry,
      ((tables.outbox ++ [outboxRow digest event other]).any fun action =>
        decide (action.botId = row.botId) && decide (action.bindingId = row.id) &&
          decide (action.eventId = ancestor)) =
      tables.outbox.any fun action =>
        decide (action.botId = row.botId) && decide (action.bindingId = row.id) &&
          decide (action.eventId = ancestor) := by
    intro ancestor hancestor
    have hne : event.id ≠ ancestor := fun heq => hchain (heq ▸ hancestor)
    rw [List.any_append]
    simp [outboxRow, hne]
  unfold revisits
  rw [Bool.eq_iff_iff, List.any_eq_true, List.any_eq_true]
  constructor
  · rintro ⟨ancestor, hancestor, hrow⟩
    exact ⟨ancestor, hancestor, (hsame ancestor hancestor).symm.trans hrow⟩
  · rintro ⟨ancestor, hancestor, hrow⟩
    exact ⟨ancestor, hancestor, (hsame ancestor hancestor).trans hrow⟩

theorem fillOutbox_ok (hchain : event.id ∉ event.ancestry) {rows : List BindingRow}
    (h : fillOutbox digest event sequence tables rows = .ok filled) :
    filled = { tables with
      outbox := tables.outbox ++
        (rows.filter fun row => consumes row event sequence && !revisits tables row event).map
          (outboxRow digest event) } := by
  induction rows generalizing tables with
  | nil =>
    rw [← Except.ok.inj h]
    simp
  | cons row rest ih =>
    unfold fillOutbox at h
    by_cases hconsumes : (consumes row event sequence && !revisits tables row event) = true
    · rw [if_pos hconsumes] at h
      split at h
      · cases h
      · have hrest := ih h
        simp only [revisits_append hchain] at hrest
        rw [hrest, List.filter_cons, if_pos hconsumes]
        simp
    · rw [if_neg hconsumes] at h
      rw [ih h, List.filter_cons, if_neg hconsumes]

theorem fillOutbox_of_fresh {rows : List BindingRow}
    (hnodup : (rows.map fun row => (outboxRow digest event row).id).Nodup)
    (hfresh : ∀ row ∈ rows, ∀ other ∈ tables.outbox, other.id ≠ (outboxRow digest event row).id) :
    ∃ filled, fillOutbox digest event sequence tables rows = .ok filled := by
  induction rows generalizing tables with
  | nil => exact ⟨tables, rfl⟩
  | cons row rest ih =>
    rw [List.map_cons, List.nodup_cons] at hnodup
    rw [List.forall_mem_cons] at hfresh
    unfold fillOutbox
    split
    · have hnew : (tables.outbox.any fun other =>
          decide (other.id = (outboxRow digest event row).id)) = false := by
        rw [List.any_eq_false]
        intro other hother
        simpa using hfresh.1 other hother
      rw [hnew]
      refine ih hnodup.2 ?_
      intro later hlater other hother
      rw [List.mem_append, List.mem_singleton] at hother
      cases hother with
      | inl hold => exact hfresh.2 later hlater other hold
      | inr hrow =>
        rw [hrow]
        intro heq
        exact hnodup.1 (heq ▸ List.mem_map_of_mem hlater)
    · exact ih hnodup.2 hfresh.2

theorem validateEvent_chain (h : validateEvent event = .ok ()) : event.id ∉ event.ancestry := by
  unfold validateEvent at h
  obtain ⟨-, h⟩ := bind_ok_iff.mp h
  obtain ⟨-, h⟩ := bind_ok_iff.mp h
  obtain ⟨-, h⟩ := bind_ok_iff.mp h
  obtain ⟨h, -⟩ := bind_ok_iff.mp h
  have hrejected := rejectIf_ok_iff.mp h
  rw [Bool.or_eq_false_iff, Bool.or_eq_false_iff] at hrejected
  intro hmem
  have hany := List.any_eq_false.mp hrejected.1.2 event.id hmem
  simp at hany

theorem recordEvent_cases {isNew : Bool}
    (h : recordEvent digest tables event sequence = .ok (isNew, after)) :
    validateEvent event = .ok () ∧
      ((isNew = false ∧ after = tables ∧ tables.event? event.id = some event) ∨
        (isNew = true ∧ tables.event? event.id = none ∧
          after = withEvent digest tables event sequence)) := by
  unfold recordEvent at h
  obtain ⟨⟨⟩, hvalid, h⟩ := bind_ok h
  refine ⟨hvalid, ?_⟩
  have hchain := validateEvent_chain hvalid
  cases hprevious : tables.event? event.id with
  | some previous =>
    rw [hprevious] at h
    obtain ⟨⟨⟩, hsame, h⟩ := bind_ok h
    have hequal : previous = event := by simpa using rejectIf_ok_iff.mp hsame
    have hresult := Except.ok.inj h
    injection hresult with hnew hafter
    exact .inl ⟨hnew.symm, hafter.symm, by rw [hequal]⟩
  | none =>
    rw [hprevious] at h
    obtain ⟨⟨⟩, -, h⟩ := bind_ok h
    right
    dsimp only at h
    split at h
    · rename_i hfull
      have hresult := Except.ok.inj h
      injection hresult with hnew hafter
      refine ⟨hnew.symm, rfl, ?_⟩
      rw [← hafter, withEvent, newRows, if_pos hfull, List.append_nil]
    · rename_i hfull
      obtain ⟨filled, hfilled, h⟩ := bind_ok h
      have hresult := Except.ok.inj h
      injection hresult with hnew hafter
      refine ⟨hnew.symm, rfl, ?_⟩
      rw [← hafter, fillOutbox_ok hchain hfilled, withEvent, newRows, if_neg hfull]
      rfl

theorem fillOutbox_ids {rows : List BindingRow}
    (h : fillOutbox digest event sequence tables rows = .ok filled)
    (hids : (tables.outbox.map (·.id)).Nodup) : (filled.outbox.map (·.id)).Nodup := by
  induction rows generalizing tables with
  | nil =>
    rw [← Except.ok.inj h]
    exact hids
  | cons row rest ih =>
    unfold fillOutbox at h
    split at h
    · split at h
      · cases h
      · rename_i hfresh
        refine ih h ?_
        rw [List.map_append, List.nodup_append]
        refine ⟨hids, List.nodup_singleton _, ?_⟩
        intro id hold other hother heq
        obtain ⟨old, hmem, hid⟩ := List.mem_map.mp hold
        rw [List.map_singleton, List.mem_singleton] at hother
        rw [Bool.not_eq_true, List.any_eq_false] at hfresh
        have hdistinct := hfresh old hmem
        rw [decide_eq_true_eq] at hdistinct
        exact hdistinct (hid.trans (heq.trans hother))
    · exact ih h hids

theorem recordEvent_ids {isNew : Bool}
    (h : recordEvent digest tables event sequence = .ok (isNew, after))
    (hids : (tables.outbox.map (·.id)).Nodup) : (after.outbox.map (·.id)).Nodup := by
  unfold recordEvent at h
  obtain ⟨⟨⟩, -, h⟩ := bind_ok h
  cases hprevious : tables.event? event.id with
  | some previous =>
    rw [hprevious] at h
    obtain ⟨⟨⟩, -, h⟩ := bind_ok h
    rw [← (Prod.mk.inj (Except.ok.inj h)).2]
    exact hids
  | none =>
    rw [hprevious] at h
    obtain ⟨⟨⟩, -, h⟩ := bind_ok h
    dsimp only at h
    split at h
    · rw [← (Prod.mk.inj (Except.ok.inj h)).2]
      exact hids
    · obtain ⟨filled, hfilled, h⟩ := bind_ok h
      rw [← (Prod.mk.inj (Except.ok.inj h)).2]
      exact fillOutbox_ids hfilled hids

theorem newRows_event {row : OutboxRow} (h : row ∈ newRows digest tables event sequence) :
    row.eventId = event.id ∧ row.id = outboxId digest row.eventId row.botId row.bindingId := by
  unfold newRows at h
  split at h
  · cases h
  · obtain ⟨binding, -, rfl⟩ := List.mem_map.mp h
    exact ⟨rfl, rfl⟩

theorem recordEvent_of_fresh (hvalid : validateEvent event = .ok ())
    (hnone : tables.event? event.id = none) (hsequence : ∀ n ∈ sequence, (n : Int) ≤ i64Max)
    (hnodup : ((candidateBindings tables event).map fun row =>
      (outboxRow digest event row).id).Nodup)
    (hfresh : ∀ row ∈ candidateBindings tables event, ∀ other ∈ tables.outbox,
      other.id ≠ (outboxRow digest event row).id) :
    recordEvent digest tables event sequence =
      .ok (true, withEvent digest tables event sequence) := by
  have hsmall : (sequence.any fun n : Nat => decide (i64Max < (n : Int))) = false := by
    cases sequence with
    | none => rfl
    | some n =>
      have hn := hsequence n rfl
      simp only [Option.any_some, decide_eq_false_iff_not]
      omega
  have hresult : ∃ after, recordEvent digest tables event sequence = .ok (true, after) := by
    unfold recordEvent
    rw [hvalid, hnone, hsmall]
    by_cases hfull : maxHookAncestry ≤ event.ancestry.length
    · exact ⟨_, if_pos hfull⟩
    · obtain ⟨filled, hfilled⟩ := @fillOutbox_of_fresh digest
        { tables with
          events := tables.events ++ [event]
          journalSequences := tables.journalSequences ++
            sequence.toList.map fun sequence => (event.id, sequence) }
        event sequence _ hnodup hfresh
      exact ⟨filled, (if_neg hfull).trans
        (except_bind_ok_iff.mpr ⟨filled, hfilled, rfl⟩)⟩
  obtain ⟨after, hafter⟩ := hresult
  obtain ⟨-, ⟨hold, -⟩ | ⟨-, -, hnew⟩⟩ := recordEvent_cases hafter
  · cases hold
  · rw [hafter, hnew]

end Recording

section Pruning

/-- A transaction that adds no event and only removes actions that were not accepted. -/
structure Pruned (before after : HookTables) : Prop where
  events : after.events = before.events
  journalSequences : after.journalSequences = before.journalSequences
  cursors : after.cursors = before.cursors
  outbox : after.outbox.Sublist before.outbox
  accepted : ∀ row ∈ before.outbox, row.accepted = true → row ∈ after.outbox

variable {tables before between after saved : HookTables} {botId id : String}
  {routineId : Option String}

theorem Pruned.refl (tables : HookTables) : Pruned tables tables :=
  ⟨rfl, rfl, rfl, List.Sublist.refl _, fun _ hrow _ => hrow⟩

theorem Pruned.trans (first : Pruned before between) (second : Pruned between after) :
    Pruned before after where
  events := second.events.trans first.events
  journalSequences := second.journalSequences.trans first.journalSequences
  cursors := second.cursors.trans first.cursors
  outbox := second.outbox.trans first.outbox
  accepted := fun row hrow haccepted =>
    second.accepted row (first.accepted row hrow haccepted) haccepted

theorem Pruned.of_bindings (tables : HookTables) (bindings : List BindingRow) :
    Pruned tables { tables with bindings := bindings } :=
  ⟨rfl, rfl, rfl, List.Sublist.refl _, fun _ hrow _ => hrow⟩

theorem dropPending_pruned (tables : HookTables) (botId id : String) :
    Pruned tables (dropPending tables botId id) := by
  refine ⟨rfl, rfl, rfl, List.filter_sublist, ?_⟩
  intro row hrow haccepted
  exact List.mem_filter.mpr ⟨hrow, by simp [haccepted]⟩

theorem removeBinding_pruned (tables : HookTables) (botId id : String) :
    Pruned tables (removeBinding tables botId id) :=
  (dropPending_pruned tables botId id).trans (Pruned.of_bindings _ _)

theorem cancelSourcePending_pruned (tables : HookTables) (source : HookSource) :
    Pruned tables (cancelSourcePending tables source) := by
  refine ⟨rfl, rfl, rfl, List.filter_sublist, ?_⟩
  intro row hrow haccepted
  exact List.mem_filter.mpr ⟨hrow, by rw [haccepted]; rfl⟩

def bindingKeys (tables : HookTables) : List (String × String) :=
  tables.bindings.map fun row => (row.botId, row.id)

theorem binding?_key {row : BindingRow} (h : tables.binding? botId id = some row) :
    row.botId = botId ∧ row.id = id := by
  have hfound := List.find?_some h
  simpa using hfound

theorem binding?_none (h : tables.binding? botId id = none) :
    (botId, id) ∉ bindingKeys tables := by
  intro hmem
  obtain ⟨row, hrow, hkey⟩ := List.mem_map.mp hmem
  have hother := List.find?_eq_none.mp h row hrow
  simp only [Prod.mk.injEq] at hkey
  simp [hkey.1, hkey.2] at hother

theorem find?_filter_of_kept {rows : List BindingRow} {matching kept : BindingRow → Bool}
    {row : BindingRow} (hfound : rows.find? matching = some row) (hkept : kept row = true) :
    (rows.filter kept).find? matching = some row := by
  induction rows with
  | nil => cases hfound
  | cons first rest ih =>
    rw [List.find?_cons] at hfound
    cases hmatch : matching first with
    | true =>
      rw [hmatch] at hfound
      have hfirst := Option.some.inj hfound
      rw [← hfirst] at hkept ⊢
      rw [List.filter_cons_of_pos hkept, List.find?_cons, hmatch]
    | false =>
      rw [hmatch] at hfound
      cases hkeep : kept first with
      | true => rw [List.filter_cons_of_pos hkeep, List.find?_cons, hmatch]; exact ih hfound
      | false => rw [List.filter_cons_of_neg (by simp [hkeep])]; exact ih hfound

/-- What is known of the bindings after one of them is saved. -/
structure BindingSaved (tables saved : HookTables) (botId id : String)
    (routineId : Option String) : Prop where
  pruned : Pruned tables saved
  keys : (bindingKeys tables).Nodup → (bindingKeys saved).Nodup
  found : ∃ row, saved.binding? botId id = some row ∧ row.routineId = routineId
  kept : ∀ botId' id' row, tables.binding? botId' id' = some row →
    ∃ row', saved.binding? botId' id' = some row' ∧ row'.routineId = row.routineId

theorem find?_map_key {rows : List BindingRow} {change : BindingRow → BindingRow}
    (hkeys : ∀ row, (change row).botId = row.botId ∧ (change row).id = row.id)
    (botId id : String) :
    (rows.map change).find? (fun row => decide (row.botId = botId) && decide (row.id = id)) =
      (rows.find? fun row => decide (row.botId = botId) && decide (row.id = id)).map change := by
  rw [List.find?_map]
  congr 1
  congr 1
  funext row
  simp only [Function.comp, (hkeys row).1, (hkeys row).2]

theorem mergeBinding_key (previous row : BindingRow) :
    (mergeBinding previous row).botId = previous.botId ∧
      (mergeBinding previous row).id = previous.id ∧
      (mergeBinding previous row).routineId = previous.routineId :=
  ⟨rfl, rfl, rfl⟩

theorem saveBinding_saved {binding : HookBinding BotAction} {enabled : Bool} {sequence : Nat}
    {now : Int}
    (h : saveBinding tables botId routineId binding enabled sequence now = .ok saved) :
    BindingSaved tables saved botId binding.id routineId := by
  unfold saveBinding at h
  obtain ⟨⟨⟩, -, h⟩ := bind_ok h
  dsimp only at h
  cases hprevious : tables.binding? botId binding.id with
  | none =>
    rw [hprevious] at h
    set row : BindingRow := ⟨botId, binding.id, routineId, binding.on, binding.action, enabled,
      sequence, now⟩ with hrow
    have hbindings : saved.bindings = tables.bindings ++ [row] ∧ Pruned tables saved := by
      rw [← Except.ok.inj h]
      split
      · exact ⟨rfl, Pruned.of_bindings _ _⟩
      · exact ⟨rfl, (Pruned.of_bindings _ _).trans (dropPending_pruned _ _ _)⟩
    refine ⟨hbindings.2, ?_, ⟨row, ?_, rfl⟩, ?_⟩
    · intro hnodup
      have hkeys : bindingKeys saved = bindingKeys tables ++ [(botId, binding.id)] := by
        unfold bindingKeys
        rw [hbindings.1, List.map_append]
        rfl
      rw [hkeys]
      exact hnodup.append (List.nodup_singleton _)
        (List.disjoint_singleton.mpr (binding?_none hprevious))
    · unfold HookTables.binding? at hprevious ⊢
      rw [hbindings.1, List.find?_append, hprevious, hrow]
      simp
    · intro botId' id' other hother
      refine ⟨other, ?_, rfl⟩
      unfold HookTables.binding? at hother ⊢
      rw [hbindings.1, List.find?_append, hother, Option.some_or]
  | some previous =>
    rw [hprevious] at h
    dsimp only at h
    split at h
    · cases h
    rename_i howner
    set change : BindingRow → BindingRow := fun other =>
      if other.botId = botId ∧ other.id = binding.id then
        mergeBinding other ⟨botId, binding.id, routineId, binding.on, binding.action, enabled,
          sequence, now⟩
      else other with hchange
    have hkeep : ∀ row, (change row).botId = row.botId ∧ (change row).id = row.id ∧
        (change row).routineId = row.routineId := by
      intro row
      rw [hchange]
      dsimp only
      split
      · exact mergeBinding_key _ _
      · exact ⟨rfl, rfl, rfl⟩
    have hbindings : saved.bindings = tables.bindings.map change ∧ Pruned tables saved := by
      rw [← Except.ok.inj h]
      split
      · exact ⟨rfl, (Pruned.of_bindings _ _).trans (dropPending_pruned _ _ _)⟩
      · exact ⟨rfl, Pruned.of_bindings _ _⟩
    have hfind : ∀ botId' id', saved.binding? botId' id' =
        (tables.binding? botId' id').map change := by
      intro botId' id'
      unfold HookTables.binding?
      rw [hbindings.1]
      exact find?_map_key (fun row => ⟨(hkeep row).1, (hkeep row).2.1⟩) botId' id'
    refine ⟨hbindings.2, ?_, ⟨change previous, ?_, ?_⟩, ?_⟩
    · intro hnodup
      have hkeys : bindingKeys saved = bindingKeys tables := by
        unfold bindingKeys
        rw [hbindings.1, List.map_map]
        refine List.map_congr_left ?_
        intro row _
        simp only [Function.comp, (hkeep row).1, (hkeep row).2.1]
      rw [hkeys]
      exact hnodup
    · rw [hfind, hprevious]
      rfl
    · rw [(hkeep previous).2.2]
      simpa using howner
    · intro botId' id' other hother
      refine ⟨change other, ?_, (hkeep other).2.2⟩
      rw [hfind, hother]
      rfl

theorem saveBinding_of_owned {binding : HookBinding BotAction} {enabled : Bool} {sequence : Nat}
    {now : Int} (hsequence : (sequence : Int) ≤ i64Max)
    (howned : ∀ row, tables.binding? botId binding.id = some row → row.routineId = routineId) :
    ∃ saved, saveBinding tables botId routineId binding enabled sequence now = .ok saved := by
  unfold saveBinding
  have hfits : rejectIf (decide (i64Max < (sequence : Int)))
      (.config ("binding sequence is too large: " ++ intConversionError)) = .ok () := by
    rw [rejectIf_ok_iff, decide_eq_false_iff_not]
    omega
  rw [hfits]
  cases hprevious : tables.binding? botId binding.id with
  | none => exact ⟨_, rfl⟩
  | some previous =>
    have howner : ¬ previous.routineId ≠ routineId := not_not.mpr (howned previous hprevious)
    exact ⟨_, if_neg howner⟩

end Pruning

section Syncing

variable {tables saved after : HookTables} {routines : List StoredRoutine} {now : Int}

/-- The binding of a routine is held under its own identity. -/
def HeldBy (tables : HookTables) (routine : StoredRoutine)
    (stored : StoredRoutineBinding RoutineAction) : Prop :=
  ∃ row, tables.binding? routine.botId stored.definition.id = some row ∧
    row.routineId = some routine.id

/-- The tables hold every binding of the routines. -/
def Held (tables : HookTables) (routines : List StoredRoutine) : Prop :=
  ∀ routine ∈ routines, ∀ stored ∈ routine.bindings, HeldBy tables routine stored

/-- The cursors have sequences of the journal. -/
def Positioned (tables : HookTables) : Prop :=
  ∀ row ∈ tables.cursors, 0 ≤ row.sequence ∧ row.sequence ≤ i64Max

/-- What is known after bindings of routines are saved. -/
structure Synced (tables saved : HookTables) : Prop where
  pruned : Pruned tables saved
  keys : (bindingKeys tables).Nodup → (bindingKeys saved).Nodup
  kept : ∀ botId id row, tables.binding? botId id = some row →
    ∃ row', saved.binding? botId id = some row' ∧ row'.routineId = row.routineId

theorem Synced.refl (tables : HookTables) : Synced tables tables :=
  ⟨Pruned.refl tables, id, fun _ _ row hrow => ⟨row, hrow, rfl⟩⟩

theorem Synced.trans (first : Synced tables saved) (second : Synced saved after) :
    Synced tables after where
  pruned := first.pruned.trans second.pruned
  keys := fun hnodup => second.keys (first.keys hnodup)
  kept := by
    intro botId id row hrow
    obtain ⟨between, hbetween, howner⟩ := first.kept botId id row hrow
    obtain ⟨last, hlast, howner'⟩ := second.kept botId id between hbetween
    exact ⟨last, hlast, howner'.trans howner⟩

theorem Synced.held (h : Synced tables saved) {routine : StoredRoutine}
    {stored : StoredRoutineBinding RoutineAction} (hheld : HeldBy tables routine stored) :
    HeldBy saved routine stored := by
  obtain ⟨row, hrow, howner⟩ := hheld
  obtain ⟨row', hrow', hsame⟩ := h.kept _ _ row hrow
  exact ⟨row', hrow', hsame.trans howner⟩

theorem BindingSaved.synced {botId id : String} {routineId : Option String}
    (h : BindingSaved tables saved botId id routineId) : Synced tables saved :=
  ⟨h.pruned, h.keys, h.kept⟩

theorem saveRoutineBindings_synced {routine : StoredRoutine}
    {bindings : List (StoredRoutineBinding RoutineAction)}
    (h : saveRoutineBindings routine now bindings tables = .ok saved) :
    Synced tables saved ∧ ∀ stored ∈ bindings, HeldBy saved routine stored := by
  induction bindings generalizing tables with
  | nil =>
    rw [← Except.ok.inj h]
    exact ⟨Synced.refl tables, List.forall_mem_nil _⟩
  | cons stored rest ih =>
    unfold saveRoutineBindings at h
    obtain ⟨sequence, -, h⟩ := bind_ok h
    obtain ⟨between, hbetween, h⟩ := bind_ok h
    have hsaved := saveBinding_saved hbetween
    obtain ⟨hrest, hheld⟩ := ih h
    refine ⟨hsaved.synced.trans hrest, List.forall_mem_cons.mpr ⟨?_, hheld⟩⟩
    exact hrest.held hsaved.found

theorem saveRoutines_synced (h : saveRoutines now routines tables = .ok saved) :
    Synced tables saved ∧ Held saved routines := by
  induction routines generalizing tables with
  | nil =>
    rw [← Except.ok.inj h]
    exact ⟨Synced.refl tables, List.forall_mem_nil _⟩
  | cons routine rest ih =>
    unfold saveRoutines at h
    obtain ⟨between, hbetween, h⟩ := bind_ok h
    obtain ⟨hfirst, hown⟩ := saveRoutineBindings_synced hbetween
    obtain ⟨hrest, hheld⟩ := ih h
    refine ⟨hfirst.trans hrest, List.forall_mem_cons.mpr ⟨?_, hheld⟩⟩
    intro stored hstored
    exact hrest.held (hown stored hstored)

theorem startSequence_of_positioned (h : Positioned tables) (on : HookSelector) :
    ∃ sequence, startSequence tables on = .ok sequence ∧ (sequence : Int) ≤ i64Max := by
  have hcursor : ∀ sessionId, ∃ sequence, cursorOf tables sessionId = .ok sequence ∧
      (sequence : Int) ≤ i64Max := by
    intro sessionId
    unfold cursorOf
    cases hfind : tables.cursors.find? (·.sessionId = sessionId) with
    | none => exact ⟨0, rfl, by decide⟩
    | some row =>
      obtain ⟨hlow, hhigh⟩ := h row (List.mem_of_find?_eq_some hfind)
      exact ⟨row.sequence.toNat, if_neg (by omega), by omega⟩
  unfold startSequence
  split
  · exact hcursor _
  · exact ⟨0, rfl, by decide⟩

theorem saveRoutineBindings_of_held {routine : StoredRoutine}
    {bindings : List (StoredRoutineBinding RoutineAction)} (hcursors : Positioned tables)
    (hheld : ∀ stored ∈ bindings, HeldBy tables routine stored) :
    ∃ saved, saveRoutineBindings routine now bindings tables = .ok saved := by
  induction bindings generalizing tables with
  | nil => exact ⟨tables, rfl⟩
  | cons stored rest ih =>
    rw [List.forall_mem_cons] at hheld
    obtain ⟨row, hrow, howner⟩ := hheld.1
    obtain ⟨sequence, hsequence, hfits⟩ :=
      startSequence_of_positioned hcursors stored.definition.on
    have howned : ∀ other, tables.binding? routine.botId
        (hookBinding routine.id stored.definition).id = some other →
        other.routineId = some routine.id := by
      intro other hother
      rw [← Option.some.inj (hrow.symm.trans hother)]
      exact howner
    obtain ⟨between, hbetween⟩ := @saveBinding_of_owned tables routine.botId (some routine.id)
      (hookBinding routine.id stored.definition) true sequence now hfits howned
    have hsynced := (saveBinding_saved hbetween).synced
    have hcursors' : Positioned between := by
      unfold Positioned
      rw [hsynced.pruned.cursors]
      exact hcursors
    obtain ⟨saved, hsaved⟩ := ih hcursors' fun later hlater => hsynced.held (hheld.2 later hlater)
    refine ⟨saved, ?_⟩
    unfold saveRoutineBindings
    exact except_bind_ok_iff.mpr ⟨sequence, hsequence,
      except_bind_ok_iff.mpr ⟨between, hbetween, hsaved⟩⟩

theorem saveRoutines_of_held (hcursors : Positioned tables) (hheld : Held tables routines) :
    ∃ saved, saveRoutines now routines tables = .ok saved := by
  induction routines generalizing tables with
  | nil => exact ⟨tables, rfl⟩
  | cons routine rest ih =>
    have hheld := List.forall_mem_cons.mp hheld
    obtain ⟨between, hbetween⟩ := saveRoutineBindings_of_held hcursors hheld.1
    obtain ⟨hsynced, -⟩ := saveRoutineBindings_synced hbetween
    have hcursors' : Positioned between := by
      unfold Positioned
      rw [hsynced.pruned.cursors]
      exact hcursors
    obtain ⟨saved, hsaved⟩ := ih hcursors' fun later hlater stored hstored =>
      hsynced.held (hheld.2 later hlater stored hstored)
    exact ⟨saved, except_bind_ok_iff.mpr ⟨between, hbetween, hsaved⟩⟩

theorem removeClosed_pruned (routines : List StoredRoutine) (rows : List BindingRow)
    (tables : HookTables) :
    Pruned tables (removeClosed routines rows tables) ∧
      (bindingKeys (removeClosed routines rows tables)).Sublist (bindingKeys tables) := by
  induction rows generalizing tables with
  | nil => exact ⟨Pruned.refl tables, List.Sublist.refl _⟩
  | cons row rest ih =>
    unfold removeClosed
    split
    · obtain ⟨hpruned, hkeys⟩ := ih (removeBinding tables row.botId row.id)
      refine ⟨(removeBinding_pruned _ _ _).trans hpruned, hkeys.trans ?_⟩
      exact List.Sublist.map _ List.filter_sublist
    · exact ih tables

theorem removeClosed_keeps {botId id : String} {held : BindingRow} {rows : List BindingRow}
    (hheld : holdsBinding routines held = true)
    (hrows : ∀ row ∈ rows, row.botId = botId → row.id = id → row = held)
    (hfound : tables.binding? botId id = some held) :
    (removeClosed routines rows tables).binding? botId id = some held := by
  induction rows generalizing tables with
  | nil => exact hfound
  | cons row rest ih =>
    rw [List.forall_mem_cons] at hrows
    unfold removeClosed
    split
    · rename_i hclosed
      have hother : ¬ (held.botId = row.botId ∧ held.id = row.id) := by
        rintro ⟨hbot, hid⟩
        obtain ⟨hbotId, hidId⟩ := binding?_key hfound
        have hsame := hrows.1 (hbot.symm.trans hbotId) (hid.symm.trans hidId)
        rw [hsame, hheld] at hclosed
        simp at hclosed
      refine ih hrows.2 ?_
      unfold HookTables.binding? at hfound ⊢
      have hkept : (!(decide (held.botId = row.botId) && decide (held.id = row.id))) = true := by
        rw [Bool.not_eq_true', Bool.and_eq_false_iff, decide_eq_false_iff_not,
          decide_eq_false_iff_not]
        exact not_and_or.mp hother
      exact find?_filter_of_kept hfound hkept
    · exact ih hrows.2 hfound

theorem syncRoutineBindings_synced
    (h : syncRoutineBindings tables routines now = .ok saved) :
    Pruned tables saved ∧ ((bindingKeys tables).Nodup → (bindingKeys saved).Nodup) ∧
      Held saved routines := by
  unfold syncRoutineBindings at h
  obtain ⟨hpruned, hkeys⟩ := removeClosed_pruned routines tables.bindings tables
  obtain ⟨hsynced, hheld⟩ := saveRoutines_synced h
  exact ⟨hpruned.trans hsynced.pruned, fun hnodup => hsynced.keys (hnodup.sublist hkeys), hheld⟩

theorem syncRoutineBindings_of_held (hcursors : Positioned tables)
    (hkeys : (bindingKeys tables).Nodup) (hheld : Held tables routines) :
    ∃ saved, syncRoutineBindings tables routines now = .ok saved := by
  unfold syncRoutineBindings
  obtain ⟨hpruned, -⟩ := removeClosed_pruned routines tables.bindings tables
  refine saveRoutines_of_held ?_ ?_
  · unfold Positioned
    rw [hpruned.cursors]
    exact hcursors
  · intro routine hroutine stored hstored
    obtain ⟨row, hrow, howner⟩ := hheld routine hroutine stored hstored
    refine ⟨row, removeClosed_keeps ?_ ?_ hrow, howner⟩
    · obtain ⟨hbot, hid⟩ := binding?_key hrow
      refine List.any_eq_true.mpr ⟨routine, hroutine, ?_⟩
      have hstoredHere : (routine.bindings.any fun binding =>
          decide (binding.definition.id = row.id)) = true :=
        List.any_eq_true.mpr ⟨stored, hstored, by simp [hid]⟩
      simp [howner, hbot, hstoredHere]
    · intro other hother hbot hid
      obtain ⟨hbot', hid'⟩ := binding?_key hrow
      have hmem := List.mem_of_find?_eq_some hrow
      refine List.inj_on_of_nodup_map hkeys hother hmem ?_
      rw [Prod.mk.injEq]
      exact ⟨hbot.trans hbot'.symm, hid.trans hid'.symm⟩

end Syncing

section Tidiness

variable {digest : String → String → String} {tables after : HookTables}

/-- The tables as their transactions leave them. -/
structure Tidy (digest : String → String → String) (tables : HookTables) : Prop where
  keys : (bindingKeys tables).Nodup
  identities : ∀ row ∈ tables.outbox,
    row.id = outboxId digest row.eventId row.botId row.bindingId
  caused : ∀ row ∈ tables.outbox, ∃ event ∈ tables.events, event.id = row.eventId
  cursors : Positioned tables

theorem acceptAction_row {id : Option String} {row : OutboxRow}
    (h : row ∈ (acceptAction tables id).outbox) :
    ∃ old ∈ tables.outbox, row.id = old.id ∧ row.eventId = old.eventId ∧
      row.botId = old.botId ∧ row.bindingId = old.bindingId := by
  cases id with
  | none => exact ⟨row, h, rfl, rfl, rfl, rfl⟩
  | some id =>
    obtain ⟨old, hold, hrow⟩ := List.mem_map.mp h
    refine ⟨old, hold, ?_⟩
    rw [← hrow]
    split
    · exact ⟨rfl, rfl, rfl, rfl⟩
    · exact ⟨rfl, rfl, rfl, rfl⟩

theorem acceptAction_frame (tables : HookTables) (id : Option String) :
    (acceptAction tables id).events = tables.events ∧
      (acceptAction tables id).bindings = tables.bindings ∧
      (acceptAction tables id).cursors = tables.cursors := by
  cases id with
  | none | some id => exact ⟨rfl, rfl, rfl⟩

theorem Tidy.accept (h : Tidy digest tables) (id : Option String) :
    Tidy digest (acceptAction tables id) := by
  obtain ⟨hevents, hbindings, hcursors⟩ := acceptAction_frame tables id
  refine ⟨?_, ?_, ?_, ?_⟩
  · unfold bindingKeys
    rw [hbindings]
    exact h.keys
  · intro row hrow
    obtain ⟨old, hold, hid, hevent, hbot, hbinding⟩ := acceptAction_row hrow
    rw [hid, hevent, hbot, hbinding]
    exact h.identities old hold
  · intro row hrow
    obtain ⟨old, hold, -, hevent, -, -⟩ := acceptAction_row hrow
    rw [hevents, hevent]
    exact h.caused old hold
  · unfold Positioned
    rw [hcursors]
    exact h.cursors

theorem Tidy.prune (h : Tidy digest tables) (hpruned : Pruned tables after)
    (hkeys : (bindingKeys after).Nodup) : Tidy digest after := by
  refine ⟨hkeys, ?_, ?_, ?_⟩
  · intro row hrow
    exact h.identities row (hpruned.outbox.subset hrow)
  · intro row hrow
    rw [hpruned.events]
    exact h.caused row (hpruned.outbox.subset hrow)
  · unfold Positioned
    rw [hpruned.cursors]
    exact h.cursors

theorem Tidy.withEvent (h : Tidy digest tables) (event : HookEvent) (sequence : Option Nat) :
    Tidy digest (withEvent digest tables event sequence) := by
  have hnew : ∀ row ∈ newRows digest tables event sequence,
      ∃ binding, row = outboxRow digest event binding := by
    intro row hrow
    unfold newRows at hrow
    split at hrow
    · cases hrow
    · obtain ⟨binding, -, hbinding⟩ := List.mem_map.mp hrow
      exact ⟨binding, hbinding.symm⟩
  refine ⟨h.keys, ?_, ?_, h.cursors⟩
  · intro row hrow
    rcases List.mem_append.mp hrow with hold | hrow
    · exact h.identities row hold
    · obtain ⟨binding, rfl⟩ := hnew row hrow
      rfl
  · intro row hrow
    rcases List.mem_append.mp hrow with hold | hrow
    · obtain ⟨other, hother, hid⟩ := h.caused row hold
      exact ⟨other, List.mem_append_left _ hother, hid⟩
    · obtain ⟨binding, rfl⟩ := hnew row hrow
      exact ⟨event, List.mem_append_right _ (List.mem_singleton_self event), rfl⟩

theorem Tidy.record (h : Tidy digest tables) {event : HookEvent} {sequence : Option Nat}
    {isNew : Bool} (hrecord : recordEvent digest tables event sequence = .ok (isNew, after)) :
    Tidy digest after ∧ after.bindings = tables.bindings ∧
      (after.events = tables.events ∨ after.events = tables.events ++ [event]) := by
  obtain ⟨-, ⟨-, rfl, -⟩ | ⟨-, -, rfl⟩⟩ := recordEvent_cases hrecord
  · exact ⟨h, rfl, .inl rfl⟩
  · exact ⟨h.withEvent event sequence, rfl, .inr rfl⟩

end Tidiness

end MobiusAgent.HookTransactions
