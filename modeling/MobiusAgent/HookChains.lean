import Mathlib.Data.List.Pairwise
import MobiusAgent.HookDelivery
import MobiusAgent.SessionEvents

/-!
# Causal chains of hook events end

An action can cause the next event. Two guards of `record_event` keep such
chains from going on for ever: an event whose chain is full has no rows, and a
binding that consumed an event of the chain consumes none that is recorded
after it. Both hold of
the tables in every run, whatever is recorded, retried, dropped or deleted.
-/

namespace MobiusAgent.HookChains

open ProtocolEvents CheckpointValidation HookRecords RoutineSchedules HookStore RoutineCatalog
  HookTransactions HookDispatch HookDelivery RoutineRuns

variable {digest : String → String → String} {tables after : HookTables}
  {statement : HookStatement}

/-- Two events, one recorded before the other, have no rows of one binding if the chain of the
later names the earlier. -/
def Apart (rows : List OutboxRow) (earlier later : HookEvent) : Prop :=
  ∀ first ∈ rows, ∀ second ∈ rows, first.eventId = earlier.id → second.eventId = later.id →
    first.botId = second.botId → first.bindingId = second.bindingId → earlier.id ∉ later.ancestry

/-- The chains of the recorded events. -/
structure Bounded (tables : HookTables) : Prop where
  /-- The chain of an event is short, names no event twice and not the event itself. -/
  chains : ∀ event ∈ tables.events, event.ancestry.length ≤ maxHookAncestry ∧
    event.ancestry.Nodup ∧ event.id ∉ event.ancestry
  continued : ∀ row ∈ tables.outbox, ∀ event ∈ tables.events, event.id = row.eventId →
    event.ancestry.length < maxHookAncestry
  /-- No binding has rows for an event and for one that descends from it and is recorded later. -/
  apart : tables.events.Pairwise (Apart tables.outbox)

theorem Bounded.mono (h : Bounded tables) (hevents : after.events.Sublist tables.events)
    (hrows : ∀ row ∈ after.outbox, ∃ old ∈ tables.outbox, SameRow row old) : Bounded after := by
  refine ⟨fun event hevent => h.chains event (hevents.subset hevent), ?_, ?_⟩
  · intro row hrow event hevent hid
    obtain ⟨old, hold, hsame⟩ := hrows row hrow
    exact h.continued old hold event (hevents.subset hevent) (hid.trans hsame.eventId)
  · refine (h.apart.sublist hevents).imp fun hapart first hfirst second hsecond => ?_
    obtain ⟨old, hold, hsame⟩ := hrows first hfirst
    obtain ⟨old', hold', hsame'⟩ := hrows second hsecond
    rw [hsame.eventId, hsame'.eventId, hsame.botId, hsame'.botId, hsame.bindingId,
      hsame'.bindingId]
    exact hapart old hold old' hold'

theorem newRows_fresh {event : HookEvent} {sequence : Option Nat} {row other : OutboxRow}
    (h : row ∈ newRows digest tables event sequence) (hother : other ∈ tables.outbox)
    (hbot : other.botId = row.botId) (hbinding : other.bindingId = row.bindingId) :
    event.ancestry.length < maxHookAncestry ∧ other.eventId ∉ event.ancestry := by
  unfold newRows at h
  split at h
  · cases h
  · rename_i hroom
    refine ⟨Nat.not_le.mp hroom, fun hchain => ?_⟩
    obtain ⟨binding, hconsumer, rfl⟩ := List.mem_map.mp h
    obtain ⟨-, htaken⟩ := List.mem_filter.mp hconsumer
    have hfree := (Bool.and_eq_true_iff.mp htaken).2
    rw [Bool.not_eq_true', revisits, List.any_eq_false] at hfree
    refine hfree other.eventId hchain (List.any_eq_true.mpr ⟨other, hother, ?_⟩)
    simp only [outboxRow] at hbot hbinding
    simp [hbot, hbinding]

theorem record_bounded {event : HookEvent} {sequence : Option Nat} (hkeyed : Keyed tables)
    (h : (HookStatement.record event sequence).apply digest tables = .ok after)
    (hbounded : Bounded tables) : Bounded after := by
  obtain ⟨hvalid, ⟨-, rfl⟩ | ⟨hnone, rfl⟩⟩ := record_cases h
  · exact hbounded
  obtain ⟨-, hlength, hself, hnodup, -⟩ := SessionEvents.validateEvent_parts hvalid
  have hother : ∀ old ∈ tables.events, old.id ≠ event.id := by
    intro old hold hid
    exact List.find?_eq_none.mp hnone old hold (decide_eq_true hid)
  -- A row of the new event is new, and a row of another event is not.
  have hnew : ∀ row ∈ tables.outbox ++ newRows digest tables event sequence,
      row.eventId = event.id → row ∈ newRows digest tables event sequence := by
    intro row hrow hid
    refine (List.mem_append.mp hrow).resolve_left fun hold => ?_
    obtain ⟨cause, hcause, hcauseId⟩ := hkeyed.caused row hold
    exact hother cause hcause (hcauseId.trans hid)
  have hold : ∀ row ∈ tables.outbox ++ newRows digest tables event sequence,
      row.eventId ≠ event.id → row ∈ tables.outbox := by
    intro row hrow hid
    exact (List.mem_append.mp hrow).resolve_right fun hrow => hid (newRows_event hrow).1
  refine ⟨?_, ?_, ?_⟩
  · exact List.forall_mem_append.mpr
      ⟨hbounded.chains, List.forall_mem_singleton.mpr ⟨hlength, hnodup, hself⟩⟩
  · intro row hrow found hfound hid
    rcases List.mem_append.mp hfound with hbefore | hlast
    · refine hbounded.continued row (hold row hrow fun hsame => ?_) found hbefore hid
      exact hother found hbefore (hid.trans hsame)
    · rw [List.mem_singleton.mp hlast] at hid ⊢
      have hrow := hnew row hrow hid.symm
      unfold newRows at hrow
      split at hrow
      · cases hrow
      · exact Nat.not_le.mp ‹_›
  · refine List.pairwise_append.mpr ⟨?_, List.pairwise_singleton _ _, ?_⟩
    · refine hbounded.apart.imp_of_mem fun hearlier hlater hapart first hfirst second hsecond
        hfirstId hsecondId => ?_
      refine hapart first (hold first hfirst ?_) second (hold second hsecond ?_) hfirstId hsecondId
      · exact fun hsame => hother _ hearlier (hfirstId.symm.trans hsame)
      · exact fun hsame => hother _ hlater (hsecondId.symm.trans hsame)
    · intro earlier hearlier later hlater first hfirst second hsecond hfirstId hsecondId hbot hbinding
      rw [List.mem_singleton.mp hlater] at hsecondId ⊢
      have hbefore := hold first hfirst fun hsame =>
        hother earlier hearlier (hfirstId.symm.trans hsame)
      rw [← hfirstId]
      exact (newRows_fresh (hnew second hsecond hsecondId) hbefore hbot hbinding).2

theorem statement_sublist (h : statement.apply digest tables = .ok after)
    (hstatement : ∀ event sequence, statement ≠ .record event sequence) :
    after.events.Sublist tables.events ∧ addedRows digest tables statement = [] := by
  cases statement with
  | save botId routineId binding enabled afterSequence now =>
    rw [(saveBinding_saved h).pruned.events]
    exact ⟨List.Sublist.refl _, rfl⟩
  | advance sessionId botId sequence =>
    rw [(advance_frame h).2.1]
    exact ⟨List.Sublist.refl _, rfl⟩
  | record event sequence => exact absurd rfl (hstatement event sequence)
  | deleteBot botId =>
    rw [← Except.ok.inj h]
    exact ⟨List.filter_sublist, rfl⟩
  | _ =>
    rw [← Except.ok.inj h]
    exact ⟨List.Sublist.refl _, rfl⟩

theorem statement_bounded (hkeyed : Keyed tables) (h : statement.apply digest tables = .ok after)
    (hbounded : Bounded tables) : Bounded after := by
  by_cases hrecord : ∃ event sequence, statement = .record event sequence
  · obtain ⟨event, sequence, rfl⟩ := hrecord
    exact record_bounded hkeyed h hbounded
  · obtain ⟨hevents, hadded⟩ := statement_sublist h fun event sequence hsame =>
      hrecord ⟨event, sequence, hsame⟩
    refine hbounded.mono hevents fun row hrow => (statement_rows h row hrow).resolve_right ?_
    rw [hadded]
    exact List.not_mem_nil

theorem replay_bounded {statements : List HookStatement} (hkeyed : Keyed tables)
    (h : replay digest tables statements = .ok after) (hbounded : Bounded tables) :
    Bounded after := by
  induction statements generalizing tables with
  | nil =>
    rw [← Except.ok.inj h]
    exact hbounded
  | cons statement rest ih =>
    obtain ⟨between, hstatement, hrest⟩ := bind_ok h
    exact ih (statement_keyed hstatement hkeyed) hrest
      (statement_bounded hkeyed hstatement hbounded)

/-- In every run every chain of recorded events is short and names no event twice, every row of the
outbox has its event with a chain that can go on, and no binding acts on an event and on one that
descends from it and is recorded after it. -/
theorem hook_chains_end {host : Host} {gateway : Gateway} (h : Fresh gateway)
    (operations : List (GatewayOp host)) :
    Bounded (runGateway host gateway operations).hooks ∧
      ∀ row ∈ (runGateway host gateway operations).hooks.outbox,
        ∃ event ∈ (runGateway host gateway operations).hooks.events, event.id = row.eventId := by
  obtain ⟨lists, -, hdelivered⟩ := run_delivered (@Fresh.delivered host gateway h) operations
  have hempty : Bounded {} := ⟨List.forall_mem_nil _, List.forall_mem_nil _, List.Pairwise.nil⟩
  exact ⟨replay_bounded keyed_empty hdelivered.replayed hempty,
    (replay_keyed hdelivered.replayed keyed_empty).caused⟩

/-- A turn of the session leads to the next one. -/
def answered : List (GatewayOp plainHost) :=
  [following, .project (turnStarted 1 ["root"]) 1,
    .project (turnStarted 2 ["root", "session-chat-1"]) 2]

/-- The binding acts on the first turn and not on the one that descends from it. -/
theorem hook_chains_end_answered :
    (runGateway plainHost helperGateway answered).hooks.events =
      [turnStarted 1 ["root"], turnStarted 2 ["root", "session-chat-1"]] ∧
    (runGateway plainHost helperGateway answered).hooks.outbox.map (·.eventId) =
      ["session-chat-1"] ∧
    Bounded (runGateway plainHost helperGateway answered).hooks :=
  ⟨by decide +kernel, by decide +kernel, (hook_chains_end helperGateway_fresh answered).1⟩

end MobiusAgent.HookChains
