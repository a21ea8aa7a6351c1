import Mathlib.Logic.Function.Basic
import Mathlib.Logic.Relation
import MobiusAgent.RoutineRuns
import MobiusAgent.StampedReads

/-!
# The cache of the Bot catalog

`current_state` of `bots.rs` keeps the last catalog it parsed, under the stamp
of `catalog_since`: the version that SQLite moves when another connection
commits, and the count of the rows that this connection changed. Calls hold
the mutex of the cache throughout and the mutex of the connection while they
read; transactions of the gateway hold the latter, and other processes commit
at any time between two steps. `current_state_fresh` proves that a call returns
what `fresh_state` gives at a commit that is not older than its start.
-/

namespace MobiusAgent.CatalogCache

open ProtocolEvents CheckpointValidation MessageQueue HookRecords RoutineSchedules
  RoutineCatalog RoutineRuns StampedReads

section Source

/-- `read_catalog`: the text of the row, within its size. -/
def readCatalog (row : Option String) : Except Error (Option String) :=
  match row with
  | none => .ok none
  | some text => do
    rejectIf (maxStateBytes < text.utf8ByteSize) (.config "Bot state is too large")
    return some text

variable (host : Host) (decode : String → Except Error BotState)

/-- `parse_state`, with `decode` for `serde_json::from_str`. -/
def parseState (contents : Option String) : Except Error BotState := do
  let state ← match contents with
    | none => Except.ok {}
    | some text => decode text
  validateRecords host state
  return state

/-- `fresh_state` at a commit with this row. -/
def freshState (row : Option String) : Except Error BotState :=
  readCatalog row >>= parseState host decode

structure CatalogStamp where
  /-- `PRAGMA data_version`. -/
  dataVersion : Int
  /-- The total changes of the connection. -/
  ownChanges : Nat
  deriving DecidableEq

/-- How far a call of `current_state` is. Each state keeps the index of the last commit when
the call began. -/
inductive Phase where
  | idle
  /-- It waits for the mutex of the cache. -/
  | waiting (start : Nat)
  /-- It holds the mutex of the cache. -/
  | locked (start : Nat)
  /-- It holds the mutex of the connection as well. -/
  | connected (start : Nat)
  | versioned (start : Nat) (version : Int)
  /-- It read the total changes. -/
  | stamped (start : Nat) (stamp : CatalogStamp)
  /-- The stamp is not that of the cache. -/
  | stale (start : Nat) (stamp : CatalogStamp)
  /-- It read the catalog and dropped the mutex of the connection. -/
  | fetched (start : Nat) (stamp : CatalogStamp) (contents : Option String)
  /-- It is about to return what the cache holds. -/
  | current (start : Nat)
  /-- It returned and dropped the mutex of the cache. -/
  | returned (start : Nat) (result : Except Error BotState)

/-- Whether a call holds the mutex of the cache. -/
def Phase.HoldsCache : Phase → Prop
  | .locked _ | .connected _ | .versioned _ _ | .stamped _ _ | .stale _ _ | .fetched _ _ _
  | .current _ => True
  | .idle | .waiting _ | .returned _ _ => False

/-- Whether a call holds the mutex of the connection. -/
def Phase.HoldsConnection : Phase → Prop
  | .connected _ | .versioned _ _ | .stamped _ _ | .stale _ _ => True
  | .idle | .waiting _ | .locked _ | .fetched _ _ _ | .current _ | .returned _ _ => False

/-- Who holds the mutex of the connection. -/
inductive Holder where
  /-- A call of `current_state`. -/
  | call (id : Nat)
  | transaction
  deriving DecidableEq

/-- The gateway's side of the catalog. -/
structure System where
  /-- The database, by the row of the catalog at each commit. -/
  store : Store (Option String)
  cache : Option (CatalogStamp × BotState)
  /-- The call that holds the mutex of the cache. -/
  cacheLock : Option Nat
  connectionLock : Option Holder
  calls : Nat → Phase

/-- The system with one call in another phase. -/
def System.enter (system : System) (id : Nat) (phase : Phase) : System :=
  { system with calls := fun other => if other = id then phase else system.calls other }

def System.withStore (system : System) (store : Store (Option String)) : System :=
  { system with store := store }

variable (dataVersion : Nat → Int)

/-- One step of a call, of a transaction or of another connection. `dataVersion` is the
version that SQLite reports after so many commits of other connections. -/
inductive Step (system : System) : System → Prop where
  | begin (id : Nat) (hphase : system.calls id = .idle) :
      Step system (system.enter id (.waiting system.store.older.length))
  /-- A call gets the mutex of the cache. -/
  | lockCache (id : Nat) {start : Nat} (hphase : system.calls id = .waiting start)
      (hfree : system.cacheLock = none) :
      Step system { system.enter id (.locked start) with cacheLock := some id }
  /-- A call gets the mutex of the connection. -/
  | lockConnection (id : Nat) {start : Nat} (hphase : system.calls id = .locked start)
      (hfree : system.connectionLock = none) :
      Step system { system.enter id (.connected start) with connectionLock := some (.call id) }
  | readVersion (id : Nat) {start : Nat} (hphase : system.calls id = .connected start) :
      Step system (system.enter id (.versioned start (dataVersion system.store.foreign)))
  | readChanges (id : Nat) {start : Nat} {version : Int}
      (hphase : system.calls id = .versioned start version) :
      Step system (system.enter id (.stamped start ⟨version, system.store.changes⟩))
  | unchanged (id : Nat) {start : Nat} {stamp : CatalogStamp}
      (hphase : system.calls id = .stamped start stamp)
      (hsame : system.cache.map Prod.fst = some stamp) :
      Step system { system.enter id (.current start) with connectionLock := none }
  | changed (id : Nat) {start : Nat} {stamp : CatalogStamp}
      (hphase : system.calls id = .stamped start stamp)
      (hother : system.cache.map Prod.fst ≠ some stamp) :
      Step system (system.enter id (.stale start stamp))
  | fetch (id : Nat) (contents : Option String) {start : Nat} {stamp : CatalogStamp}
      (hphase : system.calls id = .stale start stamp)
      (hread : readCatalog system.store.latest = .ok contents) :
      Step system
        { system.enter id (.fetched start stamp contents) with connectionLock := none }
  /-- The catalog parses, and the cache takes it. -/
  | parse (id : Nat) (state : BotState) {start : Nat} {stamp : CatalogStamp}
      {contents : Option String}
      (hphase : system.calls id = .fetched start stamp contents)
      (hparse : parseState host decode contents = .ok state) :
      Step system { system.enter id (.current start) with cache := some (stamp, state) }
  /-- The catalog does not parse, and the cache stays as it is. -/
  | parseFails (id : Nat) {start : Nat} {stamp : CatalogStamp} {contents : Option String} {error : Error}
      (hphase : system.calls id = .fetched start stamp contents)
      (hparse : parseState host decode contents = .error error) :
      Step system { system.enter id (.returned start (.error error)) with cacheLock := none }
  /-- A call returns what the cache holds. -/
  | finish (id : Nat) {start : Nat} (hphase : system.calls id = .current start) :
      Step system { system.enter id (.returned start
        (match system.cache with
          | some entry => .ok entry.2
          | none => .error (.config "Bot catalog is unavailable"))) with cacheLock := none }
  /-- A mutex is poisoned before the call holds it. -/
  | failsWaiting (id : Nat) {start : Nat} (error : Error) (hphase : system.calls id = .waiting start) :
      Step system (system.enter id (.returned start (.error error)))
  /-- The mutex of the connection is poisoned. -/
  | failsLocked (id : Nat) {start : Nat} (error : Error) (hphase : system.calls id = .locked start) :
      Step system { system.enter id (.returned start (.error error)) with cacheLock := none }
  /-- The version cannot be read. -/
  | failsConnected (id : Nat) {start : Nat} (error : Error) (hphase : system.calls id = .connected start) :
      Step system { system.enter id (.returned start (.error error)) with
        cacheLock := none, connectionLock := none }
  /-- The catalog cannot be read. -/
  | failsStale (id : Nat) {start : Nat} {stamp : CatalogStamp} (error : Error)
      (hphase : system.calls id = .stale start stamp) :
      Step system { system.enter id (.returned start (.error error)) with
        cacheLock := none, connectionLock := none }
  | foreignCommit (row : Option String) (hidle : system.store.pending = none) :
      Step system (system.withStore (system.store.foreignCommit row))
  /-- A transaction of the gateway begins. -/
  | openTransaction (hfree : system.connectionLock = none) (hidle : system.store.pending = none) :
      Step system { system.withStore system.store.openTransaction with
        connectionLock := some .transaction }
  /-- It runs a statement. `save_catalog_row` counts one row. -/
  | write {working : Option String} (row : Option String) (counted : Nat)
      (hopen : system.store.pending = some working) (hcounted : counted = 0 → row = working) :
      Step system (system.withStore (system.store.write row counted))
  | commit {working : Option String} (hopen : system.store.pending = some working) :
      Step system { system.withStore (system.store.commit working) with connectionLock := none }
  | rollback {working : Option String} (hopen : system.store.pending = some working) :
      Step system { system.withStore system.store.rollback with connectionLock := none }

/-- A gateway that starts on a database: nothing is cached, locked or under way. -/
def started (row : Option String) (foreign changes : Nat) : System where
  store := ⟨[], row, foreign, changes, none⟩
  cache := none
  cacheLock := none
  connectionLock := none
  calls := fun _ => .idle

/-- The systems that some interleaving reaches. -/
def Reachable (system : System) : Prop :=
  ∃ row foreign changes, Relation.ReflTransGen (Step host decode dataVersion)
    (started row foreign changes) system

end Source

section Invariant

variable (host : Host) (decode : String → Except Error BotState) (dataVersion : Nat → Int)
  (store : Store (Option String))

def FreshSince (start : Nat) (state : BotState) : Prop :=
  ∃ index row, start ≤ index ∧ store.row index = some row ∧
    freshState host decode row = .ok state

/-- A version that was the current one. -/
def Taken (version : Int) : Prop := ∃ foreign ≤ store.foreign, dataVersion foreign = version

def ReadAt (stamp : CatalogStamp) (row : Option String) : Prop :=
  Reading dataVersion store stamp.dataVersion stamp.ownChanges row

/-- What a call knows in each phase. -/
def Good (cache : Option (CatalogStamp × BotState)) : Phase → Prop
  | .idle => True
  | .waiting start | .locked start | .connected start => start ≤ store.older.length
  | .versioned start version => start ≤ store.older.length ∧ Taken dataVersion store version ∧
      ∀ state, cache = some (⟨version, store.changes⟩, state) →
        FreshSince host decode store start state
  | .stamped start stamp => start ≤ store.older.length ∧
      Taken dataVersion store stamp.dataVersion ∧ stamp.ownChanges = store.changes ∧
        ∀ state, cache = some (stamp, state) → FreshSince host decode store start state
  | .stale start stamp => start ≤ store.older.length ∧
      Taken dataVersion store stamp.dataVersion ∧ stamp.ownChanges = store.changes
  | .fetched start stamp contents => ∃ index row, start ≤ index ∧ store.row index = some row ∧
      ReadAt dataVersion store stamp row ∧ readCatalog row = .ok contents
  | .current start => ∃ stamp state, cache = some (stamp, state) ∧
      FreshSince host decode store start state
  | .returned start result => ∀ state, result = .ok state →
      FreshSince host decode store start state

/-- What holds between any two steps. -/
structure Inv (system : System) : Prop where
  /-- The cache holds the state of a commit, read under its stamp. -/
  cached : ∀ stamp state, system.cache = some (stamp, state) → ∃ index row,
    system.store.row index = some row ∧ ReadAt dataVersion system.store stamp row ∧
      freshState host decode row = .ok state
  cacheOwner : ∀ id, (system.calls id).HoldsCache → system.cacheLock = some id
  connectionOwner : ∀ id, (system.calls id).HoldsConnection →
    system.connectionLock = some (.call id)
  transaction : system.store.pending ≠ none → system.connectionLock = some .transaction
  good : ∀ id, Good host decode dataVersion system.store system.cache (system.calls id)

variable {host decode dataVersion store} {next : Store (Option String)}
  {cache : Option (CatalogStamp × BotState)} {system : System}

theorem FreshSince.stays {start : Nat} {state : BotState}
    (h : FreshSince host decode store start state) (hnext : store.Next next) :
    FreshSince host decode next start state := by
  obtain ⟨index, row, hstart, hrow, hfresh⟩ := h
  exact ⟨index, row, hstart, hnext.row hrow, hfresh⟩

theorem Taken.stays {version : Int} (h : Taken dataVersion store version)
    (hnext : store.Next next) : Taken dataVersion next version := by
  obtain ⟨foreign, hforeign, hversion⟩ := h
  exact ⟨foreign, Nat.le_trans hforeign hnext.foreign_le, hversion⟩

/-- A step of the store leaves a call what it knows. A call with the mutex of the connection
relies on the count of changes, which then stays. -/
theorem Good.stays {phase : Phase} (h : Good host decode dataVersion store cache phase)
    (hnext : store.Next next) (hchanges : phase.HoldsConnection → next.changes = store.changes) :
    Good host decode dataVersion next cache phase := by
  cases phase with
  | idle => trivial
  | waiting start | locked start | connected start => exact Nat.le_trans h hnext.older_le
  | versioned start version =>
    obtain ⟨hstart, htaken, hpinned⟩ := h
    refine ⟨Nat.le_trans hstart hnext.older_le, htaken.stays hnext, fun state hcache => ?_⟩
    rw [hchanges trivial] at hcache
    exact (hpinned state hcache).stays hnext
  | stamped start stamp =>
    obtain ⟨hstart, htaken, hown, hpinned⟩ := h
    exact ⟨Nat.le_trans hstart hnext.older_le, htaken.stays hnext, by rw [hown, hchanges trivial],
      fun state hcache => (hpinned state hcache).stays hnext⟩
  | stale start stamp =>
    obtain ⟨hstart, htaken, hown⟩ := h
    exact ⟨Nat.le_trans hstart hnext.older_le, htaken.stays hnext, by rw [hown, hchanges trivial]⟩
  | fetched start stamp contents =>
    obtain ⟨index, row, hstart, hrow, hread, hcontents⟩ := h
    exact ⟨index, row, hstart, hnext.row hrow, hread.stays hnext, hcontents⟩
  | current start =>
    obtain ⟨stamp, state, hcache, hfresh⟩ := h
    exact ⟨stamp, state, hcache, hfresh.stays hnext⟩
  | returned start result => exact fun state hresult => (h state hresult).stays hnext

theorem Good.of_cache {phase : Phase} (h : Good host decode dataVersion store cache phase)
    (hfree : ¬phase.HoldsCache) (other : Option (CatalogStamp × BotState)) :
    Good host decode dataVersion store other phase := by
  cases phase with
  | idle => trivial
  | waiting start | returned start result => exact h
  | locked start | connected start | versioned start version | stamped start stamp
  | stale start stamp | fetched start stamp contents | current start =>
    exact absurd trivial hfree

/-- A step of the store keeps the invariant, whoever then holds the connection: no call
does, unless nothing was counted and the holder is the same. -/
theorem Inv.store_step (h : Inv host decode dataVersion system) (hnext : system.store.Next next)
    {holder : Option Holder}
    (hcalls : ∀ id, (system.calls id).HoldsConnection →
      next.changes = system.store.changes ∧ holder = system.connectionLock)
    (hpending : next.pending ≠ none → holder = some .transaction) :
    Inv host decode dataVersion { system.withStore next with connectionLock := holder } where
  cached := fun stamp state hcache => by
    obtain ⟨index, row, hrow, hread, hfresh⟩ := h.cached stamp state hcache
    exact ⟨index, row, hnext.row hrow, hread.stays hnext, hfresh⟩
  cacheOwner := h.cacheOwner
  connectionOwner := fun id hholds => by
    have hsame := (hcalls id hholds).2
    exact hsame.trans (h.connectionOwner id hholds)
  transaction := hpending
  good := fun id => (h.good id).stays hnext fun hholds => (hcalls id hholds).1

/-- A step of one call keeps the invariant: it takes a free mutex or drops its own, and it
changes the cache only while it holds its mutex. -/
theorem Inv.call_step (h : Inv host decode dataVersion system) {id : Nat} {phase : Phase}
    {cacheLock : Option Nat} {holder : Option Holder}
    (hcached : ∀ stamp state, cache = some (stamp, state) → ∃ index row,
      system.store.row index = some row ∧ ReadAt dataVersion system.store stamp row ∧
        freshState host decode row = .ok state)
    (hcache : cache = system.cache ∨ system.cacheLock = some id)
    (hlock : cacheLock = system.cacheLock ∨ system.cacheLock = none ∨ system.cacheLock = some id)
    (hholder : holder = system.connectionLock ∨ system.connectionLock = none ∨
      system.connectionLock = some (.call id))
    (hholdsCache : phase.HoldsCache → cacheLock = some id)
    (hholdsConnection : phase.HoldsConnection → holder = some (.call id))
    (hgood : Good host decode dataVersion system.store cache phase) :
    Inv host decode dataVersion { system.enter id phase with
      cache := cache, cacheLock := cacheLock, connectionLock := holder } where
  cached := hcached
  cacheOwner := fun other hholds => by
    by_cases hsame : other = id
    · subst hsame
      exact hholdsCache (by simpa [System.enter] using hholds)
    · have hother := h.cacheOwner other (by simpa [System.enter, hsame] using hholds)
      rcases hlock with hlock | hlock | hlock
      · exact hlock.trans hother
      · rw [hlock] at hother
        cases hother
      · rw [hlock] at hother
        exact absurd (Option.some.inj hother).symm hsame
  connectionOwner := fun other hholds => by
    by_cases hsame : other = id
    · subst hsame
      exact hholdsConnection (by simpa [System.enter] using hholds)
    · have hother := h.connectionOwner other (by simpa [System.enter, hsame] using hholds)
      rcases hholder with hholder | hholder | hholder
      · exact hholder.trans hother
      · rw [hholder] at hother
        cases hother
      · rw [hholder] at hother
        exact absurd (Holder.call.inj (Option.some.inj hother)).symm hsame
  transaction := fun hopen => by
    have hheld := h.transaction hopen
    rcases hholder with hholder | hholder | hholder
    · exact hholder.trans hheld
    · rw [hholder] at hheld
      cases hheld
    · rw [hholder] at hheld
      cases hheld
  good := fun other => by
    by_cases hsame : other = id
    · subst hsame
      simpa [System.enter] using hgood
    · have hother := h.good other
      have hphase : (system.enter id phase).calls other = system.calls other := by
        simp [System.enter, hsame]
      rw [hphase]
      cases hcache with
      | inl hkept =>
        rw [hkept]
        exact hother
      | inr howned =>
        refine hother.of_cache (fun hholds => ?_) cache
        rw [h.cacheOwner other hholds] at howned
        exact hsame (Option.some.inj howned)

theorem inv_started (row : Option String) (foreign changes : Nat) :
    Inv host decode dataVersion (started row foreign changes) where
  cached := fun _ _ hnone => nomatch hnone
  cacheOwner := fun _ hholds => hholds.elim
  connectionOwner := fun _ hholds => hholds.elim
  transaction := fun hopen => absurd rfl hopen
  good := fun _ => trivial

theorem Inv.idle (h : Inv host decode dataVersion system) {id : Nat}
    (hholds : (system.calls id).HoldsConnection) : system.store.pending = none := by
  by_contra hopen
  have hheld := h.transaction hopen
  rw [h.connectionOwner id hholds] at hheld
  cases hheld

theorem Inv.versioned (h : Inv host decode dataVersion system)
    (hversion : Function.Injective dataVersion) {start : Nat}
    (hstart : start ≤ system.store.older.length) {state : BotState}
    (hcache : system.cache = some (⟨dataVersion system.store.foreign, system.store.changes⟩, state)) :
    FreshSince host decode system.store start state := by
  obtain ⟨index, row, hrow, hread, hfresh⟩ := h.cached _ _ hcache
  have hlatest : system.store.latest = row := Reading.latest hversion hread
  refine ⟨system.store.older.length, row, hstart, ?_, hfresh⟩
  rw [← hlatest]
  exact system.store.row_latest

theorem Inv.step (hversion : Function.Injective dataVersion)
    (h : Inv host decode dataVersion system) {after : System}
    (hstep : Step host decode dataVersion system after) :
    Inv host decode dataVersion after := by
  cases hstep with
  | «begin» id hphase =>
    exact h.call_step h.cached (.inl rfl) (.inl rfl) (.inl rfl) (fun hholds => hholds.elim)
      (fun hholds => hholds.elim) (Nat.le_refl _)
  | @lockCache id start hphase hfree =>
    have hgood := h.good id
    rw [hphase] at hgood
    exact h.call_step h.cached (.inl rfl) (.inr (.inl hfree)) (.inl rfl) (fun _ => rfl)
      (fun hholds => hholds.elim) hgood
  | @lockConnection id start hphase hfree =>
    have hgood := h.good id
    have howner := h.cacheOwner id
    rw [hphase] at hgood howner
    exact h.call_step h.cached (.inl rfl) (.inl rfl) (.inr (.inl hfree)) (fun _ => howner trivial)
      (fun _ => rfl) hgood
  | @readVersion id start hphase =>
    have hgood := h.good id
    have howner := h.cacheOwner id
    have hconnection := h.connectionOwner id
    rw [hphase] at hgood howner hconnection
    have hpinned : ∀ state, system.cache =
        some (⟨dataVersion system.store.foreign, system.store.changes⟩, state) →
          FreshSince host decode system.store start state :=
      fun state hcache => h.versioned hversion hgood hcache
    exact h.call_step h.cached (.inl rfl) (.inl rfl) (.inl rfl) (fun _ => howner trivial)
      (fun _ => hconnection trivial)
      ⟨hgood, ⟨system.store.foreign, Nat.le_refl _, rfl⟩, hpinned⟩
  | @readChanges id start version hphase =>
    have hgood := h.good id
    have howner := h.cacheOwner id
    have hconnection := h.connectionOwner id
    rw [hphase] at hgood howner hconnection
    obtain ⟨hstart, htaken, hpinned⟩ := hgood
    exact h.call_step h.cached (.inl rfl) (.inl rfl) (.inl rfl) (fun _ => howner trivial)
      (fun _ => hconnection trivial) ⟨hstart, htaken, rfl, hpinned⟩
  | @unchanged id start stamp hphase hsame =>
    have hgood := h.good id
    have howner := h.cacheOwner id
    have hconnection := h.connectionOwner id
    rw [hphase] at hgood howner hconnection
    obtain ⟨-, -, -, hpinned⟩ := hgood
    obtain ⟨⟨cachedStamp, state⟩, hcache, hstamp⟩ := Option.map_eq_some_iff.mp hsame
    cases hstamp
    exact h.call_step h.cached (.inl rfl) (.inl rfl) (.inr (.inr (hconnection trivial)))
      (fun _ => howner trivial) (fun hholds => hholds.elim) ⟨cachedStamp, state, hcache, hpinned state hcache⟩
  | @changed id start stamp hphase hother =>
    have hgood := h.good id
    have howner := h.cacheOwner id
    have hconnection := h.connectionOwner id
    rw [hphase] at hgood howner hconnection
    obtain ⟨hstart, htaken, hown, -⟩ := hgood
    exact h.call_step h.cached (.inl rfl) (.inl rfl) (.inl rfl) (fun _ => howner trivial)
      (fun _ => hconnection trivial) ⟨hstart, htaken, hown⟩
  | @fetch id contents start stamp hphase hread =>
    have hgood := h.good id
    have howner := h.cacheOwner id
    have hconnection := h.connectionOwner id
    have hidle : (system.calls id).HoldsConnection → system.store.pending = none := h.idle
    rw [hphase] at hgood howner hconnection hidle
    obtain ⟨hstart, ⟨foreign, hforeign, htaken⟩, hown⟩ := hgood
    have hnow : ReadAt dataVersion system.store stamp system.store.latest := by
      rw [ReadAt, hown]
      exact Reading.now (hidle trivial) hforeign htaken
    exact h.call_step h.cached (.inl rfl) (.inl rfl) (.inr (.inr (hconnection trivial)))
      (fun _ => howner trivial) (fun hholds => hholds.elim)
      ⟨system.store.older.length, system.store.latest, hstart, system.store.row_latest, hnow, hread⟩
  | @parse id state start stamp contents hphase hparse =>
    have hgood := h.good id
    have howner := h.cacheOwner id
    rw [hphase] at hgood howner
    obtain ⟨index, row, hstart, hrow, hreading, hread⟩ := hgood
    have hfresh : freshState host decode row = .ok state :=
      except_bind_ok_iff.mpr ⟨contents, hread, hparse⟩
    have hcached : ∀ other found, some (stamp, state) = some (other, found) → ∃ index row,
        system.store.row index = some row ∧ ReadAt dataVersion system.store other row ∧
          freshState host decode row = .ok found := by
      intro other found hentry
      cases hentry
      exact ⟨index, row, hrow, hreading, hfresh⟩
    exact h.call_step hcached (.inr (howner trivial)) (.inl rfl) (.inl rfl)
      (fun _ => howner trivial) (fun hholds => hholds.elim)
      ⟨stamp, state, rfl, index, row, hstart, hrow, hfresh⟩
  | @parseFails id start stamp contents error hphase hparse =>
    have howner := h.cacheOwner id
    rw [hphase] at howner
    exact h.call_step h.cached (.inl rfl) (.inr (.inr (howner trivial))) (.inl rfl)
      (fun hholds => hholds.elim) (fun hholds => hholds.elim) (fun _ hresult => nomatch hresult)
  | @finish id start hphase =>
    have hgood := h.good id
    have howner := h.cacheOwner id
    rw [hphase] at hgood howner
    obtain ⟨stamp, state, hcache, hfresh⟩ := hgood
    have hreturned : ∀ found, (match system.cache with
        | some entry => Except.ok entry.2
        | none => .error (Error.config "Bot catalog is unavailable")) = Except.ok found →
          FreshSince host decode system.store start found := by
      intro found hfound
      rw [hcache] at hfound
      cases hfound
      exact hfresh
    exact h.call_step h.cached (.inl rfl) (.inr (.inr (howner trivial))) (.inl rfl)
      (fun hholds => hholds.elim) (fun hholds => hholds.elim) hreturned
  | failsWaiting id error hphase =>
    exact h.call_step h.cached (.inl rfl) (.inl rfl) (.inl rfl)
      (fun hholds => hholds.elim) (fun hholds => hholds.elim) (fun _ hresult => nomatch hresult)
  | @failsLocked id start error hphase =>
    have howner := h.cacheOwner id
    rw [hphase] at howner
    exact h.call_step h.cached (.inl rfl) (.inr (.inr (howner trivial))) (.inl rfl)
      (fun hholds => hholds.elim) (fun hholds => hholds.elim) (fun _ hresult => nomatch hresult)
  | @failsConnected id start error hphase | @failsStale id start stamp error hphase =>
    have howner := h.cacheOwner id
    have hconnection := h.connectionOwner id
    rw [hphase] at howner hconnection
    exact h.call_step h.cached (.inl rfl) (.inr (.inr (howner trivial)))
      (.inr (.inr (hconnection trivial)))
      (fun hholds => hholds.elim) (fun hholds => hholds.elim) (fun _ hresult => nomatch hresult)
  | foreignCommit row hidle =>
    exact h.store_step (.foreign row hidle) (fun _ _ => ⟨rfl, rfl⟩) fun hopen => absurd hidle hopen
  | openTransaction hfree hidle =>
    refine h.store_step (.opened hidle) (fun id hholds => ?_) fun _ => rfl
    rw [h.connectionOwner id hholds] at hfree
    cases hfree
  | @write working row counted hopen hcounted =>
    have hheld : system.connectionLock = some .transaction :=
      h.transaction (by rw [hopen]; exact Option.some_ne_none _)
    refine h.store_step (.wrote row counted hopen hcounted) (fun id hholds => ?_) fun _ => hheld
    rw [h.connectionOwner id hholds] at hheld
    cases hheld
  | @commit working hopen =>
    have hheld : system.connectionLock = some .transaction :=
      h.transaction (by rw [hopen]; exact Option.some_ne_none _)
    refine h.store_step (.committed hopen) (fun id hholds => ?_) fun hnone => absurd rfl hnone
    rw [h.connectionOwner id hholds] at hheld
    cases hheld
  | @rollback working hopen =>
    have hheld : system.connectionLock = some .transaction :=
      h.transaction (by rw [hopen]; exact Option.some_ne_none _)
    refine h.store_step (.rolledBack hopen) (fun id hholds => ?_) fun hnone => absurd rfl hnone
    rw [h.connectionOwner id hholds] at hheld
    cases hheld

theorem Reachable.inv (hversion : Function.Injective dataVersion)
    (h : Reachable host decode dataVersion system) : Inv host decode dataVersion system := by
  obtain ⟨row, foreign, changes, hrun⟩ := h
  induction hrun with
  | refl => exact inv_started row foreign changes
  | tail _ hstep ih => exact ih.step hversion hstep

/-- In every interleaving, a call that returns a state returns what `fresh_state` gives at a
commit no older than the start of the call, and the cache holds the state of a commit only,
never that of a transaction that was rolled back. -/
theorem current_state_fresh (hversion : Function.Injective dataVersion)
    (h : Reachable host decode dataVersion system) :
    (∀ id start state, system.calls id = .returned start (.ok state) →
      FreshSince host decode system.store start state) ∧
    ∀ stamp state, system.cache = some (stamp, state) → ∃ index row,
      system.store.row index = some row ∧ freshState host decode row = .ok state := by
  have hinv := h.inv hversion
  constructor
  · intro id start state hreturned
    have hgood := hinv.good id
    rw [hreturned] at hgood
    exact hgood state rfl
  · intro stamp state hcache
    obtain ⟨index, row, hrow, -, hfresh⟩ := hinv.cached stamp state hcache
    exact ⟨index, row, hrow, hfresh⟩

/-- Another connection commits between the stamp and the read, and a transaction is rolled
back before the cache is filled. -/
theorem current_state_fresh_between : ∃ system : System,
    system.calls 0 = .returned 0 (.ok {}) ∧ system.store.older = [none] ∧
      system.store.changes = 1 ∧
      FreshSince plainHost (fun _ => .ok {}) system.store 0 {} := by
  have hversion : Function.Injective fun foreign : Nat => (foreign : Int) + 1 := fun first second h => by
    have hsame : (first : Int) + 1 = (second : Int) + 1 := h
    omega
  have hread : Relation.ReflTransGen
      (Step plainHost (fun _ => .ok {}) fun foreign : Nat => (foreign : Int) + 1)
      (started none 0 0) _ :=
    ((((((((Relation.ReflTransGen.refl.tail (.begin 0 rfl)).tail (.lockCache 0 rfl rfl)).tail
      (.lockConnection 0 rfl rfl)).tail (.readVersion 0 rfl)).tail
      (.foreignCommit (some "[]") rfl)).tail (.readChanges 0 rfl)).tail
      (.changed 0 rfl (by exact nofun))).tail (.fetch 0 (some "[]") rfl rfl))
  have hfilled := ((((hread.tail (.openTransaction rfl rfl)).tail
    (.write (some "undone") 1 rfl (by decide))).tail (.rollback rfl)).tail
    (.parse 0 {} rfl rfl)).tail (.finish 0 rfl)
  exact ⟨_, rfl, rfl, rfl, (current_state_fresh hversion ⟨none, 0, 0, hfilled⟩).1 0 0 {} rfl⟩

end Invariant

end MobiusAgent.CatalogCache
