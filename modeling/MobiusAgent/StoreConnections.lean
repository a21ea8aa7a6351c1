import MobiusAgent.StoreAcceptance

/-!
# Connections, hints and whole runs of the store

A database is used over any number of connections. Each has its own identity
hints and its own `data_version`, which changes exactly when another
connection commits. Context items live on a heap of shared allocations: an
address is reused only once no handle, not even a weak one of a hint, is left.
One step is one operation on one connection; `run` takes any sequence of them.

Every run keeps two facts, whatever the encoding loses: the tables refine the
map of the checkpoints last accepted, and the items of a hint whose data version
is current stand in their context rows. Where items are read back as they were
written, the first gives what loading returns and when a save is accepted, the
second that a hint does not change a decision.
-/

namespace MobiusAgent.StoreConnections

open JsonValue ProtocolEvents CheckpointRecords CheckpointValidation StoreTables
open StoreTransactions StoreContext StoreRefinement StoreAcceptance

/-- The values of the live allocations. -/
abbrev Heap := Address → Option Json

/-- One SQLite connection with its hints. -/
structure Connection where
  /-- The identity hints by session. -/
  caches : ContextCaches
  /-- `PRAGMA data_version`. -/
  dataVersion : Nat

/-- The database, the heap and the open connections. -/
structure World (Text : Type) where
  tables : Tables Text
  heap : Heap
  connections : List Connection

/-- A fresh database that nobody has opened. -/
def World.empty {Text : Type} : World Text := ⟨.empty, fun _ => none, []⟩

/-- A checkpoint as callers can build it: its queued messages were checked
when they were built or decoded. -/
structure Offer (checks : ExternalChecks) where
  shared : SharedCheckpoint
  queue : QueueValid checks shared.header

/-- One operation; a database operation names its connection. -/
inductive Operation (checks : ExternalChecks) where
  | allocate (address : Address) (value : Json)
  /-- Drop the last owner of a shared item. -/
  | release (address : Address)
  | connect (dataVersion : Nat)
  /-- Close a connection; its hints are dropped. -/
  | disconnect (connection : Nat)
  /-- Load a session. The data version is read before the snapshot, so it may
  be behind; the items read are allocated at the given addresses. -/
  | load (connection : Nat) (id : SessionId) (behind : Nat) (addresses : List Address)
  /-- Save a checkpoint with its events. -/
  | save (connection : Nat) (offer : Offer checks) (transcriptDelta : List Json)
      (execution : Option ExecutionRecord) (events : List TimestampedEvent)
  | fork (connection : Nat) (parent : SessionId) (parentSequence : Nat) (offer : Offer checks)
  | delete (connection : Nat) (roots : List SessionId)
  | appendEvent (connection : Nat) (id : SessionId) (event : TimestampedEvent)

/-- What an operation did. -/
inductive Outcome where
  | done
  /-- The checkpoint of an accepted save or fork. -/
  | accepted (checkpoint : Checkpoint)
  /-- The sessions of an accepted deletion. -/
  | deleted (tree : List SessionId)
  | loaded (checkpoint : Option Checkpoint)
  | rejected (error : Error)
  /-- The callers cannot ask for it here: no such connection, or items that
  are not live. -/
  | impossible

/-- Some hint of some connection still holds the allocation. -/
def weaklyHeld (connections : List Connection) (address : Address) : Bool :=
  connections.any fun connection => connection.caches.any fun (_, cache) =>
    cache.items.contains address

/-- An address the allocator may hand out. -/
def isFree {Text : Type} (world : World Text) (address : Address) : Bool :=
  (world.heap address).isNone && !weaklyHeld world.connections address

def isLive (heap : Heap) (shared : SharedCheckpoint) : Bool :=
  shared.context.all fun item => decide (heap item.address = some item.value)

def allocateItems (heap : Heap) : List SharedItem → Heap
  | [] => heap
  | item :: items => Function.update (allocateItems heap items) item.address (some item.value)

/-- The items of a context at the addresses they are read to. -/
def placeItems (addresses : List Address) (values : List Json) : List SharedItem :=
  (addresses.zip values).map fun pair => ⟨pair.1, pair.2⟩

/-- A commit of one connection: every other one sees a new data version. -/
def commit {Text : Type} (world : World Text) (index : Nat) (tables : Tables Text)
    (caches : ContextCaches) : World Text where
  tables := tables
  heap := world.heap
  connections := world.connections.mapIdx fun other connection =>
    if other = index then ⟨caches, connection.dataVersion⟩
    else ⟨connection.caches, connection.dataVersion + 1⟩

/-- Replace the hints of one connection. -/
def setCaches (connections : List Connection) (index : Nat) (caches : ContextCaches) :
    List Connection :=
  connections.mapIdx fun other connection =>
    if other = index then ⟨caches, connection.dataVersion⟩ else connection

section Steps

variable {Text : Type} (codecs : Codecs Text) (checks : ExternalChecks)

/-- `load` on one connection. -/
def loadOn (world : World Text) (index : Nat) (connection : Connection) (id : SessionId)
    (behind : Nat) (addresses : List Address) : World Text × Outcome :=
  match load codecs checks world.tables id with
  | .error error => (world, .rejected error)
  | .ok none => (world, .loaded none)
  | .ok (some checkpoint) =>
    if addresses.length = checkpoint.context.length ∧ addresses.Nodup ∧
        addresses.all (isFree world) then
      let shared : SharedCheckpoint :=
        ⟨checkpoint.toCheckpointHeader, placeItems addresses checkpoint.context⟩
      let heap := allocateItems world.heap shared.context
      let caches := recordCache (fun address => (heap address).isSome) connection.caches shared
        (connection.dataVersion - behind)
      ({ world with heap := heap, connections := setCaches world.connections index caches },
        .loaded (some checkpoint))
    else (world, .impossible)

/-- `save_with_events` on one connection. -/
def saveOn (world : World Text) (index : Nat) (connection : Connection) (offer : Offer checks)
    (transcriptDelta : List Json) (execution : Option ExecutionRecord)
    (events : List TimestampedEvent) : World Text × Outcome :=
  let shared := offer.shared
  if isLive world.heap shared then
    match saveWithEvents codecs checks world.tables shared transcriptDelta execution events
        (cachedContext connection.caches shared.header.sessionId) connection.dataVersion with
    | .error error => (world, .rejected error)
    | .ok (_, tables) =>
      (commit world index tables (recordCache (fun address => (world.heap address).isSome)
        connection.caches shared connection.dataVersion), .accepted shared.checkpoint)
  else (world, .impossible)

/-- `fork` on one connection. -/
def forkOn (world : World Text) (index : Nat) (connection : Connection) (parent : SessionId)
    (parentSequence : Nat) (offer : Offer checks) : World Text × Outcome :=
  let shared := offer.shared
  if isLive world.heap shared then
    match StoreTransactions.fork codecs world.tables parent parentSequence shared with
    | .error error => (world, .rejected error)
    | .ok (_, tables) =>
      (commit world index tables (recordCache (fun address => (world.heap address).isSome)
        connection.caches shared connection.dataVersion), .accepted shared.checkpoint)
  else (world, .impossible)

/-- `delete_sessions` on one connection; its own hints of the tree go too. -/
def deleteOn (world : World Text) (index : Nat) (connection : Connection)
    (roots : List SessionId) : World Text × Outcome :=
  if roots.isEmpty then (world, .done)
  else match deleteSessions world.tables roots with
    | .error error => (world, .rejected error)
    | .ok none => (world, .done)
    | .ok (some (tree, tables)) =>
      (commit world index tables (tree.foldl removeCache connection.caches), .deleted tree)

/-- `append_event` on one connection. -/
def appendEventOn (world : World Text) (index : Nat) (connection : Connection) (id : SessionId)
    (event : TimestampedEvent) : World Text × Outcome :=
  match storeEvent codecs world.tables id event none with
  | .error error => (world, .rejected error)
  | .ok (_, tables) => (commit world index tables connection.caches, .done)

/-- An operation on an open connection. -/
def withConnection (world : World Text) (index : Nat)
    (operation : Connection → World Text × Outcome) : World Text × Outcome :=
  match world.connections[index]? with
  | some connection => operation connection
  | none => (world, .impossible)

def step (world : World Text) : Operation checks → World Text × Outcome
  | .allocate address value =>
    if isFree world address then
      ({ world with heap := Function.update world.heap address (some value) }, .done)
    else (world, .impossible)
  | .release address => ({ world with heap := Function.update world.heap address none }, .done)
  | .connect dataVersion =>
    ({ world with connections := world.connections ++ [⟨[], dataVersion⟩] }, .done)
  | .disconnect index =>
    ({ world with connections := world.connections.eraseIdx index }, .done)
  | .load index id behind addresses =>
    withConnection world index (loadOn codecs checks world index · id behind addresses)
  | .save index offer transcriptDelta execution events =>
    withConnection world index
      (saveOn codecs checks world index · offer transcriptDelta execution events)
  | .fork index parent parentSequence offer =>
    withConnection world index (forkOn codecs checks world index · parent parentSequence offer)
  | .delete index roots => withConnection world index (deleteOn world index · roots)
  | .appendEvent index id event =>
    withConnection world index (appendEventOn codecs world index · id event)

/-- A sequence of operations, with their outcomes. -/
def run (world : World Text) : List (Operation checks) → World Text × List Outcome
  | [] => (world, [])
  | operation :: operations =>
    let (next, outcome) := step codecs checks world operation
    let (last, outcomes) := run next operations
    (last, outcome :: outcomes)

end Steps

/-- What an outcome does to the map. -/
def Outcome.apply (store : AbstractStore) : Outcome → AbstractStore
  | .accepted checkpoint => store.put checkpoint
  | .deleted tree => store.remove tree
  | _ => store

/-- The checkpoint of the last accepted save or fork of every session that
was not deleted since. -/
def lastAccepted (outcomes : List Outcome) : AbstractStore :=
  outcomes.foldl Outcome.apply fun _ => none

/-- A hint was recorded at or before the data version; while it is current, an
item of it that is still live stands in its context row. -/
structure HintFor {Text : Type} (codecs : Codecs Text) (heap : Heap)
    (contexts : SessionId → List Text) (dataVersion : Nat)
    (entry : SessionId × ContextCache) : Prop where
  past : entry.2.dataVersion ≤ dataVersion
  current : entry.2.dataVersion = dataVersion → ∀ (index : Nat) address value,
    entry.2.items[index]? = some address → heap address = some value →
      ∃ text, (contexts entry.1)[index]? = some text ∧ Written codecs text value

/-- What every run keeps. -/
structure Sound {Text : Type} (codecs : Codecs Text) (checks : ExternalChecks)
    (world : World Text) (store : AbstractStore) : Prop where
  refines : Refines codecs checks world.tables store
  hints : ∀ connection ∈ world.connections, ∀ entry ∈ connection.caches,
    HintFor codecs world.heap (contextTexts world.tables) connection.dataVersion entry

section Hints

variable {Text : Type} {codecs : Codecs Text} {entry : SessionId × ContextCache}
  {dataVersion : Nat} {contexts next : SessionId → List Text} {heap : Heap}
  {shared : SharedCheckpoint} {caches : ContextCaches} {connection : Connection}

theorem HintFor.outdated (h : HintFor codecs heap contexts dataVersion entry)
    (next : SessionId → List Text) : HintFor codecs heap next (dataVersion + 1) entry := by
  have hpast := h.past
  refine ⟨by omega, fun hsame => ?_⟩
  omega

theorem HintFor.of_eq (h : HintFor codecs heap contexts dataVersion entry)
    (hsame : next entry.1 = contexts entry.1) : HintFor codecs heap next dataVersion entry := by
  refine ⟨h.past, fun hcurrent => ?_⟩
  rw [hsame]
  exact h.current hcurrent

theorem HintFor.of_heap {other : Heap} (h : HintFor codecs heap contexts dataVersion entry)
    (hheap : ∀ address ∈ entry.2.items, ∀ value, other address = some value →
      heap address = some value) : HintFor codecs other contexts dataVersion entry := by
  refine ⟨h.past, fun hcurrent index address value haddress hvalue => ?_⟩
  have hmem : address ∈ entry.2.items := List.mem_of_getElem? haddress
  exact h.current hcurrent index address value haddress (hheap address hmem value hvalue)

theorem mem_recordCache {live : Address → Bool}
    (h : entry ∈ recordCache live caches shared dataVersion) :
    (entry ∈ caches ∧ entry.1 ≠ shared.header.sessionId) ∨
      entry = (shared.header.sessionId, ⟨shared.header.sequence, shared.header.contextEpoch,
        dataVersion, shared.context.map (·.address)⟩) := by
  have hkept : ∀ {entry : SessionId × ContextCache}, entry ∈ removeCache
      (caches.filter fun (_, cache) => cache.items.any live) shared.header.sessionId →
      entry ∈ caches ∧ entry.1 ≠ shared.header.sessionId := by
    intro entry hmem
    obtain ⟨hmem, hne⟩ := List.mem_filter.mp hmem
    exact ⟨List.mem_of_mem_filter hmem, of_decide_eq_true hne⟩
  simp only [recordCache] at h
  split at h
  · exact .inl (hkept h)
  · rcases List.mem_cons.mp h with hnew | hold
    · exact .inr hnew
    · exact .inl (hkept hold)

theorem hintFor_of_live {texts : List Text} (hlive : isLive heap shared = true)
    (hitems : List.Forall₂ (Written codecs) texts (shared.context.map (·.value)))
    {index : Nat} {address : Address} {value : Json}
    (haddress : (shared.context.map (·.address))[index]? = some address)
    (hvalue : heap address = some value) :
    ∃ text, texts[index]? = some text ∧ Written codecs text value := by
  rw [List.getElem?_map, Option.map_eq_some_iff] at haddress
  obtain ⟨item, hitem, rfl⟩ := haddress
  have hall := List.all_eq_true.mp hlive item (List.mem_of_getElem? hitem)
  have hsame := of_decide_eq_true hall
  rw [hvalue, Option.some.injEq] at hsame
  obtain ⟨hbound, hget⟩ := List.getElem?_eq_some_iff.mp hitem
  have hlength : index < texts.length := by
    rw [hitems.length_eq, List.length_map]
    exact hbound
  refine ⟨texts[index], List.getElem?_eq_getElem hlength, ?_⟩
  have hwritten := hitems.get hlength (by rw [List.length_map]; exact hbound)
  simp only [List.get_eq_getElem, List.getElem_map, hget] at hwritten
  rw [hsame]
  exact hwritten

theorem recordCache_hints {version recorded : Nat} {live : Address → Bool}
    (hints : ∀ entry ∈ caches, HintFor codecs heap contexts version entry)
    (hlive : isLive heap shared = true) (hpast : recorded ≤ version)
    (hitems : List.Forall₂ (Written codecs) (next shared.header.sessionId)
      (shared.context.map (·.value)))
    (hothers : ∀ id, id ≠ shared.header.sessionId → next id = contexts id) :
    ∀ entry ∈ recordCache live caches shared recorded,
      HintFor codecs heap next version entry := by
  intro entry hentry
  rcases mem_recordCache hentry with ⟨hold, hne⟩ | hnew
  · exact (hints entry hold).of_eq (hothers entry.1 hne)
  · subst hnew
    exact ⟨hpast, fun _ index address value haddress hvalue =>
      hintFor_of_live hlive hitems haddress hvalue⟩

theorem mem_foldl_removeCache {tree : List SessionId} (h : entry ∈ tree.foldl removeCache caches) :
    entry ∈ caches ∧ entry.1 ∉ tree := by
  induction tree generalizing caches with
  | nil => exact ⟨h, List.not_mem_nil⟩
  | cons id tree ih =>
    obtain ⟨hmem, htree⟩ := ih h
    obtain ⟨hmem, hne⟩ := List.mem_filter.mp hmem
    refine ⟨hmem, fun hin => ?_⟩
    rcases List.mem_cons.mp hin with heq | hin
    · exact of_decide_eq_true hne heq
    · exact htree hin

theorem commit_hints {world : World Text} {index : Nat} (tables : Tables Text)
    (hints : ∀ connection ∈ world.connections, ∀ entry ∈ connection.caches,
      HintFor codecs world.heap contexts connection.dataVersion entry)
    (hconnection : world.connections[index]? = some connection)
    (hown : ∀ entry ∈ caches, HintFor codecs world.heap next connection.dataVersion entry) :
    ∀ connection ∈ (commit world index tables caches).connections,
      ∀ entry ∈ connection.caches,
        HintFor codecs world.heap next connection.dataVersion entry := by
  intro other hother entry hentry
  obtain ⟨position, hposition, rfl⟩ := List.mem_mapIdx.mp hother
  split at hentry
  · rename_i heq
    subst heq
    rw [List.getElem?_eq_getElem hposition, Option.some.injEq] at hconnection
    rw [if_pos rfl, hconnection]
    exact hown entry hentry
  · rename_i hne
    rw [if_neg hne]
    exact (hints _ (List.getElem_mem hposition) entry hentry).outdated next

theorem cachedContext_mem {id : SessionId} {cache : ContextCache}
    (h : cachedContext caches id = some cache) : (id, cache) ∈ caches := by
  obtain ⟨entry, hfound, hcache⟩ := Option.map_eq_some_iff.mp h
  have hid : entry.1 = id := by simpa using List.find?_some hfound
  have hmem := List.mem_of_find?_eq_some hfound
  rw [← hid, ← hcache]
  exact hmem

theorem hintSound_of_live {stored : Checkpoint}
    (hints : ∀ entry ∈ connection.caches,
      HintFor codecs heap contexts connection.dataVersion entry)
    (hlive : isLive heap shared = true) (hid : stored.sessionId = shared.header.sessionId) :
    HintSound codecs (appliedHint (cachedContext connection.caches shared.header.sessionId) shared
      stored connection.dataVersion) 0 (contexts stored.sessionId)
      (shared.context.take stored.context.length) := by
  rintro index item hitem ⟨cache, hcache, haddress⟩
  obtain ⟨hcached, happlies⟩ := Option.filter_eq_some_iff.mp hcache
  have hversion : cache.dataVersion = connection.dataVersion := by
    simp only [hintApplies, Bool.and_eq_true, beq_iff_eq] at happlies
    exact happlies.1.2
  rw [Nat.zero_add] at haddress
  have hoffered := List.mem_of_mem_take (List.mem_of_getElem? hitem)
  have hvalue := of_decide_eq_true (List.all_eq_true.mp hlive item hoffered)
  rw [hid]
  exact (hints _ (cachedContext_mem hcached)).current hversion index item.address item.value
    haddress hvalue

theorem isLive_allocateItems (heap : Heap) (header : CheckpointHeader)
    (items : List SharedItem) (hnodup : (items.map (·.address)).Nodup) :
    isLive (allocateItems heap items) ⟨header, items⟩ = true := by
  rw [isLive, List.all_eq_true]
  intro item hitem
  refine decide_eq_true ?_
  change item ∈ items at hitem
  induction items with
  | nil => cases hitem
  | cons head items ih =>
    rw [List.map_cons, List.nodup_cons] at hnodup
    rcases List.mem_cons.mp hitem with rfl | hrest
    · rw [allocateItems, Function.update_self]
    · have hne : item.address ≠ head.address := by
        intro heq
        exact hnodup.1 (heq ▸ List.mem_map_of_mem hrest)
      rw [allocateItems, Function.update_of_ne hne]
      exact ih hnodup.2 hrest

theorem map_address_placeItems {addresses : List Address} {values : List Json}
    (h : addresses.length = values.length) :
    (placeItems addresses values).map (·.address) = addresses := by
  rw [placeItems, List.map_map]
  exact List.map_fst_zip (le_of_eq h)

theorem map_value_placeItems {addresses : List Address} {values : List Json}
    (h : addresses.length = values.length) :
    (placeItems addresses values).map (·.value) = values := by
  rw [placeItems, List.map_map]
  exact List.map_snd_zip (le_of_eq h.symm)

theorem allocateItems_of_not_mem (heap : Heap) {items : List SharedItem} {address : Address}
    (h : address ∉ items.map (·.address)) : allocateItems heap items address = heap address := by
  induction items with
  | nil => rfl
  | cons head items ih =>
    rw [List.map_cons, List.mem_cons, not_or] at h
    rw [allocateItems, Function.update_of_ne h.1]
    exact ih h.2

theorem not_isFree_of_held {world : World Text} {address : Address}
    (hconnection : connection ∈ world.connections) (hentry : entry ∈ connection.caches)
    (haddress : address ∈ entry.2.items) : isFree world address = false := by
  have hheld : weaklyHeld world.connections address = true := by
    rw [weaklyHeld, List.any_eq_true]
    refine ⟨connection, hconnection, ?_⟩
    rw [List.any_eq_true]
    exact ⟨entry, hentry, by simpa using haddress⟩
  rw [isFree, hheld]
  simp

end Hints

section Runs

variable {Text : Type} (codecs : Codecs Text) (checks : ExternalChecks)

variable {connection : Connection} {index : Nat} {store : AbstractStore} {world : World Text}

theorem loadOn_sound (hsound : Sound codecs checks world store)
    (hconnection : world.connections[index]? = some connection) (id : SessionId) (behind : Nat)
    (addresses : List Address) :
    Sound codecs checks (loadOn codecs checks world index connection id behind addresses).1
      ((loadOn codecs checks world index connection id behind addresses).2.apply store) := by
  unfold loadOn
  split
  · exact hsound
  · exact hsound
  · rename_i stored hload
    obtain ⟨hid, hdecodes⟩ := load_decodes codecs checks hsound.refines hload
    split
    · rename_i hfree
      obtain ⟨hlength, hnodup, hfree⟩ := hfree
      have haddresses := map_address_placeItems hlength
      have hitems : List.Forall₂ (Written codecs) (contextTexts world.tables id)
          ((placeItems addresses stored.context).map (·.value)) := by
        rw [map_value_placeItems hlength]
        exact hdecodes.imp fun _ _ hdecode => .inr hdecode
      have hlive := isLive_allocateItems world.heap stored.toCheckpointHeader
        (placeItems addresses stored.context) (by rw [haddresses]; exact hnodup)
      have hkept : ∀ other ∈ world.connections, ∀ entry ∈ other.caches,
          HintFor codecs (allocateItems world.heap (placeItems addresses stored.context))
            (contextTexts world.tables) other.dataVersion entry := by
        intro other hother entry hentry
        refine (hsound.hints other hother entry hentry).of_heap fun address haddress value h => ?_
        have hheld := not_isFree_of_held hother hentry haddress
        have hfresh : address ∉ (placeItems addresses stored.context).map (·.address) := by
          rw [haddresses]
          intro hmem
          rw [List.all_eq_true.mp hfree address hmem] at hheld
          cases hheld
        rwa [allocateItems_of_not_mem world.heap hfresh] at h
      refine ⟨hsound.refines, fun other hother entry hentry => ?_⟩
      obtain ⟨position, hposition, rfl⟩ := List.mem_mapIdx.mp hother
      split at hentry
      · rename_i heq
        subst heq
        rw [List.getElem?_eq_getElem hposition, Option.some.injEq] at hconnection
        rw [if_pos rfl, hconnection]
        exact recordCache_hints
          (hconnection ▸ hkept _ (List.getElem_mem hposition)) hlive (Nat.sub_le _ _)
          (hid.symm ▸ hitems) (fun _ _ => rfl) entry hentry
      · rename_i hne
        rw [if_neg hne]
        exact hkept _ (List.getElem_mem hposition) entry hentry
    · exact hsound

theorem saveOn_sound (hsound : Sound codecs checks world store)
    (hconnection : world.connections[index]? = some connection) (offer : Offer checks)
    (transcriptDelta : List Json) (execution : Option ExecutionRecord)
    (events : List TimestampedEvent) :
    Sound codecs checks
      (saveOn codecs checks world index connection offer transcriptDelta execution events).1
      ((saveOn codecs checks world index connection offer transcriptDelta execution
        events).2.apply store) := by
  unfold saveOn
  dsimp only
  split
  · rename_i hlive
    have hints := hsound.hints connection (List.mem_of_getElem? hconnection)
    split
    · exact hsound
    · rename_i records tables hsave
      obtain ⟨hrefines, hothers⟩ := saveWithEvents_refines codecs checks hsound.refines
        offer.queue (fun stored hstored => hintSound_of_live hints hlive
          (hsound.refines.present _ stored hstored).1) hsave
      refine ⟨hrefines, commit_hints tables hsound.hints hconnection ?_⟩
      exact recordCache_hints hints hlive (le_refl _) (hrefines.items_put codecs checks) hothers
  · exact hsound

theorem forkOn_sound (hsound : Sound codecs checks world store)
    (hconnection : world.connections[index]? = some connection) (parent : SessionId)
    (parentSequence : Nat) (offer : Offer checks) :
    Sound codecs checks
      (forkOn codecs checks world index connection parent parentSequence offer).1
      ((forkOn codecs checks world index connection parent parentSequence offer).2.apply
        store) := by
  unfold forkOn
  dsimp only
  split
  · rename_i hlive
    have hints := hsound.hints connection (List.mem_of_getElem? hconnection)
    split
    · exact hsound
    · rename_i summary tables hfork
      obtain ⟨hrefines, hothers⟩ := fork_refines codecs checks hsound.refines offer.queue hfork
      refine ⟨hrefines, commit_hints tables hsound.hints hconnection ?_⟩
      exact recordCache_hints hints hlive (le_refl _) (hrefines.items_put codecs checks) hothers
  · exact hsound

theorem deleteOn_sound (hsound : Sound codecs checks world store)
    (hconnection : world.connections[index]? = some connection) (roots : List SessionId) :
    Sound codecs checks (deleteOn world index connection roots).1
      ((deleteOn world index connection roots).2.apply store) := by
  unfold deleteOn
  split
  · exact hsound
  · split
    · exact hsound
    · exact hsound
    · rename_i tree tables hdelete
      obtain ⟨hrefines, hothers⟩ := deleteSessions_refines codecs checks hsound.refines hdelete
      refine ⟨hrefines, commit_hints tables hsound.hints hconnection fun entry hentry => ?_⟩
      obtain ⟨hmem, htree⟩ := mem_foldl_removeCache hentry
      have hkept := hsound.hints connection (List.mem_of_getElem? hconnection) entry hmem
      refine hkept.of_eq (hothers entry.1 ?_)
      simpa using htree

theorem appendEventOn_sound (hsound : Sound codecs checks world store)
    (hconnection : world.connections[index]? = some connection) (id : SessionId)
    (event : TimestampedEvent) :
    Sound codecs checks (appendEventOn codecs world index connection id event).1
      ((appendEventOn codecs world index connection id event).2.apply store) := by
  unfold appendEventOn
  split
  · exact hsound
  · rename_i record tables hevent
    have hjournaled := storeEvent_journaled codecs hevent
    refine ⟨hjournaled.refines codecs checks hsound.refines (storeEvent_session codecs hevent), ?_⟩
    refine commit_hints tables hsound.hints hconnection fun entry hentry => ?_
    refine (hsound.hints connection (List.mem_of_getElem? hconnection) entry hentry).of_eq ?_
    simp only [contextTexts, sessionRows, commit, hjournaled.contextItems]

theorem step_sound (hsound : Sound codecs checks world store) (operation : Operation checks) :
    Sound codecs checks (step codecs checks world operation).1
      ((step codecs checks world operation).2.apply store) := by
  have hopen : ∀ {index : Nat} {action : Connection → World Text × Outcome},
      (∀ connection, world.connections[index]? = some connection →
        Sound codecs checks (action connection).1 ((action connection).2.apply store)) →
      Sound codecs checks (withConnection world index action).1
        ((withConnection world index action).2.apply store) := by
    intro index action haction
    unfold withConnection
    split
    · rename_i connection hconnection
      exact haction connection hconnection
    · exact hsound
  cases operation with
  | allocate address value =>
    rw [step]
    split
    · rename_i hfree
      refine ⟨hsound.refines, fun connection hconnection entry hentry => ?_⟩
      change connection ∈ world.connections at hconnection
      refine (hsound.hints connection hconnection entry hentry).of_heap
        fun other hother found hfound => ?_
      have hheld := not_isFree_of_held hconnection hentry hother
      have hne : other ≠ address := by
        rintro rfl
        rw [hfree] at hheld
        cases hheld
      simpa only [Function.update_of_ne hne] using hfound
    · exact hsound
  | release address =>
    refine ⟨hsound.refines, fun connection hconnection entry hentry => ?_⟩
    refine (hsound.hints connection hconnection entry hentry).of_heap
      fun other _ found hfound => ?_
    by_cases hne : other = address
    · rw [hne] at hfound
      simp only [step, Function.update_self] at hfound
      cases hfound
    · simpa only [step, Function.update_of_ne hne] using hfound
  | connect dataVersion =>
    refine ⟨hsound.refines, fun connection hconnection entry hentry => ?_⟩
    rcases List.mem_append.mp hconnection with hold | hnew
    · exact hsound.hints connection hold entry hentry
    · rw [List.mem_singleton.mp hnew] at hentry
      cases hentry
  | disconnect index =>
    refine ⟨hsound.refines, fun connection hconnection entry hentry => ?_⟩
    exact hsound.hints connection (List.mem_of_mem_eraseIdx hconnection) entry hentry
  | load index id behind addresses =>
    exact hopen fun connection hconnection =>
      loadOn_sound codecs checks hsound hconnection id behind addresses
  | save index offer transcriptDelta execution events =>
    exact hopen fun connection hconnection =>
      saveOn_sound codecs checks hsound hconnection offer transcriptDelta execution events
  | fork index parent parentSequence offer =>
    exact hopen fun connection hconnection =>
      forkOn_sound codecs checks hsound hconnection parent parentSequence offer
  | delete index roots =>
    exact hopen fun connection hconnection =>
      deleteOn_sound codecs checks hsound hconnection roots
  | appendEvent index id event =>
    exact hopen fun connection hconnection =>
      appendEventOn_sound codecs checks hsound hconnection id event

theorem run_sound (hsound : Sound codecs checks world store)
    (operations : List (Operation checks)) :
    Sound codecs checks (run codecs checks world operations).1
      ((run codecs checks world operations).2.foldl Outcome.apply store) := by
  induction operations generalizing world store with
  | nil => exact hsound
  | cons operation operations ih => exact ih (step_sound codecs checks hsound operation)

theorem run_empty_sound (operations : List (Operation checks)) :
    Sound codecs checks (run codecs checks (.empty : World Text) operations).1
      (lastAccepted (run codecs checks (.empty : World Text) operations).2) := by
  refine run_sound codecs checks ⟨refines_empty codecs checks, ?_⟩ operations
  intro connection hconnection
  cases hconnection

theorem saveOn_accepted_iff {offer : Offer checks} {transcriptDelta : List Json}
    {execution : Option ExecutionRecord} {events : List TimestampedEvent}
    (hlive : isLive world.heap offer.shared = true) :
    (saveOn codecs checks world index connection offer transcriptDelta execution events).2 =
        .accepted offer.shared.checkpoint ↔
      ∃ result, saveWithEvents codecs checks world.tables offer.shared transcriptDelta execution
        events (cachedContext connection.caches offer.shared.header.sessionId)
        connection.dataVersion = .ok result := by
  simp only [saveOn, hlive, if_true]
  split
  · rename_i error herror
    refine ⟨fun h => (by cases h), fun ⟨result, hresult⟩ => ?_⟩
    rw [herror] at hresult
    cases hresult
  · rename_i records tables hsave
    exact ⟨fun _ => ⟨_, hsave⟩, fun _ => rfl⟩

theorem step_rejected {operation : Operation checks} {error : Error}
    (h : (step codecs checks world operation).2 = .rejected error) :
    (step codecs checks world operation).1.tables = world.tables := by
  cases operation with
  | allocate address value => rw [step]; split <;> rfl
  | release address | connect dataVersion | disconnect index => rfl
  | load index id behind addresses =>
    simp only [step, withConnection, loadOn] at h ⊢
    repeat' split
    all_goals rfl
  | save index offer transcriptDelta execution events =>
    simp only [step, withConnection, saveOn] at h ⊢
    repeat' split
    all_goals first | rfl | simp_all
  | fork index parent parentSequence offer =>
    simp only [step, withConnection, forkOn] at h ⊢
    repeat' split
    all_goals first | rfl | simp_all
  | delete index roots =>
    simp only [step, withConnection, deleteOn] at h ⊢
    repeat' split
    all_goals first | rfl | simp_all
  | appendEvent index id event =>
    simp only [step, withConnection, appendEventOn] at h ⊢
    repeat' split
    all_goals first | rfl | simp_all

end Runs

/-- Text columns of a store whose encoding keeps the record itself. -/
inductive Document where
  | header (header : CheckpointHeader)
  | item (item : Json)
  | items (items : List Json)
  | sessionContext (context : SessionContext)
  | executionStats (stats : ExecutionStats)
  | execution (record : ExecutionRecord)
  | event (event : StoredEvent)
  | metrics (metrics : List StreamMetrics)

/-- A document of another kind. -/
def wrongDocument : Error := .json "invalid type"

def documentCodecs : Codecs Document where
  header := ⟨.header, fun | .header value => .ok value | _ => .error wrongDocument⟩
  item := ⟨.item, fun | .item value => .ok value | _ => .error wrongDocument⟩
  items := ⟨.items, fun | .items value => .ok value | _ => .error wrongDocument⟩
  sessionContext := ⟨.sessionContext,
    fun | .sessionContext value => .ok value | _ => .error wrongDocument⟩
  executionStats := ⟨.executionStats,
    fun | .executionStats value => .ok value | _ => .error wrongDocument⟩
  execution := ⟨.execution,
    fun | .execution value => .ok value | _ => .error wrongDocument⟩
  event := ⟨.event, fun | .event value => .ok value | _ => .error wrongDocument⟩
  metrics := ⟨.metrics, fun | .metrics value => .ok value | _ => .error wrongDocument⟩

/-- Checks of a host whose identifiers are opaque. -/
def openChecks : ExternalChecks := ⟨fun _ => true, fun _ => some 0⟩

/-- A one-item session at some sequence. -/
def sampleOffer (sequence : Nat) : Offer openChecks where
  shared := ⟨{ (Checkpoint.empty "session").toCheckpointHeader with
    sessionContext := { ownerId := "owner" }, sequence := sequence }, [⟨0, .str "hello"⟩]⟩
  queue := rfl

/-- A run that opens two connections and saves one session on the first. -/
def sampleRun : List (Operation openChecks) :=
  [.connect 1, .connect 1, .allocate 0 (.str "hello"), .save 0 (sampleOffer 0) [] none []]

/-- How a fraction is read: some become the double next to them. -/
def readDecimal (literal : String) : String :=
  if literal = "0.9565269861816759" then "0.956526986181676" else literal

mutual

/-- How a value is read. -/
def readNumbers : Json → Json
  | .decimal literal => .decimal (readDecimal literal)
  | .arr items => .arr (readItems items)
  | .obj fields => .obj (readFields fields)
  | value => value

def readItems : List Json → List Json
  | [] => []
  | item :: items => readNumbers item :: readItems items

def readFields : List (String × Json) → List (String × Json)
  | [] => []
  | (name, value) :: fields => (name, readNumbers value) :: readFields fields

end

/-- Encodings whose reader does not round fractions correctly: the item of a
context, and the arguments of a tool call in the journal. -/
def roundingCodecs : Codecs Document :=
  { documentCodecs with
    item := ⟨.item, fun
      | .item value => .ok (readNumbers value)
      | _ => .error wrongDocument⟩
    event := ⟨.event, fun
      | .event (.inline ⟨id, .toolCallBegin turnId callId name arguments⟩) =>
        .ok (.inline ⟨id, .toolCallBegin turnId callId name (readNumbers arguments)⟩)
      | .event value => .ok value
      | _ => .error wrongDocument⟩ }

/-- The fraction that is read as another one. -/
def roundedItem : Json := .obj [("score", .decimal "0.9565269861816759")]

def roundedOffer (sequence : Nat) : Offer openChecks where
  shared := ⟨(sampleOffer sequence).shared.header, [⟨0, roundedItem⟩]⟩
  queue := rfl

/-- A run that saves a session with that fraction. -/
def roundedRun : List (Operation openChecks) :=
  [.connect 1, .allocate 0 roundedItem, .save 0 (roundedOffer 0) [] none []]

section Results

variable {Text : Type} (codecs : Codecs Text) (checks : ExternalChecks)

/-- In every run, a hint does not change what preparing an append decides if
the offered items it knows are read back: the same start and rewritten flag with
the same tables, or the same error. -/
theorem prepareAppend_hint_agrees (operations : List (Operation checks)) (index : Nat)
    (connection : Connection) (shared : SharedCheckpoint)
    (hconnection : (run codecs checks (.empty : World Text) operations).1.connections[index]? =
      some connection)
    (hlive : isLive (run codecs checks (.empty : World Text) operations).1.heap shared = true)
    (hreads : ∀ position item, shared.context[position]? = some item →
      Knows (cachedContext connection.caches shared.header.sessionId) position item →
        codecs.item.ReadsBack item.value) :
    prepareAppend codecs (run codecs checks (.empty : World Text) operations).1.tables shared
        (cachedContext connection.caches shared.header.sessionId) connection.dataVersion =
      prepareAppend codecs (run codecs checks (.empty : World Text) operations).1.tables shared
        none connection.dataVersion := by
  have hsound := run_empty_sound codecs checks operations
  have hints := hsound.hints connection (List.mem_of_getElem? hconnection)
  cases hstore : lastAccepted (run codecs checks (.empty : World Text) operations).2
      shared.header.sessionId with
  | none =>
    obtain ⟨hnone, -⟩ := hsound.refines.absent _ hstore
    rw [prepareAppend, prepareAppend, hnone]
  | some stored =>
    obtain ⟨hid, -, row, hrow, hrep⟩ := hsound.refines.present _ stored hstore
    rw [prepareAppend_eq codecs _ _ hrow hid hrep, prepareAppend_eq codecs _ _ hrow hid hrep]
    refine appendDecision_congr _ fun hlength => ?_
    refine comparePrefix_hint (length_offered codecs hrep hlength)
      (hintSound_of_live hints hlive hid) ?_
    rintro position item hitem ⟨cache, hcache, haddress⟩
    rw [Nat.zero_add] at haddress
    refine hreads position item ?_ ⟨cache, (Option.filter_eq_some_iff.mp hcache).1, haddress⟩
    rw [List.getElem?_take] at hitem
    split at hitem
    · exact hitem
    · cases hitem

/-- With a hint that applies, the second save of a session. -/
theorem prepareAppend_hint_agrees_second_save :
    (run documentCodecs openChecks .empty sampleRun).1.connections[0]? =
      some ⟨[("session", ⟨0, 0, 1, [0]⟩)], 1⟩ ∧
    isLive (run documentCodecs openChecks .empty sampleRun).1.heap (sampleOffer 1).shared = true ∧
    prepareAppend documentCodecs (run documentCodecs openChecks .empty sampleRun).1.tables
        (sampleOffer 1).shared (some ⟨0, 0, 1, [0]⟩) 1 =
      prepareAppend documentCodecs (run documentCodecs openChecks .empty sampleRun).1.tables
        (sampleOffer 1).shared none 1 :=
  ⟨rfl, rfl, prepareAppend_hint_agrees documentCodecs openChecks sampleRun 0
    ⟨[("session", ⟨0, 0, 1, [0]⟩)], 1⟩ (sampleOffer 1).shared rfl rfl fun _ _ _ _ => rfl⟩

/-- An item that is not read back as it was written is skipped by the hint, and
told from its row without one. -/
theorem hint_skips_rounded_item :
    (run roundingCodecs openChecks .empty roundedRun).1.connections[0]? =
      some ⟨[("session", ⟨0, 0, 1, [0]⟩)], 1⟩ ∧
    isLive (run roundingCodecs openChecks .empty roundedRun).1.heap (roundedOffer 1).shared =
      true ∧
    prepareAppend roundingCodecs (run roundingCodecs openChecks .empty roundedRun).1.tables
        (roundedOffer 1).shared (some ⟨0, 0, 1, [0]⟩) 1 =
      .ok ((1, false), (run roundingCodecs openChecks .empty roundedRun).1.tables) ∧
    prepareAppend roundingCodecs (run roundingCodecs openChecks .empty roundedRun).1.tables
        (roundedOffer 1).shared none 1 = .error prefixChanged :=
  ⟨rfl, rfl, rfl, rfl⟩

/-- In every run over any connections, where headers and items are read back:
loading returns the checkpoint last accepted; a save of an existing session is
accepted exactly under the save condition and if its events can be journalled;
and an operation that is rejected leaves every table unchanged. -/
theorem store_refines_last_accepted (hlossless : codecs.Lossless)
    (operations : List (Operation checks)) :
    (∀ id, load codecs checks (run codecs checks (.empty : World Text) operations).1.tables id =
      .ok (lastAccepted (run codecs checks (.empty : World Text) operations).2 id)) ∧
    (∀ (index : Nat) (offer : Offer checks) (transcriptDelta : List Json)
      (execution : Option ExecutionRecord) (events : List TimestampedEvent)
      (connection : Connection) (stored : Checkpoint),
      (run codecs checks (.empty : World Text) operations).1.connections[index]? =
        some connection →
      isLive (run codecs checks (.empty : World Text) operations).1.heap offer.shared = true →
      lastAccepted (run codecs checks (.empty : World Text) operations).2
        offer.shared.header.sessionId = some stored →
      ((step codecs checks (run codecs checks (.empty : World Text) operations).1
          (.save index offer transcriptDelta execution events)).2 =
          .accepted offer.shared.checkpoint ↔
        SaveCondition checks stored offer.shared execution ∧
        Journalable codecs (run codecs checks (.empty : World Text) operations).1.tables
          offer.shared.header.sessionId (some (offer.shared.header.sequence, transcriptDelta))
          events)) ∧
    ∀ (operation : Operation checks) (error : Error),
      (step codecs checks (run codecs checks (.empty : World Text) operations).1 operation).2 =
        .rejected error →
      (step codecs checks (run codecs checks (.empty : World Text) operations).1
        operation).1.tables = (run codecs checks (.empty : World Text) operations).1.tables := by
  have hsound := run_empty_sound codecs checks operations
  refine ⟨load_eq codecs checks hlossless hsound.refines, ?_, ?_⟩
  · intro index offer transcriptDelta execution events connection stored hconnection hlive hstored
    have hints := hsound.hints connection (List.mem_of_getElem? hconnection)
    have hiff := saveWithEvents_accepted_iff codecs checks transcriptDelta execution events
      hlossless hsound.refines hstored
      (hintSound_of_live hints hlive (hsound.refines.present _ stored hstored).1)
    rw [← hiff, step, withConnection, hconnection]
    exact saveOn_accepted_iff codecs checks hlive
  · intro operation error
    exact step_rejected codecs checks

/-- A second save of a session is accepted, and loading returns the first. -/
theorem store_refines_last_accepted_second_save :
    load documentCodecs openChecks (run documentCodecs openChecks .empty sampleRun).1.tables
      "session" = .ok (some (sampleOffer 0).shared.checkpoint) ∧
    (SaveCondition openChecks (sampleOffer 0).shared.checkpoint (sampleOffer 1).shared none ∧
      Journalable documentCodecs (run documentCodecs openChecks .empty sampleRun).1.tables
        "session" (some (1, [])) []) ∧
    ∃ error, (step documentCodecs openChecks
        (run documentCodecs openChecks .empty sampleRun).1
        (.save 0 (sampleOffer 0) [] none [])).2 = .rejected error ∧
      (step documentCodecs openChecks (run documentCodecs openChecks .empty sampleRun).1
        (.save 0 (sampleOffer 0) [] none [])).1.tables =
        (run documentCodecs openChecks .empty sampleRun).1.tables := by
  have hresult := store_refines_last_accepted documentCodecs openChecks
    ⟨fun _ => rfl, fun _ => rfl⟩ sampleRun
  refine ⟨hresult.1 "session", ?_, ?_⟩
  · exact (hresult.2.1 0 (sampleOffer 1) [] none [] ⟨[("session", ⟨0, 0, 1, [0]⟩)], 1⟩
      (sampleOffer 0).shared.checkpoint rfl rfl rfl).mp rfl
  · exact ⟨_, rfl, hresult.2.2 (.save 0 (sampleOffer 0) [] none []) _ rfl⟩

/-- A save that passes validation, advances the sequence and keeps epoch and
context is rejected if its sequence is not a SQLite integer. -/
theorem save_rejected_past_sqlite_integer :
    lastAccepted (run documentCodecs openChecks .empty sampleRun).2 "session" =
      some (sampleOffer 0).shared.checkpoint ∧
    isLive (run documentCodecs openChecks .empty sampleRun).1.heap
      (sampleOffer 9223372036854775808).shared = true ∧
    validateCheckpoint (sampleOffer 9223372036854775808).shared.header = .ok () ∧
    validateOptionalExecution openChecks (sampleOffer 9223372036854775808).shared.header none =
      .ok () ∧
    (sampleOffer 0).shared.header.sequence <
      (sampleOffer 9223372036854775808).shared.header.sequence ∧
    (sampleOffer 0).shared.header.contextEpoch =
      (sampleOffer 9223372036854775808).shared.header.contextEpoch ∧
    (sampleOffer 0).shared.checkpoint.context <+:
      (sampleOffer 9223372036854775808).shared.checkpoint.context ∧
    (step documentCodecs openChecks (run documentCodecs openChecks .empty sampleRun).1
      (.save 0 (sampleOffer 9223372036854775808) [] none [])).2 =
      .rejected (.checkpoint ("checkpoint sequence exceeds SQLite INTEGER: " ++
        intConversionError)) :=
  ⟨rfl, rfl, rfl, rfl, by decide, rfl, List.prefix_refl _, rfl⟩

end Results

end MobiusAgent.StoreConnections
