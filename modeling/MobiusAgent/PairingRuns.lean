import Mathlib.Data.List.InsertIdx
import Mathlib.Data.Set.Function
import MobiusAgent.PairingStore

/-!
# Pairing and authentication over whole runs

What one operation can do to the authentication state is said once, as a
relation with the guards of the operation. From it every run keeps memory and
file together, a code is consumed once and only while it is the last one that
was granted, and the digests of the clients are those of the last tokens
issued to them. The file opens again as long as its encoding is short enough.
-/

namespace MobiusAgent.PairingRuns

open JsonValue ProtocolEvents MessageQueue HookRecords PairingStore

section Checks

variable {host : AuthHost}

theorem refuseIf_ok_iff {condition : Prop} [Decidable condition] {error : GatewayError} :
    refuseIf condition error = .ok () ↔ ¬condition := by
  unfold refuseIf
  split
  · simp_all
  · simp_all

theorem checks_ok_iff {first second : Except GatewayError Unit} :
    (first >>= fun _ => second) = .ok () ↔ first = .ok () ∧ second = .ok () := by
  cases first with
  | error error =>
    constructor
    · intro h
      cases h
    · rintro ⟨h, -⟩
      cases h
  | ok value =>
    constructor
    · exact fun h => ⟨rfl, h⟩
    · exact fun h => h.2

/-- The errors of a check are about input. -/
def OnlyConfig (check : Except GatewayError Unit) : Prop :=
  ∀ error, check = .error error → ∃ message, error = .config message

theorem onlyConfig_refuseIf {condition : Prop} [Decidable condition] {message : String} :
    OnlyConfig (refuseIf condition (.config message)) := by
  intro error h
  unfold refuseIf at h
  split at h
  · exact ⟨message, (Except.error.inj h).symm⟩
  · cases h

theorem OnlyConfig.bind {first second : Except GatewayError Unit} (hfirst : OnlyConfig first)
    (hsecond : OnlyConfig second) : OnlyConfig (first >>= fun _ => second) := by
  intro error h
  cases first with
  | error other =>
    refine hfirst error ?_
    exact h
  | ok value => exact hsecond error h

theorem onlyConfig_label (label : String) : OnlyConfig (validateClientLabel label) := by
  intro error h
  unfold validateClientLabel at h
  split at h
  · exact ⟨_, (Except.error.inj h).symm⟩
  · cases h

theorem onlyConfig_id (id : String) : OnlyConfig (validateClientId host id) := by
  intro error h
  unfold validateClientId at h
  split at h
  · exact ⟨_, (Except.error.inj h).symm⟩
  · exact onlyConfig_refuseIf error h

theorem onlyConfig_clients (clients : List ClientToken) (ids : List String)
    (digests : List Bytes32) : OnlyConfig (validateClients host ids digests clients) := by
  induction clients generalizing ids digests with
  | nil =>
    intro error h
    cases h
  | cons client rest ih =>
    unfold validateClients
    exact (onlyConfig_id client.id).bind (onlyConfig_refuseIf.bind
      (onlyConfig_refuseIf.bind ((onlyConfig_label client.label).bind (ih _ _))))

theorem onlyConfig_state (state : AuthState) : OnlyConfig (validateAuthState host state) :=
  onlyConfig_refuseIf.bind (onlyConfig_refuseIf.bind (onlyConfig_clients state.clients [] []))

theorem validateClients_nodup {clients : List ClientToken} {ids : List String}
    {digests : List Bytes32} (h : validateClients host ids digests clients = .ok ()) :
    (clients.map (·.id)).Nodup ∧ (clients.map (·.digest)).Nodup ∧
      (∀ client ∈ clients, client.id ∉ ids) ∧ ∀ client ∈ clients, client.digest ∉ digests := by
  induction clients generalizing ids digests with
  | nil => exact ⟨List.nodup_nil, List.nodup_nil, List.forall_mem_nil _, List.forall_mem_nil _⟩
  | cons client rest ih =>
    unfold validateClients at h
    obtain ⟨-, h⟩ := checks_ok_iff.mp h
    obtain ⟨hid, h⟩ := checks_ok_iff.mp h
    obtain ⟨hdigest, h⟩ := checks_ok_iff.mp h
    obtain ⟨-, h⟩ := checks_ok_iff.mp h
    obtain ⟨hids, hdigests, hfreshIds, hfreshDigests⟩ := ih h
    rw [List.map_cons, List.nodup_cons, List.map_cons, List.nodup_cons, List.forall_mem_cons,
      List.forall_mem_cons]
    refine ⟨⟨?_, hids⟩, ⟨?_, hdigests⟩, ⟨refuseIf_ok_iff.mp hid, ?_⟩,
      ⟨refuseIf_ok_iff.mp hdigest, ?_⟩⟩
    · intro hmem
      obtain ⟨other, hother, heq⟩ := List.mem_map.mp hmem
      exact hfreshIds other hother (heq ▸ List.mem_cons_self)
    · intro hmem
      obtain ⟨other, hother, heq⟩ := List.mem_map.mp hmem
      exact hfreshDigests other hother (heq ▸ List.mem_cons_self)
    · exact fun other hother hmem => hfreshIds other hother (List.mem_cons_of_mem _ hmem)
    · exact fun other hother hmem => hfreshDigests other hother (List.mem_cons_of_mem _ hmem)

theorem validateAuthState_nodup {state : AuthState} (h : validateAuthState host state = .ok ()) :
    (state.clients.map (·.id)).Nodup ∧ (state.clients.map (·.digest)).Nodup := by
  unfold validateAuthState at h
  obtain ⟨-, h⟩ := checks_ok_iff.mp h
  obtain ⟨-, h⟩ := checks_ok_iff.mp h
  obtain ⟨hids, hdigests, -, -⟩ := validateClients_nodup h
  exact ⟨hids, hdigests⟩

theorem credentialMatches_digest {candidate : String} {expected : Bytes32}
    (h : credentialMatches host candidate expected = true) :
    host.sha256 candidate = expected := by
  unfold credentialMatches at h
  split at h
  · cases h
  · exact of_decide_eq_true h

theorem openValidated_file {file state : AuthState} (h : openValidated host file = .ok state) :
    state = file := by
  unfold openValidated at h
  cases hsize : refuseIf (maxAuthStateBytes < file.bytes)
      (.config "authentication state is too large") with
  | error error =>
    rw [hsize] at h
    cases h
  | ok value =>
    rw [hsize] at h
    cases hvalid : validateAuthState host file with
    | error error =>
      rw [hvalid] at h
      cases h
    | ok value =>
      rw [hvalid] at h
      exact (Except.ok.inj h).symm

theorem openValidated_ok_iff {file : AuthState} (h : validateAuthState host file = .ok ()) :
    openValidated host file = .ok file ↔ file.bytes ≤ maxAuthStateBytes := by
  unfold openValidated refuseIf
  rw [h]
  by_cases hlong : maxAuthStateBytes < file.bytes
  · rw [if_pos hlong]
    constructor
    · intro hopen
      cases hopen
    · intro hshort
      omega
  · rw [if_neg hlong]
    constructor
    · exact fun _ => Nat.not_lt.mp hlong
    · exact fun _ => rfl

theorem publish_cases {memory file updated : AuthState} {undo : AuthState → AuthState}
    (hundo : undo updated = memory) (replacement : Replacement) :
    (applied (publish host file updated undo replacement).1 = true ∧
      (publish host file updated undo replacement).2 = ⟨updated, updated⟩ ∧
      validateAuthState host updated = .ok ()) ∨
    (applied (publish host file updated undo replacement).1 = false ∧
      (publish host file updated undo replacement).2 = ⟨memory, file⟩) := by
  unfold publish saveAuthState
  cases hvalid : validateAuthState host updated with
  | error error =>
    right
    obtain ⟨message, rfl⟩ := onlyConfig_state updated error hvalid
    refine ⟨rfl, ?_⟩
    simp only [hundo]
  | ok value =>
    cases replacement with
    | confirmed => exact .inl ⟨rfl, rfl, rfl⟩
    | unchanged =>
      right
      refine ⟨rfl, ?_⟩
      simp only [hundo]
    | unconfirmed => exact .inl ⟨rfl, rfl, rfl⟩

end Checks

section Lists

variable {α β : Type}

theorem foldl_last_some {condition : α → Prop} [DecidablePred condition] {value : α → β}
    {items : List α} {start : Option β} {last : β}
    (h : items.foldl (fun matched item => if condition item then some (value item) else matched)
      start = some last) :
    (∃ item ∈ items, condition item ∧ value item = last) ∨ start = some last := by
  induction items generalizing start with
  | nil => exact .inr h
  | cons item rest ih =>
    rcases ih h with ⟨other, hother, hfound⟩ | hstart
    · exact .inl ⟨other, List.mem_cons_of_mem _ hother, hfound⟩
    · dsimp only at hstart
      by_cases hitem : condition item
      · rw [if_pos hitem] at hstart
        exact .inl ⟨item, List.mem_cons_self, hitem, Option.some.inj hstart⟩
      · rw [if_neg hitem] at hstart
        exact .inr hstart

theorem foldl_last_none {condition : α → Prop} [DecidablePred condition] {value : α → β}
    {items : List α} {start : Option β}
    (h : items.foldl (fun matched item => if condition item then some (value item) else matched)
      start = none) : start = none ∧ ∀ item ∈ items, ¬condition item := by
  induction items generalizing start with
  | nil => exact ⟨h, List.forall_mem_nil _⟩
  | cons item rest ih =>
    obtain ⟨hstart, hrest⟩ := ih h
    dsimp only at hstart
    by_cases hitem : condition item
    · rw [if_pos hitem] at hstart
      cases hstart
    · rw [if_neg hitem] at hstart
      exact ⟨hstart, List.forall_mem_cons.mpr ⟨hitem, hrest⟩⟩

variable {index : Nat} {clients : List ClientToken} {client : ClientToken}

theorem lastWithDigest_some {digest : Bytes32} (h : lastWithDigest digest clients = some index) :
    ∃ client, clients[index]? = some client ∧ client.digest = digest := by
  rcases foldl_last_some h with ⟨⟨client, position⟩, hmem, hdigest, rfl⟩ | hnone
  · exact ⟨client, List.mem_zipIdx_iff_getElem?.mp hmem, hdigest⟩
  · cases hnone

theorem findIdx?_of_nodup (hnodup : (clients.map (·.id)).Nodup)
    (hclient : clients[index]? = some client) :
    (clients.findIdx? fun other => decide (other.id = client.id)) = some index := by
  obtain ⟨hbound, hvalue⟩ := List.getElem?_eq_some_iff.mp hclient
  rw [List.findIdx?_eq_some_iff_getElem]
  refine ⟨hbound, by rw [hvalue]; exact decide_eq_true rfl, ?_⟩
  intro earlier hearlier
  rw [decide_eq_true_eq]
  intro hsame
  have hfirst : clients[earlier] = clients[index] := by
    refine List.inj_on_of_nodup_map hnodup (List.getElem_mem _) (List.getElem_mem _) ?_
    rw [hvalue]
    exact hsame
  have heq := (List.Nodup.getElem_inj_iff hnodup.of_map).mp hfirst
  omega

theorem map_id_set {changed : ClientToken} (hclient : clients[index]? = some client)
    (hid : changed.id = client.id) :
    (clients.set index changed).map (·.id) = clients.map (·.id) := by
  obtain ⟨hbound, hvalue⟩ := List.getElem?_eq_some_iff.mp hclient
  refine List.ext_getElem? ?_
  intro position
  rw [List.getElem?_map, List.getElem?_map, List.getElem?_set]
  split
  · rename_i hsame
    rw [← hsame, hclient, Option.map_some, Option.map_some, hid]
  · rfl

theorem modify_eq_set (hclient : clients[index]? = some client)
    (change : ClientToken → ClientToken) :
    clients.modify index change = clients.set index (change client) := by
  obtain ⟨hbound, -⟩ := List.getElem?_eq_some_iff.mp hclient
  refine List.ext_getElem? ?_
  intro position
  rw [List.getElem?_modify, List.getElem?_set]
  split
  · rename_i hsame
    rw [← hsame, hclient]
    rfl
  · exact Option.map_id_apply

theorem set_self (hclient : clients[index]? = some client) :
    clients.set index client = clients := by
  obtain ⟨hbound, hvalue⟩ := List.getElem?_eq_some_iff.mp hclient
  rw [← hvalue, List.set_getElem_self]

theorem modifyFirst_set {changed : ClientToken} (hnodup : (clients.map (·.id)).Nodup)
    (hclient : clients[index]? = some client) (hid : changed.id = client.id)
    {change : ClientToken → ClientToken} (hchange : change changed = client) :
    modifyFirst (fun other => decide (other.id = client.id)) change (clients.set index changed) =
      clients := by
  obtain ⟨hbound, -⟩ := List.getElem?_eq_some_iff.mp hclient
  have hset : (clients.set index changed)[index]? = some changed :=
    List.getElem?_set_self hbound
  have hfind := findIdx?_of_nodup (by rw [map_id_set hclient hid]; exact hnodup) hset
  rw [hid] at hfind
  unfold modifyFirst
  rw [hfind]
  show (clients.set index changed).modify index change = clients
  rw [modify_eq_set hset, List.set_set, hchange, set_self hclient]

theorem modifyFirst_found (hnodup : (clients.map (·.id)).Nodup)
    (hclient : clients[index]? = some client) (change : ClientToken → ClientToken) :
    modifyFirst (fun other => decide (other.id = client.id)) change clients =
      clients.set index (change client) := by
  unfold modifyFirst
  rw [findIdx?_of_nodup hnodup hclient]
  exact modify_eq_set hclient change

theorem insertIdx_eraseIdx (hclient : clients[index]? = some client) :
    (clients.eraseIdx index).insertIdx index client = clients := by
  obtain ⟨hbound, -⟩ := List.getElem?_eq_some_iff.mp hclient
  rw [List.insertIdx_eraseIdx_self (Nat.ne_of_lt hbound), set_self hclient]

end Lists

section Steps

variable (host : AuthHost) (config : AuthConfig)

/-- What an operation whose update was written did to the state. -/
inductive Change : AuthOp → AuthState → AuthState → List AuthEvent → Prop
  | create (state : AuthState) (secret : String) (now : Int) (replacement : Replacement) :
    Change (.createPairingCode secret now replacement) state
      { state with pendingPairing := some ⟨host.sha256 (credential host secret),
          now + config.pairingLifetimeSeconds⟩ }
      [.granted (credential host secret) (now + config.pairingLifetimeSeconds)]
  | pair (state : AuthState) (pending : PendingPairing) (code label secret : String) (now : Int)
    (replacement : Replacement) (hpending : state.pendingPairing = some pending)
    (hnow : now < pending.expiresAt) (hcode : host.sha256 code = pending.digest)
    (hroom : state.clients.length < config.pairedClients) :
    Change (.pair code label now secret replacement) state
      { pendingPairing := none
        clients := state.clients ++ [⟨pairingClientId host code, label,
          host.sha256 (credential host secret), now⟩] }
      [.consumed code (pairingClientId host code) now,
        .issued (pairingClientId host code) (credential host secret)]
  | repair (state : AuthState) (pending : PendingPairing) (client : ClientToken) (index : Nat)
    (code label secret : String) (digest : Bytes32) (now : Int) (replacement : Replacement)
    (hpending : state.pendingPairing = some pending) (hnow : now < pending.expiresAt)
    (hcode : host.sha256 code = pending.digest) (hclient : state.clients[index]? = some client) :
    Change (.repairPairing code digest label now secret replacement) state
      { pendingPairing := none
        clients := state.clients.set index { client with
          label := label
          digest := host.sha256 (credential host secret)
          createdAt := now } }
      [.consumed code client.id now, .issued client.id (credential host secret)]
  /-- The token of the local client was replaced. -/
  | provisionAgain (state : AuthState) (client : ClientToken) (index : Nat) (secret : String)
    (now : Int) (replacement : Replacement) (hclient : state.clients[index]? = some client)
    (hid : client.id = localClientId) :
    Change (.provisionLocalClient secret now replacement) state
      { state with clients := state.clients.set index { client with
          digest := host.sha256 (credential host secret)
          createdAt := now } }
      [.issued client.id (credential host secret)]
  /-- The local client was added. -/
  | provisionNew (state : AuthState) (secret : String) (now : Int) (replacement : Replacement)
    (hroom : state.clients.length < config.pairedClients) :
    Change (.provisionLocalClient secret now replacement) state
      { state with clients := state.clients ++ [⟨localClientId, localClientLabel,
          host.sha256 (credential host secret), now⟩] }
      [.issued localClientId (credential host secret)]
  | unpair (state : AuthState) (client : ClientToken) (index : Nat) (actorId : String)
    (replacement : Replacement) (hclient : state.clients[index]? = some client) :
    Change (.unpairClient actorId client.id replacement) state
      { state with clients := state.clients.eraseIdx index } [.unpaired client.id]
  | revoke (state : AuthState) (pending : PendingPairing) (code secret : String)
    (replacement : Replacement) (hpending : state.pendingPairing = some pending)
    (hcode : host.sha256 code = pending.digest) :
    Change (.revokePairingCode code secret replacement) state
      { state with pendingPairing := some ⟨host.sha256 secret, revokedPairingExpiry⟩ }
      [.revoked code]

/-- A step that did nothing to the state. -/
structure Kept (world after : AuthWorld) : Prop where
  store : after.store = world.store
  log : after.log = world.log

/-- A step whose change was written. -/
structure Written (operation : AuthOp) (world after : AuthWorld) (updated : AuthState)
    (events : List AuthEvent) : Prop where
  change : Change host config operation world.store.memory updated events
  store : after.store = ⟨updated, updated⟩
  valid : validateAuthState host updated = .ok ()
  log : after.log = world.log ++ events

variable {host config} {world : AuthWorld}

theorem after_refused {α : Type} {result : Except GatewayError α} (events : List AuthEvent)
    (h : applied result = false) : Kept world (world.after (result, world.store) events) := by
  refine ⟨rfl, ?_⟩
  show (if applied result = true then _ else _) = _
  rw [h]
  rfl

theorem after_idle {α : Type} (result : Except GatewayError α) :
    Kept world (world.after (result, world.store) []) := by
  refine ⟨rfl, ?_⟩
  show (if applied result = true then world.log ++ [] else world.log) = _
  rw [List.append_nil, ite_self]

theorem after_publish {α : Type} {operation : AuthOp} {value : α} {updated : AuthState}
    {undo : AuthState → AuthState} {replacement : Replacement} {events : List AuthEvent}
    (hundo : undo updated = world.store.memory)
    (hchange : Change host config operation world.store.memory updated events) :
    Kept world (world.after (replied value
      (publish host world.store.file updated undo replacement)) events) ∨
    Written host config operation world (world.after (replied value
      (publish host world.store.file updated undo replacement)) events) updated events := by
  have happlied : ∀ result : Except GatewayError Unit,
      applied (result.map fun _ => value) = applied result := by
    intro result
    cases result with
    | ok _ | error _ => rfl
  have hlog : (world.after (replied value
      (publish host world.store.file updated undo replacement)) events).log =
      if applied (publish host world.store.file updated undo replacement).1
        then world.log ++ events else world.log := by
    unfold AuthWorld.after replied
    simp only [happlied]
  rcases publish_cases hundo replacement with ⟨hdone, hstore, hvalid⟩ | ⟨hdone, hstore⟩
  · right
    rw [hdone, if_pos rfl] at hlog
    exact ⟨hchange, hstore, hvalid, hlog⟩
  · left
    rw [hdone] at hlog
    exact ⟨hstore, hlog⟩

theorem pairing_guard {pending : PendingPairing} {code : String} {now : Int}
    (h : ¬(decide (pending.expiresAt ≤ now) || !credentialMatches host code pending.digest) =
      true) : now < pending.expiresAt ∧ host.sha256 code = pending.digest := by
  rw [Bool.or_eq_true, not_or, decide_eq_true_eq, Bool.not_eq_true', Bool.not_eq_false] at h
  exact ⟨Int.not_le.mp h.1, credentialMatches_digest h.2⟩

variable (host config) in
/-- What a step does. -/
def Stepped (operation : AuthOp) (world after : AuthWorld) : Prop :=
  Kept world after ∨ ∃ updated events, Written host config operation world after updated events

theorem stepped_publish {α : Type} {operation : AuthOp} {value : α} {updated : AuthState}
    {undo : AuthState → AuthState} {replacement : Replacement} {events : List AuthEvent}
    (hundo : undo updated = world.store.memory)
    (hchange : Change host config operation world.store.memory updated events) :
    Stepped host config operation world (world.after (replied value
      (publish host world.store.file updated undo replacement)) events) := by
  rcases after_publish hundo hchange with hkept | hwritten
  · exact .inl hkept
  · exact .inr ⟨updated, events, hwritten⟩

theorem create_stepped (secret : String) (now : Int) (replacement : Replacement) :
    Stepped host config (.createPairingCode secret now replacement) world
      (world.after (createPairingCode host config world.store secret now replacement)
        [.granted (credential host secret) (now + config.pairingLifetimeSeconds)]) := by
  unfold createPairingCode newPairingGrant
  by_cases hlong : i64Max < now + config.pairingLifetimeSeconds
  · rw [if_pos hlong]
    exact .inl (after_refused _ rfl)
  · rw [if_neg hlong]
    exact stepped_publish rfl (Change.create _ secret now replacement)

theorem pair_stepped (code label secret : String) (now : Int) (replacement : Replacement) :
    Stepped host config (.pair code label now secret replacement) world
      (world.after (pairAt host config world.store code label now secret replacement)
        [.consumed code (pairingClientId host code) now,
          .issued (pairingClientId host code) (credential host secret)]) := by
  unfold pairAt
  cases hlabel : validateClientLabel label with
  | error error =>
    obtain ⟨message, rfl⟩ := onlyConfig_label label error hlabel
    exact .inl (after_refused _ rfl)
  | ok value =>
    cases hpending : world.store.memory.pendingPairing with
    | none => exact .inl (after_refused _ rfl)
    | some pending =>
      dsimp only
      by_cases hguard : (decide (pending.expiresAt ≤ now) ||
          !credentialMatches host code pending.digest) = true
      · rw [if_pos hguard]
        exact .inl (after_refused _ rfl)
      · rw [if_neg hguard]
        obtain ⟨hnow, hcode⟩ := pairing_guard hguard
        by_cases hfull : config.pairedClients ≤ world.store.memory.clients.length
        · rw [if_pos hfull]
          exact .inl (after_refused _ rfl)
        · rw [if_neg hfull]
          refine stepped_publish ?_ (Change.pair _ pending code label secret now replacement
            hpending hnow hcode (Nat.not_le.mp hfull))
          rw [List.dropLast_concat, ← hpending]

theorem repair_stepped (hvalid : validateAuthState host world.store.memory = .ok ())
    (code label secret : String) (digest : Bytes32) (now : Int) (replacement : Replacement) :
    Stepped host config (.repairPairing code digest label now secret replacement) world
      (world.after (repairPairing host world.store code digest label now secret replacement)
        [.consumed code (repairedId world.store.memory digest) now,
          .issued (repairedId world.store.memory digest) (credential host secret)]) := by
  unfold repairPairing repairedId
  cases hlabel : validateClientLabel label with
  | error error =>
    obtain ⟨message, rfl⟩ := onlyConfig_label label error hlabel
    exact .inl (after_refused _ rfl)
  | ok value =>
    cases hpending : world.store.memory.pendingPairing with
    | none => exact .inl (after_refused _ rfl)
    | some pending =>
      dsimp only
      by_cases hguard : (decide (pending.expiresAt ≤ now) ||
          !credentialMatches host code pending.digest) = true
      · rw [if_pos hguard]
        exact .inl (after_refused _ rfl)
      · rw [if_neg hguard]
        obtain ⟨hnow, hcode⟩ := pairing_guard hguard
        cases hindex : lastWithDigest digest world.store.memory.clients with
        | none => exact .inl (after_refused _ rfl)
        | some index =>
          obtain ⟨client, hclient, -⟩ := lastWithDigest_some hindex
          simp only [Option.bind_some, hclient, Option.map_some, Option.getD_some]
          refine stepped_publish ?_ (Change.repair _ pending client index code label secret digest
            now replacement hpending hnow hcode hclient)
          dsimp only
          rw [modifyFirst_set (validateAuthState_nodup hvalid).1 hclient, ← hpending]
          · rfl
          · rfl

theorem provision_stepped (hvalid : validateAuthState host world.store.memory = .ok ())
    (secret : String) (now : Int) (replacement : Replacement) :
    Stepped host config (.provisionLocalClient secret now replacement) world
      (world.after (provisionLocalClient host config world.store secret now replacement)
        [.issued localClientId (credential host secret)]) := by
  have hids := (validateAuthState_nodup hvalid).1
  unfold provisionLocalClient
  dsimp only
  cases hfind : world.store.memory.clients.find? fun client =>
      decide (client.id = localClientId) with
  | none =>
    dsimp only
    by_cases hfull : config.pairedClients ≤ world.store.memory.clients.length
    · rw [if_pos hfull]
      exact .inl (after_refused _ rfl)
    · rw [if_neg hfull]
      refine stepped_publish ?_ (Change.provisionNew _ secret now replacement (Nat.not_le.mp hfull))
      rw [List.dropLast_concat]
  | some client =>
    dsimp only
    have hid : client.id = localClientId := by
      have hfound := List.find?_some hfind
      exact of_decide_eq_true hfound
    obtain ⟨index, hclient⟩ := List.mem_iff_getElem?.mp (List.mem_of_find?_eq_some hfind)
    rw [← hid, modifyFirst_found hids hclient]
    refine stepped_publish ?_ (Change.provisionAgain _ client index secret now replacement hclient
      hid)
    rw [modifyFirst_set hids hclient]
    · rfl
    · rfl

theorem unpair_stepped (actorId clientId : String) (replacement : Replacement) :
    Stepped host config (.unpairClient actorId clientId replacement) world
      (world.after (unpairClient host world.store actorId clientId replacement)
        (if unpairs world.store.memory actorId clientId then [.unpaired clientId] else [])) := by
  unfold unpairClient unpairs
  by_cases hself : actorId = clientId
  · rw [if_pos hself, decide_eq_false (not_not.mpr hself)]
    exact .inl (after_idle _)
  · rw [if_neg hself, decide_eq_true hself]
    by_cases hactor : (world.store.memory.clients.any fun client =>
        decide (client.id = actorId)) = true
    · rw [hactor]
      cases hfind : world.store.memory.clients.findIdx? fun client =>
          decide (client.id = clientId) with
      | none =>
        have hnone : (world.store.memory.clients.any fun client =>
            decide (client.id = clientId)) = false := by
          rw [List.findIdx?_eq_none_iff] at hfind
          rw [List.any_eq_false]
          intro client hclient
          rw [hfind client hclient]
          exact Bool.false_ne_true
        rw [hnone]
        exact .inl (after_idle _)
      | some index =>
        obtain ⟨hbound, hid, -⟩ := List.findIdx?_eq_some_iff_getElem.mp hfind
        have hclient := List.getElem?_eq_getElem hbound
        have hsame := of_decide_eq_true hid
        have hany : (world.store.memory.clients.any fun client =>
            decide (client.id = clientId)) = true :=
          List.any_eq_true.mpr ⟨_, List.getElem_mem hbound, hid⟩
        simp only [hany, hclient, Bool.not_true, Bool.false_eq_true, if_false, Bool.and_true,
          if_true]
        rw [← hsame]
        refine stepped_publish ?_ (Change.unpair _ _ index actorId replacement hclient)
        rw [insertIdx_eraseIdx hclient]
    · rw [Bool.not_eq_true] at hactor
      rw [hactor]
      exact .inl (after_idle _)

theorem revoke_stepped (code secret : String) (replacement : Replacement) :
    Stepped host config (.revokePairingCode code secret replacement) world
      (world.after (revokePairingCode host world.store code secret replacement)
        (if matchesPending host world.store.memory code then [.revoked code] else [])) := by
  unfold revokePairingCode matchesPending
  cases hpending : world.store.memory.pendingPairing with
  | none => exact .inl (after_idle _)
  | some pending =>
    rw [Option.any_some]
    dsimp only
    by_cases hmatch : credentialMatches host code pending.digest = true
    · rw [hmatch]
      have hunit : ∀ published : Except GatewayError Unit × AuthStore,
          published = replied () published := by
        rintro ⟨result, store⟩
        cases result with
        | ok value | error error => rfl
      have hundo : ({ world.store.memory with pendingPairing := some pending } : AuthState) =
          world.store.memory := by
        rw [← hpending]
      simp only [Bool.not_true, Bool.false_eq_true, if_false, if_true]
      rw [hunit (publish _ _ _ _ _)]
      exact stepped_publish hundo (Change.revoke _ pending code secret replacement hpending
        (credentialMatches_digest hmatch))
    · rw [Bool.not_eq_true] at hmatch
      rw [hmatch]
      exact .inl (after_idle _)

theorem step_cases (hsame : world.store.file = world.store.memory)
    (hvalid : validateAuthState host world.store.memory = .ok ()) (operation : AuthOp) :
    Stepped host config operation world (stepAuth host config world operation) := by
  unfold stepAuth
  by_cases hopen : (world.running || operation.opens) = true
  · rw [if_pos hopen]
    cases operation with
    | createPairingCode secret now replacement => exact create_stepped secret now replacement
    | pair code label now secret replacement =>
      exact pair_stepped code label secret now replacement
    | repairPairing code digest label now secret replacement =>
      exact repair_stepped hvalid code label secret digest now replacement
    | provisionLocalClient secret now replacement =>
      exact provision_stepped hvalid secret now replacement
    | unpairClient actorId clientId replacement =>
      exact unpair_stepped actorId clientId replacement
    | revokePairingCode code secret replacement => exact revoke_stepped code secret replacement
    | authenticate token => exact .inl ⟨rfl, rfl⟩
    | reopen =>
      unfold operateAuth
      cases hopened : openValidated host world.store.file with
      | error error => exact .inl ⟨rfl, rfl⟩
      | ok state =>
        have hstate : state = world.store.memory := (openValidated_file hopened).trans hsame
        refine .inl ⟨?_, rfl⟩
        show AuthStore.mk state world.store.file = AuthStore.mk _ _
        rw [hstate, hsame]
  · rw [if_neg hopen]
    exact .inl ⟨rfl, rfl⟩

end Steps

section Logs

def lastGrant (log : List AuthEvent) : Option (String × Int) :=
  log.foldl (fun grant event => match event with
    | .granted code expiresAt => some (code, expiresAt)
    | _ => grant) none

/-- The last token issued to a client since it was paired. -/
def latestToken (log : List AuthEvent) (id : String) : Option String :=
  log.foldl (fun latest event => match event with
    | .issued clientId token => if clientId = id then some token else latest
    | .unpaired clientId => if clientId = id then none else latest
    | _ => latest) none

/-- Whether a code was consumed or revoked. -/
def Retired (log : List AuthEvent) (code : String) : Prop :=
  .revoked code ∈ log ∨ ∃ clientId now, .consumed code clientId now ∈ log

/-- Whether a code can be consumed: it is the last one that was granted, has not expired and was
neither consumed nor revoked. -/
def Live (log : List AuthEvent) (code : String) (now : Int) : Prop :=
  ∃ expiresAt, lastGrant log = some (code, expiresAt) ∧ now < expiresAt ∧ ¬Retired log code

/-- Every code was live when it was consumed. -/
def Orderly (log : List AuthEvent) : Prop :=
  ∀ before code clientId now after, log = before ++ .consumed code clientId now :: after →
    Live before code now

theorem Orderly.append {log : List AuthEvent} (h : Orderly log) {event : AuthEvent}
    (hevent : ∀ code clientId now, event = .consumed code clientId now → Live log code now) :
    Orderly (log ++ [event]) := by
  intro before code clientId now after hsplit
  rcases List.eq_nil_or_concat after with rfl | ⟨rest, last, rfl⟩
  · obtain ⟨hlog, hlast⟩ := List.append_inj' hsplit rfl
    rw [← hlog]
    exact hevent code clientId now (List.singleton_inj.mp hlast)
  · have hparts : log ++ [event] = (before ++ .consumed code clientId now :: rest) ++ [last] := by
      rw [hsplit]
      simp
    obtain ⟨hlog, -⟩ := List.append_inj' hparts rfl
    exact h before code clientId now rest hlog

theorem Orderly.once {log before after : List AuthEvent} {code clientId clientId' : String}
    {now now' : Int} (h : Orderly log)
    (hsplit : log = before ++ .consumed code clientId now :: after) :
    .consumed code clientId' now' ∉ before ∧ .consumed code clientId' now' ∉ after := by
  constructor
  · obtain ⟨-, -, -, hlive⟩ := h before code clientId now after hsplit
    exact fun hmem => hlive (.inr ⟨clientId', now', hmem⟩)
  · intro hmem
    obtain ⟨middle, rest, rfl⟩ := List.append_of_mem hmem
    have hlater : log = (before ++ .consumed code clientId now :: middle) ++
        .consumed code clientId' now' :: rest := by
      rw [hsplit]
      simp
    obtain ⟨-, -, -, hlive⟩ := h _ code clientId' now' rest hlater
    exact hlive (.inr ⟨clientId, now, List.mem_append_right _ List.mem_cons_self⟩)

end Logs

section Runs

variable {host : AuthHost} {config : AuthConfig}

/-- The secret that an operation generates for a credential. -/
def secrets : AuthOp → List String
  | .createPairingCode secret _ _ => [secret]
  | .pair _ _ _ secret _ => [secret]
  | .repairPairing _ _ _ _ secret _ => [secret]
  | .provisionLocalClient secret _ _ => [secret]
  | _ => []

/-- The secret that takes the place of a revoked code; nobody is told. -/
def placeholders : AuthOp → List String
  | .revokePairingCode _ secret _ => [secret]
  | _ => []

/-- The codes that an operation is given. -/
def presented : AuthOp → List String
  | .pair code _ _ _ _ => [code]
  | .repairPairing code _ _ _ _ _ => [code]
  | .revokePairingCode code _ _ => [code]
  | _ => []

/-- What is known of an operation of a run: its secrets are short, the texts are among the known
ones, and no code is the placeholder of a revoked one. -/
structure Admits (host : AuthHost) (known hidden : Set String) (operation : AuthOp) : Prop where
  secrets : ∀ secret ∈ secrets operation,
    secret.utf8ByteSize ≤ 64 ∧ credential host secret ∈ known
  placeholders : ∀ secret ∈ placeholders operation, secret ∈ hidden ∧ secret ∈ known
  presented : ∀ code ∈ presented operation, code ∈ known ∧ code ∉ hidden

/-- A pending code in a log: the last one granted, or a placeholder. -/
def PendingTracked (host : AuthHost) (known hidden : Set String) (log : List AuthEvent)
    (pending : PendingPairing) : Prop :=
  (∃ code ∈ known, pending.digest = host.sha256 code ∧
    lastGrant log = some (code, pending.expiresAt) ∧ ¬Retired log code) ∨
  ∃ secret ∈ known, secret ∈ hidden ∧ pending.digest = host.sha256 secret

/-- What a run keeps true of the codes in the log. -/
structure Codes (host : AuthHost) (used : List String) (log : List AuthEvent) : Prop where
  granted : ∀ code expiresAt, .granted code expiresAt ∈ log →
    ∃ secret ∈ used, code = credential host secret
  retired : ∀ code, Retired log code → ∃ expiresAt, .granted code expiresAt ∈ log
  orderly : Orderly log

/-- What a run keeps true of the tokens of the clients. -/
structure Tokens (host : AuthHost) (known : Set String) (clients : List ClientToken)
    (log : List AuthEvent) : Prop where
  latest : ∀ client ∈ clients, ∃ secret, latestToken log client.id =
    some (credential host secret) ∧ client.digest = host.sha256 (credential host secret) ∧
    secret.utf8ByteSize ≤ 64 ∧ credential host secret ∈ known
  strangers : ∀ id, (∀ client ∈ clients, client.id ≠ id) → latestToken log id = none

/-- What a run keeps true of the state and the log. -/
structure Tracks (host : AuthHost) (config : AuthConfig) (known hidden : Set String)
    (used : List String) (state : AuthState) (log : List AuthEvent) : Prop where
  valid : validateAuthState host state = .ok ()
  bounded : state.clients.length ≤ config.pairedClients
  pending : ∀ pending ∈ state.pendingPairing, PendingTracked host known hidden log pending
  codes : Codes host used log
  tokens : Tokens host known state.clients log

end Runs

section Codes

variable {host : AuthHost} {known hidden : Set String} {used : List String}
  {log : List AuthEvent}

theorem credential_inj {secret secret' : String}
    (h : credential host secret = credential host secret') : secret = secret' := by
  have hlist := congrArg String.toList h
  unfold credential at hlist
  simp only [String.toList_append, List.append_assoc, List.append_cancel_left_eq] at hlist
  exact String.toList_inj.mp hlist

theorem lastGrant_mem {code : String} {expiresAt : Int}
    (h : lastGrant log = some (code, expiresAt)) : .granted code expiresAt ∈ log := by
  induction log using List.reverseRecOn with
  | nil => cases h
  | append_singleton rest event ih =>
    unfold lastGrant at h
    rw [List.foldl_concat] at h
    cases event with
    | granted code' expiresAt' =>
      cases h
      exact List.mem_append_right _ (List.mem_singleton_self _)
    | consumed _ _ _ | revoked _ | issued _ _ | unpaired _ => exact List.mem_append_left _ (ih h)

theorem Codes.grant (h : Codes host used log) (secret : String) (expiresAt : Int) :
    Codes host (used ++ [secret]) (log ++ [.granted (credential host secret) expiresAt]) := by
  refine ⟨?_, ?_, ?_⟩
  · intro code time hmem
    rcases List.mem_append.mp hmem with hold | hnew
    · obtain ⟨other, hother, hcode⟩ := h.granted code time hold
      exact ⟨other, List.mem_append_left _ hother, hcode⟩
    · cases List.mem_singleton.mp hnew
      exact ⟨secret, List.mem_append_right _ (List.mem_singleton_self _), rfl⟩
  · intro code hretired
    have hold : Retired log code := by
      rcases hretired with hmem | ⟨clientId, now, hmem⟩
      · exact .inl (by simpa using hmem)
      · exact .inr ⟨clientId, now, by simpa using hmem⟩
    obtain ⟨time, hmem⟩ := h.retired code hold
    exact ⟨time, List.mem_append_left _ hmem⟩
  · exact h.orderly.append fun _ _ _ hevent => by cases hevent

variable {event : AuthEvent}

theorem Codes.retire (h : Codes host used log) {code : String} {expiresAt : Int}
    (hgrant : lastGrant log = some (code, expiresAt))
    (hevent : event = .revoked code ∨ ∃ clientId now, event = .consumed code clientId now ∧
      Live log code now) : Codes host used (log ++ [event]) := by
  have hgranted := lastGrant_mem hgrant
  refine ⟨?_, ?_, ?_⟩
  · intro other time hmem
    rcases List.mem_append.mp hmem with hold | hnew
    · exact h.granted other time hold
    · rw [← List.mem_singleton.mp hnew] at hevent
      rcases hevent with hevent | ⟨_, _, hevent, -⟩
      · cases hevent
      · cases hevent
  · intro other hretired
    by_cases hsame : other = code
    · rw [hsame]
      exact ⟨expiresAt, List.mem_append_left _ hgranted⟩
    · have hold : Retired log other := by
        rcases hevent with rfl | ⟨_, _, rfl, -⟩
        · rcases hretired with hmem | ⟨clientId, now, hmem⟩
          · exact .inl (by simpa [hsame] using hmem)
          · exact .inr ⟨clientId, now, by simpa using hmem⟩
        · rcases hretired with hmem | ⟨clientId, now, hmem⟩
          · exact .inl (by simpa using hmem)
          · exact .inr ⟨clientId, now, by simpa [hsame] using hmem⟩
      obtain ⟨time, hmem⟩ := h.retired other hold
      exact ⟨time, List.mem_append_left _ hmem⟩
  · refine h.orderly.append ?_
    intro other clientId now hother
    rcases hevent with rfl | ⟨_, _, rfl, hlive⟩
    · cases hother
    · cases hother
      exact hlive

def isTokenEvent : AuthEvent → Bool
  | .issued _ _ => true
  | .unpaired _ => true
  | _ => false

theorem retired_append (hevent : isTokenEvent event = true) {code : String} :
    Retired (log ++ [event]) code ↔ Retired log code := by
  cases event with
  | issued clientId token | unpaired clientId => simp [Retired]
  | granted _ _ | consumed _ _ _ | revoked _ => cases hevent

theorem lastGrant_append (hevent : isTokenEvent event = true) :
    lastGrant (log ++ [event]) = lastGrant log := by
  cases event with
  | issued clientId token | unpaired clientId => simp [lastGrant]
  | granted _ _ | consumed _ _ _ | revoked _ => cases hevent

theorem Codes.token (h : Codes host used log) (hevent : isTokenEvent event = true) :
    Codes host used (log ++ [event]) := by
  refine ⟨?_, ?_, ?_⟩
  · intro code time hmem
    rcases List.mem_append.mp hmem with hold | hnew
    · exact h.granted code time hold
    · rw [← List.mem_singleton.mp hnew] at hevent
      cases hevent
  · intro code hretired
    obtain ⟨time, hmem⟩ := h.retired code ((retired_append hevent).mp hretired)
    exact ⟨time, List.mem_append_left _ hmem⟩
  · refine h.orderly.append ?_
    rintro code clientId now rfl
    cases hevent

theorem Codes.use (h : Codes host used log) (more : List String) :
    Codes host (used ++ more) log := by
  refine ⟨?_, h.retired, h.orderly⟩
  intro code time hmem
  obtain ⟨secret, hsecret, hcode⟩ := h.granted code time hmem
  exact ⟨secret, List.mem_append_left _ hsecret, hcode⟩

theorem PendingTracked.token {pending : PendingPairing}
    (h : PendingTracked host known hidden log pending) (hevent : isTokenEvent event = true) :
    PendingTracked host known hidden (log ++ [event]) pending := by
  unfold PendingTracked at *
  rw [lastGrant_append hevent]
  simp only [retired_append hevent]
  exact h

theorem PendingTracked.matched {pending : PendingPairing}
    (h : PendingTracked host known hidden log pending) (hinjective : Set.InjOn host.sha256 known)
    {code : String} (hknown : code ∈ known) (hguess : code ∉ hidden)
    (hcode : host.sha256 code = pending.digest) :
    lastGrant log = some (code, pending.expiresAt) ∧ ¬Retired log code := by
  rcases h with ⟨granted, hgranted, hdigest, hgrant, hretired⟩ | ⟨secret, hsecret, hhidden, hdigest⟩
  · have hsame := hinjective hknown hgranted (hcode.trans hdigest)
    rw [hsame]
    exact ⟨hgrant, hretired⟩
  · have hsame := hinjective hknown hsecret (hcode.trans hdigest)
    exact absurd (hsame ▸ hhidden) hguess

end Codes

section Tokens

variable {host : AuthHost} {known : Set String} {clients updated : List ClientToken}
  {log : List AuthEvent}

theorem latestToken_issued (log : List AuthEvent) (clientId token id : String) :
    latestToken (log ++ [.issued clientId token]) id =
      if clientId = id then some token else latestToken log id := by
  unfold latestToken
  rw [List.foldl_concat]

theorem latestToken_unpaired (log : List AuthEvent) (clientId id : String) :
    latestToken (log ++ [.unpaired clientId]) id =
      if clientId = id then none else latestToken log id := by
  unfold latestToken
  rw [List.foldl_concat]

theorem latestToken_code {event : AuthEvent} (hevent : isTokenEvent event = false) (id : String) :
    latestToken (log ++ [event]) id = latestToken log id := by
  unfold latestToken
  rw [List.foldl_concat]
  cases event with
  | granted _ _ | consumed _ _ _ | revoked _ => rfl
  | issued _ _ | unpaired _ => cases hevent

theorem Tokens.code (h : Tokens host known clients log) {event : AuthEvent}
    (hevent : isTokenEvent event = false) : Tokens host known clients (log ++ [event]) := by
  refine ⟨?_, ?_⟩
  · intro client hclient
    rw [latestToken_code hevent]
    exact h.latest client hclient
  · intro id hid
    rw [latestToken_code hevent]
    exact h.strangers id hid

/-- How the clients change when one is given a digest. -/
structure Issues (clients updated : List ClientToken) (id : String) (digest : Bytes32) :
    Prop where
  changed : ∀ client ∈ updated, (client.id = id ∧ client.digest = digest) ∨
    (client ∈ clients ∧ client.id ≠ id)
  kept : ∀ client ∈ clients, ∃ other ∈ updated, other.id = client.id
  present : ∃ client ∈ updated, client.id = id

theorem issues_append {client : ClientToken}
    (hnodup : ((clients ++ [client]).map (·.id)).Nodup) :
    Issues clients (clients ++ [client]) client.id client.digest := by
  rw [List.map_append, List.nodup_append] at hnodup
  refine ⟨?_, ?_, ?_⟩
  · intro other hother
    rcases List.mem_append.mp hother with hold | hnew
    · right
      refine ⟨hold, ?_⟩
      exact hnodup.2.2 other.id (List.mem_map_of_mem hold) client.id
        (List.mem_singleton_self _)
    · left
      rw [List.mem_singleton.mp hnew]
      exact ⟨rfl, rfl⟩
  · exact fun other hother => ⟨other, List.mem_append_left _ hother, rfl⟩
  · exact ⟨client, List.mem_append_right _ (List.mem_singleton_self _), rfl⟩

theorem issues_set {client changed : ClientToken} {index : Nat}
    (hnodup : (clients.map (·.id)).Nodup) (hclient : clients[index]? = some client)
    (hid : changed.id = client.id) :
    Issues clients (clients.set index changed) client.id changed.digest := by
  obtain ⟨hbound, hvalue⟩ := List.getElem?_eq_some_iff.mp hclient
  have hpresent : changed ∈ clients.set index changed := List.mem_set hbound changed
  refine ⟨?_, ?_, ⟨changed, hpresent, hid⟩⟩
  · intro other hother
    obtain ⟨position, hposition⟩ := List.mem_iff_getElem?.mp hother
    by_cases hsame : index = position
    · rw [← hsame, List.getElem?_set_self hbound] at hposition
      rw [← Option.some.inj hposition]
      exact .inl ⟨hid, rfl⟩
    · rw [List.getElem?_set_ne hsame] at hposition
      have hmem := List.mem_of_getElem? hposition
      refine .inr ⟨hmem, ?_⟩
      intro heq
      have hother := List.inj_on_of_nodup_map hnodup hmem (List.mem_of_getElem? hclient) heq
      obtain ⟨hbound', hvalue'⟩ := List.getElem?_eq_some_iff.mp hposition
      have hindex : clients[index] = clients[position] := by
        rw [hvalue, hvalue', hother]
      exact hsame ((List.Nodup.getElem_inj_iff hnodup.of_map).mp hindex)
  · intro other hother
    have hids := map_id_set hclient hid
    have hmem : other.id ∈ (clients.set index changed).map (·.id) := by
      rw [hids]
      exact List.mem_map_of_mem hother
    obtain ⟨found, hfound, heq⟩ := List.mem_map.mp hmem
    exact ⟨found, hfound, heq⟩

theorem Tokens.issue (h : Tokens host known clients log) {id secret : String}
    (hissues : Issues clients updated id (host.sha256 (credential host secret)))
    (hshort : secret.utf8ByteSize ≤ 64) (hknown : credential host secret ∈ known) :
    Tokens host known updated (log ++ [.issued id (credential host secret)]) := by
  refine ⟨?_, ?_⟩
  · intro client hclient
    rw [latestToken_issued]
    rcases hissues.changed client hclient with ⟨hid, hdigest⟩ | ⟨hold, hother⟩
    · rw [if_pos hid.symm]
      exact ⟨secret, rfl, hdigest, hshort, hknown⟩
    · rw [if_neg (Ne.symm hother)]
      exact h.latest client hold
  · intro other hother
    obtain ⟨client, hclient, hid⟩ := hissues.present
    rw [latestToken_issued, if_neg fun hsame => hother client hclient (hid.trans hsame)]
    refine h.strangers other ?_
    intro old hold hsame
    obtain ⟨kept, hkept, heq⟩ := hissues.kept old hold
    exact hother kept hkept (heq.trans hsame)

theorem Tokens.unpair (h : Tokens host known clients log) {client : ClientToken} {index : Nat}
    (hnodup : (clients.map (·.id)).Nodup) (hclient : clients[index]? = some client) :
    Tokens host known (clients.eraseIdx index) (log ++ [.unpaired client.id]) := by
  obtain ⟨hbound, hvalue⟩ := List.getElem?_eq_some_iff.mp hclient
  refine ⟨?_, ?_⟩
  · intro other hother
    obtain ⟨position, hother', hother⟩ := List.mem_eraseIdx_iff_getElem?.mp hother
    have hmem := List.mem_of_getElem? hother
    have hne : client.id ≠ other.id := by
      intro heq
      have hsame := List.inj_on_of_nodup_map hnodup (List.mem_of_getElem? hclient) hmem heq
      obtain ⟨hbound', hvalue'⟩ := List.getElem?_eq_some_iff.mp hother
      have hindex : clients[position] = clients[index] := by
        rw [hvalue, hvalue', hsame]
      exact hother' ((List.Nodup.getElem_inj_iff hnodup.of_map).mp hindex)
    rw [latestToken_unpaired, if_neg hne]
    exact h.latest other hmem
  · intro id hid
    rw [latestToken_unpaired]
    by_cases hsame : client.id = id
    · rw [if_pos hsame]
    · rw [if_neg hsame]
      refine h.strangers id ?_
      intro other hother heq
      obtain ⟨position, hposition⟩ := List.mem_iff_getElem?.mp hother
      refine hid other (List.mem_eraseIdx_iff_getElem?.mpr ⟨position, ?_, hposition⟩) heq
      rintro rfl
      rw [hclient] at hposition
      exact hsame (Option.some.inj hposition ▸ heq)

theorem hexDigit_size {value : Nat} (h : value < 16) : (hexDigit value).utf8Size = 1 := by
  interval_cases value <;> rfl

theorem hexText_bytes (bytes : List UInt8) :
    ((hexText bytes).map Char.utf8Size).sum = 2 * bytes.length := by
  induction bytes with
  | nil => rfl
  | cons byte rest ih =>
    have hbyte : byte.toNat < 256 := byte.toNat_lt
    have hhigh : (hexDigit (byte.toNat / 16)).utf8Size = 1 := hexDigit_size (by omega)
    have hlow : (hexDigit (byte.toNat % 16)).utf8Size = 1 := hexDigit_size (by omega)
    have hsplit : hexText (byte :: rest) =
        hexDigit (byte.toNat / 16) :: hexDigit (byte.toNat % 16) :: hexText rest := rfl
    rw [hsplit, List.map_cons, List.map_cons, List.sum_cons, List.sum_cons, hhigh, hlow, ih,
      List.length_cons]
    omega

theorem credential_bytes (secret : String) :
    (credential host secret).utf8ByteSize = 68 + secret.utf8ByteSize := by
  have hbegins : "m1.".utf8ByteSize = 3 := rfl
  have hdot : ".".utf8ByteSize = 1 := rfl
  have hkey := hexText_bytes host.channelKey.bytes
  rw [host.channelKey.length] at hkey
  unfold credential
  rw [String.utf8ByteSize_append, String.utf8ByteSize_append, String.utf8ByteSize_append, hbegins,
    hdot, utf8ByteSize_ofList, hkey]

theorem credential_accepted {secret : String} (h : secret.utf8ByteSize ≤ 64) :
    ((credential host secret).isEmpty ||
      decide (maxClientCredentialBytes < (credential host secret).utf8ByteSize)) = false := by
  have hbytes : (credential host secret).utf8ByteSize = 68 + secret.utf8ByteSize :=
    credential_bytes secret
  have hlimit : maxClientCredentialBytes = 512 := rfl
  rw [Bool.or_eq_false_iff, decide_eq_false_iff_not, hbytes]
  constructor
  · rw [Bool.eq_false_iff, ne_eq, String.isEmpty_iff]
    intro hempty
    rw [hempty] at hbytes
    have hzero : "".utf8ByteSize = 0 := rfl
    omega
  · omega

theorem Tokens.authenticate (h : Tokens host known clients log) {store : AuthStore}
    (hclients : store.memory.clients = clients) (hdigests : (clients.map (·.digest)).Nodup)
    {token : String} (hinjective : Set.InjOn host.sha256 (insert token known)) (id : String) :
    (∃ label, PairingStore.authenticate host store token = .ok ⟨id, label⟩) ↔
      latestToken log id = some token := by
  unfold PairingStore.authenticate
  rw [hclients]
  have htoken : token ∈ insert token known := Set.mem_insert _ _
  constructor
  · rintro ⟨label, hauthenticated⟩
    split at hauthenticated
    · cases hauthenticated
    · dsimp only at hauthenticated
      split at hauthenticated
      · cases hauthenticated
      · rename_i client hmatched
        cases hauthenticated
        rcases foldl_last_some hmatched with ⟨found, hfound, hdigest, rfl⟩ | hnone
        · obtain ⟨secret, hlatest, hsecret, -, hknown⟩ := h.latest found hfound
          have hsame := hinjective htoken (Set.mem_insert_of_mem _ hknown)
            (hdigest.trans hsecret)
          rw [hlatest, hsame]
        · cases hnone
  · intro hlatest
    have hpresent : ∃ client ∈ clients, client.id = id := by
      by_contra hnone
      rw [h.strangers id fun client hclient hid => hnone ⟨client, hclient, hid⟩] at hlatest
      cases hlatest
    obtain ⟨client, hclient, hid⟩ := hpresent
    obtain ⟨secret, hissued, hdigest, hshort, -⟩ := h.latest client hclient
    rw [hid, hlatest] at hissued
    have hsecret := Option.some.inj hissued
    refine ⟨client.label, ?_⟩
    rw [hsecret, credential_accepted hshort]
    simp only [Bool.false_eq_true, if_false]
    cases hmatched : clients.foldl (fun matched client =>
        if host.sha256 (credential host secret) = client.digest then some client else matched)
        none with
    | none =>
      obtain ⟨-, hnone⟩ := foldl_last_none hmatched
      exact absurd hdigest.symm (hnone client hclient)
    | some found =>
      rcases foldl_last_some hmatched with ⟨other, hother, hsame, rfl⟩ | hnone
      · have heq := List.inj_on_of_nodup_map hdigests hother hclient
          (hsame.symm.trans hdigest.symm)
        rw [heq, ← hid]
      · cases hnone

end Tokens

section Safety

variable {host : AuthHost} {config : AuthConfig} {known hidden : Set String}
  {used : List String} {state updated : AuthState} {log events : List AuthEvent}

theorem Tracks.consume (h : Tracks host config known hidden used state log)
    (hinjective : Set.InjOn host.sha256 known) {pending : PendingPairing}
    (hpending : state.pendingPairing = some pending) {code id secret : String} {now : Int}
    (hnow : now < pending.expiresAt) (hcode : host.sha256 code = pending.digest)
    (hpresented : code ∈ known ∧ code ∉ hidden) {clients : List ClientToken}
    (hvalid : validateAuthState host ⟨none, clients⟩ = .ok ())
    (hbounded : clients.length ≤ config.pairedClients)
    (hissues : Issues state.clients clients id (host.sha256 (credential host secret)))
    (hsecret : secret.utf8ByteSize ≤ 64 ∧ credential host secret ∈ known) :
    Tracks host config known hidden used ⟨none, clients⟩
      (log ++ [.consumed code id now, .issued id (credential host secret)]) := by
  obtain ⟨hgrant, hretired⟩ := (h.pending pending hpending).matched hinjective hpresented.1
    hpresented.2 hcode
  have hsplit : log ++ [.consumed code id now, .issued id (credential host secret)] =
      (log ++ [.consumed code id now]) ++ [.issued id (credential host secret)] := by
    simp
  rw [hsplit]
  refine ⟨hvalid, hbounded, ?_, ?_, ?_⟩
  · intro other hother
    cases hother
  · exact (h.codes.retire hgrant (.inr ⟨id, now, rfl, pending.expiresAt, hgrant, hnow,
      hretired⟩)).token rfl
  · exact (h.tokens.code rfl).issue hissues hsecret.1 hsecret.2

theorem Tracks.change (h : Tracks host config known hidden used state log)
    (hinjective : Set.InjOn host.sha256 known) {operation : AuthOp}
    (hadmits : Admits host known hidden operation)
    (hfresh : ∀ secret ∈ secrets operation, secret ∉ used)
    (hchange : Change host config operation state updated events)
    (hvalid : validateAuthState host updated = .ok ()) :
    Tracks host config known hidden (used ++ secrets operation) updated (log ++ events) := by
  have hnodup := (validateAuthState_nodup h.valid).1
  have huse : Tracks host config known hidden (used ++ secrets operation) state log :=
    ⟨h.valid, h.bounded, h.pending, h.codes.use _, h.tokens⟩
  cases hchange with
  | create _ secret now replacement =>
    obtain ⟨-, hknown⟩ := hadmits.secrets secret (List.mem_singleton_self _)
    refine ⟨hvalid, h.bounded, ?_, h.codes.grant secret _, h.tokens.code rfl⟩
    rintro pending ⟨⟩
    refine .inl ⟨credential host secret, hknown, rfl, ?_, ?_⟩
    · unfold lastGrant
      rw [List.foldl_concat]
    · intro hretired
      have hold : Retired log (credential host secret) := by
        rcases hretired with hmem | ⟨clientId, time, hmem⟩
        · exact .inl (by simpa using hmem)
        · exact .inr ⟨clientId, time, by simpa using hmem⟩
      obtain ⟨time, hgranted⟩ := h.codes.retired _ hold
      obtain ⟨other, hother, hsame⟩ := h.codes.granted _ _ hgranted
      rw [← credential_inj hsame] at hother
      exact hfresh secret (List.mem_singleton_self _) hother
  | pair _ pending code label secret now replacement hpending hnow hcode hroom =>
    have hids := (validateAuthState_nodup hvalid).1
    refine huse.consume hinjective hpending hnow hcode
      (hadmits.presented code (List.mem_singleton_self _)) hvalid ?_ (issues_append hids)
      (hadmits.secrets secret (List.mem_singleton_self _))
    rw [List.length_append, List.length_singleton]
    omega
  | repair _ pending client index code label secret digest now replacement hpending hnow hcode
      hclient =>
    refine huse.consume hinjective hpending hnow hcode
      (hadmits.presented code (List.mem_singleton_self _)) hvalid ?_
      (issues_set hnodup hclient rfl) (hadmits.secrets secret (List.mem_singleton_self _))
    rw [List.length_set]
    exact h.bounded
  | provisionAgain _ client index secret now replacement hclient hid =>
    obtain ⟨hshort, hknown⟩ := hadmits.secrets secret (List.mem_singleton_self _)
    refine ⟨hvalid, ?_, ?_, huse.codes.token rfl,
      h.tokens.issue (issues_set hnodup hclient rfl) hshort hknown⟩
    · rw [List.length_set]
      exact h.bounded
    · exact fun pending hpending => (h.pending pending hpending).token rfl
  | provisionNew _ secret now replacement hroom =>
    obtain ⟨hshort, hknown⟩ := hadmits.secrets secret (List.mem_singleton_self _)
    have hids := (validateAuthState_nodup hvalid).1
    refine ⟨hvalid, ?_, ?_, huse.codes.token rfl,
      h.tokens.issue (issues_append hids) hshort hknown⟩
    · rw [List.length_append, List.length_singleton]
      omega
    · exact fun pending hpending => (h.pending pending hpending).token rfl
  | unpair _ client index actorId replacement hclient =>
    refine ⟨hvalid, ?_, ?_, huse.codes.token rfl, h.tokens.unpair hnodup hclient⟩
    · have hlength := List.length_eraseIdx_le state.clients index
      exact hlength.trans h.bounded
    · exact fun pending hpending => (h.pending pending hpending).token rfl
  | revoke _ pending code secret replacement hpending hcode =>
    obtain ⟨hcodeKnown, hguess⟩ := hadmits.presented code (List.mem_singleton_self _)
    obtain ⟨hhidden, hknown⟩ := hadmits.placeholders secret (List.mem_singleton_self _)
    obtain ⟨hgrant, -⟩ := (h.pending pending hpending).matched hinjective hcodeKnown hguess hcode
    refine ⟨hvalid, h.bounded, ?_, huse.codes.retire hgrant (.inl rfl), h.tokens.code rfl⟩
    rintro other ⟨⟩
    exact .inr ⟨secret, hknown, hhidden, rfl⟩

/-- What a run keeps true of a gateway: the file holds the state in memory. -/
structure Sound (host : AuthHost) (config : AuthConfig) (known hidden : Set String)
    (used : List String) (world : AuthWorld) : Prop where
  same : world.store.file = world.store.memory
  tracks : Tracks host config known hidden used world.store.memory world.log

theorem Sound.step {world : AuthWorld} (h : Sound host config known hidden used world)
    (hinjective : Set.InjOn host.sha256 known) {operation : AuthOp}
    (hadmits : Admits host known hidden operation)
    (hfresh : ∀ secret ∈ secrets operation, secret ∉ used) :
    Sound host config known hidden (used ++ secrets operation)
      (stepAuth host config world operation) := by
  rcases step_cases h.same h.tracks.valid operation with hkept | ⟨updated, events, hwritten⟩
  · refine ⟨by rw [hkept.store, h.same], ?_⟩
    rw [hkept.store, hkept.log]
    exact ⟨h.tracks.valid, h.tracks.bounded, h.tracks.pending, h.tracks.codes.use _,
      h.tracks.tokens⟩
  · refine ⟨by rw [hwritten.store], ?_⟩
    rw [hwritten.store, hwritten.log]
    exact h.tracks.change hinjective hadmits hfresh hwritten.change hwritten.valid

theorem Sound.run {world : AuthWorld} (h : Sound host config known hidden used world)
    (hinjective : Set.InjOn host.sha256 known) {operations : List AuthOp}
    (hadmits : ∀ operation ∈ operations, Admits host known hidden operation)
    (hfresh : (used ++ operations.flatMap secrets).Nodup) :
    Sound host config known hidden (used ++ operations.flatMap secrets)
      (runAuth host config world operations) := by
  induction operations generalizing world used with
  | nil =>
    rw [List.flatMap_nil, List.append_nil]
    exact h
  | cons operation rest ih =>
    rw [List.forall_mem_cons] at hadmits
    rw [List.flatMap_cons, ← List.append_assoc] at hfresh ⊢
    have hnew : ∀ secret ∈ secrets operation, secret ∉ used := by
      intro secret hsecret hused
      have hfirst := (List.nodup_append.mp hfresh).1
      exact (List.nodup_append.mp hfirst).2.2 secret hused secret hsecret rfl
    exact ih (h.step hinjective hadmits.1 hnew) hadmits.2 hfresh

theorem initialWorld_sound {secret : String} {now : Int} {grant : PairingGrant}
    (hgrant : newPairingGrant host config secret now = .ok grant)
    (hknown : credential host secret ∈ known) :
    Sound host config known hidden [secret] (initialWorld host grant) := by
  have hcode : grant.code = credential host secret := by
    unfold newPairingGrant at hgrant
    split at hgrant
    · cases hgrant
    · cases hgrant
      rfl
  have hvalid : validateAuthState host (initialState host grant) = .ok () := by
    unfold validateAuthState initialState refuseIf
    rfl
  refine ⟨rfl, hvalid, Nat.zero_le _, ?_, ⟨?_, ?_, ?_⟩, ⟨?_, ?_⟩⟩
  · rintro pending ⟨⟩
    refine .inl ⟨grant.code, hcode ▸ hknown, rfl, rfl, ?_⟩
    rintro (hmem | ⟨clientId, time, hmem⟩)
    · simp [initialWorld] at hmem
    · simp [initialWorld] at hmem
  · intro code expiresAt hmem
    cases List.mem_singleton.mp hmem
    exact ⟨secret, List.mem_singleton_self _, hcode⟩
  · rintro code (hmem | ⟨clientId, time, hmem⟩)
    · simp [initialWorld] at hmem
    · simp [initialWorld] at hmem
  · intro before code clientId time after hsplit
    have hmem : AuthEvent.consumed code clientId time ∈ (initialWorld host grant).log := by
      rw [hsplit]
      exact List.mem_append_right _ List.mem_cons_self
    simp [initialWorld] at hmem
  · exact List.forall_mem_nil _
  · exact fun id _ => rfl

/-- The texts of a run that are hashed. -/
def texts (host : AuthHost) (secret : String) (operations : List AuthOp) : Set String :=
  {text | (∃ generated ∈ secret :: operations.flatMap secrets,
      text = credential host generated) ∨
    text ∈ operations.flatMap placeholders ∨ text ∈ operations.flatMap presented}

/-- A run whose generated secrets are fresh: they are distinct UUIDs, nobody presents one that
nobody was told, and SHA-256 has no collision among the texts of the run. -/
structure FreshRun (host : AuthHost) (secret : String) (operations : List AuthOp) : Prop where
  distinct : (secret :: operations.flatMap secrets).Nodup
  short : ∀ generated ∈ operations.flatMap secrets, generated.utf8ByteSize ≤ 64
  unguessed : ∀ generated ∈ operations.flatMap placeholders,
    generated ∉ operations.flatMap presented
  collisionFree : Set.InjOn host.sha256 (texts host secret operations)

theorem FreshRun.sound {secret : String} {now : Int} {grant : PairingGrant}
    {operations : List AuthOp} (h : FreshRun host secret operations)
    (hgrant : newPairingGrant host config secret now = .ok grant) :
    Sound host config (texts host secret operations)
      {text | text ∈ operations.flatMap placeholders}
      (secret :: operations.flatMap secrets)
      (runAuth host config (initialWorld host grant) operations) := by
  have hinitial : Sound host config (texts host secret operations)
      {text | text ∈ operations.flatMap placeholders} [secret] (initialWorld host grant) :=
    initialWorld_sound hgrant (.inl ⟨secret, List.mem_cons_self, rfl⟩)
  refine hinitial.run h.collisionFree ?_ h.distinct
  intro operation hoperation
  have hmem : ∀ (list : AuthOp → List String) (text : String), text ∈ list operation →
      text ∈ operations.flatMap list :=
    fun list text htext => List.mem_flatMap.mpr ⟨operation, hoperation, htext⟩
  refine ⟨?_, ?_, ?_⟩
  · intro generated hgenerated
    have hall := hmem secrets generated hgenerated
    exact ⟨h.short generated hall, .inl ⟨generated, List.mem_cons_of_mem _ hall, rfl⟩⟩
  · intro generated hgenerated
    have hall := hmem placeholders generated hgenerated
    exact ⟨hall, .inr (.inl hall)⟩
  · intro code hcode
    have hall := hmem presented code hcode
    exact ⟨.inr (.inr hall), fun hhidden => h.unguessed code hhidden hall⟩

/-- Pairing and authentication are sound in every run, and a fresh open of the file gives the
state in memory exactly while its encoding is short enough. -/
theorem pairing_sound {secret : String} {now : Int} {grant : PairingGrant}
    (hgrant : newPairingGrant host config secret now = .ok grant) (operations : List AuthOp)
    (hfresh : FreshRun host secret operations) :
    (openValidated host (runAuth host config (initialWorld host grant) operations).store.file =
        .ok (runAuth host config (initialWorld host grant) operations).store.memory ↔
      (runAuth host config (initialWorld host grant) operations).store.memory.bytes ≤
        maxAuthStateBytes) ∧
    (∀ before code clientId time after,
      (runAuth host config (initialWorld host grant) operations).log =
        before ++ .consumed code clientId time :: after →
      Live before code time ∧ ∀ clientId' time', .consumed code clientId' time' ∉ before ∧
        .consumed code clientId' time' ∉ after) ∧
    (∀ token, Set.InjOn host.sha256 (insert token (texts host secret operations)) → ∀ id,
      (∃ label, authenticate host
          (runAuth host config (initialWorld host grant) operations).store token =
        .ok ⟨id, label⟩) ↔
      latestToken (runAuth host config (initialWorld host grant) operations).log id =
        some token) ∧
    (runAuth host config (initialWorld host grant) operations).store.memory.clients.length ≤
      config.pairedClients := by
  have hsound : Sound host config (texts host secret operations)
      {text | text ∈ operations.flatMap placeholders} (secret :: operations.flatMap secrets)
      (runAuth host config (initialWorld host grant) operations) := hfresh.sound hgrant
  refine ⟨?_, ?_, ?_, hsound.tracks.bounded⟩
  · rw [hsound.same]
    exact openValidated_ok_iff hsound.tracks.valid
  · intro before code clientId time after hsplit
    refine ⟨hsound.tracks.codes.orderly before code clientId time after hsplit, ?_⟩
    exact fun clientId' time' => hsound.tracks.codes.orderly.once hsplit
  · intro token htoken id
    exact hsound.tracks.tokens.authenticate rfl (validateAuthState_nodup hsound.tracks.valid).2
      htoken id

end Safety

section Sizes

theorem escapedLength_pos (c : Char) : 1 ≤ escapedLength c := by
  unfold escapedLength
  have hsize := Char.utf8Size_pos c
  split
  · omega
  · split
    · omega
    · omega

theorem stringLength_ge (text : String) : text.toList.length + 2 ≤ stringLength text := by
  have hsum : ∀ chars : List Char, chars.length ≤ (chars.map escapedLength).sum := by
    intro chars
    induction chars with
    | nil => exact Nat.zero_le _
    | cons c rest ih =>
      have hc := escapedLength_pos c
      rw [List.length_cons, List.map_cons, List.sum_cons]
      omega
  have hchars := hsum text.toList
  unfold stringLength
  omega

theorem prettyItems_ge {α : Type} (items : List α) (encode : α → Json) (depth size : Nat)
    (h : ∀ item ∈ items, size ≤ prettyLength depth (encode item)) :
    items.length * (2 * depth + size + 2) ≤ prettyItems depth (items.map encode) := by
  induction items with
  | nil => simp
  | cons item rest ih =>
    rw [List.forall_mem_cons] at h
    have hitem := h.1
    have hrest := ih h.2
    rw [List.map_cons, prettyItems, List.length_cons, Nat.succ_mul]
    omega

theorem digest_bytes (digest : Bytes32) : 360 ≤ prettyLength 3 digest.json := by
  have hitems := prettyItems_ge digest.bytes (fun byte => Json.number byte.toNat) 4 1 (by
    intro byte _
    unfold prettyLength integerLength
    omega)
  rw [digest.length] at hitems
  have hsome : (digest.bytes.map fun byte => Json.number byte.toNat).isEmpty = false := by
    rw [Bool.eq_false_iff, ne_eq, List.isEmpty_iff, List.map_eq_nil_iff]
    intro hnil
    have hlength := digest.length
    rw [hnil] at hlength
    cases hlength
  unfold Bytes32.json prettyLength
  rw [hsome]
  simp only [Bool.false_eq_true, if_false, Nat.reduceAdd]
  omega

theorem client_bytes (client : ClientToken) :
    client.id.toList.length + client.label.toList.length + 436 ≤ prettyLength 2 client.json := by
  have hid := stringLength_ge client.id
  have hlabel := stringLength_ge client.label
  have hdigest := digest_bytes client.digest
  have hkeys : stringLength "id" = 4 ∧ stringLength "label" = 7 ∧ stringLength "digest" = 8 ∧
      stringLength "created_at" = 12 := by
    decide
  obtain ⟨h1, h2, h3, h4⟩ := hkeys
  have htime : 1 ≤ integerLength client.createdAt := by
    unfold integerLength
    omega
  unfold ClientToken.json
  simp only [prettyLength, prettyFields, List.isEmpty_cons, Bool.false_eq_true, if_false, h1, h2,
    h3, h4, Nat.reduceAdd]
  omega

theorem state_bytes {state : AuthState} {size : Nat} (hsome : state.clients ≠ [])
    (h : ∀ client ∈ state.clients, size ≤ prettyLength 2 client.json) :
    state.clients.length * (size + 6) ≤ state.bytes := by
  have hitems := prettyItems_ge state.clients ClientToken.json 2 size h
  have hlist : (state.clients.map ClientToken.json).isEmpty = false := by
    rw [Bool.eq_false_iff, ne_eq, List.isEmpty_iff, List.map_eq_nil_iff]
    exact hsome
  have hsize : 2 * 2 + size + 2 = size + 6 := by omega
  rw [hsize] at hitems
  unfold AuthState.bytes AuthState.json
  simp only [prettyLength, prettyFields, List.isEmpty_cons, Bool.false_eq_true, if_false, hlist,
    Nat.reduceAdd]
  omega

end Sizes

section Samples

/-- The digits of a number, the lowest first. -/
def hexDigits : Nat → Nat → List Char
  | 0, _ => []
  | width + 1, number => hexDigit (number % 16) :: hexDigits width (number / 16)

theorem hexDigits_length (width number : Nat) : (hexDigits width number).length = width := by
  induction width generalizing number with
  | zero => rfl
  | succ width ih =>
    unfold hexDigits
    rw [List.length_cons, ih]

theorem hexDigits_take {width more : Nat} (number : Nat) (h : width ≤ more) :
    (hexDigits more number).take width = hexDigits width number := by
  induction width generalizing more number with
  | zero => rfl
  | succ width ih =>
    obtain ⟨rest, rfl⟩ : ∃ rest, more = rest + 1 := ⟨more - 1, by omega⟩
    unfold hexDigits
    rw [List.take_succ_cons, ih (number / 16) (by omega)]

def charByte (c : Char) : UInt8 := UInt8.ofNat c.toNat

theorem charByte_hexDigit : ∀ first second : Fin 16,
    charByte (hexDigit first) = charByte (hexDigit second) → first = second := by
  decide

theorem hexDigits_inj {width first second : Nat} (hfirst : first < 16 ^ width)
    (hsecond : second < 16 ^ width)
    (h : (hexDigits width first).map charByte = (hexDigits width second).map charByte) :
    first = second := by
  induction width generalizing first second with
  | zero =>
    rw [Nat.pow_zero] at hfirst hsecond
    omega
  | succ width ih =>
    unfold hexDigits at h
    rw [List.map_cons, List.map_cons] at h
    obtain ⟨hdigit, hrest⟩ := List.cons.inj h
    rw [Nat.pow_succ] at hfirst hsecond
    have hlow := charByte_hexDigit ⟨first % 16, Nat.mod_lt _ (by omega)⟩
      ⟨second % 16, Nat.mod_lt _ (by omega)⟩ hdigit
    have hhigh := @ih (first / 16) (second / 16) (by omega) (by omega) hrest
    have hlow' : first % 16 = second % 16 := congrArg Fin.val hlow
    omega

/-- A host whose digest is the last 32 bytes of a text, the last one first. -/
def plainAuthHost : AuthHost where
  sha256 text := {
    bytes := (text.toList.reverse.map charByte ++ List.replicate 32 0).take 32
    length := by simp }
  parseUuid text := if text.toList.length = 36 then .ok text else .error "invalid length"
  channelKey := ⟨List.replicate 32 0, rfl⟩

def secretText (width number : Nat) : String := String.ofList (hexDigits width number).reverse

theorem plain_digest {width : Nat} (number : Nat) (h : 32 ≤ width) :
    (plainAuthHost.sha256 (credential plainAuthHost (secretText width number))).bytes =
      (hexDigits 32 number).map charByte := by
  have hlist : (credential plainAuthHost (secretText width number)).toList.reverse =
      hexDigits width number ++ ("m1." ++ String.ofList
        (hexText plainAuthHost.channelKey.bytes) ++ ".").toList.reverse := by
    unfold credential secretText
    rw [String.toList_append, String.toList_ofList, List.reverse_append, List.reverse_reverse]
  show (((credential plainAuthHost (secretText width number)).toList.reverse.map charByte) ++
    List.replicate 32 0).take 32 = _
  rw [hlist, List.map_append, List.append_assoc, List.take_append_of_le_length (by
    rw [List.length_map, hexDigits_length]
    exact h), ← List.map_take, hexDigits_take number h]

theorem hexText_length (bytes : List UInt8) : (hexText bytes).length = 2 * bytes.length := by
  induction bytes with
  | nil => rfl
  | cons byte rest ih =>
    have hsplit : hexText (byte :: rest) =
        hexDigit (byte.toNat / 16) :: hexDigit (byte.toNat % 16) :: hexText rest := rfl
    rw [hsplit, List.length_cons, List.length_cons, ih, List.length_cons]
    omega

theorem hexText_inj {first second : List UInt8} (h : hexText first = hexText second) :
    first = second := by
  induction first generalizing second with
  | nil =>
    cases second with
    | nil => rfl
    | cons byte rest => cases h
  | cons byte rest ih =>
    cases second with
    | nil => cases h
    | cons byte' rest' =>
      have hsplit : hexDigit (byte.toNat / 16) :: hexDigit (byte.toNat % 16) :: hexText rest =
          hexDigit (byte'.toNat / 16) :: hexDigit (byte'.toNat % 16) :: hexText rest' := h
      obtain ⟨hhigh, hrest⟩ := List.cons.inj hsplit
      obtain ⟨hlow, hrest⟩ := List.cons.inj hrest
      have hbound : byte.toNat < 256 := byte.toNat_lt
      have hbound' : byte'.toNat < 256 := byte'.toNat_lt
      have hhigh' := charByte_hexDigit ⟨byte.toNat / 16, by omega⟩ ⟨byte'.toNat / 16, by omega⟩
        (congrArg charByte hhigh)
      have hlow' := charByte_hexDigit ⟨byte.toNat % 16, by omega⟩ ⟨byte'.toNat % 16, by omega⟩
        (congrArg charByte hlow)
      have hhigh'' : byte.toNat / 16 = byte'.toNat / 16 := congrArg Fin.val hhigh'
      have hlow'' : byte.toNat % 16 = byte'.toNat % 16 := congrArg Fin.val hlow'
      have hbyte : byte = byte' := UInt8.toNat_inj.mp (by omega)
      rw [hbyte, ih hrest]

theorem uuidText_inj {first second : List UInt8} (hfirst : first.length = 16)
    (hsecond : second.length = 16) (h : uuidText first = uuidText second) : first = second := by
  have hlist := String.ofList_injective h
  have hparts : ∀ {start finish : List Char} {bytes bytes' : List UInt8},
      bytes.length = bytes'.length →
      hexText bytes ++ start = hexText bytes' ++ finish → bytes = bytes' ∧ start = finish := by
    intro start finish bytes bytes' hlength hsame
    obtain ⟨hbytes, hrest⟩ := List.append_inj hsame (by
      rw [hexText_length, hexText_length, hlength])
    exact ⟨hexText_inj hbytes, hrest⟩
  simp only [List.append_assoc, List.cons_append] at hlist
  obtain ⟨h1, hlist⟩ := hparts (by simp [hfirst, hsecond]) hlist
  obtain ⟨h2, hlist⟩ := hparts (by simp [hfirst, hsecond]) (List.cons.inj hlist).2
  obtain ⟨h3, hlist⟩ := hparts (by simp [hfirst, hsecond]) (List.cons.inj hlist).2
  obtain ⟨h4, hlist⟩ := hparts (by simp [hfirst, hsecond]) (List.cons.inj hlist).2
  have h5 := hexText_inj (List.cons.inj hlist).2
  have hsplit : ∀ bytes : List UInt8, bytes.length = 16 → bytes = bytes.take 4 ++
      ((bytes.drop 4).take 2 ++ ((bytes.drop 6).take 2 ++ ((bytes.drop 8).take 2 ++
        (bytes.drop 10).take 6))) := by
    intro bytes hlength
    have hstep : ∀ start count, (bytes.drop start).take count ++ bytes.drop (start + count) =
        bytes.drop start := by
      intro start count
      rw [← List.drop_drop, List.take_append_drop]
    have hlast : (bytes.drop 10).take 6 = bytes.drop 10 := by
      refine List.take_of_length_le ?_
      rw [List.length_drop, hlength]
    rw [hlast, hstep 8 2, hstep 6 2, hstep 4 2, List.take_append_drop]
  rw [hsplit first hfirst, hsplit second hsecond, h1, h2, h3, h4, h5]

variable {host : AuthHost} {number count : Nat} {secret : String} {config : AuthConfig}
  {world : AuthWorld}

theorem validateClients_ok {clients : List ClientToken} {ids : List String}
    {digests : List Bytes32}
    (hchecked : ∀ client ∈ clients, validateClientId host client.id = .ok () ∧
      validateClientLabel client.label = .ok ()) (hids : (clients.map (·.id)).Nodup)
    (hdigests : (clients.map (·.digest)).Nodup) (hfreshIds : ∀ client ∈ clients, client.id ∉ ids)
    (hfreshDigests : ∀ client ∈ clients, client.digest ∉ digests) :
    validateClients host ids digests clients = .ok () := by
  induction clients generalizing ids digests with
  | nil => rfl
  | cons client rest ih =>
    rw [List.forall_mem_cons] at hchecked hfreshIds hfreshDigests
    rw [List.map_cons, List.nodup_cons] at hids hdigests
    unfold validateClients
    refine checks_ok_iff.mpr ⟨hchecked.1.1, checks_ok_iff.mpr
      ⟨refuseIf_ok_iff.mpr hfreshIds.1, checks_ok_iff.mpr
        ⟨refuseIf_ok_iff.mpr hfreshDigests.1, checks_ok_iff.mpr ⟨hchecked.1.2, ?_⟩⟩⟩⟩
    refine ih hchecked.2 hids.2 hdigests.2 ?_ ?_
    · intro other hother hmem
      rcases List.mem_cons.mp hmem with hsame | hold
      · exact hids.1 (hsame ▸ List.mem_map_of_mem hother)
      · exact hfreshIds.2 other hother hold
    · intro other hother hmem
      rcases List.mem_cons.mp hmem with hsame | hold
      · exact hdigests.1 (hsame ▸ List.mem_map_of_mem hother)
      · exact hfreshDigests.2 other hother hold

def sampleLabel : String := "a client with a label of more than 40 bytes"

theorem sampleLabel_valid : validateClientLabel sampleLabel = .ok () := by
  decide +kernel

/-- The policy with the most clients. -/
def fullConfig : AuthConfig where
  pairedClients := 4096
  pairingLifetimeSeconds := 600
  clients_bounded := by decide
  lifetime_bounded := by decide

def codeSecret (number : Nat) : String := secretText 32 (2 * number)

def tokenSecret (number : Nat) : String := secretText 64 (2 * number + 1)

def sampleCode (number : Nat) : String := credential plainAuthHost (codeSecret number)

def sampleClient (number : Nat) : ClientToken where
  id := pairingClientId plainAuthHost (sampleCode (number + 1))
  label := sampleLabel
  digest := plainAuthHost.sha256 (credential plainAuthHost (tokenSecret (number + 1)))
  createdAt := 1000

def sampleState (number : Nat) (pending : Option PendingPairing) : AuthState where
  pendingPairing := pending
  clients := (List.range number).map sampleClient

/-- A client pairs. -/
def sampleRound (number : Nat) : List AuthOp :=
  [.createPairingCode (codeSecret (number + 1)) 1000 .confirmed,
    .pair (sampleCode (number + 1)) sampleLabel 1000 (tokenSecret (number + 1)) .confirmed]

/-- Many clients pair. -/
def sampleRounds (count : Nat) : List AuthOp := (List.range count).flatMap sampleRound

theorem sampleClient_id (number : Nat) :
    (sampleClient number).id = uuidText ((hexDigits 16 (2 * (number + 1))).map charByte) := by
  show uuidText ((plainAuthHost.sha256 (sampleCode (number + 1))).bytes.take 16) = _
  unfold sampleCode codeSecret
  rw [plain_digest _ (le_refl 32), ← List.map_take, hexDigits_take _ (by omega)]

theorem sampleClient_id_length (number : Nat) : (sampleClient number).id.toList.length = 36 := by
  rw [sampleClient_id]
  unfold uuidText
  simp [String.toList_ofList, hexText_length, hexDigits_length]

theorem sampleState_valid {pending : Option PendingPairing} (hbound : number ≤ 4096)
    (haccess : pending ≠ none ∨ 0 < number) :
    validateAuthState plainAuthHost (sampleState number pending) = .ok () := by
  have hsmall : ∀ n, n ∈ List.range number → 2 * (n + 1) < 16 ^ 16 ∧
      2 * (n + 1) + 1 < 16 ^ 32 := by
    intro n hn
    rw [List.mem_range] at hn
    omega
  have hids : ((sampleState number pending).clients.map (·.id)).Nodup := by
    show (((List.range number).map sampleClient).map (·.id)).Nodup
    rw [List.map_map]
    refine List.Nodup.map_on ?_ List.nodup_range
    intro first hfirst second hsecond heq
    rw [Function.comp_apply, Function.comp_apply, sampleClient_id, sampleClient_id] at heq
    have hdigits := hexDigits_inj (hsmall first hfirst).1 (hsmall second hsecond).1
      (uuidText_inj (by rw [List.length_map, hexDigits_length])
        (by rw [List.length_map, hexDigits_length]) heq)
    omega
  have hdigests : ((sampleState number pending).clients.map (·.digest)).Nodup := by
    show (((List.range number).map sampleClient).map (·.digest)).Nodup
    rw [List.map_map]
    refine List.Nodup.map_on ?_ List.nodup_range
    intro first hfirst second hsecond heq
    have hbytes := congrArg Bytes32.bytes heq
    have hfirstBytes := @plain_digest 64 (2 * (first + 1) + 1) (by omega)
    have hsecondBytes := @plain_digest 64 (2 * (second + 1) + 1) (by omega)
    have hdigits := hexDigits_inj (hsmall first hfirst).2 (hsmall second hsecond).2
      (hfirstBytes.symm.trans (hbytes.trans hsecondBytes))
    omega
  unfold validateAuthState
  refine checks_ok_iff.mpr ⟨refuseIf_ok_iff.mpr ?_, checks_ok_iff.mpr
    ⟨refuseIf_ok_iff.mpr ?_, ?_⟩⟩
  · show ¬maxCapacity < ((List.range number).map sampleClient).length
    rw [List.length_map, List.length_range]
    have hcapacity : maxCapacity = 4096 := rfl
    omega
  · rintro ⟨hnone, hempty⟩
    rcases haccess with hpending | hpositive
    · exact hpending hnone
    · have hlength := congrArg List.length hempty
      simp only [sampleState, List.length_map, List.length_range, List.length_nil] at hlength
      omega
  · refine validateClients_ok ?_ hids hdigests (fun _ _ => List.not_mem_nil)
      (fun _ _ => List.not_mem_nil)
    intro client hclient
    obtain ⟨n, -, rfl⟩ := List.mem_map.mp hclient
    refine ⟨?_, sampleLabel_valid⟩
    have hlength := sampleClient_id_length n
    unfold validateClientId plainAuthHost
    simp only [hlength, if_true]
    exact refuseIf_ok_iff.mpr (not_not.mpr rfl)

theorem publish_confirmed {file state : AuthState} {undo : AuthState → AuthState}
    (h : validateAuthState host state = .ok ()) :
    publish host file state undo .confirmed = (.ok (), ⟨state, state⟩) := by
  unfold publish saveAuthState
  rw [h]

theorem credentialMatches_self (h : secret.utf8ByteSize ≤ 64) :
    credentialMatches host (credential host secret)
      (host.sha256 (credential host secret)) = true := by
  unfold credentialMatches
  rw [credential_accepted h]
  simp only [Bool.false_eq_true, if_false, decide_true]

theorem createPairingCode_confirmed {store : AuthStore} {now : Int} {grant : PairingGrant}
    (hgrant : newPairingGrant host config secret now = .ok grant)
    (hvalid : validateAuthState host
      ⟨some ⟨host.sha256 grant.code, grant.expiresAt⟩, store.memory.clients⟩ = .ok ()) :
    (createPairingCode host config store secret now .confirmed).2.memory =
      ⟨some ⟨host.sha256 grant.code, grant.expiresAt⟩, store.memory.clients⟩ := by
  unfold createPairingCode replied
  rw [hgrant]
  dsimp only
  rw [publish_confirmed hvalid]

theorem pairAt_confirmed {store : AuthStore} {code label : String} {now : Int}
    {pending : PendingPairing} (hlabel : validateClientLabel label = .ok ())
    (hpending : store.memory.pendingPairing = some pending) (hnow : now < pending.expiresAt)
    (hmatches : credentialMatches host code pending.digest = true)
    (hroom : store.memory.clients.length < config.pairedClients)
    (hvalid : validateAuthState host ⟨none, store.memory.clients ++ [⟨pairingClientId host code,
      label, host.sha256 (credential host secret), now⟩]⟩ = .ok ()) :
    (pairAt host config store code label now secret .confirmed).2.memory =
      ⟨none, store.memory.clients ++ [⟨pairingClientId host code, label,
        host.sha256 (credential host secret), now⟩]⟩ := by
  have hguard : ¬(decide (pending.expiresAt ≤ now) ||
      !credentialMatches host code pending.digest) = true := by
    rw [hmatches, decide_eq_false (Int.not_le.mpr hnow)]
    exact Bool.false_ne_true
  unfold pairAt replied
  rw [hlabel, hpending]
  dsimp only
  rw [if_neg hguard, if_neg (Nat.not_le.mpr hroom)]
  dsimp only
  rw [publish_confirmed hvalid]

def firstGrant : PairingGrant := ⟨sampleCode 0, 1600⟩

/-- The pending code before a round. -/
def samplePending (number : Nat) : PendingPairing :=
  ⟨plainAuthHost.sha256 (sampleCode number), 1600⟩

theorem secretText_bytes (width number : Nat) : (secretText width number).utf8ByteSize = width := by
  have hsizes : ∀ number, ((hexDigits width number).map Char.utf8Size).sum = width := by
    induction width with
    | zero => exact fun _ => rfl
    | succ width ih =>
      intro number
      unfold hexDigits
      rw [List.map_cons, List.sum_cons, hexDigit_size (Nat.mod_lt _ (by omega)), ih]
      omega
  unfold secretText
  rw [utf8ByteSize_ofList, List.map_reverse, List.sum_reverse, hsizes]

theorem codeSecret_bytes (number : Nat) : (codeSecret number).utf8ByteSize ≤ 64 := by
  unfold codeSecret
  rw [secretText_bytes]
  omega

theorem sample_create {pending : Option PendingPairing} (hbound : number ≤ 4096)
    (hrunning : world.running = true) (hmemory : world.store.memory = sampleState number pending) :
    (stepAuth plainAuthHost fullConfig world
      (.createPairingCode (codeSecret (number + 1)) 1000 .confirmed)).running = true ∧
    (stepAuth plainAuthHost fullConfig world
      (.createPairingCode (codeSecret (number + 1)) 1000 .confirmed)).store.memory =
        sampleState number (some (samplePending (number + 1))) := by
  have hvalid : validateAuthState plainAuthHost
      (sampleState number (some (samplePending (number + 1)))) = .ok () :=
    sampleState_valid hbound (.inl (Option.some_ne_none _))
  have hgrant : newPairingGrant plainAuthHost fullConfig (codeSecret (number + 1)) 1000 =
      .ok ⟨sampleCode (number + 1), 1600⟩ := rfl
  have hclients : world.store.memory.clients = (List.range number).map sampleClient := by
    rw [hmemory]
    rfl
  have hcreated := createPairingCode_confirmed hgrant (by rw [hclients]; exact hvalid)
  unfold stepAuth
  rw [hrunning]
  refine ⟨hrunning, ?_⟩
  rw [hclients] at hcreated
  exact hcreated

theorem sample_pair (hbound : number < 4096) (hrunning : world.running = true)
    (hmemory : world.store.memory = sampleState number (some (samplePending (number + 1)))) :
    (stepAuth plainAuthHost fullConfig world (.pair (sampleCode (number + 1)) sampleLabel 1000
      (tokenSecret (number + 1)) .confirmed)).running = true ∧
    (stepAuth plainAuthHost fullConfig world (.pair (sampleCode (number + 1)) sampleLabel 1000
      (tokenSecret (number + 1)) .confirmed)).store.memory = sampleState (number + 1) none := by
  have hvalid : validateAuthState plainAuthHost (sampleState (number + 1) none) = .ok () :=
    sampleState_valid (by omega) (.inr (by omega))
  have hlabel : validateClientLabel sampleLabel = .ok () := sampleLabel_valid
  have hsecret : (codeSecret (number + 1)).utf8ByteSize ≤ 64 := codeSecret_bytes (number + 1)
  have hmatches : credentialMatches plainAuthHost (sampleCode (number + 1))
      (samplePending (number + 1)).digest = true := credentialMatches_self hsecret
  have hroom : world.store.memory.clients.length < fullConfig.pairedClients := by
    rw [hmemory]
    unfold sampleState
    rw [List.length_map, List.length_range]
    exact hbound
  have hstate : (⟨none, world.store.memory.clients ++ [sampleClient number]⟩ : AuthState) =
      sampleState (number + 1) none := by
    rw [hmemory]
    unfold sampleState
    rw [List.range_succ, List.map_append]
    rfl
  have hpending : world.store.memory.pendingPairing = some (samplePending (number + 1)) := by
    rw [hmemory]
    rfl
  have hnow : (1000 : Int) < (samplePending (number + 1)).expiresAt := by
    show (1000 : Int) < 1600
    omega
  have hpaired : (pairAt plainAuthHost fullConfig world.store (sampleCode (number + 1))
      sampleLabel 1000 (tokenSecret (number + 1)) .confirmed).2.memory =
      ⟨none, world.store.memory.clients ++ [sampleClient number]⟩ :=
    pairAt_confirmed hlabel hpending hnow hmatches hroom (by
      show validateAuthState plainAuthHost
        ⟨none, world.store.memory.clients ++ [sampleClient number]⟩ = _
      rw [hstate]
      exact hvalid)
  unfold stepAuth
  rw [hrunning]
  exact ⟨hrunning, hpaired.trans hstate⟩

theorem sample_rounds (hbound : count ≤ 4096) :
    (runAuth plainAuthHost fullConfig (initialWorld plainAuthHost firstGrant)
      (sampleRounds count)).running = true ∧
    ∃ pending, (runAuth plainAuthHost fullConfig (initialWorld plainAuthHost firstGrant)
      (sampleRounds count)).store.memory = sampleState count pending := by
  induction count with
  | zero => exact ⟨rfl, some (samplePending 0), rfl⟩
  | succ count ih =>
    obtain ⟨hrunning, pending, hmemory⟩ := ih (by omega)
    have hsplit : sampleRounds (count + 1) = sampleRounds count ++ sampleRound count := by
      unfold sampleRounds
      rw [List.range_succ, List.flatMap_append, List.flatMap_singleton]
    rw [hsplit]
    unfold runAuth at hrunning hmemory ⊢
    rw [List.foldl_append]
    obtain ⟨hrunning', hmemory'⟩ := sample_create (by omega) hrunning hmemory
    obtain ⟨hrunning'', hmemory''⟩ := sample_pair (by omega) hrunning' hmemory'
    exact ⟨hrunning'', none, hmemory''⟩

/-- The secrets of codes and tokens by number. -/
def sampleSecret (number : Nat) : String :=
  secretText (if number % 2 = 0 then 32 else 64) number

theorem codeSecret_eq (number : Nat) : codeSecret number = sampleSecret (2 * number) := by
  unfold sampleSecret codeSecret
  rw [if_pos (by omega)]

theorem tokenSecret_eq (number : Nat) : tokenSecret number = sampleSecret (2 * number + 1) := by
  unfold sampleSecret tokenSecret
  rw [if_neg (by omega)]

theorem sampleSecret_digest {first second : Nat} (hfirst : first < 16 ^ 32)
    (hsecond : second < 16 ^ 32)
    (h : plainAuthHost.sha256 (credential plainAuthHost (sampleSecret first)) =
      plainAuthHost.sha256 (credential plainAuthHost (sampleSecret second))) : first = second := by
  have hwidth : ∀ number, 32 ≤ if number % 2 = 0 then 32 else 64 := by
    intro number
    split
    · omega
    · omega
  refine hexDigits_inj hfirst hsecond ?_
  rw [← plain_digest first (hwidth first), ← plain_digest second (hwidth second)]
  exact congrArg Bytes32.bytes h

theorem sampleRounds_secrets (count : Nat) :
    codeSecret 0 :: (sampleRounds count).flatMap secrets =
      (0 :: (List.range count).flatMap fun number => [2 * number + 2, 2 * number + 3]).map
        sampleSecret := by
  unfold sampleRounds
  rw [List.flatMap_assoc, List.map_cons, List.map_flatMap, codeSecret_eq]
  congr 1
  refine List.flatMap_congr ?_
  intro number _
  show [codeSecret (number + 1), tokenSecret (number + 1)] = _
  rw [codeSecret_eq, tokenSecret_eq]
  rfl

theorem mem_sampleRounds {operation : AuthOp} (h : operation ∈ sampleRounds count) :
    ∃ number < count, operation ∈ sampleRound number := by
  obtain ⟨number, hnumber, hoperation⟩ := List.mem_flatMap.mp h
  exact ⟨number, List.mem_range.mp hnumber, hoperation⟩

theorem sampleRounds_fresh (hbound : count ≤ 4096) :
    FreshRun plainAuthHost (codeSecret 0) (sampleRounds count) := by
  have hnumbers : ∀ number ∈ 0 :: (List.range count).flatMap (fun number =>
      [2 * number + 2, 2 * number + 3]), number < 16 ^ 32 := by
    intro number hnumber
    rcases List.mem_cons.mp hnumber with rfl | hmem
    · omega
    · obtain ⟨round, hround, hmem⟩ := List.mem_flatMap.mp hmem
      rw [List.mem_range] at hround
      rcases List.mem_pair.mp hmem with rfl | rfl
      · omega
      · omega
  have hplaceholders : ∀ text, text ∉ (sampleRounds count).flatMap placeholders := by
    intro text htext
    obtain ⟨operation, hoperation, htext⟩ := List.mem_flatMap.mp htext
    obtain ⟨number, -, hround⟩ := mem_sampleRounds hoperation
    rcases List.mem_pair.mp hround with rfl | rfl
    · cases htext
    · cases htext
  have htexts : ∀ text ∈ texts plainAuthHost (codeSecret 0) (sampleRounds count),
      ∃ number < 16 ^ 32, text = credential plainAuthHost (sampleSecret number) := by
    rintro text (⟨generated, hgenerated, rfl⟩ | hhidden | hpresented)
    · rw [sampleRounds_secrets] at hgenerated
      obtain ⟨number, hnumber, rfl⟩ := List.mem_map.mp hgenerated
      exact ⟨number, hnumbers number hnumber, rfl⟩
    · exact absurd hhidden (hplaceholders text)
    · obtain ⟨operation, hoperation, htext⟩ := List.mem_flatMap.mp hpresented
      obtain ⟨number, hnumber, hround⟩ := mem_sampleRounds hoperation
      rcases List.mem_pair.mp hround with rfl | rfl
      · cases htext
      · rw [List.mem_singleton.mp htext]
        unfold sampleCode
        rw [codeSecret_eq]
        exact ⟨2 * (number + 1), by omega, rfl⟩
  refine ⟨?_, ?_, ?_, ?_⟩
  · rw [sampleRounds_secrets]
    refine List.Nodup.map_on ?_ ?_
    · intro first hfirst second hsecond hsame
      exact sampleSecret_digest (hnumbers first hfirst) (hnumbers second hsecond) (by rw [hsame])
    · rw [List.nodup_cons, List.nodup_flatMap]
      refine ⟨?_, ?_, ?_⟩
      · intro hmem
        obtain ⟨number, -, hmem⟩ := List.mem_flatMap.mp hmem
        rcases List.mem_pair.mp hmem with hzero | hzero
        · omega
        · omega
      · intro number _
        simp
      · refine List.nodup_range.imp ?_
        intro first second hne value hfirst hsecond
        rcases List.mem_pair.mp hfirst with rfl | rfl
        · rcases List.mem_pair.mp hsecond with heq | heq
          · omega
          · omega
        · rcases List.mem_pair.mp hsecond with heq | heq
          · omega
          · omega
  · intro generated hgenerated
    obtain ⟨operation, hoperation, hmem⟩ := List.mem_flatMap.mp hgenerated
    obtain ⟨number, -, hround⟩ := mem_sampleRounds hoperation
    rcases List.mem_pair.mp hround with rfl | rfl
    · rw [List.mem_singleton.mp hmem]
      exact codeSecret_bytes (number + 1)
    · rw [List.mem_singleton.mp hmem]
      unfold tokenSecret
      rw [secretText_bytes]
  · exact fun generated hgenerated => absurd hgenerated (hplaceholders generated)
  · intro first hfirst second hsecond hsame
    obtain ⟨number, hnumber, rfl⟩ := htexts first hfirst
    obtain ⟨other, hother, rfl⟩ := htexts second hsecond
    rw [sampleSecret_digest hnumber hother hsame]

theorem sampleState_bytes (hcount : 4096 ≤ count) (pending : Option PendingPairing) :
    maxAuthStateBytes < (sampleState count pending).bytes := by
  have hlength : (sampleState count pending).clients.length = count := by
    unfold sampleState
    rw [List.length_map, List.length_range]
  have hclients : ∀ client ∈ (sampleState count pending).clients,
      515 ≤ prettyLength 2 client.json := by
    intro client hclient
    obtain ⟨number, -, rfl⟩ := List.mem_map.mp hclient
    have hid := sampleClient_id_length number
    have hlabel : (sampleClient number).label.toList.length = 43 := by
      show sampleLabel.toList.length = 43
      decide
    have hbytes := client_bytes (sampleClient number)
    omega
  have hsome : (sampleState count pending).clients ≠ [] := by
    intro hnil
    rw [hnil, List.length_nil] at hlength
    omega
  have hbytes := state_bytes hsome hclients
  rw [hlength] at hbytes
  have hlimit : maxAuthStateBytes = 2097152 := rfl
  omega

theorem reopen_refused {error : GatewayError}
    (h : openValidated host world.store.file = .error error) :
    (stepAuth host config world .reopen).running = false := by
  unfold stepAuth operateAuth
  rw [h, AuthOp.opens, Bool.or_true, if_pos rfl]

/-- A gateway with one client. -/
theorem pairing_sound_one :
    openValidated plainAuthHost (runAuth plainAuthHost fullConfig
        (initialWorld plainAuthHost firstGrant) (sampleRounds 1)).store.file =
      .ok (runAuth plainAuthHost fullConfig (initialWorld plainAuthHost firstGrant)
        (sampleRounds 1)).store.memory := by
  have hgrant : newPairingGrant plainAuthHost fullConfig (codeSecret 0) 1000 = .ok firstGrant := rfl
  refine (pairing_sound hgrant (sampleRounds 1) (sampleRounds_fresh (by omega))).1.mpr ?_
  decide +kernel

/-- A gateway with as many clients as its policy allows cannot open its file again. -/
theorem full_gateway_stays_closed :
    FreshRun plainAuthHost (codeSecret 0) (sampleRounds 4096) ∧
    newPairingGrant plainAuthHost fullConfig (codeSecret 0) 1000 = .ok firstGrant ∧
    openValidated plainAuthHost (runAuth plainAuthHost fullConfig
        (initialWorld plainAuthHost firstGrant) (sampleRounds 4096)).store.file =
      .error (.config "authentication state is too large") ∧
    (runAuth plainAuthHost fullConfig (initialWorld plainAuthHost firstGrant)
      (sampleRounds 4096 ++ [.reopen])).running = false := by
  obtain ⟨count, hcount⟩ : ∃ count, count = 4096 := ⟨4096, rfl⟩
  rw [← hcount]
  have hfresh : FreshRun plainAuthHost (codeSecret 0) (sampleRounds count) :=
    sampleRounds_fresh (by omega)
  have hgrant : newPairingGrant plainAuthHost fullConfig (codeSecret 0) 1000 = .ok firstGrant := rfl
  obtain ⟨-, pending, hmemory⟩ := sample_rounds (show count ≤ 4096 by omega)
  have hsame := (hfresh.sound hgrant).same
  have hlong : maxAuthStateBytes < (runAuth plainAuthHost fullConfig
      (initialWorld plainAuthHost firstGrant) (sampleRounds count)).store.file.bytes := by
    rw [hsame, hmemory]
    exact sampleState_bytes (by omega) pending
  have hopen : openValidated plainAuthHost (runAuth plainAuthHost fullConfig
      (initialWorld plainAuthHost firstGrant) (sampleRounds count)).store.file =
      .error (.config "authentication state is too large") := by
    unfold openValidated refuseIf
    rw [if_pos hlong]
    rfl
  refine ⟨hfresh, hgrant, hopen, ?_⟩
  have hsplit : runAuth plainAuthHost fullConfig (initialWorld plainAuthHost firstGrant)
      (sampleRounds count ++ [.reopen]) = stepAuth plainAuthHost fullConfig
        (runAuth plainAuthHost fullConfig (initialWorld plainAuthHost firstGrant)
          (sampleRounds count)) .reopen := by
    unfold runAuth
    rw [List.foldl_concat]
  rw [hsplit]
  exact reopen_refused hopen

end Samples

end MobiusAgent.PairingRuns
