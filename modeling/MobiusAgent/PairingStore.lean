import MobiusAgent.MessageQueue
import MobiusAgent.HookRecords

/-!
# Pairing codes and bearer tokens

The file-backed authentication state of a gateway: one pending pairing code
and the digests of the client tokens. Every operation updates the state in
memory, publishes the whole file and undoes the update when nothing was
written. SHA-256, the parser of UUIDs and the generated secrets are outside;
the replacement of the file ends in one of three ways.
-/

namespace MobiusAgent.PairingStore

open JsonValue ProtocolEvents MessageQueue HookRecords

section Records

/-- The bytes of a digest or of a key. -/
structure Bytes32 where
  bytes : List UInt8
  length : bytes.length = 32
  deriving DecidableEq

/-- The errors of the gateway that authentication returns. -/
inductive GatewayError where
  | unauthorized
  /-- Invalid configuration or input. -/
  | config (message : String)
  /-- A file could not be written. -/
  | io
  /-- The file was replaced but the directory was not synchronised. -/
  | publicationApplied
  deriving DecidableEq

structure PendingPairing where
  digest : Bytes32
  /-- The time from which the code is refused. -/
  expiresAt : Int
  deriving DecidableEq

structure ClientToken where
  id : String
  label : String
  digest : Bytes32
  createdAt : Int
  deriving DecidableEq

structure AuthState where
  pendingPairing : Option PendingPairing
  clients : List ClientToken
  deriving DecidableEq

structure ClientIdentity where
  id : String
  label : String
  deriving DecidableEq

/-- A new bearer token. -/
structure IssuedToken where
  clientId : String
  token : String
  deriving DecidableEq

/-- A new pairing code. -/
structure PairingGrant where
  code : String
  /-- The time from which the code is refused. -/
  expiresAt : Int
  deriving DecidableEq

def maxCapacity : Nat := 4096

def maxClientCredentialBytes : Nat := 512

def maxClientLabelBytes : Nat := 128

def maxAuthStateBytes : Nat := 2 * 1024 * 1024

def revokedPairingExpiry : Int := 0

def localClientId : String := "00000000-0000-0000-0000-000000000001"

def localClientLabel : String := "Local möbius CLI"

/-- A validated pairing policy. -/
structure AuthConfig where
  pairedClients : Nat
  pairingLifetimeSeconds : Nat
  clients_bounded : 1 ≤ pairedClients ∧ pairedClients ≤ maxCapacity
  lifetime_bounded : 1 ≤ pairingLifetimeSeconds ∧ pairingLifetimeSeconds ≤ 86400

/-- What the store uses of other packages. -/
structure AuthHost where
  /-- `Sha256::digest` of the bytes of a text. -/
  sha256 : String → Bytes32
  /-- `Uuid::parse_str`, with the canonical text of the result. -/
  parseUuid : String → Except String String
  channelKey : Bytes32

end Records

section Encoding

mutual
/-- The bytes of a value as `serde_json` writes it with indentation. -/
def prettyLength (depth : Nat) : Json → Nat
  | .null => 4
  | .bool value => if value then 4 else 5
  | .number value => integerLength value
  | .decimal literal => literal.utf8ByteSize
  | .str value => stringLength value
  | .arr items => if items.isEmpty then 2 else prettyItems (depth + 1) items + 2 + 2 * depth
  | .obj fields => if fields.isEmpty then 2 else prettyFields (depth + 1) fields + 2 + 2 * depth

/-- The bytes of the items of an array, each on a line of its own; the comma after the last one
is counted for the line break before the closing bracket. -/
def prettyItems (depth : Nat) : List Json → Nat
  | [] => 0
  | item :: rest => 2 * depth + prettyLength depth item + 2 + prettyItems depth rest

/-- The bytes of the fields of an object. -/
def prettyFields (depth : Nat) : List (String × Json) → Nat
  | [] => 0
  | (key, value) :: rest =>
    2 * depth + stringLength key + 2 + prettyLength depth value + 2 + prettyFields depth rest
end

def Bytes32.json (digest : Bytes32) : Json :=
  .arr (digest.bytes.map fun byte => .number byte.toNat)

/-- An encoded pairing code. -/
def PendingPairing.json (pending : PendingPairing) : Json :=
  .obj [("digest", pending.digest.json), ("expires_at", .number pending.expiresAt)]

def ClientToken.json (client : ClientToken) : Json :=
  .obj [("id", .str client.id), ("label", .str client.label), ("digest", client.digest.json),
    ("created_at", .number client.createdAt)]

def AuthState.json (state : AuthState) : Json :=
  .obj [("pending_pairing", (state.pendingPairing.map PendingPairing.json).getD .null),
    ("clients", .arr (state.clients.map ClientToken.json))]

def AuthState.bytes (state : AuthState) : Nat := prettyLength 0 state.json

def hexDigit (value : Nat) : Char :=
  if value < 10 then Char.ofNat (48 + value) else Char.ofNat (87 + value)

/-- The two hexadecimal digits of each byte. -/
def hexText (bytes : List UInt8) : List Char :=
  bytes.flatMap fun byte => [hexDigit (byte.toNat / 16), hexDigit (byte.toNat % 16)]

def uuidText (bytes : List UInt8) : String :=
  String.ofList (hexText (bytes.take 4) ++ '-' :: hexText ((bytes.drop 4).take 2) ++
    '-' :: hexText ((bytes.drop 6).take 2) ++ '-' :: hexText ((bytes.drop 8).take 2) ++
    '-' :: hexText ((bytes.drop 10).take 6))

end Encoding

section Checks

variable (host : AuthHost)

def credential (secret : String) : String :=
  "m1." ++ String.ofList (hexText host.channelKey.bytes) ++ "." ++ secret

def credentialMatches (candidate : String) (expected : Bytes32) : Bool :=
  if candidate.isEmpty || decide (maxClientCredentialBytes < candidate.utf8ByteSize) then false
  else decide (host.sha256 candidate = expected)

def pairingClientId (code : String) : String := uuidText ((host.sha256 code).bytes.take 16)

def validateClientLabel (label : String) : Except GatewayError Unit :=
  if label.isEmpty || decide (label ≠ trim label) ||
      decide (maxClientLabelBytes < label.utf8ByteSize) || label.toList.any isControl then
    .error (.config "client label must be canonical, control-free, and 1–128 bytes")
  else .ok ()

/-- A check fails with an error when its condition holds. -/
def refuseIf (condition : Prop) [Decidable condition] (error : GatewayError) :
    Except GatewayError Unit :=
  if condition then .error error else .ok ()

/-- The identifier of a client is the canonical text of a UUID. -/
def validateClientId (id : String) : Except GatewayError Unit :=
  match host.parseUuid id with
  | .error error => .error (.config ("authentication client ID is invalid: " ++ error))
  | .ok canonical =>
    refuseIf (canonical ≠ id) (.config "authentication client ID must be canonical")

/-- The checks of the clients after those with the identifiers and digests seen before. -/
def validateClients (ids : List String) (digests : List Bytes32) :
    List ClientToken → Except GatewayError Unit
  | [] => .ok ()
  | client :: rest => do
    validateClientId host client.id
    refuseIf (client.id ∈ ids)
      (.config "authentication state contains duplicate client IDs")
    refuseIf (client.digest ∈ digests)
      (.config "authentication state contains duplicate token digests")
    validateClientLabel client.label
    validateClients (client.id :: ids) (client.digest :: digests) rest

def validateAuthState (state : AuthState) : Except GatewayError Unit := do
  refuseIf (maxCapacity < state.clients.length)
    (.config "authentication state exceeds the client limit")
  refuseIf (state.pendingPairing = none ∧ state.clients = [])
    (.config "authentication state has neither pairing nor client access")
  validateClients host [] [] state.clients

/-- `new_pairing_grant`; a validated lifetime is a number of seconds. -/
def newPairingGrant (config : AuthConfig) (secret : String) (now : Int) :
    Except GatewayError PairingGrant :=
  if i64Max < now + config.pairingLifetimeSeconds then
    .error (.config "pairing expiry overflow")
  else .ok ⟨credential host secret, now + config.pairingLifetimeSeconds⟩

end Checks

section Files

variable (host : AuthHost)

/-- How the replacement of the file ends. -/
inductive Replacement where
  | confirmed
  /-- It fails before the file is replaced. -/
  | unchanged
  /-- The file is replaced but its directory is not synchronised. -/
  | unconfirmed
  deriving DecidableEq

/-- A store: the state in memory and the state that the file holds. -/
structure AuthStore where
  memory : AuthState
  file : AuthState
  deriving DecidableEq

/-- `save_auth_state`, with the state that the file holds after it. -/
def saveAuthState (file state : AuthState) (replacement : Replacement) :
    Except GatewayError Unit × AuthState :=
  match validateAuthState host state with
  | .error error => (.error error, file)
  | .ok () => match replacement with
    | .confirmed => (.ok (), state)
    | .unchanged => (.error .io, file)
    | .unconfirmed => (.error .publicationApplied, state)

/-- `publish`: an update of the state in memory is undone unless it was written. -/
def publish (file state : AuthState) (undo : AuthState → AuthState) (replacement : Replacement) :
    Except GatewayError Unit × AuthStore :=
  match saveAuthState host file state replacement with
  | (.ok (), file) => (.ok (), ⟨state, file⟩)
  | (.error .publicationApplied, file) => (.error .publicationApplied, ⟨state, file⟩)
  | (.error error, file) => (.error error, ⟨undo state, file⟩)

/-- The reply of an operation after its publication. -/
def replied {α : Type} (value : α) (published : Except GatewayError Unit × AuthStore) :
    Except GatewayError α × AuthStore :=
  (published.1.map fun _ => value, published.2)

/-- `open_validated`: the state of a file. -/
def openValidated (file : AuthState) : Except GatewayError AuthState := do
  refuseIf (maxAuthStateBytes < file.bytes) (.config "authentication state is too large")
  validateAuthState host file
  return file

end Files

section Operations

variable (host : AuthHost) (config : AuthConfig)

def modifyFirst (condition : ClientToken → Bool) (change : ClientToken → ClientToken)
    (clients : List ClientToken) : List ClientToken :=
  match clients.findIdx? condition with
  | none => clients
  | some index => clients.modify index change

def lastWithDigest (digest : Bytes32) (clients : List ClientToken) : Option Nat :=
  (clients.zipIdx.foldl (fun matched entry =>
    if entry.1.digest = digest then some entry.2 else matched) none)

def pairAt (store : AuthStore) (code clientLabel : String) (now : Int) (secret : String)
    (replacement : Replacement) : Except GatewayError IssuedToken × AuthStore :=
  match validateClientLabel clientLabel with
  | .error error => (.error error, store)
  | .ok () => match store.memory.pendingPairing with
    | none => (.error .unauthorized, store)
    | some pending =>
      if decide (pending.expiresAt ≤ now) || !credentialMatches host code pending.digest then
        (.error .unauthorized, store)
      else if config.pairedClients ≤ store.memory.clients.length then
        (.error (.config "paired client limit reached"), store)
      else
        let token := credential host secret
        let client := ⟨pairingClientId host code, clientLabel, host.sha256 token, now⟩
        replied ⟨pairingClientId host code, token⟩ (publish host store.file
          { pendingPairing := none, clients := store.memory.clients ++ [client] }
          (fun state =>
            { pendingPairing := some pending, clients := state.clients.dropLast }) replacement)

def repairPairing (store : AuthStore) (code : String) (replacingTokenDigest : Bytes32)
    (clientLabel : String) (now : Int) (secret : String) (replacement : Replacement) :
    Except GatewayError IssuedToken × AuthStore :=
  match validateClientLabel clientLabel with
  | .error error => (.error error, store)
  | .ok () => match store.memory.pendingPairing with
    | none => (.error .unauthorized, store)
    | some pending =>
      if decide (pending.expiresAt ≤ now) || !credentialMatches host code pending.digest then
        (.error .unauthorized, store)
      else match lastWithDigest replacingTokenDigest store.memory.clients with
        | none => (.error .unauthorized, store)
        | some index => match store.memory.clients[index]? with
          | none => (.error .unauthorized, store)
          | some client =>
            let token := credential host secret
            let repaired := { client with
              label := clientLabel
              digest := host.sha256 token
              createdAt := now }
            replied ⟨client.id, token⟩ (publish host store.file
              { pendingPairing := none, clients := store.memory.clients.set index repaired }
              (fun state =>
                { pendingPairing := some pending
                  clients := modifyFirst (fun other => decide (other.id = client.id))
                    (fun other => { other with
                      label := client.label
                      digest := client.digest
                      createdAt := client.createdAt }) state.clients }) replacement)

def provisionLocalClient (store : AuthStore) (secret : String) (now : Int)
    (replacement : Replacement) : Except GatewayError IssuedToken × AuthStore :=
  let token := credential host secret
  let isLocal := fun client : ClientToken => decide (client.id = localClientId)
  match store.memory.clients.find? isLocal with
  | some client => replied ⟨localClientId, token⟩ (publish host store.file
      { store.memory with clients := modifyFirst isLocal (fun other =>
          { other with digest := host.sha256 token, createdAt := now }) store.memory.clients }
      (fun state => { state with clients := modifyFirst isLocal (fun other =>
          { other with digest := client.digest, createdAt := client.createdAt }) state.clients })
      replacement)
  | none =>
    if config.pairedClients ≤ store.memory.clients.length then
      (.error (.config "paired client limit reached"), store)
    else
      let client := ⟨localClientId, localClientLabel, host.sha256 token, now⟩
      replied ⟨localClientId, token⟩ (publish host store.file
        { store.memory with clients := store.memory.clients ++ [client] }
        (fun state => { state with clients := state.clients.dropLast }) replacement)

def createPairingCode (store : AuthStore) (secret : String) (now : Int)
    (replacement : Replacement) : Except GatewayError PairingGrant × AuthStore :=
  match newPairingGrant host config secret now with
  | .error error => (.error error, store)
  | .ok grant => replied grant (publish host store.file
      { store.memory with
        pendingPairing := some ⟨host.sha256 grant.code, grant.expiresAt⟩ }
      (fun state => { state with pendingPairing := store.memory.pendingPairing }) replacement)

def authenticate (store : AuthStore) (token : String) : Except GatewayError ClientIdentity :=
  if token.isEmpty || decide (maxClientCredentialBytes < token.utf8ByteSize) then
    .error .unauthorized
  else
    let matched := store.memory.clients.foldl (fun matched client =>
      if host.sha256 token = client.digest then some client else matched) none
    match matched with
    | none => .error .unauthorized
    | some client => .ok ⟨client.id, client.label⟩

def unpairClient (store : AuthStore) (actorId clientId : String) (replacement : Replacement) :
    Except GatewayError Bool × AuthStore :=
  if actorId = clientId then (.ok false, store)
  else if !store.memory.clients.any fun client => decide (client.id = actorId) then
    (.ok false, store)
  else match store.memory.clients.findIdx? fun client => decide (client.id = clientId) with
    | none => (.ok false, store)
    | some index => match store.memory.clients[index]? with
      | none => (.ok false, store)
      | some removed => replied true (publish host store.file
          { store.memory with clients := store.memory.clients.eraseIdx index }
          (fun state => { state with clients := state.clients.insertIdx index removed })
          replacement)

def revokePairingCode (store : AuthStore) (code secret : String) (replacement : Replacement) :
    Except GatewayError Unit × AuthStore :=
  match store.memory.pendingPairing with
  | none => (.ok (), store)
  | some pending =>
    if !credentialMatches host code pending.digest then (.ok (), store)
    else publish host store.file
      { store.memory with
        pendingPairing := some ⟨host.sha256 secret, revokedPairingExpiry⟩ }
      (fun state => { state with pendingPairing := some pending }) replacement

/-- The state that `initialize_validated` saves. -/
def initialState (grant : PairingGrant) : AuthState where
  pendingPairing := some ⟨host.sha256 grant.code, grant.expiresAt⟩
  clients := []

end Operations

section Runs

variable (host : AuthHost) (config : AuthConfig)

/-- What an operation did. -/
inductive AuthEvent where
  /-- A code was created; it replaces the one before. -/
  | granted (code : String) (expiresAt : Int)
  | consumed (code clientId : String) (now : Int)
  | revoked (code : String)
  | issued (clientId token : String)
  | unpaired (clientId : String)
  deriving DecidableEq

/-- One operation of a gateway, with the secret that it generates and the end of its
publication. -/
inductive AuthOp where
  | createPairingCode (secret : String) (now : Int) (replacement : Replacement)
  /-- `pair_at`. -/
  | pair (code clientLabel : String) (now : Int) (secret : String) (replacement : Replacement)
  | repairPairing (code : String) (replacingTokenDigest : Bytes32) (clientLabel : String)
      (now : Int) (secret : String) (replacement : Replacement)
  | provisionLocalClient (secret : String) (now : Int) (replacement : Replacement)
  | unpairClient (actorId clientId : String) (replacement : Replacement)
  | revokePairingCode (code secret : String) (replacement : Replacement)
  | authenticate (token : String)
  /-- The gateway stops and opens the file again. -/
  | reopen

/-- A gateway: its store, whether it runs, and what the operations did. -/
structure AuthWorld where
  store : AuthStore
  /-- Whether the store is open. -/
  running : Bool
  /-- What the operations did, in order. -/
  log : List AuthEvent

/-- Whether the update of an operation was written. -/
def applied {α : Type} : Except GatewayError α → Bool
  | .ok _ => true
  | .error error => decide (error = .publicationApplied)

/-- The world after an operation and what it did if its update was written. -/
def AuthWorld.after {α : Type} (world : AuthWorld) (result : Except GatewayError α × AuthStore)
    (events : List AuthEvent) : AuthWorld :=
  { world with
    store := result.2
    log := if applied result.1 then world.log ++ events else world.log }

/-- The identifier of the client whose token `repair_pairing` replaces. -/
def repairedId (state : AuthState) (digest : Bytes32) : String :=
  (((lastWithDigest digest state.clients).bind fun index => state.clients[index]?).map
    (·.id)).getD ""

def unpairs (state : AuthState) (actorId clientId : String) : Bool :=
  decide (actorId ≠ clientId) && (state.clients.any fun client => decide (client.id = actorId)) &&
    state.clients.any fun client => decide (client.id = clientId)

def matchesPending (state : AuthState) (code : String) : Bool :=
  state.pendingPairing.any fun pending => credentialMatches host code pending.digest

/-- Whether an operation opens the file. -/
def AuthOp.opens : AuthOp → Bool
  | .reopen => true
  | _ => false

/-- One operation of a gateway. -/
def operateAuth (world : AuthWorld) : AuthOp → AuthWorld
  | .createPairingCode secret now replacement =>
    world.after (createPairingCode host config world.store secret now replacement)
      [.granted (credential host secret) (now + config.pairingLifetimeSeconds)]
  | .pair code clientLabel now secret replacement =>
    world.after (pairAt host config world.store code clientLabel now secret replacement)
      [.consumed code (pairingClientId host code) now,
        .issued (pairingClientId host code) (credential host secret)]
  | .repairPairing code digest clientLabel now secret replacement =>
    world.after (repairPairing host world.store code digest clientLabel now secret replacement)
      [.consumed code (repairedId world.store.memory digest) now,
        .issued (repairedId world.store.memory digest) (credential host secret)]
  | .provisionLocalClient secret now replacement =>
    world.after (provisionLocalClient host config world.store secret now replacement)
      [.issued localClientId (credential host secret)]
  | .unpairClient actorId clientId replacement =>
    world.after (unpairClient host world.store actorId clientId replacement)
      (if unpairs world.store.memory actorId clientId then [.unpaired clientId] else [])
  | .revokePairingCode code secret replacement =>
    world.after (revokePairingCode host world.store code secret replacement)
      (if matchesPending host world.store.memory code then [.revoked code] else [])
  | .authenticate _ => world
  | .reopen => match openValidated host world.store.file with
    | .ok state => { world with store := ⟨state, world.store.file⟩, running := true }
    | .error _ => { world with running := false }

/-- One step; a gateway that does not run can only open its file. -/
def stepAuth (world : AuthWorld) (operation : AuthOp) : AuthWorld :=
  if world.running || operation.opens then operateAuth host config world operation else world

def runAuth (world : AuthWorld) (operations : List AuthOp) : AuthWorld :=
  operations.foldl (stepAuth host config) world

/-- A gateway whose authentication was just initialised. -/
def initialWorld (grant : PairingGrant) : AuthWorld where
  store := ⟨initialState host grant, initialState host grant⟩
  running := true
  log := [.granted grant.code grant.expiresAt]

end Runs

end MobiusAgent.PairingStore
