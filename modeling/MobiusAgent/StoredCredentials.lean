import Mathlib.Data.String.Basic
import MobiusAgent.OrderedMaps
import MobiusAgent.PairingStore

/-!
# Stored API keys and the lifetimes handed out for them

`CredentialStore` of `config/store.rs` keeps the API keys of provider instances
in a private file. A change is made in memory first, then published, and undone
unless the file was replaced. Each record owns the sender of a channel whose
receivers are the lifetimes that `get` handed out; dropping the record revokes
them. `store_reopens` proves that memory is always what the file holds, and
`lifetime_revoked_iff` that a lifetime ends exactly when the published record
it came from changes.
-/

namespace MobiusAgent.StoredCredentials

open ProtocolEvents MessageQueue OrderedMaps PairingStore

section Records

/-- The errors of the gateway that its stores return. -/
inductive StoreError where
  /-- Invalid configuration or input. -/
  | config (message : String)
  | mobius (error : Error)
  /-- A file that does not decode. -/
  | json
  /-- A file that cannot be read or replaced. -/
  | io
  /-- The file was replaced but the directory was not synchronised. -/
  | publicationApplied
  deriving DecidableEq

/-- What the store reads in the definition of a provider. -/
structure ProviderInfo where
  apiKey : Bool
  /-- Whether it has a default endpoint. -/
  defaultBaseUrl : Bool

/-- What the store uses of other modules and packages. -/
structure CredentialHost where
  provider : String → Option ProviderInfo
  /-- Whether `BaseUrl::new` accepts a text. -/
  baseUrl : String → Bool

/-- A provider API root that was checked once. -/
def BaseUrl (host : CredentialHost) : Type := { text : String // host.baseUrl text = true }

/-- Roots can be compared. -/
instance (host : CredentialHost) : DecidableEq (BaseUrl host) :=
  inferInstanceAs (DecidableEq { text : String // host.baseUrl text = true })

/-- The fields of a credential that the file holds. -/
structure SavedCredential (host : CredentialHost) where
  provider : String
  apiKey : String
  baseUrl : Option (BaseUrl host)
  expiresAt : Option Nat
  deriving DecidableEq

/-- A credential in memory, with the sender of its channel, which is not saved. -/
structure StoredCredential (host : CredentialHost) where
  saved : SavedCredential host
  /-- The channel of the lifetimes handed out for it. -/
  revocation : Option Nat

structure ResolvedCredential where
  apiKey : String
  expiresAt : Option Nat
  revoked : Nat

/-- `serde_json` for the records of a file. -/
structure CredentialCodec (host : CredentialHost) where
  /-- `serde_json::to_vec`, or nothing when it fails. -/
  encode : OrderedMap String (SavedCredential host) → Option (List UInt8)
  /-- `serde_json::from_slice`. -/
  decode : List UInt8 → Except StoreError (OrderedMap String (SavedCredential host))

/-- Records that were encoded are decoded again. -/
def CredentialCodec.RoundTrips {host : CredentialHost} (codec : CredentialCodec host) : Prop :=
  ∀ values contents, codec.encode values = some contents → codec.decode contents = .ok values

/-- The store: the records, the file and the number of channels made so far. -/
structure CredentialStore (host : CredentialHost) where
  values : OrderedMap String (StoredCredential host)
  /-- The bytes of the file, if there is one. -/
  file : Option (List UInt8)
  nextChannel : Nat

def maxCredentialStateBytes : Nat := 256 * 1024

def maxProviderApiKeyBytes : Nat := 16 * 1024

/-- The last second of the year 9999. -/
def maxExpiry : Nat := 253402300799

end Records

section Checks

def refuse (condition : Bool) (message : String) : Except StoreError Unit :=
  if condition then .error (.config message) else .ok ()

/-- Whether a character may stand in the identifier of an instance. -/
def isInstanceCharacter (c : Char) : Bool := c.isAlphanum || c == '_' || c == '-' || c == '.'

def validateInstanceId (name : String) : Except StoreError Unit := do
  refuse (name.isEmpty || decide (256 < name.utf8ByteSize)) "provider instance ID must be 1–256 bytes"
  refuse (!name.toList.all isInstanceCharacter)
    "provider instance ID accepts only letters, digits, `_`, `-`, and `.`"

/-- `provider`: a registered provider. -/
def findProvider (host : CredentialHost) (id : String) : Except StoreError ProviderInfo :=
  match host.provider id with
  | some definition => .ok definition
  | none => .error (.mobius (.unknown ("model provider `" ++ id ++ "`")))

def validateBaseUrl {host : CredentialHost} (id : String) (definition : ProviderInfo)
    (baseUrl : Option (BaseUrl host)) : Except StoreError Unit :=
  if definition.defaultBaseUrl then .ok ()
  else if baseUrl.isSome then
    .error (.mobius (.config ("provider `" ++ id ++ "` has a fixed API endpoint")))
  else .error (.mobius (.config ("provider `" ++ id ++ "` has no API endpoint")))

/-- `u8::is_ascii_graphic`. -/
def isGraphic (c : Char) : Bool := decide (33 ≤ c.toNat) && decide (c.toNat ≤ 126)

def validateCredential (host : CredentialHost) (name : String)
    (credential : SavedCredential host) : Except StoreError Unit := do
  refuse (credential.expiresAt.any fun seconds => seconds == 0 || decide (maxExpiry < seconds))
    "credential expiry must be a valid Unix timestamp"
  validateInstanceId name
  let definition ← findProvider host credential.provider
  refuse (!definition.apiKey)
    ("provider `" ++ credential.provider ++ "` does not accept an API key")
  refuse (credential.apiKey.isEmpty ||
      decide (maxProviderApiKeyBytes < credential.apiKey.utf8ByteSize))
    ("API key must be 1–" ++ toString maxProviderApiKeyBytes ++ " bytes")
  refuse (!credential.apiKey.toList.all isGraphic)
    "API key must contain only visible ASCII characters without whitespace"
  validateBaseUrl credential.provider definition credential.baseUrl

def validateCredentialState (host : CredentialHost)
    (values : OrderedMap String (SavedCredential host)) : Except StoreError Unit :=
  values.entries.forM fun entry => validateCredential host entry.1 entry.2

end Checks

section Operations

variable {host : CredentialHost} (codec : CredentialCodec host)

/-- `publish`: what the caller is told and what the file holds afterwards. -/
def publish (file : Option (List UInt8)) (contents : List UInt8) (replacement : Replacement) :
    Except StoreError Unit × Option (List UInt8) :=
  match replacement with
  | .confirmed => (.ok (), some contents)
  | .unchanged => (.error .io, file)
  | .unconfirmed => (.error .publicationApplied, some contents)

/-- Whether the file holds what was to be published. -/
def isApplied : Except StoreError Unit → Bool
  | .ok () => true
  | .error error => error == .publicationApplied

/-- What is saved of the records. -/
def savedValues (values : OrderedMap String (StoredCredential host)) :
    OrderedMap String (SavedCredential host) := values.mapValues (·.saved)

def savePrivateMap (file : Option (List UInt8))
    (values : OrderedMap String (StoredCredential host)) (replacement : Replacement) :
    Except StoreError Unit × Option (List UInt8) :=
  match codec.encode (savedValues values) with
  | none => (.error .json, file)
  | some contents =>
    if maxCredentialStateBytes < contents.length then
      (.error (.config "provider credential state is too large"), file)
    else publish file contents replacement

/-- The records that `open` decodes: a missing file has none. -/
def readFile (file : Option (List UInt8)) :
    Except StoreError (OrderedMap String (SavedCredential host)) :=
  match file with
  | none => .ok .empty
  | some contents => do
    refuse (decide (maxCredentialStateBytes < contents.length))
      "provider credential state is too large"
    codec.decode contents

/-- The records of a file, as `open` checks them. -/
def openFile (file : Option (List UInt8)) :
    Except StoreError (OrderedMap String (SavedCredential host)) := do
  let values ← readFile codec file
  validateCredentialState host values
  return values

/-- `CredentialStore::open`. -/
def openStore (file : Option (List UInt8)) : Except StoreError (CredentialStore host) := do
  let values ← openFile codec file
  return ⟨values.mapValues fun saved => ⟨saved, none⟩, file, 0⟩

/-- The rest of `set` once the record is new: it is put in memory, saved, and taken back if the
file was not replaced. -/
def replaceCredential (store : CredentialStore host) (name : String)
    (credential : StoredCredential host) (replacement : Replacement) :
    Except StoreError Unit × CredentialStore host :=
  let previous := store.values.get name
  let values := store.values.insert name credential
  let saved := savePrivateMap codec store.file values replacement
  let kept := if isApplied saved.1 then values else match previous with
    | some previous => values.insert name previous
    | none => values.erase name
  (saved.1, { store with values := kept, file := saved.2 })

def set (store : CredentialStore host) (name providerId apiKey : String)
    (baseUrl : Option (BaseUrl host)) (expiresAt : Option Nat) (replacement : Replacement) :
    Except StoreError Unit × CredentialStore host :=
  let saved : SavedCredential host := ⟨providerId, trim apiKey, baseUrl, expiresAt⟩
  match validateCredential host name saved with
  | .error error => (.error error, store)
  | .ok () =>
    match store.values.get name with
    | some current =>
      if current.saved.provider ≠ providerId then
        (.error (.config ("provider instance `" ++ name ++ "` already belongs to `" ++
          current.saved.provider ++ "`")), store)
      else if current.saved = saved then (.ok (), store)
      else replaceCredential codec store name ⟨saved, none⟩ replacement
    | none => replaceCredential codec store name ⟨saved, none⟩ replacement

/-- `CredentialStore::get`: the first lifetime of a record makes its channel. -/
def get (store : CredentialStore host) (name providerId : String)
    (baseUrl : Option (BaseUrl host)) : Option ResolvedCredential × CredentialStore host :=
  match (store.values.get name).filter fun credential =>
      credential.saved.provider == providerId && decide (credential.saved.baseUrl = baseUrl) with
  | none => (none, store)
  | some credential =>
    let channel := credential.revocation.getD store.nextChannel
    (some ⟨credential.saved.apiKey, credential.saved.expiresAt, channel⟩,
      { store with
        values := store.values.insert name { credential with revocation := some channel }
        nextChannel := if credential.revocation.isSome then store.nextChannel
          else store.nextChannel + 1 })

def remove (store : CredentialStore host) (name : String) (replacement : Replacement) :
    Except StoreError Bool × CredentialStore host :=
  match validateInstanceId name with
  | .error error => (.error error, store)
  | .ok () =>
    match store.values.get name with
    | none => (.ok false, store)
    | some previous =>
      let values := store.values.erase name
      let saved := savePrivateMap codec store.file values replacement
      let kept := if isApplied saved.1 then values else values.insert name previous
      (saved.1.map fun _ => true, { store with values := kept, file := saved.2 })

/-- One call of the store, with the outcome of its publication. -/
inductive CredentialOp (host : CredentialHost) where
  | set (name providerId apiKey : String) (baseUrl : Option (BaseUrl host))
      (expiresAt : Option Nat) (replacement : Replacement)
  | get (name providerId : String) (baseUrl : Option (BaseUrl host))
  | remove (name : String) (replacement : Replacement)

/-- The store after one call. -/
def CredentialOp.apply (store : CredentialStore host) : CredentialOp host → CredentialStore host
  | .set name providerId apiKey baseUrl expiresAt replacement =>
    (StoredCredentials.set codec store name providerId apiKey baseUrl expiresAt replacement).2
  | .get name providerId baseUrl => (StoredCredentials.get store name providerId baseUrl).2
  | .remove name replacement => (StoredCredentials.remove codec store name replacement).2

/-- The store after a sequence of calls. -/
def run (store : CredentialStore host) (calls : List (CredentialOp host)) :
    CredentialStore host := calls.foldl (fun store call => call.apply codec store) store

/-- Whether the sender of a channel was dropped: no record owns it. -/
def isRevoked (store : CredentialStore host) (channel : Nat) : Bool :=
  !store.values.entries.any fun entry => entry.2.revocation == some channel

/-- The record of an instance in the published file. -/
def published (store : CredentialStore host) (name : String) : Option (SavedCredential host) :=
  match openFile codec store.file with
  | .ok values => values.get name
  | .error _ => none

end Operations

section Changes

variable {host : CredentialHost} {codec : CredentialCodec host} {store after : CredentialStore host}

/-- The contents that a file of some records has. -/
def Contents (codec : CredentialCodec host) (values : OrderedMap String (SavedCredential host))
    (contents : List UInt8) : Prop :=
  codec.encode values = some contents ∧ contents.length ≤ maxCredentialStateBytes

/-- What one call can do to the store. -/
inductive Change (codec : CredentialCodec host) (store : CredentialStore host) :
    CredentialStore host → Prop where
  | same : Change codec store store
  /-- Another record is published for an instance. -/
  | replaced (name : String) (saved : SavedCredential host) {contents : List UInt8}
      (hvalid : validateCredential host name saved = .ok ())
      (hother : (store.values.get name).map (·.saved) ≠ some saved)
      (hcontents : Contents codec (savedValues (store.values.insert name ⟨saved, none⟩)) contents) :
      Change codec store { store with
        values := store.values.insert name ⟨saved, none⟩
        file := some contents }
  /-- The record of an instance is removed from the file. -/
  | removed (name : String) {previous : StoredCredential host} {contents : List UInt8}
      (hfound : store.values.get name = some previous)
      (hcontents : Contents codec (savedValues (store.values.erase name)) contents) :
      Change codec store { store with
        values := store.values.erase name
        file := some contents }
  /-- A lifetime is handed out under the channel of a record. -/
  | lent (name : String) {credential : StoredCredential host}
      (hfound : store.values.get name = some credential) :
      Change codec store { store with
        values := store.values.insert name
          { credential with revocation := some (credential.revocation.getD store.nextChannel) }
        nextChannel := if credential.revocation.isSome then store.nextChannel
          else store.nextChannel + 1 }

theorem savePrivateMap_cases (codec : CredentialCodec host) (file : Option (List UInt8))
    (values : OrderedMap String (StoredCredential host)) (replacement : Replacement) :
    (isApplied (savePrivateMap codec file values replacement).1 = true ∧ ∃ contents,
      Contents codec (savedValues values) contents ∧
        (savePrivateMap codec file values replacement).2 = some contents) ∨
    (isApplied (savePrivateMap codec file values replacement).1 = false ∧
      (savePrivateMap codec file values replacement).2 = file) := by
  unfold savePrivateMap
  cases hencode : codec.encode (savedValues values) with
  | none => exact .inr ⟨rfl, rfl⟩
  | some contents =>
    dsimp only
    by_cases hlarge : maxCredentialStateBytes < contents.length
    · rw [if_pos hlarge]
      exact .inr ⟨rfl, rfl⟩
    · rw [if_neg hlarge]
      have hcontents : Contents codec (savedValues values) contents :=
        ⟨hencode, Nat.le_of_not_lt hlarge⟩
      cases replacement with
      | confirmed => exact .inl ⟨rfl, contents, hcontents, rfl⟩
      | unchanged => exact .inr ⟨rfl, rfl⟩
      | unconfirmed => exact .inl ⟨rfl, contents, hcontents, rfl⟩

theorem replaceCredential_change {name : String} {saved : SavedCredential host}
    (hvalid : validateCredential host name saved = .ok ())
    (hother : (store.values.get name).map (·.saved) ≠ some saved) (replacement : Replacement) :
    Change codec store (replaceCredential codec store name ⟨saved, none⟩ replacement).2 := by
  unfold replaceCredential
  cases savePrivateMap_cases codec store.file (store.values.insert name ⟨saved, none⟩)
      replacement with
  | inl hdone =>
    obtain ⟨happlied, contents, hcontents, hfile⟩ := hdone
    simp only [happlied, if_true, hfile]
    exact .replaced name saved hvalid hother hcontents
  | inr hfailed =>
    obtain ⟨hfailed, hfile⟩ := hfailed
    simp only [hfailed, Bool.false_eq_true, if_false, hfile]
    cases hprevious : store.values.get name with
    | none =>
      dsimp only
      rw [OrderedMap.erase_insert_of_get hprevious]
      exact .same
    | some previous =>
      dsimp only
      rw [OrderedMap.insert_insert_of_get hprevious]
      exact .same

theorem set_change (codec : CredentialCodec host) (store : CredentialStore host)
    (name providerId apiKey : String) (baseUrl : Option (BaseUrl host)) (expiresAt : Option Nat)
    (replacement : Replacement) : Change codec store
      (set codec store name providerId apiKey baseUrl expiresAt replacement).2 := by
  unfold set
  dsimp only
  cases hvalid : validateCredential host name ⟨providerId, trim apiKey, baseUrl, expiresAt⟩ with
  | error error => exact .same
  | ok =>
    cases hcurrent : store.values.get name with
    | none => exact replaceCredential_change hvalid (by simp [hcurrent]) replacement
    | some current =>
      dsimp only
      by_cases hprovider : current.saved.provider ≠ providerId
      · rw [if_pos hprovider]
        exact .same
      · rw [if_neg hprovider]
        by_cases hsame : current.saved = ⟨providerId, trim apiKey, baseUrl, expiresAt⟩
        · rw [if_pos hsame]
          exact .same
        · rw [if_neg hsame]
          exact replaceCredential_change hvalid (by simpa [hcurrent] using hsame) replacement

theorem get_change (codec : CredentialCodec host) (store : CredentialStore host)
    (name providerId : String) (baseUrl : Option (BaseUrl host)) :
    Change codec store (get store name providerId baseUrl).2 := by
  unfold get
  cases hfound : (store.values.get name).filter fun credential =>
      credential.saved.provider == providerId && decide (credential.saved.baseUrl = baseUrl) with
  | none => exact .same
  | some credential => exact .lent name (Option.filter_eq_some_iff.mp hfound).1

theorem remove_change (codec : CredentialCodec host) (store : CredentialStore host)
    (name : String) (replacement : Replacement) :
    Change codec store (remove codec store name replacement).2 := by
  unfold remove
  cases validateInstanceId name with
  | error error => exact .same
  | ok =>
    cases hfound : store.values.get name with
    | none => exact .same
    | some previous =>
      dsimp only
      cases savePrivateMap_cases codec store.file (store.values.erase name) replacement with
      | inl hdone =>
        obtain ⟨happlied, contents, hcontents, hfile⟩ := hdone
        rw [happlied, if_pos rfl, hfile]
        exact .removed name hfound hcontents
      | inr hfailed =>
        obtain ⟨hfailed, hfile⟩ := hfailed
        rw [hfailed, if_neg Bool.false_ne_true, hfile, OrderedMap.insert_erase_of_get hfound]
        exact .same

theorem apply_change (codec : CredentialCodec host) (store : CredentialStore host)
    (call : CredentialOp host) : Change codec store (call.apply codec store) := by
  cases call with
  | set name providerId apiKey baseUrl expiresAt replacement =>
    exact set_change codec store name providerId apiKey baseUrl expiresAt replacement
  | get name providerId baseUrl => exact get_change codec store name providerId baseUrl
  | remove name replacement => exact remove_change codec store name replacement

end Changes

section Files

variable {host : CredentialHost} {codec : CredentialCodec host}

theorem forM_ok_iff {α : Type} {items : List α} {check : α → Except StoreError Unit} :
    items.forM check = .ok () ↔ ∀ item ∈ items, check item = .ok () := by
  induction items with
  | nil => exact ⟨fun _ _ hmem => (nomatch hmem), fun _ => rfl⟩
  | cons item rest ih =>
    rw [List.forall_mem_cons, ← ih]
    change (check item >>= fun _ => rest.forM check) = .ok () ↔ _
    cases check item with
    | error error =>
      constructor
      · intro h
        cases h
      · intro h
        cases h.1
    | ok => exact ⟨fun h => ⟨rfl, h⟩, fun h => h.2⟩

variable {values : OrderedMap String (SavedCredential host)}

theorem validateCredentialState_iff :
    validateCredentialState host values = .ok () ↔ ∀ name saved,
      values.get name = some saved → validateCredential host name saved = .ok () := by
  unfold validateCredentialState
  rw [forM_ok_iff]
  constructor
  · intro h name saved hfound
    exact h (name, saved) (mem_of_find hfound)
  · intro h entry hmem
    exact h entry.1 entry.2 (find_of_mem values.ascending hmem)

theorem openFile_encode (hcodec : codec.RoundTrips) {contents : List UInt8}
    (hcontents : Contents codec values contents)
    (hvalid : validateCredentialState host values = .ok ()) :
    openFile codec (some contents) = .ok values := by
  obtain ⟨hencode, hsmall⟩ := hcontents
  have hrefuse : refuse (decide (maxCredentialStateBytes < contents.length))
      "provider credential state is too large" = .ok () := by
    rw [refuse, decide_eq_false (Nat.not_lt.mpr hsmall)]
    rfl
  have hread : readFile codec (some contents) = .ok values := by
    rw [readFile, hrefuse]
    exact hcodec values contents hencode
  rw [openFile, hread]
  change (validateCredentialState host values >>= fun _ => Except.ok values) = _
  rw [hvalid]
  rfl

theorem validate_of_openFile {file : Option (List UInt8)} (h : openFile codec file = .ok values) :
    validateCredentialState host values = .ok () := by
  unfold openFile at h
  cases hread : readFile codec file with
  | error error =>
    rw [hread] at h
    cases h
  | ok read =>
    rw [hread] at h
    change (validateCredentialState host read >>= fun _ => Except.ok read) = _ at h
    cases hvalid : validateCredentialState host read with
    | error error =>
      rw [hvalid] at h
      cases h
    | ok =>
      rw [hvalid] at h
      cases h
      exact hvalid

end Files

section Invariant

variable {host : CredentialHost} {codec : CredentialCodec host} {store after : CredentialStore host}

/-- What holds between any two calls. -/
structure Inv (codec : CredentialCodec host) (store : CredentialStore host) : Prop where
  opens : openFile codec store.file = .ok (savedValues store.values)
  made : ∀ name credential channel, store.values.get name = some credential →
    credential.revocation = some channel → channel < store.nextChannel
  owned : ∀ name other credential found channel, store.values.get name = some credential →
    store.values.get other = some found → credential.revocation = some channel →
      found.revocation = some channel → name = other

theorem get_savedValues (values : OrderedMap String (StoredCredential host)) (name : String) :
    (savedValues values).get name = (values.get name).map (·.saved) :=
  OrderedMap.get_mapValues values _ name

theorem savedValues_lent {name : String} {credential : StoredCredential host}
    (hfound : store.values.get name = some credential) (channel : Option Nat) :
    savedValues (store.values.insert name { credential with revocation := channel }) =
      savedValues store.values := by
  refine OrderedMap.ext_get fun other => ?_
  rw [get_savedValues, get_savedValues, OrderedMap.get_insert]
  by_cases hsame : other = name
  · rw [if_pos hsame, hsame, hfound]
    rfl
  · rw [if_neg hsame]

theorem Inv.change (hcodec : codec.RoundTrips) (h : Inv codec store)
    (hchange : Change codec store after) : Inv codec after := by
  have hvalues := validateCredentialState_iff.mp (validate_of_openFile h.opens)
  cases hchange with
  | same => exact h
  | replaced name saved hvalid hother hcontents =>
    constructor
    case opens =>
      refine openFile_encode hcodec hcontents (validateCredentialState_iff.mpr ?_)
      intro other found hfound
      rw [get_savedValues, OrderedMap.get_insert] at hfound
      by_cases hsame : other = name
      · rw [if_pos hsame] at hfound
        cases hfound
        rw [hsame]
        exact hvalid
      · rw [if_neg hsame, ← get_savedValues] at hfound
        exact hvalues other found hfound
    case made =>
      intro other credential channel hfound hchannel
      rw [OrderedMap.get_insert] at hfound
      by_cases hsame : other = name
      · rw [if_pos hsame] at hfound
        cases hfound
        cases hchannel
      · rw [if_neg hsame] at hfound
        exact h.made other credential channel hfound hchannel
    case owned =>
      intro first second credential found channel hfirst hsecond hchannel hsame
      rw [OrderedMap.get_insert] at hfirst hsecond
      by_cases hthis : first = name
      · rw [if_pos hthis] at hfirst
        cases hfirst
        cases hchannel
      · by_cases hthat : second = name
        · rw [if_pos hthat] at hsecond
          cases hsecond
          cases hsame
        · rw [if_neg hthis] at hfirst
          rw [if_neg hthat] at hsecond
          exact h.owned first second credential found channel hfirst hsecond hchannel hsame
  | removed name hprevious hcontents =>
    constructor
    case opens =>
      refine openFile_encode hcodec hcontents (validateCredentialState_iff.mpr ?_)
      intro other found hfound
      rw [get_savedValues, OrderedMap.get_erase] at hfound
      by_cases hsame : other = name
      · rw [if_pos hsame] at hfound
        cases hfound
      · rw [if_neg hsame, ← get_savedValues] at hfound
        exact hvalues other found hfound
    case made =>
      intro other credential channel hfound hchannel
      rw [OrderedMap.get_erase] at hfound
      by_cases hsame : other = name
      · rw [if_pos hsame] at hfound
        cases hfound
      · rw [if_neg hsame] at hfound
        exact h.made other credential channel hfound hchannel
    case owned =>
      intro first second credential found channel hfirst hsecond hchannel hsame
      rw [OrderedMap.get_erase] at hfirst hsecond
      by_cases hthis : first = name
      · rw [if_pos hthis] at hfirst
        cases hfirst
      · by_cases hthat : second = name
        · rw [if_pos hthat] at hsecond
          cases hsecond
        · rw [if_neg hthis] at hfirst
          rw [if_neg hthat] at hsecond
          exact h.owned first second credential found channel hfirst hsecond hchannel hsame
  | @lent name credential hfound =>
    have hnext : store.nextChannel ≤ (if credential.revocation.isSome then store.nextChannel
        else store.nextChannel + 1) := by
      by_cases hsome : credential.revocation.isSome
      · rw [if_pos hsome]
      · rw [if_neg hsome]
        exact Nat.le_succ _
    -- The channel lent is the record's own, or one that no record has.
    have hlent : ∀ channel, credential.revocation.getD store.nextChannel = channel →
        credential.revocation = some channel ∨
          credential.revocation = none ∧ channel = store.nextChannel := by
      intro channel hchannel
      cases hrevocation : credential.revocation with
      | none =>
        rw [hrevocation] at hchannel
        exact .inr ⟨rfl, hchannel.symm⟩
      | some own =>
        rw [hrevocation] at hchannel
        exact .inl (congrArg some hchannel)
    constructor
    case opens =>
      rw [savedValues_lent hfound]
      exact h.opens
    case made =>
      intro other found channel hother hchannel
      rw [OrderedMap.get_insert] at hother
      by_cases hsame : other = name
      · rw [if_pos hsame] at hother
        cases hother
        cases hlent channel (Option.some.inj hchannel) with
        | inl hown => exact Nat.lt_of_lt_of_le (h.made name credential channel hfound hown) hnext
        | inr hnew =>
          obtain ⟨hnone, rfl⟩ := hnew
          rw [hnone]
          exact Nat.lt_succ_self _
      · rw [if_neg hsame] at hother
        exact Nat.lt_of_lt_of_le (h.made other found channel hother hchannel) hnext
    case owned =>
      -- Another record with the channel lent had it before.
      have hone : ∀ other found channel, other ≠ name → store.values.get other = some found →
          credential.revocation.getD store.nextChannel = channel →
            found.revocation = some channel → False := by
        intro other found channel hne hother hchannel hfoundChannel
        cases hlent channel hchannel with
        | inl hown =>
          exact hne (h.owned other name found credential channel hother hfound hfoundChannel hown)
        | inr hnew =>
          have hlt := h.made other found channel hother hfoundChannel
          rw [hnew.2] at hlt
          exact Nat.lt_irrefl _ hlt
      intro first second one two channel hfirst hsecond hchannel hsame
      rw [OrderedMap.get_insert] at hfirst hsecond
      by_cases hthis : first = name
      · by_cases hthat : second = name
        · rw [hthis, hthat]
        · rw [if_pos hthis] at hfirst
          rw [if_neg hthat] at hsecond
          cases hfirst
          exact (hone second two channel hthat hsecond (Option.some.inj hchannel) hsame).elim
      · rw [if_neg hthis] at hfirst
        by_cases hthat : second = name
        · rw [if_pos hthat] at hsecond
          cases hsecond
          exact (hone first one channel hthis hfirst (Option.some.inj hsame) hchannel).elim
        · rw [if_neg hthat] at hsecond
          exact h.owned first second one two channel hfirst hsecond hchannel hsame

theorem inv_openStore {file : Option (List UInt8)} (h : openStore codec file = .ok store) :
    Inv codec store := by
  unfold openStore at h
  cases hread : openFile codec file with
  | error error =>
    rw [hread] at h
    cases h
  | ok values =>
    rw [hread] at h
    cases h
    have hnone : ∀ name credential, (values.mapValues fun saved =>
        (⟨saved, none⟩ : StoredCredential host)).get name = some credential →
          credential.revocation = none := by
      intro name credential hfound
      rw [OrderedMap.get_mapValues] at hfound
      obtain ⟨saved, -, rfl⟩ := Option.map_eq_some_iff.mp hfound
      rfl
    constructor
    case opens =>
      refine hread.trans (congrArg Except.ok (OrderedMap.ext_get fun name => ?_))
      rw [get_savedValues, OrderedMap.get_mapValues, Option.map_map]
      exact Option.map_id'.symm
    case made =>
      intro name credential channel hfound hchannel
      rw [hnone name credential hfound] at hchannel
      cases hchannel
    case owned =>
      intro name other credential found channel hfound _ hchannel _
      rw [hnone name credential hfound] at hchannel
      cases hchannel

theorem Inv.run (hcodec : codec.RoundTrips) (h : Inv codec store)
    (calls : List (CredentialOp host)) : Inv codec (StoredCredentials.run codec store calls) := by
  induction calls generalizing store with
  | nil => exact h
  | cons call rest ih => exact ih (h.change hcodec (apply_change codec store call))

theorem store_reopens (hcodec : codec.RoundTrips) {file : Option (List UInt8)}
    (hopen : openStore codec file = .ok store) (calls : List (CredentialOp host)) :
    (openStore codec (StoredCredentials.run codec store calls).file).map
        (fun reopened => savedValues reopened.values) =
      .ok (savedValues (StoredCredentials.run codec store calls).values) := by
  have hinv := (inv_openStore hopen).run hcodec calls
  rw [openStore, hinv.opens]
  refine congrArg Except.ok (OrderedMap.ext_get fun name => ?_)
  rw [get_savedValues, OrderedMap.get_mapValues, Option.map_map]
  exact Option.map_id'

end Invariant

section Lifetimes

variable {host : CredentialHost} {codec : CredentialCodec host} {store after : CredentialStore host}
  {name : String} {channel : Nat}

/-- The record of an instance owns a channel. -/
def Owns (store : CredentialStore host) (name : String) (channel : Nat) : Prop :=
  ∃ credential, store.values.get name = some credential ∧ credential.revocation = some channel

theorem isRevoked_iff : isRevoked store channel = true ↔ ∀ name, ¬Owns store name channel := by
  unfold isRevoked
  rw [Bool.not_eq_true', List.any_eq_false]
  constructor
  · intro h name howns
    obtain ⟨credential, hfound, hchannel⟩ := howns
    exact h (name, credential) (mem_of_find hfound) (by simpa using hchannel)
  · intro h entry hmem hchannel
    exact h entry.1 ⟨entry.2, find_of_mem store.values.ascending hmem, by simpa using hchannel⟩

theorem Inv.published (h : Inv codec store) (name : String) :
    published codec store name = (store.values.get name).map (·.saved) := by
  rw [StoredCredentials.published, h.opens]
  exact get_savedValues store.values name

theorem Owns.replaced_other {other : String} (howns : Owns store name channel)
    (hne : name ≠ other) (credential : StoredCredential host) (file : Option (List UInt8)) :
    Owns { store with values := store.values.insert other credential, file := file }
      name channel := by
  obtain ⟨found, hfound, hchannel⟩ := howns
  refine ⟨found, ?_, hchannel⟩
  rw [OrderedMap.get_insert, if_neg hne]
  exact hfound

/-- A call either leaves a published record and its channel, or replaces or removes the record
and drops the channel. -/
theorem Change.lifetime (hcodec : codec.RoundTrips) (h : Inv codec store)
    (howns : Owns store name channel) (hchange : Change codec store after) :
    (published codec after name = published codec store name ∧ Owns after name channel) ∨
      (published codec after name ≠ published codec store name ∧
        isRevoked after channel = true) := by
  have hafter := h.change hcodec hchange
  rw [hafter.published, h.published, isRevoked_iff]
  obtain ⟨credential, hfound, hchannel⟩ := howns
  -- The only record with the channel is this one.
  have honly : ∀ other found, store.values.get other = some found →
      found.revocation = some channel → other = name := fun other found hother hsame =>
    h.owned other name found credential channel hother hfound hsame hchannel
  cases hchange with
  | same => exact .inl ⟨rfl, credential, hfound, hchannel⟩
  | replaced other saved _ hother _ =>
    by_cases hsame : name = other
    · subst hsame
      right
      constructor
      · rw [OrderedMap.get_insert, if_pos rfl]
        exact fun heq => hother heq.symm
      · rintro other ⟨found, hget, hown⟩
        rw [OrderedMap.get_insert] at hget
        by_cases hthis : other = name
        · rw [if_pos hthis] at hget
          cases hget
          cases hown
        · rw [if_neg hthis] at hget
          exact hthis (honly other found hget hown)
    · left
      constructor
      · rw [OrderedMap.get_insert, if_neg hsame]
      · exact Owns.replaced_other ⟨credential, hfound, hchannel⟩ hsame _ _
  | @removed other previous _ hprevious _ =>
    by_cases hsame : name = other
    · subst hsame
      right
      constructor
      · rw [OrderedMap.get_erase, if_pos rfl, hfound]
        exact fun heq => nomatch heq
      · rintro other ⟨found, hget, hown⟩
        rw [OrderedMap.get_erase] at hget
        by_cases hthis : other = name
        · rw [if_pos hthis] at hget
          cases hget
        · rw [if_neg hthis] at hget
          exact hthis (honly other found hget hown)
    · left
      constructor
      · rw [OrderedMap.get_erase, if_neg hsame]
      · refine ⟨credential, ?_, hchannel⟩
        rw [OrderedMap.get_erase, if_neg hsame]
        exact hfound
  | @lent other found hother =>
    left
    by_cases hsame : name = other
    · subst hsame
      rw [hfound] at hother
      cases hother
      constructor
      · rw [OrderedMap.get_insert, if_pos rfl, hfound]
        rfl
      · refine ⟨{ credential with revocation := some channel }, ?_, rfl⟩
        rw [OrderedMap.get_insert, if_pos rfl, hchannel]
        rfl
    · constructor
      · rw [OrderedMap.get_insert, if_neg hsame]
      · refine ⟨credential, ?_, hchannel⟩
        rw [OrderedMap.get_insert, if_neg hsame]
        exact hfound

theorem Change.made (hchange : Change codec store after) (hmade : channel < store.nextChannel) :
    channel < after.nextChannel := by
  cases hchange with
  | same | replaced _ _ _ _ _ | removed _ _ _ => exact hmade
  | @lent _ credential _ =>
    dsimp only
    by_cases hsome : credential.revocation.isSome
    · rw [if_pos hsome]
      exact hmade
    · rw [if_neg hsome]
      exact Nat.lt_succ_of_lt hmade

theorem Change.revoked (hchange : Change codec store after)
    (hmade : channel < store.nextChannel) (hrevoked : isRevoked store channel = true) :
    isRevoked after channel = true := by
  rw [isRevoked_iff] at hrevoked ⊢
  have hfree : ∀ other found, store.values.get other = some found →
      found.revocation ≠ some channel := fun other found hget hown =>
    hrevoked other ⟨found, hget, hown⟩
  cases hchange with
  | same => exact hrevoked
  | replaced name saved _ _ _ =>
    rintro other ⟨found, hget, hown⟩
    rw [OrderedMap.get_insert] at hget
    by_cases hthis : other = name
    · rw [if_pos hthis] at hget
      cases hget
      cases hown
    · rw [if_neg hthis] at hget
      exact hfree other found hget hown
  | removed name _ _ =>
    rintro other ⟨found, hget, hown⟩
    rw [OrderedMap.get_erase] at hget
    by_cases hthis : other = name
    · rw [if_pos hthis] at hget
      cases hget
    · rw [if_neg hthis] at hget
      exact hfree other found hget hown
  | @lent name credential hfound =>
    rintro other ⟨found, hget, hown⟩
    rw [OrderedMap.get_insert] at hget
    by_cases hthis : other = name
    · rw [if_pos hthis] at hget
      cases hget
      cases hrevocation : credential.revocation with
      | none =>
        rw [hrevocation] at hown
        have hnew : store.nextChannel = channel := Option.some.inj hown
        omega
      | some own =>
        rw [hrevocation] at hown
        exact hfree name credential hfound (hrevocation.trans hown)
    · rw [if_neg hthis] at hget
      exact hfree other found hget hown

theorem run_revoked (calls : List (CredentialOp host)) (hmade : channel < store.nextChannel)
    (hrevoked : isRevoked store channel = true) :
    isRevoked (run codec store calls) channel = true := by
  induction calls generalizing store with
  | nil => exact hrevoked
  | cons call rest ih =>
    have hchange := apply_change codec store call
    exact ih (hchange.made hmade) (hchange.revoked hmade hrevoked)

/-- Over a run, the channel of a record is dropped exactly when some call changed the record in
the published file. -/
theorem run_lifetime (hcodec : codec.RoundTrips) (h : Inv codec store)
    (howns : Owns store name channel) (calls : List (CredentialOp host)) :
    isRevoked (run codec store calls) channel = true ↔ ∃ before call rest,
      calls = before ++ call :: rest ∧
        published codec (run codec store (before ++ [call])) name ≠
          published codec (run codec store before) name := by
  induction calls generalizing store with
  | nil =>
    constructor
    · intro hrevoked
      exact absurd howns (isRevoked_iff.mp hrevoked name)
    · rintro ⟨before, call, rest, hsplit, -⟩
      cases before with
      | nil | cons first later => cases hsplit
  | cons call rest ih =>
    have hchange := apply_change codec store call
    cases hchange.lifetime hcodec h howns with
    | inl hleft =>
      obtain ⟨hsame, howns⟩ := hleft
      change isRevoked (run codec (call.apply codec store) rest) channel = true ↔ _
      rw [ih (h.change hcodec hchange) howns]
      constructor
      · rintro ⟨before, later, after, hsplit, hdiffers⟩
        exact ⟨call :: before, later, after, by rw [hsplit]; rfl, hdiffers⟩
      · rintro ⟨before, later, after, hsplit, hdiffers⟩
        cases before with
        | nil =>
          cases hsplit
          exact absurd hsame hdiffers
        | cons first before =>
          cases hsplit
          exact ⟨before, later, after, rfl, hdiffers⟩
    | inr hdropped =>
      obtain ⟨hdiffers, hrevoked⟩ := hdropped
      obtain ⟨credential, hfound, hchannel⟩ := howns
      have hmade := h.made name credential channel hfound hchannel
      constructor
      · intro _
        exact ⟨[], call, rest, rfl, hdiffers⟩
      · intro _
        exact run_revoked rest (hchange.made hmade) hrevoked

theorem get_owns {providerId : String} {baseUrl : Option (BaseUrl host)}
    {resolved : ResolvedCredential}
    (hget : (get store name providerId baseUrl).1 = some resolved) :
    Owns (get store name providerId baseUrl).2 name resolved.revoked ∧
      ∃ credential, store.values.get name = some credential ∧
        credential.saved.apiKey = resolved.apiKey := by
  unfold get at hget ⊢
  cases hfound : (store.values.get name).filter fun credential =>
      credential.saved.provider == providerId && decide (credential.saved.baseUrl = baseUrl) with
  | none =>
    rw [hfound] at hget
    cases hget
  | some credential =>
    rw [hfound] at hget
    cases hget
    constructor
    · refine ⟨{ credential with
        revocation := some (credential.revocation.getD store.nextChannel) }, ?_, rfl⟩
      dsimp only
      rw [OrderedMap.get_insert, if_pos rfl]
    · exact ⟨credential, (Option.filter_eq_some_iff.mp hfound).1, rfl⟩

theorem published_get (providerId : String) (baseUrl : Option (BaseUrl host)) (other : String) :
    published codec (get store name providerId baseUrl).2 other = published codec store other := by
  have hfile : (get store name providerId baseUrl).2.file = store.file := by
    unfold get
    cases (store.values.get name).filter fun credential =>
        credential.saved.provider == providerId && decide (credential.saved.baseUrl = baseUrl) with
    | none | some credential => rfl
  rw [published, hfile, published]

/-- A lifetime that `get` handed out is revoked exactly when a later call replaced or removed
the record of its instance in the published file. -/
theorem lifetime_revoked_iff (hcodec : codec.RoundTrips) (h : Inv codec store)
    {providerId : String} {baseUrl : Option (BaseUrl host)} {resolved : ResolvedCredential}
    (hget : (get store name providerId baseUrl).1 = some resolved)
    (calls : List (CredentialOp host)) :
    isRevoked (run codec (get store name providerId baseUrl).2 calls) resolved.revoked = true ↔
      ∃ before call rest, calls = before ++ call :: rest ∧
        published codec (run codec (get store name providerId baseUrl).2 (before ++ [call])) name ≠
          published codec (run codec (get store name providerId baseUrl).2 before) name :=
  run_lifetime hcodec (h.change hcodec (get_change codec store name providerId baseUrl))
    (get_owns hget).1 calls

end Lifetimes

end MobiusAgent.StoredCredentials
