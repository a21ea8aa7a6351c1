import MobiusAgent.StoredCredentials

/-!
# Daily usage in the published configuration

`ConfigStore::record_usage` of `config/store.rs` adds the tokens of one request
to the counter of its day, prunes the days that fell out of the history and
publishes the whole configuration. What was staged is taken back unless the
file was replaced. `rollback_restores` proves that nothing of it is left then,
and `usage_reopens` that memory is what the file holds after every run.
-/

namespace MobiusAgent.UsageRecords

open ProtocolEvents MessageQueue HookRecords OrderedMaps PairingStore StoredCredentials

section Source

/-- The counters of one day, by provider. -/
abbrev DayUsage := OrderedMap String TokenUsage

structure UsageHistory where
  days : OrderedMap Nat DayUsage
  deriving DecidableEq

/-- `UsageUpdate`: the values changed by one publication. -/
structure UsageUpdate where
  day : Nat
  createdDay : Bool
  previous : Option TokenUsage
  expired : OrderedMap Nat DayUsage

def secondsPerDay : Nat := 86400

def usageHistoryDays : Nat := 52 * 7

def maxConfigBytes : Nat := 1024 * 1024

/-- `unix_day` of a time in seconds. -/
def unixDay (now : Int) : Except StoreError Nat :=
  if now < 0 then
    .error (.config ("system clock is before the Unix epoch: " ++
      "second time provided was later than self"))
  else .ok (now.toNat / secondsPerDay)

def usageNonnegative (usage : TokenUsage) : Bool :=
  decide (0 ≤ usage.inputTokens) && decide (0 ≤ usage.cachedInputTokens) &&
    decide (0 ≤ usage.cacheWriteInputTokens) && decide (0 ≤ usage.outputTokens) &&
    decide (0 ≤ usage.reasoningOutputTokens) && decide (0 ≤ usage.totalTokens)

def validateUsage (usage : TokenUsage) : Except StoreError Unit :=
  refuse (!usageNonnegative usage) "token usage cannot be negative"

def validateUsageProvider (provider : String) : Except StoreError Unit :=
  refuse (isBlank provider || provider != trim provider || decide (256 < provider.utf8ByteSize) ||
      provider.toList.any isControl)
    "usage provider ID must be canonical and 1–256 bytes"

/-- The counter of a provider with the usage added. -/
def bucket (history : UsageHistory) (day : Nat) (provider : String) (usage : TokenUsage) :
    Option TokenUsage :=
  match (history.days.get day).bind (·.get provider) with
  | none => ({} : TokenUsage).checkedSum usage
  | some counter => counter.checkedSum usage

/-- The days of `stage` once the counter is known, and what it replaced. -/
def stageDay (history : UsageHistory) (day : Nat) (provider : String) (counter : TokenUsage) :
    UsageUpdate × UsageHistory :=
  let createdDay := (history.days.get day).isNone
  let providers := (history.days.get day).getD .empty
  let days := history.days.insert day (providers.insert provider counter)
  let firstDay := day - (usageHistoryDays - 1)
  if days.firstKey.any fun stored => decide (stored < firstDay) then
    (⟨day, createdDay, providers.get provider, days.keep fun stored => decide (stored < firstDay)⟩,
      ⟨days.keep fun stored => decide (firstDay ≤ stored)⟩)
  else (⟨day, createdDay, providers.get provider, .empty⟩, ⟨days⟩)

/-- `UsageHistory::stage`, with the history it leaves. -/
def stage (history : UsageHistory) (provider : String) (usage : TokenUsage) (now : Int) :
    Except StoreError (Option UsageUpdate) × UsageHistory :=
  match validateUsageProvider provider with
  | .error error => (.error error, history)
  | .ok () => match validateUsage usage with
    | .error error => (.error error, history)
    | .ok () =>
      if usage = {} then (.ok none, history)
      else match unixDay now with
        | .error error => (.error error, history)
        | .ok day => match bucket history day provider usage with
          | none => (.error (.config "daily token usage overflow"), history)
          | some counter =>
            let staged := stageDay history day provider counter
            (.ok (some staged.1), staged.2)

def rollback (update : UsageUpdate) (history : UsageHistory) (provider : String) : UsageHistory :=
  let days := if update.createdDay then history.days.erase update.day
    else match history.days.get update.day with
      | none => history.days
      | some providers => match update.previous with
        | some previous => history.days.insert update.day (providers.insert provider previous)
        | none => history.days.insert update.day (providers.erase provider)
  ⟨days.append update.expired⟩

variable {Settings : Type}

/-- The configuration of a gateway: its settings and the usage. -/
structure GatewayConfig (Settings : Type) where
  settings : Settings
  usage : UsageHistory
  deriving DecidableEq

/-- What the store uses of other modules and packages. -/
structure ConfigHost (Settings : Type) where
  path : String
  /-- The checks of the settings, with that of the token of a named tunnel. -/
  validateSettings : Settings → Except StoreError Unit
  /-- `toml::to_string_pretty`, with the text of its error. -/
  encode : GatewayConfig Settings → Except String (List UInt8)
  /-- `toml::from_slice`, with the text of its error. -/
  decode : List UInt8 → Except String (GatewayConfig Settings)

/-- A configuration that was encoded is decoded again. -/
def ConfigHost.RoundTrips (host : ConfigHost Settings) : Prop :=
  ∀ config contents, host.encode config = .ok contents → host.decode contents = .ok config

variable (host : ConfigHost Settings)

/-- The loops of `validate` over the usage. -/
def validateHistory (history : UsageHistory) : Except StoreError Unit :=
  history.days.entries.forM fun day => day.2.entries.forM fun entry => do
    validateUsageProvider entry.1
    validateUsage entry.2

def validate (config : GatewayConfig Settings) : Except StoreError Unit := do
  host.validateSettings config.settings
  validateHistory config.usage

/-- The configuration that `open` decodes. -/
def decodeConfig (file : Option (List UInt8)) : Except StoreError (GatewayConfig Settings) :=
  match file with
  | none => .error .io
  | some contents => do
    refuse (decide (maxConfigBytes < contents.length)) "gateway configuration is too large"
    match host.decode contents with
    | .ok config => .ok config
    | .error error => .error (.config ("gateway configuration at " ++ host.path ++
        " could not be read; preserve the state directory and correct the configuration or " ++
        "follow the release upgrade instructions: " ++ error))

/-- `ConfigStore::open`. -/
def openConfig (file : Option (List UInt8)) : Except StoreError (GatewayConfig Settings) := do
  let config ← decodeConfig host file
  validate host config
  return config

def publishConfig (file : Option (List UInt8)) (config : GatewayConfig Settings)
    (replacement : Replacement) : Except StoreError Unit × Option (List UInt8) :=
  match host.encode config with
  | .error error => (.error (.config ("cannot encode gateway configuration: " ++ error)), file)
  | .ok contents =>
    if maxConfigBytes < contents.length then
      (.error (.config "gateway configuration is too large"), file)
    else publish file contents replacement

/-- The configuration in memory and the bytes of its file. -/
structure ConfigState (Settings : Type) where
  config : GatewayConfig Settings
  file : Option (List UInt8)

def recordUsage (state : ConfigState Settings) (provider : String) (usage : TokenUsage) (now : Int)
    (replacement : Replacement) : Except StoreError Unit × ConfigState Settings :=
  match stage state.config.usage provider usage now with
  | (.error error, history) => (.error error, { state with config.usage := history })
  | (.ok none, history) => (.ok (), { state with config.usage := history })
  | (.ok (some update), history) =>
    let config := { state.config with usage := history }
    let published := publishConfig host state.file config replacement
    if isApplied published.1 then (published.1, ⟨config, published.2⟩)
    else (published.1, ⟨{ config with usage := rollback update history provider }, published.2⟩)

/-- One call of `record_usage`, with the outcome of its publication. -/
structure UsageCall where
  provider : String
  usage : TokenUsage
  now : Int
  replacement : Replacement

/-- The configuration after a sequence of calls. -/
def record (state : ConfigState Settings) (calls : List UsageCall) : ConfigState Settings :=
  calls.foldl (fun state call =>
    (recordUsage host state call.provider call.usage call.now call.replacement).2) state

end Source

section Staging

variable {history staged : UsageHistory} {provider : String} {usage : TokenUsage} {now : Int}

/-- Taking a day back restores the history, with the days that were pruned. -/
theorem rollback_stageDay (history : UsageHistory) (day : Nat) (provider : String)
    (counter : TokenUsage) :
    rollback (stageDay history day provider counter).1 (stageDay history day provider counter).2
      provider = history := by
  let providers := (history.days.get day).getD .empty
  -- Without pruning, the day is removed or its counter written back.
  have hrestored : ∀ days : OrderedMap Nat DayUsage,
      days.get day = some (providers.insert provider counter) →
      ∀ key, (if (history.days.get day).isNone then days.erase day
        else match days.get day with
          | none => days
          | some providers' => match providers.get provider with
            | some previous => days.insert day (providers'.insert provider previous)
            | none => days.insert day (providers'.erase provider)).get key =
          if key = day then history.days.get day else days.get key := by
    intro days hday key
    cases hget : history.days.get day with
    | none =>
      rw [Option.isNone_none, if_pos rfl, OrderedMap.get_erase]
    | some old =>
      have hproviders : providers = old := by
        simp only [providers, hget, Option.getD_some]
      rw [Option.isNone_some, if_neg Bool.false_ne_true, hday]
      dsimp only
      cases hprevious : providers.get provider with
      | none =>
        dsimp only
        rw [OrderedMap.erase_insert_of_get hprevious, OrderedMap.get_insert, hproviders]
      | some previous =>
        dsimp only
        rw [OrderedMap.insert_insert_of_get hprevious, OrderedMap.get_insert, hproviders]
  have heq : ∀ {first second : UsageHistory}, first.days = second.days → first = second := by
    rintro ⟨_⟩ ⟨_⟩ rfl
    rfl
  refine heq (OrderedMap.ext_get fun key => ?_)
  have hfirst : day - (usageHistoryDays - 1) ≤ day := Nat.sub_le _ _
  unfold stageDay
  dsimp only
  generalize day - (usageHistoryDays - 1) = firstDay at hfirst ⊢
  by_cases hprune : ((history.days.insert day (providers.insert provider counter)).firstKey.any
      fun stored => decide (stored < firstDay)) = true
  · rw [if_pos hprune]
    have hday : ((history.days.insert day (providers.insert provider counter)).keep
        fun stored => decide (firstDay ≤ stored)).get day =
          some (providers.insert provider counter) := by
      rw [OrderedMap.get_keep, if_pos (decide_eq_true hfirst), OrderedMap.get_insert, if_pos rfl]
    unfold rollback
    dsimp only
    rw [OrderedMap.get_append, hrestored _ hday, OrderedMap.get_keep, OrderedMap.get_keep,
      OrderedMap.get_insert]
    simp only [decide_eq_true_eq]
    by_cases hsame : key = day
    · have hnot : ¬key < firstDay := by omega
      rw [if_neg hnot, if_pos hsame, Option.none_or, hsame]
    · rw [if_neg hsame, if_neg hsame]
      by_cases hexpired : key < firstDay
      · rw [if_pos hexpired, if_neg (Nat.not_le.mpr hexpired), Option.or_none]
      · rw [if_neg hexpired, if_pos (Nat.le_of_not_lt hexpired), Option.none_or]
  · rw [if_neg hprune]
    have hday : (history.days.insert day (providers.insert provider counter)).get day =
        some (providers.insert provider counter) := by
      rw [OrderedMap.get_insert, if_pos rfl]
    unfold rollback
    dsimp only
    rw [OrderedMap.get_append, OrderedMap.get_empty, Option.none_or, hrestored _ hday,
      OrderedMap.get_insert]
    by_cases hsame : key = day
    · rw [if_pos hsame, hsame]
    · rw [if_neg hsame, if_neg hsame]

/-- What `stage` can do: refuse and leave the history, find nothing to add, or stage a day. -/
inductive Staged (history : UsageHistory) (provider : String) (usage : TokenUsage) :
    Except StoreError (Option UsageUpdate) × UsageHistory → Prop where
  | refused (error : StoreError) : Staged history provider usage (.error error, history)
  | nothing : Staged history provider usage (.ok none, history)
  | day (day : Nat) {counter : TokenUsage}
      (hprovider : validateUsageProvider provider = .ok ()) (husage : validateUsage usage = .ok ())
      (hcounter : bucket history day provider usage = some counter) :
      Staged history provider usage (.ok (some (stageDay history day provider counter).1),
        (stageDay history day provider counter).2)

theorem stage_cases (history : UsageHistory) (provider : String) (usage : TokenUsage) (now : Int) :
    Staged history provider usage (stage history provider usage now) := by
  unfold stage
  cases hprovider : validateUsageProvider provider with
  | error error => exact .refused error
  | ok =>
    cases husage : validateUsage usage with
    | error error => exact .refused error
    | ok =>
      dsimp only
      by_cases hzero : usage = {}
      · rw [if_pos hzero]
        exact .nothing
      · rw [if_neg hzero]
        cases unixDay now with
        | error error => exact .refused error
        | ok day =>
          dsimp only
          cases hcounter : bucket history day provider usage with
          | none => exact .refused _
          | some counter => exact .day day hprovider husage hcounter

end Staging

section Validity

variable {history : UsageHistory} {provider : String} {usage : TokenUsage}

def ValidCounter (provider : String) (usage : TokenUsage) : Prop :=
  validateUsageProvider provider = .ok () ∧ validateUsage usage = .ok ()

/-- A history whose counters are all valid. -/
def ValidHistory (history : UsageHistory) : Prop :=
  ∀ day providers provider usage, history.days.get day = some providers →
    providers.get provider = some usage → ValidCounter provider usage

theorem validateHistory_iff : validateHistory history = .ok () ↔ ValidHistory history := by
  have hone : ∀ entry : String × TokenUsage, (do
      validateUsageProvider entry.1
      validateUsage entry.2) = Except.ok () ↔ ValidCounter entry.1 entry.2 := by
    intro entry
    unfold ValidCounter
    cases validateUsageProvider entry.1 with
    | error error =>
      constructor
      · intro h
        cases h
      · intro h
        cases h.1
    | ok => exact ⟨fun h => ⟨rfl, h⟩, fun h => h.2⟩
  unfold validateHistory
  simp only [forM_ok_iff, hone]
  constructor
  · intro h day providers provider usage hday hprovider
    exact h (day, providers) (mem_of_find hday) (provider, usage) (mem_of_find hprovider)
  · intro h day hday entry hentry
    exact h day.1 day.2 entry.1 entry.2 (find_of_mem history.days.ascending hday)
      (find_of_mem day.2.ascending hentry)

theorem validateUsage_sum {first second : TokenUsage} (hfirst : validateUsage first = .ok ())
    (hsecond : validateUsage second = .ok ()) : validateUsage (first.sum second) = .ok () := by
  have hvalid : ∀ usage : TokenUsage, validateUsage usage = .ok () ↔
      0 ≤ usage.inputTokens ∧ 0 ≤ usage.cachedInputTokens ∧ 0 ≤ usage.cacheWriteInputTokens ∧
        0 ≤ usage.outputTokens ∧ 0 ≤ usage.reasoningOutputTokens ∧ 0 ≤ usage.totalTokens := by
    intro usage
    rw [validateUsage, refuse]
    cases hnonnegative : usageNonnegative usage with
    | false =>
      constructor
      · intro h
        cases h
      · intro h
        have hall : usageNonnegative usage = true := by simp [usageNonnegative, h]
        rw [hnonnegative] at hall
        cases hall
    | true =>
      refine ⟨fun _ => ?_, fun _ => rfl⟩
      simpa [usageNonnegative, and_assoc] using hnonnegative
  rw [hvalid] at hfirst hsecond ⊢
  simp only [TokenUsage.sum]
  omega

theorem bucket_valid (h : ValidHistory history) (husage : validateUsage usage = .ok ())
    {day : Nat} {counter : TokenUsage} (hcounter : bucket history day provider usage = some counter) :
    validateUsage counter = .ok () := by
  unfold bucket at hcounter
  cases hold : (history.days.get day).bind (·.get provider) with
  | none =>
    rw [hold] at hcounter
    rw [TokenUsage.checkedSum_eq_some hcounter]
    exact validateUsage_sum rfl husage
  | some old =>
    rw [hold] at hcounter
    obtain ⟨providers, hday, hprovider⟩ := Option.bind_eq_some_iff.mp hold
    rw [TokenUsage.checkedSum_eq_some hcounter]
    exact validateUsage_sum (h day providers provider old hday hprovider).2 husage

theorem stageDay_valid (h : ValidHistory history) {day : Nat} {counter : TokenUsage}
    (hcounter : ValidCounter provider counter) :
    ValidHistory (stageDay history day provider counter).2 := by
  have hinserted : ∀ key providers other found,
      (history.days.insert day (((history.days.get day).getD .empty).insert provider counter)).get
        key = some providers → providers.get other = some found → ValidCounter other found := by
    intro key providers other found hkey hfound
    rw [OrderedMap.get_insert] at hkey
    by_cases hday : key = day
    · rw [if_pos hday] at hkey
      cases hkey
      rw [OrderedMap.get_insert] at hfound
      by_cases hprovider : other = provider
      · rw [if_pos hprovider] at hfound
        cases hfound
        rw [hprovider]
        exact hcounter
      · rw [if_neg hprovider] at hfound
        cases hold : history.days.get day with
        | none =>
          rw [hold] at hfound
          cases hfound
        | some old =>
          rw [hold] at hfound
          exact h day old other found hold hfound
    · rw [if_neg hday] at hkey
      exact h key providers other found hkey hfound
  intro key providers other found hkey hfound
  unfold stageDay at hkey
  dsimp only at hkey
  generalize day - (usageHistoryDays - 1) = firstDay at hkey
  by_cases hprune : ((history.days.insert day
      (((history.days.get day).getD .empty).insert provider counter)).firstKey.any
        fun stored => decide (stored < firstDay)) = true
  · rw [if_pos hprune, OrderedMap.get_keep] at hkey
    by_cases hkept : decide (firstDay ≤ key) = true
    · rw [if_pos hkept] at hkey
      exact hinserted key providers other found hkey hfound
    · rw [if_neg hkept] at hkey
      cases hkey
  · rw [if_neg hprune] at hkey
    exact hinserted key providers other found hkey hfound

end Validity

section Publication

variable {Settings : Type} {host : ConfigHost Settings} {state : ConfigState Settings}
  {config : GatewayConfig Settings}

theorem validate_iff : validate host config = .ok () ↔
    host.validateSettings config.settings = .ok () ∧ ValidHistory config.usage := by
  rw [validate, ← validateHistory_iff]
  cases host.validateSettings config.settings with
  | error error =>
    constructor
    · intro h
      cases h
    · intro h
      cases h.1
  | ok => exact ⟨fun h => ⟨rfl, h⟩, fun h => h.2⟩

theorem validate_of_openConfig {file : Option (List UInt8)} (h : openConfig host file = .ok config) :
    validate host config = .ok () := by
  unfold openConfig at h
  cases hread : decodeConfig host file with
  | error error =>
    rw [hread] at h
    cases h
  | ok read =>
    rw [hread] at h
    change (validate host read >>= fun _ => Except.ok read) = _ at h
    cases hvalid : validate host read with
    | error error =>
      rw [hvalid] at h
      cases h
    | ok =>
      rw [hvalid] at h
      cases h
      exact hvalid

theorem openConfig_encode (hcodec : host.RoundTrips) {contents : List UInt8}
    (hencode : host.encode config = .ok contents) (hsmall : contents.length ≤ maxConfigBytes)
    (hvalid : validate host config = .ok ()) :
    openConfig host (some contents) = .ok config := by
  have hrefuse : refuse (decide (maxConfigBytes < contents.length))
      "gateway configuration is too large" = .ok () := by
    rw [refuse, decide_eq_false (Nat.not_lt.mpr hsmall)]
    rfl
  have hread : decodeConfig host (some contents) = .ok config := by
    rw [decodeConfig, hrefuse, hcodec config contents hencode]
    rfl
  rw [openConfig, hread]
  change (validate host config >>= fun _ => Except.ok config) = _
  rw [hvalid]
  rfl

theorem publishConfig_cases (host : ConfigHost Settings) (file : Option (List UInt8))
    (config : GatewayConfig Settings) (replacement : Replacement) :
    (isApplied (publishConfig host file config replacement).1 = true ∧ ∃ contents,
      host.encode config = .ok contents ∧ contents.length ≤ maxConfigBytes ∧
        (publishConfig host file config replacement).2 = some contents) ∨
    (isApplied (publishConfig host file config replacement).1 = false ∧
      (publishConfig host file config replacement).2 = file) := by
  unfold publishConfig
  cases hencode : host.encode config with
  | error error => exact .inr ⟨rfl, rfl⟩
  | ok contents =>
    dsimp only
    by_cases hlarge : maxConfigBytes < contents.length
    · rw [if_pos hlarge]
      exact .inr ⟨rfl, rfl⟩
    · rw [if_neg hlarge]
      have hsmall := Nat.le_of_not_lt hlarge
      cases replacement with
      | confirmed => exact .inl ⟨rfl, contents, rfl, hsmall, rfl⟩
      | unchanged => exact .inr ⟨rfl, rfl⟩
      | unconfirmed => exact .inl ⟨rfl, contents, rfl, hsmall, rfl⟩

theorem recordUsage_opens (hcodec : host.RoundTrips)
    (h : openConfig host state.file = .ok state.config) (call : UsageCall) :
    openConfig host
        (recordUsage host state call.provider call.usage call.now call.replacement).2.file =
      .ok (recordUsage host state call.provider call.usage call.now call.replacement).2.config := by
  obtain ⟨hsettings, hhistory⟩ := validate_iff.mp (validate_of_openConfig h)
  unfold recordUsage
  have hcases := stage_cases state.config.usage call.provider call.usage call.now
  generalize stage state.config.usage call.provider call.usage call.now = result at hcases
  cases hcases with
  | refused error | nothing => exact h
  | @day day counter hprovider husage hcounter =>
    dsimp only
    have hstaged : ValidHistory (stageDay state.config.usage day call.provider counter).2 :=
      stageDay_valid hhistory ⟨hprovider, bucket_valid hhistory husage hcounter⟩
    cases publishConfig_cases host state.file
        { state.config with usage := (stageDay state.config.usage day call.provider counter).2 }
        call.replacement with
    | inl hdone =>
      obtain ⟨happlied, contents, hencode, hsmall, hfile⟩ := hdone
      rw [if_pos happlied, hfile]
      exact openConfig_encode hcodec hencode hsmall (validate_iff.mpr ⟨hsettings, hstaged⟩)
    | inr hfailed =>
      obtain ⟨hfailed, hfile⟩ := hfailed
      rw [if_neg (by rw [hfailed]; exact Bool.false_ne_true), hfile, rollback_stageDay]
      exact h

theorem usage_reopens (hcodec : host.RoundTrips)
    (h : openConfig host state.file = .ok state.config) (calls : List UsageCall) :
    openConfig host (record host state calls).file = .ok (record host state calls).config := by
  induction calls generalizing state with
  | nil => exact h
  | cons call rest ih => exact ih (recordUsage_opens hcodec h call)

end Publication

section Results

variable {host : CredentialHost} {Settings : Type}

/-- After every run of the credential store the file opens again, to what memory holds. -/
def CredentialsReopen (codec : CredentialCodec host) : Prop :=
  ∀ (file : Option (List UInt8)) (store : CredentialStore host)
    (calls : List (CredentialOp host)), openStore codec file = .ok store →
      (openStore codec (run codec store calls).file).map
          (fun reopened => savedValues reopened.values) =
        .ok (savedValues (run codec store calls).values)

/-- A lifetime is revoked when, and only when, a call after `get` changed the record that it
came from in the published file. -/
def LifetimesExact (codec : CredentialCodec host) : Prop :=
  ∀ (file : Option (List UInt8)) (store : CredentialStore host)
    (earlier later : List (CredentialOp host)) (name providerId : String)
    (baseUrl : Option (BaseUrl host)) (resolved : ResolvedCredential),
    openStore codec file = .ok store →
      (get (run codec store earlier) name providerId baseUrl).1 = some resolved →
        let lent := (get (run codec store earlier) name providerId baseUrl).2
        (published codec lent name).map (·.apiKey) = some resolved.apiKey ∧
          (isRevoked (run codec lent later) resolved.revoked = true ↔
            ∃ before call rest, later = before ++ call :: rest ∧
              published codec (run codec lent (before ++ [call])) name ≠
                published codec (run codec lent before) name)

/-- After every run of `record_usage` the configuration opens again, to what memory holds. -/
def UsageReopens (configHost : ConfigHost Settings) : Prop :=
  ∀ (state : ConfigState Settings) (calls : List UsageCall),
    openConfig configHost state.file = .ok state.config →
      openConfig configHost (record configHost state calls).file =
        .ok (record configHost state calls).config

/-- A staged usage is taken back without a trace, and a refused one leaves none. -/
def StagingExact : Prop :=
  ∀ (history : UsageHistory) (provider : String) (usage : TokenUsage) (now : Int),
    match stage history provider usage now with
    | (.ok (some update), staged) => rollback update staged provider = history
    | (.ok none, staged) => staged = history
    | (.error _, staged) => staged = history

/-- Credentials and usage in memory are those of the published files, lifetimes end with the
published records they came from, and staged usage can be taken back. -/
theorem published_state_exact {codec : CredentialCodec host} (hcodec : codec.RoundTrips)
    {configHost : ConfigHost Settings} (hconfig : configHost.RoundTrips) :
    CredentialsReopen codec ∧ LifetimesExact codec ∧ UsageReopens configHost ∧ StagingExact := by
  refine ⟨fun file store calls hopen => store_reopens hcodec hopen calls, ?_,
    fun state calls hopen => usage_reopens hconfig hopen calls, ?_⟩
  · intro file store earlier later name providerId baseUrl resolved hopen hget
    have hinv := (inv_openStore hopen).run hcodec earlier
    refine ⟨?_, lifetime_revoked_iff hcodec hinv hget later⟩
    obtain ⟨credential, hfound, hkey⟩ := (get_owns hget).2
    rw [published_get, hinv.published, hfound]
    exact congrArg some hkey
  · intro history provider usage now
    have hcases := stage_cases history provider usage now
    generalize stage history provider usage now = result at hcases
    cases hcases with
    | refused error | nothing => rfl
    | day day _ _ _ => exact rollback_stageDay history day provider _

/-- One provider, which takes an API key and has a default endpoint. -/
def keyHost : CredentialHost where
  provider id := if id = "openai" then some ⟨true, true⟩ else none
  baseUrl _ := false

def keyRecord (key : String) : OrderedMap String (SavedCredential keyHost) :=
  OrderedMap.empty.insert "main" ⟨"openai", key, none, none⟩

def bytes (text : String) : List UInt8 := text.toList.map fun c => c.toNat.toUInt8

def keyFile (key : String) : List UInt8 :=
  bytes ("\x7b\"main\":\x7b\"provider\":\"openai\",\"api_key\":\"" ++ key ++
    "\",\"base_url\":null,\"expires_at\":null\x7d\x7d")

/-- The files of two keys. -/
def keyCodec : CredentialCodec keyHost where
  encode values :=
    if values = keyRecord "sk-one" then some (keyFile "sk-one")
    else if values = keyRecord "sk-two" then some (keyFile "sk-two")
    else none
  decode contents :=
    if contents = keyFile "sk-one" then .ok (keyRecord "sk-one")
    else if contents = keyFile "sk-two" then .ok (keyRecord "sk-two")
    else .error .json

theorem keyCodec_roundTrips : keyCodec.RoundTrips := by
  intro values contents hencode
  have htwo : keyFile "sk-two" ≠ keyFile "sk-one" := by decide +kernel
  unfold keyCodec at hencode ⊢
  dsimp only at hencode ⊢
  by_cases hfirst : values = keyRecord "sk-one"
  · rw [if_pos hfirst] at hencode
    cases hencode
    rw [if_pos rfl, hfirst]
  · rw [if_neg hfirst] at hencode
    by_cases hsecond : values = keyRecord "sk-two"
    · rw [if_pos hsecond] at hencode
      cases hencode
      rw [if_neg htwo, if_pos rfl, hsecond]
    · rw [if_neg hsecond] at hencode
      cases hencode

/-- The file of a configuration without usage, after its settings. -/
def settingsFile : List UInt8 := bytes "version = 29\nlisten = \"127.0.0.1:7377\"\n\n[usage.days]\n"

/-- A configuration without usage. -/
def settingsHost : ConfigHost Unit where
  path := "gateway.toml"
  validateSettings _ := .ok ()
  encode config := if config = ⟨(), ⟨.empty⟩⟩ then .ok settingsFile else .error "unsupported value"
  decode contents :=
    if contents = settingsFile then .ok ⟨(), ⟨.empty⟩⟩ else .error "unsupported value"

theorem settingsHost_roundTrips : settingsHost.RoundTrips := by
  intro config contents hencode
  unfold settingsHost at hencode ⊢
  dsimp only at hencode ⊢
  by_cases hempty : config = ⟨(), ⟨.empty⟩⟩
  · rw [if_pos hempty] at hencode
    cases hencode
    rw [if_pos rfl, hempty]
  · rw [if_neg hempty] at hencode
    cases hencode

/-- A key that is set and lent out outlives a replacement that fails, and not one that is
published without a synchronised directory. -/
theorem published_state_exact_key :
    (CredentialsReopen keyCodec ∧ LifetimesExact keyCodec ∧ UsageReopens settingsHost ∧
      StagingExact) ∧
    let replace (outcome : Replacement) : CredentialOp keyHost :=
      .set "main" "openai" "sk-two" none none outcome
    let lent := get (set keyCodec ⟨.empty, none, 0⟩ "main" "openai" "sk-one" none none
      .confirmed).2 "main" "openai" none
    lent.1.map (·.revoked) = some 0 ∧
      isRevoked (run keyCodec lent.2 [replace .unchanged]) 0 = false ∧
      isRevoked (run keyCodec lent.2 [replace .unconfirmed]) 0 = true :=
  ⟨published_state_exact keyCodec_roundTrips settingsHost_roundTrips, by decide +kernel⟩

end Results

end MobiusAgent.UsageRecords
