import MobiusAgent.HookDelivery

/-!
# The catalog of Bots

The operations of `bots.rs` on the Bots themselves: the built-in Bot is seeded,
Bots are created, renamed and configured, and a deletion is recorded before it
runs and cleared after it. Together with the operations on routines they write
the catalog after the rules that span records were checked; the check of every
record happens only when the catalog is read again.
-/

namespace MobiusAgent.BotCatalog

open JsonValue ProtocolEvents CheckpointRecords CheckpointValidation MessageQueue HookRecords
open RoutineSchedules HookStore RoutineCatalog HookDispatch RoutinePolling RoutineRuns DecimalTexts

section Handles

def maxHandleBytes : Nat := 64

def userHandle : String := "user"

/-- One character of the name in `next_handle`, with the handle so far and whether a separator
is due. -/
def handleStep (acc : List Char × Bool) (c : Char) : List Char × Bool :=
  if c.isAlphanum then
    let separated := if acc.2 && !acc.1.isEmpty && decide (acc.1.length < maxHandleBytes) then
      acc.1 ++ ['-'] else acc.1
    (if separated.length < maxHandleBytes then separated ++ [c.toLower] else separated, false)
  else (acc.1, true)

/-- `trim_end_matches('-')`. -/
def trimDashes (text : List Char) : List Char := (text.reverse.dropWhile (· == '-')).reverse

def baseHandle (name : String) : List Char :=
  let base := trimDashes (name.toList.foldl handleStep ([], false)).1
  if base.isEmpty then "bot".toList else base

/-- Whether a handle belongs to the user or to another Bot. -/
def isTaken (state : BotState) (id handle : String) : Bool :=
  handle == userHandle || state.bots.any fun bot => decide (bot.id ≠ id) && bot.handle == handle

/-- A handle with a number; all its characters have one byte. -/
def numberedHandle (base : List Char) (index : Nat) : String :=
  let suffix := '-' :: (toString index).toList
  String.ofList (trimDashes (base.take (maxHandleBytes - suffix.length)) ++ suffix)

/-- The loop of `next_handle` over the numbers of 64 bits. -/
def numberHandle (state : BotState) (base : List Char) (id : String) :
    Nat → Nat → Option String
  | 0, _ => none
  | fuel + 1, index =>
    if u64Max < index then none
    else if isTaken state id (numberedHandle base index) then
      numberHandle state base id fuel (index + 1)
    else some (numberedHandle base index)

/-- `next_handle`: one number more than there are handles finds a free one. -/
def nextHandle (state : BotState) (name id : String) : Option String :=
  let base := baseHandle name
  if isTaken state id (String.ofList base) then
    numberHandle state base id (state.bots.length + 2) 2
  else some (String.ofList base)

end Handles

section Sessions

/-- What the checkpoint store tells of a session. -/
structure SessionSummary where
  sessionId : SessionId
  parentSessionId : Option SessionId
  ownerId : String

/-- One pass of `session_tree_ids` over the sessions. -/
def growOnce (sessions : List SessionSummary) (seen : List SessionId) : List SessionId :=
  sessions.foldl (fun seen session =>
    if seen.contains session.sessionId || !session.parentSessionId.any seen.contains then seen
    else seen ++ [session.sessionId]) seen

/-- The loop of `session_tree_ids`, which ends when a pass finds nothing. -/
def growTree (sessions : List SessionSummary) : Nat → List SessionId → List SessionId
  | 0, seen => seen
  | fuel + 1, seen =>
    let grown := growOnce sessions seen
    if grown.length = seen.length then seen else growTree sessions fuel grown

/-- `session_tree_ids`: a pass that is not the last finds a session, so there are no more passes
than sessions. -/
def sessionTreeIds (root : SessionId) (sessions : List SessionSummary) :
    Option (List SessionId) :=
  if sessions.any fun session => session.sessionId == root then
    some (growTree sessions sessions.length [root]).reverse
  else none

/-- The first of equal sessions. -/
def distinctSessions (ids : List SessionId) : List SessionId :=
  ids.foldl (fun seen id => if seen.contains id then seen else seen ++ [id]) []

def sessionTrees (roots : List SessionId) (sessions : List SessionSummary) : List SessionId :=
  distinctSessions (roots.filterMap fun root => sessionTreeIds root sessions).flatten

def botSessionRoots (botId : String) (sessions : List SessionSummary) : List SessionId :=
  let owned := (sessions.filter fun session => session.ownerId == botId).map (·.sessionId)
  (sessions.filter fun session => owned.contains session.sessionId &&
    !session.parentSessionId.any owned.contains).map (·.sessionId)

end Sessions

section Operations

variable (host : Host)

/-- A configuration that passed `validate_bot_config` or the check of the Bot defaults. -/
def ValidatedConfig : Type := { config : Json // host.validateStored config = .ok () }

/-- `validate_state` and `save` at the end of `update_locked`. -/
def saveState (store : BotStore) (state : BotState) : Except Error BotStore := do
  validateState state
  let row ← catalogJson host state
  return { store with database := { store.database with catalog := some row } }

/-- The guard of `update`. -/
def rejectBotChange (state : BotState) : Check :=
  rejectIf state.pendingBotDeletion.isSome
    (.config "Bot deletion recovery must finish before changing Bot state")

/-- The display name of the built-in Bot. -/
def mobiusName : String := "Mobius"

/-- The description of the built-in Bot. -/
def mobiusDescription : String :=
  "You are möbius, a concise coding agent. Inspect the real code path before editing, make the " ++
    "smallest focused change, and preserve unrelated work."

def seedDefault (store : BotStore) (config : ValidatedConfig host) (id : Uuid host) :
    Except Error BotStore :=
  match store.database.catalog with
  | some _ => .ok store
  | none => saveState host store
      { bots := [⟨id.1, mobiusHandle, mobiusName, mobiusDescription, 1, config.1⟩] }

def claimHandle (state : BotState) (name id : String) : Except Error String :=
  match nextHandle state name id with
  | some handle => .ok handle
  | none => .error (.config "the Bot handle suffix space is unbounded")

def createBot (store : BotStore) (name description : String) (config : ValidatedConfig host)
    (id : Uuid host) : Except Error BotStore := do
  let name ← validateName name
  let description ← validateDescription description
  let state ← freshState host store.database
  rejectBotChange state
  let handle ← claimHandle state name id.1
  saveState host store { state with
    bots := state.bots ++ [⟨id.1, handle, name, description, 1, config.1⟩] }

/-- A Bot after `update_bot`; the built-in Bot keeps its handle. -/
def StoredBot.renamed (bot : StoredBot) (handle name description : String) (revision : Nat)
    (config : Json) : StoredBot :=
  { bot with
    handle := if bot.name ≠ name ∧ bot.handle ≠ mobiusHandle then handle else bot.handle
    name := name
    description := description
    revision := revision
    config := config }

/-- `find_bot_mut`. -/
def findBot (state : BotState) (id : String) : Except Error (Nat × StoredBot) :=
  match state.bots.zipIdx.find? fun entry => decide (entry.1.id = id) with
  | some (bot, index) => .ok (index, bot)
  | none => .error (.config ("unknown Bot `" ++ id ++ "`"))

def updateBot (store : BotStore) (id name description : String) (revision : Nat)
    (config : ValidatedConfig host) : Except Error BotStore := do
  let name ← validateName name
  let description ← validateDescription description
  let state ← freshState host store.database
  rejectBotChange state
  let handle ← claimHandle state name id
  let found ← findBot state id
  rejectIf (decide (checkedAdd found.2.revision 1 ≠ some revision))
    (.config ("Bot configuration revision changed from " ++ toString (revision - 1) ++ " to " ++
      toString found.2.revision))
  saveState host store { state with
    bots := state.bots.set found.1 (StoredBot.renamed found.2 handle name description revision
      config.1) }

def checkDeletable (bot : StoredBot) (expectedRevision : Nat) : Check := do
  rejectIf (bot.handle == mobiusHandle) (.config "the built-in @mobius Bot cannot be deleted")
  rejectIf (decide (bot.revision ≠ expectedRevision))
    (.config ("Bot configuration revision changed from " ++ toString expectedRevision ++ " to " ++
      toString bot.revision))

/-- Whether two recorded deletions are equal. -/
def sameIntent (first second : PendingBotDeletion) : Bool :=
  first.botId == second.botId && first.expectedRevision == second.expectedRevision &&
    first.sessionRoots == second.sessionRoots && first.sessionIds == second.sessionIds &&
    first.instructionPaths == second.instructionPaths

/-- `BotStore::prepare_bot_deletion` and `BotStore::record_bot_deletion` under one state lock, for
the sessions that the checkpoint store lists. -/
def recordBotDeletion (store : BotStore) (botId : String) (expectedRevision : Nat)
    (lockFree : String → Bool) (sessions : List SessionSummary) : Except Error BotStore := do
  let state ← freshState host store.database
  let found ← findBot state botId
  checkDeletable found.2 expectedRevision
  let owned := state.routines.filter fun routine => decide (routine.botId = botId)
  owned.forM fun routine => rejectIf (!lockFree routine.id)
    (.config ("routine " ++ routine.id ++ " is currently running"))
  owned.forM fun routine => (readRoutineInstructions host store.files routine).map fun _ => ()
  let roots := botSessionRoots botId sessions
  let intent : PendingBotDeletion := ⟨botId, expectedRevision, roots, sessionTrees roots sessions,
    owned.map (·.instructions)⟩
  rejectIf (state.pendingBotDeletion.any fun pending => !sameIntent pending intent)
    (.config "another Bot deletion is awaiting recovery")
  saveState host store { state with pendingBotDeletion := some intent }

def clearBotDeletion (store : BotStore) (botId : String) : Except Error BotStore := do
  let state ← freshState host store.database
  match state.pendingBotDeletion with
  | none => .error (.config "Bot deletion recovery is not pending")
  | some pending => do
    rejectIf (decide (pending.botId ≠ botId))
      (.config "a different Bot deletion is awaiting recovery")
    saveState host store { state with pendingBotDeletion := none }

/-- The operations that write the catalog. -/
inductive CatalogOp where
  /-- The built-in Bot is seeded. -/
  | seed (config : ValidatedConfig host) (id : Uuid host)
  | createBot (name description : String) (config : ValidatedConfig host) (id : Uuid host)
  | updateBot (id name description : String) (revision : Nat) (config : ValidatedConfig host)
  | recordDeletion (botId : String) (expectedRevision : Nat) (lockFree : String → Bool)
      (sessions : List SessionSummary)
  /-- A Bot is deleted with its routines and runs. -/
  | deleteBot (botId : String) (expectedRevision : Nat) (routineIds instructions : List String)
  | clearDeletion (botId : String)
  /-- The sources of sessions are closed. -/
  | close (events : List HookEvent)
  /-- A routine is created, changed, paused, resumed or deleted, or the timers are polled. -/
  | routine (operation : RoutineOp host)

def CatalogOp.apply (store : BotStore) : CatalogOp host → Except Error BotStore
  | .seed config id => seedDefault host store config id
  | .createBot name description config id =>
    BotCatalog.createBot host store name description config id
  | .updateBot id name description revision config =>
    BotCatalog.updateBot host store id name description revision config
  | .recordDeletion botId expectedRevision lockFree sessions =>
    recordBotDeletion host store botId expectedRevision lockFree sessions
  | .deleteBot botId expectedRevision routineIds instructions =>
    HookDispatch.deleteBot host store botId expectedRevision routineIds instructions
  | .clearDeletion botId => clearBotDeletion host store botId
  | .close events => (closeSessionSources host store.database events).map fun database =>
      { store with database := database }
  | .routine operation => operation.apply host store

/-- The store after an operation; one that fails changes nothing. -/
def CatalogOp.step (store : BotStore) (operation : CatalogOp host) : BotStore :=
  match operation.apply host store with
  | .ok after => after
  | .error _ => store

def runCatalog (store : BotStore) (operations : List (CatalogOp host)) : BotStore :=
  operations.foldl (CatalogOp.step host) store

/-- The time that an operation reads from the clock. -/
def clockOf : CatalogOp host → Option Int
  | .routine (.create _ _ _ _ _ _ _ now) => some now
  | .routine (.update _ _ _ _ _ _ _ _ now) => some now
  | .routine (.setEnabled _ _ _ _ _ now) => some now
  | .routine (.delete _ _ _ _ _ now) => some now
  | .routine (.poll now) => some now
  | _ => none

end Operations

section Names

def isHandleCharacter (c : Char) : Bool := c.isLower || c.isDigit || c == '_' || c == '-'

theorem toLower_handle {c : Char} (h : c.isAlphanum = true) :
    isHandleCharacter c.toLower = true := by
  unfold Char.isAlphanum Char.isAlpha at h
  unfold isHandleCharacter
  cases hupper : c.isUpper with
  | true =>
    have hlower : c.toLower.isLower = true := by
      unfold Char.isUpper at hupper
      rw [decide_eq_true_eq] at hupper
      unfold Char.toLower Char.isLower
      rw [dif_pos hupper]
      have hlow : 65 ≤ c.val.toNat := UInt32.le_iff_toNat_le.mp hupper.1
      have hhigh : c.val.toNat ≤ 90 := UInt32.le_iff_toNat_le.mp hupper.2
      have hval : (c.val + ('a'.val - 'A'.val)).toNat = c.val.toNat + 32 := by
        rw [UInt32.toNat_add]
        have hdiff : ('a'.val - 'A'.val).toNat = 32 := rfl
        rw [hdiff]
        omega
      rw [Bool.and_eq_true, decide_eq_true_eq, decide_eq_true_eq]
      constructor
      · refine UInt32.le_iff_toNat_le.mpr ?_
        show 97 ≤ (c.val + ('a'.val - 'A'.val)).toNat
        omega
      · refine UInt32.le_iff_toNat_le.mpr ?_
        show (c.val + ('a'.val - 'A'.val)).toNat ≤ 122
        omega
    rw [hlower]
    rfl
  | false =>
    have hsame : c.toLower = c := by
      unfold Char.toLower
      rw [dif_neg]
      intro hletter
      unfold Char.isUpper at hupper
      exact absurd hletter (of_decide_eq_false hupper)
    rw [hsame]
    rw [hupper, Bool.false_or] at h
    rw [h]
    rfl

/-- What a handle is made of. -/
def Plain (text : List Char) : Prop := ∀ c ∈ text, isHandleCharacter c = true

theorem handleStep_plain {acc : List Char × Bool} {c : Char}
    (h : Plain acc.1 ∧ acc.1.length ≤ maxHandleBytes) :
    Plain (handleStep acc c).1 ∧ (handleStep acc c).1.length ≤ maxHandleBytes := by
  obtain ⟨hplain, hlength⟩ := h
  unfold handleStep
  split
  · rename_i hletter
    have hseparated : Plain (if acc.2 && !acc.1.isEmpty && decide (acc.1.length < maxHandleBytes)
        then acc.1 ++ ['-'] else acc.1) ∧ (if acc.2 && !acc.1.isEmpty &&
        decide (acc.1.length < maxHandleBytes) then acc.1 ++ ['-'] else acc.1).length ≤
        maxHandleBytes := by
      split
      · rename_i hdue
        rw [Bool.and_eq_true, decide_eq_true_eq] at hdue
        constructor
        · intro other hother
          cases List.mem_append.mp hother with
          | inl hold => exact hplain other hold
          | inr hdash =>
            rw [List.mem_singleton.mp hdash]
            rfl
        · rw [List.length_append, List.length_singleton]
          exact hdue.2
      · exact ⟨hplain, hlength⟩
    dsimp only
    generalize (if acc.2 && !acc.1.isEmpty && decide (acc.1.length < maxHandleBytes)
      then acc.1 ++ ['-'] else acc.1) = separated at hseparated ⊢
    split
    · rename_i hshort
      constructor
      · intro other hother
        cases List.mem_append.mp hother with
        | inl hold => exact hseparated.1 other hold
        | inr hnew =>
          rw [List.mem_singleton.mp hnew]
          exact toLower_handle hletter
      · rw [List.length_append, List.length_singleton]
        exact hshort
    · exact hseparated
  · exact ⟨hplain, hlength⟩

theorem foldl_handleStep_plain {name : List Char} {acc : List Char × Bool}
    (h : Plain acc.1 ∧ acc.1.length ≤ maxHandleBytes) :
    Plain (name.foldl handleStep acc).1 ∧
      (name.foldl handleStep acc).1.length ≤ maxHandleBytes := by
  induction name generalizing acc with
  | nil => exact h
  | cons c rest ih => exact ih (handleStep_plain h)

theorem trimDashes_sublist (text : List Char) : (trimDashes text).Sublist text := by
  have hpart : (text.reverse.dropWhile (· == '-')).Sublist text.reverse :=
    List.dropWhile_sublist _
  have hback := hpart.reverse
  rw [List.reverse_reverse] at hback
  exact hback

theorem baseHandle_plain (name : String) : Plain (baseHandle name) ∧
    (baseHandle name).length ≤ maxHandleBytes ∧ baseHandle name ≠ [] := by
  have hloop := @foldl_handleStep_plain name.toList ([], false)
    ⟨fun _ hc => absurd hc List.not_mem_nil, Nat.zero_le _⟩
  have htrimmed := trimDashes_sublist (name.toList.foldl handleStep ([], false)).1
  unfold baseHandle
  dsimp only
  split
  · refine ⟨?_, by decide, by decide⟩
    have hall : "bot".toList.all isHandleCharacter = true := by decide
    exact List.all_eq_true.mp hall
  · rename_i hnonempty
    refine ⟨fun c hc => hloop.1 c (htrimmed.subset hc), le_trans htrimmed.length_le hloop.2, ?_⟩
    intro hempty
    exact hnonempty (List.isEmpty_iff.mpr hempty)

theorem number_length {index : Nat} (h : index ≤ u64Max) : (toString index).toList.length ≤ 20 := by
  rw [String.length_toList]
  exact (Nat.length_repr_le_iff (by omega)).mpr (lt_of_le_of_lt h (by decide))

theorem numberedHandle_plain {base : List Char} (hbase : Plain base) {index : Nat}
    (hindex : index ≤ u64Max) : Plain (numberedHandle base index).toList ∧
    (numberedHandle base index).toList.length ≤ maxHandleBytes ∧
    (numberedHandle base index).toList ≠ [] := by
  have hdigits := number_length hindex
  have htrimmed := trimDashes_sublist
    (base.take (maxHandleBytes - ('-' :: (toString index).toList).length))
  unfold numberedHandle
  dsimp only
  rw [String.toList_ofList]
  refine ⟨?_, ?_, ?_⟩
  · intro c hc
    cases List.mem_append.mp hc with
    | inl hfront => exact hbase c (List.mem_of_mem_take (htrimmed.subset hfront))
    | inr hsuffix =>
      cases List.mem_cons.mp hsuffix with
      | inl hdash =>
        rw [hdash]
        rfl
      | inr hdigit =>
        unfold isHandleCharacter
        rw [toString_digits index c hdigit, Bool.or_true]
        rfl
  · have hfront := htrimmed.length_le
    rw [List.length_take, List.length_cons] at hfront
    rw [List.length_append, List.length_cons]
    have hlimit : maxHandleBytes = 64 := rfl
    omega
  · intro hempty
    cases (List.append_eq_nil_iff.mp hempty).2

theorem numberHandle_free {state : BotState} {base : List Char} {id handle : String}
    {fuel index : Nat} (hbase : Plain base)
    (h : numberHandle state base id fuel index = some handle) :
    (Plain handle.toList ∧ handle.toList.length ≤ maxHandleBytes ∧ handle.toList ≠ []) ∧
      isTaken state id handle = false := by
  induction fuel generalizing index with
  | zero => cases h
  | succ fuel ih =>
    unfold numberHandle at h
    split at h
    · cases h
    · rename_i hindex
      split at h
      · exact ih h
      · rename_i hfree
        rw [← Option.some.inj h]
        exact ⟨numberedHandle_plain hbase (Nat.le_of_not_lt hindex), Bool.eq_false_iff.mpr hfree⟩

theorem nextHandle_free {state : BotState} {name id handle : String}
    (h : nextHandle state name id = some handle) :
    (Plain handle.toList ∧ handle.toList.length ≤ maxHandleBytes ∧ handle.toList ≠ []) ∧
      isTaken state id handle = false := by
  have hbase := baseHandle_plain name
  unfold nextHandle at h
  dsimp only at h
  split at h
  · exact numberHandle_free hbase.1 h
  · rename_i hfree
    rw [← Option.some.inj h]
    refine ⟨?_, Bool.eq_false_iff.mpr hfree⟩
    rw [String.toList_ofList]
    exact hbase

theorem isHandleCharacter_byte {c : Char} (h : isHandleCharacter c = true) :
    c.utf8Size = 1 ∧ isWhitespace c = false := by
  have hrange : 45 ≤ c.val.toNat ∧ c.val.toNat ≤ 122 := by
    unfold isHandleCharacter at h
    rw [Bool.or_eq_true, Bool.or_eq_true, Bool.or_eq_true] at h
    rcases h with ((hlower | hdigit) | hline) | hdash
    · unfold Char.isLower at hlower
      rw [Bool.and_eq_true, decide_eq_true_eq, decide_eq_true_eq] at hlower
      have hlow : 97 ≤ c.val.toNat := UInt32.le_iff_toNat_le.mp hlower.1
      have hhigh : c.val.toNat ≤ 122 := UInt32.le_iff_toNat_le.mp hlower.2
      omega
    · obtain ⟨hlow, hhigh⟩ := isDigit_range hdigit
      omega
    · rw [beq_iff_eq.mp hline]
      decide
    · rw [beq_iff_eq.mp hdash]
      decide
  constructor
  · rw [Char.utf8Size_eq_one_iff, UInt32.le_iff_toNat_le]
    exact le_trans hrange.2 (by decide)
  · unfold isWhitespace
    have hnat : c.toNat = c.val.toNat := rfl
    simp only [Bool.or_eq_false_iff, Bool.and_eq_false_iff, decide_eq_false_iff_not,
      beq_eq_false_iff_ne]
    omega

theorem trim_of_plain {text : String} (h : ∀ c ∈ text.toList, isWhitespace c = false) :
    trim text = text := by
  have hwhole : ∀ list : List Char, (∀ c ∈ list, isWhitespace c = false) →
      list.dropWhile isWhitespace = list := by
    intro list hlist
    cases list with
    | nil => rfl
    | cons c tail =>
      rw [List.dropWhile_cons, hlist c List.mem_cons_self]
      rfl
  unfold trim
  rw [hwhole _ h, hwhole _ fun c hc => h c (List.mem_reverse.mp hc), List.reverse_reverse,
    String.ofList_toList]

theorem validateHandle_of_plain {handle : String} (hplain : Plain handle.toList)
    (hlength : handle.toList.length ≤ maxHandleBytes) (hnonempty : handle.toList ≠ [])
    (huser : (handle == userHandle) = false) : validateHandle handle = .ok handle := by
  have htrim : trim handle = handle :=
    trim_of_plain fun c hc => (isHandleCharacter_byte (hplain c hc)).2
  have hbytes : handle.utf8ByteSize = handle.toList.length := by
    have hsizes : handle.toList.map Char.utf8Size = List.replicate handle.toList.length 1 := by
      refine List.eq_replicate_iff.mpr ⟨List.length_map _, ?_⟩
      intro size hsize
      obtain ⟨c, hc, rfl⟩ := List.mem_map.mp hsize
      exact (isHandleCharacter_byte (hplain c hc)).1
    rw [utf8ByteSize_eq, hsizes, List.sum_replicate_nat, Nat.mul_one]
  have hall : (handle.toList.all fun c => c.isLower || c.isDigit || c == '_' || c == '-') = true :=
    List.all_eq_true.mpr hplain
  have hempty : handle.isEmpty = false := by
    rw [Bool.eq_false_iff]
    intro hempty
    refine hnonempty ?_
    rw [String.isEmpty_iff.mp hempty]
    rfl
  unfold validateHandle
  dsimp only
  rw [htrim]
  refine except_bind_ok_iff.mpr ⟨(), rejectIf_ok_iff.mpr ?_,
    except_bind_ok_iff.mpr ⟨(), rejectIf_ok_iff.mpr huser, rfl⟩⟩
  rw [hempty, hall, hbytes, Bool.false_or, Bool.not_true, Bool.or_false, decide_eq_false_iff_not]
  exact Nat.not_lt.mpr hlength

theorem validateText_again {what value text : String} {limit : Nat}
    (h : validateText what limit value = .ok text) : validateText what limit text = .ok text := by
  unfold validateText at h ⊢
  obtain ⟨⟨⟩, hchecked, h⟩ := bind_ok h
  have htext : trim value = text := Except.ok.inj h
  have htrim : trim text = text := by
    rw [← htext]
    exact trim_trim value
  refine except_bind_ok_iff.mpr ⟨(), ?_, ?_⟩
  · rw [htrim, ← htext]
    exact hchecked
  · rw [htrim]
    rfl

end Names

section Loading

variable {host : Host} {store after : BotStore} {state : BotState} {now : Int}

/-- A Bot that is read again. -/
structure BotLoads (host : Host) (bot : StoredBot) : Prop where
  record : validateBotRecord host bot = .ok ()
  config : host.validateStored bot.config = .ok ()

/-- A catalog that is read again and has the built-in Bot. -/
structure Loadable (host : Host) (state : BotState) : Prop where
  bytes : catalogBytes host state ≤ maxStateBytes
  configs : ∀ bot ∈ state.bots, host.validateStored bot.config = .ok ()
  valid : StateValid host state
  builtIn : ∃ bot ∈ state.bots, bot.handle = mobiusHandle

theorem Loadable.freshState {database : BotDatabase} (h : Loadable host state)
    (hcatalog : database.catalog = some state) : freshState host database = .ok state :=
  freshState_of_valid hcatalog h.bytes h.configs h.valid

theorem Loadable.saved {changed : BotState} (hstate : validateState changed = .ok ())
    (hbytes : catalogBytes host changed ≤ maxStateBytes)
    (hversion : (changed.version != stateVersion) = false)
    (hbots : ∀ bot ∈ changed.bots, BotLoads host bot)
    (hroutines : ∀ routine ∈ changed.routines, RoutineValid host routine)
    (hpending : ∀ pending ∈ changed.pendingBotDeletion.toList,
      validatePendingDeletion host pending = .ok ())
    (hbuiltIn : ∃ bot ∈ changed.bots, bot.handle = mobiusHandle) : Loadable host changed := by
  obtain ⟨hbotSet, hids, howners, hpaths, hrevision⟩ := validateState_ok_iff.mp hstate
  refine ⟨hbytes, fun bot hbot => (hbots bot hbot).config, ?_, hbuiltIn⟩
  exact ⟨hversion, fun bot hbot => (hbots bot hbot).record, hroutines, hpending,
    hbotSet, hids, howners, hpaths, hrevision⟩

theorem Loadable.bots (h : Loadable host state) : ∀ bot ∈ state.bots, BotLoads host bot :=
  fun bot hbot => ⟨h.valid.bots bot hbot, h.configs bot hbot⟩

theorem Loadable.withRoutines {routines : List StoredRoutine}
    (h : Loadable host state) (hstate : validateState { state with routines := routines } = .ok ())
    (hbytes : catalogBytes host { state with routines := routines } ≤ maxStateBytes)
    (hroutines : ∀ routine ∈ routines, RoutineValid host routine) :
    Loadable host { state with routines := routines } :=
  Loadable.saved hstate hbytes h.valid.version h.bots hroutines h.valid.pending h.builtIn

theorem BotLoads.identity {bot : StoredBot} (h : BotLoads host bot) :
    host.parseUuid bot.id = .ok bot.id ∧ validateHandle bot.handle = .ok bot.handle ∧
      0 < bot.revision := by
  have hrecord := h.record
  unfold validateBotRecord at hrecord
  obtain ⟨hid, hrecord⟩ := bind_ok_iff.mp hrecord
  obtain ⟨handle, hhandle, hrecord⟩ := bind_ok hrecord
  obtain ⟨hsame, hrecord⟩ := bind_ok_iff.mp hrecord
  obtain ⟨name, -, hrecord⟩ := bind_ok hrecord
  obtain ⟨-, hrecord⟩ := bind_ok_iff.mp hrecord
  obtain ⟨description, -, hrecord⟩ := bind_ok hrecord
  obtain ⟨-, hrecord⟩ := bind_ok_iff.mp hrecord
  have hkept : handle = bot.handle := by simpa using rejectIf_ok_iff.mp hsame
  have hrevision := rejectIf_ok_iff.mp hrecord
  rw [beq_eq_false_iff_ne] at hrevision
  rw [hkept] at hhandle
  exact ⟨validateUuid_ok hid, hhandle, Nat.pos_of_ne_zero hrevision⟩

/-- The store holds a catalog that is read again. -/
def Loads (host : Host) (store : BotStore) : Prop :=
  ∃ state, store.database.catalog = some state ∧ Loadable host state

theorem Loads.read (h : Loads host store) (hfresh : freshState host store.database = .ok state) :
    store.database.catalog = some state ∧ Loadable host state := by
  obtain ⟨other, hcatalog, hloadable⟩ := h
  have hsame := Except.ok.inj ((hloadable.freshState hcatalog).symm.trans hfresh)
  rw [← hsame]
  exact ⟨hcatalog, hloadable⟩

theorem botLoads_of {bot : StoredBot} (hid : host.parseUuid bot.id = .ok bot.id)
    (hhandle : validateHandle bot.handle = .ok bot.handle)
    (hname : validateName bot.name = .ok bot.name)
    (hdescription : validateDescription bot.description = .ok bot.description)
    (hrevision : 0 < bot.revision) (hconfig : host.validateStored bot.config = .ok ()) :
    BotLoads host bot := by
  have hsame : ∀ text : String, (text != text) = false := by
    intro text
    rw [bne_self_eq_false]
  have hpositive : (bot.revision == 0) = false := by
    rw [beq_eq_false_iff_ne]
    omega
  refine ⟨?_, hconfig⟩
  unfold validateBotRecord
  refine bind_ok_iff.mpr ⟨validateUuid_of_parsed _ hid, ?_⟩
  refine except_bind_ok_iff.mpr ⟨_, hhandle, bind_ok_iff.mpr
    ⟨rejectIf_ok_iff.mpr (hsame _), ?_⟩⟩
  refine except_bind_ok_iff.mpr ⟨_, hname, bind_ok_iff.mpr
    ⟨rejectIf_ok_iff.mpr (hsame _), ?_⟩⟩
  refine except_bind_ok_iff.mpr ⟨_, hdescription, bind_ok_iff.mpr
    ⟨rejectIf_ok_iff.mpr (hsame _), ?_⟩⟩
  exact rejectIf_ok_iff.mpr hpositive

end Loading

section Bots

variable {host : Host} {store after : BotStore} {state : BotState}

theorem saveState_ok {changed : BotState} (h : saveState host store changed = .ok after) :
    validateState changed = .ok () ∧ catalogBytes host changed ≤ maxStateBytes ∧
      after.database.catalog = some changed := by
  unfold saveState at h
  obtain ⟨⟨⟩, hstate, h⟩ := bind_ok h
  obtain ⟨row, hrow, h⟩ := bind_ok h
  obtain ⟨hsame, hbytes⟩ := catalogJson_ok hrow
  rw [← Except.ok.inj h, hsame]
  exact ⟨hstate, hbytes, rfl⟩

theorem Loadable.stored {changed : BotState} (h : Loadable host state)
    (hsave : saveState host store changed = .ok after)
    (hversion : changed.version = state.version) (hbots : ∀ bot ∈ changed.bots, BotLoads host bot)
    (hroutines : changed.routines = state.routines)
    (hpending : ∀ pending ∈ changed.pendingBotDeletion.toList,
      validatePendingDeletion host pending = .ok ())
    (hbuiltIn : ∃ bot ∈ changed.bots, bot.handle = mobiusHandle) : Loads host after := by
  obtain ⟨hstate, hbytes, hcatalog⟩ := saveState_ok hsave
  exact ⟨changed, hcatalog, Loadable.saved hstate hbytes (hversion ▸ h.valid.version) hbots
    (hroutines ▸ h.valid.routines) hpending hbuiltIn⟩

variable {config : ValidatedConfig host} {name id description : String}

theorem seedDefault_loads {id : Uuid host} (hnew : store.database.catalog = none)
    (h : seedDefault host store config id = .ok after) : Loads host after := by
  unfold seedDefault at h
  rw [hnew] at h
  obtain ⟨hstate, hbytes, hcatalog⟩ := saveState_ok h
  refine ⟨_, hcatalog, Loadable.saved hstate hbytes rfl ?_ (List.forall_mem_nil _)
    (List.forall_mem_nil _) ⟨_, List.mem_singleton_self _, rfl⟩⟩
  have hhandle : validateHandle mobiusHandle = .ok mobiusHandle := by rfl
  have hname : validateName mobiusName = .ok mobiusName := by rfl
  have hdescription : validateDescription mobiusDescription = .ok mobiusDescription := by
    decide +kernel
  intro bot hbot
  rw [List.mem_singleton.mp hbot]
  exact botLoads_of id.2 hhandle hname hdescription Nat.one_pos config.2

theorem claimHandle_ok {handle : String} (h : claimHandle state name id = .ok handle) :
    validateHandle handle = .ok handle ∧ isTaken state id handle = false := by
  unfold claimHandle at h
  split at h
  · rename_i found hfound
    rw [← Except.ok.inj h]
    obtain ⟨⟨hplain, hlength, hnonempty⟩, hfree⟩ := nextHandle_free hfound
    refine ⟨validateHandle_of_plain hplain hlength hnonempty ?_, hfree⟩
    unfold isTaken at hfree
    exact (Bool.or_eq_false_iff.mp hfree).1
  · cases h

theorem createBot_loads {id : Uuid host} (h : Loads host store)
    (hcreate : createBot host store name description config id = .ok after) : Loads host after := by
  unfold createBot at hcreate
  obtain ⟨name', hname, hcreate⟩ := bind_ok hcreate
  obtain ⟨description', hdescription, hcreate⟩ := bind_ok hcreate
  obtain ⟨state, hfresh, hcreate⟩ := bind_ok hcreate
  obtain ⟨⟨⟩, -, hcreate⟩ := bind_ok hcreate
  obtain ⟨handle, hhandle, hcreate⟩ := bind_ok hcreate
  obtain ⟨-, hloadable⟩ := h.read hfresh
  obtain ⟨built, hbuilt, hmobius⟩ := hloadable.builtIn
  refine hloadable.stored hcreate rfl ?_ rfl hloadable.valid.pending
    ⟨built, List.mem_append_left _ hbuilt, hmobius⟩
  intro bot hbot
  cases List.mem_append.mp hbot with
  | inl hold => exact hloadable.bots bot hold
  | inr hnew =>
    rw [List.mem_singleton.mp hnew]
    exact botLoads_of id.2 (claimHandle_ok hhandle).1 (validateText_again hname)
      (validateText_again hdescription) Nat.one_pos config.2

theorem findBot_ok {found : Nat × StoredBot} (h : findBot state id = .ok found) :
    state.bots[found.1]? = some found.2 ∧ found.2.id = id := by
  unfold findBot at h
  split at h
  · rename_i bot index hfind
    rw [← Except.ok.inj h]
    have hmem := List.mem_of_find?_eq_some hfind
    have hid := List.find?_some hfind
    refine ⟨?_, of_decide_eq_true hid⟩
    exact (List.mem_zipIdx_iff_getElem?.mp hmem)
  · cases h

theorem mem_set_or {α : Type} {items : List α} {item : α} (h : item ∈ items) (index : Nat)
    (changed : α) : item ∈ items.set index changed ∨
      (items[index]? = some item ∧ changed ∈ items.set index changed) := by
  obtain ⟨place, hplace⟩ := List.mem_iff_getElem?.mp h
  have hbound : place < items.length := (List.getElem?_eq_some_iff.mp hplace).1
  by_cases hsame : index = place
  · rw [hsame]
    exact .inr ⟨hplace, List.mem_set hbound changed⟩
  · refine .inl (List.mem_iff_getElem?.mpr ⟨place, ?_⟩)
    rw [List.getElem?_set_ne hsame]
    exact hplace

theorem renamed_loads {bot : StoredBot} {handle : String} {revision : Nat} (h : BotLoads host bot)
    (hhandle : validateHandle handle = .ok handle) (hname : validateName name = .ok name)
    (hdescription : validateDescription description = .ok description) (hrevision : 0 < revision) :
    BotLoads host (StoredBot.renamed bot handle name description revision config.1) := by
  obtain ⟨hid, hkept, -⟩ := h.identity
  refine botLoads_of hid ?_ hname hdescription hrevision config.2
  unfold StoredBot.renamed
  dsimp only
  split
  · exact hhandle
  · exact hkept

theorem updateBot_loads {revision : Nat} (h : Loads host store)
    (hupdate : updateBot host store id name description revision config = .ok after) :
    Loads host after := by
  unfold updateBot at hupdate
  obtain ⟨name', hname, hupdate⟩ := bind_ok hupdate
  obtain ⟨description', hdescription, hupdate⟩ := bind_ok hupdate
  obtain ⟨state, hfresh, hupdate⟩ := bind_ok hupdate
  obtain ⟨⟨⟩, -, hupdate⟩ := bind_ok hupdate
  obtain ⟨handle, hhandle, hupdate⟩ := bind_ok hupdate
  obtain ⟨found, hfound, hupdate⟩ := bind_ok hupdate
  obtain ⟨⟨⟩, hrevision, hupdate⟩ := bind_ok hupdate
  obtain ⟨-, hloadable⟩ := h.read hfresh
  have hindex := (findBot_ok hfound).1
  have hadded : checkedAdd found.2.revision 1 = some revision := by
    simpa using rejectIf_ok_iff.mp hrevision
  have hpositive : 0 < revision := by
    have hsum := checkedAdd_eq_some hadded
    omega
  have hmem := List.mem_of_getElem? hindex
  refine hloadable.stored hupdate rfl ?_ rfl hloadable.valid.pending ?_
  · intro bot hbot
    cases List.mem_or_eq_of_mem_set hbot with
    | inl hold => exact hloadable.bots bot hold
    | inr hnew =>
      rw [hnew]
      exact renamed_loads (hloadable.bots found.2 hmem) (claimHandle_ok hhandle).1
        (validateText_again hname) (validateText_again hdescription) hpositive
  · obtain ⟨built, hbuilt, hmobius⟩ := hloadable.builtIn
    cases mem_set_or hbuilt found.1
        (StoredBot.renamed found.2 handle name' description' revision config.1) with
    | inl hkept => exact ⟨built, hkept, hmobius⟩
    | inr hchanged =>
      have hsame : found.2 = built := Option.some.inj (hindex.symm.trans hchanged.1)
      refine ⟨_, hchanged.2, ?_⟩
      unfold StoredBot.renamed
      dsimp only
      rw [hsame, if_neg fun hrenamed => hrenamed.2 hmobius]
      exact hmobius

end Bots

section Deletions

variable {host : Host} {store after : BotStore} {state : BotState}

variable {sessions : List SessionSummary} {botId : String}

theorem growOnce_subset {seen : List SessionId} : seen ⊆ growOnce sessions seen := by
  unfold growOnce
  induction sessions generalizing seen with
  | nil => exact fun _ hid => hid
  | cons session rest ih =>
    rw [List.foldl_cons]
    split
    · exact ih
    · exact fun id hid => ih (List.mem_append_left _ hid)

theorem growTree_subset {fuel : Nat} {seen : List SessionId} :
    seen ⊆ growTree sessions fuel seen := by
  induction fuel generalizing seen with
  | zero => exact fun _ hid => hid
  | succ fuel ih =>
    unfold growTree
    dsimp only
    split
    · exact fun _ hid => hid
    · exact fun id hid => ih (growOnce_subset hid)

theorem distinctSessions_subset {ids : List SessionId} : ids ⊆ distinctSessions ids := by
  have hloop : ∀ (ids seen : List SessionId), seen ⊆ (ids.foldl (fun seen id =>
      if seen.contains id then seen else seen ++ [id]) seen) ∧
      ids ⊆ (ids.foldl (fun seen id => if seen.contains id then seen else seen ++ [id]) seen) := by
    intro ids
    induction ids with
    | nil => exact fun seen => ⟨fun _ hid => hid, fun _ hid => absurd hid List.not_mem_nil⟩
    | cons first rest ih =>
      intro seen
      rw [List.foldl_cons]
      obtain ⟨hkept, hrest⟩ := ih (if seen.contains first then seen else seen ++ [first])
      have hfirst : first ∈ (if seen.contains first then seen else seen ++ [first]) := by
        split
        · rename_i hseen
          exact List.contains_iff_mem.mp hseen
        · exact List.mem_append_right _ (List.mem_singleton_self first)
      have hseen : seen ⊆ (if seen.contains first then seen else seen ++ [first]) := by
        split
        · exact fun _ hid => hid
        · exact fun _ hid => List.mem_append_left _ hid
      refine ⟨fun id hid => hkept (hseen hid), ?_⟩
      intro id hid
      cases List.mem_cons.mp hid with
      | inl hsame => exact hkept (hsame ▸ hfirst)
      | inr hlater => exact hrest hlater
  exact (hloop ids []).2

theorem root_mem_sessionTrees {roots : List SessionId} {root : SessionId} (hroot : root ∈ roots)
    (hlisted : root ∈ sessions.map (·.sessionId)) : root ∈ sessionTrees roots sessions := by
  obtain ⟨session, hsession, hid⟩ := List.mem_map.mp hlisted
  have hany : (sessions.any fun session => session.sessionId == root) = true :=
    List.any_eq_true.mpr ⟨session, hsession, beq_iff_eq.mpr hid⟩
  unfold sessionTrees
  refine distinctSessions_subset (List.mem_flatten.mpr
    ⟨(growTree sessions sessions.length [root]).reverse, ?_, ?_⟩)
  · refine List.mem_filterMap.mpr ⟨root, hroot, ?_⟩
    unfold sessionTreeIds
    rw [if_pos hany]
  · exact List.mem_reverse.mpr (growTree_subset (List.mem_singleton_self root))

theorem botSessionRoots_subset :
    botSessionRoots botId sessions ⊆ sessionTrees (botSessionRoots botId sessions) sessions := by
  intro root hroot
  refine root_mem_sessionTrees hroot ?_
  unfold botSessionRoots at hroot
  obtain ⟨session, hsession, hid⟩ := List.mem_map.mp hroot
  exact List.mem_map.mpr ⟨session, (List.mem_filter.mp hsession).1, hid⟩

theorem intent_valid {intent : PendingBotDeletion}
    (hid : host.parseUuid intent.botId = .ok intent.botId) (hrevision : 0 < intent.expectedRevision)
    (hroots : intent.sessionRoots ⊆ intent.sessionIds)
    (hpaths : ∀ path ∈ intent.instructionPaths,
      isAbsolute path = true ∧ parentIs path host.routinesDir = true) :
    validatePendingDeletion host intent = .ok () := by
  have hparsed : validatePendingId host intent = .ok () := by
    unfold validatePendingId
    rw [hid]
    refine rejectIf_ok_iff.mpr ?_
    rw [bne_self_eq_false, Bool.false_or, beq_eq_false_iff_ne]
    omega
  have hinside : (intent.sessionRoots.any fun root => !intent.sessionIds.contains root) = false := by
    rw [List.any_eq_false]
    intro root hroot hmissing
    rw [Bool.not_eq_true', ← Bool.not_eq_true] at hmissing
    exact hmissing (List.contains_iff_mem.mpr (hroots hroot))
  have hprivate : (intent.instructionPaths.any fun path =>
      !isAbsolute path || !parentIs path host.routinesDir) = false := by
    rw [List.any_eq_false]
    intro path hpath
    rw [(hpaths path hpath).1, (hpaths path hpath).2]
    exact Bool.false_ne_true
  unfold validatePendingDeletion
  exact bind_ok_iff.mpr ⟨hparsed, bind_ok_iff.mpr
    ⟨rejectIf_ok_iff.mpr hinside, rejectIf_ok_iff.mpr hprivate⟩⟩

theorem recordBotDeletion_loads {expectedRevision : Nat} {lockFree : String → Bool}
    (h : Loads host store)
    (hrecord : recordBotDeletion host store botId expectedRevision lockFree sessions = .ok after) :
    Loads host after := by
  unfold recordBotDeletion at hrecord
  obtain ⟨state, hfresh, hrecord⟩ := bind_ok hrecord
  obtain ⟨found, hfound, hrecord⟩ := bind_ok hrecord
  obtain ⟨⟨⟩, hdeletable, hrecord⟩ := bind_ok hrecord
  obtain ⟨⟨⟩, -, hrecord⟩ := bind_ok hrecord
  obtain ⟨⟨⟩, -, hrecord⟩ := bind_ok hrecord
  obtain ⟨⟨⟩, -, hrecord⟩ := bind_ok hrecord
  obtain ⟨-, hloadable⟩ := h.read hfresh
  obtain ⟨hindex, hid⟩ := findBot_ok hfound
  obtain ⟨hparsed, -, hpositive⟩ :=
    (hloadable.bots found.2 (List.mem_of_getElem? hindex)).identity
  obtain ⟨-, hrevision⟩ := bind_ok_iff.mp hdeletable
  have hexpected : found.2.revision = expectedRevision := by
    simpa using rejectIf_ok_iff.mp hrevision
  refine hloadable.stored hrecord rfl hloadable.bots rfl ?_ hloadable.builtIn
  intro pending hpending
  rw [List.mem_singleton.mp hpending]
  refine intent_valid (hid ▸ hparsed) (hexpected ▸ hpositive) botSessionRoots_subset ?_
  intro path hpath
  obtain ⟨routine, hroutine, hinstructions⟩ := List.mem_map.mp hpath
  rw [← hinstructions]
  exact (hloadable.valid.routines routine (List.mem_filter.mp hroutine).1).inside

theorem clearBotDeletion_loads (h : Loads host store)
    (hclear : clearBotDeletion host store botId = .ok after) : Loads host after := by
  unfold clearBotDeletion at hclear
  obtain ⟨state, hfresh, hclear⟩ := bind_ok hclear
  obtain ⟨-, hloadable⟩ := h.read hfresh
  split at hclear
  · cases hclear
  · obtain ⟨⟨⟩, -, hclear⟩ := bind_ok hclear
    exact hloadable.stored hclear rfl hloadable.bots rfl (List.forall_mem_nil _) hloadable.builtIn

theorem mem_eraseP_of_find {α : Type} {items : List α} {matching : α → Bool} {found item : α}
    (hfind : items.find? matching = some found) (hitem : item ∈ items) (hother : item ≠ found) :
    item ∈ items.eraseP matching := by
  induction items with
  | nil => cases hitem
  | cons first rest ih =>
    rw [List.find?_cons] at hfind
    rw [List.eraseP_cons]
    cases hmatch : matching first with
    | true =>
      simp only [hmatch, Option.some.injEq] at hfind
      cases List.mem_cons.mp hitem with
      | inl hsame => exact absurd (hsame.trans hfind) hother
      | inr hrest =>
        rw [cond_true]
        exact hrest
    | false =>
      simp only [hmatch] at hfind
      rw [cond_false]
      cases List.mem_cons.mp hitem with
      | inl hsame =>
        rw [hsame]
        exact List.mem_cons_self
      | inr hrest => exact List.mem_cons_of_mem _ (ih hfind hrest)

theorem deleteBot_loads {expectedRevision : Nat} {routineIds instructions : List String}
    (h : Loads host store)
    (hdelete : deleteBot host store botId expectedRevision routineIds instructions = .ok after) :
    Loads host after := by
  unfold deleteBot at hdelete
  obtain ⟨state, hfresh, hdelete⟩ := bind_ok hdelete
  obtain ⟨⟨⟩, hcheck, hdelete⟩ := bind_ok hdelete
  obtain ⟨⟨⟩, hstate, hdelete⟩ := bind_ok hdelete
  obtain ⟨row, hrow, hdelete⟩ := bind_ok hdelete
  obtain ⟨-, hloadable⟩ := h.read hfresh
  rw [← Except.ok.inj hdelete]
  obtain ⟨hsame, hbytes⟩ := catalogJson_ok hrow
  refine ⟨row, rfl, hsame ▸ Loadable.saved hstate hbytes hloadable.valid.version ?_ ?_
    hloadable.valid.pending ?_⟩
  · intro bot hbot
    exact hloadable.bots bot (List.mem_of_mem_eraseP hbot)
  · intro routine hroutine
    exact hloadable.valid.routines routine (List.mem_filter.mp hroutine).1
  · obtain ⟨built, hbuilt, hmobius⟩ := hloadable.builtIn
    refine ⟨built, ?_, hmobius⟩
    unfold checkBotDeletion at hcheck
    obtain ⟨-, hcheck⟩ := bind_ok_iff.mp hcheck
    split at hcheck
    · cases hcheck
    · rename_i bot hfind
      obtain ⟨hhandle, -⟩ := bind_ok_iff.mp hcheck
      have hother : bot.handle ≠ mobiusHandle := by
        rw [← beq_eq_false_iff_ne]
        exact rejectIf_ok_iff.mp hhandle
      exact mem_eraseP_of_find hfind hbuilt fun hsame => hother (hsame ▸ hmobius)

end Deletions

section Timers

variable {host : Host} {now : Int} {resume : Bool}

/-- A timer that is armed is due after 1970. -/
def DueLater (stored : StoredRoutineBinding RoutineAction) : Prop :=
  ∀ next, stored.nextDueAt = some next → 1 ≤ next

variable {schedule : RoutineSchedule}
  {result : StoredRoutineBinding RoutineAction × Bool × Option Int}

theorem cron_positive {time : Int} {currentMinute : Bool} (hclock : 60 ≤ now)
    (h : nextCronOccurrence host.library schedule now currentMinute = .ok time) : 1 ≤ time := by
  have hpast := nextCronOccurrence_after h
  have hminute : 1 ≤ minuteOf now := by
    unfold minuteOf
    omega
  cases hpast with
  | inl hlater | inr hsame => omega

theorem intervalSeconds_nonneg {everySeconds : Option Nat} {missing large : String} {every : Int}
    (h : intervalSeconds everySeconds missing large = .ok every) : 0 ≤ every := by
  unfold intervalSeconds at h
  split at h
  · cases h
  · split at h
    · rw [← Except.ok.inj h]
      exact Int.natCast_nonneg _
    · cases h

theorem firstDue_positive {next : Int} (hclock : 60 ≤ now)
    (hat : resume = true ∨ ∀ time, schedule.atTime = some time → 1 ≤ time)
    (h : firstDue host.library schedule now resume = .ok (some next)) : 1 ≤ next := by
  unfold firstDue at h
  cases hkind : schedule.kind with
  | once =>
    simp only [hkind] at h
    have hfilter := Option.filter_eq_some_iff.mp (Except.ok.inj h)
    cases hat with
    | inl hresume =>
      rw [hresume, Bool.not_true, Bool.false_or, decide_eq_true_eq] at hfilter
      omega
    | inr htimes => exact htimes next hfilter.1
  | interval =>
    simp only [hkind] at h
    obtain ⟨every, hevery, h⟩ := bind_ok h
    have hnonneg := intervalSeconds_nonneg hevery
    cases hsum : checkedAddInt now every with
    | none =>
      simp only [hsum] at h
      cases h
    | some later =>
      simp only [hsum] at h
      cases h
      have hlater := checkedAddInt_eq_some hsum
      omega
  | cron =>
    simp only [hkind] at h
    obtain ⟨time, htime, h⟩ := bind_ok h
    cases h
    exact cron_positive hclock htime

theorem reset_definition {stored changed : StoredRoutineBinding RoutineAction}
    (h : stored.reset host.library now resume = .ok changed) :
    changed.definition = stored.definition := by
  unfold StoredRoutineBinding.reset at h
  split at h
  · obtain ⟨first, -, h⟩ := bind_ok h
    cases h
    rfl
  · cases h
    rfl

theorem reset_due {stored changed : StoredRoutineBinding RoutineAction} (hclock : 60 ≤ now)
    (hat : resume = true ∨ ∀ schedule endsAt, stored.definition.on = .schedule schedule endsAt →
      ∀ time, schedule.atTime = some time → 1 ≤ time)
    (h : stored.reset host.library now resume = .ok changed) : DueLater changed := by
  unfold StoredRoutineBinding.reset at h
  cases hon : stored.definition.on with
  | event source kind routineOutcome sessionOutcome customName =>
    simp only [hon] at h
    cases h
    intro next hnext
    cases hnext
  | schedule schedule endsAt =>
    simp only [hon] at h
    obtain ⟨first, hfirst, h⟩ := bind_ok h
    cases h
    intro next hnext
    have hsome : first = some next := hnext
    rw [hsome] at hfirst
    refine firstDue_positive hclock ?_ hfirst
    cases hat with
    | inl hresume => exact .inl hresume
    | inr htimes => exact .inr (htimes schedule endsAt hon)

theorem mapM_definitions {α : Type} {items : List α} {definition : α → RoutineBinding}
    {change : α → Except Error (StoredRoutineBinding RoutineAction)}
    {results : List (StoredRoutineBinding RoutineAction)}
    (hchange : ∀ item result, change item = .ok result → result.definition = definition item)
    (h : items.mapM change = .ok results) : results.map (·.definition) = items.map definition :=
  forall₂_map_eq ((mapM_forall₂ h).imp fun item result => hchange item result)

theorem resetTimers_definitions {enabled : Bool}
    {bindings results : List (StoredRoutineBinding RoutineAction)}
    (h : resetTimers host enabled bindings now = .ok results) :
    results.map (·.definition) = bindings.map (·.definition) := by
  unfold resetTimers at h
  split at h
  · exact mapM_definitions (fun _ _ hnew => reset_definition hnew) h
  · rw [← Except.ok.inj h]

theorem saturate_nonneg {value : Int} (h : 0 ≤ value) : 0 ≤ saturate value := by
  unfold saturate i64Min i64Max
  omega

theorem advanceInterval_positive {next later : Int} (hnext : 1 ≤ next) (hdue : next ≤ now)
    (h : advanceInterval schedule (some next) now = .ok later) : 1 ≤ later := by
  unfold advanceInterval at h
  obtain ⟨every, hevery, h⟩ := bind_ok h
  have hnonneg := intervalSeconds_nonneg hevery
  have hmissed : 0 ≤ saturate ((saturate (now - next)).tdiv every + 1) := by
    refine saturate_nonneg ?_
    have hquotient := Int.tdiv_nonneg (saturate_nonneg (Int.sub_nonneg_of_le hdue)) hnonneg
    omega
  have hgrid := saturate_nonneg (Int.mul_nonneg hnonneg hmissed)
  simp only at h
  cases hsum : checkedAddInt next
      (saturate (every * saturate ((saturate (now - next)).tdiv every + 1))) with
  | none =>
    simp only [hsum] at h
    cases h
  | some sum =>
    simp only [hsum] at h
    cases h
    have hlater := checkedAddInt_eq_some hsum
    omega

theorem refresh_definition {stored refreshed : StoredRoutineBinding RoutineAction}
    (h : stored.refresh host.library schedule now = .ok refreshed) :
    refreshed.definition = stored.definition := by
  unfold StoredRoutineBinding.refresh at h
  split at h
  · obtain ⟨time, -, h⟩ := bind_ok h
    cases h
    rfl
  · cases h
    rfl

theorem refresh_due {stored refreshed : StoredRoutineBinding RoutineAction} (hclock : 60 ≤ now)
    (hdue : DueLater stored) (h : stored.refresh host.library schedule now = .ok refreshed) :
    DueLater refreshed := by
  unfold StoredRoutineBinding.refresh at h
  split at h
  · obtain ⟨time, htime, h⟩ := bind_ok h
    cases h
    intro next hnext
    rw [← Option.some.inj hnext]
    exact cron_positive hclock htime
  · cases h
    exact hdue

theorem advance_definition {stored advanced : StoredRoutineBinding RoutineAction}
    (h : stored.advance host.library now = .ok advanced) :
    advanced.definition = stored.definition := by
  unfold StoredRoutineBinding.advance at h
  split at h
  · cases h
    rfl
  · obtain ⟨later, -, h⟩ := bind_ok h
    cases h
    rfl

theorem advance_due {endsAt : Option Int} {time : Int}
    {stored advanced : StoredRoutineBinding RoutineAction} (hclock : 60 ≤ now)
    (hon : stored.definition.on = .schedule schedule endsAt) (hdue : DueLater stored)
    (htime : stored.nextAt host.library now = some time) (hnow : time ≤ now)
    (h : stored.advance host.library now = .ok advanced) : DueLater advanced := by
  unfold StoredRoutineBinding.advance at h
  simp only [hon] at h
  obtain ⟨later, hlater, h⟩ := bind_ok h
  cases h
  intro next hnext
  have hsome : later = some next := hnext
  rw [hsome] at hlater
  unfold laterDue at hlater
  cases hkind : schedule.kind with
  | once =>
    simp only [hkind] at hlater
    cases hlater
  | cron =>
    simp only [hkind] at hlater
    obtain ⟨found, hfound, hlater⟩ := bind_ok hlater
    cases hlater
    exact cron_positive hclock hfound
  | interval =>
    simp only [hkind] at hlater
    obtain ⟨found, hfound, hlater⟩ := bind_ok hlater
    cases hlater
    cases hstored : stored.nextDueAt with
    | none =>
      rw [hstored] at hfound
      unfold advanceInterval at hfound
      obtain ⟨every, -, hfound⟩ := bind_ok hfound
      cases hfound
    | some due =>
      rw [hstored] at hfound
      unfold StoredRoutineBinding.nextAt at htime
      simp only [hon, hstored] at htime
      have hsame := (Option.filter_eq_some_iff.mp htime).1
      rw [← Option.some.inj hsame] at hnow
      exact advanceInterval_positive (hdue due hstored) hnow hfound

/-- All that polling a timer can do: nothing, bring it up to date, or let it fire. -/
theorem poll_cases {stored : StoredRoutineBinding RoutineAction}
    (h : stored.poll host.library now = .ok result) :
    result.1 = stored ∨ ∃ schedule endsAt refreshed,
      stored.definition.on = .schedule schedule endsAt ∧
      stored.refresh host.library schedule now = .ok refreshed ∧
      (result.1 = refreshed ∨ ∃ time, refreshed.nextAt host.library now = some time ∧
        time ≤ now ∧ refreshed.advance host.library now = .ok result.1) := by
  unfold StoredRoutineBinding.poll at h
  cases hon : stored.definition.on with
  | event source kind routineOutcome sessionOutcome customName =>
    simp only [hon] at h
    cases h
    exact .inl rfl
  | schedule schedule endsAt =>
    simp only [hon] at h
    obtain ⟨refreshed, hrefreshed, h⟩ := bind_ok h
    refine .inr ⟨schedule, endsAt, refreshed, rfl, hrefreshed, ?_⟩
    cases htime : refreshed.nextAt host.library now with
    | none =>
      simp only [htime] at h
      cases h
      exact .inl rfl
    | some time =>
      simp only [htime] at h
      split at h
      · cases h
        exact .inl rfl
      · rename_i hfires
        rw [not_or] at hfires
        obtain ⟨advanced, hadvanced, h⟩ := bind_ok h
        cases h
        exact .inr ⟨time, rfl, Int.not_lt.mp hfires.1, hadvanced⟩

theorem poll_definition {stored : StoredRoutineBinding RoutineAction}
    (h : stored.poll host.library now = .ok result) :
    result.1.definition = stored.definition := by
  cases poll_cases h with
  | inl hsame => rw [hsame]
  | inr hpolled =>
    obtain ⟨schedule, endsAt, refreshed, -, hrefreshed, hresult⟩ := hpolled
    have hdefinition := refresh_definition hrefreshed
    cases hresult with
    | inl hsame => rw [hsame, hdefinition]
    | inr hfired =>
      obtain ⟨time, -, -, hadvanced⟩ := hfired
      rw [advance_definition hadvanced, hdefinition]

theorem poll_due {stored : StoredRoutineBinding RoutineAction} (hclock : 60 ≤ now)
    (hdue : DueLater stored) (h : stored.poll host.library now = .ok result) :
    DueLater result.1 := by
  cases poll_cases h with
  | inl hsame =>
    rw [hsame]
    exact hdue
  | inr hpolled =>
    obtain ⟨schedule, endsAt, refreshed, hon, hrefreshed, hresult⟩ := hpolled
    have hlater := refresh_due hclock hdue hrefreshed
    cases hresult with
    | inl hsame =>
      rw [hsame]
      exact hlater
    | inr hfired =>
      obtain ⟨time, htime, hnow, hadvanced⟩ := hfired
      have hsame : refreshed.definition.on = .schedule schedule endsAt := by
        rw [refresh_definition hrefreshed]
        exact hon
      exact advance_due hclock hsame hlater htime hnow hadvanced

end Timers

section Routines

variable {host : Host} {store after : BotStore} {now : Int}

/-- What the files of instructions need: canonical identifiers and a canonical directory. -/
structure FileLaws (host : Host) : Prop where
  uuid : ∀ text, host.parseUuid text = .ok text →
    text.toList.length = 36 ∧ ∀ c ∈ text.toList, c ∈ uuidAlphabet
  absolute : isAbsolute host.routinesDir = true

variable {accepted : Option String} {events : List HookEvent} {database : BotDatabase}
  {definition : RoutineDefinition} {eventId : Uuid host} {cause : Option HookEvent}
  {routine : StoredRoutine} {routines : List StoredRoutine} {id : String}

theorem saveCatalogWithHooks_catalog {saved : BotDatabase} {state : BotState}
    (h : saveCatalogWithHooks host database state events now accepted = .ok saved) :
    saved.catalog = some state := by
  unfold saveCatalogWithHooks at h
  obtain ⟨synced, -, h⟩ := bind_ok h
  obtain ⟨recorded, -, h⟩ := bind_ok h
  rw [← Except.ok.inj h]

theorem validateDefinition_times {library : CronLibrary}
    (h : validateDefinition library (some maxScheduleTimestamp) definition 0 = .ok ())
    {binding : RoutineBinding} (hbinding : binding ∈ definition.bindings) :
    ∀ schedule endsAt, binding.on = .schedule schedule endsAt →
      ∀ time, schedule.atTime = some time → 1 ≤ time := by
  intro schedule endsAt hon time htime
  unfold validateDefinition at h
  obtain ⟨-, h⟩ := bind_ok_iff.mp h
  obtain ⟨-, h⟩ := bind_ok_iff.mp h
  have htrigger := ((validateBindings_ok h).1 binding hbinding).2.2
  rw [hon] at htrigger
  have hschedule := validateTrigger_schedule htrigger
  unfold validateSchedule at hschedule
  obtain ⟨htimes, -⟩ := bind_ok_iff.mp hschedule
  have htimes := (Bool.or_eq_false_iff.mp (rejectIf_ok_iff.mp htimes)).1
  rw [htime] at htimes
  simp only [Option.any_some, decide_eq_false_iff_not, not_not] at htimes
  exact htimes.1

theorem createRoutine_loads (laws : FileLaws host) (h : Loads host store) {botId : String}
    {workspace : CanonicalWorkspace} {routineId fileId : Uuid host} (hclock : 60 ≤ now)
    (hcreate : createRoutine host store botId definition workspace cause routineId fileId eventId
      now = .ok after) : Loads host after := by
  obtain ⟨hdefinition, state, bindings, event, hfresh, -, -, hbindings, -, hsaves⟩ :=
    createRoutine_cases hcreate
  obtain ⟨-, hloadable⟩ := h.read hfresh
  refine ⟨_, saveCatalogWithHooks_catalog hsaves.commit, hloadable.withRoutines hsaves.checked
    hsaves.bytes ?_⟩
  have hsame : bindings.map (·.definition) = definition.bindings.map id :=
    mapM_definitions (fun _ _ hnew => reset_definition hnew) hbindings
  intro routine hroutine
  cases List.mem_append.mp hroutine with
  | inl hold => exact hloadable.valid.routines routine hold
  | inr hnew =>
    rw [List.mem_singleton.mp hnew]
    refine ⟨routineId.2, workspace.2,
      newInstructionPath_inside laws.uuid laws.absolute fileId, ?_, ?_⟩
    · rw [hsame, List.map_id]
      exact validateDefinition_bindings hdefinition
    · intro stored hstored
      obtain ⟨binding, hbinding, hnew⟩ := forall₂_mem_right (mapM_forall₂ hbindings) hstored
      exact reset_due hclock (.inr (validateDefinition_times hdefinition hbinding)) hnew

theorem routineAt_mem {index : Nat} (h : routineAt routines index = .ok routine) :
    routine ∈ routines := by
  unfold routineAt at h
  split at h
  · rename_i found hfound
    rw [← Except.ok.inj h]
    exact List.mem_of_getElem? hfound
  · cases h

theorem acceptUnchanged_loads (h : Loads host store) (accepted : Option String) :
    Loads host (acceptUnchanged store accepted) := h

theorem Loadable.setRoutine {state : BotState} {index : Nat} (h : Loadable host state)
    (hsaves : SavesCatalog host store.database database
      { state with routines := state.routines.set index routine } events now accepted) 
    (hroutine : RoutineValid host routine) (files : List (String × String)) :
    Loads host ⟨database, files⟩ := by
  refine ⟨_, saveCatalogWithHooks_catalog hsaves.commit, h.withRoutines hsaves.checked
    hsaves.bytes ?_⟩
  intro other hother
  cases List.mem_or_eq_of_mem_set hother with
  | inl hold => exact h.valid.routines other hold
  | inr hnew =>
    rw [hnew]
    exact hroutine

theorem setRoutineEnabled_loads (h : Loads host store) {enabled : Bool} (hclock : 60 ≤ now)
    (hset : setRoutineEnabled host store id enabled cause accepted eventId now = .ok after) :
    Loads host after := by
  obtain ⟨state, index, routine, hfresh, -, -, hroutine, hcase⟩ := setRoutineEnabled_cases hset
  obtain ⟨-, hloadable⟩ := h.read hfresh
  have hvalid := hloadable.valid.routines routine (routineAt_mem hroutine)
  rcases hcase with rfl | ⟨-, bindings, event, hbindings, -, hsaves⟩
  · exact acceptUnchanged_loads h accepted
  · have hreset : bindings.map (·.definition) = routine.bindings.map (·.definition) ∧
        ∀ stored ∈ bindings, DueLater stored := by
      refine ⟨resetTimers_definitions hbindings, ?_⟩
      unfold resetTimers at hbindings
      split at hbindings
      · intro stored hstored
        obtain ⟨prior, -, hnew⟩ := forall₂_mem_right (mapM_forall₂ hbindings) hstored
        exact reset_due hclock (.inl rfl) hnew
      · rw [← Except.ok.inj hbindings]
        exact hvalid.due
    refine hloadable.setRoutine hsaves ⟨hvalid.id, hvalid.workspace, hvalid.inside, ?_, hreset.2⟩
      after.files
    rw [hreset.1]
    exact hvalid.bindings

theorem updateRoutine_loads (laws : FileLaws host) (h : Loads host store)
    {workspace : CanonicalWorkspace} {lockFree : Bool} {fileId : Uuid host} (hclock : 60 ≤ now)
    (hupdate : updateRoutine host store id definition workspace cause accepted lockFree fileId
      eventId now = .ok after) : Loads host after := by
  obtain ⟨hdefinition, state, index, routine, hfresh, -, -, hroutine, hcase⟩ :=
    updateRoutine_cases hupdate
  obtain ⟨-, hloadable⟩ := h.read hfresh
  have hvalid := hloadable.valid.routines routine (routineAt_mem hroutine)
  rcases hcase with rfl | ⟨bindings, event, hbindings, -, hsaves⟩
  · exact acceptUnchanged_loads h accepted
  · have hdefinitions := validateDefinition_bindings hdefinition
    have hrebuilt := @rebuildBindings_forall host now DueLater definition.bindings
      routine.bindings routine.bindings bindings hbindings (validateBindings_ok hdefinitions).2
      (fun prior hprior => hprior) (fun _ _ prior hprior _ => hprior) hvalid.due
      (fun binding hbinding _ armed hnew => ⟨reset_definition hnew,
        reset_due hclock (.inr (validateDefinition_times hdefinition hbinding)) hnew⟩)
    refine hloadable.setRoutine hsaves ⟨hvalid.id, workspace.2,
      newInstructionPath_inside laws.uuid laws.absolute fileId,
      rebuilt_valid hrebuilt hdefinitions hvalid.bindings, ?_⟩ after.files
    intro stored hstored
    obtain ⟨_, _, hpair⟩ := forall₂_mem_right hrebuilt hstored
    exact hpair.2.1

theorem deleteRoutine_loads (h : Loads host store) {lockFree : Bool}
    (hdelete : deleteRoutine host store id cause accepted lockFree eventId now = .ok after) :
    Loads host after := by
  obtain ⟨state, index, routine, event, hfresh, -, hstate, hbytes, -, hcommit⟩ :=
    deleteRoutine_cases hdelete
  obtain ⟨-, hloadable⟩ := h.read hfresh
  unfold deleteRunsAndSaveCatalog at hcommit
  obtain ⟨recorded, -, hcommit⟩ := bind_ok hcommit
  have hcatalog := congrArg BotDatabase.catalog (Except.ok.inj hcommit)
  refine ⟨_, hcatalog.symm, hloadable.withRoutines hstate hbytes ?_⟩
  intro other hother
  exact hloadable.valid.routines other ((List.eraseIdx_sublist _ _).subset hother)

theorem pollBindings_definitions {bindings : List (StoredRoutineBinding RoutineAction)}
    {tick : Tick (StoredRoutineBinding RoutineAction)}
    (h : pollBindings host routine now bindings = .ok tick) :
    tick.items.map (·.definition) = bindings.map (·.definition) := by
  induction bindings generalizing tick with
  | nil =>
    rw [← Except.ok.inj h]
  | cons binding rest ih =>
    obtain ⟨polled, hpolled, h⟩ := bind_ok h
    obtain ⟨others, hothers, h⟩ := bind_ok h
    rw [← Except.ok.inj h, List.map_cons, List.map_cons, poll_definition hpolled, ih hothers]

theorem pollBindings_due {bindings : List (StoredRoutineBinding RoutineAction)}
    {tick : Tick (StoredRoutineBinding RoutineAction)} (hclock : 60 ≤ now)
    (hdue : ∀ stored ∈ bindings, DueLater stored)
    (h : pollBindings host routine now bindings = .ok tick) :
    ∀ stored ∈ tick.items, DueLater stored := by
  induction bindings generalizing tick with
  | nil =>
    rw [← Except.ok.inj h]
    exact List.forall_mem_nil _
  | cons binding rest ih =>
    obtain ⟨polled, hpolled, h⟩ := bind_ok h
    obtain ⟨others, hothers, h⟩ := bind_ok h
    rw [List.forall_mem_cons] at hdue
    rw [← Except.ok.inj h, List.forall_mem_cons]
    exact ⟨poll_due hclock hdue.1 hpolled, ih hdue.2 hothers⟩

theorem pollRoutines_mem {tick : Tick StoredRoutine}
    (h : pollRoutines host now routines = .ok tick) (hroutine : routine ∈ tick.items) :
    ∃ old ∈ routines, routine = old ∨
      ∃ own, pollBindings host old now old.bindings = .ok own ∧
        routine = { old with bindings := own.items } := by
  induction routines generalizing tick with
  | nil =>
    rw [← Except.ok.inj h] at hroutine
    cases hroutine
  | cons first rest ih =>
    have hlater : ∀ {others : Tick StoredRoutine}, pollRoutines host now rest = .ok others →
        routine ∈ others.items → ∃ old ∈ first :: rest, routine = old ∨
          ∃ own, pollBindings host old now old.bindings = .ok own ∧
            routine = { old with bindings := own.items } := by
      intro others hothers hmem
      obtain ⟨old, hold, hcase⟩ := ih hothers hmem
      exact ⟨old, List.mem_cons_of_mem _ hold, hcase⟩
    unfold pollRoutines at h
    split at h
    · obtain ⟨own, hown, h⟩ := bind_ok h
      obtain ⟨others, hothers, h⟩ := bind_ok h
      rw [← Except.ok.inj h] at hroutine
      cases List.mem_cons.mp hroutine with
      | inl hfirst => exact ⟨first, List.mem_cons_self, .inr ⟨own, hown, hfirst⟩⟩
      | inr hrest => exact hlater hothers hrest
    · obtain ⟨others, hothers, h⟩ := bind_ok h
      rw [← Except.ok.inj h] at hroutine
      cases List.mem_cons.mp hroutine with
      | inl hfirst => exact ⟨first, List.mem_cons_self, .inl hfirst⟩
      | inr hrest => exact hlater hothers hrest

theorem pollRoutines_valid {tick : Tick StoredRoutine} (hclock : 60 ≤ now)
    (hvalid : ∀ routine ∈ routines, RoutineValid host routine)
    (h : pollRoutines host now routines = .ok tick) :
    ∀ routine ∈ tick.items, RoutineValid host routine := by
  intro routine hroutine
  obtain ⟨old, hold, hcase⟩ := pollRoutines_mem h hroutine
  have hkept := hvalid old hold
  cases hcase with
  | inl hsame =>
    rw [hsame]
    exact hkept
  | inr hpolled =>
    obtain ⟨own, hown, hsame⟩ := hpolled
    rw [hsame]
    refine ⟨hkept.id, hkept.workspace, hkept.inside, ?_, pollBindings_due hclock hkept.due hown⟩
    rw [pollBindings_definitions hown]
    exact hkept.bindings

theorem pollDue_loads (h : Loads host store) {result : RoutinePoll × BotStore} (hclock : 60 ≤ now)
    (hpoll : pollDue host store now = .ok result) : Loads host result.2 := by
  obtain ⟨state, hfresh, hcase⟩ := pollDue_cases hpoll
  obtain ⟨-, hloadable⟩ := h.read hfresh
  rcases hcase with hsame | ⟨tick, htick, hsaves⟩
  · rw [hsame]
    exact h
  · exact ⟨_, saveCatalogWithHooks_catalog hsaves.commit, hloadable.withRoutines hsaves.checked
      hsaves.bytes (pollRoutines_valid hclock hloadable.valid.routines htick)⟩

theorem closeSessionSources_loads (h : Loads host store)
    (hclose : closeSessionSources host store.database events = .ok database) :
    Loads host { store with database := database } := by
  unfold closeSessionSources at hclose
  obtain ⟨state, hfresh, hclose⟩ := bind_ok hclose
  obtain ⟨⟨⟩, hstate, hclose⟩ := bind_ok hclose
  obtain ⟨row, hrow, hclose⟩ := bind_ok hclose
  obtain ⟨hooks, -, hclose⟩ := bind_ok hclose
  obtain ⟨-, hloadable⟩ := h.read hfresh
  obtain ⟨hsame, hbytes⟩ := catalogJson_ok hrow
  rw [← Except.ok.inj hclose]
  refine ⟨row, rfl, hsame ▸ hloadable.withRoutines hstate hbytes ?_⟩
  intro routine hroutine
  obtain ⟨old, hold, hsame⟩ := List.mem_map.mp hroutine
  rw [← hsame]
  exact HookDelivery.unsubscribed_valid (hloadable.valid.routines old hold) events

end Routines

section Runs

variable {host : Host} {store after : BotStore}

theorem seedDefault_again {config : ValidatedConfig host} {id : Uuid host} (h : Loads host store)
    (hseed : seedDefault host store config id = .ok after) : Loads host after := by
  have hloads := h
  obtain ⟨state, hcatalog, -⟩ := hloads
  unfold seedDefault at hseed
  rw [hcatalog] at hseed
  rw [← Except.ok.inj hseed]
  exact h

theorem routineOp_loads (laws : FileLaws host) (h : Loads host store) {operation : RoutineOp host}
    (hclock : ∀ now, clockOf host (.routine operation) = some now → 60 ≤ now)
    (happly : operation.apply host store = .ok after) : Loads host after := by
  cases operation with
  | create botId definition workspace cause routineId fileId eventId now =>
    exact createRoutine_loads laws h (hclock now rfl) happly
  | update id definition workspace cause accepted lockFree fileId eventId now =>
    exact updateRoutine_loads laws h (hclock now rfl) happly
  | setEnabled id enabled cause accepted eventId now =>
    exact setRoutineEnabled_loads h (hclock now rfl) happly
  | delete id cause accepted lockFree eventId now => exact deleteRoutine_loads h happly
  | poll now =>
    have happly : (pollDue host store now).map Prod.snd = .ok after := happly
    cases hpoll : pollDue host store now with
    | error _ =>
      rw [hpoll] at happly
      cases happly
    | ok result =>
      rw [hpoll] at happly
      rw [← Except.ok.inj happly]
      exact pollDue_loads h (hclock now rfl) hpoll

theorem apply_loads (laws : FileLaws host) (h : Loads host store) {operation : CatalogOp host}
    (hclock : ∀ now, clockOf host operation = some now → 60 ≤ now)
    (happly : operation.apply host store = .ok after) : Loads host after := by
  cases operation with
  | seed config id => exact seedDefault_again h happly
  | createBot name description config id => exact createBot_loads h happly
  | updateBot id name description revision config => exact updateBot_loads h happly
  | recordDeletion botId expectedRevision lockFree sessions =>
    exact recordBotDeletion_loads h happly
  | deleteBot botId expectedRevision routineIds instructions => exact deleteBot_loads h happly
  | clearDeletion botId => exact clearBotDeletion_loads h happly
  | close events =>
    have happly : ((closeSessionSources host store.database events).map fun database =>
      { store with database := database }) = .ok after := happly
    cases hclose : closeSessionSources host store.database events with
    | error _ =>
      rw [hclose] at happly
      cases happly
    | ok database =>
      rw [hclose] at happly
      rw [← Except.ok.inj happly]
      exact closeSessionSources_loads h hclose
  | routine operation => exact routineOp_loads laws h hclock happly

theorem step_loads (laws : FileLaws host) (h : Loads host store) {operation : CatalogOp host}
    (hclock : ∀ now, clockOf host operation = some now → 60 ≤ now) :
    Loads host (operation.step host store) := by
  unfold CatalogOp.step
  cases happly : operation.apply host store with
  | ok after => exact apply_loads laws h hclock happly
  | error _ => exact h

theorem runCatalog_loads (laws : FileLaws host) (operations : List (CatalogOp host))
    (hclock : ∀ operation ∈ operations, ∀ now, clockOf host operation = some now → 60 ≤ now)
    (h : Loads host store) : Loads host (runCatalog host store operations) := by
  induction operations generalizing store with
  | nil => exact h
  | cons operation rest ih =>
    rw [List.forall_mem_cons] at hclock
    exact ih hclock.2 (step_loads laws h hclock.1)

theorem validateBotSet_nodup {bots : List StoredBot} {ids handles : List String}
    (h : validateBotSet bots ids handles = .ok ()) :
    (bots.map (·.id)).Nodup ∧ (bots.map (·.handle)).Nodup ∧
      (∀ bot ∈ bots, bot.id ∉ ids) ∧ ∀ bot ∈ bots, bot.handle ∉ handles := by
  induction bots generalizing ids handles with
  | nil => exact ⟨List.nodup_nil, List.nodup_nil, List.forall_mem_nil _, List.forall_mem_nil _⟩
  | cons bot rest ih =>
    obtain ⟨hid, h⟩ := bind_ok_iff.mp h
    obtain ⟨hhandle, h⟩ := bind_ok_iff.mp h
    obtain ⟨hids, hhandles, hfresh, hfree⟩ := ih h
    have hnew := rejectIf_ok_iff.mp hid
    have hown := rejectIf_ok_iff.mp hhandle
    rw [← Bool.not_eq_true, List.contains_iff_mem] at hnew hown
    simp only [List.map_cons, List.nodup_cons, List.forall_mem_cons]
    refine ⟨⟨?_, hids⟩, ⟨?_, hhandles⟩, ⟨hnew, ?_⟩, hown, ?_⟩
    · intro hmem
      obtain ⟨other, hother, hsame⟩ := List.mem_map.mp hmem
      exact hfresh other hother (hsame ▸ List.mem_cons_self)
    · intro hmem
      obtain ⟨other, hother, hsame⟩ := List.mem_map.mp hmem
      exact hfree other hother (hsame ▸ List.mem_cons_self)
    · intro other hother hmem
      exact hfresh other hother (List.mem_cons_of_mem _ hmem)
    · intro other hother hmem
      exact hfree other hother (List.mem_cons_of_mem _ hmem)

/-- After every run that begins with the seeding of the built-in Bot, the stored catalog passes
`parse_state` and `validate_records`, its handles are valid and distinct, and the built-in Bot is
there. -/
theorem catalog_loads (laws : FileLaws host) {seeded : BotStore} {config : ValidatedConfig host}
    {id : Uuid host} {operations : List (CatalogOp host)}
    (hnew : store.database.catalog = none)
    (hseed : seedDefault host store config id = .ok seeded)
    (hclock : ∀ operation ∈ operations, ∀ now, clockOf host operation = some now → 60 ≤ now) :
    ∃ state, (runCatalog host seeded operations).database.catalog = some state ∧
      freshState host (runCatalog host seeded operations).database = .ok state ∧
      validateRecords host state = .ok () ∧
      (state.bots.map (·.handle)).Nodup ∧
      (∀ bot ∈ state.bots, validateHandle bot.handle = .ok bot.handle) ∧
      ∃ bot ∈ state.bots, bot.handle = mobiusHandle := by
  obtain ⟨state, hcatalog, hloadable⟩ :=
    runCatalog_loads laws operations hclock (seedDefault_loads hnew hseed)
  refine ⟨state, hcatalog, hloadable.freshState hcatalog, ?_, ?_, ?_, hloadable.builtIn⟩
  · exact validateRecords_ok_iff.mpr hloadable.valid
  · exact (validateBotSet_nodup hloadable.valid.botSet).2.1
  · intro bot hbot
    exact (hloadable.bots bot hbot).identity.2.1

end Runs

section Samples

theorem plainHost_fileLaws : FileLaws plainHost :=
  ⟨plainHost_laws.uuid, plainHost_laws.routines_absolute⟩

def plainConfig : ValidatedConfig plainHost := ⟨.null, rfl⟩

def seededStore : BotStore where
  database := { catalog := some { bots :=
    [⟨(minted 1).1, mobiusHandle, mobiusName, mobiusDescription, 1, .null⟩] } }

/-- Two Bots of one name, one of which has a routine that runs on a timer and is deleted. -/
def helpers : List (CatalogOp plainHost) :=
  [.createBot "The Helper!" "Helps" plainConfig (minted 2),
    .createBot "the helper" "Helps too" plainConfig (minted 3),
    .updateBot (minted 3).1 "User" "Asks" 2 plainConfig,
    .routine (.create (minted 2).1 (report "timer" 100) work none (minted 4) (minted 5) (minted 6)
      70),
    .routine (.poll 200),
    .recordDeletion (minted 2).1 1 (fun _ => true) [],
    .createBot "Refused" "While a deletion is recorded" plainConfig (minted 7),
    .deleteBot (minted 2).1 1 [(minted 4).1] [newInstructionPath plainHost (minted 5).1],
    .clearDeletion (minted 2).1,
    .createBot "the helper" "Helps again" plainConfig (minted 8)]

/-- The catalog after the run is read again. -/
theorem helpers_load :
    (runCatalog plainHost seededStore helpers).database.catalog.map
      (fun state => state.bots.map (·.handle)) = some ["mobius", "user-2", "the-helper"] ∧
    ∃ state, (runCatalog plainHost seededStore helpers).database.catalog = some state ∧
      freshState plainHost (runCatalog plainHost seededStore helpers).database = .ok state ∧
      validateRecords plainHost state = .ok () ∧
      (state.bots.map (·.handle)).Nodup ∧
      (∀ bot ∈ state.bots, validateHandle bot.handle = .ok bot.handle) ∧
      ∃ bot ∈ state.bots, bot.handle = mobiusHandle := by
  have hseed : seedDefault plainHost {} plainConfig (minted 1) = .ok seededStore := rfl
  have hclock : ∀ operation ∈ helpers, ∀ now, clockOf plainHost operation = some now →
      60 ≤ now := by
    unfold helpers
    simp only [List.forall_mem_cons, clockOf]
    simp
  exact ⟨by decide +kernel, catalog_loads plainHost_fileLaws rfl hseed hclock⟩

end Samples

end MobiusAgent.BotCatalog
