import MobiusAgent.StoreTransactions

/-!
# The stored context of one session

A session's context rows are texts, numbered from zero under its epoch. A text
stands for an item if it was written for it or is read as it. Under that
representation the context functions have closed forms: reading decodes the
texts, appending adds those of the new suffix, and preparing an append depends
on the offer through one comparison, which a sound identity hint shortens.
-/

namespace MobiusAgent.StoreContext

open JsonValue ProtocolEvents CheckpointRecords CheckpointValidation StoreTables
open StoreTransactions

section Rows

variable {Text : Type}

/-- The rows of some texts, numbered from a position on. -/
def storedRows (id : SessionId) (epoch : Int) : Nat → List Text → List (ContextRow Text)
  | _, [] => []
  | index, text :: texts => ⟨id, epoch, index, text⟩ :: storedRows id epoch (index + 1) texts

def sessionRows (tables : Tables Text) (id : SessionId) : List (ContextRow Text) :=
  tables.contextItems.filter fun row => decide (row.sessionId = id)

/-- The texts of a session's context, in the order they were inserted. -/
def contextTexts (tables : Tables Text) (id : SessionId) : List Text :=
  (sessionRows tables id).map (·.itemJson)

variable {texts : List Text} {epoch : Int} {id : SessionId}

theorem map_itemJson_storedRows (id : SessionId) (epoch : Int) (texts : List Text) (start : Nat) :
    (storedRows id epoch start texts).map (·.itemJson) = texts := by
  induction texts generalizing start with
  | nil => rfl
  | cons text texts ih => rw [storedRows, List.map_cons, ih]

theorem contextTexts_eq {tables : Tables Text}
    (h : sessionRows tables id = storedRows id epoch 0 texts) : contextTexts tables id = texts := by
  rw [contextTexts, h, map_itemJson_storedRows]

theorem mem_storedRows {start : Nat} {row : ContextRow Text}
    (h : row ∈ storedRows id epoch start texts) :
    row.sessionId = id ∧ row.epoch = epoch ∧ (start : Int) ≤ row.itemIndex ∧
      row.itemIndex < start + texts.length := by
  induction texts generalizing start with
  | nil => cases h
  | cons text texts ih =>
    rw [storedRows] at h
    rcases List.mem_cons.mp h with h | h
    · subst h
      refine ⟨rfl, rfl, le_refl _, ?_⟩
      simp only [List.length_cons]
      omega
    · have hrest := ih h
      simp only [List.length_cons]
      refine ⟨hrest.1, hrest.2.1, ?_, ?_⟩ <;> omega

theorem storedRows_append (id : SessionId) (epoch : Int) (texts more : List Text)
    (start : Nat) :
    storedRows id epoch start (texts ++ more) =
      storedRows id epoch start texts ++ storedRows id epoch (start + texts.length) more := by
  induction texts generalizing start with
  | nil => rfl
  | cons text texts ih =>
    simp only [List.cons_append, storedRows, ih, List.length_cons]
    rw [show start + 1 + texts.length = start + (texts.length + 1) by omega]

theorem storedRows_sorted (id : SessionId) (epoch : Int) (texts : List Text) (start : Nat) :
    (storedRows id epoch start texts).Pairwise contextOrder := by
  induction texts generalizing start with
  | nil => exact .nil
  | cons text texts ih =>
    refine .cons (fun row hrow => ?_) (ih (start + 1))
    have hmem := mem_storedRows hrow
    refine .inr ⟨hmem.2.1.symm, ?_⟩
    have hstart := hmem.2.2.1
    dsimp only
    omega

theorem contextRows_eq {tables : Tables Text}
    (h : sessionRows tables id = storedRows id epoch 0 texts) :
    tables.contextRows id = storedRows id epoch 0 texts := by
  have hsorted := storedRows_sorted id epoch texts 0
  simp only [sessionRows] at h
  simp only [Tables.contextRows]
  rw [h]
  exact hsorted.insertionSort_eq

theorem prefixRows_eq {tables : Tables Text}
    (h : sessionRows tables id = storedRows id epoch 0 texts) :
    prefixRows tables id epoch texts.length = storedRows id epoch 0 texts := by
  have hsorted := storedRows_sorted id epoch texts 0
  have hfilter : (tables.contextItems.filter fun row =>
      decide (row.sessionId = id) && decide (row.epoch = epoch) &&
        decide (row.itemIndex < (texts.length : Int))) = storedRows id epoch 0 texts := by
    have hsplit : (tables.contextItems.filter fun row =>
        decide (row.sessionId = id) && decide (row.epoch = epoch) &&
          decide (row.itemIndex < (texts.length : Int))) =
        (sessionRows tables id).filter fun row => decide (row.epoch = epoch) &&
          decide (row.itemIndex < (texts.length : Int)) := by
      rw [sessionRows, List.filter_filter]
      congr 1
      funext row
      rw [Bool.and_assoc, Bool.and_comm]
    rw [hsplit, h, List.filter_eq_self]
    intro row hrow
    have hmem := mem_storedRows hrow
    have hbound := hmem.2.2.2
    simp only [hmem.2.1, decide_true, Bool.true_and, decide_eq_true_eq]
    omega
  rw [prefixRows, hfilter]
  exact hsorted.insertionSort_eq

end Rows

section Written

variable {Text : Type} (codecs : Codecs Text)

def Written (text : Text) (item : Json) : Prop :=
  text = codecs.item.encode item ∨ codecs.item.decode text = .ok item

variable {codecs}

theorem Written.decode {text : Text} {item : Json} (h : Written codecs text item)
    (hreads : codecs.item.ReadsBack item) : codecs.item.decode text = .ok item := by
  rcases h with rfl | h
  · exact hreads
  · exact h

theorem Written.unique {text : Text} {item other : Json} (hlossless : codecs.Lossless)
    (h : Written codecs text item) (h' : Written codecs text other) : item = other := by
  have hdecode := h.decode (hlossless.item item)
  rw [h'.decode (hlossless.item other)] at hdecode
  exact (Except.ok.inj hdecode).symm

theorem written_unique {texts : List Text} {items others : List Json}
    (hlossless : codecs.Lossless) (h : List.Forall₂ (Written codecs) texts items)
    (h' : List.Forall₂ (Written codecs) texts others) : items = others := by
  induction h generalizing others with
  | nil => cases h'; rfl
  | cons hitem _ ih =>
    cases h' with
    | cons hother hrest => rw [hitem.unique hlossless hother, ih hrest]

theorem written_encode (items : List Json) :
    List.Forall₂ (Written codecs) (items.map codecs.item.encode) items := by
  induction items with
  | nil => exact .nil
  | cons item items ih => exact .cons (.inl rfl) ih

end Written

section Compare

variable {Text : Type} (codecs : Codecs Text)

def Knows (hint : Option ContextCache) (index : Nat) (item : SharedItem) : Prop :=
  ∃ cache, hint = some cache ∧ cache.items[index]? = some item.address

/-- A hint is sound for stored texts if every offered item it knows stands at
its place. -/
def HintSound (hint : Option ContextCache) (start : Nat) (texts : List Text)
    (offered : List SharedItem) : Prop :=
  ∀ index item, offered[index]? = some item → Knows hint (start + index) item →
    ∃ text, texts[index]? = some text ∧ Written codecs text item.value

def KnownReadBack (hint : Option ContextCache) (start : Nat) (offered : List SharedItem) : Prop :=
  ∀ index item, offered[index]? = some item → Knows hint (start + index) item →
    codecs.item.ReadsBack item.value

def prefixChanged : Error := .checkpoint "context prefix changed without advancing its epoch"

variable {codecs} {id : SessionId} {epoch : Int} {hint : Option ContextCache} {text : Text}
  {texts : List Text} {item : SharedItem} {offered : List SharedItem} {start : Nat}

theorem HintSound.tail (h : HintSound codecs hint start (text :: texts) (item :: offered)) :
    HintSound codecs hint (start + 1) texts offered := by
  intro index other hother hknown
  rw [show start + 1 + index = start + (index + 1) by omega] at hknown
  simpa using h (index + 1) other (by simpa using hother) hknown

theorem HintSound.head (h : HintSound codecs hint start (text :: texts) (item :: offered))
    (hknown : Knows hint start item) : Written codecs text item.value := by
  obtain ⟨found, hfound, hwritten⟩ := h 0 item rfl hknown
  rw [List.getElem?_cons_zero, Option.some.injEq] at hfound
  exact hfound ▸ hwritten

theorem KnownReadBack.tail (h : KnownReadBack codecs hint start (item :: offered)) :
    KnownReadBack codecs hint (start + 1) offered := by
  intro index other hother hknown
  rw [show start + 1 + index = start + (index + 1) by omega] at hknown
  exact h (index + 1) other (by simpa using hother) hknown

theorem knows_iff : (hint.any fun cache => cache.items[start]? == some item.address) = true ↔
    Knows hint start item := by
  simp [Knows, Option.any_eq_true]

variable (codecs)

theorem comparePrefix_cons (id : SessionId) (epoch : Int) (hint : Option ContextCache)
    (start : Nat) (text : Text) (texts : List Text) (item : SharedItem)
    (offered : List SharedItem) :
    comparePrefix codecs hint start (storedRows id epoch start (text :: texts))
        (item :: offered) =
      if hint.any fun cache => cache.items[start]? == some item.address then
        comparePrefix codecs hint (start + 1) (storedRows id epoch (start + 1) texts) offered
      else codecs.item.decode text >>= fun previous =>
        rejectIf (previous ≠ item.value) prefixChanged >>= fun _ =>
          comparePrefix codecs hint (start + 1) (storedRows id epoch (start + 1) texts)
            offered := by
  simp only [storedRows, comparePrefix, rejectIf, ne_eq, not_true, decide_false,
    Bool.false_eq_true, if_false]
  rfl

variable {codecs}

theorem comparePrefix_written (hlength : texts.length = offered.length)
    (hsound : HintSound codecs hint start texts offered)
    (h : comparePrefix codecs hint start (storedRows id epoch start texts) offered = .ok ()) :
    List.Forall₂ (Written codecs) texts (offered.map (·.value)) := by
  induction texts generalizing offered start with
  | nil =>
    rw [List.eq_nil_of_length_eq_zero hlength.symm]
    exact .nil
  | cons text texts ih =>
    cases offered with
    | nil => cases hlength
    | cons item offered =>
      rw [comparePrefix_cons] at h
      have hrest := ih (Nat.succ.inj hlength) hsound.tail
      split at h
      · rename_i hknown
        exact .cons (hsound.head (knows_iff.mp hknown)) (hrest h)
      · simp only [except_bind_ok_iff] at h
        obtain ⟨previous, hdecode, _, hsame, h⟩ := h
        have hvalue := of_decide_eq_false (rejectIf_ok_iff.mp hsame)
        rw [not_not.mp hvalue] at hdecode
        exact .cons (.inr hdecode) (hrest h)

theorem comparePrefix_ok
    (hwritten : List.Forall₂ (Written codecs) texts (offered.map (·.value)))
    (hreads : ∀ item ∈ offered, codecs.item.ReadsBack item.value) :
    comparePrefix codecs hint start (storedRows id epoch start texts) offered = .ok () := by
  induction offered generalizing texts start with
  | nil => simp [comparePrefix]
  | cons item offered ih =>
    cases hwritten with
    | cons hitem hrest =>
      have hnext := @ih _ (start + 1) hrest fun other hother =>
        hreads other (List.mem_cons_of_mem _ hother)
      have hdecode := hitem.decode (hreads item List.mem_cons_self)
      rw [comparePrefix_cons, hdecode, hnext]
      split
      · rfl
      · simp [rejectIf, bind, Except.bind]

theorem comparePrefix_known {cache : ContextCache} (hlength : texts.length = offered.length)
    (h : ∀ index item, offered[index]? = some item →
      cache.items[start + index]? = some item.address) :
    comparePrefix codecs (some cache) start (storedRows id epoch start texts) offered =
      .ok () := by
  induction texts generalizing offered start with
  | nil =>
    rw [List.eq_nil_of_length_eq_zero hlength.symm]
    rfl
  | cons text texts ih =>
    cases offered with
    | nil => cases hlength
    | cons item offered =>
      have hfirst := h 0 item rfl
      rw [Nat.add_zero] at hfirst
      rw [comparePrefix_cons, if_pos (by simp [hfirst])]
      refine ih (Nat.succ.inj hlength) fun index other hother => ?_
      have hnext := h (index + 1) other (by simpa using hother)
      rwa [show start + (index + 1) = start + 1 + index by omega] at hnext

theorem comparePrefix_hint (hlength : texts.length = offered.length)
    (hsound : HintSound codecs hint start texts offered)
    (hreads : KnownReadBack codecs hint start offered) :
    comparePrefix codecs hint start (storedRows id epoch start texts) offered =
      comparePrefix codecs none start (storedRows id epoch start texts) offered := by
  induction texts generalizing offered start with
  | nil =>
    rw [List.eq_nil_of_length_eq_zero hlength.symm]
    rfl
  | cons text texts ih =>
    cases offered with
    | nil => cases hlength
    | cons item offered =>
      have hrest := ih (Nat.succ.inj hlength) hsound.tail hreads.tail
      rw [comparePrefix_cons, comparePrefix_cons, hrest]
      split
      · rename_i hknown
        rw [knows_iff] at hknown
        have hdecode := (hsound.head hknown).decode (hreads 0 item rfl hknown)
        simp [hdecode, rejectIf, bind, Except.bind]
      · rfl

theorem comparePrefix_ok_iff {stored : List Json} (hlossless : codecs.Lossless)
    (hstored : List.Forall₂ (Written codecs) texts stored)
    (hlength : texts.length = offered.length)
    (hsound : HintSound codecs hint start texts offered) :
    comparePrefix codecs hint start (storedRows id epoch start texts) offered = .ok () ↔
      stored = offered.map (·.value) := by
  constructor
  · intro h
    exact written_unique hlossless hstored (comparePrefix_written hlength hsound h)
  · rintro rfl
    exact comparePrefix_ok hstored fun item _ => hlossless.item item.value

/-- What preparing an append decides for a session that stores a checkpoint,
given how the rows compare with the offer. -/
def appendDecision (tables : Tables Text) (stored : Checkpoint) (shared : SharedCheckpoint)
    (compared : Except Error Unit) : Except Error ((Nat × Bool) × Tables Text) := do
  let _ ← sqliteInteger shared.header.sequence "checkpoint sequence"
  let _ ← sqliteInteger shared.header.contextEpoch "context epoch"
  rejectIf (shared.header.sequence ≤ stored.sequence)
    (.checkpoint "checkpoint sequence did not advance")
  rejectIf (shared.header.contextEpoch < stored.contextEpoch)
    (.checkpoint "context epoch cannot move backwards")
  if shared.header.contextEpoch ≠ stored.contextEpoch then
    return ((0, true), dropContext tables shared.header.sessionId)
  else do
    rejectIf (shared.context.length < stored.context.length)
      (.checkpoint "context prefix was truncated without advancing its epoch")
    compared
    return ((stored.context.length, false), tables)

theorem appendDecision_congr (tables : Tables Text) {stored : Checkpoint}
    {shared : SharedCheckpoint} {compared other : Except Error Unit}
    (h : stored.context.length ≤ shared.context.length → compared = other) :
    appendDecision tables stored shared compared = appendDecision tables stored shared other := by
  by_cases hshort : shared.context.length < stored.context.length
  · have hreject : ∀ result : Except Error Unit, (do
        rejectIf (shared.context.length < stored.context.length)
          (.checkpoint "context prefix was truncated without advancing its epoch")
        result
        return ((stored.context.length, false), tables)) =
        (.error (.checkpoint "context prefix was truncated without advancing its epoch") :
          Except Error ((Nat × Bool) × Tables Text)) := by
      intro result
      simp [rejectIf, hshort, bind, Except.bind]
    simp only [appendDecision, hreject]
  · rw [h (by omega)]

variable (codecs)

/-- A session's row and context rows are those of a checkpoint. -/
structure Represents (tables : Tables Text) (row : SessionRow Text) (stored : Checkpoint) :
    Prop where
  sessionId : row.sessionId = stored.sessionId
  sequence : row.latestSequence = stored.sequence
  header : row.latestCheckpointJson = codecs.header.encode stored.toCheckpointHeader
  epoch : row.contextEpoch = stored.contextEpoch
  count : row.contextCount = stored.context.length
  rows : sessionRows tables stored.sessionId =
    storedRows stored.sessionId stored.contextEpoch 0 (contextTexts tables stored.sessionId)
  items : List.Forall₂ (Written codecs) (contextTexts tables stored.sessionId) stored.context

/-- The hint the code keeps after checking that it applies. -/
def appliedHint (cached : Option ContextCache) (shared : SharedCheckpoint) (stored : Checkpoint)
    (dataVersion : Nat) : Option ContextCache :=
  cached.filter (hintApplies · shared stored.sequence dataVersion stored.context.length)

/-- The comparison that preparing an append makes. -/
def compareStored (tables : Tables Text) (stored : Checkpoint) (shared : SharedCheckpoint)
    (cached : Option ContextCache) (dataVersion : Nat) : Except Error Unit :=
  comparePrefix codecs (appliedHint cached shared stored dataVersion) 0
    (storedRows stored.sessionId stored.contextEpoch 0 (contextTexts tables stored.sessionId))
    (shared.context.take stored.context.length)

theorem sqliteInteger_ok {value : Nat} {name : String} {result : Int}
    (h : sqliteInteger value name = .ok result) : result = value ∧ (value : Int) ≤ i64Max := by
  unfold sqliteInteger at h
  split at h
  · rename_i hfits
    exact ⟨(Except.ok.inj h).symm, hfits⟩
  · cases h

theorem wholeHintMatches_known {cache : ContextCache} {count : Nat} {shared : SharedCheckpoint}
    (hitems : cache.items.length = count) (h : wholeHintMatches cache shared = true) :
    ∀ index item, (shared.context.take count)[index]? = some item →
      cache.items[0 + index]? = some item.address := by
  intro index item hitem
  rw [List.getElem?_take] at hitem
  split at hitem
  · rename_i hindex
    obtain ⟨hbound, rfl⟩ := List.getElem?_eq_some_iff.mp hitem
    have haddress : index < cache.items.length := by omega
    rw [Nat.zero_add, List.getElem?_eq_getElem haddress, Option.some.injEq]
    have hall := List.all_eq_true.mp h (cache.items[index], shared.context[index])
    refine beq_iff_eq.mp (hall ?_)
    rw [List.mem_iff_getElem]
    exact ⟨index, by rw [List.length_zip]; omega, by rw [List.getElem_zip]⟩
  · cases hitem

/-- Preparing an append for a represented session makes one comparison: the
whole-hint match is that of a hint that knows every item. -/
theorem prepareAppend_eq {tables : Tables Text} {row : SessionRow Text} {stored : Checkpoint}
    {shared : SharedCheckpoint} (cached : Option ContextCache) (dataVersion : Nat)
    (hrow : tables.session? shared.header.sessionId = some row)
    (hid : stored.sessionId = shared.header.sessionId)
    (hrep : Represents codecs tables row stored) :
    prepareAppend codecs tables shared cached dataVersion =
      appendDecision tables stored shared
        (compareStored codecs tables stored shared cached dataVersion) := by
  have htexts := hrep.items.length_eq
  unfold prepareAppend appendDecision
  rw [hrow]
  dsimp only
  cases hsequence : sqliteInteger shared.header.sequence "checkpoint sequence" with
  | error e => rfl
  | ok sequence =>
    cases hepoch : sqliteInteger shared.header.contextEpoch "context epoch" with
    | error e => rfl
    | ok epoch =>
      have hs := (sqliteInteger_ok hsequence).1
      have he := (sqliteInteger_ok hepoch).1
      subst hs he
      simp only [bind, Except.bind, hrep.sequence, hrep.epoch, hrep.count, Int.ofNat_le,
        Int.ofNat_lt, Int.ofNat_inj, ne_eq]
      cases rejectIf (decide (shared.header.sequence ≤ stored.sequence))
        (.checkpoint "checkpoint sequence did not advance") with
      | error e => rfl
      | ok _ =>
        cases rejectIf (decide (shared.header.contextEpoch < stored.contextEpoch))
          (.checkpoint "context epoch cannot move backwards") with
        | error e => rfl
        | ok _ =>
          dsimp only
          split
          · rfl
          · have hlen : storedLength (stored.context.length : Int) =
                .ok stored.context.length := by simp [storedLength]
            rw [hlen]
            dsimp only
            by_cases hshort : shared.context.length < stored.context.length
            · simp only [rejectIf, hshort, decide_true, if_true]
            · have hoffered : (contextTexts tables stored.sessionId).length =
                  (shared.context.take stored.context.length).length := by
                rw [List.length_take]
                omega
              have hrows := prefixRows_eq hrep.rows
              rw [htexts] at hrows
              simp only [rejectIf, hshort, decide_false, Bool.false_eq_true, if_false]
              rw [← hid, hrows, ← appliedHint, ← compareStored]
              split
              · rename_i hfast
                have hcompared : compareStored codecs tables stored shared cached dataVersion =
                    .ok () := by
                  rw [compareStored]
                  rcases hfast with hzero | hwhole
                  · rw [hzero, List.take_zero]
                    simp [comparePrefix]
                  · obtain ⟨cache, hhint, hmatches⟩ := (Option.any_eq_true _ _).mp hwhole
                    have happlies := (Option.filter_eq_some_iff.mp hhint).2
                    have hitems : cache.items.length = stored.context.length := by
                      simp only [hintApplies, Bool.and_eq_true, beq_iff_eq] at happlies
                      exact happlies.2
                    rw [hhint]
                    exact comparePrefix_known hoffered
                      (wholeHintMatches_known hitems hmatches)
                rw [hcompared]
              · rfl

end Compare

section Insert

variable {Text : Type} (codecs : Codecs Text)

def addContextRows (tables : Tables Text) (rows : List (ContextRow Text)) : Tables Text :=
  { tables with contextItems := tables.contextItems ++ rows }

variable {tables : Tables Text} {epoch : Int} {id : SessionId}

theorem insertContext_ok {items : List SharedItem} {start : Nat} {next : Tables Text}
    (h : insertContext codecs tables id epoch start items = .ok next) :
    next = addContextRows tables
      (storedRows id epoch start (items.map fun item => codecs.item.encode item.value)) := by
  induction items generalizing start tables with
  | nil =>
    rw [insertContext, Except.ok.injEq] at h
    rw [← h, List.map_nil, storedRows, addContextRows, List.append_nil]
  | cons item items ih =>
    rw [insertContext, except_bind_ok_iff] at h
    obtain ⟨_, _, h⟩ := h
    rw [except_bind_ok_iff] at h
    obtain ⟨_, _, h⟩ := h
    rw [ih h]
    simp only [List.map_cons, storedRows, addContextRows, List.append_assoc,
      List.singleton_append]

/-- Context items can be inserted behind the rows of their session and epoch. -/
theorem insertContext_succeeds {items : List SharedItem} {start : Nat}
    (hfits : (start + items.length : Int) ≤ i64Max)
    (hfree : ∀ row ∈ tables.contextItems, row.sessionId = id → row.epoch = epoch →
      row.itemIndex < start) :
    ∃ next, insertContext codecs tables id epoch start items = .ok next := by
  induction items generalizing start tables with
  | nil => exact ⟨tables, rfl⟩
  | cons item items ih =>
    have hindex : ¬i64Max < (start : Int) := by
      simp only [List.length_cons] at hfits
      omega
    have hkey : hasContext tables id epoch start = false := by
      rw [hasContext, List.any_eq_false]
      intro row hrow
      simp only [Bool.and_eq_true, decide_eq_true_eq, not_and]
      intro hkey hnumber
      have hlt := hfree row hrow hkey.1 hkey.2
      omega
    let row : ContextRow Text := ⟨id, epoch, start, codecs.item.encode item.value⟩
    have hrest : ∃ next, insertContext codecs
        { tables with contextItems := tables.contextItems ++ [row] } id epoch (start + 1) items =
          .ok next := by
      apply ih
      · simp only [List.length_cons] at hfits
        push_cast at hfits ⊢
        omega
      · intro other hother hid hepoch
        rcases List.mem_append.mp hother with hold | hnew
        · have hlt := hfree other hold hid hepoch
          omega
        · rw [List.mem_singleton.mp hnew]
          dsimp only [row]
          omega
    simp only [insertContext, rejectIf, hindex, hkey, decide_false, Bool.false_eq_true, if_false]
    exact hrest

def Decodes (text : Text) (item : Json) : Prop := codecs.item.decode text = .ok item

variable {codecs}

theorem collectContext_ok_iff {texts : List Text} {before result : List Json} :
    collectContext codecs epoch (before.length + texts.length) before
        (storedRows id epoch before.length texts) = .ok result ↔
      ∃ items, List.Forall₂ (Decodes codecs) texts items ∧ result = before ++ items := by
  induction texts generalizing before with
  | nil =>
    simp only [storedRows, collectContext, Except.ok.injEq, List.forall₂_nil_left_iff]
    constructor
    · rintro rfl
      exact ⟨[], rfl, (List.append_nil _).symm⟩
    · rintro ⟨items, rfl, rfl⟩
      exact (List.append_nil _).symm
  | cons text texts ih =>
    have hcount : ¬before.length + (texts.length + 1) ≤ before.length := by omega
    simp only [storedRows, collectContext, rejectIf, ne_eq, not_true, false_or, hcount,
      List.length_cons, decide_false, Bool.false_eq_true, if_false]
    cases hdecode : codecs.item.decode text with
    | error error =>
      constructor
      · intro h
        cases h
      · rintro ⟨items, hitems, -⟩
        cases hitems with
        | cons hitem _ =>
          rw [Decodes, hdecode] at hitem
          cases hitem
    | ok item =>
      have hnext := @ih (before ++ [item])
      rw [List.length_append, List.length_singleton,
        show before.length + 1 + texts.length = before.length + (texts.length + 1) by omega]
        at hnext
      refine Iff.trans hnext ⟨?_, ?_⟩
      · rintro ⟨items, hitems, rfl⟩
        exact ⟨item :: items, .cons hdecode hitems, by rw [List.append_assoc]; rfl⟩
      · rintro ⟨items, hitems, rfl⟩
        cases hitems with
        | cons hitem hrest =>
          obtain rfl := Except.ok.inj (hdecode.symm.trans hitem)
          exact ⟨_, hrest, by rw [List.append_assoc]; rfl⟩

theorem loadContext_ok_iff {texts : List Text} {items : List Json}
    (h : sessionRows tables id = storedRows id epoch 0 texts) :
    loadContext codecs tables id epoch texts.length = .ok items ↔
      List.Forall₂ (Decodes codecs) texts items := by
  have hlen : storedLength (texts.length : Int) = .ok texts.length := by simp [storedLength]
  have hcollect : ∀ result, collectContext codecs epoch texts.length []
      (storedRows id epoch 0 texts) = .ok result ↔
        List.Forall₂ (Decodes codecs) texts result := by
    intro result
    have hiff := @collectContext_ok_iff _ codecs epoch id texts [] result
    rw [List.length_nil, Nat.zero_add] at hiff
    simpa using hiff
  simp only [loadContext, hlen, contextRows_eq h, except_bind_ok_iff, Except.ok.injEq,
    exists_eq_left', hcollect]
  constructor
  · rintro ⟨result, hresult, _, -, hsame⟩
    exact Except.ok.inj hsame ▸ hresult
  · intro hitems
    refine ⟨items, hitems, (), ?_, rfl⟩
    simp [rejectIf, hitems.length_eq]

theorem decodes_of_written {texts : List Text} {items : List Json} (hlossless : codecs.Lossless)
    (h : List.Forall₂ (Written codecs) texts items) : List.Forall₂ (Decodes codecs) texts items :=
  h.imp fun _ item hitem => hitem.decode (hlossless.item item)

end Insert

end MobiusAgent.StoreContext
