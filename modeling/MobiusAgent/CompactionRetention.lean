import MobiusAgent.CompactionHandoff
import MobiusAgent.FilteredViews
import MobiusAgent.ForkedContexts

/-!
# What a checkpoint retains

The retained input holds everything from the summarised boundary on, the
messages and the latest complete batch of the active turn, and with them every
call and output from one complete boundary on. The boundary of a portable
history is mapped to the one of the input that shows as much.
-/

namespace MobiusAgent.CompactionRetention

open JsonValue ProtocolEvents ContextItems CallPairing ToolBoundaries FilteredViews
  CompactionHandoff
open CheckpointValidation (bind_ok)
open SessionForks (internalMessageKind)

section Statements

variable (decode : Json → Option MessageEvent)

/-- What the writers of a model input give every item. -/
structure WellFormed (item : Json) : Prop where
  identity : HasIdentity item
  user : isUser item = true → itemType item = none
  control : isControl item = true → isUser item = true
  message : (messageMetadata decode item).isSome = true →
    isUser item = true ∧ isControl item = false

/-- A model input that is replayed: its items are well-formed, and outputs have calls. -/
structure Replayed (input : List Json) : Prop where
  items : ∀ item ∈ input, WellFormed decode item
  called : Called [] (signalsFrom 0 input)

/-- The start of the latest complete batch with a call of the active turn. -/
structure LatestBatch (input : List Json) (start call : Nat) : Prop where
  called : ∃ item, input[call]? = some item ∧ isFunctionCall item = true
  last : ∀ later item, call < later → input[later]? = some item → isFunctionCall item = false
  active : activeTurn decode input ≤ call
  holds : start ≤ call
  complete : start = 0 ∨ start ∈ toolCompleteBoundaries input
  latest : ∀ boundary ∈ toolCompleteBoundaries input, boundary ≤ call → boundary ≤ start

/-- The numbered items that a checkpoint keeps of an input that was summarised up to a boundary. -/
structure Keeps (input : List Json) (summarized : Nat) (kept : List (Json × Nat)) : Prop where
  ordered : kept.Sublist input.zipIdx
  paired : ToolPaired (kept.map (·.1))
  /-- Every item from the boundary on is kept, requests of a compaction apart. -/
  later : ∀ place ∈ input.zipIdx, summarized ≤ place.2 → isRequest place.1 = false → place ∈ kept
  /-- Every item of the user in the active turn is kept, control items apart. -/
  users : ∀ place ∈ input.zipIdx, activeTurn decode input ≤ place.2 → isUser place.1 = true →
    isControl place.1 = false → place ∈ kept
  /-- The latest complete batch of the active turn is kept, control items apart. -/
  batch : ∀ start call, LatestBatch decode input start call → ∀ place ∈ input.zipIdx,
    start ≤ place.2 → isControl place.1 = false → place ∈ kept
  /-- The message that starts the active turn is kept with its metadata. -/
  message : ∀ place ∈ input.zipIdx, place.2 = activeTurn decode input →
    startsTurn decode place.1 = true → place ∈ kept
  /-- What is not kept is a request or stands before the boundary. -/
  dropped : ∀ place ∈ input.zipIdx, place ∉ kept →
    isRequest place.1 = true ∨ place.2 < summarized

end Statements

section Boundaries

variable {decode : Json → Option MessageEvent}

theorem isControl_of_request {item : Json} (h : isRequest item = true) : isControl item = true := by
  unfold isControl
  rw [h, Bool.or_true]

theorem lastBoundary_complete (boundaries : List Nat) (place : Nat) :
    lastBoundary boundaries place = 0 ∨
      (lastBoundary boundaries place ∈ boundaries ∧ lastBoundary boundaries place ≤ place) := by
  unfold lastBoundary
  cases hlast : (boundaries.takeWhile (· ≤ place)).getLast? with
  | none => exact .inl rfl
  | some boundary =>
    right
    have hmember := List.mem_of_getLast? hlast
    constructor
    · exact (List.takeWhile_sublist _).subset hmember
    · have hall := List.all_eq_true.mp (List.all_takeWhile ) boundary hmember
      exact of_decide_eq_true hall

theorem le_lastBoundary {boundaries : List Nat} (hsorted : boundaries.Pairwise (· < ·))
    {place boundary : Nat} (hmember : boundary ∈ boundaries) (hplace : boundary ≤ place) :
    boundary ≤ lastBoundary boundaries place := by
  induction boundaries with
  | nil => exact absurd hmember List.not_mem_nil
  | cons first rest ih =>
    obtain ⟨hfirst, hrest⟩ := List.pairwise_cons.mp hsorted
    have hbefore : first ≤ boundary := by
      rcases List.mem_cons.mp hmember with hsame | hlater
      · omega
      · have hless := hfirst boundary hlater
        omega
    have hstep : lastBoundary (first :: rest) place =
        ((rest.takeWhile (· ≤ place)).getLast?).getD first := by
      unfold lastBoundary
      rw [List.takeWhile_cons_of_pos (by simpa using hbefore.trans hplace), List.getLast?_cons]
      rfl
    rcases List.mem_cons.mp hmember with hsame | hlater
    · rw [hstep, hsame]
      cases hlast : (rest.takeWhile (· ≤ place)).getLast? with
      | none => exact le_refl first
      | some found =>
        have hfound := (List.takeWhile_sublist _).subset (List.mem_of_getLast? hlast)
        have hless := hfirst found hfound
        change first ≤ found
        omega
    · have hlast := ih hrest hlater
      rw [hstep]
      unfold lastBoundary at hlast
      cases hsome : (rest.takeWhile (· ≤ place)).getLast? with
      | none =>
        rw [hsome] at hlast
        have hless := hfirst boundary hlater
        change boundary ≤ 0 at hlast
        omega
      | some found =>
        rw [hsome] at hlast
        exact hlast

theorem tailStart_complete {input : List Json}
    (hcomplete : (toolCompleteBoundaries input).getLast? = some input.length) :
    tailStart decode input = 0 ∨ tailStart decode input ∈ toolCompleteBoundaries input := by
  unfold tailStart
  cases (rposition isFunctionCall input).filter fun call => activeTurn decode input ≤ call with
  | none => exact .inr (List.mem_of_getLast? hcomplete)
  | some call =>
    rcases lastBoundary_complete (toolCompleteBoundaries input) call with hzero | ⟨hmember, _⟩
    · exact .inl hzero
    · exact .inr hmember

theorem tailStart_batch {input : List Json} {start call : Nat}
    (h : LatestBatch decode input start call) : tailStart decode input = start := by
  have hcall : rposition isFunctionCall input = some call := by
    obtain ⟨item, hitem, hfunction⟩ := h.called
    cases hfound : rposition isFunctionCall input with
    | none =>
      have hnot := rposition_none hfound item (List.mem_of_getElem? hitem)
      rw [hfunction] at hnot
      cases hnot
    | some found =>
      obtain ⟨⟨other, hother, hcalls⟩, hlater⟩ := rposition_some hfound
      rcases Nat.lt_trichotomy found call with hless | hsame | hless
      · have hnot := hlater call item hless hitem
        rw [hfunction] at hnot
        cases hnot
      · rw [hsame]
      · have hnot := h.last found other hless hother
        rw [hcalls] at hnot
        cases hnot
  unfold tailStart
  rw [hcall, Option.filter_some, if_pos (by simpa using h.active)]
  change lastBoundary (toolCompleteBoundaries input) call = start
  have hlast : start ≤ lastBoundary (toolCompleteBoundaries input) call := by
    rcases h.complete with hzero | hmember
    · omega
    · exact le_lastBoundary (boundariesFrom_sorted _ _ _) hmember h.holds
  rcases lastBoundary_complete (toolCompleteBoundaries input) call with hzero | ⟨hmember, hplace⟩
  · omega
  · have hlatest := h.latest _ hmember hplace
    omega

end Boundaries

section Retention

variable {decode : Json → Option MessageEvent}

theorem WellFormed.silent {item : Json} (h : WellFormed decode item) (huser : isUser item = true) :
    (itemSignal 0 item).loud = false := by
  rw [itemSignal_silent (h.user huser)]
  rfl

variable {summarized : Nat} {input : List Json}

theorem retains_loud {index : Nat} {item : Json} (h : WellFormed decode item)
    (hloud : (itemSignal 0 item).loud = true) :
    retains decode input summarized item index = true ↔
      min summarized (tailStart decode input) ≤ index := by
  have huser : isUser item = false := by
    by_contra hnot
    rw [h.silent (Bool.eq_true_of_not_eq_false hnot)] at hloud
    cases hloud
  have hcontrol : isControl item = false := by
    by_contra hnot
    rw [h.control (Bool.eq_true_of_not_eq_false hnot)] at huser
    cases huser
  have hrequest : isRequest item = false := by
    by_contra hnot
    rw [isControl_of_request (Bool.eq_true_of_not_eq_false hnot)] at hcontrol
    cases hcontrol
  unfold retains
  rw [huser, hcontrol, hrequest]
  simp

/-- The retained items, with their places. -/
def keptItems (decode : Json → Option MessageEvent) (input : List Json) (summarized : Nat) :
    List (Json × Nat) :=
  input.zipIdx.filter fun place => retains decode input summarized place.1 place.2

theorem kept_paired (h : Replayed decode input)
    (hcomplete : (toolCompleteBoundaries input).getLast? = some input.length)
    (hboundary : summarized ∈ toolCompleteBoundaries input) :
    ToolPaired ((keptItems decode input summarized).map (·.1)) := by
  have hwhole : Paired (signalsFrom 0 input) := by
    refine ⟨?_, h.called⟩
    have hend := (mem_toolCompleteBoundaries.mp (List.mem_of_getLast? hcomplete)).2.2
    rwa [List.take_length] at hend
  have hcut : openAfter [] (signalsFrom 0
      (input.take (min summarized (tailStart decode input)))) = [] := by
    have hsummarized := (mem_toolCompleteBoundaries.mp hboundary).2.2
    rcases Nat.le_total summarized (tailStart decode input) with hless | hless
    · rw [Nat.min_eq_left hless]
      exact hsummarized
    · rw [Nat.min_eq_right hless]
      rcases @tailStart_complete decode input hcomplete with hzero | hmember
      · rw [hzero]
        rfl
      · exact (mem_toolCompleteBoundaries.mp hmember).2.2
  have hidentity : ∀ item ∈ input, HasIdentity item := fun item hitem => (h.items item hitem).identity
  have hkept : ∀ item ∈ (keptItems decode input summarized).map (·.1), HasIdentity item := by
    intro item hitem
    obtain ⟨place, hplace, hsame⟩ := List.mem_map.mp hitem
    rw [← hsame]
    exact hidentity _ (List.fst_mem_of_mem_zipIdx (List.mem_filter.mp hplace).1)
  have hrest : Paired ((input.drop (min summarized (tailStart decode input))).map
      (itemSignal 0)) := by
    have hsplit := hwhole
    rw [← List.take_append_drop (min summarized (tailStart decode input)) input,
      signalsFrom_append] at hsplit
    have hlater := hsplit.rest hcut
    rwa [signalsFrom_identity fun item hitem => hidentity item (List.mem_of_mem_drop hitem)]
      at hlater
  have hloud := @loud_from_cut Json
    (fun place => retains decode input summarized place.1 place.2)
    (fun item => (itemSignal 0 item).loud) (min summarized (tailStart decode input)) input 0
    fun place hplace hloud =>
      retains_loud (h.items _ (List.fst_mem_of_mem_zipIdx hplace)) hloud
  unfold ToolPaired
  rw [signalsFrom_identity hkept]
  refine hrest.congr ?_
  rw [List.filter_map, List.filter_map]
  exact congrArg (List.map (itemSignal 0)) hloud.symm

theorem kept_needed (h : Replayed decode input)
    (hcomplete : (toolCompleteBoundaries input).getLast? = some input.length)
    (hboundary : summarized ∈ toolCompleteBoundaries input) :
    Keeps decode input summarized (keptItems decode input summarized) := by
  have hkept : ∀ place ∈ input.zipIdx,
      retains decode input summarized place.1 place.2 = true →
        place ∈ keptItems decode input summarized :=
    fun place hplace hretains => List.mem_filter.mpr ⟨hplace, hretains⟩
  have hrequest : ∀ item, isControl item = false → isRequest item = false := by
    intro item hcontrol
    by_contra hnot
    rw [isControl_of_request (Bool.eq_true_of_not_eq_false hnot)] at hcontrol
    cases hcontrol
  have husers : ∀ place ∈ input.zipIdx, activeTurn decode input ≤ place.2 →
      isUser place.1 = true → isControl place.1 = false →
        place ∈ keptItems decode input summarized := by
    intro place hplace hactive huser hcontrol
    refine hkept place hplace ?_
    unfold retains
    rw [hrequest _ hcontrol, hcontrol, huser, decide_eq_true hactive]
    simp
  constructor
  · exact List.filter_sublist
  · exact kept_paired h hcomplete hboundary
  · intro place hplace hlater hnot
    refine hkept place hplace ?_
    unfold retains
    rw [hnot, decide_eq_true hlater]
    simp
  · exact husers
  · intro start call hbatch place hplace hstart hcontrol
    refine hkept place hplace ?_
    unfold retains
    rw [tailStart_batch hbatch, hrequest _ hcontrol, hcontrol, decide_eq_true hstart]
    simp
  · intro place hplace hactive hstarts
    have hmessage : (messageMetadata decode place.1).isSome = true := by
      unfold startsTurn at hstarts
      cases hmetadata : messageMetadata decode place.1 with
      | none =>
        rw [hmetadata] at hstarts
        cases hstarts
      | some message => rfl
    obtain ⟨huser, hcontrol⟩ := (h.items _ (List.fst_mem_of_mem_zipIdx hplace)).message hmessage
    exact husers place hplace (le_of_eq hactive.symm) huser hcontrol
  · intro place hplace hnot
    by_contra hneither
    obtain ⟨hrequested, hlater⟩ := not_or.mp hneither
    refine hnot (hkept place hplace ?_)
    unfold retains
    rw [Bool.eq_false_iff.mpr hrequested, decide_eq_true (Nat.le_of_not_lt hlater)]
    simp

theorem retainedInputUntil_ok_iff (input : List Json) (summarized : Nat) (retained : List Json) :
    retainedInputUntil decode input summarized = .ok retained ↔
      (toolCompleteBoundaries input).getLast? = some input.length ∧
        retained = (keptItems decode input summarized).map (·.1) := by
  unfold retainedInputUntil
  by_cases hcomplete : (toolCompleteBoundaries input).getLast? = some input.length
  · rw [if_neg (fun hnot => hnot hcomplete)]
    constructor
    · intro h
      exact ⟨hcomplete, (Except.ok.inj h).symm⟩
    · intro h
      rw [h.2]
      rfl
  · rw [if_pos hcomplete]
    constructor
    · intro h
      cases h
    · intro h
      exact absurd h.1 hcomplete

end Retention

section Portable

variable {decode : Json → Option MessageEvent}

/-- Whether an item is sent to any route. -/
def isPortable (item : Json) : Bool := !isProviderReasoning item

/-- An item as any route reads it. -/
def portableItem (item : Json) : Json :=
  if hasProviderReasoning item then stripReasoningFields item else item

theorem strip_eq (input : List Json) :
    stripProviderReasoning input = (input.filter isPortable).map portableItem := rfl

theorem get_portableItem {key : String} (hkey : key ∉ replayReasoningFields) (item : Json) :
    (portableItem item).get key = item.get key := by
  unfold portableItem
  by_cases hreasoning : hasProviderReasoning item = true
  · have hne : ∀ field ∈ replayReasoningFields, key ≠ field := by
      intro field hfield hsame
      rw [hsame] at hkey
      exact hkey hfield
    rw [if_pos hreasoning]
    change (((item.remove "_mobius_reasoning").remove "_anthropic_content").remove
      "_mistral_thinking").get key = _
    rw [Json.get_remove_ne (hne _ (by decide)), Json.get_remove_ne (hne _ (by decide)),
      Json.get_remove_ne (hne _ (by decide))]
  · rw [if_neg hreasoning]

theorem getStr_portableItem {key : String} (hkey : key ∉ replayReasoningFields) (item : Json) :
    (portableItem item).getStr key = item.getStr key := by
  unfold Json.getStr
  rw [get_portableItem hkey]

theorem signal_portableItem (item : Json) :
    itemSignal 0 (portableItem item) = itemSignal 0 item ∧
      (HasIdentity item → HasIdentity (portableItem item)) :=
  itemSignal_congr (getStr_portableItem (by decide) item) (getStr_portableItem (by decide) item)
    (getStr_portableItem (by decide) item)

theorem reasoning_silent {item : Json} (h : isPortable item = false) :
    (itemSignal 0 item).loud = false := by
  have htype : itemType item = some "reasoning" := by
    unfold isPortable isProviderReasoning at h
    simpa using h
  unfold itemSignal
  rw [if_neg (by rw [htype]; decide), if_neg (by rw [htype]; decide),
    if_neg (by rw [htype]; decide)]
  rfl

theorem openAfter_strip {items : List Json} (h : ∀ item ∈ items, HasIdentity item) :
    openAfter [] (signalsFrom 0 (stripProviderReasoning items)) =
      openAfter [] (signalsFrom 0 items) := by
  have hstripped : ∀ item ∈ stripProviderReasoning items, HasIdentity item := by
    intro item hitem
    rw [strip_eq] at hitem
    obtain ⟨other, hother, hsame⟩ := List.mem_map.mp hitem
    rw [← hsame]
    exact (signal_portableItem other).2 (h other (List.mem_filter.mp hother).1)
  rw [signalsFrom_identity hstripped, signalsFrom_identity h, strip_eq, List.map_map,
    ← openAfter_loud, ← openAfter_loud [] (items.map (itemSignal 0))]
  have hsignal : itemSignal 0 ∘ portableItem = itemSignal 0 :=
    funext fun item => (signal_portableItem item).1
  rw [hsignal, List.filter_map, List.filter_map, List.filter_filter]
  refine congrArg (fun kept => openAfter [] (List.map (itemSignal 0) kept)) ?_
  refine List.filter_congr ?_
  intro item _
  change ((itemSignal 0 item).loud && isPortable item) = (itemSignal 0 item).loud
  by_cases hportable : isPortable item = true
  · rw [hportable, Bool.and_true]
  · rw [reasoning_silent (Bool.eq_false_iff.mpr hportable)]
    rfl

theorem take_strip (input : List Json) (count : Nat) :
    (stripProviderReasoning input).take (shownBefore isPortable input count) =
      stripProviderReasoning (input.take count) := by
  rw [strip_eq, strip_eq, ← List.map_take, take_shownBefore]

theorem boundary_strip {input : List Json} (h : ∀ item ∈ input, HasIdentity item) {count : Nat}
    (hcount : count ≤ input.length)
    (hboundary : shownBefore isPortable input count ∈
      toolCompleteBoundaries (stripProviderReasoning input)) :
    count ∈ toolCompleteBoundaries input := by
  obtain ⟨hpositive, _, hopen⟩ := mem_toolCompleteBoundaries.mp hboundary
  rw [take_strip, openAfter_strip fun item hitem => h item (List.mem_of_mem_take hitem)] at hopen
  refine mem_toolCompleteBoundaries.mpr ⟨?_, hcount, hopen⟩
  by_contra hzero
  have hnone : count = 0 := by omega
  rw [hnone, shownBefore_zero] at hpositive
  omega

/-- The last place with a property in a view that shows all that have it. -/
theorem rposition_view {shows holds : Json → Bool} {view : Json → Json} {items : List Json}
    (hshown : ∀ item ∈ items, holds item = true → shows item = true)
    (hview : ∀ item, holds (view item) = holds item) :
    rposition holds ((items.filter shows).map view) =
      (rposition holds items).map (shownBefore shows items) := by
  induction items with
  | nil => rfl
  | cons item rest ih =>
    have hrest := ih fun other hother => hshown other (List.mem_cons_of_mem _ hother)
    have hitem := hshown item List.mem_cons_self
    rw [List.filter_cons]
    by_cases hshows : shows item = true
    · rw [if_pos hshows, List.map_cons, rposition, rposition, hrest]
      cases hlater : rposition holds rest with
      | some index =>
        change some (shownBefore shows rest index + 1) =
          some (shownBefore shows (item :: rest) (index + 1))
        rw [shownBefore_cons, if_pos hshows, Nat.add_comm]
      | none =>
        change (if holds (view item) = true then some 0 else none) =
          Option.map _ (if holds item = true then some 0 else none)
        rw [hview]
        by_cases hholds : holds item = true
        · rw [if_pos hholds]
          rfl
        · rw [if_neg hholds]
          rfl
    · have hholds : holds item = false := by
        by_contra hnot
        exact hshows (hitem (Bool.eq_true_of_not_eq_false hnot))
      rw [if_neg hshows, rposition, hrest]
      cases hlater : rposition holds rest with
      | some index =>
        change some (shownBefore shows rest index) =
          some (shownBefore shows (item :: rest) (index + 1))
        rw [shownBefore_cons, if_neg hshows, Nat.zero_add]
      | none =>
        change none = Option.map _ (if holds item = true then some 0 else none)
        rw [hholds]
        rfl

theorem activeTurn_le (decode : Json → Option MessageEvent) (input : List Json) :
    activeTurn decode input ≤ input.length := by
  have hplace : ∀ (holds : Json → Bool) index, rposition holds input = some index →
      index ≤ input.length := by
    intro holds index hindex
    obtain ⟨⟨item, hitem, _⟩, _⟩ := rposition_some hindex
    exact (List.getElem?_eq_some_iff.mp hitem).1.le
  unfold activeTurn
  cases hstarts : rposition (startsTurn decode) input with
  | some index => exact hplace _ index hstarts
  | none =>
    cases hplain : rposition (fun item => !isInternalMessage item && isUser item) input with
    | some index => exact hplace _ index hplain
    | none => exact Nat.zero_le _

/-- The active turn of the portable form starts where that of the input does. -/
theorem activeTurn_strip {input : List Json} (h : ∀ item ∈ input, WellFormed decode item) :
    activeTurn decode (stripProviderReasoning input) =
      shownBefore isPortable input (activeTurn decode input) := by
  have huser : ∀ item ∈ input, isUser item = true → isPortable item = true := by
    intro item hitem hrole
    unfold isPortable isProviderReasoning
    rw [(h item hitem).user hrole]
    rfl
  have hstarts := @rposition_view isPortable (startsTurn decode) portableItem input
    (fun item hitem hstart => huser item hitem ((h item hitem).message (by
      unfold startsTurn at hstart
      cases hmetadata : messageMetadata decode item with
      | none =>
        rw [hmetadata] at hstart
        cases hstart
      | some message => rfl)).1)
    (fun item => by
      unfold startsTurn messageMetadata
      rw [get_portableItem (by decide)])
  have hplain := @rposition_view isPortable (fun item => !isInternalMessage item && isUser item)
    portableItem input
    (fun item hitem hplain => huser item hitem (Bool.and_eq_true_iff.mp hplain).2)
    (fun item => by
      unfold isInternalMessage internalMessageKind isUser
      rw [getStr_portableItem (by decide), getStr_portableItem (by decide)])
  unfold activeTurn
  rw [strip_eq, hstarts, hplain]
  cases rposition (startsTurn decode) input with
  | some index => rfl
  | none =>
    cases rposition (fun item => !isInternalMessage item && isUser item) input with
    | some index | none => rfl

end Portable

section Preparation

variable {model : Summariser} {preparation : Preparation}

theorem fitFrom_boundary {boundaries : List Nat} {budget : Nat} {items : List Json} :
    ∀ {index estimate before : Nat},
      fitFrom model boundaries budget index estimate before items = before ∨
      (fitFrom model boundaries budget index estimate before items ∈ boundaries ∧
        fitFrom model boundaries budget index estimate before items ≤ index + items.length) := by
  induction items with
  | nil =>
    intro index estimate before
    exact .inl rfl
  | cons item rest ih =>
    intro index estimate before
    unfold fitFrom
    dsimp only
    by_cases hfull : budget ≤ saturatingAdd estimate (model.itemTokens item)
    · rw [if_pos hfull]
      exact .inl rfl
    · rw [if_neg hfull, List.length_cons]
      by_cases hboundary : boundaries.contains (index + 1) = true
      · rw [if_pos hboundary]
        have hmember : index + 1 ∈ boundaries := by simpa using hboundary
        rcases @ih (index + 1) (saturatingAdd estimate (model.itemTokens item)) (index + 1) with
          hsame | ⟨hlater, hless⟩
        · rw [hsame]
          exact .inr ⟨hmember, by omega⟩
        · exact .inr ⟨hlater, by omega⟩
      · rw [if_neg hboundary]
        rcases @ih (index + 1) (saturatingAdd estimate (model.itemTokens item)) before with
          hsame | ⟨hlater, hless⟩
        · exact .inl hsame
        · exact .inr ⟨hlater, by omega⟩

variable {prepared : Prepared} {route : String}

theorem prepareResponse_ok {history : List Json} {pending : Nat}
    (h : prepareResponse model route history pending = .ok prepared) :
    prepared.summarized ∈ toolCompleteBoundaries history ∧ prepared.summarized ≤ pending ∧
      model.respond route (history.take prepared.summarized ++ [guidance model route]) =
        .ok (prepared.output, prepared.calls) := by
  unfold prepareResponse at h
  obtain ⟨count, hcount, h⟩ := bind_ok h
  by_cases hzero : count = 0
  · rw [if_pos hzero] at h
    cases h
  · rw [if_neg hzero] at h
    obtain ⟨answer, hanswer, h⟩ := bind_ok h
    have hprepared : (⟨answer.1, answer.2, count⟩ : Prepared) = prepared := Except.ok.inj h
    rw [← hprepared]
    unfold fitted at hcount
    obtain ⟨budget, _, hcount⟩ := bind_ok hcount
    have hfit := Except.ok.inj hcount
    have hboundary := @fitFrom_boundary model (toolCompleteBoundaries history) budget
      (history.take pending) 0
      (saturatingAdd model.overhead (model.itemTokens (guidance model route))) 0
    rw [hfit, List.length_take] at hboundary
    rcases hboundary with hnone | ⟨hmember, hless⟩
    · exact absurd hnone hzero
    · have hpending : count ≤ pending := by omega
      exact ⟨hmember, hpending, hanswer⟩

/-- A response of a route that was given a beginning of the input. -/
structure PreparedFrom (model : Summariser) (preparation : Preparation) (prepared : Prepared)
    (route : String) (given : List Json) : Prop where
  boundary : prepared.summarized ∈ toolCompleteBoundaries preparation.input
  answered : model.respond route (given ++ [guidance model route]) =
    .ok (prepared.output, prepared.calls)
  sent : given = preparation.input.take prepared.summarized ∨
    given = stripProviderReasoning (preparation.input.take prepared.summarized)

theorem PreparedFrom.gives {given : List Json}
    (h : PreparedFrom model preparation prepared route given) {place : Json × Nat}
    (hplace : place ∈ preparation.input.zipIdx) (hbefore : place.2 < prepared.summarized) :
    isProviderReasoning place.1 = true ∨ place.1 ∈ given ∨ portableItem place.1 ∈ given := by
  have hmember : place.1 ∈ preparation.input.take prepared.summarized := by
    refine List.mem_of_getElem? (i := place.2) ?_
    rw [List.getElem?_take_of_lt hbefore]
    exact List.mem_zipIdx_iff_getElem?.mp hplace
  rcases h.sent with hwhole | hportable
  · rw [hwhole]
    exact .inr (.inl hmember)
  · by_cases hreasoning : isProviderReasoning place.1 = true
    · exact .inl hreasoning
    · right
      right
      rw [hportable, strip_eq]
      refine List.mem_map_of_mem (List.mem_filter.mpr ⟨hmember, ?_⟩)
      unfold isPortable
      rw [Bool.eq_false_iff.mpr hreasoning]
      rfl

theorem durableBoundary_ok
    (h : ∀ item ∈ preparation.input, WellFormed model.decode item) {summarized found : Nat}
    (hpositive : 0 < summarized)
    (hfound : durableBoundary model preparation
      (pendingIn model preparation (stripProviderReasoning preparation.input)) summarized =
        .ok found) :
    found ≤ preparation.input.length ∧
      shownBefore isPortable preparation.input found = summarized := by
  have hlength : (stripProviderReasoning preparation.input).length =
      shownBefore isPortable preparation.input preparation.input.length := by
    rw [shownBefore_length, strip_eq, List.length_map]
  have hactive := activeTurn_le model.decode preparation.input
  unfold durableBoundary pendingIn at hfound
  rw [activeTurn_strip h, hlength] at hfound
  by_cases hpending : summarized = (if preparation.switching then
      shownBefore isPortable preparation.input (activeTurn model.decode preparation.input)
    else shownBefore isPortable preparation.input preparation.input.length)
  · rw [if_pos hpending] at hfound
    have hsame := Except.ok.inj hfound
    cases hswitching : preparation.switching with
    | true =>
      rw [hswitching] at hpending hsame
      rw [← hsame, hpending]
      exact ⟨hactive, rfl⟩
    | false =>
      rw [hswitching] at hpending hsame
      rw [← hsame, hpending]
      exact ⟨le_refl _, rfl⟩
  · rw [if_neg hpending] at hfound
    cases hindex : (portableIndices preparation.input)[summarized - 1]? with
    | none =>
      rw [hindex] at hfound
      cases hfound
    | some index =>
      rw [hindex] at hfound
      have hsame : index + 1 = found := Except.ok.inj hfound
      obtain ⟨_, hlast, hshown⟩ := @shown_place Json isPortable preparation.input 0 _ _ hindex
      rw [← hsame]
      refine ⟨by omega, ?_⟩
      change shownBefore isPortable preparation.input (index + 1) = summarized - 1 + 1 at hshown
      omega

theorem preparePortableResponse_ok (h : ∀ item ∈ preparation.input, WellFormed model.decode item)
    (hprepared : preparePortableResponse model preparation route = .ok prepared) :
    ∃ given, PreparedFrom model preparation prepared route given := by
  unfold preparePortableResponse at hprepared
  obtain ⟨response, hresponse, hprepared⟩ := bind_ok hprepared
  obtain ⟨found, hfound, hprepared⟩ := bind_ok hprepared
  have hsame : ({ response with summarized := found } : Prepared) = prepared :=
    Except.ok.inj hprepared
  obtain ⟨hboundary, _, hanswer⟩ := prepareResponse_ok hresponse
  have hpositive := (mem_toolCompleteBoundaries.mp hboundary).1
  obtain ⟨hlength, hshown⟩ := durableBoundary_ok h hpositive hfound
  rw [← hshown] at hboundary hanswer
  rw [take_strip] at hanswer
  rw [← hsame]
  refine ⟨_, ?_, hanswer, .inr rfl⟩
  exact boundary_strip (fun item hitem => (h item hitem).identity) hlength hboundary

theorem anyResponse_ok (h : ∀ item ∈ preparation.input, WellFormed model.decode item)
    (hprepared : anyResponse model preparation = .ok prepared) :
    ∃ route given, PreparedFrom model preparation prepared route given := by
  have hsource : ∀ response, sourceResponse model preparation = .ok response →
      ∃ route given, PreparedFrom model preparation response route given := by
    intro response hresponse
    unfold sourceResponse at hresponse
    dsimp only at hresponse
    by_cases hmodel : model.sameContextModel
        (preparation.modelRoute.getD preparation.contextProvider) preparation.contextProvider = true
    · rw [if_pos hmodel] at hresponse
      obtain ⟨hboundary, _, hanswer⟩ := prepareResponse_ok hresponse
      exact ⟨_, _, hboundary, hanswer, .inl rfl⟩
    · rw [if_neg hmodel] at hresponse
      exact ⟨_, preparePortableResponse_ok h hresponse⟩
  unfold anyResponse at hprepared
  cases hresult : sourceResponse model preparation with
  | ok response =>
    rw [hresult] at hprepared
    rw [← Except.ok.inj hprepared]
    exact hsource response hresult
  | error error =>
    rw [hresult] at hprepared
    change (if mayFallBack preparation error then
      preparePortableResponse model preparation preparation.provider
      else .error error) = .ok prepared at hprepared
    by_cases hfall : mayFallBack preparation error = true
    · rw [if_pos hfall] at hprepared
      exact ⟨_, preparePortableResponse_ok h hprepared⟩
    · rw [if_neg hfall] at hprepared
      cases hprepared

theorem noteMessage_wellFormed (decode : Json → Option MessageEvent) (notes : String) :
    WellFormed decode (noteMessage notes) := by
  constructor
  · rintro (hcall | hsearch)
    · cases hcall
    · cases hsearch
  · intro _
    rfl
  · intro _
    rfl
  · intro hmessage
    cases hmessage

theorem fresh_replayed {decode : Json → Option MessageEvent} {kept : List Json} (notes : String)
    (hitems : ∀ item ∈ kept, WellFormed decode item) (hpaired : ToolPaired kept) :
    ToolPaired (noteMessage notes :: kept) ∧ Replayed decode (noteMessage notes :: kept) := by
  have hall : ∀ item ∈ noteMessage notes :: kept, WellFormed decode item := by
    intro item hitem
    rcases List.mem_cons.mp hitem with hnote | hrest
    · rw [hnote]
      exact noteMessage_wellFormed decode notes
    · exact hitems item hrest
  have hfresh : ToolPaired (noteMessage notes :: kept) := by
    unfold ToolPaired at hpaired ⊢
    rw [signalsFrom_identity fun item hitem => (hitems item hitem).identity] at hpaired
    rw [signalsFrom_identity fun item hitem => (hall item hitem).identity]
    refine hpaired.congr ?_
    rw [List.map_cons]
    rfl
  exact ⟨hfresh, hall, hfresh.called⟩

/-- A checkpoint keeps what the conversation still needs. For every replayed input and every
boundary the retained input is tool-complete and in order; it holds every item from the boundary on
but requests, and every item of the user, the message and the latest complete batch of the active
turn but control items; everything else stood before the boundary. A prepared checkpoint is such an
input after the notes; what it lacks is a request, reasoning or in what the summariser was sent. -/
theorem checkpoint_keeps_needed (model : Summariser) (preparation : Preparation)
    (h : Replayed model.decode preparation.input) :
    (∀ summarized ∈ toolCompleteBoundaries preparation.input, ∀ retained,
      retainedInputUntil model.decode preparation.input summarized = .ok retained →
        ∃ kept, Keeps model.decode preparation.input summarized kept ∧
          retained = kept.map (·.1)) ∧
    ∀ result, prepareCheckpoint model preparation = .ok result →
      ∃ prepared route given notes kept, PreparedFrom model preparation prepared route given ∧
        Keeps model.decode preparation.input prepared.summarized kept ∧
        (∀ place ∈ preparation.input.zipIdx, place ∉ kept → isRequest place.1 = true ∨
          isProviderReasoning place.1 = true ∨ place.1 ∈ given ∨ portableItem place.1 ∈ given) ∧
        result.fresh = noteMessage notes :: kept.map (·.1) ∧ ToolPaired result.fresh ∧
        Replayed model.decode result.fresh := by
  have hretained : ∀ summarized ∈ toolCompleteBoundaries preparation.input, ∀ retained,
      retainedInputUntil model.decode preparation.input summarized = .ok retained →
        ∃ kept, Keeps model.decode preparation.input summarized kept ∧
          retained = kept.map (·.1) := by
    intro summarized hboundary retained hresult
    obtain ⟨hcomplete, hsame⟩ := (retainedInputUntil_ok_iff _ _ _).mp hresult
    exact ⟨_, kept_needed h hcomplete hboundary, hsame⟩
  refine ⟨hretained, ?_⟩
  intro result hresult
  unfold prepareCheckpoint at hresult
  obtain ⟨prepared, hprepared, hresult⟩ := bind_ok hresult
  obtain ⟨call, _, hresult⟩ := bind_ok hresult
  obtain ⟨notes, _, hresult⟩ := bind_ok hresult
  obtain ⟨_, _, hresult⟩ := bind_ok hresult
  obtain ⟨retained, hretain, hresult⟩ := bind_ok hresult
  obtain ⟨route, given, hfrom⟩ := anyResponse_ok h.items hprepared
  obtain ⟨kept, hkeeps, hsame⟩ := hretained _ hfrom.boundary _ hretain
  have hfresh : result.fresh = noteMessage notes :: kept.map (·.1) := by
    rw [← Except.ok.inj hresult, ← hsame]
  have hitems : ∀ item ∈ kept.map (·.1), WellFormed model.decode item := by
    intro item hitem
    obtain ⟨place, hplace, hitem⟩ := List.mem_map.mp hitem
    rw [← hitem]
    exact h.items _ (List.fst_mem_of_mem_zipIdx (hkeeps.ordered.subset hplace))
  obtain ⟨hpaired, hreplayed⟩ := fresh_replayed notes hitems hkeeps.paired
  refine ⟨prepared, route, given, notes, kept, hfrom, hkeeps, ?_, hfresh, ?_, ?_⟩
  · intro place hplace hdropped
    rcases hkeeps.dropped place hplace hdropped with hrequest | hbefore
    · exact .inl hrequest
    · exact .inr (hfrom.gives hplace hbefore)
  · rw [hfresh]
    exact hpaired
  · rw [hfresh]
    exact hreplayed

end Preparation

section Samples

open ForkedContexts (plainCodec userItem)

theorem userItem_wellFormed (text : String) :
    WellFormed plainCodec.decodeMessage (userItem text) := by
  constructor
  · rintro (hcall | hsearch)
    · cases hcall
    · cases hsearch
  · intro _
    rfl
  · intro _
    rfl
  · intro _
    exact ⟨rfl, rfl⟩

theorem other_wellFormed {item : Json} (hidentity : HasIdentity item)
    (huser : isUser item = false) (hcontrol : isControl item = false)
    (hmessage : item.get messageMetadataField = none) :
    WellFormed plainCodec.decodeMessage item := by
  constructor
  · exact hidentity
  · intro h
    rw [huser] at h
    cases h
  · intro h
    rw [hcontrol] at h
    cases h
  · intro h
    unfold messageMetadata at h
    rw [hmessage] at h
    cases h

def callItem (name : String) : Json :=
  .obj [("arguments", .str "\x7b\x7d"), ("call_id", .str "a"), ("name", .str name),
    ("type", .str "function_call")]

def outputItem : Json :=
  .obj [("call_id", .str "a"), ("output", .str "done"), ("type", .str "function_call_output")]

def reasoningItem : Json := .obj [("type", .str "reasoning")]

def replyItem : Json := .obj [("role", .str "assistant"), ("type", .str "message")]

theorem callItem_wellFormed (name : String) :
    WellFormed plainCodec.decodeMessage (callItem name) :=
  other_wellFormed (fun _ => ⟨"a", rfl, rfl⟩) rfl rfl rfl

theorem outputItem_wellFormed : WellFormed plainCodec.decodeMessage outputItem := by
  refine other_wellFormed ?_ rfl rfl rfl
  rintro (hcall | hsearch)
  · exact absurd hcall (by decide)
  · exact absurd hsearch (by decide)

theorem reasoningItem_wellFormed : WellFormed plainCodec.decodeMessage reasoningItem := by
  refine other_wellFormed ?_ rfl rfl rfl
  rintro (hcall | hsearch)
  · exact absurd hcall (by decide)
  · exact absurd hsearch (by decide)

theorem replyItem_wellFormed : WellFormed plainCodec.decodeMessage replyItem := by
  refine other_wellFormed ?_ rfl rfl rfl
  rintro (hcall | hsearch)
  · exact absurd hcall (by decide)
  · exact absurd hsearch (by decide)

/-- A turn with a batch, and the message of the next turn. -/
def batchInput : List Json :=
  [userItem "task", reasoningItem, callItem "read", outputItem, replyItem, userItem "next"]

theorem batchInput_replayed : Replayed plainCodec.decodeMessage batchInput := by
  constructor
  · intro item hitem
    simp only [batchInput, List.mem_cons, List.not_mem_nil, or_false] at hitem
    rcases hitem with hitem | hitem | hitem | hitem | hitem | hitem
    · exact hitem ▸ userItem_wellFormed "task"
    · exact hitem ▸ reasoningItem_wellFormed
    · exact hitem ▸ callItem_wellFormed "read"
    · exact hitem ▸ outputItem_wellFormed
    · exact hitem ▸ replyItem_wellFormed
    · exact hitem ▸ userItem_wellFormed "next"
  · have hsignals : signalsFrom 0 batchInput =
        [.silent, .silent, .opens "a", .closes "a", .silent, .silent] := by rfl
    rw [hsignals]
    refine called_cons nofun (called_cons nofun (called_cons nofun (called_cons ?_
      (called_cons nofun (called_cons nofun ?_)))))
    · intro key hkey
      rw [← Signal.closes.inj hkey]
      exact List.mem_cons_self
    · intro earlier key later hsplit
      simp at hsplit

def writeCall : ToolCall := ⟨"w", "write_handoff", .obj [("notes", .str "the batch was read")]⟩

/-- A summariser on other routes that has room for four items. -/
def smallSummariser : Summariser where
  sameContextModel := (· == ·)
  budget _ := .ok 5
  itemTokens _ := 1
  overhead := 0
  prompt _ := "Write notes."
  respond _ _ := .ok ([replyItem], [writeCall])
  encoding := ⟨fun _ => .null, fun _ => .null, fun _ => .null, fun _ => "", fun _ => .null,
    fun _ => .ok ()⟩
  decode := plainCodec.decodeMessage

/-- The preparation of a switch between routes. -/
def batchPreparation : Preparation := ⟨batchInput, "old", "new", some "small", true⟩

/-- The portable part that fits ends with the batch; the reply and the next message are kept. -/
theorem checkpoint_keeps_needed_batch :
    ∃ result, prepareCheckpoint smallSummariser batchPreparation = .ok result ∧
      result.fresh = [noteMessage "the batch was read", replyItem, userItem "next"] ∧
      ∃ prepared route given notes kept,
        PreparedFrom smallSummariser batchPreparation prepared route given ∧
        Keeps smallSummariser.decode batchPreparation.input prepared.summarized kept ∧
        (∀ place ∈ batchPreparation.input.zipIdx, place ∉ kept → isRequest place.1 = true ∨
          isProviderReasoning place.1 = true ∨ place.1 ∈ given ∨ portableItem place.1 ∈ given) ∧
        result.fresh = noteMessage notes :: kept.map (·.1) ∧ ToolPaired result.fresh ∧
        Replayed smallSummariser.decode result.fresh :=
  ⟨⟨[noteMessage "the batch was read", replyItem, userItem "next"], true,
    [replyItem, toolOutput smallSummariser.encoding "w"
      [.text "Saved this chat's handoff checkpoint."] false]⟩, by rfl, rfl,
    (checkpoint_keeps_needed smallSummariser batchPreparation batchInput_replayed).2 _ (by rfl)⟩

/-- A turn that wrote notes of its own. -/
def notedInput : List Json :=
  [userItem "task", callItem "write_handoff", outputItem, noteMessage "half of it is done"]

/-- The notes of a turn are an item of the user that its checkpoint drops. -/
theorem notes_of_turn_are_dropped :
    Replayed plainCodec.decodeMessage notedInput ∧ 4 ∈ toolCompleteBoundaries notedInput ∧
      activeTurn plainCodec.decodeMessage notedInput = 0 ∧
      isUser (noteMessage "half of it is done") = true ∧
      retainedInputUntil plainCodec.decodeMessage notedInput 4 =
        .ok [userItem "task", callItem "write_handoff", outputItem] := by
  refine ⟨⟨?_, ?_⟩, by decide +kernel, by rfl, by rfl, by rfl⟩
  · intro item hitem
    simp only [notedInput, List.mem_cons, List.not_mem_nil, or_false] at hitem
    rcases hitem with hitem | hitem | hitem | hitem
    · exact hitem ▸ userItem_wellFormed "task"
    · exact hitem ▸ callItem_wellFormed "write_handoff"
    · exact hitem ▸ outputItem_wellFormed
    · exact hitem ▸ noteMessage_wellFormed plainCodec.decodeMessage "half of it is done"
  · have hsignals : signalsFrom 0 notedInput =
        [.silent, .opens "a", .closes "a", .silent] := by rfl
    rw [hsignals]
    refine called_cons nofun (called_cons nofun (called_cons ?_ (called_cons nofun ?_)))
    · intro key hkey
      rw [← Signal.closes.inj hkey]
      exact List.mem_cons_self
    · intro earlier key later hsplit
      simp at hsplit

end Samples

end MobiusAgent.CompactionRetention
