import Mathlib.Data.String.Basic
import MobiusAgent.ModelOutputs

/-!
# The contexts that the agent commits

Every way an item enters or changes in the durable context: accepted model
output with rewritten calls, tool results, loads of tools, messages of users
and sources, messages of the middleware, the removal of provider reasoning
and the rewrite by a compaction. `Durable` is what all of their items have in
common, and `Committed.durable` proves it over every such context.
-/

namespace MobiusAgent.CommittedContexts

open JsonValue ProtocolEvents CheckpointValidation ContextItems ResponsesWire ProviderMessages
  ModelOutputs MessageReload

section Ordered

/-- The fields of an object are kept in key order, as `serde_json` keeps them. -/
def OrderedFields (fields : List (String × Json)) : Prop :=
  fields.Pairwise fun first second => first.1 < second.1

/-- A value whose own fields, if it has any, are in key order. -/
def Ordered (item : Json) : Prop := ∀ fields, item.asObject = some fields → OrderedFields fields

variable {fields : List (String × Json)} {item : Json}

theorem ordered_of_keys (hfields : item.asObject = some fields)
    (hkeys : (fields.map Prod.fst).Pairwise (· < ·)) : Ordered item := by
  intro other hother
  obtain rfl := Option.some.inj (hfields.symm.trans hother)
  exact List.pairwise_map.mp hkeys

theorem mem_insertField {key : String} {value : Json} {field : String × Json}
    (h : field ∈ Json.insertField key value fields) : field.1 = key ∨ field ∈ fields := by
  induction fields with
  | nil =>
    rw [Json.insertField, List.mem_singleton] at h
    exact .inl (by rw [h])
  | cons first rest ih =>
    obtain ⟨name, old⟩ := first
    unfold Json.insertField at h
    split at h
    · cases List.mem_cons.mp h with
      | inl hfield => exact .inl (by rw [hfield])
      | inr hrest => exact .inr (List.mem_cons_of_mem _ hrest)
    · split at h
      · cases List.mem_cons.mp h with
        | inl hfield => exact .inl (by rw [hfield])
        | inr hrest => exact .inr hrest
      · cases List.mem_cons.mp h with
        | inl hfield => exact .inr (by rw [hfield]; exact List.mem_cons_self)
        | inr hrest =>
          cases ih hrest with
          | inl hkey => exact .inl hkey
          | inr hmem => exact .inr (List.mem_cons_of_mem _ hmem)

theorem OrderedFields.insertField (h : OrderedFields fields) (key : String) (value : Json) :
    OrderedFields (Json.insertField key value fields) := by
  induction fields with
  | nil => exact List.pairwise_singleton _ _
  | cons first rest ih =>
    obtain ⟨name, old⟩ := first
    obtain ⟨hfirst, hrest⟩ := List.pairwise_cons.mp h
    unfold Json.insertField
    split
    · rename_i hname
      exact List.pairwise_cons.mpr ⟨fun field hfield => hname ▸ hfirst field hfield, hrest⟩
    · rename_i hname
      split
      · rename_i horder
        refine List.pairwise_cons.mpr ⟨fun field hfield => ?_, h⟩
        cases List.mem_cons.mp hfield with
        | inl hsame => rw [hsame]; exact horder
        | inr hmem => exact lt_trans horder (hfirst field hmem)
      · rename_i horder
        have hlater : name < key := lt_of_le_of_ne (not_lt.mp horder) hname
        refine List.pairwise_cons.mpr ⟨fun field hfield => ?_, ih hrest⟩
        cases mem_insertField hfield with
        | inl hkey => rw [hkey]; exact hlater
        | inr hmem => exact hfirst field hmem

theorem Ordered.insert (h : Ordered item) (key : String) (value : Json) :
    Ordered (item.insert key value) := by
  cases item with
  | obj fields =>
    intro inserted hinserted
    cases hinserted
    exact OrderedFields.insertField (h fields rfl) key value
  | null | bool | number | decimal | str | arr => exact h

theorem Ordered.remove (h : Ordered item) (key : String) : Ordered (item.remove key) := by
  cases item with
  | obj fields =>
    intro kept hkept
    cases hkept
    exact List.Pairwise.filter _ (h fields rfl)
  | null | bool | number | decimal | str | arr => exact h

theorem lookup_of_mem (h : OrderedFields fields) {field : String × Json} (hfield : field ∈ fields) :
    Json.lookup field.1 fields = some field.2 := by
  induction fields with
  | nil => cases hfield
  | cons first rest ih =>
    obtain ⟨name, value⟩ := first
    obtain ⟨hfirst, hrest⟩ := List.pairwise_cons.mp h
    unfold Json.lookup
    cases List.mem_cons.mp hfield with
    | inl hsame => rw [hsame, if_pos rfl]
    | inr hmem =>
      have hne : name ≠ field.1 := ne_of_lt (hfirst field hmem)
      rw [if_neg hne]
      exact ih hrest hmem

theorem get_insert_self {key : String} {old : Json} (h : item.get key = some old) (value : Json) :
    (item.insert key value).get key = some value := by
  cases item with
  | obj fields => exact Json.lookup_insertField_self key value fields
  | null | bool | number | decimal | str | arr => cases h

end Ordered

section Items

/-- A message that the middleware puts into the context. -/
inductive MiddlewareMessage : Json → Prop where
  | text (text : String) : MiddlewareMessage (userMessage text)
  /-- A field that no provider sees. -/
  | hidden {item : Json} (key : String) (value : Json) (hitem : MiddlewareMessage item)
      (hkey : isPrivate key = true) (hreasoning : key ∉ replayReasoningFields) :
      MiddlewareMessage (item.insert key value)
  /-- An image after the parts so far. -/
  | image {item : Json} {parts : List Json} (image : Json) (hitem : MiddlewareMessage item)
      (hparts : contentParts item = some parts) :
      MiddlewareMessage (setContentParts item (parts ++ [partJson (.image image)]))

/-- `ToolLoad::to_input`. -/
def toolLoadInput (load : ToolLoad) : Json :=
  .obj [(internalMessageField, .str "tool_load"), ("catalog_revision", .str load.catalogRevision),
    ("tools", .arr (load.tools.map .str)), ("type", .str "tool_load")]

/-- A load that passes its own check. -/
structure ValidLoad (load : ToolLoad) : Prop where
  revision : isBlank load.catalogRevision = false
  tools : load.tools ≠ []
  names : ∀ name ∈ load.tools, badToolName name = false
  distinct : load.tools.Nodup

variable (codec : OutputCodec) (isUuid : String → Bool)

/-- The output of a completed step, with the calls that hooks rewrote. -/
structure StepOutput (output : List Json) : Prop where
  accepted : ∃ (provided : List Json) (endTurn : Bool) (usage : TokenUsage)
    (content : List ModelStepContent) (accepted : AcceptedOutput),
    (∀ item ∈ provided, Ordered item) ∧
      fromOutputWithContent codec provided endTurn usage content = .ok accepted ∧
      (output = accepted.output ∨ ∃ calls : List ToolCall,
        (∀ call ∈ calls, isBlank call.name = false) ∧
          syncToolCalls codec.encoding accepted.output calls = .ok output)

/-- An item that enters the context by itself. -/
inductive Entering (context : List Json) : Json → Prop where
  | turn (event : MessageEvent)
      (hvalid : validateMessageContent (queueChecks isUuid) event.author event.text
        event.attachments = .ok ()) :
      Entering context (prepareTurnInput context (messageInput codec.encoding event))
  | steer (event : MessageEvent)
      (hvalid : validateMessageContent (queueChecks isUuid) event.author event.text
        event.attachments = .ok ()) :
      Entering context (messageInput codec.encoding event)
  | middleware (item : Json) (hitem : MiddlewareMessage item) : Entering context item
  | result (callId : String) (output : List ContentPart) (isError : Bool)
      (hcall : isBlank callId = false) :
      Entering context (toolOutput codec.encoding callId output isError)
  | load (load : ToolLoad) (hload : ValidLoad load) : Entering context (toolLoadInput load)

inductive Committed : List Json → Prop where
  /-- The context of a new session. -/
  | start : Committed []
  | append {context : List Json} {item : Json} (hcontext : Committed context)
      (hitem : Entering codec isUuid context item) : Committed (context ++ [item])
  /-- The output of a step is appended, with items of the middleware before its open calls. -/
  | step {context output notes loads : List Json} (hcontext : Committed context)
      (houtput : StepOutput codec output) (hnotes : ∀ item ∈ notes, MiddlewareMessage item)
      (hloads : ∀ item ∈ loads, ∃ load, ValidLoad load ∧ item = toolLoadInput load) :
      Committed (context ++ insertBeforeOpenToolCalls (output ++ loads) notes)
  | strip {context : List Json} (hcontext : Committed context) :
      Committed (stripProviderReasoning context)
  /-- The middleware rewrites the context from its items, messages and loads. -/
  | rewrite {context input : List Json} (hcontext : Committed context)
      (hinput : ∀ item ∈ input, item ∈ context ∨ MiddlewareMessage item ∨
        ∃ load, ValidLoad load ∧ item = toolLoadInput load) :
      Committed (resetPromptCacheBreakpoint input).1

def showsText (part : Json) : Bool :=
  itemType part == some "input_text" || itemType part == some "output_text"

/-- The item of a user message: text for every provider. -/
structure UserItem (item : Json) : Prop where
  type : item.get "type" = none
  raw : rawContent item = none
  text : ∃ parts, contentParts item = some parts ∧ parts.any showsText = true

/-- What every item of a committed context has. -/
structure Durable (item : Json) : Prop where
  ordered : Ordered item
  /-- Its role, if it has one, is that of the user or of the assistant. -/
  role : ∀ role, item.get "role" = some role →
    role = .str "assistant" ∨ (role = .str "user" ∧ UserItem item)
  load : ∃ load, toolLoadOf codec.toWireCodec item = .ok load
  call : itemType item = some "function_call" → ∃ callId name text,
    item.getStr "call_id" = some callId ∧ callId.isEmpty = false ∧
      item.getStr "name" = some name ∧ name.isEmpty = false ∧
      item.get "arguments" = some (.str text)

end Items

section Fields

/-- The fields that say what an item is; none of them is private to this side. -/
def plainFields : List String :=
  ["type", "role", "content", "output", "call_id", "name", "arguments", "catalog_revision", "tools"]

/-- The fields private to this side that the items of the context carry. -/
def hiddenFields : List String :=
  replayReasoningFields ++ [internalMessageField, messageMetadataField, attachmentsField]

theorem fields_private :
    (plainFields.all fun field => !isPrivate field) = true ∧ hiddenFields.all isPrivate = true := by
  decide +kernel

variable {key : String} {item other : Json} {parts : List Json}

theorem hidden_private (hkey : key ∈ hiddenFields) : isPrivate key = true :=
  List.all_eq_true.mp fields_private.2 key hkey

theorem plain_ne_private {other : String} (hkey : isPrivate key = true)
    (hother : other ∈ plainFields) : other ≠ key := by
  rintro rfl
  have hfalse := List.all_eq_true.mp fields_private.1 other hother
  rw [hkey] at hfalse
  cases hfalse

theorem get_remove_self (item : Json) (key : String) : (item.remove key).get key = none := by
  cases item with
  | obj fields =>
    change Json.lookup key (fields.filter fun field => field.1 != key) = none
    induction fields with
    | nil => rfl
    | cons field rest ih =>
      obtain ⟨name, value⟩ := field
      by_cases hname : name = key
      · subst hname
        simpa using ih
      · have hkept : (name != key) = true := by simpa using hname
        rw [List.filter_cons, if_pos hkept, Json.lookup, if_neg hname]
        exact ih
  | null | bool | number | decimal | str | arr => rfl

variable {codec : OutputCodec}

theorem toolLoadOf_congr {load : Option ToolLoad} (htype : other.get "type" = item.get "type")
    (hrevision : other.get "catalog_revision" = item.get "catalog_revision")
    (htools : other.get "tools" = item.get "tools")
    (h : toolLoadOf codec.toWireCodec item = .ok load) :
    toolLoadOf codec.toWireCodec other = .ok load := by
  unfold toolLoadOf itemType Json.getStr at h ⊢
  rw [htype, hrevision, htools]
  split at h
  · rename_i hkind
    rw [if_pos hkind]
    exact h
  · rename_i hkind
    rw [if_neg hkind]
    split at h
    · exact h
    · cases h

theorem contentField_congr (htype : other.get "type" = item.get "type") :
    contentField other = contentField item := by
  unfold contentField itemType Json.getStr
  rw [htype]

theorem contentParts_set (h : contentParts item = some parts) (other : List Json) :
    contentParts (setContentParts item other) = some other := by
  have htype : (setContentParts item other).get "type" = item.get "type" :=
    get_setContentParts (by decide) (by decide) item other
  unfold contentParts at h ⊢
  rw [contentField_congr htype]
  obtain ⟨old, hold, -⟩ := Option.bind_eq_some_iff.mp h
  unfold setContentParts
  rw [get_insert_self hold]
  rfl

theorem contentField_cases (item : Json) :
    contentField item = "output" ∨ contentField item = "content" := by
  unfold contentField
  split
  · exact .inl rfl
  · exact .inr rfl

theorem Durable.congr (h : Durable codec item) (hordered : Ordered other)
    (hrole : other.get "role" = item.get "role") (htype : other.get "type" = item.get "type")
    (hrevision : other.get "catalog_revision" = item.get "catalog_revision")
    (htools : other.get "tools" = item.get "tools")
    (hcallId : other.get "call_id" = item.get "call_id")
    (hname : other.get "name" = item.get "name")
    (harguments : other.get "arguments" = item.get "arguments")
    (huser : UserItem item → UserItem other) : Durable codec other := by
  have hkind : itemType other = itemType item := by
    unfold itemType Json.getStr
    rw [htype]
  constructor
  · exact hordered
  · intro role hsome
    cases h.role role (hrole ▸ hsome) with
    | inl hassistant => exact .inl hassistant
    | inr hitem => exact .inr ⟨hitem.1, huser hitem.2⟩
  · obtain ⟨load, hload⟩ := h.load
    exact ⟨load, toolLoadOf_congr htype hrevision htools hload⟩
  · intro hcall
    have hold := h.call (hkind ▸ hcall)
    unfold Json.getStr at hold ⊢
    rw [hcallId, hname, harguments]
    exact hold

theorem UserItem.insert (h : UserItem item) (hkey : isPrivate key = true)
    (hreasoning : key ∉ replayReasoningFields) (value : Json) :
    UserItem (item.insert key value) := by
  have hget : ∀ other ∈ plainFields, (item.insert key value).get other = item.get other :=
    fun other hother => Json.get_insert_ne (plain_ne_private hkey hother) item value
  have hraw : rawContentField ≠ key := by
    rintro rfl
    exact hreasoning (by decide)
  have htype := hget "type" (by decide)
  constructor
  · rw [htype]
    exact h.type
  · have hold := h.raw
    unfold rawContent at hold ⊢
    rw [Json.get_insert_ne hraw]
    exact hold
  · obtain ⟨parts, hparts, htext⟩ := h.text
    refine ⟨parts, ?_, htext⟩
    unfold contentParts at hparts ⊢
    rw [contentField_congr htype]
    have hfield : contentField item ∈ plainFields := by
      cases contentField_cases item with
      | inl houtput => rw [houtput]; decide
      | inr hcontent => rw [hcontent]; decide
    rw [hget _ hfield]
    exact hparts

theorem Durable.insert (h : Durable codec item) (hkey : isPrivate key = true)
    (hreasoning : key ∉ replayReasoningFields) (value : Json) :
    Durable codec (item.insert key value) := by
  have hget : ∀ other ∈ plainFields, (item.insert key value).get other = item.get other :=
    fun other hother => Json.get_insert_ne (plain_ne_private hkey hother) item value
  exact h.congr (h.ordered.insert key value) (hget _ (by decide)) (hget _ (by decide))
    (hget _ (by decide)) (hget _ (by decide)) (hget _ (by decide)) (hget _ (by decide))
    (hget _ (by decide)) fun huser => huser.insert hkey hreasoning value

theorem Durable.setParts (h : Durable codec item) {other : List Json}
    (hparts : contentParts item = some parts) (hshows : other.any showsText = parts.any showsText) :
    Durable codec (setContentParts item other) := by
  have hget : ∀ key, key ≠ "output" → key ≠ "content" →
      (setContentParts item other).get key = item.get key :=
    fun key houtput hcontent => get_setContentParts houtput hcontent item other
  have htype := hget "type" (by decide) (by decide)
  refine h.congr (h.ordered.insert _ _) (hget _ (by decide) (by decide)) htype
    (hget _ (by decide) (by decide)) (hget _ (by decide) (by decide))
    (hget _ (by decide) (by decide)) (hget _ (by decide) (by decide))
    (hget _ (by decide) (by decide)) fun huser => ?_
  constructor
  · rw [htype]
    exact huser.type
  · have hold := huser.raw
    unfold rawContent at hold ⊢
    rw [hget _ (by decide) (by decide)]
    exact hold
  · obtain ⟨shown, hshown, htext⟩ := huser.text
    obtain rfl := Option.some.inj (hparts.symm.trans hshown)
    exact ⟨other, contentParts_set hparts other, hshows.trans htext⟩

theorem markLast_shows {other : Json → Json}
    (hother : ∀ part, showsText (other part) = showsText part) {marked : List Json}
    (h : markLast other parts = some marked) : marked.any showsText = parts.any showsText := by
  induction parts generalizing marked with
  | nil => cases h
  | cons part rest ih =>
    unfold markLast at h
    cases hrest : markLast other rest with
    | some later =>
      rw [hrest] at h
      cases h
      rw [List.any_cons, List.any_cons, hother, ih hrest]
    | none =>
      rw [hrest] at h
      dsimp only at h
      split at h
      · cases h
        have hmarked : showsText (part.insert promptCacheBreakpointField (.bool true)) =
            showsText part := by
          unfold showsText itemType Json.getStr
          rw [Json.get_insert_ne (by decide)]
        have hlater : (rest.map other).any showsText = rest.any showsText := by
          rw [List.any_map]
          exact congrArg rest.any (funext hother)
        rw [List.any_cons, List.any_cons, hmarked, hlater]
      · cases h

theorem clearPart_shows (part : Json) : showsText (clearPart part) = showsText part := by
  unfold showsText itemType Json.getStr clearPart
  rw [Json.get_remove_ne (by decide)]

theorem Durable.mark {marked : Json} (h : Durable codec item) {other : Json → Json}
    (hother : ∀ part, showsText (other part) = showsText part)
    (hmarked : ((contentParts item).bind (markLast other)).map (setContentParts item) =
      some marked) : Durable codec marked := by
  cases hparts : contentParts item with
  | none =>
    rw [hparts] at hmarked
    cases hmarked
  | some parts =>
    rw [hparts, Option.bind_some] at hmarked
    obtain ⟨later, hlater, rfl⟩ := Option.map_eq_some_iff.mp hmarked
    exact h.setParts hparts (markLast_shows hother hlater)

theorem Durable.clear (h : Durable codec item) : Durable codec (clearBreakpoints item) := by
  unfold clearBreakpoints
  split
  · exact h
  · rename_i parts hparts
    refine h.setParts hparts ?_
    rw [List.any_map]
    exact congrArg parts.any (funext clearPart_shows)

theorem durable_reset {input : List Json} (h : ∀ item ∈ input, Durable codec item) :
    ∀ item ∈ (resetPromptCacheBreakpoint input).1, Durable codec item := by
  induction input with
  | nil => exact h
  | cons first rest ih =>
    have hlater := ih fun item hitem => h item (List.mem_cons_of_mem _ hitem)
    have hfirst := h first List.mem_cons_self
    unfold resetPromptCacheBreakpoint
    intro item hitem
    dsimp only at hitem
    split at hitem
    · cases List.mem_cons.mp hitem with
      | inl hsame => rw [hsame]; exact hfirst.clear
      | inr hrest => exact hlater item hrest
    · split at hitem
      · rename_i moved hmoved
        cases List.mem_cons.mp hitem with
        | inl hsame => rw [hsame]; exact hfirst.mark clearPart_shows hmoved
        | inr hrest => exact hlater item hrest
      · cases List.mem_cons.mp hitem with
        | inl hsame => rw [hsame]; exact hfirst.clear
        | inr hrest => exact hlater item hrest

theorem Durable.strip (h : Durable codec item) : Durable codec (stripReasoningFields item) := by
  have hget : ∀ key ∈ plainFields, (stripReasoningFields item).get key = item.get key := by
    intro key hkey
    have hne : ∀ field ∈ replayReasoningFields, key ≠ field := fun field hfield =>
      plain_ne_private (hidden_private (List.mem_append_left _ hfield)) hkey
    change (((item.remove "_mobius_reasoning").remove "_anthropic_content").remove
      "_mistral_thinking").get key = _
    rw [Json.get_remove_ne (hne _ (by decide)), Json.get_remove_ne (hne _ (by decide)),
      Json.get_remove_ne (hne _ (by decide))]
  have hordered : Ordered (stripReasoningFields item) :=
    ((h.ordered.remove _).remove _).remove _
  have htype := hget "type" (by decide)
  refine h.congr hordered (hget _ (by decide)) htype (hget _ (by decide)) (hget _ (by decide))
    (hget _ (by decide)) (hget _ (by decide)) (hget _ (by decide)) fun huser => ?_
  constructor
  · rw [htype]
    exact huser.type
  · unfold rawContent
    change ((((item.remove "_mobius_reasoning").remove "_anthropic_content").remove
      "_mistral_thinking").get rawContentField).bind _ = _
    rw [Json.get_remove_ne (by decide)]
    exact congrArg (Option.bind · Json.asArray) (get_remove_self _ _)
  · obtain ⟨parts, hparts, htext⟩ := huser.text
    refine ⟨parts, ?_, htext⟩
    unfold contentParts at hparts ⊢
    rw [contentField_congr htype]
    have hfield : contentField item ∈ plainFields := by
      cases contentField_cases item with
      | inl houtput => rw [houtput]; decide
      | inr hcontent => rw [hcontent]; decide
    rw [hget _ hfield]
    exact hparts

end Fields

section Generated

variable {codec : OutputCodec} {isUuid : String → Bool}

theorem isEmpty_of_blank {text : String} (h : isBlank text = false) : text.isEmpty = false := by
  by_contra hempty
  rw [Bool.not_eq_false, String.isEmpty_iff] at hempty
  subst hempty
  cases h

theorem durable_userMessage (text : String) : Durable codec (userMessage text) := by
  have huser : UserItem (userMessage text) :=
    ⟨rfl, rfl, _, rfl, rfl⟩
  constructor
  · have hkeys : ["content", "role"].Pairwise (· < ·) := by decide
    exact ordered_of_keys rfl hkeys
  · intro role hrole
    exact .inr ⟨(Option.some.inj hrole).symm, huser⟩
  · exact ⟨none, rfl⟩
  · intro hcall
    cases hcall

theorem MiddlewareMessage.durable {item : Json} (h : MiddlewareMessage item) :
    Durable codec item := by
  induction h with
  | text text => exact durable_userMessage text
  | hidden key value _ hkey hreasoning ih => exact ih.insert hkey hreasoning value
  | image image _ hparts ih =>
    refine ih.setParts hparts ?_
    rw [List.any_append]
    exact Bool.or_false _

theorem durable_messageInput (event : MessageEvent) :
    Durable codec (messageInput codec.encoding event) := by
  have hhidden : ∀ key ∈ [internalMessageField, messageMetadataField, attachmentsField],
      isPrivate key = true ∧ key ∉ replayReasoningFields := by
    intro key hkey
    constructor
    · exact hidden_private (List.mem_append_right _ hkey)
    · intro hmem
      have hdisjoint : ∀ field ∈ [internalMessageField, messageMetadataField, attachmentsField],
          field ∉ replayReasoningFields := by decide
      exact hdisjoint key hkey hmem
  have hmetadata := hhidden messageMetadataField (by decide)
  unfold messageInput
  refine Durable.insert ?_ hmetadata.1 hmetadata.2 _
  split
  · unfold userMessageWithAttachments
    split
    · exact durable_userMessage _
    · have hattachments := hhidden attachmentsField (by decide)
      exact (durable_userMessage _).insert hattachments.1 hattachments.2 _
  · have hinternal := hhidden internalMessageField (by decide)
    exact (durable_userMessage _).insert hinternal.1 hinternal.2 _

theorem durable_toolOutput (callId : String) (output : List ContentPart) (isError : Bool) :
    Durable codec (toolOutput codec.encoding callId output isError) := by
  constructor
  · have hkeys : [toolErrorField, "call_id", "output", "type"].Pairwise (· < ·) := by decide
    exact ordered_of_keys rfl hkeys
  · intro role hrole
    cases hrole
  · exact ⟨none, rfl⟩
  · intro hcall
    have hkind : "function_call_output" = "function_call" := Option.some.inj hcall
    exact absurd hkind (by decide)

theorem mapM_asStr (texts : List String) : (texts.map Json.str).mapM Json.asStr = some texts := by
  induction texts with
  | nil => rfl
  | cons text rest ih =>
    rw [List.map_cons, List.mapM_cons, ih]
    rfl

theorem toolLoadOf_input {load : ToolLoad} (h : ValidLoad load) :
    toolLoadOf codec.toWireCodec (toolLoadInput load) = .ok (some load) := by
  have hkind : ¬itemType (toolLoadInput load) ≠ some "tool_load" := by
    intro hne
    exact hne rfl
  have hrevision : (toolLoadInput load).getStr "catalog_revision" = some load.catalogRevision := rfl
  have htools : (((toolLoadInput load).get "tools").bind Json.asArray).bind
      (fun names => names.mapM Json.asStr) = some load.tools := mapM_asStr load.tools
  have hempty : load.tools.isEmpty = false := by
    rw [List.isEmpty_eq_false_iff]
    exact h.tools
  have hnames : load.tools.any badToolName = false := by
    rw [List.any_eq_false]
    intro name hname
    rw [h.names name hname]
    exact Bool.false_ne_true
  unfold toolLoadOf
  rw [if_neg hkind, hrevision, htools]
  simp only [h.revision, hempty, hnames, h.distinct, not_true, decide_false, Bool.or_false,
    Bool.false_eq_true, if_false]

theorem durable_load {load : ToolLoad} (h : ValidLoad load) :
    Durable codec (toolLoadInput load) := by
  constructor
  · have hkeys : [internalMessageField, "catalog_revision", "tools", "type"].Pairwise (· < ·) := by
      decide
    exact ordered_of_keys rfl hkeys
  · intro role hrole
    cases hrole
  · exact ⟨some load, toolLoadOf_input h⟩
  · intro hcall
    have hkind : "tool_load" = "function_call" := Option.some.inj hcall
    exact absurd hkind (by decide)

theorem Entering.durable {context : List Json} {item : Json}
    (h : Entering codec isUuid context item) : Durable codec item := by
  cases h with
  | turn event =>
    have hitem := @durable_messageInput codec event
    unfold prepareTurnInput
    split
    · exact hitem
    · unfold markPromptCacheBreakpoint
      cases hmarked : ((contentParts (messageInput codec.encoding event)).bind
          (markLast id)).map (setContentParts (messageInput codec.encoding event)) with
      | none => exact hitem
      | some marked => exact hitem.mark (fun _ => rfl) hmarked
  | steer event => exact durable_messageInput event
  | middleware _ hitem => exact hitem.durable
  | result callId output isError => exact durable_toolOutput callId output isError
  | load load hload => exact durable_load hload

end Generated

section Provided

variable {codec : OutputCodec} {isUuid : String → Bool}

variable {output : List Json} {item : Json} {calls : List ToolCall}

theorem ordered_marked (h : ∀ item ∈ output, Ordered item) :
    ∀ item ∈ (markCommentaryBeforeToolCalls output).1, Ordered item := by
  induction output with
  | nil => exact h
  | cons first rest ih =>
    have hlater := ih fun item hitem => h item (List.mem_cons_of_mem _ hitem)
    have hfirst := h first List.mem_cons_self
    unfold markCommentaryBeforeToolCalls
    intro item hitem
    dsimp only at hitem
    split at hitem
    · cases List.mem_cons.mp hitem with
      | inl hsame => rw [hsame]; exact hfirst
      | inr hrest => exact hlater item hrest
    · split at hitem
      · cases List.mem_cons.mp hitem with
        | inl hsame => rw [hsame]; exact hfirst.insert _ _
        | inr hrest => exact hlater item hrest
      · cases List.mem_cons.mp hitem with
        | inl hsame => rw [hsame]; exact hfirst
        | inr hrest => exact hlater item hrest

theorem requiredOutputString_ok {field value : String} {limit : Nat}
    (h : requiredOutputString item field limit = .ok value) :
    item.getStr field = some value ∧ isBlank value = false := by
  unfold requiredOutputString at h
  split at h
  · cases h
  · rename_i found hfound
    split at h
    · cases h
    · cases h
      have hfilter := Option.filter_eq_some_iff.mp hfound
      exact ⟨hfilter.1, by simpa using hfilter.2⟩

theorem decodeToolCall_ok {call : ToolCall} (h : decodeToolCall codec item = .ok call) :
    item.getStr "call_id" = some call.callId ∧ isBlank call.callId = false ∧
      item.getStr "name" = some call.name ∧ isBlank call.name = false ∧
      ∃ encoded, item.get "arguments" = some (.str encoded) ∧
        call.arguments = decodedArguments codec encoded := by
  unfold decodeToolCall at h
  obtain ⟨callId, hcallId, h⟩ := bind_ok h
  obtain ⟨name, hname, h⟩ := bind_ok h
  have hidentity := requiredOutputString_ok hcallId
  have hnamed := requiredOutputString_ok hname
  cases harguments : item.getStr "arguments" with
  | none =>
    rw [harguments] at h
    cases h
  | some encoded =>
    rw [harguments] at h
    obtain ⟨arguments, hdecoded, h⟩ := bind_ok h
    cases h
    unfold decodeToolArguments at hdecoded
    split at hdecoded
    · cases hdecoded
    · cases hdecoded
      refine ⟨hidentity.1, hidentity.2, hnamed.1, hnamed.2, encoded, ?_, rfl⟩
      unfold Json.getStr at harguments
      obtain ⟨value, hvalue, hstr⟩ := Option.bind_eq_some_iff.mp harguments
      cases value with
      | str text =>
        cases hstr
        exact hvalue
      | null | bool | number | decimal | arr | obj => cases hstr

theorem acceptCalls_ok {accepted : List ToolCall} {items : List Json}
    (h : acceptCalls codec calls items = .ok accepted) :
    (∀ item ∈ items, ∃ call, decodeToolCall codec item = .ok call) ∧
      ∀ call ∈ accepted, call ∈ calls ∨ ∃ item ∈ items, decodeToolCall codec item = .ok call := by
  induction items generalizing calls with
  | nil =>
    cases h
    exact ⟨by simp, fun call hcall => .inl hcall⟩
  | cons first rest ih =>
    unfold acceptCalls at h
    obtain ⟨_, -, h⟩ := bind_ok h
    obtain ⟨call, hcall, h⟩ := bind_ok h
    obtain ⟨_, -, h⟩ := bind_ok h
    obtain ⟨hitems, hcalls⟩ := ih h
    constructor
    · intro item hitem
      cases List.mem_cons.mp hitem with
      | inl hsame => exact ⟨call, hsame ▸ hcall⟩
      | inr hrest => exact hitems item hrest
    · intro other hother
      cases hcalls other hother with
      | inl hbefore =>
        cases List.mem_append.mp hbefore with
        | inl hold => exact .inl hold
        | inr hnew =>
          rw [List.mem_singleton] at hnew
          exact .inr ⟨first, List.mem_cons_self, hnew ▸ hcall⟩
      | inr hlater =>
        obtain ⟨item, hitem, hdecoded⟩ := hlater
        exact .inr ⟨item, List.mem_cons_of_mem _ hitem, hdecoded⟩

theorem Durable.rewrite (h : Durable codec item) (hcall : itemType item = some "function_call")
    {name : String} (hname : name.isEmpty = false) (arguments : String) :
    Durable codec ((item.insert "name" (.str name)).insert "arguments" (.str arguments)) := by
  obtain ⟨callId, oldName, text, hcallId, hidentity, hold, -, htext⟩ := h.call hcall
  have hget : ∀ key, key ≠ "name" → key ≠ "arguments" →
      ((item.insert "name" (.str name)).insert "arguments" (.str arguments)).get key =
        item.get key := by
    intro key hne hother
    rw [Json.get_insert_ne hother, Json.get_insert_ne hne]
  have hnamed : ∃ old, item.get "name" = some old := by
    unfold Json.getStr at hold
    obtain ⟨old, hsome, -⟩ := Option.bind_eq_some_iff.mp hold
    exact ⟨old, hsome⟩
  obtain ⟨old, hsome⟩ := hnamed
  have hkeep : (item.insert "name" (.str name)).get "arguments" = some (.str text) := by
    rw [Json.get_insert_ne (by decide)]
    exact htext
  constructor
  · exact (h.ordered.insert _ _).insert _ _
  · intro role hrole
    rw [hget "role" (by decide) (by decide)] at hrole
    cases h.role role hrole with
    | inl hassistant => exact .inl hassistant
    | inr hitem =>
      unfold itemType Json.getStr at hcall
      rw [hitem.2.type] at hcall
      cases hcall
  · obtain ⟨load, hload⟩ := h.load
    exact ⟨load, toolLoadOf_congr (hget _ (by decide) (by decide)) (hget _ (by decide) (by decide))
      (hget _ (by decide) (by decide)) hload⟩
  · intro _
    refine ⟨callId, name, arguments, ?_, hidentity, ?_, hname, get_insert_self hkeep _⟩
    · unfold Json.getStr at hcallId ⊢
      rw [hget "call_id" (by decide) (by decide)]
      exact hcallId
    · unfold Json.getStr
      rw [Json.get_insert_ne (by decide), get_insert_self hsome]
      rfl

theorem durable_writeToolCalls (h : ∀ item ∈ output, Durable codec item)
    (hcalls : ∀ call ∈ calls, isBlank call.name = false) :
    ∀ item ∈ writeToolCalls codec.encoding output calls, Durable codec item := by
  induction output generalizing calls with
  | nil =>
    unfold writeToolCalls
    exact h
  | cons first rest ih =>
    have hrest : ∀ item ∈ rest, Durable codec item :=
      fun item hitem => h item (List.mem_cons_of_mem _ hitem)
    have hfirst := h first List.mem_cons_self
    unfold writeToolCalls
    intro item hitem
    by_cases hcall : isFunctionCall first = true
    · rw [if_pos hcall] at hitem
      cases calls with
      | nil =>
        cases List.mem_cons.mp hitem with
        | inl hsame => rw [hsame]; exact hfirst
        | inr hmem => exact ih hrest (by simp) item hmem
      | cons call later =>
        cases List.mem_cons.mp hitem with
        | inl hsame =>
          rw [hsame]
          have hkind : itemType first = some "function_call" := by
            unfold isFunctionCall at hcall
            exact beq_iff_eq.mp hcall
          exact hfirst.rewrite hkind (isEmpty_of_blank (hcalls call List.mem_cons_self)) _
        | inr hmem =>
          exact ih hrest (fun other hother => hcalls other (List.mem_cons_of_mem _ hother)) item hmem
    · rw [if_neg hcall] at hitem
      cases List.mem_cons.mp hitem with
      | inl hsame => rw [hsame]; exact hfirst
      | inr hmem => exact ih hrest hcalls item hmem

theorem syncToolCalls_ok {written : List Json}
    (h : syncToolCalls codec.encoding output calls = .ok written) :
    written = writeToolCalls codec.encoding output calls := by
  unfold syncToolCalls at h
  dsimp only at h
  split at h
  · exact (Except.ok.inj h).symm
  · cases h

theorem durable_accepted {provided : List Json} {endTurn : Bool} {usage : TokenUsage}
    {content : List ModelStepContent} {accepted : AcceptedOutput}
    (hordered : ∀ item ∈ provided, Ordered item)
    (h : fromOutputWithContent codec provided endTurn usage content = .ok accepted) :
    ∀ item ∈ accepted.output, Durable codec item := by
  unfold fromOutputWithContent at h
  obtain ⟨_, hvalid, h⟩ := bind_ok h
  obtain ⟨_, hforeign, h⟩ := bind_ok h
  obtain ⟨_, -, h⟩ := bind_ok h
  obtain ⟨_, -, h⟩ := bind_ok h
  obtain ⟨calls, hcalls, h⟩ := bind_ok h
  obtain ⟨replayed, hreplayed, h⟩ := bind_ok h
  cases h
  obtain ⟨_, -, hvalid⟩ := bind_ok hvalid
  obtain ⟨_, hloads, -⟩ := bind_ok hvalid
  have hloads := List.any_eq_false.mp (rejectIf_ok_iff.mp hloads)
  have hforeign := List.any_eq_false.mp (rejectIf_ok_iff.mp hforeign)
  obtain ⟨hdecoded, haccepted⟩ := acceptCalls_ok hcalls
  have hdurable : ∀ item ∈ (markCommentaryBeforeToolCalls provided).1, Durable codec item := by
    intro item hitem
    constructor
    · exact ordered_marked hordered item hitem
    · intro role hrole
      have hsame := hforeign item hitem
      unfold isForeign Json.getStr at hsame
      rw [hrole] at hsame
      have hstr : role.asStr = some "assistant" := by simpa using hsame
      cases role with
      | str text =>
        obtain rfl := Option.some.inj hstr
        exact .inl rfl
      | null | bool | number | decimal | arr | obj => cases hstr
    · have hkind : itemType item ≠ some "tool_load" := by
        have hsame := hloads item hitem
        simpa using hsame
      refine ⟨none, ?_⟩
      unfold toolLoadOf
      rw [if_pos hkind]
    · intro hkind
      have hmem : item ∈ (markCommentaryBeforeToolCalls provided).1.filter isFunctionCall := by
        rw [List.mem_filter]
        refine ⟨hitem, ?_⟩
        unfold isFunctionCall
        rw [hkind]
        rfl
      obtain ⟨call, hcall⟩ := hdecoded item hmem
      obtain ⟨hcallId, hidentity, hname, hnamed, text, htext, -⟩ := decodeToolCall_ok hcall
      exact ⟨call.callId, call.name, text, hcallId, isEmpty_of_blank hidentity, hname,
        isEmpty_of_blank hnamed, htext⟩
  unfold replayedOutput at hreplayed
  split at hreplayed
  · rw [syncToolCalls_ok hreplayed]
    refine durable_writeToolCalls hdurable fun call hcall => ?_
    cases haccepted call hcall with
    | inl hnone => cases hnone
    | inr hitem =>
      obtain ⟨item, -, hdecode⟩ := hitem
      exact (decodeToolCall_ok hdecode).2.2.2.1
  · cases hreplayed
    exact hdurable

theorem StepOutput.durable (h : StepOutput codec output) : ∀ item ∈ output, Durable codec item := by
  obtain ⟨provided, endTurn, usage, content, accepted, hordered, haccepted, hrewritten⟩ := h.accepted
  have hdurable := durable_accepted hordered haccepted
  cases hrewritten with
  | inl hsame =>
    rw [hsame]
    exact hdurable
  | inr hcalls =>
    obtain ⟨calls, hnames, hsync⟩ := hcalls
    rw [syncToolCalls_ok hsync]
    exact durable_writeToolCalls hdurable hnames

theorem mem_insertBefore {input : List Json} (h : item ∈ insertBeforeOpenToolCalls output input) :
    item ∈ output ∨ item ∈ input := by
  unfold insertBeforeOpenToolCalls at h
  split at h
  · exact .inl h
  · simp only [List.mem_append] at h
    rcases h with (hbefore | hinput) | hafter
    · exact .inl (List.mem_of_mem_take hbefore)
    · exact .inr hinput
    · exact .inl (List.mem_of_mem_drop hafter)

theorem Committed.durable {context : List Json} (h : Committed codec isUuid context) :
    ∀ item ∈ context, Durable codec item := by
  induction h with
  | start => simp
  | append _ hitem ih =>
    intro item hmem
    cases List.mem_append.mp hmem with
    | inl hbefore => exact ih item hbefore
    | inr hlast =>
      rw [List.mem_singleton] at hlast
      rw [hlast]
      exact hitem.durable
  | step _ houtput hnotes hloads ih =>
    intro item hmem
    cases List.mem_append.mp hmem with
    | inl hbefore => exact ih item hbefore
    | inr hnew =>
      cases mem_insertBefore hnew with
      | inl hitem =>
        cases List.mem_append.mp hitem with
        | inl hprovided => exact houtput.durable item hprovided
        | inr hload =>
          obtain ⟨load, hvalid, rfl⟩ := hloads item hload
          exact durable_load hvalid
      | inr hnote => exact (hnotes item hnote).durable
  | strip _ ih =>
    intro item hmem
    unfold stripProviderReasoning at hmem
    obtain ⟨kept, hkept, rfl⟩ := List.mem_map.mp hmem
    have hold := ih kept (List.mem_of_mem_filter hkept)
    split
    · exact hold.strip
    · exact hold
  | rewrite _ hinput ih =>
    refine durable_reset fun item hitem => ?_
    rcases hinput item hitem with hkept | hmessage | ⟨load, hvalid, rfl⟩
    · exact ih item hkept
    · exact hmessage.durable
    · exact durable_load hvalid

end Provided

end MobiusAgent.CommittedContexts
