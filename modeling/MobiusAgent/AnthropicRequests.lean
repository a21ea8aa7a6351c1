import MobiusAgent.RequestImages

/-!
# Which contexts can be translated for Anthropic

`translate_messages` item by item: what a part, an item and a context must
hold for the translation to succeed. The calls that preserved blocks hold need
no readable arguments, so an item is ready after the items before it.
-/

namespace MobiusAgent.ProviderRequests

open JsonValue ProtocolEvents CheckpointValidation ContextItems ResponsesWire ProviderMessages
  ModelOutputs CommittedContexts

def TextFilled (part : Json) : Prop :=
  showsText part = true → ∃ text, part.getStr "text" = some text ∧ text.isEmpty = false

/-- The calls that the preserved blocks of an item hold. -/
def itemPreserves (item : Json) : List String :=
  if itemKind item = some "message" then ((rawContent item).map toolUseIds).getD [] else []

/-- The calls that the preserved blocks of items hold. -/
def preservedIn (items : List Json) : List String := items.flatMap itemPreserves

section Parts

variable {codec : MessageCodec} {vision : Vision} {toolResult : Bool} {part shown : Json}

theorem requiredString_ok_iff {value : Json} {field provider text : String} :
    requiredString value field provider = .ok text ↔
      value.getStr field = some text ∧ text.isEmpty = false := by
  unfold requiredString
  constructor
  · intro h
    split at h
    · rename_i found hfound
      cases h
      have hfilter := Option.filter_eq_some_iff.mp hfound
      exact ⟨hfilter.1, by simpa using hfilter.2⟩
    · cases h
  · rintro ⟨htext, hfilled⟩
    have hfound : (value.getStr field).filter (fun text => !text.isEmpty) = some text := by
      rw [Option.filter_eq_some_iff]
      exact ⟨htext, by simpa using hfilled⟩
    rw [hfound]

theorem requiredString_succeeds {value : Json} {field provider : String} :
    Succeeds (requiredString value field provider) ↔
      ∃ text, value.getStr field = some text ∧ text.isEmpty = false := by
  unfold Succeeds
  simp only [requiredString_ok_iff]

theorem showsText_iff {part : Json} :
    showsText part = true ↔ itemType part = some "input_text" ∨ itemType part = some "output_text" := by
  unfold showsText
  simp only [Bool.or_eq_true, beq_iff_eq]

theorem isImagePart_iff {part : Json} :
    isImagePart part = true ↔ itemType part = some "input_image" := by
  unfold isImagePart
  exact beq_iff_eq

theorem showsText_image (h : isImagePart part = true) : showsText part = false := by
  rw [Bool.eq_false_iff]
  intro htext
  rw [isImagePart_iff] at h
  rw [showsText_iff, h] at htext
  revert htext
  decide

/-- The block of a part exists iff the part is text, an image or a file. -/
theorem contentBlock_kind {block : Option Json} (h : contentBlock codec part = .ok block) :
    block.isSome = true ↔
      showsText part = true ∨ isImagePart part = true ∨ itemType part = some "file" := by
  unfold contentBlock at h
  cases hbare : bareBlock codec part with
  | error error =>
    rw [hbare] at h
    cases h
  | ok bare =>
    rw [hbare] at h
    cases h
    rw [Option.isSome_map]
    unfold bareBlock at hbare
    split at hbare
    · rename_i htext
      obtain ⟨text, -, rfl⟩ : ∃ text, requiredString part "text" "Anthropic" = .ok text ∧
          some (textBlock text) = bare := by
        cases hread : requiredString part "text" "Anthropic" with
        | error error =>
          rw [hread] at hbare
          cases hbare
        | ok text =>
          rw [hread] at hbare
          exact ⟨text, rfl, Except.ok.inj hbare⟩
      exact ⟨fun _ => .inl (showsText_iff.mpr htext), fun _ => rfl⟩
    · rename_i htext
      split at hbare
      · rename_i himage
        have hpart := isImagePart_iff.mpr himage
        cases hread : imageInput part "Anthropic" with
        | error error =>
          rw [hread] at hbare
          cases hbare
        | ok image =>
          rw [hread] at hbare
          obtain ⟨pixels, rfl⟩ := imageInput_image hpart hread
          cases hbare
          exact ⟨fun _ => .inr (.inl hpart), fun _ => rfl⟩
      · rename_i himage
        split at hbare
        · rename_i hfile
          cases hbare
          exact ⟨fun _ => .inr (.inr hfile), fun _ => rfl⟩
        · rename_i hfile
          cases hbare
          constructor
          · intro hnone
            cases hnone
          · rintro (hshows | hpart | hkind)
            · exact absurd (showsText_iff.mp hshows) htext
            · exact absurd (isImagePart_iff.mp hpart) himage
            · exact absurd hkind hfile

theorem contentBlock_other (h : isImagePart part = false) :
    Succeeds (contentBlock codec part) ↔ TextFilled part := by
  unfold contentBlock
  rw [succeeds_map]
  unfold bareBlock
  by_cases htext : itemType part = some "input_text" ∨ itemType part = some "output_text"
  · rw [if_pos htext, succeeds_map, requiredString_succeeds]
    exact ⟨fun hfilled _ => hfilled, fun hfilled => hfilled (showsText_iff.mpr htext)⟩
  · rw [if_neg htext]
    have himage : itemType part ≠ some "input_image" := by
      intro hkind
      rw [isImagePart_iff.mpr hkind] at h
      cases h
    rw [if_neg himage]
    have hfilled : TextFilled part := fun hshows => absurd (showsText_iff.mp hshows) htext
    by_cases hfile : itemType part = some "file"
    · rw [if_pos hfile]
      exact ⟨fun _ => hfilled, fun _ => succeeds_ok _⟩
    · rw [if_neg hfile]
      exact ⟨fun _ => hfilled, fun _ => succeeds_ok _⟩

theorem Shown.contentBlock (h : Shown shown) : ∃ block,
    contentBlock codec shown = .ok (some block) := by
  have hsucceeds : Succeeds (ProviderMessages.contentBlock codec shown) := by
    cases h with
    | inl hnote =>
      obtain ⟨hkind, text, htext, hfilled⟩ := hnote
      have hother : isImagePart shown = false := by
        rw [Bool.eq_false_iff]
        intro himage
        rw [isImagePart_iff, hkind] at himage
        revert himage
        decide
      exact (contentBlock_other hother).mpr fun _ => ⟨text, htext, hfilled⟩
    | inr himage =>
      obtain ⟨hpart, pixels, hpixels⟩ := himage
      have hkind := isImagePart_iff.mp hpart
      unfold ProviderMessages.contentBlock
      rw [succeeds_map]
      unfold bareBlock
      have htext : ¬(itemType shown = some "input_text" ∨ itemType shown = some "output_text") := by
        rw [hkind]
        decide
      rw [if_neg htext, if_pos hkind, succeeds_map]
      exact ⟨_, imageInput_provider hpixels "Anthropic"⟩
  obtain ⟨block, hblock⟩ := hsucceeds
  have hsome : block.isSome = true := by
    rw [contentBlock_kind hblock]
    cases h with
    | inl hnote => exact .inl (showsText_iff.mpr (.inl hnote.1))
    | inr himage => exact .inr (.inl himage.1)
  obtain ⟨found, rfl⟩ := Option.isSome_iff_exists.mp hsome
  exact ⟨found, hblock⟩

theorem Hydrated.contentBlock (h : Hydrated vision toolResult part shown) :
    Succeeds (contentBlock codec shown) ↔ TextFilled part := by
  by_cases himage : isImagePart part = true
  · obtain ⟨block, hblock⟩ := @Shown.contentBlock codec _ (h.image himage)
    constructor
    · intro _ hshows
      rw [showsText_image himage] at hshows
      cases hshows
    · intro _
      exact ⟨_, hblock⟩
  · have hother : isImagePart part = false := by simpa using himage
    rw [h.other hother]
    exact contentBlock_other hother

/-- A shown part of a result has a block iff the part it stands for is text that is not
empty, an image or a file. -/
theorem Hydrated.toolContentBlock (h : Hydrated vision toolResult part shown) :
    Succeeds (toolContentBlock codec shown) ↔ TextFilled part ∧
      (showsText part = true ∨ isImagePart part = true ∨ itemType part = some "file") := by
  unfold ProviderMessages.toolContentBlock
  rw [succeeds_bind]
  by_cases himage : isImagePart part = true
  · obtain ⟨block, hblock⟩ := @Shown.contentBlock codec _ (h.image himage)
    constructor
    · intro _
      refine ⟨fun hshows => ?_, .inr (.inl himage)⟩
      rw [showsText_image himage] at hshows
      cases hshows
    · intro _
      exact ⟨_, hblock, succeeds_ok block⟩
  · have hother : isImagePart part = false := by simpa using himage
    obtain rfl := h.other hother
    constructor
    · rintro ⟨block, hblock, hsome⟩
      refine ⟨(contentBlock_other hother).mp ⟨block, hblock⟩, (contentBlock_kind hblock).mp ?_⟩
      cases block with
      | none => exact absurd hsome (not_succeeds_error _)
      | some found => rfl
    · rintro ⟨hfilled, hkind⟩
      obtain ⟨block, hblock⟩ := (@contentBlock_other codec _ hother).mpr hfilled
      obtain ⟨found, rfl⟩ := Option.isSome_iff_exists.mp ((contentBlock_kind hblock).mpr hkind)
      exact ⟨_, hblock, succeeds_ok found⟩

theorem outputLine_succeeds :
    Succeeds (outputLine codec part) ↔
      (itemType part = some "input_text" ∧ ∃ text, part.getStr "text" = some text) ∨
        itemType part = some "file" := by
  unfold outputLine
  by_cases htext : itemType part = some "input_text"
  · rw [if_pos htext]
    have hfile : ¬itemType part = some "file" := by
      rw [htext]
      decide
    cases hread : part.getStr "text" with
    | none =>
      constructor
      · intro h
        exact absurd h (not_succeeds_error _)
      · rintro (⟨-, text, hnone⟩ | hkind)
        · cases hnone
        · exact absurd hkind hfile
    | some text => exact ⟨fun _ => .inl ⟨htext, text, rfl⟩, fun _ => succeeds_ok text⟩
  · rw [if_neg htext]
    by_cases hfile : itemType part = some "file"
    · rw [if_pos hfile]
      exact ⟨fun _ => .inr hfile, fun _ => succeeds_ok _⟩
    · rw [if_neg hfile]
      constructor
      · intro h
        exact absurd h (not_succeeds_error _)
      · rintro (⟨hkind, -⟩ | hkind)
        · exact absurd hkind htext
        · exact absurd hkind hfile

theorem toolText_succeeds {output : Json} :
    Succeeds (toolText codec output) ↔
      ∃ parts, output.asArray = some parts ∧ ∀ part ∈ parts, Succeeds (outputLine codec part) := by
  have hbuilt : Succeeds (outputText codec output) ↔
      ∃ parts, output.asArray = some parts ∧ ∀ part ∈ parts, Succeeds (outputLine codec part) := by
    unfold outputText
    cases harray : output.asArray with
    | none =>
      constructor
      · intro h
        exact absurd h (not_succeeds_error _)
      · rintro ⟨parts, hnone, -⟩
        cases hnone
    | some parts =>
      dsimp only
      rw [succeeds_map, succeeds_mapM]
      constructor
      · exact fun h => ⟨parts, rfl, h⟩
      · rintro ⟨other, hother, h⟩
        cases hother
        exact h
  unfold toolText
  split
  · rename_i single harray
    split
    · rename_i htext
      rw [← hbuilt]
      unfold outputText
      rw [harray]
      dsimp only
      rw [succeeds_map, succeeds_mapM]
      rw [List.forall_mem_singleton, outputLine, if_pos htext]
    · exact hbuilt
  · exact hbuilt

theorem contentBlocks_ne_nil {parts blocks : List Json} (hpart : part ∈ parts)
    (hshows : showsText part = true) (h : contentBlocks codec parts = .ok blocks) :
    blocks ≠ [] := by
  unfold contentBlocks at h
  cases hread : parts.mapM (contentBlock codec) with
  | error error =>
    rw [hread] at h
    cases h
  | ok read =>
    rw [hread] at h
    have hkept : read.filterMap id = blocks := Except.ok.inj h
    obtain ⟨block, hmem, hblock⟩ := exists_related (mapM_forall₂ hread) hpart
    obtain ⟨found, rfl⟩ := Option.isSome_iff_exists.mp
      ((contentBlock_kind hblock).mpr (.inl hshows))
    intro hnone
    have hfound : found ∈ blocks := by
      rw [← hkept, List.mem_filterMap]
      exact ⟨some found, hmem, rfl⟩
    rw [hnone] at hfound
    cases hfound

end Parts

section Kinds

variable {vision : Vision} {item shown : Json}

theorem itemKind_type {kind : String} (h : itemType item = some kind) :
    itemKind item = some kind := by
  unfold itemKind
  rw [h]

theorem type_of_kind {kind : String} (h : itemKind item = some kind) (hne : kind ≠ "message") :
    itemType item = some kind := by
  unfold itemKind at h
  split at h
  · rename_i found hfound
    rw [hfound]
    exact h
  · split at h
    · exact absurd (Option.some.inj h).symm hne
    · cases h

theorem contentField_message (h : itemKind item = some "message") :
    contentField item = "content" := by
  unfold contentField
  rw [if_neg]
  intro htype
  have hkind := itemKind_type htype
  rw [h] at hkind
  exact absurd (Option.some.inj hkind) (by decide)

theorem HydratedItem.type (h : HydratedItem vision item shown) :
    itemType shown = itemType item := by
  unfold itemType Json.getStr
  rw [h.same "type" (by decide) (by decide)]

theorem HydratedItem.kind (h : HydratedItem vision item shown) :
    itemKind shown = itemKind item := by
  unfold itemKind
  rw [h.type, h.same "role" (by decide) (by decide)]

theorem HydratedItem.raw (h : HydratedItem vision item shown) :
    rawContent shown = rawContent item := by
  unfold rawContent
  rw [h.same rawContentField (by decide) (by decide)]

theorem HydratedItem.getStr (h : HydratedItem vision item shown) {key : String}
    (houtput : key ≠ "output") (hcontent : key ≠ "content") :
    shown.getStr key = item.getStr key := by
  unfold Json.getStr
  rw [h.same key houtput hcontent]

theorem HydratedItem.preserves (h : HydratedItem vision item shown) :
    itemPreserves shown = itemPreserves item := by
  unfold itemPreserves
  rw [h.kind, h.raw]

theorem HydratedItem.message (h : HydratedItem vision item shown)
    (hkind : itemKind item = some "message") :
    List.Forall₂ (Hydrated vision (isToolResult item)) (messageParts item) (messageParts shown) := by
  have hfield := contentField_message hkind
  have hshown : contentField shown = "content" := contentField_message (h.kind.trans hkind)
  have hitem : messageParts item = (contentParts item).getD [] := by
    unfold messageParts contentParts
    rw [hfield]
  have hlater : messageParts shown = (contentParts shown).getD [] := by
    unfold messageParts contentParts
    rw [hshown]
  rw [hitem, hlater]
  cases hparts : contentParts item with
  | none =>
    rw [h.bare hparts, hparts]
    exact .nil
  | some parts =>
    obtain ⟨later, hsome, hall⟩ := h.parts parts hparts
    rw [hsome]
    exact hall

theorem HydratedItem.load (h : HydratedItem vision item shown) {codec : OutputCodec}
    (hitem : ∃ load, toolLoadOf codec.toWireCodec item = .ok load) :
    ∃ load, toolLoadOf codec.toWireCodec shown = .ok load := by
  obtain ⟨load, hload⟩ := hitem
  exact ⟨load, toolLoadOf_congr (h.same _ (by decide) (by decide))
    (h.same _ (by decide) (by decide)) (h.same _ (by decide) (by decide)) hload⟩

end Kinds

section AnthropicItems

variable {codec : OutputCodec} {vision : Vision} {item shown : Json} {state : Translation}

/-- Nothing is read from an empty text. -/
def RejectsEmpty (codec : MessageCodec) : Prop := ¬Succeeds (codec.parse "")

/-- What an item must hold for Anthropic, after the calls that preserved blocks hold. -/
structure AnthropicReady (codec : MessageCodec) (preserved : List String) (item : Json) : Prop where
  role : itemType item = some "message" → (item.get "role").isSome = true
  text : itemKind item = some "message" → rawContent item = none →
    ∀ part ∈ messageParts item, TextFilled part
  /-- A result names its call and has parts that Anthropic can show. -/
  result : itemType item = some "function_call_output" →
    (∃ callId, item.getStr "call_id" = some callId ∧ callId.isEmpty = false) ∧
      ∃ parts, contentParts item = some parts ∧ ∀ part ∈ parts, TextFilled part ∧
        (showsText part = true ∨ isImagePart part = true ∨ itemType part = some "file")
  /-- The arguments of a call are preserved or can be read. -/
  call : itemType item = some "function_call" → ∀ text, item.get "arguments" = some (.str text) →
    (∃ callId ∈ preserved, itemCallId item = some callId) ∨ Succeeds (codec.parse text)

theorem translateMessage_iff (hitem : Durable codec item) (hshown : HydratedItem vision item shown)
    (hkind : itemKind item = some "message") :
    Succeeds (translateMessage codec.toMessageCodec state shown) ↔
      (item.get "role").isSome = true ∧
        (rawContent item = none → ∀ part ∈ messageParts item, TextFilled part) := by
  unfold translateMessage
  rw [hshown.getStr (by decide) (by decide), hshown.raw]
  unfold Json.getStr
  cases hrole : item.get "role" with
  | none =>
    constructor
    · intro h
      exact absurd h (not_succeeds_error _)
    · rintro ⟨hnone, -⟩
      cases hnone
  | some role =>
    have htext : ∃ text, role = .str text := by
      cases hitem.role role hrole with
      | inl hassistant => exact ⟨_, hassistant⟩
      | inr huser => exact ⟨_, huser.1⟩
    obtain ⟨text, rfl⟩ := htext
    cases hraw : rawContent item with
    | some blocks => exact ⟨fun _ => ⟨rfl, fun hnone => by cases hnone⟩, fun _ => succeeds_ok _⟩
    | none =>
      have hblocks : Succeeds (contentBlocks codec.toMessageCodec (messageParts shown)) ↔
          ∀ part ∈ messageParts item, TextFilled part := by
        unfold contentBlocks
        rw [succeeds_map, succeeds_mapM]
        exact forall₂_iff (hshown.message hkind) fun part later h => h.contentBlock
      dsimp only [Option.bind_some, Json.asStr]
      rw [succeeds_bind]
      constructor
      · rintro ⟨blocks, hread, -⟩
        exact ⟨rfl, fun _ => hblocks.mp ⟨blocks, hread⟩⟩
      · rintro ⟨-, hfilled⟩
        obtain ⟨blocks, hread⟩ := hblocks.mpr (hfilled rfl)
        exact ⟨blocks, hread, succeeds_ok _⟩

/-- A call is translated iff preserved blocks hold it or its arguments can be read. -/
theorem translateCall_iff (hempty : RejectsEmpty codec.toMessageCodec) (hitem : Durable codec item)
    (hshown : HydratedItem vision item shown) (hkind : itemType item = some "function_call") :
    Succeeds (translateCall codec.toMessageCodec state shown) ↔
      ∀ text, item.get "arguments" = some (.str text) →
        (∃ callId ∈ state.preserved, itemCallId item = some callId) ∨
          Succeeds (codec.parse text) := by
  obtain ⟨callId, name, text, hcallId, hidentity, hname, hnamed, htext⟩ := hitem.call hkind
  have hreadId : requiredString shown "call_id" "Anthropic" = .ok callId := by
    rw [requiredString_ok_iff, hshown.getStr (by decide) (by decide)]
    exact ⟨hcallId, hidentity⟩
  have hreadName : requiredString shown "name" "Anthropic" = .ok name := by
    rw [requiredString_ok_iff, hshown.getStr (by decide) (by decide)]
    exact ⟨hname, hnamed⟩
  have hidentified : itemCallId item = some callId := hcallId
  have harguments : shown.getStr "arguments" = some text := by
    rw [hshown.getStr (by decide) (by decide)]
    unfold Json.getStr
    rw [htext]
    rfl
  unfold translateCall
  rw [succeeds_bind]
  constructor
  · rintro ⟨readId, hread, h⟩ other hother
    obtain rfl := Except.ok.inj (hreadId.symm.trans hread)
    obtain ⟨readName, -, h⟩ := succeeds_bind.mp h
    obtain rfl : text = other := by
      rw [htext] at hother
      cases hother
      rfl
    by_cases hpreserved : callId ∈ state.preserved
    · exact .inl ⟨callId, hpreserved, hidentified⟩
    · dsimp only at h
      rw [if_neg hpreserved] at h
      obtain ⟨encoded, hencoded, h⟩ := succeeds_bind.mp h
      obtain ⟨value, hvalue, -⟩ := succeeds_bind.mp h
      have hsame := (requiredString_ok_iff.mp hencoded).1
      rw [harguments] at hsame
      cases hsame
      exact .inr ⟨value, hvalue⟩
  · intro h
    refine ⟨callId, hreadId, succeeds_bind.mpr ⟨name, hreadName, ?_⟩⟩
    by_cases hpreserved : callId ∈ state.preserved
    · dsimp only
      rw [if_pos hpreserved]
      exact succeeds_ok _
    · dsimp only
      rw [if_neg hpreserved]
      have hparses : Succeeds (codec.parse text) := by
        cases h text htext with
        | inl hmem =>
          obtain ⟨other, hother, hsame⟩ := hmem
          rw [hidentified] at hsame
          cases hsame
          exact absurd hother hpreserved
        | inr hread => exact hread
      have hfilled : text.isEmpty = false := by
        rw [Bool.eq_false_iff]
        intro hnone
        rw [String.isEmpty_iff.mp hnone] at hparses
        exact hempty hparses
      have hencoded : requiredString shown "arguments" "Anthropic" = .ok text :=
        requiredString_ok_iff.mpr ⟨harguments, hfilled⟩
      obtain ⟨value, hvalue⟩ := hparses
      exact succeeds_bind.mpr ⟨text, hencoded, succeeds_bind.mpr ⟨value, hvalue, succeeds_ok _⟩⟩

theorem resultOutput_ok_iff {output : Json} :
    resultOutput item = .ok output ↔ item.get "output" = some output := by
  unfold resultOutput
  cases item.get "output" with
  | none =>
    constructor
    · intro h
      cases h
    · intro h
      cases h
  | some found => simp only [Except.ok.injEq, Option.some.injEq]

theorem HydratedItem.output (h : HydratedItem vision item shown)
    (hkind : itemType item = some "function_call_output") :
    (contentParts item = none ∧ (shown.get "output").bind Json.asArray = none) ∨
      ∃ parts later, contentParts item = some parts ∧
        (shown.get "output").bind Json.asArray = some later ∧
        List.Forall₂ (Hydrated vision true) parts later := by
  have htool : isToolResult item = true := by
    unfold isToolResult
    rw [hkind]
    rfl
  have hfield : contentField shown = "output" := by
    unfold contentField
    rw [if_pos (h.type.trans hkind)]
  have hlater : (shown.get "output").bind Json.asArray = contentParts shown := by
    unfold contentParts
    rw [hfield]
  rw [hlater]
  cases hparts : contentParts item with
  | none =>
    rw [h.bare hparts, hparts]
    exact .inl ⟨rfl, rfl⟩
  | some parts =>
    obtain ⟨later, hsome, hall⟩ := h.parts parts hparts
    rw [htool] at hall
    exact .inr ⟨parts, later, rfl, hsome, hall⟩

/-- The content of a result exists iff it has parts that Anthropic can show. -/
theorem resultContent_iff (hshown : HydratedItem vision item shown)
    (hkind : itemType item = some "function_call_output") :
    (∃ output, shown.get "output" = some output ∧
      Succeeds (toolContentBlocks codec.toMessageCodec output)) ↔
      ∃ parts, contentParts item = some parts ∧ ∀ part ∈ parts, TextFilled part ∧
        (showsText part = true ∨ isImagePart part = true ∨ itemType part = some "file") := by
  rcases hshown.output hkind with ⟨hnone, hlater⟩ | ⟨parts, later, hparts, hlater, hall⟩
  · rw [hnone]
    constructor
    · rintro ⟨output, houtput, hsucceeds⟩
      rw [houtput, Option.bind_some] at hlater
      unfold toolContentBlocks at hsucceeds
      rw [hlater] at hsucceeds
      exact absurd hsucceeds (not_succeeds_error _)
    · rintro ⟨parts, hsome, -⟩
      cases hsome
  · obtain ⟨output, houtput, harray⟩ := Option.bind_eq_some_iff.mp hlater
    have hblocks : Succeeds (toolContentBlocks codec.toMessageCodec output) ↔
        ∀ part ∈ parts, TextFilled part ∧
          (showsText part = true ∨ isImagePart part = true ∨ itemType part = some "file") := by
      unfold toolContentBlocks
      rw [harray]
      dsimp only
      rw [succeeds_mapM]
      exact forall₂_iff hall fun part later h => h.toolContentBlock
    constructor
    · rintro ⟨found, hfound, hsucceeds⟩
      rw [houtput] at hfound
      cases hfound
      exact ⟨parts, hparts, hblocks.mp hsucceeds⟩
    · rintro ⟨found, hfound, hready⟩
      rw [hparts] at hfound
      cases hfound
      exact ⟨output, houtput, hblocks.mpr hready⟩

/-- Without references, a result is translated iff it names its call and has parts that
Anthropic can show. -/
theorem toolResultBlock_rebuild {discovery : Discovery} (hmode : discovery.mode = .rebuild)
    (hshown : HydratedItem vision item shown)
    (hkind : itemType item = some "function_call_output") {searches : List String}
    {next : Option Json}
    (hnext : ∀ later, next = some later → ∃ load, toolLoadOf codec.toWireCodec later = .ok load) :
    Succeeds (toolResultBlock codec.toMessageCodec discovery searches shown next) ↔
      (∃ callId, item.getStr "call_id" = some callId ∧ callId.isEmpty = false) ∧
        ∃ parts, contentParts item = some parts ∧ ∀ part ∈ parts, TextFilled part ∧
          (showsText part = true ∨ isImagePart part = true ∨ itemType part = some "file") := by
  have hload : ∃ load, nextLoad codec.toMessageCodec next = .ok load := by
    cases next with
    | none => exact ⟨none, rfl⟩
    | some later => exact hnext later rfl
  have hreferences : ∀ (load : Option ToolLoad) (callId : String),
      (resultReferences load discovery searches callId).isEmpty = true := by
    intro load callId
    unfold resultReferences
    cases load with
    | none => rfl
    | some load =>
      dsimp only
      rw [if_neg]
      · rfl
      · rw [hmode]
        exact fun h => absurd h.1 (by decide)
  have hidentity : Succeeds (requiredString shown "call_id" "Anthropic") ↔
      ∃ callId, item.getStr "call_id" = some callId ∧ callId.isEmpty = false := by
    rw [requiredString_succeeds, hshown.getStr (by decide) (by decide)]
  rw [← @resultContent_iff codec _ _ _ hshown hkind, ← hidentity]
  unfold toolResultBlock
  rw [succeeds_bind]
  constructor
  · rintro ⟨callId, hcallId, h⟩
    obtain ⟨load, -, h⟩ := succeeds_bind.mp h
    obtain ⟨content, hcontent, -⟩ := succeeds_bind.mp h
    unfold resultContent at hcontent
    rw [if_pos (hreferences load callId)] at hcontent
    obtain ⟨output, houtput, hblocks⟩ := bind_ok hcontent
    exact ⟨⟨callId, hcallId⟩, output, resultOutput_ok_iff.mp houtput, content, hblocks⟩
  · rintro ⟨⟨callId, hcallId⟩, output, houtput, content, hcontent⟩
    obtain ⟨load, hread⟩ := hload
    have hresult : resultContent codec.toMessageCodec
        (resultReferences load discovery searches callId) shown = .ok content := by
      unfold resultContent
      rw [if_pos (hreferences load callId)]
      exact except_bind_ok_iff.mpr ⟨output, resultOutput_ok_iff.mpr houtput, hcontent⟩
    exact ⟨callId, hcallId, succeeds_bind.mpr ⟨load, hread,
      succeeds_bind.mpr ⟨content, hresult, succeeds_ok _⟩⟩⟩

/-- An item of a committed context is translated without references iff it is ready. -/
theorem translateItem_rebuild {discovery : Discovery} (hmode : discovery.mode = .rebuild)
    (hempty : RejectsEmpty codec.toMessageCodec) (hitem : Durable codec item)
    (hshown : HydratedItem vision item shown) {previous next : Option Json} {index : Nat}
    (hnext : ∀ later, next = some later → ∃ load, toolLoadOf codec.toWireCodec later = .ok load) :
    Succeeds (translateItem codec.toMessageCodec discovery previous next index state shown) ↔
      AnthropicReady codec.toMessageCodec state.preserved item := by
  have hready : AnthropicReady codec.toMessageCodec state.preserved item ↔
      (itemType item = some "message" → (item.get "role").isSome = true) ∧
      (itemKind item = some "message" → rawContent item = none →
        ∀ part ∈ messageParts item, TextFilled part) ∧
      (itemType item = some "function_call_output" →
        (∃ callId, item.getStr "call_id" = some callId ∧ callId.isEmpty = false) ∧
          ∃ parts, contentParts item = some parts ∧ ∀ part ∈ parts, TextFilled part ∧
            (showsText part = true ∨ isImagePart part = true ∨ itemType part = some "file")) ∧
      (itemType item = some "function_call" →
        ∀ text, item.get "arguments" = some (.str text) →
          (∃ callId ∈ state.preserved, itemCallId item = some callId) ∨
            Succeeds (codec.parse text)) :=
    ⟨fun h => ⟨h.role, h.text, h.result, h.call⟩, fun h => ⟨h.1, h.2.1, h.2.2.1, h.2.2.2⟩⟩
  rw [hready]
  unfold translateItem
  rw [hshown.kind]
  by_cases hmessage : itemKind item = some "message"
  · rw [if_pos hmessage, translateMessage_iff hitem hshown hmessage]
    have hother : ∀ kind, kind ≠ "message" → itemType item ≠ some kind := by
      intro kind hne htype
      rw [itemKind_type htype] at hmessage
      exact hne (Option.some.inj hmessage)
    constructor
    · rintro ⟨hrole, htext⟩
      exact ⟨fun _ => hrole, fun _ => htext, fun h => absurd h (hother _ (by decide)),
        fun h => absurd h (hother _ (by decide))⟩
    · rintro ⟨hrole, htext, -⟩
      refine ⟨?_, htext hmessage⟩
      unfold itemKind at hmessage
      split at hmessage
      · rename_i kind hkind
        exact hrole (hkind.trans hmessage)
      · split at hmessage
        · rename_i hsome
          exact hsome
        · cases hmessage
  · rw [if_neg hmessage]
    have hplain : (itemType item = some "message" → (item.get "role").isSome = true) ∧
        (itemKind item = some "message" → rawContent item = none →
          ∀ part ∈ messageParts item, TextFilled part) :=
      ⟨fun h => absurd (itemKind_type h) hmessage, fun h => absurd h hmessage⟩
    by_cases hcall : itemKind item = some "function_call"
    · have htype := type_of_kind hcall (by decide)
      rw [if_pos hcall, translateCall_iff hempty hitem hshown htype]
      have hresult : itemType item ≠ some "function_call_output" := by
        rw [htype]
        decide
      exact ⟨fun h => ⟨hplain.1, hplain.2, fun h' => absurd h' hresult, fun _ => h⟩,
        fun h => h.2.2.2 htype⟩
    · rw [if_neg hcall]
      have hnoCall : itemType item ≠ some "function_call" := fun h => hcall (itemKind_type h)
      by_cases hresult : itemKind item = some "function_call_output"
      · have htype := type_of_kind hresult (by decide)
        rw [if_pos hresult, succeeds_bind]
        have hblock := @toolResultBlock_rebuild codec _ _ _ _ hmode hshown htype
          state.searches _ hnext
        constructor
        · rintro ⟨block, hread, -⟩
          exact ⟨hplain.1, hplain.2, fun _ => hblock.mp ⟨block, hread⟩, fun h => absurd h hnoCall⟩
        · intro h
          obtain ⟨block, hread⟩ := hblock.mpr (h.2.2.1 htype)
          exact ⟨block, hread, succeeds_ok _⟩
      · rw [if_neg hresult]
        have hnoResult : itemType item ≠ some "function_call_output" :=
          fun h => hresult (itemKind_type h)
        have hall : (itemType item = some "message" → (item.get "role").isSome = true) ∧
            (itemKind item = some "message" → rawContent item = none →
              ∀ part ∈ messageParts item, TextFilled part) ∧
            (itemType item = some "function_call_output" →
              (∃ callId, item.getStr "call_id" = some callId ∧ callId.isEmpty = false) ∧
                ∃ parts, contentParts item = some parts ∧ ∀ part ∈ parts, TextFilled part ∧
                  (showsText part = true ∨ isImagePart part = true ∨
                    itemType part = some "file")) ∧
            (itemType item = some "function_call" →
              ∀ text, item.get "arguments" = some (.str text) →
                (∃ callId ∈ state.preserved, itemCallId item = some callId) ∨
                  Succeeds (codec.parse text)) :=
          ⟨hplain.1, hplain.2, fun h => absurd h hnoResult, fun h => absurd h hnoCall⟩
        by_cases hload : itemKind item = some "tool_load"
        · rw [if_pos hload, succeeds_bind]
          obtain ⟨load, hread⟩ := hshown.load hitem.load
          exact ⟨fun _ => hall, fun _ => ⟨load, hread, succeeds_ok _⟩⟩
        · rw [if_neg hload]
          exact ⟨fun _ => hall, fun _ => succeeds_ok _⟩

theorem toolResultBlock_discovery {other : Discovery} (hmode : other.mode = .rebuild)
    (discovery : Discovery) {searches : List String} {next : Option Json}
    (h : Succeeds (toolResultBlock codec.toMessageCodec other searches shown next)) :
    Succeeds (toolResultBlock codec.toMessageCodec discovery searches shown next) := by
  unfold toolResultBlock at h ⊢
  rw [succeeds_bind] at h ⊢
  obtain ⟨callId, hcallId, h⟩ := h
  refine ⟨callId, hcallId, ?_⟩
  rw [succeeds_bind] at h ⊢
  obtain ⟨load, hload, h⟩ := h
  refine ⟨load, hload, ?_⟩
  rw [succeeds_bind] at h ⊢
  obtain ⟨content, hcontent, -⟩ := h
  have hnone : (resultReferences load other searches callId).isEmpty = true := by
    unfold resultReferences
    cases load with
    | none => rfl
    | some load =>
      dsimp only
      rw [hmode, if_neg]
      · rfl
      · exact fun hnative => absurd hnative.1 (by decide)
  unfold resultContent at hcontent ⊢
  rw [if_pos hnone] at hcontent
  by_cases hreferences : (resultReferences load discovery searches callId).isEmpty = true
  · rw [if_pos hreferences]
    exact ⟨content, hcontent, succeeds_ok _⟩
  · rw [if_neg hreferences]
    exact ⟨_, rfl, succeeds_ok _⟩

theorem translateItem_ready {discovery : Discovery} (hempty : RejectsEmpty codec.toMessageCodec)
    (hitem : Durable codec item) (hshown : HydratedItem vision item shown)
    {previous next : Option Json} {index : Nat}
    (hnext : ∀ later, next = some later → ∃ load, toolLoadOf codec.toWireCodec later = .ok load)
    (hready : AnthropicReady codec.toMessageCodec state.preserved item) :
    Succeeds (translateItem codec.toMessageCodec discovery previous next index state shown) := by
  have hrebuild := (@translateItem_rebuild _ _ _ _ _ ⟨.rebuild, "", []⟩ rfl hempty hitem hshown
    previous _ index hnext).mpr hready
  unfold translateItem at hrebuild ⊢
  split
  · rename_i hkind
    rw [if_pos hkind] at hrebuild
    exact hrebuild
  · rename_i hkind
    rw [if_neg hkind] at hrebuild
    split
    · rename_i hcall
      rw [if_pos hcall] at hrebuild
      exact hrebuild
    · rename_i hcall
      rw [if_neg hcall] at hrebuild
      split
      · rename_i hresult
        rw [if_pos hresult, succeeds_bind] at hrebuild
        obtain ⟨block, hblock, -⟩ := hrebuild
        obtain ⟨later, hlater⟩ :=
          @toolResultBlock_discovery codec _ _ rfl discovery _ _ ⟨block, hblock⟩
        exact succeeds_bind.mpr ⟨later, hlater, succeeds_ok _⟩
      · split
        · obtain ⟨load, hload⟩ := hshown.load hitem.load
          exact succeeds_bind.mpr ⟨load, hload, succeeds_ok _⟩
        · exact succeeds_ok _

theorem pushMessage_ne_nil {messages : List WireMessage} {role : String} {blocks : List Json}
    (h : messages ≠ [] ∨ blocks ≠ []) : pushMessage messages role blocks ≠ [] := by
  unfold pushMessage
  split
  · rename_i hempty
    cases h with
    | inl hmessages => exact hmessages
    | inr hblocks => exact absurd (List.isEmpty_iff.mp hempty) hblocks
  · split
    · split
      · simp
      · simp
    · simp

theorem replayStandaloneToolLoad_ne_nil {messages : List WireMessage} (h : messages ≠ [])
    (discovery : Discovery) (follows : Bool) (index : Nat) (load : Option ToolLoad) :
    replayStandaloneToolLoad discovery follows index load messages ≠ [] := by
  unfold replayStandaloneToolLoad
  cases load with
  | none => exact h
  | some load =>
    dsimp only
    split
    · exact h
    · split
      · exact h
      · exact pushMessage_ne_nil (.inl (pushMessage_ne_nil (.inl h)))

/-- What a translated item adds: the calls it preserves, and messages that stay. -/
structure Added (item : Json) (state after : Translation) : Prop where
  preserved : after.preserved = state.preserved ++ itemPreserves item
  messages : state.messages ≠ [] → after.messages ≠ []

theorem translateItem_added {discovery : Discovery} {previous next : Option Json} {index : Nat}
    {after : Translation} {codec : MessageCodec}
    (h : translateItem codec discovery previous next index state item = .ok after) :
    Added item state after := by
  unfold translateItem at h
  split at h
  · rename_i hkind
    unfold translateMessage at h
    split at h
    · cases h
    · split at h
      · rename_i blocks hraw
        cases h
        refine ⟨?_, fun hmessages => pushMessage_ne_nil (.inl hmessages)⟩
        unfold itemPreserves
        rw [if_pos hkind, hraw]
        rfl
      · rename_i hraw
        obtain ⟨blocks, -, h⟩ := bind_ok h
        cases h
        refine ⟨?_, fun hmessages => pushMessage_ne_nil (.inl hmessages)⟩
        unfold itemPreserves
        rw [if_pos hkind, hraw]
        exact (List.append_nil _).symm
  · rename_i hkind
    have hpreserves : state.preserved ++ itemPreserves item = state.preserved := by
      unfold itemPreserves
      rw [if_neg hkind]
      exact List.append_nil _
    split at h
    · unfold translateCall at h
      obtain ⟨callId, -, h⟩ := bind_ok h
      obtain ⟨name, -, h⟩ := bind_ok h
      dsimp only at h
      split at h
      · cases h
        exact ⟨hpreserves.symm, fun hmessages => hmessages⟩
      · obtain ⟨arguments, -, h⟩ := bind_ok h
        obtain ⟨input, -, h⟩ := bind_ok h
        cases h
        refine ⟨hpreserves.symm, fun hmessages => ?_⟩
        dsimp only
        exact pushMessage_ne_nil (.inl hmessages)
    · split at h
      · obtain ⟨block, -, h⟩ := bind_ok h
        cases h
        refine ⟨hpreserves.symm, fun hmessages => ?_⟩
        dsimp only
        exact pushMessage_ne_nil (.inl hmessages)
      · split at h
        · obtain ⟨load, -, h⟩ := bind_ok h
          cases h
          exact ⟨hpreserves.symm, fun hmessages =>
            replayStandaloneToolLoad_ne_nil hmessages _ _ _ _⟩
        · cases h
          exact ⟨hpreserves.symm, fun hmessages => hmessages⟩

def isUserItem (item : Json) : Bool := item.getStr "role" == some "user"

theorem durable_user (h : Durable codec item) (huser : isUserItem item = true) : UserItem item := by
  have hrole : (item.get "role").bind Json.asStr = some "user" := beq_iff_eq.mp huser
  obtain ⟨role, hsome, hstr⟩ := Option.bind_eq_some_iff.mp hrole
  cases h.role role hsome with
  | inl hassistant =>
    rw [hassistant] at hstr
    exact absurd (Option.some.inj hstr) (by decide)
  | inr hitem => exact hitem.2

theorem userItem_kind (h : UserItem item) (huser : isUserItem item = true) :
    itemKind item = some "message" := by
  have hrole : (item.get "role").bind Json.asStr = some "user" := beq_iff_eq.mp huser
  obtain ⟨role, hsome, -⟩ := Option.bind_eq_some_iff.mp hrole
  have htype : itemType item = none := by
    unfold itemType Json.getStr
    rw [h.type]
    rfl
  unfold itemKind
  rw [htype, hsome]
  rfl

theorem translateItem_user {discovery : Discovery} {previous next : Option Json} {index : Nat}
    {after : Translation} (hitem : Durable codec item) (hshown : HydratedItem vision item shown)
    (huser : isUserItem item = true)
    (h : translateItem codec.toMessageCodec discovery previous next index state shown = .ok after) :
    after.messages ≠ [] := by
  have hmessage := durable_user hitem huser
  have hkind := userItem_kind hmessage huser
  unfold translateItem at h
  rw [if_pos (hshown.kind.trans hkind)] at h
  unfold translateMessage at h
  rw [hshown.raw, hmessage.raw] at h
  split at h
  · cases h
  · obtain ⟨blocks, hblocks, h⟩ := bind_ok h
    cases h
    refine pushMessage_ne_nil (.inr ?_)
    obtain ⟨parts, hparts, htext⟩ := hmessage.text
    obtain ⟨part, hpart, hshows⟩ := List.any_eq_true.mp htext
    have hfield := contentField_message hkind
    have hitems : messageParts item = parts := by
      unfold contentParts at hparts
      rw [hfield] at hparts
      unfold messageParts
      rw [hparts]
      rfl
    have hall := hshown.message hkind
    rw [hitems] at hall
    obtain ⟨later, hmem, hrelated⟩ := exists_related hall hpart
    have hother : isImagePart part = false := by
      rw [Bool.eq_false_iff]
      intro himage
      rw [showsText_image himage] at hshows
      cases hshows
    rw [hrelated.other hother] at hmem
    exact contentBlocks_ne_nil hmem hshows hblocks

end AnthropicItems

section AnthropicContexts

variable {codec : OutputCodec} {vision : Vision}

/-- The items of a context are ready, each after the calls preserved before it. -/
def ReadyFrom (codec : MessageCodec) (preserved : List String) : List Json → Prop
  | [] => True
  | item :: rest =>
    AnthropicReady codec preserved item ∧ ReadyFrom codec (preserved ++ itemPreserves item) rest

variable {context shown : List Json}

theorem head_load (hdurable : ∀ item ∈ context, Durable codec item)
    (hshown : List.Forall₂ (HydratedItem vision) context shown) :
    ∀ later, shown.head? = some later → ∃ load, toolLoadOf codec.toWireCodec later = .ok load := by
  intro later hlater
  cases hshown with
  | nil => cases hlater
  | cons hfirst _ =>
    cases hlater
    exact hfirst.load (hdurable _ List.mem_cons_self).load

theorem translateFrom_ready {discovery : Discovery} (hempty : RejectsEmpty codec.toMessageCodec)
    {context shown : List Json} (hshown : List.Forall₂ (HydratedItem vision) context shown)
    (hdurable : ∀ item ∈ context, Durable codec item) {previous : Option Json} {index : Nat}
    {state : Translation} (hready : ReadyFrom codec.toMessageCodec state.preserved context) :
    Succeeds (translateFrom codec.toMessageCodec discovery previous index state shown) := by
  induction hshown generalizing previous index state with
  | nil => exact succeeds_ok state
  | cons hfirst hrest ih =>
    have hlater : ∀ item ∈ _, Durable codec item :=
      fun item hitem => hdurable item (List.mem_cons_of_mem _ hitem)
    unfold translateFrom
    rw [succeeds_bind]
    obtain ⟨after, hafter⟩ := @translateItem_ready _ _ _ _ _ discovery hempty
      (hdurable _ List.mem_cons_self) hfirst previous _ index (head_load hlater hrest) hready.1
    refine ⟨after, hafter, ih hlater ?_⟩
    rw [(translateItem_added hafter).preserved, hfirst.preserves]
    exact hready.2

theorem ready_of_translated {discovery : Discovery} (hmode : discovery.mode = .rebuild)
    (hempty : RejectsEmpty codec.toMessageCodec)
    (hshown : List.Forall₂ (HydratedItem vision) context shown)
    (hdurable : ∀ item ∈ context, Durable codec item) {previous : Option Json} {index : Nat}
    {state : Translation}
    (h : Succeeds (translateFrom codec.toMessageCodec discovery previous index state shown)) :
    ReadyFrom codec.toMessageCodec state.preserved context := by
  induction hshown generalizing previous index state with
  | nil => trivial
  | cons hfirst hrest ih =>
    have hlater : ∀ item ∈ _, Durable codec item :=
      fun item hitem => hdurable item (List.mem_cons_of_mem _ hitem)
    unfold translateFrom at h
    obtain ⟨after, hafter, h⟩ := succeeds_bind.mp h
    constructor
    · exact (translateItem_rebuild hmode hempty (hdurable _ List.mem_cons_self) hfirst
        (head_load hlater hrest)).mp ⟨after, hafter⟩
    · have hpreserved := (translateItem_added hafter).preserved
      rw [hfirst.preserves] at hpreserved
      rw [← hpreserved]
      exact ih hlater h

theorem translateFrom_messages {discovery : Discovery}
    (hshown : List.Forall₂ (HydratedItem vision) context shown)
    (hdurable : ∀ item ∈ context, Durable codec item) {previous : Option Json} {index : Nat}
    {state after : Translation}
    (huser : state.messages ≠ [] ∨ ∃ item ∈ context, isUserItem item = true)
    (h : translateFrom codec.toMessageCodec discovery previous index state shown = .ok after) :
    after.messages ≠ [] := by
  induction hshown generalizing previous index state with
  | nil =>
    cases h
    cases huser with
    | inl hmessages => exact hmessages
    | inr hitem =>
      obtain ⟨item, hnone, -⟩ := hitem
      cases hnone
  | cons hfirst _ ih =>
    have hlater : ∀ item ∈ _, Durable codec item :=
      fun item hitem => hdurable item (List.mem_cons_of_mem _ hitem)
    unfold translateFrom at h
    obtain ⟨between, hbetween, h⟩ := bind_ok h
    refine ih hlater ?_ h
    cases huser with
    | inl hmessages => exact .inl ((translateItem_added hbetween).messages hmessages)
    | inr hitem =>
      obtain ⟨item, hmem, hrole⟩ := hitem
      cases List.mem_cons.mp hmem with
      | inl hsame =>
        exact .inl (translateItem_user (hdurable _ List.mem_cons_self) hfirst (hsame ▸ hrole)
          hbetween)
      | inr hrest => exact .inr ⟨item, hrest, hrole⟩

/-- A context is ready iff each of its items is, after those before it. -/
theorem readyFrom_iff {codec : MessageCodec} {preserved : List String} :
    ReadyFrom codec preserved context ↔ ∀ before item after, context = before ++ item :: after →
      AnthropicReady codec (preserved ++ preservedIn before) item := by
  induction context generalizing preserved with
  | nil =>
    constructor
    · intro _ before item after hsplit
      cases before with
      | nil | cons => cases hsplit
    · intro _
      trivial
  | cons first rest ih =>
    unfold ReadyFrom
    rw [ih]
    constructor
    · rintro ⟨hfirst, hrest⟩ before item after hsplit
      cases before with
      | nil =>
        cases hsplit
        rw [preservedIn, List.flatMap_nil, List.append_nil]
        exact hfirst
      | cons other before =>
        cases hsplit
        have hready := hrest before item after rfl
        rw [List.append_assoc] at hready
        exact hready
    · intro h
      constructor
      · have hready := h [] first rest rfl
        rw [preservedIn, List.flatMap_nil, List.append_nil] at hready
        exact hready
      · intro before item after hsplit
        have hready := h (first :: before) item after (by rw [hsplit]; rfl)
        rw [List.append_assoc]
        exact hready

end AnthropicContexts

end MobiusAgent.ProviderRequests
