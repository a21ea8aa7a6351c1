import MobiusAgent.AnthropicRequests

/-!
# Which contexts every provider can be sent

The requests of Anthropic, Kimi, Mistral and the Responses API over one
committed context. `Sendable` says what a context must hold for all of them to
succeed, and `committed_context_sendable` proves it exact over the contexts
that are committed.
-/

namespace MobiusAgent.ProviderRequests

open JsonValue ProtocolEvents CheckpointValidation ContextItems ResponsesWire ProviderMessages
  ModelOutputs CommittedContexts

section Translation

variable (codec : MessageCodec) (store : ImageStore)

def kimiVision : Vision := ⟨true, false⟩

/-- The vision of Anthropic and of Mistral. -/
def fullVision : Vision := ⟨true, true⟩

def anthropicRequest (discovery : Discovery) (context : List Json) :
    Except Error (List WireMessage) := do
  translateMessages codec discovery (← hydrate store fullVision context)

def kimiRequest (instructions : String) (context : List Json) :
    Except Error (List (ChatMessage KimiMessage)) := do
  wireMessages codec ⟨none, none⟩ instructions "Kimi" (kimiContent codec)
    (← hydrate store kimiVision context)

def mistralRequest (instructions : String) (context : List Json) :
    Except Error (List (ChatMessage MistralContent)) := do
  wireMessages codec .empty instructions "Mistral" (mistralContent codec)
    (← hydrate store fullVision context)

def responsesRequest (vision : Vision) (explicitPromptCache : Bool) (revision : String)
    (additional : List ToolDefinition) (context : List Json) : Except Error (List Json) := do
  wireInput codec.toWireCodec vision.images explicitPromptCache revision additional
    (← hydrate store vision context)

/-- Every provider can be sent a context. -/
structure SentByAll (context : List Json) : Prop where
  anthropic : ∀ discovery, Succeeds (anthropicRequest codec store discovery context)
  kimi : ∀ instructions, Succeeds (kimiRequest codec store instructions context)
  mistral : ∀ instructions, Succeeds (mistralRequest codec store instructions context)
  responses : ∀ vision explicitPromptCache revision additional,
    Succeeds (responsesRequest codec store vision explicitPromptCache revision additional context)

/-- A part of a tool result is text that is not empty, an image or a file. -/
def ResultPart (part : Json) : Prop :=
  (itemType part = some "input_text" ∧ TextFilled part) ∨ isImagePart part = true ∨
    itemType part = some "file"

/-- The text of the arguments of a call can be replayed after the items before it. -/
structure CallReadable (before : List Json) (item : Json) (text : String) : Prop where
  skims : Succeeds (codec.skim text)
  /-- The value can be built, unless preserved blocks hold the call. -/
  parses : (∃ callId ∈ preservedIn before, itemCallId item = some callId) ∨
    Succeeds (codec.parse text)

/-- What a context must hold for every provider to be sent it. -/
structure Sendable (context : List Json) : Prop where
  roles : ∀ item ∈ context, itemType item = some "message" → (item.get "role").isSome = true
  /-- Text of a message is not empty, unless the blocks of the message are preserved. -/
  texts : ∀ item ∈ context, itemKind item = some "message" → rawContent item = none →
    ∀ part ∈ messageParts item, TextFilled part
  results : ∀ item ∈ context, itemType item = some "function_call_output" →
    (∃ callId, item.getStr "call_id" = some callId ∧ callId.isEmpty = false) ∧
      ∃ parts, contentParts item = some parts ∧ ∀ part ∈ parts, ResultPart part
  calls : ∀ before item after, context = before ++ item :: after →
    itemType item = some "function_call" →
    ∀ text, item.get "arguments" = some (.str text) → CallReadable codec before item text

end Translation

section ChatParts

variable {codec : MessageCodec} {vision : Vision} {toolResult : Bool} {part shown : Json}

theorem Shown.imageUrl (h : Shown shown) (himage : isImagePart shown = true) (provider : String) :
    Succeeds (imageUrlParts provider shown) := by
  unfold imageUrlParts
  rw [succeeds_map]
  cases h with
  | inl hnote =>
    rw [isImagePart_iff, hnote.1] at himage
    exact absurd (Option.some.inj himage) (by decide)
  | inr hpixels =>
    obtain ⟨-, pixels, hpixels⟩ := hpixels
    exact ⟨_, imageInput_provider hpixels provider⟩

theorem Hydrated.visible (h : Hydrated vision toolResult part shown)
    (himage : isImagePart shown = true) : Shown shown := by
  by_cases hpart : isImagePart part = true
  · exact h.image hpart
  · have hother : isImagePart part = false := by simpa using hpart
    rw [h.other hother, hother] at himage
    cases himage

theorem Hydrated.messagePart (h : Hydrated vision toolResult part shown) (provider : String) :
    Succeeds (messagePart provider shown) := by
  unfold ProviderMessages.messagePart
  split
  · exact succeeds_ok _
  · split
    · rename_i hkind
      have himage := isImagePart_iff.mpr hkind
      exact (h.visible himage).imageUrl himage provider
    · exact succeeds_ok _

/-- A shown part of a result has wire parts if it is text, an image or a file. -/
theorem Hydrated.toolResultPart (h : Hydrated vision toolResult part shown)
    (hpart : ResultPart part) (provider : String) :
    Succeeds (toolResultPart codec provider shown) := by
  unfold ProviderMessages.toolResultPart
  by_cases himage : isImagePart part = true
  · cases h.image himage with
    | inl hnote =>
      obtain ⟨hkind, text, htext, -⟩ := hnote
      rw [if_pos hkind, htext]
      exact succeeds_ok _
    | inr hpixels =>
      have hkind := isImagePart_iff.mp hpixels.1
      have htext : itemType shown ≠ some "input_text" := by
        rw [hkind]
        decide
      have hfile : itemType shown ≠ some "file" := by
        rw [hkind]
        decide
      rw [if_neg htext, if_neg hfile, if_pos hkind]
      exact Shown.imageUrl (.inr hpixels) hpixels.1 provider
  · have hother : isImagePart part = false := by simpa using himage
    rw [h.other hother]
    rcases hpart with ⟨hkind, hfilled⟩ | himage' | hfile
    · obtain ⟨text, htext, -⟩ := hfilled (showsText_iff.mpr (.inl hkind))
      rw [if_pos hkind, htext]
      exact succeeds_ok _
    · exact absurd himage' himage
    · have htext : itemType part ≠ some "input_text" := by
        rw [hfile]
        decide
      rw [if_neg htext, if_pos hfile]
      exact succeeds_ok _

theorem Hydrated.outputLine (h : Hydrated vision toolResult part shown) (hpart : ResultPart part)
    (hblind : isImagePart shown = false) : Succeeds (outputLine codec shown) := by
  rw [outputLine_succeeds]
  by_cases himage : isImagePart part = true
  · cases h.image himage with
    | inl hnote =>
      obtain ⟨hkind, text, htext, -⟩ := hnote
      exact .inl ⟨hkind, text, htext⟩
    | inr hpixels =>
      rw [hpixels.1] at hblind
      cases hblind
  · have hother : isImagePart part = false := by simpa using himage
    rw [h.other hother]
    rcases hpart with ⟨hkind, hfilled⟩ | himage' | hfile
    · obtain ⟨text, htext, -⟩ := hfilled (showsText_iff.mpr (.inl hkind))
      exact .inl ⟨hkind, text, htext⟩
    · exact absurd himage' himage
    · exact .inr hfile

theorem messageContent_succeeds {item shown : Json} (hshown : HydratedItem vision item shown)
    (hkind : itemType item ≠ some "function_call_output") (provider : String) :
    Succeeds (messageContent codec provider (shown.get "content")) := by
  unfold messageContent
  split
  · rename_i parts hparts
    rw [succeeds_map, succeeds_mapM]
    have hfound := (Option.filter_eq_some_iff.mp hparts).1
    have hfield : contentField shown = "content" := by
      unfold contentField
      rw [if_neg (hshown.type ▸ hkind)]
    have hcontent : contentParts shown = some parts := by
      unfold contentParts
      rw [hfield]
      exact hfound
    cases hitem : contentParts item with
    | none =>
      rw [hshown.bare hitem, hitem] at hcontent
      cases hcontent
    | some before =>
      obtain ⟨later, hlater, hall⟩ := hshown.parts before hitem
      rw [hcontent] at hlater
      cases hlater
      intro part hpart
      obtain ⟨old, -, hrelated⟩ := forall₂_mem_right hall hpart
      exact hrelated.messagePart provider
  · exact succeeds_ok _

end ChatParts

section ChatItems

variable {codec : OutputCodec} {vision : Vision} {item shown : Json} {C : Type} {empty : C}
  {provider : String} {content : ContentSource → Except Error C}

/-- An item of a committed context has a wire message if its content has, its call can be
skimmed and its result can be shown. -/
theorem wireMessageItem_succeeds (hitem : Durable codec item)
    (hshown : HydratedItem vision item shown)
    (hcall : itemType item = some "function_call" →
      ∀ text, item.get "arguments" = some (.str text) → Succeeds (codec.skim text))
    (hresult : itemType item = some "function_call_output" →
      (∃ callId, item.getStr "call_id" = some callId ∧ callId.isEmpty = false) ∧
        ∃ output, shown.get "output" = some output ∧ Succeeds (content (.tool output)))
    (hhistory : itemType item ≠ some "function_call_output" →
      ∀ role, Succeeds (content (.history role shown))) (messages : List (ChatMessage C)) :
    Succeeds (wireMessageItem codec.toMessageCodec empty provider content messages shown) := by
  unfold wireMessageItem
  rw [hshown.type]
  by_cases hkind : itemType item = some "function_call"
  · rw [if_pos hkind, succeeds_bind]
    obtain ⟨callId, name, text, hcallId, hidentity, hname, hnamed, htext⟩ := hitem.call hkind
    obtain ⟨_, hskim⟩ := hcall hkind text htext
    refine ⟨⟨callId, name, text⟩, ?_, succeeds_ok _⟩
    have hargument : argumentText codec.toMessageCodec (shown.get "arguments") = .ok text := by
      rw [hshown.same _ (by decide) (by decide), htext]
      change (codec.skim text).map (fun _ => text) = .ok text
      rw [hskim]
      rfl
    unfold wireToolCall
    refine except_bind_ok_iff.mpr ⟨callId, requiredString_ok_iff.mpr ⟨?_, hidentity⟩,
      except_bind_ok_iff.mpr ⟨name, requiredString_ok_iff.mpr ⟨?_, hnamed⟩,
        except_bind_ok_iff.mpr ⟨text, hargument, rfl⟩⟩⟩
    · rw [hshown.getStr (by decide) (by decide)]
      exact hcallId
    · rw [hshown.getStr (by decide) (by decide)]
      exact hname
  · rw [if_neg hkind]
    by_cases htool : itemType item = some "function_call_output"
    · rw [if_pos htool]
      obtain ⟨hidentity, output, houtput, payload, hpayload⟩ := hresult htool
      obtain ⟨callId, hcallId⟩ : Succeeds (requiredString shown "call_id" provider) := by
        rw [requiredString_succeeds, hshown.getStr (by decide) (by decide)]
        exact hidentity
      exact succeeds_bind.mpr ⟨callId, hcallId, succeeds_bind.mpr ⟨output,
        resultOutput_ok_iff.mpr houtput, succeeds_bind.mpr ⟨payload, hpayload, succeeds_ok _⟩⟩⟩
    · rw [if_neg htool]
      split
      · rename_i hrole
        obtain ⟨role, hsome⟩ := Option.isSome_iff_exists.mp hrole.2
        rw [hshown.same _ (by decide) (by decide)] at hsome
        have hread : ∃ text, shown.getStr "role" = some text ∧ text.isEmpty = false ∧
            wireRole provider text = .ok text := by
          rw [hshown.getStr (by decide) (by decide)]
          unfold Json.getStr
          rw [hsome]
          cases hitem.role role hsome with
          | inl hassistant =>
            rw [hassistant]
            exact ⟨"assistant", rfl, by decide, rfl⟩
          | inr huser =>
            rw [huser.1]
            exact ⟨"user", rfl, by decide, rfl⟩
        obtain ⟨text, htext, hfilled, hwire⟩ := hread
        obtain ⟨payload, hpayload⟩ := hhistory htool text
        exact succeeds_bind.mpr ⟨text, requiredString_ok_iff.mpr ⟨htext, hfilled⟩,
          succeeds_bind.mpr ⟨text, hwire, succeeds_bind.mpr ⟨payload, hpayload, succeeds_ok _⟩⟩⟩
      · exact succeeds_ok _

theorem pushCall_conversation {messages : List (ChatMessage C)} (call : WireToolCall) :
    (pushCall empty messages call).any isConversation = true := by
  have hrole : ∀ payload calls callId,
      isConversation (⟨"assistant", payload, calls, callId⟩ : ChatMessage C) = true := by
    intro payload calls callId
    unfold isConversation
    dsimp only
    decide
  unfold pushCall
  split
  · split
    · rename_i last _ hlast
      rw [List.any_append, List.any_cons]
      have hsame : isConversation { last with toolCalls := last.toolCalls ++ [call] } = true := by
        unfold isConversation
        dsimp only
        rw [hlast]
        decide
      rw [hsame, Bool.true_or, Bool.or_true]
    · rw [List.any_append, List.any_cons, hrole, Bool.true_or, Bool.or_true]
  · rw [List.any_cons, hrole, Bool.true_or]

theorem wireMessageItem_conversation {codec : MessageCodec} {messages after : List (ChatMessage C)}
    (h : wireMessageItem codec empty provider content messages item = .ok after)
    (hbefore : messages.any isConversation = true) : after.any isConversation = true := by
  unfold wireMessageItem at h
  split at h
  · obtain ⟨call, -, h⟩ := bind_ok h
    cases h
    exact pushCall_conversation call
  · split at h
    · obtain ⟨callId, -, h⟩ := bind_ok h
      obtain ⟨output, -, h⟩ := bind_ok h
      obtain ⟨payload, -, h⟩ := bind_ok h
      cases h
      rw [List.any_append, hbefore, Bool.true_or]
    · split at h
      · obtain ⟨declared, -, h⟩ := bind_ok h
        obtain ⟨role, -, h⟩ := bind_ok h
        obtain ⟨payload, -, h⟩ := bind_ok h
        cases h
        rw [List.any_append, hbefore, Bool.true_or]
      · cases h
        exact hbefore

theorem wireMessageItem_user {messages after : List (ChatMessage C)} (hitem : Durable codec item)
    (hshown : HydratedItem vision item shown) (huser : isUserItem item = true)
    (h : wireMessageItem codec.toMessageCodec empty provider content messages shown = .ok after) :
    after.any isConversation = true := by
  have htype : itemType item = none := by
    unfold itemType Json.getStr
    rw [(durable_user hitem huser).type]
    rfl
  have hrole : shown.getStr "role" = some "user" := by
    rw [hshown.getStr (by decide) (by decide)]
    exact beq_iff_eq.mp huser
  have hsome : (shown.get "role").isSome = true := by
    obtain ⟨role, hfound, -⟩ := Option.bind_eq_some_iff.mp hrole
    rw [hfound]
    rfl
  unfold wireMessageItem at h
  rw [hshown.type, htype, if_neg (by decide), if_neg (by decide), if_pos ⟨.inr rfl, hsome⟩] at h
  obtain ⟨declared, hdeclared, h⟩ := bind_ok h
  obtain ⟨role, hwire, h⟩ := bind_ok h
  obtain ⟨payload, -, h⟩ := bind_ok h
  have hsame := (requiredString_ok_iff.mp hdeclared).1
  rw [hrole] at hsame
  cases hsame
  obtain rfl : "user" = role := Except.ok.inj hwire
  cases h
  rw [List.any_append, List.any_cons]
  have hmessage : isConversation (⟨"user", payload, [], none⟩ : ChatMessage C) = true := by
    unfold isConversation
    dsimp only
    decide
  rw [hmessage, Bool.true_or, Bool.or_true]

/-- A context with a message of the user has wire messages, if each of its items has. -/
theorem wireMessages_succeeds {context shownContext : List Json} {instructions : String}
    (hsystem : Succeeds (content (.system instructions)))
    (hshown : List.Forall₂ (HydratedItem vision) context shownContext)
    (hdurable : ∀ item ∈ context, Durable codec item)
    (huser : ∃ item ∈ context, isUserItem item = true)
    (hitems : ∀ item shown, item ∈ context → HydratedItem vision item shown →
      ∀ messages, Succeeds (wireMessageItem codec.toMessageCodec empty provider content messages
        shown)) :
    Succeeds (wireMessages codec.toMessageCodec empty instructions provider content
      shownContext) := by
  have hfold : ∀ messages : List (ChatMessage C),
      (messages.any isConversation = true ∨ ∃ item ∈ context, isUserItem item = true) →
        ∃ after, shownContext.foldlM
          (wireMessageItem codec.toMessageCodec empty provider content) messages = .ok after ∧
            after.any isConversation = true := by
    clear huser
    induction hshown with
    | nil =>
      intro messages hmessages
      cases hmessages with
      | inl hbefore => exact ⟨messages, rfl, hbefore⟩
      | inr hnone =>
        obtain ⟨item, hmem, -⟩ := hnone
        cases hmem
    | cons hfirst _ ih =>
      intro messages hmessages
      have hdurable' := hdurable _ List.mem_cons_self
      obtain ⟨between, hbetween⟩ := hitems _ _ List.mem_cons_self hfirst messages
      obtain ⟨after, hafter, hconversation⟩ := ih
        (fun item hitem => hdurable item (List.mem_cons_of_mem _ hitem))
        (fun item shown hitem => hitems item shown (List.mem_cons_of_mem _ hitem)) between (by
          cases hmessages with
          | inl hbefore => exact .inl (wireMessageItem_conversation hbetween hbefore)
          | inr hsome =>
            obtain ⟨item, hmem, hrole⟩ := hsome
            cases List.mem_cons.mp hmem with
            | inl hsame =>
              exact .inl (wireMessageItem_user hdurable' hfirst (hsame ▸ hrole) hbetween)
            | inr hlater => exact .inr ⟨item, hlater, hrole⟩)
      refine ⟨after, ?_, hconversation⟩
      rw [List.foldlM_cons]
      exact except_bind_ok_iff.mpr ⟨between, hbetween, hafter⟩
  unfold wireMessages
  have hstart : Succeeds (systemMessages instructions content) := by
    unfold systemMessages
    split
    · exact succeeds_ok _
    · exact succeeds_map.mpr hsystem
  obtain ⟨start, hstart⟩ := hstart
  obtain ⟨after, hafter, hconversation⟩ := hfold start (.inr huser)
  refine succeeds_bind.mpr ⟨start, hstart, succeeds_bind.mpr ⟨after, hafter, ?_⟩⟩
  rw [if_pos hconversation]
  exact succeeds_ok after

end ChatItems

section Providers

variable {codec : OutputCodec} {store : ImageStore} {context shownContext : List Json}
  {item shown : Json}

variable {vision : Vision} {part : Json} {instructions : String}

theorem shownOutput (hshown : HydratedItem vision item shown)
    (hkind : itemType item = some "function_call_output") {parts : List Json}
    (hparts : contentParts item = some parts) :
    ∃ output later, shown.get "output" = some output ∧ output.asArray = some later ∧
      List.Forall₂ (Hydrated vision true) parts later := by
  rcases hshown.output hkind with ⟨hnone, -⟩ | ⟨found, later, hfound, hlater, hall⟩
  · rw [hparts] at hnone
    cases hnone
  · rw [hparts] at hfound
    cases hfound
    obtain ⟨output, houtput, harray⟩ := Option.bind_eq_some_iff.mp hlater
    exact ⟨output, later, houtput, harray, hall⟩

theorem kimi_note (h : Hydrated kimiVision true part shown) : isImagePart shown = false := by
  rw [Bool.eq_false_iff]
  intro himage
  by_cases hpart : isImagePart part = true
  · have hnote := h.note hpart (.inr ⟨rfl, rfl⟩)
    rw [isImagePart_iff, hnote] at himage
    exact absurd (Option.some.inj himage) (by decide)
  · have hother : isImagePart part = false := by simpa using hpart
    rw [h.other hother, hother] at himage
    cases himage

theorem Sendable.skims (h : Sendable codec.toMessageCodec context) {item : Json}
    (hitem : item ∈ context) (hkind : itemType item = some "function_call") (text : String)
    (htext : item.get "arguments" = some (.str text)) : Succeeds (codec.skim text) := by
  obtain ⟨before, after, hsplit⟩ := List.append_of_mem hitem
  exact (h.calls before item after hsplit hkind text htext).skims

/-- Kimi is sent a context whose calls can be skimmed and whose results hold text, images
and files. -/
theorem kimi_succeeds (hsendable : Sendable codec.toMessageCodec context)
    (hdurable : ∀ item ∈ context, Durable codec item)
    (huser : ∃ item ∈ context, isUserItem item = true)
    (hshown : List.Forall₂ (HydratedItem kimiVision) context shownContext) :
    Succeeds (wireMessages codec.toMessageCodec ⟨none, none⟩ instructions "Kimi"
      (kimiContent codec.toMessageCodec) shownContext) := by
  refine wireMessages_succeeds (succeeds_ok _) hshown hdurable huser fun item shown hitem hone =>
    wireMessageItem_succeeds (hdurable item hitem) hone (hsendable.skims hitem) ?_ ?_
  · intro hkind
    obtain ⟨hidentity, parts, hparts, hready⟩ := hsendable.results item hitem hkind
    obtain ⟨output, later, houtput, harray, hall⟩ := shownOutput hone hkind hparts
    refine ⟨hidentity, output, houtput, ?_⟩
    unfold kimiContent
    rw [succeeds_map, toolText_succeeds]
    refine ⟨later, harray, fun part hpart => ?_⟩
    obtain ⟨old, hold, hrelated⟩ := forall₂_mem_right hall hpart
    exact hrelated.outputLine (hready old hold) (kimi_note hrelated)
  · intro hkind role
    unfold kimiContent
    rw [succeeds_map]
    exact messageContent_succeeds hone hkind "Kimi"

theorem mistral_succeeds (hsendable : Sendable codec.toMessageCodec context)
    (hdurable : ∀ item ∈ context, Durable codec item)
    (huser : ∃ item ∈ context, isUserItem item = true)
    (hshown : List.Forall₂ (HydratedItem fullVision) context shownContext) :
    Succeeds (wireMessages codec.toMessageCodec .empty instructions "Mistral"
      (mistralContent codec.toMessageCodec) shownContext) := by
  refine wireMessages_succeeds (succeeds_ok _) hshown hdurable huser fun item shown hitem hone =>
    wireMessageItem_succeeds (hdurable item hitem) hone (hsendable.skims hitem) ?_ ?_
  · intro hkind
    obtain ⟨hidentity, parts, hparts, hready⟩ := hsendable.results item hitem hkind
    obtain ⟨output, later, houtput, harray, hall⟩ := shownOutput hone hkind hparts
    refine ⟨hidentity, output, houtput, ?_⟩
    unfold mistralContent
    rw [succeeds_map]
    unfold toolResultContent
    split
    · rename_i found hfound
      have hsame := (Option.filter_eq_some_iff.mp hfound).1
      rw [harray] at hsame
      cases hsame
      rw [succeeds_map, succeeds_mapM]
      intro part hpart
      obtain ⟨old, hold, hrelated⟩ := forall₂_mem_right hall hpart
      exact hrelated.toolResultPart (hready old hold) "Mistral"
    · rename_i hnone
      rw [succeeds_map, toolText_succeeds]
      refine ⟨later, harray, fun part hpart => ?_⟩
      obtain ⟨old, hold, hrelated⟩ := forall₂_mem_right hall hpart
      refine hrelated.outputLine (hready old hold) ?_
      rw [harray] at hnone
      have hplain := Option.filter_eq_none_iff.mp hnone later rfl
      have hevery := List.any_eq_false.mp (Bool.eq_false_iff.mpr hplain) part hpart
      simpa using hevery
  · intro hkind role
    unfold mistralContent
    dsimp only
    split
    · exact succeeds_ok _
    · rw [succeeds_map]
      exact messageContent_succeeds hone hkind "Mistral"

theorem checkPart_succeeds {toolResult : Bool} (h : Hydrated vision toolResult part shown) :
    checkPart vision.images shown = .ok () := by
  unfold checkPart
  split
  · rename_i hkind
    have himage := isImagePart_iff.mpr hkind
    by_cases himages : vision.images = true
    · rw [if_pos himages]
      cases h.visible himage with
      | inl hnote =>
        rw [hnote.1] at hkind
        exact absurd (Option.some.inj hkind) (by decide)
      | inr hpixels =>
        obtain ⟨-, pixels, hpixels⟩ := hpixels
        rw [imageInput_provider hpixels "Responses"]
        rfl
    · exfalso
      have hnone : vision.images = false := by simpa using himages
      by_cases hpart : isImagePart part = true
      · have hnote := h.note hpart (.inl hnone)
        rw [hkind] at hnote
        exact absurd (Option.some.inj hnote) (by decide)
      · have hother : isImagePart part = false := by simpa using hpart
        rw [h.other hother, hother] at himage
        cases himage
  · rfl

theorem wirePart_succeeds {toolResult : Bool} {codec : WireCodec}
    (h : Hydrated vision toolResult part shown) (endpoint : Bool) :
    Succeeds (wirePart codec endpoint shown) := by
  cases shown with
  | obj fields =>
    unfold wirePart
    dsimp only
    split
    · exact succeeds_ok _
    · split
      · rename_i hkind
        have himage := isImagePart_iff.mpr hkind
        cases h.visible himage with
        | inl hnote =>
          rw [hnote.1] at hkind
          exact absurd (Option.some.inj hkind) (by decide)
        | inr hpixels =>
          obtain ⟨-, pixels, hpixels⟩ := hpixels
          rw [imageInput_provider hpixels "Responses"]
          exact succeeds_ok _
      · exact succeeds_ok _
  | null | bool | number | decimal | str | arr => exact succeeds_ok _

theorem shownParts (hshown : HydratedItem vision item shown) {later : List Json}
    (hlater : contentParts shown = some later) :
    ∀ part ∈ later, ∃ old, Hydrated vision (isToolResult item) old part := by
  intro part hpart
  cases hitem : contentParts item with
  | none =>
    rw [hshown.bare hitem, hitem] at hlater
    cases hlater
  | some parts =>
    obtain ⟨found, hfound, hall⟩ := hshown.parts parts hitem
    rw [hlater] at hfound
    cases hfound
    obtain ⟨old, -, hrelated⟩ := forall₂_mem_right hall hpart
    exact ⟨old, hrelated⟩

theorem wireItem_succeeds {codec : WireCodec} (hshown : HydratedItem vision item shown)
    (hordered : Ordered shown) (explicit : Bool) : Succeeds (wireItem codec explicit shown) := by
  cases shown with
  | obj fields =>
    unfold wireItem
    dsimp only
    rw [succeeds_map, succeeds_mapM]
    intro field hfield
    have hmem := List.mem_of_mem_filter hfield
    unfold wireField
    split
    · exact succeeds_ok _
    · rename_i hname
      have hkey : field.1 = contentField (.obj fields) := not_not.mp hname
      have hget := lookup_of_mem (hordered fields rfl) hmem
      split
      · rename_i parts hparts
        have hcontent : contentParts (.obj fields) = some parts := by
          unfold contentParts
          rw [← hkey]
          change (Json.lookup field.1 fields).bind Json.asArray = some parts
          rw [hget, hparts]
          rfl
        rw [succeeds_map]
        unfold wireContent
        dsimp only
        rw [succeeds_mapM]
        intro part hpart
        obtain ⟨old, hrelated⟩ := shownParts hshown hcontent part.1 (List.fst_mem_of_mem_zipIdx hpart)
        exact wirePart_succeeds hrelated _
      · split
        · exact succeeds_ok _
        · exact succeeds_ok _
      · exact succeeds_ok _
  | null | bool | number | decimal | str | arr => exact succeeds_ok _

theorem responses_succeeds {explicit : Bool} {revision : String}
    {additional : List ToolDefinition} (hdurable : ∀ item ∈ context, Durable codec item)
    (hshown : List.Forall₂ (HydratedItem vision) context shownContext) :
    Succeeds (wireInput codec.toWireCodec vision.images explicit revision additional
      shownContext) := by
  have hloads : ∀ shown ∈ shownContext, ∃ item ∈ context, HydratedItem vision item shown :=
    fun shown hmem => forall₂_mem_right hshown hmem
  have hwire : ∀ sent, Succeeds (serializeFrom codec.toWireCodec explicit revision additional sent
      shownContext) := by
    have hitems : ∀ shown ∈ shownContext,
        (∃ load, toolLoadOf codec.toWireCodec shown = .ok load) ∧
          Succeeds (wireItem codec.toWireCodec explicit shown) := by
      intro shown hmem
      obtain ⟨item, hitem, hone⟩ := hloads shown hmem
      exact ⟨hone.load (hdurable item hitem).load,
        wireItem_succeeds hone (hone.ordered (hdurable item hitem).ordered) explicit⟩
    clear hshown hloads
    induction shownContext with
    | nil =>
      intro sent
      unfold serializeFrom
      exact succeeds_ok _
    | cons first rest ih =>
      intro sent
      have hlater := ih fun shown hmem => hitems shown (List.mem_cons_of_mem _ hmem)
      obtain ⟨⟨load, hload⟩, wire, hfirst⟩ := hitems first List.mem_cons_self
      cases load with
      | none =>
        obtain ⟨later, hrest⟩ := hlater sent
        rw [serializeFrom_plain hload]
        exact succeeds_bind.mpr ⟨wire, hfirst, succeeds_bind.mpr ⟨later, hrest, succeeds_ok _⟩⟩
      | some load =>
        rw [serializeFrom_load hload]
        obtain ⟨later, hrest⟩ := hlater (addedTools revision additional sent load).2
        exact succeeds_bind.mpr ⟨later, hrest, succeeds_ok _⟩
  obtain ⟨wire, hserialized⟩ := hwire []
  refine ⟨wire.1, wireInput_ok_iff.mpr ⟨fun shown hmem => ?_, wire.2, hserialized⟩⟩
  obtain ⟨item, hitem, hone⟩ := hloads shown hmem
  obtain ⟨load, hload⟩ := hone.load (hdurable item hitem).load
  unfold checkItem
  rw [hload]
  cases load with
  | some load => rfl
  | none =>
    refine (forM_ok_iff _ _).mpr fun part hpart => ?_
    cases hparts : contentParts shown with
    | none =>
      rw [hparts] at hpart
      cases hpart
    | some parts =>
      rw [hparts] at hpart
      obtain ⟨old, hrelated⟩ := shownParts hone hparts part hpart
      exact checkPart_succeeds hrelated

theorem foldlM_steps {α β : Type} {step : β → α → Except Error β} {items : List α} {start after : β}
    (h : items.foldlM step start = .ok after) :
    ∀ item ∈ items, ∃ state, Succeeds (step state item) := by
  induction items generalizing start with
  | nil =>
    intro item hmem
    cases hmem
  | cons first rest ih =>
    rw [List.foldlM_cons] at h
    obtain ⟨between, hbetween, h⟩ := bind_ok h
    intro item hmem
    cases List.mem_cons.mp hmem with
    | inl hsame => exact ⟨start, between, hsame ▸ hbetween⟩
    | inr hrest => exact ih h item hrest

theorem wireMessages_items {C : Type} {empty : C} {provider : String}
    {content : ContentSource → Except Error C} {codec : MessageCodec}
    (h : Succeeds (wireMessages codec empty instructions provider content shownContext)) :
    ∀ shown ∈ shownContext, ∃ messages,
      Succeeds (wireMessageItem codec empty provider content messages shown) := by
  unfold wireMessages at h
  obtain ⟨start, -, h⟩ := succeeds_bind.mp h
  obtain ⟨after, hafter, -⟩ := succeeds_bind.mp h
  exact foldlM_steps hafter

theorem call_skims {C : Type} {empty : C} {provider : String}
    {content : ContentSource → Except Error C} {messages : List (ChatMessage C)}
    (hshown : HydratedItem vision item shown) (hkind : itemType item = some "function_call")
    {text : String} (htext : item.get "arguments" = some (.str text))
    (h : Succeeds (wireMessageItem codec.toMessageCodec empty provider content messages shown)) :
    Succeeds (codec.skim text) := by
  unfold wireMessageItem at h
  rw [hshown.type, if_pos hkind] at h
  obtain ⟨call, hcall, -⟩ := succeeds_bind.mp h
  unfold wireToolCall at hcall
  obtain ⟨callId, -, hcall⟩ := bind_ok hcall
  obtain ⟨name, -, hcall⟩ := bind_ok hcall
  obtain ⟨arguments, harguments, -⟩ := bind_ok hcall
  rw [hshown.same _ (by decide) (by decide), htext] at harguments
  have hskim : Succeeds ((codec.skim text).map fun _ => text) := ⟨arguments, harguments⟩
  exact succeeds_map.mp hskim

/-- The parts of a result with a wire message of Kimi are text, images and files. -/
theorem kimi_result {messages : List (ChatMessage KimiMessage)}
    (hshown : HydratedItem kimiVision item shown)
    (hkind : itemType item = some "function_call_output") {parts : List Json}
    (hparts : contentParts item = some parts)
    (h : Succeeds (wireMessageItem codec.toMessageCodec ⟨none, none⟩ "Kimi"
      (kimiContent codec.toMessageCodec) messages shown)) :
    ∀ part ∈ parts, itemType part = some "input_text" ∨ isImagePart part = true ∨
      itemType part = some "file" := by
  unfold wireMessageItem at h
  have hcall : itemType item ≠ some "function_call" := by
    rw [hkind]
    decide
  rw [hshown.type, if_neg hcall, if_pos hkind] at h
  obtain ⟨callId, -, h⟩ := succeeds_bind.mp h
  obtain ⟨output, houtput, h⟩ := succeeds_bind.mp h
  obtain ⟨payload, hpayload, -⟩ := succeeds_bind.mp h
  obtain ⟨found, later, hfound, harray, hall⟩ := shownOutput hshown hkind hparts
  rw [resultOutput_ok_iff.mp houtput] at hfound
  cases hfound
  have htext : Succeeds (toolText codec.toMessageCodec output) := by
    have hsucceeds : Succeeds (kimiContent codec.toMessageCodec (.tool output)) :=
      ⟨payload, hpayload⟩
    unfold kimiContent at hsucceeds
    exact succeeds_map.mp hsucceeds
  obtain ⟨read, hread, hlines⟩ := toolText_succeeds.mp htext
  rw [harray] at hread
  cases hread
  intro part hpart
  obtain ⟨shownPart, hmem, hrelated⟩ := exists_related hall hpart
  by_cases himage : isImagePart part = true
  · exact .inr (.inl himage)
  · have hother : isImagePart part = false := by simpa using himage
    have hline := outputLine_succeeds.mp (hlines shownPart hmem)
    rw [hrelated.other hother] at hline
    cases hline with
    | inl hfilled => exact .inl hfilled.1
    | inr hfile => exact .inr (.inr hfile)

end Providers

section Contexts

variable {codec : OutputCodec} {isUuid : String → Bool} {store : ImageStore} {context : List Json}

theorem succeeds_shown {α : Type} {vision : Vision} {shownContext : List Json}
    {translate : List Json → Except Error α}
    (hshown : hydrate store vision context = .ok shownContext) :
    Succeeds (hydrate store vision context >>= translate) ↔ Succeeds (translate shownContext) := by
  rw [hshown]
  exact Iff.rfl

theorem sendable_of_sent (hempty : RejectsEmpty codec.toMessageCodec)
    (hdurable : ∀ item ∈ context, Durable codec item) (himages : Supported store context)
    (h : SentByAll codec.toMessageCodec store context) : Sendable codec.toMessageCodec context := by
  obtain ⟨full, hfull, hfullItems⟩ := @hydrate_ok _ fullVision _ himages
  obtain ⟨noted, hnoted, hnotedItems⟩ := @hydrate_ok _ kimiVision _ himages
  have hready : ∀ before item after, context = before ++ item :: after →
      AnthropicReady codec.toMessageCodec (preservedIn before) item := by
    have hsent := (succeeds_shown hfull).mp (h.anthropic ⟨.rebuild, "", []⟩)
    unfold translateMessages at hsent
    obtain ⟨after, hafter, -⟩ := succeeds_bind.mp hsent
    exact readyFrom_iff.mp (ready_of_translated rfl hempty hfullItems hdurable ⟨after, hafter⟩)
  have hkimi : ∀ item ∈ context, ∃ shown messages, HydratedItem kimiVision item shown ∧
      Succeeds (wireMessageItem codec.toMessageCodec ⟨none, none⟩ "Kimi"
        (kimiContent codec.toMessageCodec) messages shown) := by
    intro item hitem
    obtain ⟨shown, hmem, hone⟩ := exists_related hnotedItems hitem
    have hsent := (succeeds_shown hnoted).mp (h.kimi "")
    obtain ⟨messages, hmessages⟩ := wireMessages_items hsent shown hmem
    exact ⟨shown, messages, hone, hmessages⟩
  have hitems : ∀ item ∈ context, ∃ before, AnthropicReady codec.toMessageCodec
      (preservedIn before) item := by
    intro item hitem
    obtain ⟨before, after, hsplit⟩ := List.append_of_mem hitem
    exact ⟨before, hready before item after hsplit⟩
  constructor
  · intro item hitem
    obtain ⟨before, hone⟩ := hitems item hitem
    exact hone.role
  · intro item hitem
    obtain ⟨before, hone⟩ := hitems item hitem
    exact hone.text
  · intro item hitem hkind
    obtain ⟨before, hone⟩ := hitems item hitem
    obtain ⟨hidentity, parts, hparts, hfilled⟩ := hone.result hkind
    obtain ⟨shown, messages, hshown, hmessages⟩ := hkimi item hitem
    refine ⟨hidentity, parts, hparts, fun part hpart => ?_⟩
    rcases kimi_result hshown hkind hparts hmessages part hpart with htext | himage | hfile
    · exact .inl ⟨htext, (hfilled part hpart).1⟩
    · exact .inr (.inl himage)
    · exact .inr (.inr hfile)
  · intro before item after hsplit hkind text htext
    have hitem : item ∈ context := by
      rw [hsplit]
      exact List.mem_append_right _ List.mem_cons_self
    obtain ⟨shown, messages, hshown, hmessages⟩ := hkimi item hitem
    exact ⟨call_skims hshown hkind htext hmessages,
      (hready before item after hsplit).call hkind text htext⟩

theorem sent_of_sendable (hempty : RejectsEmpty codec.toMessageCodec)
    (hdurable : ∀ item ∈ context, Durable codec item)
    (huser : ∃ item ∈ context, isUserItem item = true) (himages : Supported store context)
    (h : Sendable codec.toMessageCodec context) : SentByAll codec.toMessageCodec store context := by
  constructor
  · intro discovery
    obtain ⟨shown, hshown, hitems⟩ := @hydrate_ok _ fullVision _ himages
    refine (succeeds_shown hshown).mpr ?_
    have hready : ReadyFrom codec.toMessageCodec [] context := by
      rw [readyFrom_iff]
      intro before item after hsplit
      have hitem : item ∈ context := by
        rw [hsplit]
        exact List.mem_append_right _ List.mem_cons_self
      constructor
      · exact h.roles item hitem
      · exact h.texts item hitem
      · intro hkind
        obtain ⟨hidentity, parts, hparts, hfilled⟩ := h.results item hitem hkind
        refine ⟨hidentity, parts, hparts, fun part hpart => ?_⟩
        rcases hfilled part hpart with ⟨htext, htextFilled⟩ | himage | hfile
        · exact ⟨htextFilled, .inl (showsText_iff.mpr (.inl htext))⟩
        · refine ⟨fun hshows => ?_, .inr (.inl himage)⟩
          rw [showsText_image himage] at hshows
          cases hshows
        · refine ⟨fun hshows => ?_, .inr (.inr hfile)⟩
          rw [showsText_iff, hfile] at hshows
          exact absurd hshows (by decide)
      · intro hkind text htext
        exact (h.calls before item after hsplit hkind text htext).parses
    obtain ⟨after, hafter⟩ := @translateFrom_ready _ _ discovery hempty _ _ hitems hdurable none
      0 ⟨[], [], []⟩ hready
    have hmessages := translateFrom_messages hitems hdurable (.inr huser) hafter
    unfold translateMessages
    refine succeeds_bind.mpr ⟨after, hafter, ?_⟩
    rw [if_neg (by simpa using hmessages)]
    exact succeeds_ok _
  · intro instructions
    obtain ⟨shown, hshown, hitems⟩ := @hydrate_ok _ kimiVision _ himages
    exact (succeeds_shown hshown).mpr (kimi_succeeds h hdurable huser hitems)
  · intro instructions
    obtain ⟨shown, hshown, hitems⟩ := @hydrate_ok _ fullVision _ himages
    exact (succeeds_shown hshown).mpr (mistral_succeeds h hdurable huser hitems)
  · intro vision explicit revision additional
    obtain ⟨shown, hshown, hitems⟩ := @hydrate_ok _ vision _ himages
    exact (succeeds_shown hshown).mpr (responses_succeeds hdurable hitems)

/-- A committed context with a message of the user and with supported images can be sent to
every provider iff no text of its messages and results is empty, each of its messages has a
role, its results are well formed and the arguments of its calls can be read. -/
theorem committed_context_sendable (hempty : RejectsEmpty codec.toMessageCodec)
    (hcontext : Committed codec isUuid context)
    (huser : ∃ item ∈ context, isUserItem item = true) (himages : Supported store context) :
    SentByAll codec.toMessageCodec store context ↔ Sendable codec.toMessageCodec context :=
  ⟨sendable_of_sent hempty hcontext.durable himages,
    sent_of_sendable hempty hcontext.durable huser himages⟩

end Contexts

section Samples

/-- A codec that reads the arguments of the sample call. -/
def sampleCodec : OutputCodec where
  render := fun _ => "{}"
  decodeError := fun _ => "invalid type"
  parse := fun text =>
    if text = "{}" then .ok (.obj [])
    else .error (.json "EOF while parsing a value at line 1 column 0")
  skim := fun text =>
    if text = "{}" then .ok () else .error (.json "EOF while parsing a value at line 1 column 0")
  annotations := fun _ => .ok []

def noImages : ImageStore where
  reference := fun _ => .error (.json "invalid type")
  pixels := fun _ => .error (.json "invalid type")

def sampleEvent : MessageEvent where
  author := .user
  delivery := .turn
  text := "hello"
  attachments := []
  reply := none
  messageTarget := none

/-- The call that a provider returns. -/
def sampleCall : Json :=
  .obj [("arguments", .str "{}"), ("call_id", .str "call-1"), ("name", .str "shell"),
    ("type", .str "function_call")]

/-- A message, a call and its result. -/
def sampleContext (text : String) : List Json :=
  [prepareTurnInput [] (messageInput sampleCodec.encoding sampleEvent), sampleCall,
    toolOutput sampleCodec.encoding "call-1" [.text text] false]

theorem sampleCall_accepted : fromOutput sampleCodec [sampleCall] false {} =
    .ok ⟨[sampleCall], "", [], [⟨"call-1", "shell", .obj []⟩], [], false, {}⟩ := by
  rfl

theorem sampleContext_committed (text : String) :
    Committed sampleCodec (fun _ => false) (sampleContext text) := by
  have hmessage : validateMessageContent (MessageReload.queueChecks fun _ => false)
      sampleEvent.author sampleEvent.text sampleEvent.attachments = .ok () := by rfl
  have hturn := @Committed.append sampleCodec _ _ _ .start (.turn sampleEvent hmessage)
  have houtput : StepOutput sampleCodec [sampleCall] := by
    have hordered : ∀ item ∈ [sampleCall], Ordered item := by
      intro item hitem
      rw [List.mem_singleton] at hitem
      rw [hitem]
      have hkeys : ["arguments", "call_id", "name", "type"].Pairwise (· < ·) := by decide
      exact ordered_of_keys rfl hkeys
    exact ⟨[sampleCall], false, {}, [], _, hordered, sampleCall_accepted, .inl rfl⟩
  have hstep := @Committed.step _ _ _ _ [] [] hturn houtput (by simp) (by simp)
  exact Committed.append hstep (.result "call-1" [.text text] false (by decide))

theorem sampleContext_supported (text : String) : Supported noImages (sampleContext text) := by
  have hnone : ∀ item ∈ sampleContext text, ((contentParts item).getD []).any isImagePart = false := by
    intro item hitem
    simp only [sampleContext, List.mem_cons, List.not_mem_nil, or_false] at hitem
    rcases hitem with rfl | rfl | rfl
    · rfl
    · rfl
    · rfl
  intro item hitem parts hparts part hpart himage
  have hany := hnone item hitem
  rw [hparts, Option.getD_some] at hany
  have hother := List.any_eq_false.mp hany part hpart
  rw [himage] at hother
  cases hother rfl

/-- A tool that returns no text leaves a context that cannot be sent to Anthropic, although it
holds a message of the user and no image. -/
theorem empty_result_unsendable :
    ∃ (codec : OutputCodec) (isUuid : String → Bool) (store : ImageStore) (context : List Json),
      RejectsEmpty codec.toMessageCodec ∧ Committed codec isUuid context ∧
        (∃ item ∈ context, isUserItem item = true) ∧ Supported store context ∧
          ¬SentByAll codec.toMessageCodec store context := by
  have hempty : RejectsEmpty sampleCodec.toMessageCodec := not_succeeds_error _
  refine ⟨sampleCodec, fun _ => false, noImages, sampleContext "", hempty,
    sampleContext_committed "", ⟨_, List.mem_cons_self, rfl⟩, sampleContext_supported "", ?_⟩
  intro hsent
  have hsendable := sendable_of_sent hempty (sampleContext_committed "").durable
    (sampleContext_supported "") hsent
  have hresult : toolOutput sampleCodec.encoding "call-1" [.text ""] false ∈ sampleContext "" :=
    List.mem_cons_of_mem _ (List.mem_cons_of_mem _ List.mem_cons_self)
  obtain ⟨-, parts, hparts, hfilled⟩ := hsendable.results _ hresult rfl
  cases hparts
  rcases hfilled _ List.mem_cons_self with ⟨-, htext⟩ | himage | hfile
  · obtain ⟨text, hread, hnonempty⟩ := htext rfl
    cases hread
    cases hnonempty
  · cases himage
  · exact absurd (Option.some.inj hfile) (by decide)

theorem sampleContext_sendable :
    Sendable sampleCodec.toMessageCodec (sampleContext "done") := by
  refine ⟨?_, ?_, ?_, ?_⟩
  · intro item hitem hkind
    simp only [sampleContext, List.mem_cons, List.not_mem_nil, or_false] at hitem
    rcases hitem with rfl | rfl | rfl
    · rfl
    · exact absurd (Option.some.inj hkind) (by decide)
    · exact absurd (Option.some.inj hkind) (by decide)
  · intro item hitem hkind _ part hpart _
    simp only [sampleContext, List.mem_cons, List.not_mem_nil, or_false] at hitem
    rcases hitem with rfl | rfl | rfl
    · rw [List.mem_singleton.mp hpart]
      exact ⟨"hello", rfl, by decide⟩
    · cases hpart
    · cases hpart
  · intro item hitem hkind
    simp only [sampleContext, List.mem_cons, List.not_mem_nil, or_false] at hitem
    rcases hitem with rfl | rfl | rfl
    · cases hkind
    · exact absurd (Option.some.inj hkind) (by decide)
    · refine ⟨⟨"call-1", rfl, by decide⟩, _, rfl, ?_⟩
      intro part hpart
      rw [List.mem_singleton.mp hpart]
      exact .inl ⟨rfl, fun _ => ⟨"done", rfl, by decide⟩⟩
  · intro before item after hsplit hkind text htext
    have hitem : item ∈ sampleContext "done" := by
      rw [hsplit]
      exact List.mem_append_right _ List.mem_cons_self
    simp only [sampleContext, List.mem_cons, List.not_mem_nil, or_false] at hitem
    rcases hitem with rfl | rfl | rfl
    · cases hkind
    · cases htext
      exact ⟨⟨(), rfl⟩, .inr ⟨_, rfl⟩⟩
    · exact absurd (Option.some.inj hkind) (by decide)

/-- With text in the result, the sample context is sent to every provider. -/
theorem committed_context_sendable_sample :
    SentByAll sampleCodec.toMessageCodec noImages (sampleContext "done") :=
  have hempty : RejectsEmpty sampleCodec.toMessageCodec := not_succeeds_error _
  (committed_context_sendable hempty (sampleContext_committed "done") ⟨_, List.mem_cons_self, rfl⟩
    (sampleContext_supported "done")).mpr sampleContext_sendable

end Samples

end MobiusAgent.ProviderRequests
