import MobiusAgent.ProtocolEvents
import MobiusAgent.GuidanceReceipts

/-!
# The items of the model context

How the agent builds and reads the items of its context: message input, tool
outputs, function calls, prompt-cache breakpoints, provider reasoning and
the boundaries between tool calls. The functions are those of
`backend/model/mod.rs`, `protocol/content.rs` and `protocol/replay.rs`. What
a serializer writes is a parameter.
-/

namespace MobiusAgent.ContextItems

open JsonValue ProtocolEvents GuidanceReceipts

/-- What `serde_json` writes for the values that are stored inside an item. -/
structure Encoding where
  message : MessageEvent → Json
  attachments : List SessionFileReference → Json
  toolContent : List ContentPart → Json
  /-- The text of a call's arguments. -/
  arguments : Json → String
  /-- `decode_tool_arguments` of a text within its size limit. -/
  decodeArguments : String → Json
  /-- `ensure_output_size`: whether model output is within its size limit. -/
  ensureOutputSize : List Json → Except Error Unit

def internalMessageField : String := "_mobius_internal"

def messageMetadataField : String := "_mobius_message"

/-- The field that holds the references of a message's attachments. -/
def attachmentsField : String := "_mobius_attachments"

def promptCacheBreakpointField : String := "_mobius_prompt_cache_breakpoint"

/-- The field that marks a failed tool. -/
def toolErrorField : String := "_mobius_is_error"

/-- The fields that hold the reasoning of a provider. -/
def replayReasoningFields : List String :=
  ["_mobius_reasoning", "_anthropic_content", "_mistral_thinking"]

def itemType (item : Json) : Option String := item.getStr "type"

def itemCallId (item : Json) : Option String := item.getStr "call_id"

def userMessage (text : String) : Json :=
  .obj [("content", .arr [.obj [("text", .str text), ("type", .str "input_text")]]),
    ("role", .str "user")]

def userMessageWithAttachments (encoding : Encoding) (text : String)
    (attachments : List SessionFileReference) : Json :=
  if attachments.isEmpty then userMessage text
  else (userMessage text).insert attachmentsField (encoding.attachments attachments)

def internalUserMessage (kind text : String) : Json :=
  (userMessage text).insert internalMessageField (.str kind)

/-- The text sent for a message, after the message it replies to. -/
def messageText (event : MessageEvent) : String :=
  match event.reply with
  | none => event.text
  | some reply =>
    "Replying to this earlier message:\n\n> " ++ reply.text.replace "\n" "\n> " ++ "\n\n" ++
      event.text

/-- The advisory put before a message of a trusted source. -/
def sourceInstruction (source : MessageSource) (delivery : MessageDelivery) : String :=
  let session := "Peer \x7bhandle\x7d. " ++ match delivery with
    | .turn => "Audience: sender."
    | .queue => "Audience: sender."
    | .steer => "Audience: current turn."
  match source with
  | .session _ => session
  | .call _ => session
  | .external _ _ => "Source \x7bhandle\x7d (advisory)."

/-- `message_input`: the item that carries one conversation message. -/
def messageInput (encoding : Encoding) (event : MessageEvent) : Json :=
  let input := match event.author with
    | .user => userMessageWithAttachments encoding (messageText event) event.attachments
    | .source _ source _ _ handle _ =>
      let instruction := sourceInstruction source event.delivery
      internalUserMessage "message_advisory"
        (instruction.replace "\x7bhandle\x7d" handle ++ "\n\n" ++ messageText event)
  input.insert messageMetadataField (encoding.message event)

/-- `tool_output`: the result of one call. -/
def toolOutput (encoding : Encoding) (callId : String) (output : List ContentPart)
    (isError : Bool) : Json :=
  .obj [(toolErrorField, .bool isError), ("call_id", .str callId),
    ("output", encoding.toolContent output), ("type", .str "function_call_output")]

def toolCallInput (encoding : Encoding) (call : ToolCall) : Json :=
  .obj [("arguments", .str (encoding.arguments call.arguments)), ("call_id", .str call.callId),
    ("name", .str call.name), ("type", .str "function_call")]

def contentField (item : Json) : String :=
  if itemType item = some "function_call_output" then "output" else "content"

def contentParts (item : Json) : Option (List Json) := (item.get (contentField item)).bind Json.asArray

def setContentParts (item : Json) (parts : List Json) : Json :=
  item.insert (contentField item) (.arr parts)

def hasPromptCacheBreakpoint (input : List Json) : Bool :=
  input.any fun item => (contentParts item).any fun parts =>
    parts.any fun part => (part.getBool promptCacheBreakpointField).getD false

/-- Whether a part can carry a breakpoint. -/
def isMarkable (part : Json) : Bool :=
  itemType part == some "input_text" || itemType part == some "input_image"

/-- The parts with the last markable one changed, if there is one. -/
def markLast (other : Json → Json) : List Json → Option (List Json)
  | [] => none
  | part :: rest =>
    match markLast other rest with
    | some marked => some (other part :: marked)
    | none =>
      if isMarkable part then
        some (part.insert promptCacheBreakpointField (.bool true) :: rest.map other)
      else none

/-- `mark_prompt_cache_breakpoint`: the item with its last part marked, if one can be. -/
def markPromptCacheBreakpoint (item : Json) : Option Json :=
  ((contentParts item).bind (markLast id)).map (setContentParts item)

def prepareTurnInput (context : List Json) (input : Json) : Json :=
  if hasPromptCacheBreakpoint context then input
  else (markPromptCacheBreakpoint input).getD input

def clearPart (part : Json) : Json := part.remove promptCacheBreakpointField

def clearBreakpoints (item : Json) : Json :=
  match contentParts item with
  | none => item
  | some parts => setContentParts item (parts.map clearPart)

/-- An item whose only breakpoint is its last part, if one can be marked. -/
def moveBreakpoint (item : Json) : Option Json :=
  ((contentParts item).bind (markLast clearPart)).map (setContentParts item)

/-- `reset_shared_prompt_cache_breakpoint`: the items with one breakpoint, the last
possible one, and whether there is one. -/
def resetPromptCacheBreakpoint : List Json → List Json × Bool
  | [] => ([], false)
  | item :: rest =>
    let later := resetPromptCacheBreakpoint rest
    if later.2 then (clearBreakpoints item :: later.1, true)
    else match moveBreakpoint item with
      | some moved => (moved :: later.1, true)
      | none => (clearBreakpoints item :: later.1, false)

def isProviderReasoning (item : Json) : Bool := itemType item == some "reasoning"

def hasProviderReasoning (item : Json) : Bool :=
  isProviderReasoning item || replayReasoningFields.any fun field => (item.get field).isSome

def stripReasoningFields (item : Json) : Json := replayReasoningFields.foldl Json.remove item

/-- `strip_shared_provider_reasoning`. -/
def stripProviderReasoning (input : List Json) : List Json :=
  (input.filter fun item => !isProviderReasoning item).map fun item =>
    if hasProviderReasoning item then stripReasoningFields item else item

/-- The identity of a call that is still open, by its place if it has none. -/
def openCallId (index : Nat) (item : Json) : String :=
  match itemCallId item with
  | some callId => if callId.isEmpty then "missing-" ++ toString index else callId
  | none => "missing-" ++ toString index

def openCallsAfter (index : Nat) (opened : List String) (item : Json) : List String :=
  match itemType item with
  | some "function_call" => opened.insert (openCallId index item)
  | some "tool_search_call" =>
    if item.getStr "execution" = some "server" then opened
    else opened.insert (openCallId index item)
  | some "function_call_output" => opened.filter fun callId => some callId != itemCallId item
  | some "tool_search_output" => opened.filter fun callId => some callId != itemCallId item
  | _ => opened

/-- The boundaries of the items from an index on, with these calls open before it. -/
def boundariesFrom (index : Nat) (opened : List String) : List Json → List Nat
  | [] => []
  | item :: rest =>
    let after := openCallsAfter index opened item
    let later := boundariesFrom (index + 1) after rest
    if after.isEmpty then (index + 1) :: later else later

/-- `tool_complete_boundaries`: the one-based boundaries with no unfinished call. -/
def toolCompleteBoundaries (input : List Json) : List Nat := boundariesFrom 0 [] input

/-- The last index whose element has a property. -/
def rposition {α : Type} (p : α → Bool) : List α → Option Nat
  | [] => none
  | item :: rest =>
    match rposition p rest with
    | some index => some (index + 1)
    | none => if p item then some 0 else none

def hasVisibleOutputText (item : Json) : Bool :=
  itemType item == some "message" && item.getStr "role" == some "assistant" &&
    item.getStr "phase" != some "commentary" &&
    (((item.get "content").bind Json.asArray).getD []).any fun part =>
      itemType part == some "output_text" && (part.getStr "text").any fun text => !text.isEmpty

def durableVisibleMessageIndex (output context : List Json) (contextBefore : Nat) : Option Nat :=
  (rposition hasVisibleOutputText output).filter fun index =>
    (toolCompleteBoundaries context).contains (contextBefore + index + 1)

def insertBeforeOpenToolCalls (output input : List Json) : List Json :=
  if input.isEmpty then output
  else
    let boundary := (toolCompleteBoundaries output).getLast?.getD 0
    output.take boundary ++ input ++ output.drop boundary

def isFunctionCall (item : Json) : Bool := itemType item == some "function_call"

/-- The name and arguments of a call are those its item holds. -/
structure Holds (encoding : Encoding) (item : Json) (call : ToolCall) : Prop where
  callId : itemCallId item = some call.callId
  name : item.getStr "name" = some call.name
  /-- The text of the arguments is read as them, or was written for them. -/
  arguments : ∃ text, item.getStr "arguments" = some text ∧
    (encoding.decodeArguments text = call.arguments ∨ text = encoding.arguments call.arguments)

/-- The output with the names and arguments of its calls, in their order. -/
def writeToolCalls (encoding : Encoding) : List Json → List ToolCall → List Json
  | [], _ => []
  | item :: rest, calls =>
    if isFunctionCall item then
      match calls with
      | [] => item :: writeToolCalls encoding rest []
      | call :: later =>
        (item.insert "name" (.str call.name)).insert "arguments"
          (.str (encoding.arguments call.arguments)) :: writeToolCalls encoding rest later
    else item :: writeToolCalls encoding rest calls

/-- `sync_tool_calls`: the output that carries the rewritten calls. -/
def syncToolCalls (encoding : Encoding) (output : List Json) (calls : List ToolCall) :
    Except Error (List Json) :=
  let written := writeToolCalls encoding output calls
  match encoding.ensureOutputSize written with
  | .ok () => .ok written
  | .error error =>
    .error (.tool ("rewritten tool calls exceeded model output size limit: " ++ error.display))

theorem rposition_none {α : Type} {p : α → Bool} {items : List α} (h : rposition p items = none) :
    ∀ item ∈ items, p item = false := by
  induction items with
  | nil => simp
  | cons first rest ih =>
    unfold rposition at h
    cases hrest : rposition p rest with
    | some found =>
      rw [hrest] at h
      cases h
    | none =>
      rw [hrest] at h
      dsimp only at h
      split at h
      · cases h
      · rename_i hfirst
        intro item hitem
        rcases List.mem_cons.mp hitem with rfl | hmem
        · simpa using hfirst
        · exact ih hrest item hmem

/-- The last index found is in the list, has the property, and no later one has it. -/
theorem rposition_some {α : Type} {p : α → Bool} {items : List α} {index : Nat}
    (h : rposition p items = some index) :
    (∃ item, items[index]? = some item ∧ p item = true) ∧
      ∀ (later : Nat) (item : α), index < later → items[later]? = some item → p item = false := by
  induction items generalizing index with
  | nil => cases h
  | cons first rest ih =>
    unfold rposition at h
    cases hrest : rposition p rest with
    | some found =>
      rw [hrest] at h
      obtain rfl := Option.some.inj h
      obtain ⟨hfound, hlater⟩ := ih hrest
      constructor
      · simpa using hfound
      · intro later item hlt hitem
        cases later with
        | zero => omega
        | succ later => exact hlater later item (by omega) (by simpa using hitem)
    | none =>
      rw [hrest] at h
      dsimp only at h
      split at h
      · rename_i hfirst
        obtain rfl := Option.some.inj h
        constructor
        · exact ⟨first, rfl, hfirst⟩
        · intro later item hlt hitem
          cases later with
          | zero => omega
          | succ later =>
            have hmem := List.mem_of_getElem? (by simpa using hitem : rest[later]? = some item)
            exact rposition_none hrest item hmem
      · cases h

theorem get_setContentParts {key : String} (houtput : key ≠ "output") (hcontent : key ≠ "content")
    (item : Json) (parts : List Json) : (setContentParts item parts).get key = item.get key := by
  unfold setContentParts contentField
  split
  · exact Json.get_insert_ne houtput item _
  · exact Json.get_insert_ne hcontent item _

theorem identity_of_get {item : Json} (h : item.get receiptField = none) :
    identity item = none := by
  simp only [identity, h, Option.bind_eq_bind, Option.bind_none]

theorem get_prepareTurnInput {key : String} (houtput : key ≠ "output") (hcontent : key ≠ "content")
    (context : List Json) (input : Json) :
    (prepareTurnInput context input).get key = input.get key := by
  unfold prepareTurnInput
  split
  · rfl
  · unfold markPromptCacheBreakpoint
    cases (contentParts input).bind (markLast id) with
    | none => rfl
    | some parts => exact get_setContentParts houtput hcontent input parts

theorem get_userMessage {key : String} (hrole : key ≠ "role") (hcontent : key ≠ "content")
    (text : String) : (userMessage text).get key = none := by
  simp [userMessage, Json.get, Json.lookup, hrole.symm, hcontent.symm]

theorem get_messageInput {key : String} (hrole : key ≠ "role") (hcontent : key ≠ "content")
    (hmessage : key ≠ messageMetadataField) (hattachments : key ≠ attachmentsField)
    (hinternal : key ≠ internalMessageField) (encoding : Encoding) (event : MessageEvent) :
    (messageInput encoding event).get key = none := by
  unfold messageInput
  dsimp only
  rw [Json.get_insert_ne hmessage]
  split
  · unfold userMessageWithAttachments
    split
    · exact get_userMessage hrole hcontent _
    · rw [Json.get_insert_ne hattachments]
      exact get_userMessage hrole hcontent _
  · unfold internalUserMessage
    rw [Json.get_insert_ne hinternal]
    exact get_userMessage hrole hcontent _

theorem identity_prepared (encoding : Encoding) (context : List Json) (event : MessageEvent) :
    identity (prepareTurnInput context (messageInput encoding event)) = none := by
  refine identity_of_get ?_
  rw [get_prepareTurnInput (by decide) (by decide)]
  exact get_messageInput (by decide) (by decide) (by decide) (by decide) (by decide) _ _

theorem identity_toolOutput (encoding : Encoding) (callId : String) (output : List ContentPart)
    (isError : Bool) : identity (toolOutput encoding callId output isError) = none :=
  identity_of_get rfl

theorem identity_toolCallInput (encoding : Encoding) (call : ToolCall) :
    identity (toolCallInput encoding call) = none :=
  identity_of_get rfl

end MobiusAgent.ContextItems
