import MobiusAgent.MessageReload
import MobiusAgent.ProviderMessages

/-!
# Model output as it is accepted

`ModelOutput::from_output` of `backend/model/mod.rs` and what it calls: which
items of a provider are accepted, the calls they hold, and the repair of
arguments that are no JSON object. `ProviderItem` is what every accepted item
has in common; it is kept when calls are rewritten.
-/

namespace MobiusAgent.ModelOutputs

open JsonValue ProtocolEvents CheckpointValidation HookRecords ContextItems ProviderMessages

/-- What `serde_json` reads, writes and reports of model output. -/
structure OutputCodec extends MessageCodec where
  /-- The annotations of an output text. -/
  annotations : Json → Except String (List Json)

def maxModelOutputBytes : Nat := 16 * 1024 * 1024

def maxToolCalls : Nat := 128

def maxToolArgumentBytes : Nat := 4 * 1024 * 1024

def maxToolCallIdBytes : Nat := 4 * 1024

/-- The field that marks arguments that were no JSON object. -/
def invalidToolArguments : String := "mobius_invalid_arguments"

def ensureOutputSize (output : List Json) : Except Error Unit :=
  rejectIf (maxModelOutputBytes < jsonLength (.arr output))
    (.provider "model output exceeded size limit" false)

/-- The stored form of one part of a tool result. -/
def partJson : ContentPart → Json
  | .text text => .obj [("text", .str text), ("type", .str "input_text")]
  | .image image => .obj [("image", image), ("type", .str "input_image")]
  | .file file => .obj [("file", MessageReload.referenceJson file), ("type", .str "file")]

variable (codec : OutputCodec)

def invalidArguments (reason : String) : Json := .obj [(invalidToolArguments, .str reason)]

/-- The arguments that a text within its limit holds. -/
def decodedArguments (encoded : String) : Json :=
  match codec.parse encoded with
  | .ok arguments =>
    if arguments.asObject.isSome then arguments
    else invalidArguments "arguments must be a JSON object"
  | .error error => invalidArguments error.display

/-- What the items of the context are written with. -/
def OutputCodec.encoding : Encoding where
  message := MessageReload.eventJson
  attachments := fun files => .arr (files.map MessageReload.referenceJson)
  toolContent := fun parts => .arr (parts.map partJson)
  arguments := codec.render
  decodeArguments := decodedArguments codec
  ensureOutputSize := ensureOutputSize

section Content

/-- The items with commentary marked, and whether a call is among them. -/
def markCommentaryBeforeToolCalls : List Json → List Json × Bool
  | [] => ([], false)
  | item :: rest =>
    let later := markCommentaryBeforeToolCalls rest
    if itemType item = some "function_call" then (item :: later.1, true)
    else if itemType item = some "message" ∧ later.2 = true ∧ item.get "phase" = none then
      (item.insert "phase" (.str "commentary") :: later.1, later.2)
    else (item :: later.1, later.2)

def reasoningText (part : Json) : Option String :=
  (part.getStr "text").filter fun text => !text.isEmpty

def reasoningParts (item : Json) : Option (List Json) :=
  if itemType item = some "reasoning" then
    (["summary", "content"].filterMap fun field => (item.get field).bind Json.asArray).find?
      fun parts => parts.any fun part => (reasoningText part).isSome
  else none

def normalizeReasoningContent (outputIndex : Nat) (item : Json) : List ModelStepContent :=
  match reasoningParts item with
  | some parts => parts.zipIdx.filterMap fun part => (reasoningText part.1).map fun text =>
      ⟨outputIndex, part.2, .reasoning, text, []⟩
  | none =>
    ((item.getStr replayReasoningField).filter fun text => !text.isEmpty).toList.map fun text =>
      ⟨outputIndex, 0, .reasoning, text, []⟩

def normalizeOutputTextAnnotations (part : Json) : Except Error (List Json) :=
  match part.get "annotations" with
  | none => .ok []
  | some .null => .ok []
  | some annotations =>
    match codec.annotations annotations with
    | .ok read => .ok read
    | .error reason => .error (.provider ("invalid output text annotation: " ++ reason) false)

def hostedSearchKinds : List String := ["web_search_call", "openrouter:web_search"]

def isHostedSearch (item : Json) : Bool := (itemType item).any hostedSearchKinds.contains

def isMessageItem (item : Json) : Bool := itemType item == some "message"

def messagePhase (output : List Json) (outputIndex : Nat) (item : Json) : ModelStepContentPhase :=
  let precedesHostedSearch := (rposition isMessageItem output).any fun final =>
    decide (outputIndex < final) &&
      ((output.take final).drop (outputIndex + 1)).any isHostedSearch
  if item.getStr "phase" = some "commentary" ∨
      (item.getStr "phase" = none ∧ precedesHostedSearch) then .commentary
  else .finalAnswer

def normalizePart (outputIndex : Nat) (phase : ModelStepContentPhase) (part : Json × Nat) :
    Except Error (List ModelStepContent) :=
  if itemType part.1 ≠ some "output_text" then .ok []
  else
    match part.1.getStr "text" with
    | none => .error (.provider "output text part omitted text" false)
    | some text =>
      if text.isEmpty then .ok []
      else (normalizeOutputTextAnnotations codec part.1).map fun annotations =>
        [⟨outputIndex, part.2, phase, text, annotations⟩]

def normalizeItem (output : List Json) (item : Json × Nat) :
    Except Error (List ModelStepContent) := do
  let reasoning := normalizeReasoningContent item.2 item.1
  if isMessageItem item.1 then
    let parts ← (messageParts item.1).zipIdx.mapM
      (normalizePart codec item.2 (messagePhase output item.2 item.1))
    .ok (reasoning ++ parts.flatten)
  else .ok reasoning

def normalizedStepContent (output : List Json) : Except Error (List ModelStepContent) :=
  (output.zipIdx.mapM (normalizeItem codec output)).map List.flatten

/-- Text of an item marked as commentary is commentary. -/
def commentaryPart (output : List Json) (part : ModelStepContent) : ModelStepContent :=
  if part.phase = .finalAnswer ∧
      (output[part.outputIndex]?.bind fun item => item.getStr "phase") = some "commentary" then
    { part with phase := .commentary }
  else part

def finalText (content : List ModelStepContent) : String :=
  String.join ((content.filter fun part => part.phase == .finalAnswer).map (·.text))

end Content

section Calls

def requiredOutputString (item : Json) (field : String) (limit : Nat) : Except Error String :=
  match (item.getStr field).filter fun value => !isBlank value with
  | none => .error (.provider ("function call omitted " ++ field) false)
  | some value =>
    if limit < value.utf8ByteSize then
      .error (.provider ("function call " ++ field ++ " exceeded size limit") false)
    else .ok value

def decodeToolArguments (encoded : String) : Except Error Json :=
  if maxToolArgumentBytes < encoded.utf8ByteSize then
    .error (.provider "function call arguments exceeded size limit" false)
  else .ok (decodedArguments codec encoded)

def decodeToolCall (item : Json) : Except Error ToolCall := do
  let callId ← requiredOutputString item "call_id" maxToolCallIdBytes
  let name ← requiredOutputString item "name" ResponsesWire.maxToolNameBytes
  match item.getStr "arguments" with
  | none => .error (.provider "function call omitted arguments" false)
  | some encoded => do
    let arguments ← decodeToolArguments codec encoded
    .ok ⟨callId, name, arguments⟩

/-- The calls of function-call items, after those accepted before. -/
def acceptCalls (calls : List ToolCall) : List Json → Except Error (List ToolCall)
  | [] => .ok calls
  | item :: rest => do
    rejectIf (maxToolCalls ≤ calls.length)
      (.provider ("model returned more than " ++ toString maxToolCalls ++ " tool calls") false)
    let call ← decodeToolCall codec item
    rejectIf (calls.any fun other => other.callId == call.callId)
      (.provider ("model returned duplicate tool-call ID \x60" ++ call.callId ++ "\x60") false)
    acceptCalls (calls ++ [call]) rest

/-- Whether the arguments of a call carry the marker. -/
def isRepaired (call : ToolCall) : Bool := (call.arguments.get invalidToolArguments).isSome

end Calls

def validateProviderOutput (output : List Json) : Except Error Unit := do
  rejectIf (output.any fun item => (item.get GuidanceReceipts.receiptField).isSome)
    (.provider "provider returned an internal guidance receipt" false)
  rejectIf (output.any fun item => itemType item == some "tool_load")
    (.provider "provider returned an internal tool-load control item" false)
  ensureOutputSize output

/-- Whether an item has a role other than that of the assistant. -/
def isForeign (item : Json) : Bool :=
  (item.get "role").isSome && item.getStr "role" != some "assistant"

def validateUsage (usage : TokenUsage) : Except Error Unit :=
  rejectIf ([usage.inputTokens, usage.cachedInputTokens, usage.cacheWriteInputTokens,
    usage.outputTokens, usage.reasoningOutputTokens, usage.totalTokens].any fun tokens =>
      decide (tokens < 0)) (.provider "model returned negative token usage" false)

/-- Completed output of a model response. -/
structure AcceptedOutput where
  output : List Json
  text : String
  /-- The normalized text items. -/
  content : List ModelStepContent
  toolCalls : List ToolCall
  /-- Deferred tools proved to be materialized. -/
  materializedTools : List String
  endTurn : Bool
  usage : TokenUsage

/-- The items that are replayed: those of repaired calls carry the marker too. -/
def replayedOutput (output : List Json) (calls : List ToolCall) : Except Error (List Json) :=
  if calls.any isRepaired then syncToolCalls codec.encoding output calls else .ok output

def fromOutputWithContent (output : List Json) (endTurn : Bool) (usage : TokenUsage)
    (content : List ModelStepContent) : Except Error AcceptedOutput := do
  let marked := (markCommentaryBeforeToolCalls output).1
  let phased := content.map (commentaryPart marked)
  validateProviderOutput marked
  rejectIf (marked.any isForeign) (.provider "provider returned a non-assistant message" false)
  validateUsage usage
  rejectIf marked.isEmpty (.provider "model returned no output" false)
  let calls ← acceptCalls codec [] (marked.filter isFunctionCall)
  let replayed ← replayedOutput codec marked calls
  .ok ⟨replayed, finalText phased, phased, calls, [], endTurn, usage⟩

def fromOutput (output : List Json) (endTurn : Bool) (usage : TokenUsage) :
    Except Error AcceptedOutput := do
  let content ← normalizedStepContent codec output
  fromOutputWithContent codec output endTurn usage content

end MobiusAgent.ModelOutputs
