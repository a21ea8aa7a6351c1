import MobiusAgent.ResponsesWire

/-!
# The message lists of Anthropic and of Chat Completions

`translate_messages` of `backend/model/anthropic.rs` and `wire_messages` of
`backend/model/chat_completions.rs`, with the contents that Kimi and Mistral
give their messages. Both go through the items of the context in order.
Anthropic merges neighbouring items of one role, replays a preserved list of
raw blocks in place of the items it stands for, and shows loaded tools as
references. What a serializer reads and writes is a parameter.
-/

namespace MobiusAgent.ProviderMessages

open JsonValue ProtocolEvents CheckpointValidation ContextItems ResponsesWire

/-- What `serde_json` reads, writes and reports. -/
structure MessageCodec extends WireCodec where
  /-- The value that a text holds. -/
  parse : String → Except Error Json
  /-- Whether a text holds some value, without building it. -/
  skim : String → Except Error Unit

/-- How a provider learns of tools loaded in a session. -/
inductive ToolDiscoveryMode where
  /-- Append tool schemas at the discovery point. -/
  | native
  /-- Reissue the context with a changed tool envelope. -/
  | rebuild
  deriving DecidableEq

/-- `required_string`: a field that holds text. -/
def requiredString (value : Json) (field provider : String) : Except Error String :=
  match (value.getStr field).filter fun text => !text.isEmpty with
  | some text => .ok text
  | none => .error (.provider (provider ++ " value omitted " ++ field) false)

section Anthropic

/-- The field of an assistant message that preserves the blocks of Anthropic. -/
def rawContentField : String := "_anthropic_content"

/-- The name of the function that discovers deferred tools. -/
def toolsSearchName : String := "tools_search"

/-- One message of an Anthropic request. -/
structure WireMessage where
  role : String
  content : List Json
  deriving DecidableEq

/-- What an Anthropic request says about deferred tools. -/
structure Discovery where
  /-- How loaded tools are shown. -/
  mode : ToolDiscoveryMode
  catalogRevision : String
  deferredTools : List ToolDefinition

/-- The marker of a cached prefix. -/
def cacheControl : Json := .obj [("type", .str "ephemeral")]

def textBlock (text : String) : Json := .obj [("text", .str text), ("type", .str "text")]

def imageBlock (mediaType data : String) : Json :=
  .obj [("source", .obj [("data", .str data), ("media_type", .str mediaType),
    ("type", .str "base64")]), ("type", .str "image")]

def toolUseBlock (callId name : String) (input : Json) : Json :=
  .obj [("id", .str callId), ("input", input), ("name", .str name), ("type", .str "tool_use")]

def toolResult (callId : String) (content : List Json) (isError : Bool) : Json :=
  .obj [("content", .arr content), ("is_error", .bool isError), ("tool_use_id", .str callId),
    ("type", .str "tool_result")]

variable (codec : MessageCodec)

/-- The block of a content part, before its cache marker. -/
def bareBlock (part : Json) : Except Error (Option Json) :=
  if itemType part = some "input_text" ∨ itemType part = some "output_text" then
    (requiredString part "text" "Anthropic").map fun text => some (textBlock text)
  else if itemType part = some "input_image" then
    (imageInput part "Anthropic").map fun image =>
      image.map fun pixels => imageBlock pixels.1 pixels.2
  else if itemType part = some "file" then
    .ok (some (textBlock (storedFileText codec.toWireCodec part)))
  else .ok none

/-- `content_block`: the block of a content part, if it has one. -/
def contentBlock (part : Json) : Except Error (Option Json) :=
  (bareBlock codec part).map fun block => block.map fun block =>
    if part.getBool promptCacheBreakpointField = some true then
      block.insert "cache_control" cacheControl
    else block

def contentBlocks (parts : List Json) : Except Error (List Json) :=
  (parts.mapM (contentBlock codec)).map fun blocks => blocks.filterMap id

def toolContentBlock (part : Json) : Except Error Json := do
  match ← contentBlock codec part with
  | some block => .ok block
  | none => .error (.provider "unsupported tool result content" false)

def toolContentBlocks (output : Json) : Except Error (List Json) :=
  match output.asArray with
  | some parts => parts.mapM (toolContentBlock codec)
  | none => .error (.provider "tool result content must be an array" false)

/-- `tool_references`: the tools of a load that the request can refer to. -/
def toolReferences (load : ToolLoad) (discovery : Discovery) : List Json :=
  if load.catalogRevision ≠ discovery.catalogRevision then []
  else
    (load.tools.filter fun name => discovery.deferredTools.any fun tool => tool.name == name).map
      fun name => .obj [("tool_name", .str name), ("type", .str "tool_reference")]

def resultReferences (load : Option ToolLoad) (discovery : Discovery) (searches : List String)
    (callId : String) : List Json :=
  match load with
  | some load =>
    if discovery.mode = .native ∧ callId ∈ searches then toolReferences load discovery else []
  | none => []

/-- The load that follows a result. -/
def nextLoad : Option Json → Except Error (Option ToolLoad)
  | some next => toolLoadOf codec.toWireCodec next
  | none => .ok none

def resultOutput (item : Json) : Except Error Json :=
  match item.get "output" with
  | some output => .ok output
  | none => .error (.provider "tool result omitted content" false)

def resultContent (references : List Json) (item : Json) : Except Error (List Json) :=
  if references.isEmpty then do
    let output ← resultOutput item
    toolContentBlocks codec output
  else .ok references

def toolResultBlock (discovery : Discovery) (searches : List String) (item : Json)
    (next : Option Json) : Except Error Json := do
  let callId ← requiredString item "call_id" "Anthropic"
  let load ← nextLoad codec next
  let content ← resultContent codec (resultReferences load discovery searches callId) item
  .ok (toolResult callId content ((item.getBool toolErrorField).getD false))

/-- `push_message`: blocks of a role, merged into a last message of that role. -/
def pushMessage (messages : List WireMessage) (role : String) (blocks : List Json) :
    List WireMessage :=
  if blocks.isEmpty then messages
  else
    match messages.getLast? with
    | some last =>
      if last.role = role then
        messages.dropLast ++ [{ last with content := last.content ++ blocks }]
      else messages ++ [⟨role, blocks⟩]
    | none => [⟨role, blocks⟩]

/-- The messages so far, and the calls that later items depend on. -/
structure Translation where
  messages : List WireMessage
  /-- The calls that a preserved list of blocks holds. -/
  preserved : List String
  /-- The calls that search for tools. -/
  searches : List String

def followsSearchResult (previous : Option Json) (searches : List String) : Bool :=
  previous.any fun item => itemType item == some "function_call_output" &&
    (itemCallId item).any searches.contains

def replayStandaloneToolLoad (discovery : Discovery) (follows : Bool) (index : Nat)
    (load : Option ToolLoad) (messages : List WireMessage) : List WireMessage :=
  match load with
  | none => messages
  | some load =>
    if discovery.mode ≠ .native ∨ follows then messages
    else
      let references := toolReferences load discovery
      if references.isEmpty then messages
      else
        let callId := "mobius-tool-load-" ++ toString index
        let called := pushMessage messages "assistant" [toolUseBlock callId toolsSearchName
          (.obj [("query", .str "restore loaded session tools")])]
        pushMessage called "user" [toolResult callId references false]

/-- The kind of an item: a role makes a message of an item without a type. -/
def itemKind (item : Json) : Option String :=
  match itemType item with
  | some kind => some kind
  | none => if (item.get "role").isSome then some "message" else none

/-- The blocks of a preserved list. -/
def rawContent (item : Json) : Option (List Json) := (item.get rawContentField).bind Json.asArray

def messageParts (item : Json) : List Json := ((item.get "content").bind Json.asArray).getD []

/-- The calls of a preserved list of blocks. -/
def toolUseIds (blocks : List Json) : List String :=
  blocks.filterMap fun block => if itemType block = some "tool_use" then block.getStr "id" else none

def translateMessage (state : Translation) (item : Json) : Except Error Translation :=
  match item.getStr "role" with
  | none => .error (.provider "history message omitted role" false)
  | some role =>
    match rawContent item with
    | some blocks =>
      .ok { state with
        messages := pushMessage state.messages role blocks
        preserved := state.preserved ++ toolUseIds blocks }
    | none => do
      let blocks ← contentBlocks codec (messageParts item)
      .ok { state with messages := pushMessage state.messages role blocks }

def translateCall (state : Translation) (item : Json) : Except Error Translation := do
  let callId ← requiredString item "call_id" "Anthropic"
  let name ← requiredString item "name" "Anthropic"
  let searches := if name = toolsSearchName then callId :: state.searches else state.searches
  if callId ∈ state.preserved then .ok { state with searches := searches }
  else do
    let arguments ← requiredString item "arguments" "Anthropic"
    let input ← codec.parse arguments
    .ok { state with
      messages := pushMessage state.messages "assistant" [toolUseBlock callId name input]
      searches := searches }

/-- The translation after one item, between the items before and after it. -/
def translateItem (discovery : Discovery) (previous next : Option Json) (index : Nat)
    (state : Translation) (item : Json) : Except Error Translation :=
  if itemKind item = some "message" then translateMessage codec state item
  else if itemKind item = some "function_call" then translateCall codec state item
  else if itemKind item = some "function_call_output" then do
    let block ← toolResultBlock codec discovery state.searches item next
    .ok { state with messages := pushMessage state.messages "user" [block] }
  else if itemKind item = some "tool_load" then do
    let load ← toolLoadOf codec.toWireCodec item
    .ok { state with
      messages := replayStandaloneToolLoad discovery
        (followsSearchResult previous state.searches) index load state.messages }
  else .ok state

/-- The translation after the items from an index on. -/
def translateFrom (discovery : Discovery) (previous : Option Json) (index : Nat)
    (state : Translation) : List Json → Except Error Translation
  | [] => .ok state
  | item :: rest => do
    let after ← translateItem codec discovery previous rest.head? index state item
    translateFrom discovery (some item) (index + 1) after rest

def acceptsCacheControl (block : Json) : Bool :=
  itemType block != some "thinking" && itemType block != some "redacted_thinking" &&
    block.getStr "text" != some ""

def markLastBlock : List Json → List Json × Bool
  | [] => ([], false)
  | block :: rest =>
    let later := markLastBlock rest
    if later.2 then (block :: later.1, true)
    else if acceptsCacheControl block then (block.insert "cache_control" cacheControl :: later.1, true)
    else (block :: later.1, false)

def markLatestCacheEndpoint : List WireMessage → List WireMessage
  | [] => []
  | [last] => [{ last with content := (markLastBlock last.content).1 }]
  | message :: later => message :: markLatestCacheEndpoint later

def translateMessages (discovery : Discovery) (input : List Json) :
    Except Error (List WireMessage) := do
  let state ← translateFrom codec discovery none 0 ⟨[], [], []⟩ input
  if state.messages.isEmpty then
    .error (.provider "Anthropic request has no messages" false)
  else .ok (markLatestCacheEndpoint state.messages)

end Anthropic

section ChatCompletions

/-- Where the content of a message comes from. -/
inductive ContentSource where
  | system (instructions : String)
  | tool (output : Json)
  | history (role : String) (item : Json)

/-- One call in a Chat Completions request. -/
structure WireToolCall where
  id : String
  name : String
  arguments : String
  deriving DecidableEq

/-- One message of a Chat Completions request. -/
structure ChatMessage (C : Type) where
  role : String
  payload : C
  toolCalls : List WireToolCall
  /-- The call that a tool message answers. -/
  toolCallId : Option String

variable (codec : MessageCodec) {C : Type}

def argumentText : Option Json → Except Error String
  | some (.str arguments) => (codec.skim arguments).map fun _ => arguments
  | some arguments => .ok (codec.render arguments)
  | none => .error (.provider "function call omitted arguments" false)

def wireToolCall (provider : String) (item : Json) : Except Error WireToolCall := do
  let callId ← requiredString item "call_id" provider
  let name ← requiredString item "name" provider
  let arguments ← argumentText codec (item.get "arguments")
  .ok ⟨callId, name, arguments⟩

/-- The messages after a call: it joins a last message of the assistant. -/
def pushCall (empty : C) (messages : List (ChatMessage C)) (call : WireToolCall) :
    List (ChatMessage C) :=
  match messages.getLast? with
  | some last =>
    if last.role = "assistant" then
      messages.dropLast ++ [{ last with toolCalls := last.toolCalls ++ [call] }]
    else messages ++ [⟨"assistant", empty, [call], none⟩]
  | none => [⟨"assistant", empty, [call], none⟩]

/-- The role of a message of the history. -/
def wireRole (provider role : String) : Except Error String :=
  if role = "developer" then .ok "system"
  else if ["system", "user", "assistant", "tool"].contains role then .ok role
  else .error (.provider ("unsupported " ++ provider ++ " message role \x60" ++ role ++ "\x60") false)

def wireMessageItem (empty : C) (provider : String) (content : ContentSource → Except Error C)
    (messages : List (ChatMessage C)) (item : Json) : Except Error (List (ChatMessage C)) :=
  if itemType item = some "function_call" then do
    let call ← wireToolCall codec provider item
    .ok (pushCall empty messages call)
  else if itemType item = some "function_call_output" then do
    let callId ← requiredString item "call_id" provider
    let output ← resultOutput item
    let payload ← content (.tool output)
    .ok (messages ++ [⟨"tool", payload, [], some callId⟩])
  else if (itemType item = some "message" ∨ itemType item = none) ∧ (item.get "role").isSome then do
    let declared ← requiredString item "role" provider
    let role ← wireRole provider declared
    let payload ← content (.history role item)
    .ok (messages ++ [⟨role, payload, [], none⟩])
  else .ok messages

/-- The message with the instructions, if there are any. -/
def systemMessages (instructions : String) (content : ContentSource → Except Error C) :
    Except Error (List (ChatMessage C)) :=
  if isBlank instructions then .ok []
  else (content (.system instructions)).map fun payload => [⟨"system", payload, [], none⟩]

def isConversation (message : ChatMessage C) : Bool :=
  ["user", "assistant", "tool"].contains message.role

def wireMessages (empty : C) (instructions provider : String)
    (content : ContentSource → Except Error C) (input : List Json) :
    Except Error (List (ChatMessage C)) := do
  let start ← systemMessages instructions content
  let messages ← input.foldlM (wireMessageItem codec empty provider content) start
  if messages.any isConversation then .ok messages
  else .error (.provider (provider ++ " request has no conversation messages") false)

inductive WireContentPart where
  | text (text : String)
  | imageUrl (url : String)
  deriving DecidableEq

inductive WireContent where
  | text (text : String)
  | parts (parts : List WireContentPart)
  deriving DecidableEq

/-- The lines of a tool result: `output_text`. -/
def outputLine (part : Json) : Except Error String :=
  if itemType part = some "input_text" then
    match part.getStr "text" with
    | some text => .ok text
    | none => .error (.provider "invalid tool text" false)
  else if itemType part = some "file" then .ok (storedFileText codec.toWireCodec part)
  else .error (.provider "selected provider cannot represent this tool observation" false)

def outputText (output : Json) : Except Error String :=
  match output.asArray with
  | some parts => (parts.mapM (outputLine codec)).map fun lines => "\n".intercalate lines
  | none => .error (.provider "tool result content must be an array" false)

/-- `tool_text`: the text of a single text part is borrowed, any other is built. -/
def toolText (output : Json) : Except Error String :=
  match output.asArray with
  | some [part] =>
    if itemType part = some "input_text" then
      match part.getStr "text" with
      | some text => .ok text
      | none => .error (.provider "invalid tool text" false)
    else outputText codec output
  | _ => outputText codec output

def isImagePart (part : Json) : Bool := itemType part == some "input_image"

def imageUrlParts (provider : String) (part : Json) : Except Error (List WireContentPart) :=
  (imageInput part provider).map fun image =>
    image.toList.map fun pixels => .imageUrl (imageDataUrl pixels.1 pixels.2)

def toolResultPart (provider : String) (part : Json) : Except Error (List WireContentPart) :=
  if itemType part = some "input_text" then
    match part.getStr "text" with
    | some text => .ok [.text text]
    | none => .error (.provider "invalid tool text" false)
  else if itemType part = some "file" then .ok [.text (storedFileText codec.toWireCodec part)]
  else if itemType part = some "input_image" then imageUrlParts provider part
  else .error (.provider "selected provider cannot represent this tool observation" false)

/-- `WireContent::tool_result`. -/
def toolResultContent (provider : String) (output : Json) : Except Error WireContent :=
  match output.asArray.filter fun parts => parts.any isImagePart with
  | some parts =>
    (parts.mapM (toolResultPart codec provider)).map fun content => .parts content.flatten
  | none => (toolText codec output).map .text

def isTextPart (part : Json) : Bool :=
  itemType part == some "input_text" || itemType part == some "output_text" ||
    itemType part == some "text"

def contentText : Option Json → String
  | some (.str text) => text
  | some (.arr parts) =>
    String.join ((parts.filter isTextPart).filterMap fun part => part.getStr "text")
  | some value => codec.render value
  | none => ""

def messagePart (provider : String) (part : Json) : Except Error (List WireContentPart) :=
  if isTextPart part then .ok [.text ((part.getStr "text").getD "")]
  else if itemType part = some "input_image" then imageUrlParts provider part
  else .ok []

/-- `WireContent::new`. -/
def messageContent (provider : String) (content : Option Json) : Except Error WireContent :=
  match (content.bind Json.asArray).filter fun parts => parts.any isImagePart with
  | some parts =>
    (parts.mapM (messagePart provider)).map fun content => .parts content.flatten
  | none => .ok (.text (contentText codec content))

def replayReasoningField : String := "_mobius_reasoning"

structure KimiMessage where
  content : Option WireContent
  reasoningContent : Option String

/-- `message_content` of Kimi. -/
def kimiContent : ContentSource → Except Error KimiMessage
  | .system text => .ok ⟨some (.text text), none⟩
  | .tool output => (toolText codec output).map fun text => ⟨some (.text text), none⟩
  | .history role item =>
    (messageContent codec "Kimi" (item.get "content")).map fun content =>
      ⟨some content, if role = "assistant" then
        (item.getStr replayReasoningField).filter fun text => !text.isEmpty else none⟩

def rawThinkingField : String := "_mistral_thinking"

inductive MistralContent where
  | neutral (content : WireContent)
  | text (text : String)
  /-- Preserved thinking, then the text. -/
  | thinking (blocks : List Json) (text : String)
  | empty

/-- `message_content` of Mistral. -/
def mistralContent : ContentSource → Except Error MistralContent
  | .system text => .ok (.text text)
  | .tool output => (toolResultContent codec "Mistral" output).map .neutral
  | .history role item =>
    match if role = "assistant" then (item.get rawThinkingField).bind Json.asArray else none with
    | some blocks => .ok (.thinking blocks (contentText codec (item.get "content")))
    | none => (messageContent codec "Mistral" (item.get "content")).map .neutral

end ChatCompletions

end MobiusAgent.ProviderMessages
