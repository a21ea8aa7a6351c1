import MobiusAgent.ToolBoundaries

/-!
# Forks of a session

`fork_prefix` and `manual_fork_checkpoint` of `middleware/sessions.rs`, the
messages of `protocol/replay.rs::events` and `strip_attachment_references`.
Of the replayed events only the messages are modelled; a fork reads no others.
What a serializer writes and reads is a parameter.
-/

namespace MobiusAgent.SessionForks

open JsonValue Json ProtocolEvents ContextItems

section Replay

/-- What `serde_json` writes and reads for the values inside an item. -/
structure ForkCodec where
  encodeMessage : MessageEvent → Json
  decodeMessage : Json → Option MessageEvent
  references : Json → Option (List SessionFileReference)
  annotations : Json → Option (List Json)

variable (codec : ForkCodec)

def contextCompactedMarker : String := "context_compacted"

def attachmentContextMarker : String := "attachments"

def replayReasoningField : String := "_mobius_reasoning"

def internalMessageKind (message : Json) : Option String := message.getStr internalMessageField

def messageMetadata (value : Json) : Option MessageEvent :=
  (value.get messageMetadataField).bind codec.decodeMessage

def reasoningContent (value : Json) : List ModelStepContent :=
  match value.getStr replayReasoningField with
  | some text => if isBlank text then [] else [⟨0, 0, .reasoning, text, []⟩]
  | none => []

def partContent (phase : ModelStepContentPhase) (part : Json) (index : Nat) :
    Option ModelStepContent :=
  match part.getStr "text" with
  | some text =>
    if text.isEmpty then none
    else some ⟨0, index, phase, text, ((part.get "annotations").bind codec.annotations).getD []⟩
  | none => none

def textContent (phase : ModelStepContentPhase) (value : Json) : List ModelStepContent :=
  match value.get "content" with
  | some (.str text) => if text.isEmpty then [] else [⟨0, 0, phase, text, []⟩]
  | some (.arr parts) => parts.zipIdx.filterMap fun part => partContent codec phase part.1 part.2
  | _ => []

def assistantContent (value : Json) : List ModelStepContent :=
  let phase := if value.getStr "phase" = some "commentary" then .commentary else .finalAnswer
  reasoningContent value ++ textContent codec phase value

inductive ReplayedMessage where
  | message (event : MessageEvent)
  | assistant (content : List ModelStepContent) (messageTarget : Option MessageTarget)

/-- The place of a replayed message, if a fork can end there. -/
def ReplayedMessage.target : ReplayedMessage → Option MessageTarget
  | .message event => event.messageTarget
  | .assistant _ messageTarget => messageTarget

def replayItem (value : Json) (messageTarget : Option MessageTarget) : Option ReplayedMessage :=
  if internalMessageKind value = some contextCompactedMarker then none
  else match messageMetadata codec value with
    | some message => some (.message { message with messageTarget := messageTarget })
    | none =>
      if value.getStr "role" = some "assistant" then
        let content := assistantContent codec value
        if content = [] then none else some (.assistant content messageTarget)
      else none

/-- The messages of items from an index on. -/
def replayFrom (complete : List Nat) :
    Nat → List (MessageTarget × Json) → List ReplayedMessage
  | _, [] => []
  | index, (target, value) :: rest =>
    let messageTarget := if complete.contains (index + 1) then some target else none
    (replayItem codec value messageTarget).toList ++ replayFrom complete (index + 1) rest

/-- The messages of `events`. -/
def replayMessages (context : List (MessageTarget × Json)) : List ReplayedMessage :=
  replayFrom codec (toolCompleteBoundaries (context.map (·.2))) 0 context

end Replay

section History

structure TranscriptBatch where
  sequence : Nat
  items : List Json

/-- The items of a batch with their places, from a count on. -/
def positionsFrom (sequence : Nat) : Nat → List Json → List (MessageTarget × Json)
  | _, [] => []
  | count, item :: rest =>
    (⟨sequence, count⟩, item) :: positionsFrom sequence (count + 1) rest

structure History where
  batches : List TranscriptBatch
  increasing : batches.Pairwise fun first second => first.sequence < second.sequence

/-- `into_positioned_items_chronological` of all batches. -/
def History.items (history : History) : List (MessageTarget × Json) :=
  history.batches.flatMap fun batch => positionsFrom batch.sequence 1 batch.items

end History

section Forks

variable (codec : ForkCodec)

def invalidForkTarget : Error :=
  .checkpoint "fork target is not a safe durable message boundary"

def forkPrefix (items : List (MessageTarget × Json)) (target : MessageTarget) :
    Except Error (List Json) :=
  match items.findIdx? fun item => item.1 = target with
  | none => .error invalidForkTarget
  | some index =>
    let start := items.take (index + 1)
    if (replayMessages codec start).any fun message => message.target = some target then
      .ok (start.map (·.2))
    else .error invalidForkTarget

end Forks

section Attachments

variable (codec : ForkCodec)

def forkedAttachmentPlaceholder : String := "[Attachment unavailable in this fork]"

def partHasText (part : Json) : Bool := (part.getStr "text").any fun text => !isBlank text

def hasMessageText (value : Json) : Bool :=
  match value.get "content" with
  | some (.str text) => !isBlank text
  | some (.arr parts) => parts.any partHasText
  | _ => false

def listedAttachments (item : Json) : Option (List Json) :=
  ((item.get messageMetadataField).bind fun metadata => metadata.get "attachments").bind Json.asArray

def refersToAttachments (item : Json) : Bool :=
  (item.get attachmentsField).isSome || (listedAttachments item).any fun list => !list.isEmpty

/-- Whether an item shows nothing without its attachments. -/
def needsPlaceholder (item : Json) : Bool :=
  item.getStr "role" == some "user" &&
    ((item.get attachmentsField).bind codec.references).any (fun files => !files.isEmpty) &&
    !hasMessageText item

/-- The content that stands for attachments. -/
def placeholderContent : Json :=
  .arr [.obj [("text", .str forkedAttachmentPlaceholder), ("type", .str "input_text")]]

/-- A message without its attachments. -/
def bareMessage (placeholder : Bool) (message : MessageEvent) : MessageEvent :=
  { message with
    attachments := []
    text := if placeholder then forkedAttachmentPlaceholder else message.text }

/-- The first loop of `strip_attachment_references`. -/
def stripReferences (item : Json) : Json :=
  if refersToAttachments item then
    let placeholder := needsPlaceholder codec item
    let bare := item.remove attachmentsField
    let filled := if placeholder then bare.insert "content" placeholderContent else bare
    match messageMetadata codec filled with
    | none => filled
    | some message =>
      filled.insert messageMetadataField (codec.encodeMessage (bareMessage placeholder message))
  else item

def isImage (part : Json) : Bool := itemType part == some "input_image"

def contextImages (item : Json) : List Json :=
  (((item.get "content").bind Json.asArray).getD []).filter isImage

/-- The item that keeps inherited images. -/
def inheritedMedia (images : List Json) : Json :=
  .obj [(internalMessageField, .str "inherited_media"), ("content", .arr images),
    ("role", .str "user")]

/-- The second loop of `strip_attachment_references`. -/
def stripContext (item : Json) : Option Json :=
  if internalMessageKind item = some attachmentContextMarker then
    if contextImages item = [] then none else some (inheritedMedia (contextImages item))
  else some item

def stripAttachmentReferences (items : List Json) : List Json :=
  (items.map (stripReferences codec)).filterMap stripContext

def manualForkContext (context : List Json) : List Json := stripAttachmentReferences codec context

end Attachments

section Recording

/-- The model input of a session and its transcript. -/
structure Recorded where
  context : List Json
  transcript : List Json
  deriving DecidableEq

/-- `push_context`: an item of both. -/
def Recorded.pushContext (recorded : Recorded) (item : Json) : Recorded :=
  ⟨recorded.context ++ [item], recorded.transcript ++ [item]⟩

/-- `rewrite_input`: other input. -/
def Recorded.rewriteInput (recorded : Recorded) (input : List Json) : Recorded :=
  { recorded with context := (resetPromptCacheBreakpoint input).1 }

/-- `record_transcript_item`: an item of the transcript. -/
def Recorded.recordTranscriptItem (recorded : Recorded) (item : Json) : Recorded :=
  { recorded with transcript := recorded.transcript ++ [item] }

/-- `apply_compaction`: the input is rewritten and the transcript gets a marker. -/
def Recorded.applyCompaction (recorded : Recorded) (compacted : List Json) : Recorded :=
  (recorded.rewriteInput compacted).recordTranscriptItem
    (internalUserMessage contextCompactedMarker "")

end Recording

end MobiusAgent.SessionForks
