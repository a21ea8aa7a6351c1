import MobiusAgent.CheckpointValidation
import MobiusAgent.ContextItems

/-!
# The wire form of the context for the Responses API

The borrowed wire input of `backend/model/responses_wire.rs`: how items,
their parts and the tool-load items among them are written. A definition of a
tool is written once in one input, so the form of an item depends on those
before it. The text that a serializer writes is a parameter.
-/

namespace MobiusAgent.ResponsesWire

open JsonValue ProtocolEvents CheckpointValidation ContextItems

/-- What `serde_json` writes and reports. -/
structure WireCodec where
  render : Json → String
  /-- The error for an item that does not decode. -/
  decodeError : Json → String

/-- The byte limit of a tool's name. -/
def maxToolNameBytes : Nat := 256

/-- A function tool definition sent to a model provider. -/
structure ToolDefinition where
  name : String
  description : String
  parameters : Json
  deriving DecidableEq

/-- A control item that records tools loaded at one place of the context. -/
structure ToolLoad where
  catalogRevision : String
  tools : List String

def badToolName (name : String) : Bool :=
  isBlank name || decide (maxToolNameBytes < name.utf8ByteSize)

variable (codec : WireCodec)

/-- `ToolLoad::from_input`. -/
def toolLoadOf (input : Json) : Except Error (Option ToolLoad) :=
  if itemType input ≠ some "tool_load" then .ok none
  else
    match input.getStr "catalog_revision",
        ((input.get "tools").bind Json.asArray).bind fun names => names.mapM Json.asStr with
    | some revision, some tools =>
      if isBlank revision || tools.isEmpty then
        .error (.checkpoint "invalid tool-load control item")
      else if tools.any badToolName || decide (¬tools.Nodup) then
        .error (.checkpoint "invalid loaded tool name")
      else .ok (some ⟨revision, tools⟩)
    | _, _ => .error (.json (codec.decodeError input))

def mediaPunctuation : List Char := "!#$&^_.+-".toList

def isMediaCharacter (c : Char) : Bool := c.isAlphanum || mediaPunctuation.contains c

/-- `image_input`: the media type and the data of an image, if the part is one. -/
def imageInput (part : Json) (provider : String) : Except Error (Option (String × String)) :=
  if itemType part ≠ some "input_image" then .ok none
  else
    match part.getStr "media_type", (part.getStr "data").filter fun data => !data.isEmpty with
    | none, _ => .error (.provider (provider ++ " image input omitted media_type") false)
    | some _, none => .error (.provider (provider ++ " image input omitted data") false)
    | some mediaType, some data =>
      if !mediaType.startsWith "image/" then
        .error (.provider (provider ++ " image input requires an image media type") false)
      else
        let subtype := mediaType.toList.drop 6
        if subtype.isEmpty || !subtype.all isMediaCharacter then
          .error (.provider (provider ++ " image input has an invalid media type") false)
        else .ok (some (mediaType, data))

def imageDataUrl (mediaType data : String) : String := "data:" ++ mediaType ++ ";base64," ++ data

def storedFileText (part : Json) : String :=
  "Stored file: " ++ codec.render ((part.get "file").getD .null)

/-- The marker of a cache endpoint. -/
def cacheBreakpoint : Json := .obj [("mode", .str "explicit")]

/-- Whether a field is private to this side of the wire. -/
def isPrivate (key : String) : Bool := key.startsWith "_"

/-- `WirePart`: the wire form of one content part. -/
def wirePart (endpoint : Bool) : Json → Except Error Json
  | .obj fields =>
    let part := Json.obj fields
    let cached := if endpoint then [("prompt_cache_breakpoint", cacheBreakpoint)] else []
    if itemType part = some "file" then
      .ok (.obj ([("type", .str "input_text"), ("text", .str (storedFileText codec part))] ++
        cached))
    else if itemType part = some "input_image" then
      match imageInput part "Responses" with
      | .error error => .error (.json error.display)
      | .ok none => .error (.json "Responses image input changed after validation")
      | .ok (some (mediaType, data)) =>
        let detail := (part.get "detail").toList.map fun detail => ("detail", detail)
        .ok (.obj ([("type", .str "input_image"),
          ("image_url", .str (imageDataUrl mediaType data))] ++ detail ++ cached))
    else
      .ok (.obj ((fields.filter fun field => !isPrivate field.1 &&
        (!endpoint || field.1 != "prompt_cache_breakpoint")) ++ cached))
  | part => .ok part

/-- Whether a part can be a cache endpoint. -/
def isEndpointPart (part : Json) : Bool :=
  itemType part == some "input_text" || itemType part == some "input_image" ||
    itemType part == some "file"

/-- `WireContent`: the wire form of content parts, the last possible one being the endpoint. -/
def wireContent (cacheEndpoint : Bool) (parts : List Json) : Except Error (List Json) :=
  let endpoint := if cacheEndpoint then rposition isEndpointPart parts else none
  (parts.zipIdx).mapM fun part => wirePart codec (endpoint == some part.2) part.1

/-- Whether a field of an item stays on this side of the wire. -/
def isDropped (kind : Option String) (key : String) : Bool :=
  isPrivate key || (key == "format" && kind == some "reasoning") ||
    (key == "status" && (kind == some "message" || kind == some "reasoning" ||
      kind == some "function_call"))

def endsAtCache (explicitPromptCache : Bool) (item : Json) : Bool :=
  explicitPromptCache && (itemType item == some "function_call_output" ||
    (item.getStr "role").any fun role => ["user", "developer", "system"].contains role)

/-- The wire form of one field of an item. -/
def wireField (cacheEndpoint : Bool) (contentField : String) (field : String × Json) :
    Except Error (String × Json) :=
  if field.1 ≠ contentField then .ok field
  else
    match field.2 with
    | .arr parts => (wireContent codec cacheEndpoint parts).map fun content =>
        (field.1, .arr content)
    | .str text =>
      if cacheEndpoint then
        .ok (field.1, .arr [.obj [("type", .str "input_text"), ("text", .str text),
          ("prompt_cache_breakpoint", cacheBreakpoint)]])
      else .ok field
    | _ => .ok field

/-- `WireItem`: the wire form of one item that is no tool load. -/
def wireItem (explicitPromptCache : Bool) : Json → Except Error Json
  | .obj fields =>
    let item := Json.obj fields
    ((fields.filter fun field => !isDropped (itemType item) field.1).mapM
      (wireField codec (endsAtCache explicitPromptCache item) (contentField item))).map .obj
  | item => .ok item

/-- `FunctionTool`, not deferred. -/
def functionTool (tool : ToolDefinition) : Json :=
  .obj [("description", .str tool.description), ("name", .str tool.name),
    ("parameters", tool.parameters), ("strict", .bool false), ("type", .str "function")]

def findTool (tools : List ToolDefinition) (name : String) : Option ToolDefinition :=
  tools.find? fun tool => tool.name == name

/-- The definitions of named tools that were not sent yet, and the names sent after them. -/
def newTools (additional : List ToolDefinition) (sent : List String) :
    List String → List ToolDefinition × List String
  | [] => ([], sent)
  | name :: rest =>
    match findTool additional name with
    | none => newTools additional sent rest
    | some tool =>
      if sent.contains tool.name then newTools additional sent rest
      else
        let later := newTools additional (tool.name :: sent) rest
        (tool :: later.1, later.2)

/-- The item that adds definitions of tools, if there are any. -/
def additionalTools (tools : List ToolDefinition) : List Json :=
  if tools.isEmpty then []
  else [.obj [("type", .str "additional_tools"), ("role", .str "developer"),
    ("tools", .arr (tools.map functionTool))]]

/-- The definitions that a load adds under a revision, and the names sent after them. -/
def addedTools (revision : String) (additional : List ToolDefinition) (sent : List String)
    (load : ToolLoad) : List ToolDefinition × List String :=
  if load.catalogRevision = revision then newTools additional sent load.tools else ([], sent)

/-- `WireInput::serialize`, from an item on: the wire items and the names sent after them. -/
def serializeFrom (explicitPromptCache : Bool) (revision : String)
    (additional : List ToolDefinition) (sent : List String) :
    List Json → Except Error (List Json × List String)
  | [] => .ok ([], sent)
  | item :: rest => do
    match ← toolLoadOf codec item with
    | some load =>
      let tools := addedTools revision additional sent load
      let later ← serializeFrom explicitPromptCache revision additional tools.2 rest
      .ok (additionalTools tools.1 ++ later.1, later.2)
    | none =>
      let wire ← wireItem codec explicitPromptCache item
      let later ← serializeFrom explicitPromptCache revision additional sent rest
      .ok (wire :: later.1, later.2)

/-- The check of one part by `WireInput::new`. -/
def checkPart (allowImages : Bool) (part : Json) : Except Error Unit :=
  if itemType part = some "input_image" then
    if allowImages then (imageInput part "Responses").map fun _ => ()
    else .error (.provider "this model provider does not support image attachments" false)
  else .ok ()

/-- The check of one item by `WireInput::new`. -/
def checkItem (allowImages : Bool) (item : Json) : Except Error Unit := do
  match ← toolLoadOf codec item with
  | some _ => .ok ()
  | none => ((contentParts item).getD []).forM (checkPart allowImages)

/-- The wire items of a logical input: `WireInput::new`, then its serialization. -/
def wireInput (allowImages explicitPromptCache : Bool) (revision : String)
    (additional : List ToolDefinition) (input : List Json) : Except Error (List Json) := do
  input.forM (checkItem codec allowImages)
  let wire ← serializeFrom codec explicitPromptCache revision additional [] input
  .ok wire.1

section Segments

/-- The names that the load of one item asks for under a revision. -/
def itemNames (revision : String) (item : Json) : List String :=
  match toolLoadOf codec item with
  | .ok (some load) => if load.catalogRevision = revision then load.tools else []
  | _ => []

def loadedNames (revision : String) (input : List Json) : List String :=
  input.flatMap (itemNames codec revision)

variable {codec}

theorem findTool_name {tools : List ToolDefinition} {name : String} {tool : ToolDefinition}
    (h : findTool tools name = some tool) : tool.name = name := by
  have hmatch := List.find?_some h
  simpa using hmatch

/-- Two sets of definitions and of sent names look the same to these names. -/
def Alike (first second : List ToolDefinition) (sent sent' names : List String) : Prop :=
  ∀ name ∈ names, findTool first name = findTool second name ∧
    (findTool first name ≠ none → (name ∈ sent ↔ name ∈ sent'))

theorem Alike.append {first second : List ToolDefinition} {sent sent' names : List String}
    (h : Alike first second sent sent' names) (added : List String) :
    Alike first second (added ++ sent) (added ++ sent') names := by
  intro name hname
  obtain ⟨hfind, hsent⟩ := h name hname
  refine ⟨hfind, fun hsome => ?_⟩
  rw [List.mem_append, List.mem_append, hsent hsome]

variable {sent sent' after : List String} {first second additional : List ToolDefinition}
  {item : Json} {load : ToolLoad} {input wire before later : List Json}

/-- Alike sides have the same new tools, and both count them as sent. -/
theorem newTools_alike {names : List String} (h : Alike first second sent sent' names) :
    (newTools first sent names).1 = (newTools second sent' names).1 ∧
      ∃ added, (newTools first sent names).2 = added ++ sent ∧
        (newTools second sent' names).2 = added ++ sent' ∧ ∀ name ∈ added, name ∈ names := by
  induction names generalizing sent sent' with
  | nil => exact ⟨rfl, [], rfl, rfl, by simp⟩
  | cons name rest ih =>
    obtain ⟨hfind, hsent⟩ := h name List.mem_cons_self
    have hrest : Alike first second sent sent' rest := fun other hother =>
      h other (List.mem_cons_of_mem name hother)
    unfold newTools
    cases htool : findTool first name with
    | none =>
      rw [← hfind, htool]
      obtain ⟨hnew, added, hleft, hright, hmem⟩ := ih hrest
      exact ⟨hnew, added, hleft, hright, fun other hother =>
        List.mem_cons_of_mem name (hmem other hother)⟩
    | some tool =>
      rw [← hfind, htool]
      have hname := findTool_name htool
      have hsame := hsent (by rw [htool]; simp)
      dsimp only
      rw [hname]
      by_cases hold : name ∈ sent
      · have hold' := hsame.mp hold
        rw [if_pos (List.contains_iff_mem.mpr hold), if_pos (List.contains_iff_mem.mpr hold')]
        obtain ⟨hnew, added, hleft, hright, hmem⟩ := ih hrest
        exact ⟨hnew, added, hleft, hright, fun other hother =>
          List.mem_cons_of_mem name (hmem other hother)⟩
      · have hold' : name ∉ sent' := fun hmem => hold (hsame.mpr hmem)
        rw [if_neg (by rwa [List.contains_iff_mem]), if_neg (by rwa [List.contains_iff_mem])]
        have hlater : Alike first second (name :: sent) (name :: sent') rest :=
          hrest.append [name]
        obtain ⟨hnew, added, hleft, hright, hmem⟩ := ih hlater
        refine ⟨by rw [hnew], added ++ [name], ?_, ?_, ?_⟩
        · simpa using hleft
        · simpa using hright
        · intro other hother
          cases List.mem_append.mp hother with
          | inl hadded => exact List.mem_cons_of_mem name (hmem other hadded)
          | inr hlast =>
            rw [List.mem_singleton.mp hlast]
            exact List.mem_cons_self

variable {explicitPromptCache : Bool} {revision : String}

theorem serializeFrom_plain {rest : List Json} (h : toolLoadOf codec item = .ok none) :
    serializeFrom codec explicitPromptCache revision additional sent (item :: rest) = (do
      let wire ← wireItem codec explicitPromptCache item
      let later ← serializeFrom codec explicitPromptCache revision additional sent rest
      .ok (wire :: later.1, later.2)) := by
  rw [serializeFrom, h]
  rfl

theorem serializeFrom_load {rest : List Json} (h : toolLoadOf codec item = .ok (some load)) :
    serializeFrom codec explicitPromptCache revision additional sent (item :: rest) = (do
      let later ← serializeFrom codec explicitPromptCache revision additional
        (addedTools revision additional sent load).2 rest
      .ok (additionalTools (addedTools revision additional sent load).1 ++ later.1, later.2)) := by
  rw [serializeFrom, h]
  rfl

theorem itemNames_load (h : toolLoadOf codec item = .ok (some load)) :
    itemNames codec revision item = if load.catalogRevision = revision then load.tools else [] := by
  unfold itemNames
  rw [h]

theorem addedTools_alike (hload : toolLoadOf codec item = .ok (some load))
    (h : Alike first second sent sent' (itemNames codec revision item)) :
    (addedTools revision first sent load).1 = (addedTools revision second sent' load).1 ∧
      ∃ added, (addedTools revision first sent load).2 = added ++ sent ∧
        (addedTools revision second sent' load).2 = added ++ sent' ∧
        ∀ name ∈ added, name ∈ itemNames codec revision item := by
  rw [itemNames_load hload] at h ⊢
  unfold addedTools
  by_cases hrevision : load.catalogRevision = revision
  · simp only [if_pos hrevision] at h ⊢
    exact newTools_alike h
  · rw [if_neg hrevision, if_neg hrevision, if_neg hrevision]
    exact ⟨rfl, [], rfl, rfl, by simp⟩

theorem serializeFrom_alike (h : Alike first second sent sent' (loadedNames codec revision input))
    (hwire : serializeFrom codec explicitPromptCache revision first sent input =
      .ok (wire, after)) :
    ∃ added, after = added ++ sent ∧ (∀ name ∈ added, name ∈ loadedNames codec revision input) ∧
      serializeFrom codec explicitPromptCache revision second sent' input =
        .ok (wire, added ++ sent') := by
  induction input generalizing sent sent' wire after with
  | nil =>
    cases hwire
    exact ⟨[], rfl, by simp, rfl⟩
  | cons item rest ih =>
    have hnames : loadedNames codec revision (item :: rest) =
        itemNames codec revision item ++ loadedNames codec revision rest := List.flatMap_cons
    rw [hnames] at h ⊢
    have hrest : Alike first second sent sent' (loadedNames codec revision rest) :=
      fun name hname => h name (List.mem_append_right _ hname)
    cases hload : toolLoadOf codec item with
    | error error =>
      rw [serializeFrom, hload] at hwire
      cases hwire
    | ok load =>
      cases load with
      | none =>
        rw [serializeFrom_plain hload] at hwire
        obtain ⟨value, hvalue, hwire⟩ := bind_ok hwire
        obtain ⟨later, hlater, hwire⟩ := bind_ok hwire
        cases hwire
        obtain ⟨added, hafter, hmem, hsecond⟩ := ih hrest hlater
        refine ⟨added, hafter, fun name hname => List.mem_append_right _ (hmem name hname), ?_⟩
        rw [serializeFrom_plain hload]
        exact except_bind_ok_iff.mpr ⟨value, hvalue,
          except_bind_ok_iff.mpr ⟨_, hsecond, rfl⟩⟩
      | some load =>
        rw [serializeFrom_load hload] at hwire
        obtain ⟨later, hlater, hwire⟩ := bind_ok hwire
        cases hwire
        have hnow : Alike first second sent sent' (itemNames codec revision item) :=
          fun name hname => h name (List.mem_append_left _ hname)
        obtain ⟨hnew, added, hleft, hright, hmem⟩ := addedTools_alike hload hnow
        rw [hleft] at hlater
        obtain ⟨more, hafter, hmore, hsecond⟩ := ih (hrest.append added) hlater
        refine ⟨more ++ added, by rw [hafter, List.append_assoc], ?_, ?_⟩
        · intro name hname
          cases List.mem_append.mp hname with
          | inl hlast => exact List.mem_append_right _ (hmore name hlast)
          | inr hfirst => exact List.mem_append_left _ (hmem name hfirst)
        · rw [serializeFrom_load hload, hright]
          refine except_bind_ok_iff.mpr ⟨_, hsecond, ?_⟩
          rw [hnew, List.append_assoc]

/-- The wire form of an input is that of its parts, one after the other. -/
theorem serializeFrom_append {middle : List String} {first second : List Json}
    (hfirst : serializeFrom codec explicitPromptCache revision additional sent first =
      .ok (before, middle))
    (hsecond : serializeFrom codec explicitPromptCache revision additional middle second =
      .ok (later, after)) :
    serializeFrom codec explicitPromptCache revision additional sent (first ++ second) =
      .ok (before ++ later, after) := by
  induction first generalizing sent before with
  | nil =>
    cases hfirst
    exact hsecond
  | cons item rest ih =>
    rw [List.cons_append]
    cases hload : toolLoadOf codec item with
    | error error =>
      rw [serializeFrom, hload] at hfirst
      cases hfirst
    | ok load =>
      cases load with
      | none =>
        rw [serializeFrom_plain hload] at hfirst ⊢
        obtain ⟨value, hvalue, hfirst⟩ := bind_ok hfirst
        obtain ⟨written, hwritten, hfirst⟩ := bind_ok hfirst
        cases hfirst
        exact except_bind_ok_iff.mpr ⟨value, hvalue,
          except_bind_ok_iff.mpr ⟨_, ih hwritten, rfl⟩⟩
      | some load =>
        rw [serializeFrom_load hload] at hfirst ⊢
        obtain ⟨written, hwritten, hfirst⟩ := bind_ok hfirst
        cases hfirst
        refine except_bind_ok_iff.mpr ⟨_, ih hwritten, ?_⟩
        rw [List.append_assoc]

theorem toolLoadOf_other (h : itemType item ≠ some "tool_load") :
    toolLoadOf codec item = .ok none := by
  unfold toolLoadOf
  exact if_pos h

theorem serializeFrom_items {items : List Json}
    (hplain : ∀ item ∈ items, itemType item ≠ some "tool_load")
    (hwire : serializeFrom codec explicitPromptCache revision first sent items =
      .ok (wire, after)) :
    serializeFrom codec explicitPromptCache revision second sent' items = .ok (wire, sent') := by
  have hnames : loadedNames codec revision items = [] := by
    refine List.flatMap_eq_nil_iff.mpr fun item hitem => ?_
    unfold itemNames
    rw [toolLoadOf_other (hplain item hitem)]
  have halike : Alike first second sent sent' (loadedNames codec revision items) := by
    rw [hnames]
    intro name hname
    cases hname
  obtain ⟨added, _, hmem, hsecond⟩ := serializeFrom_alike halike hwire
  have hadded : added = [] := by
    rw [hnames] at hmem
    exact List.eq_nil_iff_forall_not_mem.mpr fun name hname => absurd (hmem name hname) (by simp)
  rw [hadded] at hsecond
  exact hsecond

/-- The wire form of an input continues that of its prefix, if the definitions of the names
loaded there are unchanged and no later load asks for one of them again. -/
theorem serializeFrom_continued {known suffix : List Json} {middle : List String}
    (hknown : serializeFrom codec explicitPromptCache revision first [] known =
      .ok (before, middle))
    (hsuffix : serializeFrom codec explicitPromptCache revision second [] suffix =
      .ok (later, after))
    (hsame : ∀ name ∈ loadedNames codec revision known,
      findTool first name = findTool second name)
    (hnew : ∀ name ∈ loadedNames codec revision suffix,
      name ∈ loadedNames codec revision known → findTool second name = none) :
    ∃ sent, serializeFrom codec explicitPromptCache revision second [] (known ++ suffix) =
      .ok (before ++ later, sent) := by
  have hbegins : Alike first second [] [] (loadedNames codec revision known) :=
    fun name hname => ⟨hsame name hname, fun _ => Iff.rfl⟩
  obtain ⟨added, _, hmem, hwritten⟩ := serializeFrom_alike hbegins hknown
  have hlater : Alike second second [] (added ++ []) (loadedNames codec revision suffix) := by
    intro name hname
    refine ⟨rfl, fun hsome => ?_⟩
    constructor
    · intro hnil
      cases hnil
    · intro hold
      rw [List.append_nil] at hold
      exact absurd (hnew name hname (hmem name hold)) hsome
  obtain ⟨more, _, _, hrest⟩ := serializeFrom_alike hlater hsuffix
  exact ⟨_, serializeFrom_append hwritten hrest⟩

variable {allowImages : Bool}

theorem wireInput_ok_iff :
    wireInput codec allowImages explicitPromptCache revision additional input = .ok wire ↔
      (∀ item ∈ input, checkItem codec allowImages item = .ok ()) ∧
        ∃ sent, serializeFrom codec explicitPromptCache revision additional [] input =
          .ok (wire, sent) := by
  unfold wireInput
  constructor
  · intro h
    obtain ⟨_, hcheck, h⟩ := bind_ok h
    obtain ⟨written, hwritten, h⟩ := bind_ok h
    cases h
    exact ⟨(forM_ok_iff _ _).mp hcheck, written.2, hwritten⟩
  · rintro ⟨hcheck, sent, hwritten⟩
    exact except_bind_ok_iff.mpr ⟨(), (forM_ok_iff _ _).mpr hcheck,
      except_bind_ok_iff.mpr ⟨_, hwritten, rfl⟩⟩

theorem wireInput_continued {known suffix : List Json}
    (hknown : wireInput codec allowImages explicitPromptCache revision first known = .ok before)
    (hsuffix : wireInput codec allowImages explicitPromptCache revision second suffix = .ok later)
    (hsame : ∀ name ∈ loadedNames codec revision known,
      findTool first name = findTool second name)
    (hnew : ∀ name ∈ loadedNames codec revision suffix,
      name ∈ loadedNames codec revision known → findTool second name = none) :
    wireInput codec allowImages explicitPromptCache revision second (known ++ suffix) =
      .ok (before ++ later) := by
  obtain ⟨hcheckKnown, _, hwrittenKnown⟩ := wireInput_ok_iff.mp hknown
  obtain ⟨hcheckSuffix, _, hwrittenSuffix⟩ := wireInput_ok_iff.mp hsuffix
  refine wireInput_ok_iff.mpr ⟨?_, serializeFrom_continued hwrittenKnown hwrittenSuffix hsame hnew⟩
  intro item hitem
  cases List.mem_append.mp hitem with
  | inl hfirst => exact hcheckKnown item hfirst
  | inr hlast => exact hcheckSuffix item hlast

theorem wireInput_output {output : List Json}
    (hplain : ∀ item ∈ output, itemType item ≠ some "tool_load")
    (hinput : wireInput codec allowImages explicitPromptCache revision additional input =
      .ok before)
    (houtput : wireInput codec allowImages explicitPromptCache revision [] output = .ok later) :
    wireInput codec allowImages explicitPromptCache revision additional (input ++ output) =
      .ok (before ++ later) := by
  obtain ⟨hcheckInput, sent, hwrittenInput⟩ := wireInput_ok_iff.mp hinput
  obtain ⟨hcheckOutput, _, hwrittenOutput⟩ := wireInput_ok_iff.mp houtput
  refine wireInput_ok_iff.mpr ⟨?_, sent, serializeFrom_append hwrittenInput
    (serializeFrom_items hplain hwrittenOutput)⟩
  intro item hitem
  cases List.mem_append.mp hitem with
  | inl hfirst => exact hcheckInput item hfirst
  | inr hlast => exact hcheckOutput item hlast

end Segments

end MobiusAgent.ResponsesWire
