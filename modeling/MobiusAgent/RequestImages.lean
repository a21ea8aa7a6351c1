import MobiusAgent.CommittedContexts

/-!
# The images of a request

Before a request is translated, `hydrate` of `backend/model/media.rs` shows its
images: a model is given their pixels, or a note where it reads none.
`HydratedItem` says what the item shown has in common with the durable one.
The files of a session are a parameter.
-/

namespace MobiusAgent.ProviderRequests

open JsonValue ProtocolEvents CheckpointValidation ContextItems ResponsesWire ProviderMessages
  ModelOutputs CommittedContexts

section Success

variable {α β : Type}

/-- A computation without an error. -/
def Succeeds (result : Except Error α) : Prop := ∃ value, result = .ok value

theorem succeeds_ok (value : α) : Succeeds (.ok value : Except Error α) := ⟨value, rfl⟩

theorem not_succeeds_error (error : Error) : ¬Succeeds (.error error : Except Error α) := by
  rintro ⟨value, hvalue⟩
  cases hvalue

theorem succeeds_bind {first : Except Error α} {second : α → Except Error β} :
    Succeeds (first >>= second) ↔ ∃ value, first = .ok value ∧ Succeeds (second value) := by
  constructor
  · rintro ⟨result, hresult⟩
    obtain ⟨value, hvalue, hsecond⟩ := bind_ok hresult
    exact ⟨value, hvalue, result, hsecond⟩
  · rintro ⟨value, hvalue, result, hresult⟩
    exact ⟨result, except_bind_ok_iff.mpr ⟨value, hvalue, hresult⟩⟩

theorem succeeds_map {first : Except Error α} {change : α → β} :
    Succeeds (first.map change) ↔ Succeeds first := by
  cases first with
  | error error =>
    constructor
    · intro h
      exact absurd h (not_succeeds_error error)
    · intro h
      exact absurd h (not_succeeds_error error)
  | ok value => exact ⟨fun _ => succeeds_ok value, fun _ => succeeds_ok (change value)⟩

theorem succeeds_mapM {items : List α} {step : α → Except Error β} :
    Succeeds (items.mapM step) ↔ ∀ item ∈ items, Succeeds (step item) := by
  induction items with
  | nil => exact ⟨fun _ => by simp, fun _ => ⟨[], rfl⟩⟩
  | cons first rest ih =>
    rw [List.mapM_cons, succeeds_bind]
    constructor
    · rintro ⟨value, hvalue, hrest⟩
      obtain ⟨later, hlater, -⟩ := succeeds_bind.mp hrest
      intro item hitem
      cases List.mem_cons.mp hitem with
      | inl hsame => rw [hsame]; exact ⟨value, hvalue⟩
      | inr hmem => exact ih.mp ⟨later, hlater⟩ item hmem
    · intro h
      obtain ⟨value, hvalue⟩ := h first List.mem_cons_self
      obtain ⟨later, hlater⟩ := ih.mpr fun item hitem => h item (List.mem_cons_of_mem _ hitem)
      exact ⟨value, hvalue, succeeds_bind.mpr ⟨later, hlater, succeeds_ok _⟩⟩

end Success

section Images

/-- What the session files give for an image. -/
structure ImageStore where
  reference : Json → Except Error String
  /-- The part shown for a reference. -/
  pixels : Json → Except Error Json

/-- Where a model reads images. -/
structure Vision where
  images : Bool
  toolImages : Bool

/-- `replace_image`: the replacement keeps the breakpoint. -/
def replaceImage (part replacement : Json) : Json :=
  match part.get promptCacheBreakpointField with
  | some marker => replacement.insert promptCacheBreakpointField marker
  | none => replacement

/-- The note for an image that a model cannot read. -/
def omittedImage (file : String) : Json :=
  .obj [("text", .str ("[Image omitted because the selected model cannot read images here. " ++
    "Session file: " ++ file ++ "]")), ("type", .str "input_text")]

variable (store : ImageStore) (vision : Vision)

/-- The part that stands for a part in a request. -/
def hydratePart (toolResult : Bool) (part : Json) : Except Error Json :=
  if isImagePart part then
    match part.get "image" with
    | none => .error (.provider "image observations require a durable reference" false)
    | some image => do
      let file ← store.reference image
      if !vision.images || (toolResult && !vision.toolImages) then
        .ok (replaceImage part (omittedImage file))
      else (store.pixels image).map (replaceImage part)
  else .ok part

def isToolResult (item : Json) : Bool := itemType item == some "function_call_output"

/-- The item that stands for an item in a request. -/
def hydrateItem (item : Json) : Except Error Json :=
  match contentParts item with
  | none => .ok item
  | some parts =>
    if parts.any isImagePart then
      (parts.mapM (hydratePart store vision (isToolResult item))).map (setContentParts item)
    else .ok item

/-- `hydrate`: the input of a request with its images shown. -/
def hydrate (input : List Json) : Except Error (List Json) := input.mapM (hydrateItem store vision)

/-- A part that a model can be shown for an image: a note, or a supported image. -/
def Shown (part : Json) : Prop :=
  (itemType part = some "input_text" ∧ ∃ text, part.getStr "text" = some text ∧
    text.isEmpty = false) ∨
  (isImagePart part = true ∧ ∃ pixels, imageInput part "" = .ok (some pixels))

/-- The images of a context are in supported formats. -/
def Supported (context : List Json) : Prop :=
  ∀ item ∈ context, ∀ parts, contentParts item = some parts →
    ∀ part ∈ parts, isImagePart part = true →
      ∃ image file shown, part.get "image" = some image ∧ store.reference image = .ok file ∧
        store.pixels image = .ok shown ∧ Shown shown

end Images

section Hydration

variable {store : ImageStore} {vision : Vision}

theorem imageInput_provider {part : Json} {image : Option (String × String)} {provider : String}
    (h : imageInput part provider = .ok image) (other : String) :
    imageInput part other = .ok image := by
  unfold imageInput at h ⊢
  split at h
  · rename_i hkind
    rw [if_pos hkind]
    exact h
  · rename_i hkind
    rw [if_neg hkind]
    split at h
    · cases h
    · cases h
    · rename_i mediaType data _ _
      split at h
      · cases h
      · rename_i hbegins
        dsimp only at h ⊢
        split at h
        · cases h
        · rename_i hsubtype
          rw [if_neg hbegins, if_neg hsubtype]
          exact h

theorem imageInput_image {part : Json} (h : isImagePart part = true) {provider : String}
    {image : Option (String × String)} (himage : imageInput part provider = .ok image) :
    ∃ pixels, image = some pixels := by
  have hkind : ¬itemType part ≠ some "input_image" := by
    unfold isImagePart at h
    simpa using h
  unfold imageInput at himage
  rw [if_neg hkind] at himage
  split at himage
  · cases himage
  · cases himage
  · split at himage
    · cases himage
    · dsimp only at himage
      split at himage
      · cases himage
      · cases himage
        exact ⟨_, rfl⟩

theorem Shown.replace {part replacement : Json} (h : Shown replacement) :
    Shown (replaceImage part replacement) := by
  unfold replaceImage
  split
  · rename_i marker _
    have hget : ∀ key, key ≠ promptCacheBreakpointField →
        (replacement.insert promptCacheBreakpointField marker).getStr key =
          replacement.getStr key := by
      intro key hne
      unfold Json.getStr
      rw [Json.get_insert_ne hne]
    cases h with
    | inl hnote =>
      obtain ⟨hkind, text, htext, hfilled⟩ := hnote
      refine .inl ⟨?_, text, ?_, hfilled⟩
      · unfold itemType at hkind ⊢
        rw [hget _ (by decide)]
        exact hkind
      · rw [hget _ (by decide)]
        exact htext
    | inr himage =>
      obtain ⟨hkind, pixels, hpixels⟩ := himage
      refine .inr ⟨?_, pixels, ?_⟩
      · unfold isImagePart itemType at hkind ⊢
        rw [hget _ (by decide)]
        exact hkind
      · unfold imageInput itemType at hpixels ⊢
        rw [hget _ (by decide), hget _ (by decide), hget _ (by decide)]
        exact hpixels
  · exact h

theorem omittedImage_shown (file : String) : Shown (omittedImage file) := by
  refine .inl ⟨rfl, _, rfl, ?_⟩
  rw [Bool.eq_false_iff]
  intro hempty
  have hlength := congrArg String.length (String.isEmpty_iff.mp hempty)
  simp only [String.length_append, String.length_empty] at hlength
  have hpositive : 0 < "[Image omitted because the selected model cannot read images here. ".length := by
    decide
  omega

/-- What a part of a request says of the part it stands for. -/
structure Hydrated (vision : Vision) (toolResult : Bool) (part shown : Json) : Prop where
  other : isImagePart part = false → shown = part
  image : isImagePart part = true → Shown shown
  note : isImagePart part = true →
    (vision.images = false ∨ (toolResult = true ∧ vision.toolImages = false)) →
      itemType shown = some "input_text"

theorem itemType_replaceImage (part replacement : Json) :
    itemType (replaceImage part replacement) = itemType replacement := by
  unfold replaceImage
  split
  · unfold itemType Json.getStr
    rw [Json.get_insert_ne (by decide)]
  · rfl

theorem hydratePart_ok {toolResult : Bool} {part : Json}
    (h : isImagePart part = true → ∃ image file shown, part.get "image" = some image ∧
      store.reference image = .ok file ∧ store.pixels image = .ok shown ∧ Shown shown) :
    ∃ shown, hydratePart store vision toolResult part = .ok shown ∧
      Hydrated vision toolResult part shown := by
  unfold hydratePart
  by_cases hpart : isImagePart part = true
  · obtain ⟨image, file, shown, himage, hfile, hpixels, hshown⟩ := h hpart
    rw [if_pos hpart, himage]
    dsimp only
    rw [hfile]
    change ∃ result, (if (!vision.images || (toolResult && !vision.toolImages)) = true then
      Except.ok (replaceImage part (omittedImage file))
      else (store.pixels image).map (replaceImage part)) = .ok result ∧ _
    by_cases hblind : (!vision.images || (toolResult && !vision.toolImages)) = true
    · rw [if_pos hblind]
      refine ⟨_, rfl, ?_⟩
      constructor
      · intro hother
        rw [hpart] at hother
        cases hother
      · intro _
        exact (omittedImage_shown file).replace
      · intro _ _
        rw [itemType_replaceImage]
        rfl
    · rw [if_neg hblind, hpixels]
      refine ⟨_, rfl, ?_⟩
      constructor
      · intro hother
        rw [hpart] at hother
        cases hother
      · intro _
        exact hshown.replace
      · intro _ hwhere
        exfalso
        apply hblind
        rcases hwhere with himages | ⟨htool, htools⟩
        · rw [himages]
          rfl
        · rw [htool, htools]
          exact Bool.or_true _
  · rw [if_neg hpart]
    refine ⟨part, rfl, fun _ => rfl, fun himage => absurd himage hpart,
      fun himage => absurd himage hpart⟩

/-- What an item of a request says of the item it stands for. -/
structure HydratedItem (vision : Vision) (item shown : Json) : Prop where
  same : ∀ key, key ≠ "output" → key ≠ "content" → shown.get key = item.get key
  ordered : Ordered item → Ordered shown
  bare : contentParts item = none → shown = item
  parts : ∀ parts, contentParts item = some parts → ∃ later, contentParts shown = some later ∧
    List.Forall₂ (Hydrated vision (isToolResult item)) parts later

theorem hydrated_self {toolResult : Bool} {parts : List Json}
    (h : ∀ part ∈ parts, isImagePart part = false) :
    List.Forall₂ (Hydrated vision toolResult) parts parts := by
  rw [List.forall₂_same]
  intro part hpart
  have hother := h part hpart
  constructor
  · exact fun _ => rfl
  · intro himage
    rw [hother] at himage
    cases himage
  · intro himage
    rw [hother] at himage
    cases himage

theorem hydrateItem_ok {item : Json}
    (h : ∀ parts, contentParts item = some parts → ∀ part ∈ parts, isImagePart part = true →
      ∃ image file shown, part.get "image" = some image ∧ store.reference image = .ok file ∧
        store.pixels image = .ok shown ∧ Shown shown) :
    ∃ shown, hydrateItem store vision item = .ok shown ∧ HydratedItem vision item shown := by
  unfold hydrateItem
  cases hparts : contentParts item with
  | none =>
    refine ⟨item, rfl, fun _ _ _ => rfl, fun hordered => hordered, fun _ => rfl, ?_⟩
    intro parts hsome
    rw [hparts] at hsome
    cases hsome
  | some parts =>
    dsimp only
    by_cases hany : parts.any isImagePart = true
    · rw [if_pos hany]
      have hstep : ∀ part ∈ parts, ∃ shown,
          hydratePart store vision (isToolResult item) part = .ok shown ∧
            Hydrated vision (isToolResult item) part shown :=
        fun part hpart => hydratePart_ok (h parts hparts part hpart)
      obtain ⟨later, hlater⟩ : Succeeds
          (parts.mapM (hydratePart store vision (isToolResult item))) :=
        succeeds_mapM.mpr fun part hpart => by
          obtain ⟨shown, hshown, -⟩ := hstep part hpart
          exact ⟨shown, hshown⟩
      have hall : List.Forall₂ (Hydrated vision (isToolResult item)) parts later := by
        have hpairs := mapM_forall₂ hlater
        rw [List.forall₂_iff_get] at hpairs ⊢
        refine ⟨hpairs.1, fun index hleft hright => ?_⟩
        obtain ⟨shown, hshown, hhydrated⟩ := hstep _ (List.get_mem parts ⟨index, hleft⟩)
        have hsame := hpairs.2 index hleft hright
        rw [hshown] at hsame
        rw [← Except.ok.inj hsame]
        exact hhydrated
      rw [hlater]
      refine ⟨setContentParts item later, rfl, fun key houtput hcontent =>
        get_setContentParts houtput hcontent item later, fun hordered => hordered.insert _ _, ?_, ?_⟩
      · intro hnone
        rw [hparts] at hnone
        cases hnone
      · intro other hother
        obtain rfl := Option.some.inj (hparts.symm.trans hother)
        exact ⟨later, contentParts_set hparts later, hall⟩
    · rw [if_neg hany]
      have hnone := List.any_eq_false.mp (Bool.not_eq_true _ ▸ hany)
      refine ⟨item, rfl, fun _ _ _ => rfl, fun hordered => hordered, fun _ => rfl, ?_⟩
      intro other hother
      obtain rfl := Option.some.inj (hparts.symm.trans hother)
      exact ⟨parts, hparts, hydrated_self fun part hpart => by simpa using hnone part hpart⟩

theorem hydrate_ok {context : List Json} (h : Supported store context) :
    ∃ shown, hydrate store vision context = .ok shown ∧
      List.Forall₂ (HydratedItem vision) context shown := by
  induction context with
  | nil => exact ⟨[], rfl, .nil⟩
  | cons item rest ih =>
    obtain ⟨first, hfirst, hitem⟩ := @hydrateItem_ok _ vision _ (h item List.mem_cons_self)
    obtain ⟨later, hlater, hrest⟩ := ih fun other hother => h other (List.mem_cons_of_mem _ hother)
    refine ⟨first :: later, ?_, .cons hitem hrest⟩
    unfold hydrate at hlater ⊢
    rw [List.mapM_cons]
    exact except_bind_ok_iff.mpr ⟨first, hfirst,
      except_bind_ok_iff.mpr ⟨later, hlater, rfl⟩⟩

end Hydration

section Lists

theorem forall₂_iff {α β : Type} {related : α → β → Prop} {p : α → Prop} {q : β → Prop}
    {first : List α} {second : List β} (h : List.Forall₂ related first second)
    (hiff : ∀ a b, related a b → (q b ↔ p a)) : (∀ b ∈ second, q b) ↔ ∀ a ∈ first, p a := by
  induction h with
  | nil => simp
  | cons hfirst _ ih => rw [List.forall_mem_cons, List.forall_mem_cons, hiff _ _ hfirst, ih]

end Lists

end MobiusAgent.ProviderRequests
