import MobiusAgent.CommittedContexts
import MobiusAgent.SharedCells

/-!
# Contexts that share their items

The durable context holds its items behind reference counts, and a request,
a view or an older checkpoint may hold the same ones. Two transformations of
`backend/model/mod.rs` exist both for plain lists and for lists of shared
items: the one that moves the cache breakpoint to the end of the context and
the one that strips provider reasoning. The shared versions read an item to
decide whether to copy it. `shared_contexts_agree` proves that they show what
the plain versions show, and copy no item that stays as it is.
-/

namespace MobiusAgent.SharedContexts

open JsonValue ContextItems CommittedContexts SharedCells

section Values

/-- A value whose objects all hold their fields in key order, as `serde_json` keeps them. -/
inductive KeyOrdered : Json → Prop where
  | null : KeyOrdered .null
  | bool (value : Bool) : KeyOrdered (.bool value)
  | number (value : Int) : KeyOrdered (.number value)
  | decimal (literal : String) : KeyOrdered (.decimal literal)
  | str (value : String) : KeyOrdered (.str value)
  | arr {items : List Json} (hitems : ∀ item ∈ items, KeyOrdered item) : KeyOrdered (.arr items)
  | obj {fields : List (String × Json)} (hordered : OrderedFields fields)
      (hfields : ∀ field ∈ fields, KeyOrdered field.2) : KeyOrdered (.obj fields)

variable {item value : Json} {fields : List (String × Json)} {key : String}

theorem KeyOrdered.ordered (h : KeyOrdered item) : Ordered item := by
  cases h with
  | obj hordered _ =>
    intro fields hfields
    cases hfields
    exact hordered
  | null | bool | number | decimal | str | arr _ => exact fun _ h => nomatch h

theorem mem_of_lookup (h : Json.lookup key fields = some value) : (key, value) ∈ fields := by
  induction fields with
  | nil => cases h
  | cons field rest ih =>
    obtain ⟨name, old⟩ := field
    unfold Json.lookup at h
    by_cases hname : name = key
    · rw [if_pos hname] at h
      cases h
      rw [hname]
      exact List.mem_cons_self
    · rw [if_neg hname] at h
      exact List.mem_cons_of_mem _ (ih h)

theorem KeyOrdered.get (h : KeyOrdered item) (hvalue : item.get key = some value) :
    KeyOrdered value := by
  cases h with
  | obj _ hfields => exact hfields (key, value) (mem_of_lookup hvalue)
  | null | bool | number | decimal | str | arr _ => cases hvalue

theorem KeyOrdered.parts {parts : List Json} (h : KeyOrdered item)
    (hparts : contentParts item = some parts) : ∀ part ∈ parts, KeyOrdered part := by
  obtain ⟨content, hcontent, harray⟩ := Option.bind_eq_some_iff.mp hparts
  cases h.get hcontent with
  | arr hitems =>
    cases harray
    exact hitems
  | null | bool | number | decimal | str | obj _ _ => cases harray

theorem KeyOrdered.insert (h : KeyOrdered item) (key : String) (hvalue : KeyOrdered value) :
    KeyOrdered (item.insert key value) := by
  cases h with
  | @obj fields hordered hfields =>
    refine .obj (hordered.insertField key value) fun field hfield => ?_
    have hsome := lookup_of_mem (hordered.insertField key value) hfield
    by_cases hkey : field.1 = key
    · rw [hkey, Json.lookup_insertField_self] at hsome
      cases hsome
      exact hvalue
    · rw [Json.lookup_insertField_ne hkey] at hsome
      exact hfields (field.1, field.2) (mem_of_lookup hsome)
  | null => exact .null
  | bool value => exact .bool value
  | number value => exact .number value
  | decimal literal => exact .decimal literal
  | str value => exact .str value
  | arr hitems => exact .arr hitems

theorem KeyOrdered.remove (h : KeyOrdered item) (key : String) : KeyOrdered (item.remove key) := by
  cases h with
  | obj hordered hfields =>
    exact .obj (List.Pairwise.filter _ hordered) fun field hfield =>
      hfields field (List.mem_filter.mp hfield).1
  | null => exact .null
  | bool value => exact .bool value
  | number value => exact .number value
  | decimal literal => exact .decimal literal
  | str value => exact .str value
  | arr hitems => exact .arr hitems

theorem ne_of_lookup_none (h : Json.lookup key fields = none) :
    ∀ field ∈ fields, field.1 ≠ key := by
  induction fields with
  | nil => exact fun _ hmem => nomatch hmem
  | cons field rest ih =>
    obtain ⟨name, old⟩ := field
    unfold Json.lookup at h
    by_cases hname : name = key
    · rw [if_pos hname] at h
      cases h
    · rw [if_neg hname] at h
      intro other hmem
      cases List.mem_cons.mp hmem with
      | inl hfirst => rw [hfirst]; exact hname
      | inr hrest => exact ih h other hrest

theorem remove_of_get_none (h : item.get key = none) : item.remove key = item := by
  cases item with
  | obj fields =>
    have hall := ne_of_lookup_none h
    have hkeep : fields.filter (fun field => field.1 != key) = fields :=
      List.filter_eq_self.mpr fun field hmem => by simpa using hall field hmem
    exact congrArg Json.obj hkeep
  | null | bool | number | decimal | str | arr => rfl

theorem insertField_of_lookup (hordered : OrderedFields fields)
    (h : Json.lookup key fields = some value) : Json.insertField key value fields = fields := by
  induction fields with
  | nil => cases h
  | cons field rest ih =>
    obtain ⟨name, old⟩ := field
    obtain ⟨hfirst, hrest⟩ := List.pairwise_cons.mp hordered
    unfold Json.lookup at h
    unfold Json.insertField
    by_cases hname : name = key
    · rw [if_pos hname] at h ⊢
      cases h
      rw [hname]
    · rw [if_neg hname] at h ⊢
      have hlater : name < key := hfirst (key, value) (mem_of_lookup h)
      rw [if_neg (not_lt.mpr (le_of_lt hlater)), ih hrest h]

theorem insertField_insertField (key : String) (first second : Json)
    (fields : List (String × Json)) :
    Json.insertField key second (Json.insertField key first fields) =
      Json.insertField key second fields := by
  induction fields with
  | nil => simp [Json.insertField]
  | cons field rest ih =>
    obtain ⟨name, old⟩ := field
    by_cases hname : name = key
    · simp [Json.insertField, hname]
    · by_cases horder : key < name
      · simp [Json.insertField, hname, horder]
      · simp [Json.insertField, hname, horder, ih]

theorem insertField_filter (hordered : OrderedFields fields) (value : Json) :
    Json.insertField key value (fields.filter fun field => field.1 != key) =
      Json.insertField key value fields := by
  induction fields with
  | nil => rfl
  | cons field rest ih =>
    obtain ⟨name, old⟩ := field
    obtain ⟨hfirst, hrest⟩ := List.pairwise_cons.mp hordered
    by_cases hname : name = key
    · subst hname
      have hkeep : rest.filter (fun field => field.1 != name) = rest :=
        List.filter_eq_self.mpr fun field hmem => by simpa using ne_of_gt (hfirst field hmem)
      rw [List.filter_cons_of_neg (by simp), hkeep]
      -- Every later key is above this one, so the write comes first again.
      have hput : Json.insertField name value rest = (name, value) :: rest := by
        cases rest with
        | nil => rfl
        | cons next later =>
          have hlt : name < next.1 := hfirst next List.mem_cons_self
          unfold Json.insertField
          rw [if_neg (ne_of_gt hlt), if_pos hlt]
      rw [hput]
      simp [Json.insertField]
    · rw [List.filter_cons_of_pos (by simpa using hname)]
      unfold Json.insertField
      rw [if_neg hname, if_neg hname, ih hrest]
      by_cases horder : key < name
      · have hkeep : rest.filter (fun field => field.1 != key) = rest :=
          List.filter_eq_self.mpr fun field hmem => by
            simpa using ne_of_gt (lt_trans horder (hfirst field hmem))
        rw [hkeep]
      · rw [if_neg horder, if_neg horder]

theorem insert_clearPart {part : Json} (h : Ordered part) (value : Json) :
    (clearPart part).insert promptCacheBreakpointField value =
      part.insert promptCacheBreakpointField value := by
  cases part with
  | obj fields => exact congrArg Json.obj (insertField_filter (h fields rfl) value)
  | null | bool | number | decimal | str | arr => rfl

theorem insert_insert (item : Json) (key : String) (first second : Json) :
    (item.insert key first).insert key second = item.insert key second := by
  cases item with
  | obj fields => exact congrArg Json.obj (insertField_insertField key first second fields)
  | null | bool | number | decimal | str | arr => rfl

theorem insert_of_get (h : Ordered item) (hvalue : item.get key = some value) :
    item.insert key value = item := by
  cases item with
  | obj fields => exact congrArg Json.obj (insertField_of_lookup (h fields rfl) hvalue)
  | null | bool | number | decimal | str | arr => cases hvalue

theorem setContentParts_twice (item : Json) (first second : List Json) :
    setContentParts (setContentParts item first) second = setContentParts item second := by
  have htype : (setContentParts item first).get "type" = item.get "type" :=
    get_setContentParts (by decide) (by decide) item first
  have hfield := contentField_congr htype
  rw [setContentParts, hfield]
  exact insert_insert item (contentField item) _ _

theorem setContentParts_self (h : Ordered item) {parts : List Json}
    (hparts : contentParts item = some parts) : setContentParts item parts = item := by
  obtain ⟨content, hcontent, harray⟩ := Option.bind_eq_some_iff.mp hparts
  cases content with
  | arr items =>
    cases harray
    exact insert_of_get h hcontent
  | null | bool | number | decimal | str | obj => cases harray

theorem KeyOrdered.setContentParts (h : KeyOrdered item) {parts : List Json}
    (hparts : ∀ part ∈ parts, KeyOrdered part) :
    KeyOrdered (ContextItems.setContentParts item parts) :=
  h.insert _ (.arr hparts)

end Values

section Plain

/-- The second loop of `reset_prompt_cache_breakpoint`, from the last item on: the items
with the first one marked that can be, and whether there is one. -/
def markLatest : List Json → List Json × Bool
  | [] => ([], false)
  | item :: rest =>
    let later := markLatest rest
    if later.2 then (item :: later.1, true)
    else match markPromptCacheBreakpoint item with
      | some marked => (marked :: later.1, true)
      | none => (item :: later.1, false)

/-- `reset_prompt_cache_breakpoint`: every breakpoint is cleared, and the last item that
can be marked is marked. -/
def resetPromptCacheBreakpoint (input : List Json) : List Json :=
  (markLatest (input.map clearBreakpoints)).1

/-- The item that `reset_prompt_cache_breakpoint` marks. -/
def markedItem (input : List Json) : Option Nat :=
  rposition (fun item => (markPromptCacheBreakpoint item).isSome) (input.map clearBreakpoints)

/-- One field of `strip_reasoning_fields`, and whether a field was there so far. -/
def stripField (item : Json × Bool) (field : String) : Json × Bool :=
  (item.1.remove field, item.2 || (item.1.get field).isSome)

/-- `strip_reasoning_fields`, with whether the item changed. -/
def stripReasoningFields (item : Json) : Json × Bool :=
  replayReasoningFields.foldl stripField (item, false)

/-- `strip_provider_reasoning`, with whether the input changed. -/
def stripProviderReasoning : List Json → List Json × Bool
  | [] => ([], false)
  | item :: rest =>
    let later := stripProviderReasoning rest
    if isProviderReasoning item then (later.1, true)
    else
      let stripped := stripReasoningFields item
      (stripped.1 :: later.1, stripped.2 || later.2)

end Plain

section Shared

/-- A context whose items are shared cells. -/
structure SharedContext where
  /-- The cells of this and of every other holder. -/
  cells : Cells Json
  /-- The items of the context, by the addresses of their cells. -/
  items : List Nat
  /-- How many holders each cell has outside the context. -/
  others : Nat → Nat
  allocated : ∀ address ∈ items, address < cells.next
  held : ∀ address, 0 < others address → address < cells.next
  ordered : ∀ address ∈ items, KeyOrdered (cells.value address)

/-- The context that other code sees. -/
def SharedContext.values (context : SharedContext) : List Json :=
  context.items.map context.cells.value

/-- The last part of the last item that can carry a breakpoint. -/
def breakpointEndpoint : List Json → Option (Nat × Nat)
  | [] => none
  | item :: rest =>
    match breakpointEndpoint rest with
    | some place => some (place.1 + 1, place.2)
    | none => ((contentParts item).bind (rposition isMarkable)).map fun part => (0, part)

/-- Whether the parts of an item from an index on differ from what the endpoint asks for. -/
def partsChanged (endpoint : Option (Nat × Nat)) (item part : Nat) : List Json → Bool
  | [] => false
  | first :: rest =>
    let marker := first.get promptCacheBreakpointField
    let changed := if endpoint = some (item, part) then marker != some (.bool true)
      else marker.isSome
    changed || partsChanged endpoint item (part + 1) rest

/-- The parts of an item from an index on, with the breakpoint at the endpoint alone. A part
at the endpoint is an object, so that the assignment to its field writes it. -/
def placeParts (endpoint : Option (Nat × Nat)) (item part : Nat) : List Json → List Json
  | [] => []
  | first :: rest =>
    let placed := if endpoint = some (item, part) then
        first.insert promptCacheBreakpointField (.bool true)
      else clearPart first
    placed :: placeParts endpoint item (part + 1) rest

/-- One item in the loop of `reset_shared_prompt_cache_breakpoint`. -/
def resetEdit (endpoint : Option (Nat × Nat)) (index : Nat) (item : Json) : Edit Json × Bool :=
  match contentParts item with
  | none => (.keep, false)
  | some parts =>
    if partsChanged endpoint index 0 parts then
      (.write (setContentParts item (placeParts endpoint index 0 parts)), true)
    else (.keep, false)

/-- One item in the loop of `strip_shared_provider_reasoning`. -/
def stripEdit (_ : Nat) (item : Json) : Edit Json × Bool :=
  if isProviderReasoning item then (.drop, true)
  else if hasProviderReasoning item then
    (.write (stripReasoningFields item).1, (stripReasoningFields item).2)
  else (.keep, false)

end Shared

section Breakpoints

def placeItem (endpoint : Option (Nat × Nat)) (index : Nat) (item : Json) : Json :=
  match contentParts item with
  | none => item
  | some parts => setContentParts item (placeParts endpoint index 0 parts)

def placeItems (endpoint : Option (Nat × Nat)) (index : Nat) : List Json → List Json
  | [] => []
  | item :: rest => placeItem endpoint index item :: placeItems endpoint (index + 1) rest

theorem isMarkable_clearPart (part : Json) : isMarkable (clearPart part) = isMarkable part := by
  unfold isMarkable itemType Json.getStr clearPart
  rw [Json.get_remove_ne (by decide)]

theorem isMarkable_insert (part value : Json) :
    isMarkable (part.insert promptCacheBreakpointField value) = isMarkable part := by
  unfold isMarkable itemType Json.getStr
  rw [Json.get_insert_ne (by decide)]

theorem get_mark {part : Json} (h : isMarkable part = true) (value : Json) :
    (part.insert promptCacheBreakpointField value).get promptCacheBreakpointField =
      some value := by
  cases part with
  | obj fields => exact Json.lookup_insertField_self _ value fields
  | null | bool | number | decimal | str | arr => cases h

theorem map_isMarkable_placeParts (endpoint : Option (Nat × Nat)) (item part : Nat)
    (parts : List Json) :
    (placeParts endpoint item part parts).map isMarkable = parts.map isMarkable := by
  induction parts generalizing part with
  | nil => rfl
  | cons first rest ih =>
    have hfirst : isMarkable (if endpoint = some (item, part) then
        first.insert promptCacheBreakpointField (.bool true) else clearPart first) =
          isMarkable first := by
      by_cases hend : endpoint = some (item, part)
      · rw [if_pos hend]
        exact isMarkable_insert first _
      · rw [if_neg hend]
        exact isMarkable_clearPart first
    simp only [placeParts, List.map_cons, ih, hfirst]

theorem placeParts_clear {endpoint : Option (Nat × Nat)} {item part : Nat} {parts : List Json}
    (h : ∀ index, part ≤ index → index < part + parts.length → endpoint ≠ some (item, index)) :
    placeParts endpoint item part parts = parts.map clearPart := by
  induction parts generalizing part with
  | nil => rfl
  | cons first rest ih =>
    have hfirst : endpoint ≠ some (item, part) := h part (Nat.le_refl _) (by simp)
    have hrest := @ih (part + 1) fun index hle hlt =>
      h index (by omega) (by rw [List.length_cons]; omega)
    simp only [placeParts, if_neg hfirst, List.map_cons, hrest]

theorem rposition_map {α β : Type} {p : α → Bool} {q : β → Bool} {xs : List α} {ys : List β}
    (h : xs.map p = ys.map q) : rposition p xs = rposition q ys := by
  induction xs generalizing ys with
  | nil =>
    cases ys with
    | nil => rfl
    | cons => cases h
  | cons x xs ih =>
    cases ys with
    | nil => cases h
    | cons y ys =>
      rw [List.map_cons, List.map_cons, List.cons.injEq] at h
      unfold rposition
      rw [ih h.2, h.1]

theorem markLast_clear {parts : List Json} (hordered : ∀ part ∈ parts, Ordered part)
    (item part : Nat) :
    markLast id (parts.map clearPart) = (rposition isMarkable parts).map fun last =>
      placeParts (some (item, part + last)) item part parts := by
  induction parts generalizing part with
  | nil => rfl
  | cons first rest ih =>
    have hrest := ih (fun part hmem => hordered part (List.mem_cons_of_mem _ hmem)) (part + 1)
    rw [List.map_cons, markLast, hrest]
    cases hlast : rposition isMarkable rest with
    | some last =>
      have hfirst : some (item, part + (last + 1)) ≠ some (item, part) := by
        simp
      have hshift : part + (last + 1) = part + 1 + last := by omega
      simp only [rposition, hlast, Option.map_some, placeParts, if_neg hfirst, id_eq]
      rw [hshift]
    | none =>
      rw [Option.map_none]
      dsimp only
      rw [isMarkable_clearPart, List.map_id]
      by_cases hmark : isMarkable first
      · have hclear : placeParts (some (item, part)) item (part + 1) rest =
            rest.map clearPart :=
          placeParts_clear fun index hle _ heq => by
            have hindex : part = index := by simpa using heq
            omega
        simp only [rposition, hlast, hmark, if_true, Option.map_some, Nat.add_zero, placeParts,
          hclear, insert_clearPart (hordered first List.mem_cons_self)]
      · simp only [rposition, hlast, hmark, Bool.false_eq_true, if_false, Option.map_none]

theorem contentParts_clearBreakpoints (item : Json) :
    contentParts (clearBreakpoints item) = (contentParts item).map (List.map clearPart) := by
  unfold clearBreakpoints
  cases hparts : contentParts item with
  | none => exact hparts
  | some parts => exact contentParts_set hparts _

theorem markPromptCacheBreakpoint_clear {item : Json} (hordered : KeyOrdered item)
    (index : Nat) :
    markPromptCacheBreakpoint (clearBreakpoints item) =
      ((contentParts item).bind (rposition isMarkable)).map fun last =>
        placeItem (some (index, last)) index item := by
  unfold markPromptCacheBreakpoint
  rw [contentParts_clearBreakpoints]
  cases hparts : contentParts item with
  | none => rfl
  | some parts =>
    rw [Option.map_some, Option.bind_some, Option.bind_some,
      markLast_clear (fun part hmem => (hordered.parts hparts part hmem).ordered) index 0]
    cases rposition isMarkable parts with
    | none => rfl
    | some last =>
      simp only [Option.map_some, placeItem, clearBreakpoints, hparts, Nat.zero_add,
        setContentParts_twice]

theorem placeItem_clear (endpoint : Option (Nat × Nat)) {index : Nat}
    (h : ∀ part, endpoint ≠ some (index, part)) (item : Json) :
    placeItem endpoint index item = clearBreakpoints item := by
  unfold placeItem clearBreakpoints
  cases contentParts item with
  | none => rfl
  | some parts =>
    dsimp only
    rw [placeParts_clear fun part _ _ => h part]

theorem placeItems_shift (item part index : Nat) (input : List Json) :
    placeItems (some (item + 1, part)) (index + 1) input =
      placeItems (some (item, part)) index input := by
  have hparts : ∀ (index from_ : Nat) (parts : List Json),
      placeParts (some (item + 1, part)) (index + 1) from_ parts =
        placeParts (some (item, part)) index from_ parts := by
    intro index from_ parts
    induction parts generalizing from_ with
    | nil => rfl
    | cons first rest ih => simp only [placeParts, ih, Option.some.injEq, Prod.mk.injEq,
        Nat.add_right_cancel_iff]
  induction input generalizing index with
  | nil => rfl
  | cons first rest ih =>
    simp only [placeItems, ih, placeItem, hparts]

theorem placeItems_clear (endpoint : Option (Nat × Nat)) {index : Nat}
    (h : ∀ item part, index ≤ item → endpoint ≠ some (item, part)) (input : List Json) :
    placeItems endpoint index input = input.map clearBreakpoints := by
  induction input generalizing index with
  | nil => rfl
  | cons first rest ih =>
    have hrest := @ih (index + 1) fun item part hle => h item part (by omega)
    rw [placeItems, List.map_cons, hrest, placeItem_clear _ fun part => h index part (le_refl _)]

theorem markLatest_clear {input : List Json} (hordered : ∀ item ∈ input, KeyOrdered item) :
    markLatest (input.map clearBreakpoints) =
      (placeItems (breakpointEndpoint input) 0 input, (breakpointEndpoint input).isSome) := by
  induction input with
  | nil => rfl
  | cons item rest ih =>
    have hlater := ih fun other hmem => hordered other (List.mem_cons_of_mem _ hmem)
    rw [List.map_cons, markLatest, hlater, breakpointEndpoint]
    cases hend : breakpointEndpoint rest with
    | some place =>
      obtain ⟨last, part⟩ := place
      have haway : ∀ other, some (last + 1, part) ≠ some (0, other) := fun other => by simp
      simp only [Option.isSome_some, if_true, placeItems, placeItem_clear _ haway,
        placeItems_shift last part 0 rest]
    | none =>
      have hclear : placeItems none 0 rest = rest.map clearBreakpoints :=
        placeItems_clear none (by simp) rest
      rw [markPromptCacheBreakpoint_clear (hordered item List.mem_cons_self) 0, hclear]
      cases hlast : (contentParts item).bind (rposition isMarkable) with
      | some part =>
        have haway : ∀ index other, 0 + 1 ≤ index → some (0, part) ≠ some (index, other) := by
          intro index other hle heq
          have hindex : 0 = index ∧ part = other := by simpa using heq
          omega
        simp only [Option.isSome_none, Bool.false_eq_true, if_false, Option.map_some,
          Option.isSome_some, placeItems, placeItems_clear _ haway]
      | none =>
        simp only [Option.isSome_none, Bool.false_eq_true, if_false, Option.map_none, placeItems,
          placeItem_clear none (by simp),
          placeItems_clear none (by simp)]

end Breakpoints

section Markers

/-- The breakpoint that one part of a context holds. -/
def marker (input : List Json) (item part : Nat) : Option Json :=
  ((input[item]?.bind contentParts).bind fun parts => parts[part]?).bind fun found =>
    found.get promptCacheBreakpointField

theorem resetPromptCacheBreakpoint_eq {input : List Json}
    (hordered : ∀ item ∈ input, KeyOrdered item) :
    resetPromptCacheBreakpoint input = placeItems (breakpointEndpoint input) 0 input := by
  rw [resetPromptCacheBreakpoint, markLatest_clear hordered]

theorem contentParts_placeItem (endpoint : Option (Nat × Nat)) (index : Nat) (item : Json) :
    contentParts (placeItem endpoint index item) =
      (contentParts item).map (placeParts endpoint index 0) := by
  unfold placeItem
  cases hparts : contentParts item with
  | none => exact hparts
  | some parts => exact contentParts_set hparts _

theorem getElem?_placeItems (endpoint : Option (Nat × Nat)) (index item : Nat)
    (input : List Json) :
    (placeItems endpoint index input)[item]? =
      input[item]?.map (placeItem endpoint (index + item)) := by
  induction input generalizing index item with
  | nil => rfl
  | cons first rest ih =>
    cases item with
    | zero => rfl
    | succ item =>
      rw [placeItems, List.getElem?_cons_succ, List.getElem?_cons_succ, ih, Nat.add_right_comm,
        Nat.add_assoc]

theorem getElem?_placeParts (endpoint : Option (Nat × Nat)) (item index part : Nat)
    (parts : List Json) :
    (placeParts endpoint item index parts)[part]? = parts[part]?.map fun found =>
      if endpoint = some (item, index + part) then
        found.insert promptCacheBreakpointField (.bool true)
      else clearPart found := by
  induction parts generalizing index part with
  | nil => rfl
  | cons first rest ih =>
    cases part with
    | zero => rfl
    | succ part =>
      have hshift : index + 1 + part = index + (part + 1) := by omega
      rw [placeParts, List.getElem?_cons_succ, List.getElem?_cons_succ, ih, hshift]

theorem breakpointEndpoint_some {input : List Json} {item part : Nat}
    (h : breakpointEndpoint input = some (item, part)) :
    ∃ parts found, input[item]?.bind contentParts = some parts ∧ parts[part]? = some found ∧
      isMarkable found = true := by
  induction input generalizing item with
  | nil => cases h
  | cons first rest ih =>
    unfold breakpointEndpoint at h
    cases hrest : breakpointEndpoint rest with
    | some place =>
      rw [hrest] at h
      cases h
      exact ih hrest
    | none =>
      rw [hrest] at h
      obtain ⟨last, hlast, hplace⟩ := Option.map_eq_some_iff.mp h
      cases hplace
      obtain ⟨parts, hparts, hposition⟩ := Option.bind_eq_some_iff.mp hlast
      obtain ⟨found, hfound, hmark⟩ := (rposition_some hposition).1
      exact ⟨parts, found, hparts, hfound, hmark⟩

theorem marker_reset {input : List Json} (hordered : ∀ item ∈ input, KeyOrdered item)
    (item part : Nat) :
    marker (resetPromptCacheBreakpoint input) item part =
      if breakpointEndpoint input = some (item, part) then some (.bool true) else none := by
  rw [resetPromptCacheBreakpoint_eq hordered, marker, getElem?_placeItems, Nat.zero_add]
  by_cases hend : breakpointEndpoint input = some (item, part)
  · obtain ⟨parts, found, hparts, hfound, hmark⟩ := breakpointEndpoint_some hend
    obtain ⟨shown, hshown, hcontent⟩ := Option.bind_eq_some_iff.mp hparts
    rw [if_pos hend, hshown, Option.map_some, Option.bind_some, contentParts_placeItem, hcontent,
      Option.map_some, Option.bind_some, getElem?_placeParts, hfound, Option.map_some,
      Option.bind_some, Nat.zero_add, if_pos hend]
    exact get_mark hmark _
  · rw [if_neg hend]
    cases hitem : input[item]? with
    | none => rfl
    | some shown =>
      rw [Option.map_some, Option.bind_some, contentParts_placeItem]
      cases contentParts shown with
      | none => rfl
      | some parts =>
        rw [Option.map_some, Option.bind_some, getElem?_placeParts, Nat.zero_add]
        cases parts[part]? with
        | none => rfl
        | some found =>
          rw [Option.map_some, Option.bind_some, if_neg hend]
          exact get_remove_self found promptCacheBreakpointField

theorem markedItem_eq {input : List Json} (hordered : ∀ item ∈ input, KeyOrdered item) :
    markedItem input = (breakpointEndpoint input).map Prod.fst := by
  unfold markedItem
  induction input with
  | nil => rfl
  | cons item rest ih =>
    have hlater := ih fun other hmem => hordered other (List.mem_cons_of_mem _ hmem)
    rw [List.map_cons, rposition, hlater, breakpointEndpoint,
      markPromptCacheBreakpoint_clear (hordered item List.mem_cons_self) 0]
    cases breakpointEndpoint rest with
    | some place => rfl
    | none =>
      cases (contentParts item).bind (rposition isMarkable) with
      | none | some last => rfl

end Markers

section Unchanged

variable {endpoint : Option (Nat × Nat)} {index : Nat} {item : Json}

variable {part : Nat} {input : List Json}

theorem placeParts_unchanged {parts : List Json} (hordered : ∀ found ∈ parts, Ordered found)
    (h : partsChanged endpoint index part parts = false) :
    placeParts endpoint index part parts = parts := by
  induction parts generalizing part with
  | nil => rfl
  | cons first rest ih =>
    unfold partsChanged at h
    obtain ⟨hfirst, hrest⟩ := Bool.or_eq_false_iff.mp h
    have hlater := ih (fun found hmem => hordered found (List.mem_cons_of_mem _ hmem)) hrest
    unfold placeParts
    rw [hlater]
    by_cases hend : endpoint = some (index, part)
    · rw [if_pos hend] at hfirst ⊢
      have hmarked : first.get promptCacheBreakpointField = some (.bool true) := by
        simpa using hfirst
      rw [insert_of_get (hordered first List.mem_cons_self) hmarked]
    · rw [if_neg hend] at hfirst ⊢
      have hbare : first.get promptCacheBreakpointField = none := by simpa using hfirst
      rw [clearPart, remove_of_get_none hbare]

theorem placeParts_changed {parts : List Json}
    (hmark : ∀ later found, endpoint = some (index, later) → parts[later - part]? = some found →
      part ≤ later → isMarkable found = true) (h : partsChanged endpoint index part parts = true) :
    placeParts endpoint index part parts ≠ parts := by
  induction parts generalizing part with
  | nil => cases h
  | cons first rest ih =>
    unfold partsChanged at h
    unfold placeParts
    intro hsame
    obtain ⟨hfirst, hrest⟩ := List.cons.inj hsame
    cases Bool.or_eq_true_iff.mp h with
    | inl hnow =>
      by_cases hend : endpoint = some (index, part)
      · rw [if_pos hend] at hfirst hnow
        have hfound := get_mark (hmark part first hend (by simp) (Nat.le_refl _)) (.bool true)
        rw [hfirst] at hfound
        rw [hfound] at hnow
        simp at hnow
      · rw [if_neg hend] at hfirst hnow
        have hbare := get_remove_self first promptCacheBreakpointField
        rw [← clearPart, hfirst] at hbare
        rw [hbare] at hnow
        simp at hnow
    | inr hlater =>
      refine ih (fun later found hend hfound hle => ?_) hlater hrest
      have hplace : later - part = (later - (part + 1)) + 1 := by omega
      refine hmark later found hend ?_ (by omega)
      rw [hplace, List.getElem?_cons_succ]
      exact hfound

theorem placeItem_placeItem (endpoint : Option (Nat × Nat)) (index : Nat) (item : Json) :
    placeItem endpoint index (placeItem endpoint index item) = placeItem endpoint index item := by
  have hparts : ∀ (part : Nat) (parts : List Json),
      placeParts endpoint index part (placeParts endpoint index part parts) =
        placeParts endpoint index part parts := by
    intro part parts
    induction parts generalizing part with
    | nil => rfl
    | cons first rest ih =>
      by_cases hend : endpoint = some (index, part)
      · simp only [placeParts, if_pos hend, ih, insert_insert]
      · have hclear : clearPart (clearPart first) = clearPart first :=
          remove_of_get_none (get_remove_self first _)
        simp only [placeParts, if_neg hend, ih, hclear]
  have hcontent := contentParts_placeItem endpoint index item
  rw [placeItem, hcontent]
  unfold placeItem
  cases contentParts item with
  | none => rfl
  | some parts =>
    simp only [Option.map_some, hparts, setContentParts_twice]

theorem breakpointEndpoint_placeItems (endpoint : Option (Nat × Nat)) (index : Nat)
    (input : List Json) :
    breakpointEndpoint (placeItems endpoint index input) = breakpointEndpoint input := by
  induction input generalizing index with
  | nil => rfl
  | cons first rest ih =>
    have hsame : (contentParts (placeItem endpoint index first)).bind (rposition isMarkable) =
        (contentParts first).bind (rposition isMarkable) := by
      rw [contentParts_placeItem]
      cases contentParts first with
      | none => rfl
      | some parts =>
        rw [Option.map_some, Option.bind_some, Option.bind_some]
        exact rposition_map (map_isMarkable_placeParts endpoint index 0 parts)
    rw [placeItems, breakpointEndpoint, breakpointEndpoint, ih, hsame]

theorem KeyOrdered.placeItem (h : KeyOrdered item) (endpoint : Option (Nat × Nat)) (index : Nat) :
    KeyOrdered (SharedContexts.placeItem endpoint index item) := by
  have hparts : ∀ (part : Nat) (parts : List Json), (∀ found ∈ parts, KeyOrdered found) →
      ∀ found ∈ placeParts endpoint index part parts, KeyOrdered found := by
    intro part parts hall found hmem
    obtain ⟨place, hplace⟩ := List.mem_iff_getElem?.mp hmem
    rw [getElem?_placeParts] at hplace
    obtain ⟨old, hold, rfl⟩ := Option.map_eq_some_iff.mp hplace
    have hordered := hall old (List.mem_of_getElem? hold)
    by_cases hend : endpoint = some (index, part + place)
    · rw [if_pos hend]
      exact hordered.insert _ (.bool true)
    · rw [if_neg hend]
      exact hordered.remove _
  unfold SharedContexts.placeItem
  cases hcontent : contentParts item with
  | none => exact h
  | some parts => exact h.setContentParts (hparts 0 parts (h.parts hcontent))

theorem placeItems_ordered (h : ∀ item ∈ input, KeyOrdered item) (endpoint : Option (Nat × Nat))
    (index : Nat) : ∀ item ∈ placeItems endpoint index input, KeyOrdered item := by
  intro item hmem
  obtain ⟨place, hplace⟩ := List.mem_iff_getElem?.mp hmem
  rw [getElem?_placeItems] at hplace
  obtain ⟨old, hold, rfl⟩ := Option.map_eq_some_iff.mp hplace
  exact (h old (List.mem_of_getElem? hold)).placeItem endpoint _

theorem resetPromptCacheBreakpoint_idem (hordered : ∀ item ∈ input, KeyOrdered item) :
    resetPromptCacheBreakpoint (resetPromptCacheBreakpoint input) =
      resetPromptCacheBreakpoint input := by
  rw [resetPromptCacheBreakpoint_eq hordered,
    resetPromptCacheBreakpoint_eq (placeItems_ordered hordered _ 0), breakpointEndpoint_placeItems]
  refine List.ext_getElem? fun place => ?_
  rw [getElem?_placeItems, getElem?_placeItems, Option.map_map]
  refine Option.map_congr fun item _ => ?_
  exact placeItem_placeItem _ _ item

/-- The shared version decides as the plain version changes: an item that stays as it is is
kept, and any other is written. -/
theorem resetEdit_placeItem (hordered : KeyOrdered item)
    (hmark : ∀ parts part found, contentParts item = some parts →
      endpoint = some (index, part) → parts[part]? = some found → isMarkable found = true) :
    (placeItem endpoint index item = item ∧ resetEdit endpoint index item = (.keep, false)) ∨
      placeItem endpoint index item ≠ item ∧
        resetEdit endpoint index item = (.write (placeItem endpoint index item), true) := by
  unfold placeItem resetEdit
  cases hparts : contentParts item with
  | none => exact .inl ⟨rfl, rfl⟩
  | some parts =>
    dsimp only
    cases hchanged : partsChanged endpoint index 0 parts with
    | false =>
      have hsame := placeParts_unchanged
        (fun found hmem => (hordered.parts hparts found hmem).ordered) hchanged
      rw [hsame, setContentParts_self hordered.ordered hparts]
      exact .inl ⟨rfl, rfl⟩
    | true =>
      refine .inr ⟨fun hsame => ?_, rfl⟩
      have hplaced := contentParts_set hparts (placeParts endpoint index 0 parts)
      rw [hsame, hparts] at hplaced
      exact placeParts_changed (fun part found hend hfound _ => hmark parts part found hparts hend
        (by simpa using hfound)) hchanged (Option.some.inj hplaced).symm

theorem applied_resetEdit {start : Nat} (hordered : ∀ item ∈ input, KeyOrdered item)
    (hmark : ∀ place item parts part found, input[place]? = some item →
      contentParts item = some parts → endpoint = some (start + place, part) →
        parts[part]? = some found → isMarkable found = true) :
    (applied (resetEdit endpoint) start input).1 = placeItems endpoint start input := by
  induction input generalizing start with
  | nil => rfl
  | cons first rest ih =>
    have hlater := @ih (start + 1) (fun item hmem => hordered item (List.mem_cons_of_mem _ hmem))
      fun place item parts part found hitem hparts hend =>
        hmark (place + 1) item parts part found (by simpa using hitem) hparts
          (by rw [hend, Nat.add_right_comm, Nat.add_assoc])
    have hfirst := resetEdit_placeItem (hordered first List.mem_cons_self)
      fun parts part found hparts hend => hmark 0 first parts part found (by simp) hparts hend
    rw [Nat.add_zero] at hfirst
    unfold applied placeItems
    cases hfirst with
    | inl hkeep => simp only [hkeep.2, hkeep.1, hlater]
    | inr hwrite => simp only [hwrite.2, hlater]

theorem endpoint_markable {place : Nat} {item found : Json} {parts : List Json}
    (hitem : input[place]? = some item) (hparts : contentParts item = some parts)
    (hend : breakpointEndpoint input = some (place, part)) (hfound : parts[part]? = some found) :
    isMarkable found = true := by
  obtain ⟨shown, marked, hshown, hmarked, hmark⟩ := breakpointEndpoint_some hend
  rw [hitem, Option.bind_some, hparts] at hshown
  cases hshown
  rw [hfound] at hmarked
  cases hmarked
  exact hmark

end Unchanged

section Reasoning

variable {item : Json}

theorem stripField_absent {field : String} (h : item.get field = none) (changed : Bool) :
    stripField (item, changed) field = (item, changed) := by
  rw [stripField, remove_of_get_none h, h, Option.isSome_none, Bool.or_false]

theorem stripFields_absent {fields : List String} (h : ∀ field ∈ fields, item.get field = none)
    (changed : Bool) : fields.foldl stripField (item, changed) = (item, changed) := by
  induction fields with
  | nil => rfl
  | cons field rest ih =>
    rw [List.foldl_cons, stripField_absent (h field List.mem_cons_self)]
    exact ih fun other hmem => h other (List.mem_cons_of_mem _ hmem)

theorem get_stripFields (fields : List String) (item : Json) (changed : Bool) (key : String) :
    (fields.foldl stripField (item, changed)).1.get key =
      if key ∈ fields then none else item.get key := by
  induction fields generalizing item changed with
  | nil => rfl
  | cons field rest ih =>
    rw [List.foldl_cons, stripField, ih]
    by_cases hrest : key ∈ rest
    · rw [if_pos hrest, if_pos (List.mem_cons_of_mem _ hrest)]
    · rw [if_neg hrest]
      by_cases hfield : key = field
      · rw [hfield, if_pos List.mem_cons_self]
        exact get_remove_self item field
      · rw [if_neg (by simp [hfield, hrest])]
        exact Json.get_remove_ne hfield item

theorem KeyOrdered.stripReasoningFields (h : KeyOrdered item) :
    KeyOrdered (SharedContexts.stripReasoningFields item).1 := by
  have hfields : ∀ (fields : List String) (item : Json) (changed : Bool), KeyOrdered item →
      KeyOrdered (fields.foldl stripField (item, changed)).1 := by
    intro fields
    induction fields with
    | nil => exact fun item changed hitem => hitem
    | cons field rest ih =>
      intro item changed hitem
      rw [List.foldl_cons]
      exact ih _ _ (hitem.remove field)
  exact hfields _ item false h

theorem stripReasoningFields_clean (h : hasProviderReasoning item = false) :
    stripReasoningFields item = (item, false) := by
  refine stripFields_absent (fun field hfield => ?_) false
  obtain ⟨-, hany⟩ := Bool.or_eq_false_iff.mp h
  have habsent := List.any_eq_false.mp hany field hfield
  simpa using habsent

theorem hasProviderReasoning_strip (h : isProviderReasoning item = false) :
    hasProviderReasoning (stripReasoningFields item).1 = false := by
  have htype : isProviderReasoning (stripReasoningFields item).1 = isProviderReasoning item := by
    unfold isProviderReasoning itemType Json.getStr stripReasoningFields
    rw [get_stripFields, if_neg (by decide)]
  refine Bool.or_eq_false_iff.mpr ⟨htype.trans h, List.any_eq_false.mpr fun field hfield => ?_⟩
  rw [stripReasoningFields, get_stripFields, if_pos hfield]
  simp

theorem hasProviderReasoning_of_same (h : isProviderReasoning item = false)
    (hsame : (stripReasoningFields item).1 = item) : hasProviderReasoning item = false := by
  have hstripped := hasProviderReasoning_strip h
  rwa [hsame] at hstripped

theorem stripEdit_drop (index : Nat) (item : Json) :
    isProviderReasoning item = true ↔ (stripEdit index item).1 = .drop := by
  unfold stripEdit
  by_cases hreasoning : isProviderReasoning item
  · simp [hreasoning]
  · by_cases hfields : hasProviderReasoning item
    · simp [hreasoning, hfields]
    · simp [hreasoning, hfields]

theorem stripEdit_keep {index : Nat} (h : (stripEdit index item).1 = .keep) :
    hasProviderReasoning item = false := by
  unfold stripEdit at h
  by_cases hreasoning : isProviderReasoning item
  · simp [hreasoning] at h
  · by_cases hfields : hasProviderReasoning item
    · simp [hreasoning, hfields] at h
    · simpa using hfields

theorem stripEdit_write {index : Nat} {value : Json} (h : (stripEdit index item).1 = .write value) :
    isProviderReasoning item = false ∧ hasProviderReasoning item = true ∧
      value = (stripReasoningFields item).1 := by
  unfold stripEdit at h
  by_cases hreasoning : isProviderReasoning item
  · simp [hreasoning] at h
  · by_cases hfields : hasProviderReasoning item
    · rw [if_neg hreasoning, if_pos hfields] at h
      cases h
      exact ⟨by simpa using hreasoning, hfields, rfl⟩
    · simp [hreasoning, hfields] at h

theorem applied_stripEdit (start : Nat) (input : List Json) :
    applied stripEdit start input = stripProviderReasoning input := by
  induction input generalizing start with
  | nil => rfl
  | cons item rest ih =>
    rw [applied, ih, stripProviderReasoning, stripEdit]
    by_cases hreasoning : isProviderReasoning item
    · simp only [hreasoning, if_true, Bool.true_or]
    · by_cases hfields : hasProviderReasoning item
      · simp only [hreasoning, hfields, Bool.false_eq_true, if_false, if_true]
      · have hclean := stripReasoningFields_clean (Bool.eq_false_iff.mpr hfields)
        simp only [hreasoning, hfields, Bool.false_eq_true, if_false, hclean]

theorem stripProviderReasoning_clean (input : List Json) :
    ∀ item ∈ (stripProviderReasoning input).1, hasProviderReasoning item = false := by
  induction input with
  | nil => exact fun _ hmem => nomatch hmem
  | cons first rest ih =>
    unfold stripProviderReasoning
    by_cases hreasoning : isProviderReasoning first
    · rw [if_pos hreasoning]
      exact ih
    · rw [if_neg hreasoning]
      intro item hmem
      cases List.mem_cons.mp hmem with
      | inl hfirst =>
        rw [hfirst]
        exact hasProviderReasoning_strip (Bool.eq_false_iff.mpr hreasoning)
      | inr hlater => exact ih item hlater

theorem stripProviderReasoning_of_clean {input : List Json}
    (h : ∀ item ∈ input, hasProviderReasoning item = false) :
    stripProviderReasoning input = (input, false) := by
  induction input with
  | nil => rfl
  | cons first rest ih =>
    have hfirst := h first List.mem_cons_self
    have htype : isProviderReasoning first = false := (Bool.or_eq_false_iff.mp hfirst).1
    rw [stripProviderReasoning, ih fun item hmem => h item (List.mem_cons_of_mem _ hmem),
      stripReasoningFields_clean hfirst]
    simp only [htype, Bool.false_eq_true, if_false, Bool.or_false]

end Reasoning

section Contexts

theorem SharedContext.ext {context other : SharedContext} (hcells : context.cells = other.cells)
    (hitems : context.items = other.items) (hothers : context.others = other.others) :
    context = other := by
  cases context
  cases other
  cases hcells
  cases hitems
  cases hothers
  rfl

def WritesValues (edit : Nat → Json → Edit Json × Bool) : Prop :=
  ∀ index old value raised, KeyOrdered old → edit index old = (.write value, raised) →
    KeyOrdered value

variable (context : SharedContext) {edit : Nat → Json → Edit Json × Bool}

theorem SharedContext.pass_spec (edit : Nat → Json → Edit Json × Bool) :
    PassSpec context.others edit context.cells [] 0 false context.items
      (pass context.others edit context.cells [] 0 false context.items) :=
  pass_passed context.others edit context.cells [] 0 false context.items
    (fun _ hmem => nomatch hmem) context.allocated

theorem SharedContext.values_ordered : ∀ item ∈ context.values, KeyOrdered item := by
  intro item hmem
  obtain ⟨address, haddress, rfl⟩ := List.mem_map.mp hmem
  exact context.ordered address haddress

theorem SharedContext.pass_items (edit : Nat → Json → Edit Json × Bool) :
    Passed edit context.cells
      (pass context.others edit context.cells [] 0 false context.items).cells 0 context.items
      (pass context.others edit context.cells [] 0 false context.items).slots
      (pass context.others edit context.cells [] 0 false context.items).flag := by
  obtain ⟨slots, raised, hslots, hflag, hpassed⟩ := (context.pass_spec edit).passed
  rw [hslots, hflag, List.nil_append, Bool.false_or]
  exact hpassed

/-- The context after a pass, and whether an edit was flagged. -/
def SharedContext.run (edit : Nat → Json → Edit Json × Bool) (hwrites : WritesValues edit) :
    SharedContext × Bool :=
  let result := pass context.others edit context.cells [] 0 false context.items
  ({ cells := result.cells
     items := result.slots
     others := context.others
     allocated := (context.pass_spec edit).allocated
     held := fun address hheld =>
       Nat.lt_of_lt_of_le (context.held address hheld) (context.pass_spec edit).grows
     ordered := (context.pass_items edit).all context.ordered hwrites }, result.flag)

theorem SharedContext.run_values (hwrites : WritesValues edit) :
    ((context.run edit hwrites).1.values, (context.run edit hwrites).2) =
      applied edit 0 context.values :=
  (context.pass_items edit).values

theorem SharedContext.run_framed (hwrites : WritesValues edit) {address : Nat}
    (hheld : 0 < context.others address) :
    (context.run edit hwrites).1.cells.value address = context.cells.value address :=
  (context.pass_spec edit).framed address (context.held address hheld) (.inl hheld)

theorem SharedContext.run_keep (hwrites : WritesValues edit)
    (hkeep : ∀ place item, context.values[place]? = some item →
      edit place item = (.keep, false)) :
    context.run edit hwrites = (context, false) := by
  have hpass : pass context.others edit context.cells [] 0 false context.items =
      ⟨context.cells, [] ++ context.items, false⟩ :=
    pass_keep [] false fun place address haddress => by
      rw [Nat.zero_add]
      refine hkeep place _ ?_
      rw [SharedContext.values, List.getElem?_map, haddress, Option.map_some]
  have hsame : (context.run edit hwrites).1 = context :=
    SharedContext.ext (congrArg Result.cells hpass) (congrArg Result.slots hpass) rfl
  exact Prod.ext hsame (congrArg Result.flag hpass)

theorem resetEdit_writes (endpoint : Option (Nat × Nat)) : WritesValues (resetEdit endpoint) := by
  intro index old value raised hold h
  unfold resetEdit at h
  cases hparts : contentParts old with
  | none =>
    rw [hparts] at h
    cases h
  | some parts =>
    rw [hparts] at h
    dsimp only at h
    by_cases hchanged : partsChanged endpoint index 0 parts
    · rw [if_pos hchanged] at h
      cases h
      have hplaced := hold.placeItem endpoint index
      rw [placeItem, hparts] at hplaced
      exact hplaced
    · rw [if_neg hchanged] at h
      cases h

theorem resetEdit_stays (endpoint : Option (Nat × Nat)) (index : Nat) (item : Json) :
    (resetEdit endpoint index item).1 ≠ .drop := by
  unfold resetEdit
  cases contentParts item with
  | none => exact nofun
  | some parts =>
    by_cases hchanged : partsChanged endpoint index 0 parts
    · simp [hchanged]
    · simp [hchanged]

theorem stripEdit_writes : WritesValues stripEdit := by
  intro index old value raised hold h
  unfold stripEdit at h
  by_cases hreasoning : isProviderReasoning old
  · rw [if_pos hreasoning] at h
    cases h
  · rw [if_neg hreasoning] at h
    by_cases hfields : hasProviderReasoning old
    · rw [if_pos hfields] at h
      cases h
      exact hold.stripReasoningFields
    · rw [if_neg hfields] at h
      cases h

/-- `reset_shared_prompt_cache_breakpoint`: the endpoint is found first, and then each item
is left or written. -/
def resetSharedPromptCacheBreakpoint : SharedContext :=
  (context.run (resetEdit (breakpointEndpoint context.values)) (resetEdit_writes _)).1

/-- `strip_shared_provider_reasoning`, with whether the input changed. -/
def stripSharedProviderReasoning : SharedContext × Bool :=
  context.run stripEdit stripEdit_writes

end Contexts

section Agreement

/-- What the two versions of the reset have in common. -/
structure ResetAgrees (context : SharedContext) : Prop where
  values : (resetSharedPromptCacheBreakpoint context).values =
    resetPromptCacheBreakpoint context.values
  /-- An item that the plain version leaves as it is keeps its cell. -/
  kept : ∀ index address : Nat, context.items[index]? = some address →
    (resetPromptCacheBreakpoint context.values)[index]? = some (context.cells.value address) →
      (resetSharedPromptCacheBreakpoint context).items[index]? = some address
  framed : ∀ address, 0 < context.others address →
    (resetSharedPromptCacheBreakpoint context).cells.value address = context.cells.value address
  idempotent : resetPromptCacheBreakpoint (resetPromptCacheBreakpoint context.values) =
    resetPromptCacheBreakpoint context.values
  /-- Nor does the shared one, which then keeps every cell. -/
  sharedIdempotent : resetSharedPromptCacheBreakpoint (resetSharedPromptCacheBreakpoint context) =
    resetSharedPromptCacheBreakpoint context
  single : ∀ item part other place,
    (marker (resetSharedPromptCacheBreakpoint context).values item part).isSome = true →
      (marker (resetSharedPromptCacheBreakpoint context).values other place).isSome = true →
        item = other ∧ part = place
  /-- The item with the breakpoint is the one that the plain version marks. -/
  chosen : ∀ item, markedItem context.values = some item ↔
    ∃ part, marker (resetSharedPromptCacheBreakpoint context).values item part =
      some (.bool true)
  /-- A breakpoint is the value `true`. -/
  marked : ∀ item part value,
    marker (resetSharedPromptCacheBreakpoint context).values item part = some value →
      value = .bool true

/-- What the two versions of the strip have in common. -/
structure StripAgrees (context : SharedContext) : Prop where
  values : (stripSharedProviderReasoning context).1.values =
    (stripProviderReasoning context.values).1
  changed : (stripSharedProviderReasoning context).2 = (stripProviderReasoning context.values).2
  /-- The items left are those that are no reasoning, each stripped, and an item that
  stripping leaves as it is keeps its cell. -/
  kept : List.Forall₂
    (fun address shown => (stripSharedProviderReasoning context).1.cells.value shown =
        (stripReasoningFields (context.cells.value address)).1 ∧
      ((stripReasoningFields (context.cells.value address)).1 = context.cells.value address →
        shown = address))
    (context.items.filter fun address => !isProviderReasoning (context.cells.value address))
    (stripSharedProviderReasoning context).1.items
  framed : ∀ address, 0 < context.others address →
    (stripSharedProviderReasoning context).1.cells.value address = context.cells.value address
  idempotent : stripProviderReasoning (stripProviderReasoning context.values).1 =
    ((stripProviderReasoning context.values).1, false)
  /-- Nor does the shared one, which then keeps every cell. -/
  sharedIdempotent : stripSharedProviderReasoning (stripSharedProviderReasoning context).1 =
    ((stripSharedProviderReasoning context).1, false)

theorem resetShared_values (context : SharedContext) :
    (resetSharedPromptCacheBreakpoint context).values =
      resetPromptCacheBreakpoint context.values := by
  have hrun := context.run_values (resetEdit_writes (breakpointEndpoint context.values))
  have happlied := applied_resetEdit context.values_ordered
    fun place item parts part found hitem hparts hend hfound =>
      endpoint_markable hitem hparts (by rwa [Nat.zero_add] at hend) hfound
  rw [resetPromptCacheBreakpoint_eq context.values_ordered, ← happlied, ← hrun]
  rfl

theorem resetEdit_cases (context : SharedContext) {place : Nat} {item : Json}
    (hitem : context.values[place]? = some item) :
    (placeItem (breakpointEndpoint context.values) place item = item ∧
        resetEdit (breakpointEndpoint context.values) place item = (.keep, false)) ∨
      placeItem (breakpointEndpoint context.values) place item ≠ item ∧
        resetEdit (breakpointEndpoint context.values) place item =
          (.write (placeItem (breakpointEndpoint context.values) place item), true) :=
  resetEdit_placeItem (context.values_ordered item (List.mem_of_getElem? hitem))
    fun _ _ _ hparts hend hfound => endpoint_markable hitem hparts hend hfound

theorem resetShared_agrees (context : SharedContext) : ResetAgrees context := by
  have hvalues := resetShared_values context
  have hordered := context.values_ordered
  have hplaced := resetPromptCacheBreakpoint_eq hordered
  constructor
  case values => exact hvalues
  case kept =>
    intro index address haddress hsame
    have hitem : context.values[index]? = some (context.cells.value address) := by
      rw [SharedContext.values, List.getElem?_map, haddress, Option.map_some]
    rw [hplaced, getElem?_placeItems, hitem, Option.map_some, Nat.zero_add] at hsame
    refine (context.pass_items _).place (fun place item => resetEdit_stays _ place item) haddress ?_
    rw [Nat.zero_add]
    cases resetEdit_cases context hitem with
    | inl hkeep => rw [hkeep.2]
    | inr hwrite => exact absurd (Option.some.inj hsame) hwrite.1
  case framed => exact fun address hheld => context.run_framed _ hheld
  case idempotent => exact resetPromptCacheBreakpoint_idem hordered
  case sharedIdempotent =>
    have hend : breakpointEndpoint (resetSharedPromptCacheBreakpoint context).values =
        breakpointEndpoint context.values := by
      rw [hvalues, hplaced, breakpointEndpoint_placeItems]
    have hkeep : ∀ place item,
        (resetSharedPromptCacheBreakpoint context).values[place]? = some item →
          resetEdit (breakpointEndpoint (resetSharedPromptCacheBreakpoint context).values) place
            item = (.keep, false) := by
      intro place item hitem
      cases resetEdit_cases (resetSharedPromptCacheBreakpoint context) hitem with
      | inl hkeep => exact hkeep.2
      | inr hwrite =>
        rw [hvalues, hplaced, getElem?_placeItems, Nat.zero_add] at hitem
        obtain ⟨old, -, rfl⟩ := Option.map_eq_some_iff.mp hitem
        rw [hend] at hwrite
        exact absurd (placeItem_placeItem _ place old) hwrite.1
    have hrun := (resetSharedPromptCacheBreakpoint context).run_keep (resetEdit_writes _) hkeep
    rw [resetSharedPromptCacheBreakpoint, hrun]
  case single =>
    intro item part other place hfirst hsecond
    rw [hvalues, marker_reset hordered] at hfirst hsecond
    have hthis : breakpointEndpoint context.values = some (item, part) := by
      by_contra hne
      rw [if_neg hne] at hfirst
      cases hfirst
    have hthat : breakpointEndpoint context.values = some (other, place) := by
      by_contra hne
      rw [if_neg hne] at hsecond
      cases hsecond
    rw [hthis] at hthat
    cases hthat
    exact ⟨rfl, rfl⟩
  case chosen =>
    intro item
    rw [markedItem_eq hordered, hvalues]
    constructor
    · intro hmarked
      obtain ⟨place, hend, hitem⟩ := Option.map_eq_some_iff.mp hmarked
      refine ⟨place.2, ?_⟩
      rw [marker_reset hordered, if_pos (by rw [hend, ← hitem])]
    · rintro ⟨part, hmarker⟩
      rw [marker_reset hordered] at hmarker
      by_cases hend : breakpointEndpoint context.values = some (item, part)
      · rw [hend, Option.map_some]
      · rw [if_neg hend] at hmarker
        cases hmarker
  case marked =>
    intro item part value hmarker
    rw [hvalues, marker_reset hordered] at hmarker
    by_cases hend : breakpointEndpoint context.values = some (item, part)
    · rw [if_pos hend] at hmarker
      exact (Option.some.inj hmarker).symm
    · rw [if_neg hend] at hmarker
      cases hmarker

theorem stripShared_agrees (context : SharedContext) : StripAgrees context := by
  have hrun : ((stripSharedProviderReasoning context).1.values,
      (stripSharedProviderReasoning context).2) = stripProviderReasoning context.values := by
    rw [← applied_stripEdit 0]
    exact context.run_values stripEdit_writes
  have hvalues : (stripSharedProviderReasoning context).1.values =
      (stripProviderReasoning context.values).1 := congrArg Prod.fst hrun
  constructor
  case values => exact hvalues
  case changed => exact congrArg Prod.snd hrun
  case kept =>
    refine (context.pass_items stripEdit).paired stripEdit_drop
      (fun index address hkeep hsame => ?_) fun index address shown hwrite => ?_
    · have hclean := stripReasoningFields_clean (stripEdit_keep hkeep)
      exact ⟨hsame.trans (congrArg Prod.fst hclean).symm, fun _ => rfl⟩
    · obtain ⟨hreasoning, hfields, hshown⟩ := stripEdit_write hwrite
      refine ⟨hshown, fun hsame => ?_⟩
      rw [hasProviderReasoning_of_same hreasoning hsame] at hfields
      cases hfields
  case framed => exact fun address hheld => context.run_framed _ hheld
  case idempotent =>
    exact stripProviderReasoning_of_clean (stripProviderReasoning_clean context.values)
  case sharedIdempotent =>
    refine SharedContext.run_keep _ stripEdit_writes fun place item hitem => ?_
    rw [hvalues] at hitem
    have hclean := stripProviderReasoning_clean context.values item (List.mem_of_getElem? hitem)
    have htype : isProviderReasoning item = false := (Bool.or_eq_false_iff.mp hclean).1
    simp only [stripEdit, htype, hclean, Bool.false_eq_true, if_false]

/-- The transformations of shared contexts show what the plain ones show, on every context
and whoever else holds its items, and leave every cell alone that needs no change. -/
theorem shared_contexts_agree (context : SharedContext) :
    ResetAgrees context ∧ StripAgrees context :=
  ⟨resetShared_agrees context, stripShared_agrees context⟩

end Agreement

end MobiusAgent.SharedContexts
