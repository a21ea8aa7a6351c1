import MobiusAgent.CommittedContexts
import MobiusAgent.SessionForks

/-!
# The context of a fork

A fork ends at a message of the transcript before which no call is open. Its
context is the transcript up to that message without references to uploaded
files. Stripping them is done once and for all, keeps every other item, and
changes a message only where it would show nothing.
-/

namespace MobiusAgent.ForkedContexts

open JsonValue Json ProtocolEvents ContextItems CallPairing ToolBoundaries SessionForks
open CommittedContexts (get_remove_self)

section Statements

variable (codec : ForkCodec)

/-- What `serde_json` does with the metadata of messages. -/
structure CodecLaws : Prop where
  /-- A message that was read is read again as it is written, also without its attachments. -/
  message : ∀ metadata message, codec.decodeMessage metadata = some message → ∀ placeholder,
    codec.decodeMessage (codec.encodeMessage (bareMessage placeholder message)) =
      some (bareMessage placeholder message)
  attachments : ∀ metadata message, codec.decodeMessage metadata = some message →
    ∃ list, metadata.get "attachments" = some (.arr list) ∧
      (list = [] ↔ message.attachments = [])

/-- An item is a message of the conversation. -/
def IsMessage (value : Json) : Prop :=
  internalMessageKind value ≠ some contextCompactedMarker ∧
    ((messageMetadata codec value).isSome = true ∨
      (value.getStr "role" = some "assistant" ∧ assistantContent codec value ≠ []))

def IsAttachmentContext (item : Json) : Prop :=
  internalMessageKind item = some attachmentContextMarker

/-- An item refers to no uploaded files. -/
structure NoReferences (item : Json) : Prop where
  field : item.get attachmentsField = none
  context : ¬ IsAttachmentContext item
  message : ∀ message, messageMetadata codec item = some message → message.attachments = []

/-- An item keeps what it is and what it shows. -/
structure Keeps (item result : Json) : Prop where
  fields : ∀ key, key ≠ attachmentsField → key ≠ messageMetadataField → key ≠ "content" →
    result.get key = item.get key
  /-- Its content stays unless it shows nothing without its attachments. -/
  content : needsPlaceholder codec item = false → result.get "content" = item.get "content"
  /-- Its message stays but for its attachments, unless it shows nothing without them. -/
  message : ∀ message, messageMetadata codec item = some message →
    needsPlaceholder codec item = false →
    messageMetadata codec result = some message ∨
      messageMetadata codec result = some { message with attachments := [] }

/-- The items of a context in their order, its contexts of attachments replaced by their images. -/
inductive Stripped : List Json → List Json → Prop
  | nil : Stripped [] []
  | keep {item result : Json} {rest results : List Json} (other : ¬ IsAttachmentContext item)
      (keeps : Keeps codec item result) (tail : Stripped rest results) :
      Stripped (item :: rest) (result :: results)
  | images {item : Json} {rest results images : List Json} (context : IsAttachmentContext item)
      (only : ∀ part ∈ images, isImage part = true)
      (all : needsPlaceholder codec item = false → images = contextImages item)
      (tail : Stripped rest results) :
      Stripped (item :: rest) (inheritedMedia images :: results)
  /-- A context of attachments without images. -/
  | drop {item : Json} {rest results : List Json} (context : IsAttachmentContext item)
      (none : needsPlaceholder codec item = false → contextImages item = [])
      (tail : Stripped rest results) : Stripped (item :: rest) results

end Statements

section Targets

variable {codec : ForkCodec}

theorem replayItem_target (value : Json) (place : Option MessageTarget) (target : MessageTarget) :
    (∃ message, replayItem codec value place = some message ∧ message.target = some target) ↔
      IsMessage codec value ∧ place = some target := by
  unfold IsMessage replayItem
  by_cases hmarker : internalMessageKind value = some contextCompactedMarker
  · simp [hmarker]
  · rw [if_neg hmarker]
    cases hmetadata : messageMetadata codec value with
    | some message => simp [hmarker, ReplayedMessage.target]
    | none =>
      by_cases hrole : value.getStr "role" = some "assistant"
      · by_cases hcontent : assistantContent codec value = []
        · simp [hrole, hcontent]
        · simp [hmarker, hrole, hcontent, ReplayedMessage.target]
      · simp [hrole]

/-- A place is that of a replayed message exactly if a message stands there before which no call
is open. -/
theorem replayFrom_target (complete : List Nat) (target : MessageTarget)
    (context : List (MessageTarget × Json)) :
    ∀ index, ((replayFrom codec complete index context).any fun message =>
        message.target = some target) = true ↔
      ∃ earlier value later, context = earlier ++ (target, value) :: later ∧
        IsMessage codec value ∧ index + earlier.length + 1 ∈ complete := by
  induction context with
  | nil =>
    intro index
    simp [replayFrom]
  | cons head rest ih =>
    obtain ⟨place, value⟩ := head
    intro index
    unfold replayFrom
    rw [List.any_append, Bool.or_eq_true, ih (index + 1)]
    have hhead : ((replayItem codec value
        (if complete.contains (index + 1) then some place else none)).toList.any fun message =>
          message.target = some target) = true ↔
        IsMessage codec value ∧ place = target ∧ index + 1 ∈ complete := by
      have hitem := @replayItem_target codec value
        (if complete.contains (index + 1) then some place else none) target
      rw [List.any_eq_true]
      constructor
      · rintro ⟨message, hmember, htarget⟩
        have hmessage := hitem.mp ⟨message, Option.mem_toList.mp hmember, by simpa using htarget⟩
        refine ⟨hmessage.1, ?_⟩
        by_cases hcomplete : complete.contains (index + 1) = true
        · rw [if_pos hcomplete] at hmessage
          exact ⟨Option.some.inj hmessage.2, by simpa using hcomplete⟩
        · rw [if_neg hcomplete] at hmessage
          cases hmessage.2
      · rintro ⟨hmessage, hplace, hcomplete⟩
        have hcontains : complete.contains (index + 1) = true := by simpa using hcomplete
        obtain ⟨message, hsome, htarget⟩ := hitem.mpr ⟨hmessage, by rw [if_pos hcontains, hplace]⟩
        exact ⟨message, Option.mem_toList.mpr hsome, by simpa using htarget⟩
    rw [hhead]
    constructor
    · rintro (⟨hmessage, hplace, hcomplete⟩ | ⟨earlier, found, later, hsplit, hmessage, hcomplete⟩)
      · exact ⟨[], value, rest, by rw [hplace]; rfl, hmessage, hcomplete⟩
      · refine ⟨(place, value) :: earlier, found, later, by rw [hsplit]; rfl, hmessage, ?_⟩
        have hindex : index + (earlier.length + 1) + 1 = index + 1 + earlier.length + 1 := by omega
        rw [List.length_cons, hindex]
        exact hcomplete
    · rintro ⟨earlier, found, later, hsplit, hmessage, hcomplete⟩
      cases earlier with
      | nil =>
        obtain ⟨hhere, _⟩ := List.cons.inj hsplit
        have hplace : place = target := congrArg Prod.fst hhere
        have hvalue : value = found := congrArg Prod.snd hhere
        rw [hvalue]
        exact .inl ⟨hmessage, hplace, hcomplete⟩
      | cons first earlier =>
        obtain ⟨_, hrest⟩ := List.cons.inj hsplit
        have hindex : index + (earlier.length + 1) + 1 = index + 1 + earlier.length + 1 := by omega
        rw [List.length_cons, hindex] at hcomplete
        exact .inr ⟨earlier, found, later, hrest, hmessage, hcomplete⟩

theorem findIdx?_split {α : Type} {holds : α → Bool} :
    ∀ {items : List α} {index : Nat}, items.findIdx? holds = some index →
      ∃ earlier item later, items = earlier ++ item :: later ∧ earlier.length = index ∧
        holds item = true ∧ ∀ other ∈ earlier, holds other = false := by
  intro items index h
  obtain ⟨hless, hholds, hbefore⟩ := List.findIdx?_eq_some_iff_getElem.mp h
  refine ⟨items.take index, items[index], items.drop (index + 1), ?_, ?_, hholds, ?_⟩
  · rw [List.getElem_cons_drop, List.take_append_drop]
  · rw [List.length_take]
    omega
  · intro other hother
    obtain ⟨place, hplace, hsame⟩ := List.getElem_of_mem hother
    rw [List.length_take] at hplace
    have hnot := hbefore place (by omega)
    rw [List.getElem_take] at hsame
    rw [hsame] at hnot
    exact Bool.eq_false_iff.mpr hnot

/-- A fork is accepted exactly if a message stands at its place, before which no call is open; its
context is what stands up to there. -/
theorem forkPrefix_ok_iff (items : List (MessageTarget × Json)) (target : MessageTarget)
    (context : List Json) :
    forkPrefix codec items target = .ok context ↔
      ∃ earlier item later, items = earlier ++ (target, item) :: later ∧
        (∀ other ∈ earlier, other.1 ≠ target) ∧ IsMessage codec item ∧
        ToolComplete (earlier.map (·.2) ++ [item]) ∧ context = earlier.map (·.2) ++ [item] := by
  have hstart : ∀ earlier item, (∀ other ∈ earlier, other.1 ≠ target) →
      (((replayMessages codec (earlier ++ [(target, item)])).any fun message =>
          message.target = some target) = true ↔
        IsMessage codec item ∧ ToolComplete (earlier.map (·.2) ++ [item])) := by
    intro earlier item hother
    have hvalues : (earlier ++ [(target, item)]).map (·.2) = earlier.map (·.2) ++ [item] := by
      rw [List.map_append]
      rfl
    have hcomplete : 0 + earlier.length + 1 ∈
        toolCompleteBoundaries (earlier.map (·.2) ++ [item]) ↔
        ToolComplete (earlier.map (·.2) ++ [item]) := by
      have hlength : 0 + earlier.length + 1 = (earlier.map (·.2) ++ [item]).length := by
        rw [List.length_append, List.length_map, List.length_singleton, Nat.zero_add]
      rw [mem_toolCompleteBoundaries, hlength, List.take_length, openAfter_nil_iff]
      constructor
      · intro hboth
        exact hboth.2.2
      · intro hanswered
        refine ⟨?_, le_refl _, hanswered⟩
        rw [← hlength]
        omega
    unfold replayMessages
    rw [replayFrom_target, hvalues]
    constructor
    · rintro ⟨front, value, back, hsplit, hmessage, hboundary⟩
      rcases List.append_eq_append_iff.mp hsplit with ⟨middle, hfront, hback⟩ |
          ⟨middle, hfront, hback⟩
      · cases middle with
        | nil =>
          rw [List.append_nil] at hfront
          have hhere := (List.cons.inj hback).1
          have hvalue : item = value := congrArg Prod.snd hhere
          rw [hfront] at hboundary
          rw [hvalue] at hboundary hcomplete ⊢
          exact ⟨hmessage, hcomplete.mp hboundary⟩
        | cons head middle =>
          have hrest := (List.cons.inj hback).2
          simp at hrest
      · cases middle with
        | nil =>
          rw [List.append_nil] at hfront
          have hhere := (List.cons.inj hback).1
          have hvalue : value = item := congrArg Prod.snd hhere
          rw [← hfront] at hboundary
          rw [hvalue] at hmessage
          exact ⟨hmessage, hcomplete.mp hboundary⟩
        | cons head middle =>
          have hhead := (List.cons.inj hback).1
          have hmember : (target, value) ∈ earlier := by
            rw [hfront, hhead]
            exact List.mem_append_cons_self
          exact absurd rfl (hother _ hmember)
    · rintro ⟨hmessage, hanswered⟩
      exact ⟨earlier, item, [], rfl, hmessage, hcomplete.mpr hanswered⟩
  unfold forkPrefix
  constructor
  · intro h
    cases hfound : items.findIdx? fun item => decide (item.1 = target) with
    | none =>
      rw [hfound] at h
      cases h
    | some index =>
      rw [hfound] at h
      obtain ⟨earlier, ⟨place, item⟩, later, hsplit, hlength, hplace, hbefore⟩ :=
        findIdx?_split hfound
      have htarget : place = target := of_decide_eq_true hplace
      have hother : ∀ other ∈ earlier, other.1 ≠ target := by
        intro other hmember
        exact of_decide_eq_false (hbefore other hmember)
      have htake : items.take (index + 1) = earlier ++ [(target, item)] := by
        rw [hsplit, htarget, ← hlength]
        simp [List.take_append]
      simp only [htake] at h
      by_cases hany : ((replayMessages codec (earlier ++ [(target, item)])).any fun message =>
          decide (message.target = some target)) = true
      · rw [if_pos hany] at h
        obtain ⟨hmessage, hcomplete⟩ := (hstart earlier item hother).mp hany
        refine ⟨earlier, item, later, by rw [hsplit, htarget], hother, hmessage, hcomplete, ?_⟩
        rw [← Except.ok.inj h, List.map_append]
        rfl
      · rw [if_neg hany] at h
        cases h
  · rintro ⟨earlier, item, later, hsplit, hother, hmessage, hcomplete, hcontext⟩
    have hfound : items.findIdx? (fun item => decide (item.1 = target)) = some earlier.length := by
      rw [hsplit]
      refine List.findIdx?_eq_some_iff_getElem.mpr ⟨?_, ?_, ?_⟩
      · simp
      · simp
      · intro place hplace
        rw [List.getElem_append_left hplace]
        simpa using hother _ (List.getElem_mem hplace)
    have htake : items.take (earlier.length + 1) = earlier ++ [(target, item)] := by
      rw [hsplit]
      simp [List.take_append]
    rw [hfound]
    simp only [htake]
    rw [if_pos ((hstart earlier item hother).mpr ⟨hmessage, hcomplete⟩), hcontext, List.map_append]
    rfl

end Targets

section Positions

theorem mem_positionsFrom {sequence : Nat} {items : List Json} {place : MessageTarget} :
    ∀ {count : Nat}, place ∈ (positionsFrom sequence count items).map (·.1) →
      place.checkpointSequence = sequence ∧ count ≤ place.batchItemCount := by
  induction items with
  | nil =>
    intro count h
    exact absurd h List.not_mem_nil
  | cons item rest ih =>
    intro count h
    rcases List.mem_cons.mp h with hhere | hrest
    · rw [hhere]
      exact ⟨rfl, le_refl _⟩
    · obtain ⟨hsequence, hcount⟩ := ih hrest
      exact ⟨hsequence, by omega⟩

theorem positionsFrom_nodup (sequence : Nat) (items : List Json) :
    ∀ count, ((positionsFrom sequence count items).map (·.1)).Nodup := by
  induction items with
  | nil =>
    intro count
    exact List.nodup_nil
  | cons item rest ih =>
    intro count
    refine List.nodup_cons.mpr ⟨?_, ih (count + 1)⟩
    intro hmember
    have hcount : count + 1 ≤ count := (mem_positionsFrom hmember).2
    omega

theorem History.places_nodup (history : History) : (history.items.map (·.1)).Nodup := by
  obtain ⟨batches, hincreasing⟩ := history
  unfold History.items
  simp only
  induction batches with
  | nil => exact List.nodup_nil
  | cons batch rest ih =>
    obtain ⟨hfirst, hrest⟩ := List.pairwise_cons.mp hincreasing
    rw [List.flatMap_cons, List.map_append]
    refine List.nodup_append.mpr ⟨positionsFrom_nodup _ _ _, ih hrest, ?_⟩
    intro place hplace other hother hsame
    have hsequence := (mem_positionsFrom hplace).1
    rw [List.map_flatMap] at hother
    obtain ⟨later, hlater, hthere⟩ := List.mem_flatMap.mp hother
    have hlaterSequence := (mem_positionsFrom hthere).1
    have hless := hfirst later hlater
    rw [hsame] at hsequence
    omega

theorem History.place_first {history : History} {target : MessageTarget} {item : Json}
    {earlier later : List (MessageTarget × Json)}
    (h : history.items = earlier ++ (target, item) :: later) :
    ∀ other ∈ earlier, other.1 ≠ target := by
  have hnodup := History.places_nodup history
  rw [h, List.map_append, List.map_cons] at hnodup
  intro other hother hsame
  have hdisjoint := (List.nodup_append.mp hnodup).2.2
  exact hdisjoint other.1 (List.mem_map_of_mem hother) target List.mem_cons_self hsame

end Positions

section Stripping

variable {codec : ForkCodec}

variable {item result : Json} {key : String} {items : List Json}

theorem get_insert_self {held : Json} {other : String} (h : item.get other = some held)
    (key : String) (value : Json) : (item.insert key value).get key = some value := by
  cases item with
  | obj fields => exact lookup_insertField_self key value fields
  | null | bool | number | decimal | str | arr => cases h

theorem remove_absent (h : item.get key = none) : item.remove key = item := by
  cases item with
  | obj fields =>
    have hlookup : Json.lookup key fields = none := h
    have hfilter : fields.filter (fun field => field.1 != key) = fields := by
      refine List.filter_eq_self.mpr ?_
      clear h
      induction fields with
      | nil =>
        intro field hfield
        exact absurd hfield List.not_mem_nil
      | cons head rest ih =>
        obtain ⟨name, value⟩ := head
        unfold Json.lookup at hlookup
        by_cases hname : name = key
        · rw [if_pos hname] at hlookup
          cases hlookup
        · rw [if_neg hname] at hlookup
          intro field hfield
          rcases List.mem_cons.mp hfield with hhere | hrest
          · rw [hhere]
            simpa using hname
          · exact ih hlookup field hrest
    exact congrArg Json.obj hfilter
  | null | bool | number | decimal | str | arr => rfl

/-- An item without its references, before its message is written again. -/
def filled (codec : ForkCodec) (item : Json) : Json :=
  if needsPlaceholder codec item then
    (item.remove attachmentsField).insert "content" placeholderContent
  else item.remove attachmentsField

theorem get_filled (hattachments : key ≠ attachmentsField)
    (hcontent : key ≠ "content" ∨ needsPlaceholder codec item = false) :
    (filled codec item).get key = item.get key := by
  unfold filled
  by_cases hplaceholder : needsPlaceholder codec item = true
  · rw [if_pos hplaceholder]
    rcases hcontent with hkey | hnot
    · rw [get_insert_ne hkey, get_remove_ne hattachments]
    · rw [hplaceholder] at hnot
      cases hnot
  · rw [if_neg hplaceholder, get_remove_ne hattachments]

theorem get_filled_attachments (item : Json) : (filled codec item).get attachmentsField = none := by
  unfold filled
  by_cases hplaceholder : needsPlaceholder codec item = true
  · rw [if_pos hplaceholder, get_insert_ne (by decide), get_remove_self]
  · rw [if_neg hplaceholder, get_remove_self]

theorem messageMetadata_filled (item : Json) :
    messageMetadata codec (filled codec item) = messageMetadata codec item := by
  unfold messageMetadata
  rw [get_filled (by decide) (.inl (by decide))]

theorem stripReferences_refers (h : refersToAttachments item = true) :
    stripReferences codec item =
      match messageMetadata codec item with
      | none => filled codec item
      | some message => (filled codec item).insert messageMetadataField
          (codec.encodeMessage (bareMessage (needsPlaceholder codec item) message)) := by
  unfold stripReferences
  rw [if_pos h, ← messageMetadata_filled item]
  rfl

theorem stripReferences_other (h : refersToAttachments item = false) :
    stripReferences codec item = item := by
  unfold stripReferences
  rw [h]
  rfl

theorem get_stripReferences (hattachments : key ≠ attachmentsField)
    (hmessage : key ≠ messageMetadataField)
    (hcontent : key ≠ "content" ∨ needsPlaceholder codec item = false) :
    (stripReferences codec item).get key = item.get key := by
  by_cases hrefers : refersToAttachments item = true
  · rw [stripReferences_refers hrefers]
    cases messageMetadata codec item with
    | none => exact get_filled hattachments hcontent
    | some message =>
      change ((filled codec item).insert _ _).get key = item.get key
      rw [get_insert_ne hmessage]
      exact get_filled hattachments hcontent
  · rw [stripReferences_other (Bool.eq_false_iff.mpr hrefers)]

theorem get_stripReferences_attachments (item : Json) :
    (stripReferences codec item).get attachmentsField = none := by
  by_cases hrefers : refersToAttachments item = true
  · rw [stripReferences_refers hrefers]
    cases messageMetadata codec item with
    | none => exact get_filled_attachments item
    | some message =>
      change ((filled codec item).insert _ _).get attachmentsField = none
      rw [get_insert_ne (by decide)]
      exact get_filled_attachments item
  · have hother := Bool.eq_false_iff.mpr hrefers
    rw [stripReferences_other hother]
    obtain ⟨hfield, _⟩ := Bool.or_eq_false_iff.mp hother
    exact Option.isSome_eq_false_iff.mp hfield |> Option.isNone_iff_eq_none.mp

theorem messageMetadata_refers (laws : CodecLaws codec) (h : refersToAttachments item = true) :
    messageMetadata codec (stripReferences codec item) =
      (messageMetadata codec item).map (bareMessage (needsPlaceholder codec item)) := by
  rw [stripReferences_refers h]
  cases hmessage : messageMetadata codec item with
  | none =>
    rw [messageMetadata_filled, hmessage]
    rfl
  | some message =>
    obtain ⟨held, hheld, hdecoded⟩ := Option.bind_eq_some_iff.mp
      ((messageMetadata_filled item).trans hmessage)
    change ((((filled codec item).insert _ _).get messageMetadataField).bind _) = _
    rw [get_insert_self hheld]
    exact laws.message held message hdecoded _

theorem attachments_other (laws : CodecLaws codec) {message : MessageEvent}
    (h : listedAttachments item = none ∨ listedAttachments item = some [])
    (hmessage : messageMetadata codec item = some message) : message.attachments = [] := by
  obtain ⟨metadata, hmetadata, hdecoded⟩ := Option.bind_eq_some_iff.mp hmessage
  obtain ⟨list, hlist, hempty⟩ := laws.attachments metadata message hdecoded
  have hlisted : listedAttachments item = some list := by
    unfold listedAttachments
    rw [hmetadata, Option.bind_some, hlist]
    rfl
  rcases h with hnone | hnil
  · rw [hnone] at hlisted
    cases hlisted
  · rw [hnil] at hlisted
    exact hempty.mp (Option.some.inj hlisted).symm

theorem listedAttachments_other (h : refersToAttachments item = false) :
    listedAttachments item = none ∨ listedAttachments item = some [] := by
  obtain ⟨_, hlist⟩ := Bool.or_eq_false_iff.mp h
  cases hlisted : listedAttachments item with
  | none => exact .inl rfl
  | some list =>
    rw [hlisted] at hlist
    right
    cases list with
    | nil => rfl
    | cons first rest => cases hlist

theorem stripReferences_message (laws : CodecLaws codec) {message : MessageEvent}
    (h : messageMetadata codec (stripReferences codec item) = some message) :
    message.attachments = [] := by
  by_cases hrefers : refersToAttachments item = true
  · rw [messageMetadata_refers laws hrefers] at h
    obtain ⟨held, _, hbare⟩ := Option.map_eq_some_iff.mp h
    rw [← hbare]
    rfl
  · have hother := Bool.eq_false_iff.mpr hrefers
    rw [stripReferences_other hother] at h
    exact attachments_other laws (listedAttachments_other hother) h

theorem stripReferences_again (laws : CodecLaws codec) (item : Json) :
    stripReferences codec (stripReferences codec item) = stripReferences codec item := by
  have hfield := @get_stripReferences_attachments codec item
  by_cases hagain : refersToAttachments (stripReferences codec item) = true
  · have hplaceholder : needsPlaceholder codec (stripReferences codec item) = false := by
      unfold needsPlaceholder
      rw [hfield]
      simp
    have hfilled : filled codec (stripReferences codec item) = stripReferences codec item := by
      unfold filled
      rw [hplaceholder]
      exact remove_absent hfield
    rw [stripReferences_refers hagain]
    cases hmessage : messageMetadata codec (stripReferences codec item) with
    | none => exact hfilled
    | some message =>
      obtain ⟨metadata, hmetadata, hdecoded⟩ := Option.bind_eq_some_iff.mp hmessage
      obtain ⟨list, hlist, hempty⟩ := laws.attachments metadata message hdecoded
      have hnil := hempty.mpr (stripReferences_message laws hmessage)
      have hnot : refersToAttachments (stripReferences codec item) = false := by
        unfold refersToAttachments listedAttachments
        rw [hfield, hmetadata, Option.bind_some, hlist, hnil]
        rfl
      rw [hnot] at hagain
      cases hagain
  · exact stripReferences_other (Bool.eq_false_iff.mpr hagain)

theorem stripReferences_keeps (laws : CodecLaws codec) (item : Json) :
    Keeps codec item (stripReferences codec item) := by
  constructor
  · intro key hattachments hmessage hcontent
    exact get_stripReferences hattachments hmessage (.inl hcontent)
  · intro hplaceholder
    exact get_stripReferences (by decide) (by decide) (.inr hplaceholder)
  · intro message hmessage hplaceholder
    by_cases hrefers : refersToAttachments item = true
    · right
      rw [messageMetadata_refers laws hrefers, hmessage, hplaceholder]
      rfl
    · left
      rw [stripReferences_other (Bool.eq_false_iff.mpr hrefers), hmessage]

theorem internalMessageKind_stripReferences (item : Json) :
    internalMessageKind (stripReferences codec item) = internalMessageKind item := by
  unfold internalMessageKind Json.getStr
  rw [get_stripReferences (by decide) (by decide) (.inl (by decide))]

theorem stripContext_cases (h : stripContext (stripReferences codec item) = some result) :
    (¬ IsAttachmentContext item ∧ result = stripReferences codec item) ∨
      (IsAttachmentContext item ∧
        result = inheritedMedia (contextImages (stripReferences codec item))) := by
  unfold stripContext at h
  rw [internalMessageKind_stripReferences] at h
  by_cases hcontext : internalMessageKind item = some attachmentContextMarker
  · rw [if_pos hcontext] at h
    by_cases hnone : contextImages (stripReferences codec item) = []
    · rw [if_pos hnone] at h
      cases h
    · rw [if_neg hnone] at h
      exact .inr ⟨hcontext, (Option.some.inj h).symm⟩
  · rw [if_neg hcontext] at h
    exact .inl ⟨hcontext, (Option.some.inj h).symm⟩

theorem inheritedMedia_kind (images : List Json) :
    ¬ IsAttachmentContext (inheritedMedia images) := by
  have hkind : internalMessageKind (inheritedMedia images) = some "inherited_media" := rfl
  unfold IsAttachmentContext
  rw [hkind]
  decide

theorem inheritedMedia_stripped (images : List Json) :
    stripReferences codec (inheritedMedia images) = inheritedMedia images ∧
      stripContext (inheritedMedia images) = some (inheritedMedia images) := by
  constructor
  · exact stripReferences_other rfl
  · exact if_neg (inheritedMedia_kind images)

theorem contextImages_stripReferences (laws : CodecLaws codec)
    (hshows : needsPlaceholder codec item = false) :
    contextImages (stripReferences codec item) = contextImages item := by
  unfold contextImages
  rw [(stripReferences_keeps laws item).content hshows]

theorem stripped (laws : CodecLaws codec) (items : List Json) :
    Stripped codec items (stripAttachmentReferences codec items) := by
  induction items with
  | nil => exact .nil
  | cons item rest ih =>
    unfold stripAttachmentReferences at ih ⊢
    rw [List.map_cons]
    cases hresult : stripContext (stripReferences codec item) with
    | none =>
      rw [List.filterMap_cons_none hresult]
      unfold stripContext at hresult
      rw [internalMessageKind_stripReferences] at hresult
      by_cases hcontext : internalMessageKind item = some attachmentContextMarker
      · rw [if_pos hcontext] at hresult
        refine .drop hcontext ?_ ih
        intro hshows
        rw [← contextImages_stripReferences laws hshows]
        by_contra hsome
        rw [if_neg hsome] at hresult
        cases hresult
      · rw [if_neg hcontext] at hresult
        cases hresult
    | some result =>
      rw [List.filterMap_cons_some hresult]
      rcases stripContext_cases hresult with ⟨hother, hsame⟩ | ⟨hcontext, hsame⟩
      · rw [hsame]
        exact .keep hother (stripReferences_keeps laws item) ih
      · rw [hsame]
        exact .images hcontext (fun part hpart => (List.mem_filter.mp hpart).2)
          (contextImages_stripReferences laws) ih

theorem strip_mem (laws : CodecLaws codec) (h : result ∈ stripAttachmentReferences codec items) :
    stripReferences codec result = result ∧ stripContext result = some result ∧
      NoReferences codec result := by
  obtain ⟨reduced, hreduced, hresult⟩ := List.mem_filterMap.mp h
  obtain ⟨item, _, hitem⟩ := List.mem_map.mp hreduced
  rw [← hitem] at hresult
  rcases stripContext_cases hresult with ⟨hother, hsame⟩ | ⟨-, hsame⟩
  · have hkind : ¬ IsAttachmentContext (stripReferences codec item) := by
      unfold IsAttachmentContext
      rw [internalMessageKind_stripReferences]
      exact hother
    rw [hsame]
    refine ⟨stripReferences_again laws item, if_neg hkind, ?_⟩
    exact ⟨get_stripReferences_attachments item, hkind, fun message hmessage =>
      stripReferences_message laws hmessage⟩
  · rw [hsame]
    obtain ⟨hreferences, hcontext⟩ :=
      @inheritedMedia_stripped codec (contextImages (stripReferences codec item))
    refine ⟨hreferences, hcontext, rfl, inheritedMedia_kind _, ?_⟩
    intro message hmessage
    cases hmessage

theorem strip_again (laws : CodecLaws codec) (items : List Json) :
    stripAttachmentReferences codec (stripAttachmentReferences codec items) =
      stripAttachmentReferences codec items := by
  have hall : ∀ results : List Json, (∀ result ∈ results, stripReferences codec result = result ∧
      stripContext result = some result) → stripAttachmentReferences codec results = results := by
    intro results
    induction results with
    | nil =>
      intro _
      rfl
    | cons result rest ih =>
      intro hresults
      obtain ⟨hreferences, hcontext⟩ := hresults result List.mem_cons_self
      have hrest := ih fun other hother => hresults other (List.mem_cons_of_mem _ hother)
      unfold stripAttachmentReferences at hrest ⊢
      rw [List.map_cons, hreferences, List.filterMap_cons_some hcontext, hrest]
  refine hall _ ?_
  intro result hresult
  obtain ⟨hreferences, hcontext, _⟩ := strip_mem laws hresult
  exact ⟨hreferences, hcontext⟩

theorem Keeps.signal (h : Keeps codec item result) :
    itemSignal 0 result = itemSignal 0 item ∧ (HasIdentity item → HasIdentity result) := by
  have htype : itemType result = itemType item := by
    unfold itemType Json.getStr
    rw [h.fields "type" (by decide) (by decide) (by decide)]
  have hid : itemCallId result = itemCallId item := by
    unfold itemCallId Json.getStr
    rw [h.fields "call_id" (by decide) (by decide) (by decide)]
  have hexecution : result.getStr "execution" = item.getStr "execution" := by
    unfold Json.getStr
    rw [h.fields "execution" (by decide) (by decide) (by decide)]
  exact itemSignal_congr htype hid hexecution

/-- Stripping keeps the calls and outputs of a context, in their order. -/
theorem Stripped.signals {results : List Json} (h : Stripped codec items results)
    (hcontexts : ∀ item ∈ items, IsAttachmentContext item → itemType item = none) :
    (results.map (itemSignal 0)).filter Signal.loud = (items.map (itemSignal 0)).filter Signal.loud ∧
      ((∀ item ∈ items, HasIdentity item) → ∀ result ∈ results, HasIdentity result) := by
  induction h with
  | nil => exact ⟨rfl, fun hidentity => hidentity⟩
  | @keep item result rest results other keeps tail ih =>
    obtain ⟨hrest, hidentities⟩ := ih fun item hitem => hcontexts item (List.mem_cons_of_mem _ hitem)
    obtain ⟨hsignal, hidentity⟩ := keeps.signal
    constructor
    · rw [List.map_cons, List.map_cons, hsignal, List.filter_cons, List.filter_cons, hrest]
    · intro hall found hfound
      rcases List.mem_cons.mp hfound with hhere | hlater
      · rw [hhere]
        exact hidentity (hall item List.mem_cons_self)
      · exact hidentities (fun other hother => hall other (List.mem_cons_of_mem _ hother)) found
          hlater
  | @images item rest results images context only all tail ih =>
    obtain ⟨hrest, hidentities⟩ := ih fun item hitem => hcontexts item (List.mem_cons_of_mem _ hitem)
    have hsilent := itemSignal_silent (hcontexts item List.mem_cons_self context) 0
    constructor
    · rw [List.map_cons, List.map_cons, hsilent, itemSignal_silent rfl 0,
        List.filter_cons_of_neg (by simp [Signal.loud]),
        List.filter_cons_of_neg (by simp [Signal.loud]), hrest]
    · intro hall found hfound
      rcases List.mem_cons.mp hfound with hhere | hlater
      · rw [hhere]
        rintro (hcall | hsearch)
        · cases hcall
        · cases hsearch
      · exact hidentities (fun other hother => hall other (List.mem_cons_of_mem _ hother)) found
          hlater
  | @drop item rest results context none tail ih =>
    obtain ⟨hrest, hidentities⟩ := ih fun item hitem => hcontexts item (List.mem_cons_of_mem _ hitem)
    have hsilent := itemSignal_silent (hcontexts item List.mem_cons_self context) 0
    constructor
    · rw [List.map_cons, hsilent, List.filter_cons_of_neg (by simp [Signal.loud]), hrest]
    · intro hall
      exact hidentities fun other hother => hall other (List.mem_cons_of_mem _ hother)

theorem strip_toolComplete (laws : CodecLaws codec) (hidentity : ∀ item ∈ items, HasIdentity item)
    (hcontexts : ∀ item ∈ items, IsAttachmentContext item → itemType item = none)
    (h : ToolComplete items) : ToolComplete (stripAttachmentReferences codec items) := by
  obtain ⟨hsignals, hidentities⟩ := (stripped laws items).signals hcontexts
  unfold ToolComplete at h ⊢
  rw [signalsFrom_identity hidentity, ← openAfter_nil_iff, ← openAfter_loud] at h
  rw [signalsFrom_identity (hidentities hidentity), ← openAfter_nil_iff, ← openAfter_loud, hsignals]
  exact h

end Stripping

section Forks

variable {codec : ForkCodec}

/-- A fork is accepted exactly at a message of the history before which no call is open. The
context is then the transcript up to that message, and tool-complete. Stripping the references to
uploaded files is done once and for all, leaves none, and keeps the items in their order, their
calls and outputs and what they show. -/
theorem fork_context_usable (laws : CodecLaws codec) (history : History) (target : MessageTarget) :
    ((∃ context, forkPrefix codec history.items target = .ok context) ↔
      ∃ earlier item later, history.items = earlier ++ (target, item) :: later ∧
        IsMessage codec item ∧ ToolComplete (earlier.map (·.2) ++ [item])) ∧
    (∀ context, forkPrefix codec history.items target = .ok context →
      ToolComplete context ∧
        ∃ earlier item later, history.items = earlier ++ (target, item) :: later ∧
          context = earlier.map (·.2) ++ [item]) ∧
    ∀ items,
      stripAttachmentReferences codec (stripAttachmentReferences codec items) =
        stripAttachmentReferences codec items ∧
      (∀ item ∈ stripAttachmentReferences codec items, NoReferences codec item) ∧
      Stripped codec items (stripAttachmentReferences codec items) ∧
      ((∀ item ∈ items, HasIdentity item) →
        (∀ item ∈ items, IsAttachmentContext item → itemType item = none) →
        ToolComplete items → ToolComplete (manualForkContext codec items)) := by
  refine ⟨?_, ?_, ?_⟩
  · constructor
    · rintro ⟨context, hcontext⟩
      obtain ⟨earlier, item, later, hsplit, _, hmessage, hcomplete, _⟩ :=
        (forkPrefix_ok_iff _ _ _).mp hcontext
      exact ⟨earlier, item, later, hsplit, hmessage, hcomplete⟩
    · rintro ⟨earlier, item, later, hsplit, hmessage, hcomplete⟩
      refine ⟨_, (forkPrefix_ok_iff _ _ _).mpr
        ⟨earlier, item, later, hsplit, ?_, hmessage, hcomplete, rfl⟩⟩
      exact History.place_first hsplit
  · intro context hcontext
    obtain ⟨earlier, item, later, hsplit, _, _, hcomplete, hsame⟩ :=
      (forkPrefix_ok_iff _ _ _).mp hcontext
    rw [hsame]
    exact ⟨hcomplete, earlier, item, later, hsplit, rfl⟩
  · intro items
    refine ⟨strip_again laws items, ?_, stripped laws items, ?_⟩
    · intro item hitem
      exact (strip_mem laws hitem).2.2
    · intro hidentity hcontexts hcomplete
      exact strip_toolComplete laws hidentity hcontexts hcomplete

def readReference : Json → Option SessionFileReference
  | .obj [("id", .str id), ("media_type", .str mediaType), ("name", .str name),
      ("size", .number size)] => some ⟨id, name, size.toNat, mediaType⟩
  | _ => none

/-- The author of a plain message. -/
def userAuthor : Json := .obj [("type", .str "user")]

/-- The metadata of a plain message of the user. -/
def plainMetadata (attachments : List Json) (text : String) : Json :=
  .obj [("attachments", .arr attachments), ("author", userAuthor), ("delivery", .str "turn"),
    ("message_target", .null), ("reply", .null), ("text", .str text)]

def plainMessage (attachments : List SessionFileReference) (text : String) : MessageEvent :=
  ⟨.user, .turn, text, attachments, none, none⟩

/-- A codec that reads and writes plain messages of the user. -/
def plainCodec : ForkCodec where
  encodeMessage message := plainMetadata [] message.text
  decodeMessage metadata := do
    let list ← (metadata.get "attachments").bind Json.asArray
    let text ← metadata.getStr "text"
    if metadata = plainMetadata list text then
      (list.mapM readReference).map fun attachments => plainMessage attachments text
    else none
  references value := value.asArray.bind fun list => list.mapM readReference
  annotations := Json.asArray

theorem plainCodec_laws : CodecLaws plainCodec := by
  have hread : ∀ metadata message, plainCodec.decodeMessage metadata = some message →
      ∃ list attachments text, metadata.get "attachments" = some (.arr list) ∧
        list.mapM readReference = some attachments ∧ message = plainMessage attachments text := by
    intro metadata message h
    obtain ⟨list, hlist, h⟩ := Option.bind_eq_some_iff.mp h
    obtain ⟨text, _, h⟩ := Option.bind_eq_some_iff.mp h
    split at h
    · rename_i hplain
      obtain ⟨attachments, hattachments, hmessage⟩ := Option.map_eq_some_iff.mp h
      refine ⟨list, attachments, text, ?_, hattachments, hmessage.symm⟩
      rw [hplain]
      rfl
    · cases h
  constructor
  · intro metadata message h placeholder
    obtain ⟨_, attachments, text, _, _, hmessage⟩ := hread metadata message h
    rw [hmessage]
    cases placeholder with
    | true => rfl
    | false => exact if_pos rfl
  · intro metadata message h
    obtain ⟨list, attachments, text, hlist, hattachments, hmessage⟩ := hread metadata message h
    refine ⟨list, hlist, ?_⟩
    rw [hmessage]
    change list = [] ↔ attachments = []
    constructor
    · intro hnil
      rw [hnil] at hattachments
      exact (Option.some.inj hattachments).symm
    · intro hnil
      cases list with
      | nil => rfl
      | cons first rest =>
        rw [List.mapM_cons] at hattachments
        obtain ⟨head, _, hattachments⟩ := Option.bind_eq_some_iff.mp hattachments
        obtain ⟨tail, _, hsame⟩ := Option.bind_eq_some_iff.mp hattachments
        rw [hnil] at hsame
        cases hsame

def userItem (text : String) : Json :=
  (userMessage text).insert messageMetadataField (plainMetadata [] text)

/-- A session that was compacted between two messages. -/
def compactedSession : Recorded :=
  ((⟨[], []⟩ : Recorded).pushContext (userItem "first")).applyCompaction
    [internalUserMessage "handoff_notes" "notes"] |>.pushContext (userItem "second")

def compactedHistory : History where
  batches := [⟨1, [userItem "first"]⟩, ⟨2, [internalUserMessage contextCompactedMarker ""]⟩,
    ⟨3, [userItem "second"]⟩]
  increasing := by decide

/-- A fork of a compacted session. -/
theorem fork_context_usable_compacted :
    ((∃ context, forkPrefix plainCodec compactedHistory.items ⟨3, 1⟩ = .ok context) ↔
      ∃ earlier item later, compactedHistory.items = earlier ++ (⟨3, 1⟩, item) :: later ∧
        IsMessage plainCodec item ∧ ToolComplete (earlier.map (·.2) ++ [item])) ∧
    (∀ context, forkPrefix plainCodec compactedHistory.items ⟨3, 1⟩ = .ok context →
      ToolComplete context ∧
        ∃ earlier item later, compactedHistory.items = earlier ++ (⟨3, 1⟩, item) :: later ∧
          context = earlier.map (·.2) ++ [item]) ∧
    ∀ items,
      stripAttachmentReferences plainCodec (stripAttachmentReferences plainCodec items) =
        stripAttachmentReferences plainCodec items ∧
      (∀ item ∈ stripAttachmentReferences plainCodec items, NoReferences plainCodec item) ∧
      Stripped plainCodec items (stripAttachmentReferences plainCodec items) ∧
      ((∀ item ∈ items, HasIdentity item) →
        (∀ item ∈ items, IsAttachmentContext item → itemType item = none) →
        ToolComplete items → ToolComplete (manualForkContext plainCodec items)) :=
  fork_context_usable plainCodec_laws compactedHistory ⟨3, 1⟩

/-- A picture by the reference to its file. -/
def picture : Json :=
  .obj [("image", .obj [("detail", .str "high"),
      ("file", .obj [("id", .str "screen"), ("media_type", .str "image/png"),
        ("name", .str "screen.png"), ("size", .number 100)]),
      ("height", .number 10), ("width", .number 10)]),
    ("type", .str "input_image")]

def pictureContext : Json :=
  (userMessage "Attached files").insert internalMessageField (.str attachmentContextMarker)
    |>.insert "content" (.arr [.obj [("text", .str "screen.png"), ("type", .str "input_text")],
      picture])

/-- The context of a fork after a compaction is the transcript with its marker, not the model
input, and a context of attachments leaves the references of its pictures. -/
theorem fork_is_not_model_input :
    compactedHistory.items.map (·.2) = compactedSession.transcript ∧
      forkPrefix plainCodec compactedHistory.items ⟨3, 1⟩ = .ok compactedSession.transcript ∧
      compactedSession.transcript ≠ compactedSession.context ∧
      stripAttachmentReferences plainCodec [pictureContext] = [inheritedMedia [picture]] := by
  refine ⟨by rfl, by rfl, ?_, by rfl⟩
  intro hsame
  have hlength := congrArg List.length hsame
  cases hlength

end Forks

end MobiusAgent.ForkedContexts
