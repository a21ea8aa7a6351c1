import MobiusAgent.CheckedNumbers
import MobiusAgent.DecimalTexts
import MobiusAgent.HookRecords
import MobiusAgent.PatchDocuments

/-!
# Outputs of tools within a budget

`cap_content` and `capped` of `middleware/tools.rs` with their subtractions
checked. Texts are lists of characters, which a cut cannot split, and indices
count bytes. `capping_within_budget` is the result for every content.
-/

namespace MobiusAgent.OutputCapping

open ProtocolEvents (ContentPart)
open PatchDocuments (utf8Length truncateUtf8 cappedMarker)
open HookRecords (utf8ByteSize_ofList)
open CheckedNumbers (minus minus_of_le minus_of_lt)
open DecimalTexts (length_toString_mono toString_bytes)

def ceilCharBoundary : List Char → Nat → Nat
  | [], _ => 0
  | c :: rest, index =>
    if index = 0 then 0 else c.utf8Size + ceilCharBoundary rest (index - c.utf8Size)

/-- `str::get` from an index on. -/
def getFrom : List Char → Nat → Option (List Char)
  | text, 0 => some text
  | [], _ + 1 => none
  | c :: rest, index + 1 =>
    if c.utf8Size ≤ index + 1 then getFrom rest (index + 1 - c.utf8Size) else none

def capped (output : List Char) (limit : Nat) : Option (List Char) :=
  let total := utf8Length output
  if total ≤ limit then some output
  else match minus limit (utf8Length (cappedMarker total total)) with
    | none => some (truncateUtf8 output limit)
    | some budget => do
      let leftBudget := budget / 2
      let rightBudget ← minus budget leftBudget
      let left := truncateUtf8 output leftBudget
      let rightStart := ceilCharBoundary output (← minus total rightBudget)
      let omitted ← minus rightStart (utf8Length left)
      let right := (getFrom output rightStart).getD []
      some (left ++ cappedMarker omitted total ++ right)

/-- `cap_content`, on the parts that are left and the bytes that remain. -/
def capContent : List ContentPart → Nat → Option (List ContentPart)
  | [], _ => some []
  | .text text :: rest, remaining => do
    let kept ← capped text.toList remaining
    (capContent rest (remaining - utf8Length kept)).map (.text (String.ofList kept) :: ·)
  | .image image :: rest, remaining => (capContent rest remaining).map (.image image :: ·)
  | .file file :: rest, remaining => (capContent rest remaining).map (.file file :: ·)

section Cutting

variable {text left right : List Char} {index limit : Nat}

theorem utf8Length_append (left right : List Char) :
    utf8Length (left ++ right) = utf8Length left + utf8Length right := by
  unfold utf8Length
  rw [List.map_append, List.sum_append]

theorem utf8Length_cons (c : Char) (rest : List Char) :
    utf8Length (c :: rest) = c.utf8Size + utf8Length rest := by
  unfold utf8Length
  rw [List.map_cons, List.sum_cons]

theorem eq_nil_of_utf8Length (h : utf8Length text = 0) : text = [] := by
  cases text with
  | nil => rfl
  | cons c rest =>
    have hpos := Char.utf8Size_pos c
    rw [utf8Length_cons] at h
    omega

theorem truncateUtf8_spec (text : List Char) (limit : Nat) :
    truncateUtf8 text limit <+: text ∧ utf8Length (truncateUtf8 text limit) ≤ limit := by
  induction text generalizing limit with
  | nil => exact ⟨List.prefix_refl _, Nat.zero_le _⟩
  | cons c rest ih =>
    rw [truncateUtf8]
    by_cases hfits : c.utf8Size ≤ limit
    · obtain ⟨hfront, hbytes⟩ := ih (limit - c.utf8Size)
      rw [if_pos hfits, utf8Length_cons]
      exact ⟨List.prefix_cons_inj c |>.mpr hfront, by omega⟩
    · rw [if_neg hfits]
      exact ⟨List.nil_prefix, Nat.zero_le _⟩

theorem ceilCharBoundary_spec (h : index ≤ utf8Length text) :
    ∃ front back, text = front ++ back ∧ ceilCharBoundary text index = utf8Length front ∧
      index ≤ utf8Length front := by
  induction text generalizing index with
  | nil => exact ⟨[], [], rfl, rfl, h⟩
  | cons c rest ih =>
    unfold ceilCharBoundary
    by_cases hstart : index = 0
    · rw [if_pos hstart, hstart]
      exact ⟨[], c :: rest, rfl, rfl, Nat.zero_le _⟩
    · rw [utf8Length_cons] at h
      obtain ⟨front, back, hsplit, hbytes, hindex⟩ := @ih (index - c.utf8Size) (by omega)
      rw [if_neg hstart, hbytes]
      refine ⟨c :: front, back, by rw [hsplit]; rfl, (utf8Length_cons c front).symm, ?_⟩
      rw [utf8Length_cons]
      omega

theorem getFrom_append (front back : List Char) :
    getFrom (front ++ back) (utf8Length front) = some back := by
  induction front with
  | nil =>
    show getFrom back 0 = some back
    unfold getFrom
    rfl
  | cons c rest ih =>
    obtain ⟨size, hsize⟩ : ∃ size, utf8Length (c :: rest) = size + 1 := by
      have hpos := Char.utf8Size_pos c
      rw [utf8Length_cons]
      exact ⟨c.utf8Size + utf8Length rest - 1, by omega⟩
    have hrest := utf8Length_cons c rest
    rw [hsize] at hrest ⊢
    rw [List.cons_append, getFrom, if_pos (by omega), hrest, Nat.add_sub_cancel_left]
    exact ih

theorem ends_apart {leftBudget rightBudget : Nat} (h : leftBudget + rightBudget ≤ utf8Length text) :
    ∃ middle right, text = truncateUtf8 text leftBudget ++ middle ++ right ∧
      ceilCharBoundary text (utf8Length text - rightBudget) =
        utf8Length (truncateUtf8 text leftBudget) + utf8Length middle ∧
      getFrom text (ceilCharBoundary text (utf8Length text - rightBudget)) = some right ∧
      utf8Length right ≤ rightBudget := by
  obtain ⟨hleft, hbytes⟩ := truncateUtf8_spec text leftBudget
  obtain ⟨front, right, hsplit, hstart, hindex⟩ :=
    @ceilCharBoundary_spec text (utf8Length text - rightBudget) (Nat.sub_le _ _)
  have htotal : utf8Length text = utf8Length front + utf8Length right := by
    rw [hsplit, utf8Length_append]
  have hfront : ∃ middle, front = truncateUtf8 text leftBudget ++ middle := by
    rcases List.prefix_or_prefix_of_prefix hleft ⟨right, hsplit.symm⟩ with hshort | ⟨more, hmore⟩
    · obtain ⟨middle, hmiddle⟩ := hshort
      exact ⟨middle, hmiddle.symm⟩
    · rw [← hmore, utf8Length_append] at hbytes
      have hnil : more = [] := eq_nil_of_utf8Length (by omega)
      rw [← hmore, hnil]
      exact ⟨[], by rw [List.append_nil, List.append_nil]⟩
  obtain ⟨middle, hmiddle⟩ := hfront
  refine ⟨middle, right, by rw [← hmiddle]; exact hsplit, ?_, ?_, by omega⟩
  · rw [hstart, ← utf8Length_append, ← hmiddle]
  · rw [hstart]
    nth_rewrite 1 [hsplit]
    exact getFrom_append front right

theorem prefix_truncateUtf8 (h : left <+: text) (hbytes : utf8Length left ≤ limit) :
    left <+: truncateUtf8 text limit := by
  obtain ⟨more, rfl⟩ := h
  induction left generalizing limit with
  | nil => exact List.nil_prefix
  | cons c rest ih =>
    rw [utf8Length_cons] at hbytes
    rw [List.cons_append, truncateUtf8, if_pos (by omega)]
    exact (List.prefix_cons_inj c).mpr (ih (by omega))

theorem ceilCharBoundary_le (h : index ≤ utf8Length left) :
    ceilCharBoundary (left ++ right) index ≤ utf8Length left := by
  induction left generalizing index with
  | nil =>
    have hzero : index = 0 := Nat.le_zero.mp h
    rw [hzero, List.nil_append]
    cases right with
    | nil => exact Nat.le_refl _
    | cons c rest => exact Nat.le_refl _
  | cons c rest ih =>
    rw [utf8Length_cons] at h ⊢
    rw [List.cons_append, ceilCharBoundary]
    split
    · exact Nat.zero_le _
    · exact Nat.add_le_add_left (ih (by omega)) _

theorem end_eq {front : List Char} {rightBudget : Nat} (hsplit : text = front ++ right)
    (hstart : ceilCharBoundary text (utf8Length text - rightBudget) = utf8Length front)
    (hbytes : utf8Length right ≤ rightBudget) :
    (truncateUtf8 text.reverse rightBudget).reverse = right := by
  have hreverse : ∀ list : List Char, utf8Length list.reverse = utf8Length list := fun list => by
    unfold utf8Length
    rw [List.map_reverse, List.sum_reverse]
  obtain ⟨⟨others, hothers⟩, hshort⟩ := truncateUtf8_spec text.reverse rightBudget
  have hlonger : right.reverse <+: truncateUtf8 text.reverse rightBudget := by
    refine prefix_truncateUtf8 ⟨front.reverse, ?_⟩ (by rw [hreverse]; exact hbytes)
    rw [hsplit, List.reverse_append]
  obtain ⟨more, hmore⟩ := hlonger
  have hwhole := congrArg List.reverse hothers
  rw [List.reverse_append, List.reverse_reverse] at hwhole
  have hothersBytes := congrArg utf8Length hwhole
  have hmoreBytes := congrArg utf8Length hmore
  have hsplitBytes := congrArg utf8Length hsplit
  rw [utf8Length_append, hreverse] at hothersBytes hmoreBytes
  rw [utf8Length_append] at hsplitBytes
  rw [hreverse] at hothersBytes
  have hboundary := @ceilCharBoundary_le others.reverse
    (truncateUtf8 text.reverse rightBudget).reverse (utf8Length text - rightBudget)
    (by rw [hreverse]; omega)
  rw [hwhole, hstart, hreverse] at hboundary
  have hnil : more = [] := eq_nil_of_utf8Length (by omega)
  rw [← hmore, hnil, List.append_nil, List.reverse_reverse]

theorem marker_mono {omitted larger : Nat} (h : omitted ≤ larger) (total : Nat) :
    utf8Length (cappedMarker omitted total) ≤ utf8Length (cappedMarker larger total) := by
  have hdigits := length_toString_mono h
  have hbytes : ∀ number : Nat, utf8Length (toString number).toList = (toString number).length :=
    toString_bytes
  unfold cappedMarker
  simp only [String.toList_append, utf8Length_append, hbytes]
  omega

end Cutting

/-- A text that leaves room for a marker is cut in the middle, also for the patch tool. -/
theorem capped_middle {text : List Char} {limit : Nat} (hlong : limit < utf8Length text)
    (hmarker : utf8Length (cappedMarker (utf8Length text) (utf8Length text)) ≤ limit) :
    ∃ left middle right, text = left ++ middle ++ right ∧
      capped text limit =
        some (left ++ cappedMarker (utf8Length middle) (utf8Length text) ++ right) ∧
      PatchDocuments.capped text limit =
        left ++ cappedMarker (utf8Length middle) (utf8Length text) ++ right ∧
      utf8Length (left ++ cappedMarker (utf8Length middle) (utf8Length text) ++ right) ≤ limit := by
  unfold capped PatchDocuments.capped
  dsimp only
  rw [if_neg (Nat.not_le.mpr hlong), if_neg (Nat.not_le.mpr hlong), minus_of_le hmarker,
    if_neg (Nat.not_lt.mpr hmarker)]
  generalize hbudget : limit - utf8Length (cappedMarker (utf8Length text) (utf8Length text)) =
    budget
  obtain ⟨middle, right, hsplit, hstart, hright, hbytes⟩ :=
    @ends_apart text (budget / 2) (budget - budget / 2) (by omega)
  have hleft := (truncateUtf8_spec text (budget / 2)).2
  have htotal := congrArg utf8Length hsplit
  rw [utf8Length_append, utf8Length_append] at htotal
  have hshorter := @marker_mono (utf8Length middle) (utf8Length text) (by omega) (utf8Length text)
  have hwithin : budget - budget / 2 ≤ utf8Length text := by omega
  have hsame := end_eq hsplit (by rw [hstart, utf8Length_append]) hbytes
  have hcount : utf8Length text - utf8Length right - utf8Length (truncateUtf8 text (budget / 2)) =
      utf8Length middle := by omega
  refine ⟨_, middle, right, hsplit, ?_, ?_, ?_⟩
  · simp only [minus_of_le (Nat.div_le_self budget 2), minus_of_le hwithin, Option.bind_eq_bind,
      Option.bind_some, hright, Option.getD_some]
    rw [hstart, minus_of_le (Nat.le_add_right _ _), Nat.add_sub_cancel_left, Option.bind_some]
  · rw [hsame, hcount]
  · rw [utf8Length_append, utf8Length_append]
    omega

theorem capped_eq (text : List Char) (limit : Nat) :
    capped text limit = some (PatchDocuments.capped text limit) := by
  by_cases hfits : utf8Length text ≤ limit
  · unfold capped PatchDocuments.capped
    dsimp only
    rw [if_pos hfits, if_pos hfits]
  by_cases hmarker : utf8Length (cappedMarker (utf8Length text) (utf8Length text)) ≤ limit
  · obtain ⟨left, middle, right, -, hchecked, hplain, -⟩ :=
      capped_middle (Nat.lt_of_not_le hfits) hmarker
    rw [hchecked, hplain]
  · unfold capped PatchDocuments.capped
    dsimp only
    rw [if_neg hfits, if_neg hfits, minus_of_lt (Nat.lt_of_not_le hmarker),
      if_pos (Nat.lt_of_not_le hmarker)]

/-- What a capped text owes the text: it fits, and it is the text, a front of it, or its two ends
with a marker that counts the bytes between them. -/
structure Keeps (text : List Char) (limit : Nat) (kept : List Char) : Prop where
  within : utf8Length kept ≤ limit
  whole : utf8Length text ≤ limit → kept = text
  cut : limit < utf8Length text → kept <+: text ∨
    ∃ left middle right, text = left ++ middle ++ right ∧
      kept = left ++ cappedMarker (utf8Length middle) (utf8Length text) ++ right

theorem capped_keeps (text : List Char) (limit : Nat) :
    ∃ kept, capped text limit = some kept ∧ Keeps text limit kept := by
  by_cases hfits : utf8Length text ≤ limit
  · refine ⟨text, ?_, hfits, fun _ => rfl, fun hlong => absurd hfits (Nat.not_le.mpr hlong)⟩
    exact if_pos hfits
  by_cases hmarker : utf8Length (cappedMarker (utf8Length text) (utf8Length text)) ≤ limit
  · obtain ⟨left, middle, right, hsplit, hchecked, -, hbytes⟩ :=
      capped_middle (Nat.lt_of_not_le hfits) hmarker
    exact ⟨_, hchecked, hbytes, fun hshort => absurd hshort hfits,
      fun _ => .inr ⟨left, middle, right, hsplit, rfl⟩⟩
  · obtain ⟨hfront, hbytes⟩ := truncateUtf8_spec text limit
    refine ⟨_, ?_, hbytes, fun hshort => absurd hshort hfits, fun _ => .inl hfront⟩
    unfold capped
    dsimp only
    rw [if_neg hfits, minus_of_lt (Nat.lt_of_not_le hmarker)]

/-- What a part becomes within a budget: a text is capped, and every other part stays. -/
inductive Capped (budget : Nat) : ContentPart → ContentPart → Prop where
  | text {text kept : String} (h : capped text.toList budget = some kept.toList) :
    Capped budget (.text text) (.text kept)
  | image (image : JsonValue.Json) : Capped budget (.image image) (.image image)
  | file (file : ProtocolEvents.SessionFileReference) : Capped budget (.file file) (.file file)

def textBytes : ContentPart → Nat
  | .text text => text.utf8ByteSize
  | .image _ => 0
  | .file _ => 0

def contentBytes (parts : List ContentPart) : Nat := (parts.map textBytes).sum

/-- Every part has the budget that the parts kept before it leave of the limit. -/
structure CappedWithin (limit : Nat) (content kept : List ContentPart) : Prop where
  length : kept.length = content.length
  part : ∀ index part short, content[index]? = some part → kept[index]? = some short →
    Capped (limit - contentBytes (kept.take index)) part short
  within : contentBytes kept ≤ limit

theorem CappedWithin.cons {limit : Nat} {part short : ContentPart}
    {content kept : List ContentPart} (hpart : Capped limit part short)
    (hshort : textBytes short ≤ limit)
    (h : CappedWithin (limit - textBytes short) content kept) :
    CappedWithin limit (part :: content) (short :: kept) := by
  have hcons : ∀ parts, contentBytes (short :: parts) = textBytes short + contentBytes parts :=
    fun parts => by
      unfold contentBytes
      rw [List.map_cons, List.sum_cons]
  refine ⟨by rw [List.length_cons, List.length_cons, h.length], ?_, ?_⟩
  · intro index other kept' hother hkept
    cases index with
    | zero =>
      rw [List.getElem?_cons_zero, Option.some.injEq] at hother hkept
      rw [← hother, ← hkept]
      exact hpart
    | succ index =>
      rw [List.getElem?_cons_succ] at hother hkept
      rw [List.take_succ_cons, hcons, ← Nat.sub_sub]
      exact h.part index other kept' hother hkept
  · have hwithin := h.within
    rw [hcons]
    omega

theorem capContent_keeps (content : List ContentPart) (limit : Nat) :
    ∃ kept, capContent content limit = some kept ∧ CappedWithin limit content kept := by
  induction content generalizing limit with
  | nil =>
    refine ⟨[], rfl, rfl, fun index part short hpart => ?_, Nat.zero_le _⟩
    cases hpart
  | cons part rest ih =>
    cases part with
    | text text =>
      obtain ⟨short, hshort, hkeeps⟩ := capped_keeps text.toList limit
      have hsize : textBytes (.text (String.ofList short)) = utf8Length short :=
        utf8ByteSize_ofList short
      obtain ⟨kept, hkept, hcapped⟩ := ih (limit - utf8Length short)
      have hpart : Capped limit (.text text) (.text (String.ofList short)) :=
        .text (by rw [String.toList_ofList]; exact hshort)
      refine ⟨.text (String.ofList short) :: kept, ?_, .cons hpart ?_ ?_⟩
      · rw [capContent, hshort, Option.bind_eq_bind, Option.bind_some, hkept]
        rfl
      · rw [hsize]
        exact hkeeps.within
      · rw [hsize]
        exact hcapped
    | image image =>
      obtain ⟨kept, hkept, hcapped⟩ := ih limit
      refine ⟨.image image :: kept, ?_, .cons (.image image) (Nat.zero_le _) hcapped⟩
      rw [capContent, hkept, Option.map_some]
    | file file =>
      obtain ⟨kept, hkept, hcapped⟩ := ih limit
      refine ⟨.file file :: kept, ?_, .cons (.file file) (Nat.zero_le _) hcapped⟩
      rw [capContent, hkept, Option.map_some]

/-- Every text is capped within its limit, the same way for the patch tool, every text of a
content within what the texts before it leave, and no subtraction underflows. -/
theorem capping_within_budget :
    (∀ text limit, ∃ kept, capped text limit = some kept ∧
      PatchDocuments.capped text limit = kept ∧ Keeps text limit kept) ∧
      ∀ content limit, ∃ kept, capContent content limit = some kept ∧
        CappedWithin limit content kept := by
  refine ⟨fun text limit => ?_, capContent_keeps⟩
  obtain ⟨kept, hkept, hkeeps⟩ := capped_keeps text limit
  refine ⟨kept, hkept, ?_, hkeeps⟩
  rw [capped_eq, Option.some.injEq] at hkept
  exact hkept

end MobiusAgent.OutputCapping
