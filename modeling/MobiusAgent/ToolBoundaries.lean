import MobiusAgent.CallPairing
import MobiusAgent.ContextItems

/-!
# The boundaries between tool calls

`tool_complete_boundaries` of `protocol/replay.rs` through the signals of the
items: a boundary is complete if no call before it is open.
-/

namespace MobiusAgent.ToolBoundaries

open JsonValue ContextItems CallPairing

/-- What an item does to the open calls. -/
def itemSignal (index : Nat) (item : Json) : Signal String :=
  if itemType item = some "function_call" then .opens (openCallId index item)
  else if itemType item = some "tool_search_call" then
    if item.getStr "execution" = some "server" then .silent else .opens (openCallId index item)
  else if itemType item = some "function_call_output" ∨ itemType item = some "tool_search_output"
  then (itemCallId item).elim .silent .closes
  else .silent

def signalsFrom (index : Nat) : List Json → List (Signal String)
  | [] => []
  | item :: rest => itemSignal index item :: signalsFrom (index + 1) rest

/-- Every call among the items has a later output. -/
def ToolComplete (items : List Json) : Prop := Answered (signalsFrom 0 items)

/-- Calls and outputs among the items belong together. -/
def ToolPaired (items : List Json) : Prop := Paired (signalsFrom 0 items)

theorem openCallsAfter_signal (index : Nat) (opened : List String) (item : Json) :
    openCallsAfter index opened item = after opened (itemSignal index item) := by
  have hfilter : opened.filter (fun callId => some callId != itemCallId item) =
      after opened ((itemCallId item).elim .silent .closes) := by
    cases hid : itemCallId item with
    | none =>
      refine List.filter_eq_self.mpr ?_
      intro callId _
      rfl
    | some found =>
      change _ = opened.filter (· ≠ found)
      refine List.filter_congr ?_
      intro callId _
      by_cases hsame : callId = found
      · simp [hsame]
      · simp [hsame]
  unfold openCallsAfter itemSignal
  split
  · rename_i hcall
    rw [if_pos hcall]
    rfl
  · rename_i hsearch
    have hcall : ¬ itemType item = some "function_call" := by
      rw [hsearch]
      decide
    by_cases hserver : item.getStr "execution" = some "server"
    · rw [if_pos hserver, if_neg hcall, if_pos hsearch, if_pos hserver]
      rfl
    · rw [if_neg hserver, if_neg hcall, if_pos hsearch, if_neg hserver]
      rfl
  · rename_i houtput
    rw [if_neg (by rw [houtput]; decide), if_neg (by rw [houtput]; decide), if_pos (.inl houtput)]
    exact hfilter
  · rename_i hfound
    rw [if_neg (by rw [hfound]; decide), if_neg (by rw [hfound]; decide), if_pos (.inr hfound)]
    exact hfilter
  · rename_i hcall hsearch houtput hfound
    rw [if_neg hcall, if_neg hsearch, if_neg (not_or.mpr ⟨houtput, hfound⟩)]
    rfl

theorem signalsFrom_append (index : Nat) (first second : List Json) :
    signalsFrom index (first ++ second) =
      signalsFrom index first ++ signalsFrom (index + first.length) second := by
  induction first generalizing index with
  | nil => rfl
  | cons item rest ih =>
    have hindex : index + (rest.length + 1) = index + 1 + rest.length := by omega
    rw [List.cons_append, List.length_cons, hindex]
    exact congrArg (itemSignal index item :: ·) (ih (index + 1))

/-- The boundaries from an index on are the ends of the parts without open calls. -/
theorem mem_boundariesFrom (items : List Json) :
    ∀ (index : Nat) (opened : List String) (boundary : Nat),
      boundary ∈ boundariesFrom index opened items ↔
      ∃ count, 0 < count ∧ count ≤ items.length ∧ boundary = index + count ∧
        openAfter opened (signalsFrom index (items.take count)) = [] := by
  induction items with
  | nil =>
    intro index opened boundary
    constructor
    · intro hmember
      exact absurd hmember List.not_mem_nil
    · rintro ⟨count, hpositive, hbound, _⟩
      rw [List.length_nil] at hbound
      omega
  | cons item rest ih =>
    intro index opened boundary
    have hstep : ∀ count, openAfter opened (signalsFrom index ((item :: rest).take (count + 1))) =
        openAfter (openCallsAfter index opened item) (signalsFrom (index + 1) (rest.take count)) := by
      intro count
      rw [openCallsAfter_signal]
      rfl
    have hlater : boundary ∈ boundariesFrom (index + 1) (openCallsAfter index opened item) rest ↔
        ∃ count, 1 < count ∧ count ≤ (item :: rest).length ∧ boundary = index + count ∧
          openAfter opened (signalsFrom index ((item :: rest).take count)) = [] := by
      rw [ih]
      constructor
      · rintro ⟨count, hpositive, hbound, hboundary, hopen⟩
        refine ⟨count + 1, by omega, ?_, by omega, ?_⟩
        · rw [List.length_cons]
          omega
        · rw [hstep]
          exact hopen
      · rintro ⟨count, hpositive, hbound, hboundary, hopen⟩
        obtain ⟨smaller, rfl⟩ : ∃ smaller, count = smaller + 1 := ⟨count - 1, by omega⟩
        rw [hstep] at hopen
        rw [List.length_cons] at hbound
        exact ⟨smaller, by omega, by omega, by omega, hopen⟩
    have hfirst : openAfter opened (signalsFrom index ((item :: rest).take 1)) =
        openCallsAfter index opened item := hstep 0
    unfold boundariesFrom
    by_cases hempty : (openCallsAfter index opened item).isEmpty = true
    · simp only [hempty, if_true, List.mem_cons, hlater]
      constructor
      · rintro (hhere | ⟨count, hpositive, hrest⟩)
        · refine ⟨1, Nat.one_pos, ?_, hhere, ?_⟩
          · rw [List.length_cons]
            omega
          · rw [hfirst]
            exact List.isEmpty_iff.mp hempty
        · exact ⟨count, by omega, hrest⟩
      · rintro ⟨count, hpositive, hbound, hboundary, hopen⟩
        by_cases hone : count = 1
        · left
          rw [hboundary, hone]
        · right
          exact ⟨count, by omega, hbound, hboundary, hopen⟩
    · simp only [hempty, Bool.false_eq_true, if_false, hlater]
      constructor
      · rintro ⟨count, hpositive, hrest⟩
        exact ⟨count, by omega, hrest⟩
      · rintro ⟨count, hpositive, hbound, hboundary, hopen⟩
        refine ⟨count, ?_, hbound, hboundary, hopen⟩
        by_contra hsmall
        have hone : count = 1 := by omega
        rw [hone, hfirst] at hopen
        rw [hopen] at hempty
        exact hempty rfl

theorem mem_toolCompleteBoundaries {input : List Json} {boundary : Nat} :
    boundary ∈ toolCompleteBoundaries input ↔
      0 < boundary ∧ boundary ≤ input.length ∧
        openAfter [] (signalsFrom 0 (input.take boundary)) = [] := by
  unfold toolCompleteBoundaries
  rw [mem_boundariesFrom]
  constructor
  · rintro ⟨count, hpositive, hbound, hboundary, hopen⟩
    rw [Nat.zero_add] at hboundary
    rw [hboundary]
    exact ⟨hpositive, hbound, hopen⟩
  · rintro ⟨hpositive, hbound, hopen⟩
    exact ⟨boundary, hpositive, hbound, (Nat.zero_add boundary).symm, hopen⟩

theorem boundariesFrom_sorted (items : List Json) :
    ∀ (index : Nat) (opened : List String),
      (boundariesFrom index opened items).Pairwise (· < ·) := by
  induction items with
  | nil =>
    intro index opened
    exact .nil
  | cons item rest ih =>
    intro index opened
    unfold boundariesFrom
    by_cases hempty : (openCallsAfter index opened item).isEmpty = true
    · simp only [hempty, if_true]
      refine List.pairwise_cons.mpr ⟨?_, ih _ _⟩
      intro later hlater
      obtain ⟨count, hpositive, _, hboundary, _⟩ := (mem_boundariesFrom rest _ _ _).mp hlater
      omega
    · simp only [hempty, Bool.false_eq_true, if_false]
      exact ih _ _

def HasIdentity (item : Json) : Prop :=
  itemType item = some "function_call" ∨ itemType item = some "tool_search_call" →
    ∃ callId, itemCallId item = some callId ∧ callId.isEmpty = false

theorem itemSignal_place {item : Json} (h : HasIdentity item) (index : Nat) :
    itemSignal index item = itemSignal 0 item := by
  have hopen : itemType item = some "function_call" ∨ itemType item = some "tool_search_call" →
      openCallId index item = openCallId 0 item := by
    intro hcall
    obtain ⟨callId, hid, hnamed⟩ := h hcall
    unfold openCallId
    rw [hid]
    simp only [hnamed, Bool.false_eq_true, if_false]
  unfold itemSignal
  by_cases hcall : itemType item = some "function_call"
  · rw [if_pos hcall, if_pos hcall, hopen (.inl hcall)]
  · rw [if_neg hcall, if_neg hcall]
    by_cases hsearch : itemType item = some "tool_search_call"
    · rw [if_pos hsearch, if_pos hsearch, hopen (.inr hsearch)]
    · rw [if_neg hsearch, if_neg hsearch]

theorem itemSignal_congr {item other : Json} (htype : itemType other = itemType item)
    (hid : itemCallId other = itemCallId item)
    (hexecution : other.getStr "execution" = item.getStr "execution") :
    itemSignal 0 other = itemSignal 0 item ∧ (HasIdentity item → HasIdentity other) := by
  constructor
  · unfold itemSignal openCallId
    rw [htype, hid, hexecution]
  · unfold HasIdentity
    rw [htype, hid]
    exact id

theorem signalsFrom_identity {items : List Json} (h : ∀ item ∈ items, HasIdentity item) :
    ∀ index, signalsFrom index items = items.map (itemSignal 0) := by
  induction items with
  | nil =>
    intro index
    rfl
  | cons item rest ih =>
    intro index
    have hitem := itemSignal_place (h item List.mem_cons_self) index
    have hrest := ih (fun other hother => h other (List.mem_cons_of_mem _ hother)) (index + 1)
    unfold signalsFrom
    rw [hitem, hrest, List.map_cons]

theorem itemSignal_silent {item : Json} (h : itemType item = none) (index : Nat) :
    itemSignal index item = .silent := by
  unfold itemSignal
  rw [if_neg (by rw [h]; decide), if_neg (by rw [h]; decide), if_neg (by rw [h]; decide)]

end MobiusAgent.ToolBoundaries
