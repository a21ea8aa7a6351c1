import Mathlib.Data.Finset.Basic
import Mathlib.Data.Finset.Lattice.Lemmas
import MobiusAgent.JsonValue

/-!
# Receipts of once-only guidance

The functions of `middleware/delivery_once.rs` that the agent applies to the
items it appends to its context. The receipts are the set of delivered
identities, an owner and a key. `Received` is the one fact the callers use:
the receipts after a list of items are those before it and the identities of
the list, none of which was there. `rollback` undoes exactly that.
-/

namespace MobiusAgent.GuidanceReceipts

open JsonValue

/-- Guidance delivered so far, as owner and key. -/
abbrev Receipts := Finset (String × String)

/-- The field that marks an item as once-only guidance. -/
def receiptField : String := "_mobius_delivery_once"

/-- The identity of an item of once-only guidance. -/
def identity (item : Json) : Option (String × String) := do
  let receipt ← item.get receiptField
  let owner ← receipt.getStr "owner"
  let key ← receipt.getStr "key"
  some (owner, key)

/-- `accept`: whether the item enters the context, and the receipts after it. -/
def accept (receipts : Receipts) (item : Json) : Bool × Receipts :=
  match identity item with
  | none => (true, receipts)
  | some guidance =>
    if guidance ∈ receipts then (false, receipts) else (true, insert guidance receipts)

/-- The items `accept` keeps of a list in its order, and the receipts after them. -/
def acceptAll (receipts : Receipts) : List Json → List Json × Receipts
  | [] => ([], receipts)
  | item :: rest =>
    let accepted := accept receipts item
    let later := acceptAll accepted.2 rest
    (if accepted.1 then item :: later.1 else later.1, later.2)

/-- `record`: the receipts with the guidance of a context, and whether any is new. -/
def record (receipts : Receipts) : List Json → Receipts × Bool
  | [] => (receipts, false)
  | item :: rest =>
    let accepted := accept receipts item
    let later := record accepted.2 rest
    (later.1, ((identity item).isSome && accepted.1) || later.2)

/-- `rollback`: the receipts without the guidance of a context suffix. -/
def rollback (receipts : Receipts) : List Json → Receipts
  | [] => receipts
  | item :: rest =>
    match identity item with
    | none => rollback receipts rest
    | some guidance => rollback (receipts.erase guidance) rest

def guidanceOf (items : List Json) : Receipts := (items.filterMap identity).toFinset

/-- The items entered the context between two states of the receipts. -/
structure Received (before : Receipts) (items : List Json) (after : Receipts) : Prop where
  /-- The receipts after are those before and the identities of the items. -/
  union : after = before ∪ guidanceOf items
  fresh : Disjoint before (guidanceOf items)

theorem guidanceOf_append (first second : List Json) :
    guidanceOf (first ++ second) = guidanceOf first ∪ guidanceOf second := by
  simp only [guidanceOf, List.filterMap_append, List.toFinset_append]

theorem guidanceOf_plain {items : List Json} (h : ∀ item ∈ items, identity item = none) :
    guidanceOf items = ∅ := by
  have hnone : items.filterMap identity = [] := List.filterMap_eq_nil_iff.mpr h
  simp only [guidanceOf, hnone, List.toFinset_nil]

theorem Received.plain {items : List Json} (h : ∀ item ∈ items, identity item = none)
    (receipts : Receipts) : Received receipts items receipts := by
  constructor
  · rw [guidanceOf_plain h, Finset.union_empty]
  · rw [guidanceOf_plain h]
    exact Finset.disjoint_empty_right _

theorem Received.append {before middle after : Receipts} {first second : List Json}
    (hfirst : Received before first middle) (hsecond : Received middle second after) :
    Received before (first ++ second) after := by
  have hdisjoint := hsecond.fresh
  rw [hfirst.union, Finset.disjoint_union_left] at hdisjoint
  constructor
  · rw [hsecond.union, hfirst.union, guidanceOf_append, Finset.union_assoc]
  · rw [guidanceOf_append, Finset.disjoint_union_right]
    exact ⟨hfirst.fresh, hdisjoint.1⟩

theorem accept_received {receipts : Receipts} {item : Json}
    (h : (accept receipts item).1 = true) :
    Received receipts [item] (accept receipts item).2 := by
  unfold accept at h ⊢
  cases hidentity : identity item with
  | none => exact Received.plain (by simpa using hidentity) receipts
  | some guidance =>
    rw [hidentity] at h
    by_cases hmem : guidance ∈ receipts
    · simp [hmem] at h
    · have hone : guidanceOf [item] = {guidance} := by
        simp [guidanceOf, hidentity]
      simp only [hmem, if_false]
      constructor
      · rw [hone, Finset.union_comm, Finset.insert_eq]
      · rw [hone, Finset.disjoint_singleton_right]
        exact hmem

theorem accept_refused {receipts : Receipts} {item : Json}
    (h : (accept receipts item).1 = false) : (accept receipts item).2 = receipts := by
  unfold accept at h ⊢
  split at h
  · cases h
  · split at h
    · rename_i hmem
      rw [if_pos hmem]
    · cases h

theorem acceptAll_received (receipts : Receipts) (items : List Json) :
    Received receipts (acceptAll receipts items).1 (acceptAll receipts items).2 := by
  induction items generalizing receipts with
  | nil => exact Received.plain (by simp [acceptAll]) receipts
  | cons item rest ih =>
    have hlater := ih (accept receipts item).2
    unfold acceptAll
    dsimp only
    cases haccepted : (accept receipts item).1 with
    | true => exact (accept_received haccepted).append hlater
    | false =>
      rw [accept_refused haccepted] at hlater ⊢
      exact hlater

theorem acceptAll_plain {items : List Json} (h : ∀ item ∈ items, identity item = none)
    (receipts : Receipts) : acceptAll receipts items = (items, receipts) := by
  induction items with
  | nil => rfl
  | cons item rest ih =>
    have hitem := h item List.mem_cons_self
    have hrest := ih fun other hother => h other (List.mem_cons_of_mem _ hother)
    simp only [acceptAll, accept, hitem, hrest, if_true]

theorem rollback_eq (receipts : Receipts) (items : List Json) :
    rollback receipts items = receipts \ guidanceOf items := by
  induction items generalizing receipts with
  | nil => simp [rollback, guidanceOf]
  | cons item rest ih =>
    unfold rollback
    cases hidentity : identity item with
    | none =>
      have hsame : guidanceOf (item :: rest) = guidanceOf rest := by
        simp [guidanceOf, hidentity]
      rw [hsame]
      exact ih receipts
    | some guidance =>
      have hinsert : guidanceOf (item :: rest) = insert guidance (guidanceOf rest) := by
        simp [guidanceOf, hidentity]
      rw [hinsert, Finset.sdiff_insert]
      dsimp only
      rw [ih, Finset.erase_sdiff_comm]

theorem rollback_received {before after : Receipts} {items : List Json}
    (h : Received before items after) : rollback after items = before := by
  rw [rollback_eq, h.union, Finset.union_sdiff_right]
  exact Finset.sdiff_eq_self_of_disjoint h.fresh

/-- The items entered the context, and no identity came twice. -/
structure Once (before : Receipts) (items : List Json) (after : Receipts) : Prop extends
    Received before items after where
  distinct : (items.filterMap identity).Nodup

theorem Once.plain {items : List Json} (h : ∀ item ∈ items, identity item = none)
    (receipts : Receipts) : Once receipts items receipts := by
  refine ⟨.plain h receipts, ?_⟩
  rw [List.filterMap_eq_nil_iff.mpr h]
  exact List.nodup_nil

theorem Once.append {before middle after : Receipts} {first second : List Json}
    (hfirst : Once before first middle) (hsecond : Once middle second after) :
    Once before (first ++ second) after := by
  refine ⟨hfirst.toReceived.append hsecond.toReceived, ?_⟩
  rw [List.filterMap_append, List.nodup_append]
  refine ⟨hfirst.distinct, hsecond.distinct, ?_⟩
  rintro guidance hguidance _ hsame rfl
  have hold : guidance ∈ middle := by
    rw [hfirst.union]
    exact Finset.mem_union_right _ (List.mem_toFinset.mpr hguidance)
  exact Finset.disjoint_left.mp hsecond.fresh hold (List.mem_toFinset.mpr hsame)

theorem acceptAll_once (receipts : Receipts) (items : List Json) :
    Once receipts (acceptAll receipts items).1 (acceptAll receipts items).2 := by
  induction items generalizing receipts with
  | nil => exact .plain (by simp [acceptAll]) receipts
  | cons item rest ih =>
    have hlater := ih (accept receipts item).2
    unfold acceptAll
    dsimp only
    cases haccepted : (accept receipts item).1 with
    | true =>
      have hone : ([item].filterMap identity).Nodup := by
        cases hidentity : identity item <;> simp [hidentity]
      exact Once.append ⟨accept_received haccepted, hone⟩ hlater
    | false =>
      rw [accept_refused haccepted] at hlater ⊢
      exact hlater

end MobiusAgent.GuidanceReceipts
