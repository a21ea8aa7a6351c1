import Mathlib.Data.List.Basic
import Mathlib.Data.List.Infix

/-!
# Streams cut at delimiters

A delimiter is recognised at the front of a stream. A stream is cut at its
leftmost delimiter, what follows is cut again, and a rest without a delimiter
is left. More items behind the stream never change the parts already cut, so
that a reader may cut while the stream is still arriving.
-/

namespace MobiusAgent.DelimitedStreams

variable {α : Type}

/-- A kind of delimiter, by the width of the one a stream starts with. -/
structure Delimiter (α : Type) where
  /-- The width of the delimiter at the front. -/
  width : List α → Option Nat
  /-- So many items decide whether a delimiter stands at the front. -/
  reach : Nat
  positive : ∀ items, ∀ size, width items = some size → 0 < size
  /-- A delimiter stands in the stream. -/
  inside : ∀ items, ∀ size, width items = some size → size ≤ items.length
  /-- A delimiter stays one before more items. -/
  stable : ∀ items more, ∀ size, width items = some size → width (items ++ more) = some size
  /-- What is no delimiter stays none, once enough items are there. -/
  decided : ∀ items more, reach ≤ items.length → width items = none → width (items ++ more) = none
  /-- What is no delimiter stays none, once a delimiter stands behind it. -/
  settled : ∀ items more place, 0 < place → (width (items.drop place)).isSome = true →
    width items = none → width (items ++ more) = none

variable (d : Delimiter α)

/-- A stream without a delimiter. -/
def Bare (items : List α) : Prop := ∀ place, d.width (items.drop place) = none

/-- The leftmost delimiter of a stream and what stands around it. -/
structure Leftmost (items before delimiter after : List α) : Prop where
  split : items = before ++ (delimiter ++ after)
  width : d.width (delimiter ++ after) = some delimiter.length
  first : ∀ place, place < before.length → d.width (items.drop place) = none

/-- A stream is cut into parts with their delimiters and a rest. -/
inductive Cut : List α → List (List α × List α) → List α → Prop
  /-- The rest has no delimiter. -/
  | rest {items : List α} (bare : Bare d items) : Cut items [] items
  /-- A part ends at the leftmost delimiter. -/
  | part {items before delimiter after rest : List α} {parts : List (List α × List α)}
      (first : Leftmost d items before delimiter after) (later : Cut after parts rest) :
      Cut items ((before, delimiter) :: parts) rest

/-- Items that more items can turn into a delimiter. -/
def Starts (items : List α) : Prop :=
  d.width items = none ∧ ∃ more, (d.width (items ++ more)).isSome = true

variable {d} {items before delimiter after rest more : List α}

theorem width_nil (d : Delimiter α) : d.width [] = none := by
  cases hwidth : d.width [] with
  | none => rfl
  | some size =>
    have hpositive := d.positive _ _ hwidth
    have hinside := d.inside _ _ hwidth
    simp only [List.length_nil] at hinside
    omega

theorem bare_nil (d : Delimiter α) : Bare d [] := by
  intro place
  rw [List.drop_nil]
  exact width_nil d

theorem bare_or_leftmost (d : Delimiter α) (items : List α) :
    Bare d items ∨ ∃ before delimiter after, Leftmost d items before delimiter after := by
  induction items with
  | nil => exact .inl (bare_nil d)
  | cons item items ih =>
    cases hwidth : d.width (item :: items) with
    | some size =>
      right
      have hinside := d.inside _ _ hwidth
      refine ⟨[], (item :: items).take size, (item :: items).drop size, ?_, ?_, ?_⟩
      · rw [List.nil_append, List.take_append_drop]
      · rw [List.take_append_drop, List.length_take, Nat.min_eq_left hinside]
        exact hwidth
      · intro place hplace
        exact absurd hplace (Nat.not_lt_zero _)
    | none =>
      rcases ih with hbare | ⟨before, delimiter, after, hfirst⟩
      · left
        intro place
        cases place with
        | zero => exact hwidth
        | succ place => exact hbare place
      · right
        refine ⟨item :: before, delimiter, after, ?_, hfirst.width, ?_⟩
        · rw [hfirst.split]
          rfl
        · intro place hplace
          cases place with
          | zero => exact hwidth
          | succ place => exact hfirst.first place (by simpa using hplace)

theorem Leftmost.drop (h : Leftmost d items before delimiter after) :
    items.drop before.length = delimiter ++ after := by
  rw [h.split, List.drop_left]

theorem Leftmost.not_bare (h : Leftmost d items before delimiter after) : ¬Bare d items := by
  intro hbare
  have hnone := hbare before.length
  rw [h.drop, h.width] at hnone
  cases hnone

theorem Leftmost.unique {before' delimiter' after' : List α}
    (h : Leftmost d items before delimiter after)
    (h' : Leftmost d items before' delimiter' after') :
    before = before' ∧ delimiter = delimiter' ∧ after = after' := by
  have hlength : before.length = before'.length := by
    rcases Nat.lt_trichotomy before.length before'.length with hless | heq | hmore
    · have hnone := h'.first _ hless
      rw [h.drop, h.width] at hnone
      cases hnone
    · exact heq
    · have hnone := h.first _ hmore
      rw [h'.drop, h'.width] at hnone
      cases hnone
  have hsplit := h.split.symm.trans h'.split
  obtain ⟨hbefore, hbehind⟩ := List.append_inj hsplit hlength
  have hwidth := h.width
  rw [hbehind, h'.width] at hwidth
  have hsame : delimiter.length = delimiter'.length := (Option.some.inj hwidth).symm
  exact ⟨hbefore, List.append_inj hbehind hsame⟩

theorem Leftmost.append (h : Leftmost d items before delimiter after) (more : List α) :
    Leftmost d (items ++ more) before delimiter (after ++ more) := by
  refine ⟨?_, ?_, ?_⟩
  · rw [h.split]
    simp only [List.append_assoc]
  · rw [← List.append_assoc]
    exact d.stable _ _ _ h.width
  · intro place hplace
    have hinside : place ≤ items.length := by
      rw [h.split, List.length_append]
      omega
    have hbehind : (items.drop place).drop (before.length - place) = delimiter ++ after := by
      rw [List.drop_drop, ← h.drop]
      congr 1
      omega
    rw [List.drop_append_of_le_length hinside]
    refine d.settled _ more (before.length - place) (by omega) ?_ (h.first place hplace)
    rw [hbehind, h.width]
    rfl

variable {parts : List (List α × List α)}

theorem Cut.unique {parts' : List (List α × List α)} {rest' : List α} (h : Cut d items parts rest)
    (h' : Cut d items parts' rest') : parts = parts' ∧ rest = rest' := by
  induction h generalizing parts' rest' with
  | rest bare =>
    cases h' with
    | rest _ => exact ⟨rfl, rfl⟩
    | part first _ => exact absurd bare first.not_bare
  | part first later ih =>
    cases h' with
    | rest bare => exact absurd bare first.not_bare
    | part first' later' =>
      obtain ⟨rfl, rfl, rfl⟩ := first.unique first'
      obtain ⟨rfl, rfl⟩ := ih later'
      exact ⟨rfl, rfl⟩

theorem exists_cut (d : Delimiter α) (items : List α) : ∃ parts rest, Cut d items parts rest := by
  induction hlength : items.length using Nat.strongRecOn generalizing items with
  | _ length ih =>
    rcases bare_or_leftmost d items with hbare | ⟨before, delimiter, after, hfirst⟩
    · exact ⟨[], items, .rest hbare⟩
    · have hshort : after.length < length := by
        have hpositive := d.positive _ _ hfirst.width
        rw [← hlength, hfirst.split]
        simp only [List.length_append]
        omega
      obtain ⟨parts, rest, hcut⟩ := ih after.length hshort after rfl
      exact ⟨(before, delimiter) :: parts, rest, .part hfirst hcut⟩

theorem Cut.flatten (h : Cut d items parts rest) :
    items = parts.flatMap (fun part => part.1 ++ part.2) ++ rest := by
  induction h with
  | rest bare => rfl
  | part first later ih =>
    rw [first.split, List.flatMap_cons]
    conv_lhs => rw [ih]
    simp only [List.append_assoc]

theorem Cut.length_le (h : Cut d items parts rest) : parts.length ≤ items.length := by
  induction h with
  | rest bare => exact Nat.zero_le _
  | part first later ih =>
    have hpositive := d.positive _ _ first.width
    rw [first.split]
    simp only [List.length_cons, List.length_append]
    omega

theorem Cut.bare (h : Cut d items parts rest) : Bare d rest := by
  induction h with
  | rest bare => exact bare
  | part first later ih => exact ih

theorem Cut.append {parts later : List (List α × List α)} {last : List α}
    (h : Cut d items parts rest) (hmore : Cut d (rest ++ more) later last) :
    Cut d (items ++ more) (parts ++ later) last := by
  induction h with
  | rest bare => exact hmore
  | part first _ ih => exact .part (first.append more) (ih hmore)

theorem Starts.of_append {tail : List α} (h : Starts d (items ++ tail)) : Starts d items := by
  obtain ⟨hnone, more, hsome⟩ := h
  refine ⟨?_, tail ++ more, ?_⟩
  · cases hwidth : d.width items with
    | none => rfl
    | some size =>
      rw [d.stable _ _ _ hwidth] at hnone
      cases hnone
  · rw [← List.append_assoc]
    exact hsome

theorem Leftmost.late (hbare : Bare d rest) (h : Leftmost d (rest ++ more) before delimiter after) :
    rest.length ≤ before.length ∨ Starts d (rest.drop before.length) := by
  by_cases hbehind : rest.length ≤ before.length
  · exact .inl hbehind
  · right
    refine ⟨hbare before.length, more, ?_⟩
    rw [← List.drop_append_of_le_length (by omega), h.drop, h.width]
    rfl

theorem Bare.scanned (h : Bare d items) {place : Nat} (hplace : place + d.reach ≤ items.length)
    (more : List α) : d.width ((items ++ more).drop place) = none := by
  rw [List.drop_append_of_le_length (by omega)]
  refine d.decided _ _ ?_ (h place)
  rw [List.length_drop]
  omega

end MobiusAgent.DelimitedStreams
