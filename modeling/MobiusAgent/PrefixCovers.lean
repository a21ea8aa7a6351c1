import Mathlib.Algebra.BigOperators.Group.List.Basic
import Mathlib.Algebra.Ring.Nat
import Mathlib.Data.List.Lex
import Mathlib.Data.List.Infix

/-!
# Paths charged once

A path covers every place it is a prefix of. Paths are walked in their order,
component by component, and one is charged unless the last charged one covers
it. As what a path covers stands in a row behind it, the charged paths cover
the same places as all of them, and no place twice.
-/

namespace MobiusAgent.PrefixCovers

variable {α : Type} [LinearOrder α]

section Order

theorem prefix_le {path place : List α} (h : path <+: place) : path ≤ place := by
  induction path generalizing place with
  | nil => exact not_lt.mp (List.not_lt_nil place)
  | cons item path ih =>
    obtain ⟨rest, rfl⟩ := h
    exact List.cons_le_cons item (ih (List.prefix_append path rest))

theorem prefix_between {path between place : List α} (h : path <+: place) (hafter : path ≤ between)
    (hbefore : between ≤ place) : path <+: between := by
  induction path generalizing between place with
  | nil => exact List.nil_prefix
  | cons item path ih =>
    obtain ⟨rest, rfl⟩ := h
    cases between with
    | nil => exact absurd (List.nil_lt_cons item path) (not_lt.mpr hafter)
    | cons other between =>
      rw [List.cons_append] at hbefore
      have hitem : item = other := by
        refine le_antisymm ?_ ?_
        · by_contra hless
          exact absurd (List.Lex.rel (not_le.mp hless)) (not_lt.mpr hafter)
        · by_contra hless
          exact absurd (List.Lex.rel (not_le.mp hless)) (not_lt.mpr hbefore)
      subst hitem
      have hafter' : path ≤ between := by
        by_contra hless
        exact absurd (List.Lex.cons (not_le.mp hless)) (not_lt.mpr hafter)
      have hbefore' : between ≤ path ++ rest := by
        by_contra hless
        exact absurd (List.Lex.cons (not_le.mp hless)) (not_lt.mpr hbefore)
      exact (List.prefix_cons_inj item).mpr (ih (List.prefix_append path rest) hafter' hbefore')

end Order

section Charges

/-- The paths charged one after another, behind the last one charged. -/
def charged : Option (List α) → List (List α) → List (List α)
  | _, [] => []
  | root, path :: rest =>
    if root.any (fun root => root <+: path) then charged root rest
    else path :: charged (some path) rest

variable {root : Option (List α)} {paths : List (List α)}

theorem charged_sublist (root : Option (List α)) (paths : List (List α)) :
    (charged root paths).Sublist paths := by
  induction paths generalizing root with
  | nil => exact List.Sublist.refl _
  | cons path rest ih =>
    unfold charged
    split_ifs
    · exact (ih root).cons path
    · exact (ih (some path)).cons_cons path

theorem charged_free {path : List α} (hsorted : (path :: paths).Pairwise (· ≤ ·)) :
    ∀ place ∈ charged (some path) paths, ¬path <+: place := by
  induction paths generalizing path with
  | nil => nofun
  | cons next rest ih =>
    obtain ⟨hfirst, hrest⟩ := List.pairwise_cons.mp hsorted
    intro place hplace
    unfold charged at hplace
    by_cases hcovers : path <+: next
    · rw [if_pos (by simpa using hcovers)] at hplace
      exact ih (List.pairwise_cons.mpr ⟨fun other hother => hfirst other (List.mem_cons_of_mem _ hother),
        (List.pairwise_cons.mp hrest).2⟩) place hplace
    · rw [if_neg (by simpa using hcovers)] at hplace
      intro hplaced
      have hbetween : next ≤ place := by
        rcases List.mem_cons.mp hplace with rfl | hbehind
        · exact le_refl _
        · exact (List.pairwise_cons.mp hrest).1 place ((charged_sublist _ _).subset hbehind)
      exact hcovers (prefix_between hplaced (hfirst next List.mem_cons_self) hbetween)

theorem charged_apart (hsorted : paths.Pairwise (· ≤ ·)) :
    (charged root paths).Pairwise fun first second => ¬first <+: second ∧ ¬second <+: first := by
  induction paths generalizing root with
  | nil => exact List.Pairwise.nil
  | cons path rest ih =>
    have hrest := (List.pairwise_cons.mp hsorted).2
    unfold charged
    split_ifs
    · exact ih hrest
    · refine List.pairwise_cons.mpr ⟨fun place hplace => ?_, ih hrest⟩
      have hfree := charged_free hsorted place hplace
      refine ⟨hfree, fun hback => hfree ?_⟩
      have hbefore := (List.pairwise_cons.mp hsorted).1 place ((charged_sublist _ _).subset hplace)
      rw [le_antisymm (prefix_le hback) hbefore]

theorem charged_covers (root : Option (List α)) (paths : List (List α)) :
    ∀ path ∈ paths, ∃ cover ∈ root.toList ++ charged root paths, cover <+: path := by
  induction paths generalizing root with
  | nil => nofun
  | cons next rest ih =>
    intro path hpath
    unfold charged
    split_ifs with hcovers
    · rcases List.mem_cons.mp hpath with rfl | hbehind
      · cases root with
        | none => cases hcovers
        | some cover =>
          refine ⟨cover, List.mem_append_left _ (List.mem_singleton_self cover), ?_⟩
          simpa using hcovers
      · exact ih root path hbehind
    · rcases List.mem_cons.mp hpath with rfl | hbehind
      · exact ⟨path, List.mem_append_right _ List.mem_cons_self, List.prefix_rfl⟩
      · obtain ⟨cover, hcover, hprefix⟩ := ih (some next) path hbehind
        exact ⟨cover, List.mem_append_right _ hcover, hprefix⟩

end Charges

section Weights

variable {ε : Type} (place : ε → List α) (weight : ε → Nat) (entries : List ε)

/-- The weight of the entries that some paths cover. -/
def weightUnder (paths : List (List α)) : Nat :=
  (entries.map fun entry => if ∃ path ∈ paths, path <+: place entry then weight entry else 0).sum

variable {place weight entries} {paths : List (List α)}

theorem weightUnder_apart (hapart : paths.Pairwise fun first second =>
    ¬first <+: second ∧ ¬second <+: first) :
    (paths.map fun path => weightUnder place weight entries [path]).sum =
      weightUnder place weight entries paths := by
  induction paths with
  | nil => simp [weightUnder]
  | cons path paths ih =>
    obtain ⟨hfirst, hrest⟩ := List.pairwise_cons.mp hapart
    rw [List.map_cons, List.sum_cons, ih hrest]
    unfold weightUnder
    rw [← List.sum_map_add]
    refine congrArg List.sum (List.map_congr_left fun entry _ => ?_)
    by_cases hunder : path <+: place entry
    · have hnone : ¬∃ other ∈ paths, other <+: place entry := by
        rintro ⟨other, hother, hplaced⟩
        rcases List.prefix_or_prefix_of_prefix hunder hplaced with hcovers | hcovers
        · exact (hfirst other hother).1 hcovers
        · exact (hfirst other hother).2 hcovers
      simp [hunder, hnone]
    · simp [hunder]

theorem weightUnder_congr {others : List (List α)}
    (h : ∀ entry ∈ entries, weight entry ≠ 0 → ((∃ path ∈ paths, path <+: place entry) ↔
      ∃ path ∈ others, path <+: place entry)) :
    weightUnder place weight entries paths = weightUnder place weight entries others := by
  unfold weightUnder
  refine congrArg List.sum (List.map_congr_left fun entry hentry => ?_)
  by_cases hweight : weight entry = 0
  · simp [hweight]
  · simp only [h entry hentry hweight]

theorem weightUnder_charged (hsorted : paths.Pairwise (· ≤ ·)) :
    ((charged none paths).map fun path => weightUnder place weight entries [path]).sum =
      weightUnder place weight entries paths := by
  rw [weightUnder_apart (charged_apart hsorted)]
  refine weightUnder_congr fun entry _ _ => ⟨?_, ?_⟩
  · rintro ⟨path, hpath, hunder⟩
    exact ⟨path, (charged_sublist _ _).subset hpath, hunder⟩
  · rintro ⟨path, hpath, hunder⟩
    obtain ⟨cover, hcover, hprefix⟩ := charged_covers none paths path hpath
    exact ⟨cover, hcover, hprefix.trans hunder⟩

end Weights

end MobiusAgent.PrefixCovers
