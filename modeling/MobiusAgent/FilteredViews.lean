import Mathlib.Data.List.Basic

/-!
# Filtered views of a list

A filter shows a part of a list. The beginnings of the view are the views of
beginnings, the place of an element of the view is found among the numbered
elements, and elements that a numbered filter keeps from a place on are those
after a cut.
-/

namespace MobiusAgent.FilteredViews

variable {α : Type}

/-- The elements of a beginning that are shown. -/
def shownBefore (shows : α → Bool) (items : List α) (count : Nat) : Nat :=
  ((items.take count).filter shows).length

theorem take_shownBefore (shows : α → Bool) (items : List α) (count : Nat) :
    (items.filter shows).take (shownBefore shows items count) =
      (items.take count).filter shows := by
  have hsplit : items.filter shows =
      (items.take count).filter shows ++ (items.drop count).filter shows := by
    rw [← List.filter_append, List.take_append_drop]
  unfold shownBefore
  rw [hsplit, List.take_left]

theorem shownBefore_zero (shows : α → Bool) (items : List α) : shownBefore shows items 0 = 0 := rfl

theorem shownBefore_length (shows : α → Bool) (items : List α) :
    shownBefore shows items items.length = (items.filter shows).length := by
  unfold shownBefore
  rw [List.take_length]

theorem shownBefore_cons (shows : α → Bool) (item : α) (rest : List α) (count : Nat) :
    shownBefore shows (item :: rest) (count + 1) =
      (if shows item then 1 else 0) + shownBefore shows rest count := by
  unfold shownBefore
  rw [List.take_succ_cons, List.filter_cons]
  by_cases hshows : shows item = true
  · rw [if_pos hshows, if_pos hshows, List.length_cons]
    omega
  · rw [if_neg hshows, if_neg hshows]
    omega

/-- The numbered element at a place of the view ends the beginning that shows as many. -/
theorem shown_place {shows : α → Bool} {items : List α} :
    ∀ {first place index : Nat},
      (((items.zipIdx first).filter fun numbered => shows numbered.1).map (·.2))[place]? =
        some index →
      first ≤ index ∧ index < first + items.length ∧
        shownBefore shows items (index + 1 - first) = place + 1 := by
  induction items with
  | nil =>
    intro first place index h
    cases h
  | cons item rest ih =>
    intro first place index h
    rw [List.zipIdx_cons, List.filter_cons] at h
    rw [List.length_cons]
    by_cases hshows : shows item = true
    · simp only [hshows, if_true, List.map_cons] at h
      cases place with
      | zero =>
        have hindex : first = index := Option.some.inj h
        have hcount : index + 1 - first = 0 + 1 := by omega
        refine ⟨by omega, by omega, ?_⟩
        rw [hcount, shownBefore_cons, if_pos hshows, shownBefore_zero]
      | succ place =>
        obtain ⟨hfirst, hlast, hshown⟩ := ih h
        have hcount : index + 1 - first = index + 1 - (first + 1) + 1 := by omega
        refine ⟨by omega, by omega, ?_⟩
        rw [hcount, shownBefore_cons, if_pos hshows, hshown]
        omega
    · simp only [hshows, Bool.false_eq_true, if_false] at h
      obtain ⟨hfirst, hlast, hshown⟩ := ih h
      have hcount : index + 1 - first = index + 1 - (first + 1) + 1 := by omega
      refine ⟨by omega, by omega, ?_⟩
      rw [hcount, shownBefore_cons, if_neg hshows, hshown]
      omega

/-- A numbered filter that keeps the loud elements from a cut on. -/
theorem loud_from_cut {keeps : α × Nat → Bool} {loud : α → Bool} {cut : Nat} {items : List α} :
    ∀ {first : Nat},
      (∀ numbered ∈ items.zipIdx first, loud numbered.1 = true →
        (keeps numbered = true ↔ cut ≤ numbered.2)) →
      (((items.zipIdx first).filter keeps).map (·.1)).filter loud =
        (items.drop (cut - first)).filter loud := by
  induction items with
  | nil =>
    intro first h
    rw [List.drop_nil]
    rfl
  | cons item rest ih =>
    intro first h
    rw [List.zipIdx_cons] at h ⊢
    have hrest := ih (fun numbered hmember => h numbered (List.mem_cons_of_mem _ hmember))
    have hitem := h (item, first) List.mem_cons_self
    by_cases hcut : cut ≤ first
    · have hdrop : cut - first = 0 := by omega
      have hlater : cut - (first + 1) = 0 := by omega
      rw [hlater, List.drop_zero] at hrest
      rw [hdrop, List.drop_zero, List.filter_cons, List.filter_cons]
      by_cases hloud : loud item = true
      · rw [if_pos ((hitem hloud).mpr hcut), if_pos hloud, List.map_cons, List.filter_cons,
          if_pos hloud, hrest]
      · rw [if_neg hloud]
        by_cases hkeeps : keeps (item, first) = true
        · rw [if_pos hkeeps, List.map_cons, List.filter_cons, if_neg hloud, hrest]
        · rw [if_neg hkeeps, hrest]
    · have hdrop : cut - first = cut - (first + 1) + 1 := by omega
      rw [hdrop, List.drop_succ_cons, List.filter_cons]
      by_cases hkeeps : keeps (item, first) = true
      · have hloud : ¬ loud item = true := fun hloud => hcut ((hitem hloud).mp hkeeps)
        rw [if_pos hkeeps, List.map_cons, List.filter_cons, if_neg hloud, hrest]
      · rw [if_neg hkeeps, hrest]

end MobiusAgent.FilteredViews
