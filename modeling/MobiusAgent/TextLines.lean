import Mathlib.Data.List.Infix

/-!
# Lines of a text

A text is a list of characters. Its lines end with a line feed, except
perhaps the last one. A place in a text is a line start if the text before it
is empty or ends with a line feed.
-/

namespace MobiusAgent.TextLines

/-- The lines of a text with their ends. -/
def splitInclusive : List Char → List (List Char)
  | [] => []
  | c :: rest =>
    if c = '\n' then [c] :: splitInclusive rest
    else match splitInclusive rest with
      | [] => [[c]]
      | line :: later => (c :: line) :: later

/-- A line without its end, which may be a carriage return with a line feed. -/
def stripLineEnd (line : List Char) : List Char :=
  if line.getLast? = some '\n' then
    let body := line.dropLast
    if body.getLast? = some '\r' then body.dropLast else body
  else line

/-- The lines of a text without their ends. -/
def lines (text : List Char) : List (List Char) := (splitInclusive text).map stripLineEnd

def AtLineStart (before : List Char) : Prop := before = [] ∨ before.getLast? = some '\n'

/-- Whether a place is a line start can be decided. -/
instance (before : List Char) : Decidable (AtLineStart before) :=
  inferInstanceAs (Decidable (_ ∨ _))

@[simp]
theorem flatten_splitInclusive (text : List Char) : (splitInclusive text).flatten = text := by
  induction text with
  | nil => rfl
  | cons c rest ih =>
    unfold splitInclusive
    split_ifs with hfeed
    · rw [List.flatten_cons, ih]
      rfl
    · split
      · rename_i hnone
        rw [hnone] at ih
        rw [← ih]
        rfl
      · rename_i line later hsome
        rw [hsome] at ih
        rw [← ih]
        rfl

theorem splitInclusive_ends {text : List Char} {earlier later : List (List Char)}
    {line next : List Char} (h : splitInclusive text = earlier ++ line :: next :: later) :
    line.getLast? = some '\n' := by
  induction text generalizing earlier line next later with
  | nil => simp [splitInclusive] at h
  | cons c rest ih =>
    unfold splitInclusive at h
    split_ifs at h with hfeed
    · cases earlier with
      | nil =>
        obtain ⟨hline, _⟩ := List.cons.inj h
        rw [← hline, hfeed]
        rfl
      | cons first earlier => exact ih (List.cons.inj h).2
    · split at h
      · cases earlier with
        | nil => cases h
        | cons first earlier =>
          have hlength := congrArg List.length h
          simp at hlength
      · rename_i body others hsome
        cases earlier with
        | nil =>
          obtain ⟨hline, hothers⟩ := List.cons.inj h
          have hends := @ih [] later body next (by rw [hsome, hothers]; rfl)
          rw [← hline]
          cases body with
          | nil => cases hends
          | cons first body => rwa [List.getLast?_cons_cons]
        | cons first earlier =>
          obtain ⟨_, hothers⟩ := List.cons.inj h
          exact @ih (body :: earlier) later line next (by rw [hsome, hothers]; rfl)

theorem atLineStart_nil : AtLineStart [] := .inl rfl

theorem atLineStart_concat (text : List Char) : AtLineStart (text ++ ['\n']) := by
  right
  exact List.getLast?_concat

theorem AtLineStart.append {first second : List Char} (hfirst : AtLineStart first)
    (hsecond : AtLineStart second) : AtLineStart (first ++ second) := by
  rcases hsecond with rfl | hlast
  · rwa [List.append_nil]
  · right
    rw [List.getLast?_append, hlast]
    rfl

theorem AtLineStart.of_append {first second : List Char} (h : AtLineStart (first ++ second)) :
    AtLineStart second := by
  cases List.eq_nil_or_concat' second with
  | inl hempty => exact .inl hempty
  | inr hlast =>
    obtain ⟨body, last, rfl⟩ := hlast
    rcases h with hnil | hend
    · simp at hnil
    · rw [← List.append_assoc, List.getLast?_concat] at hend
      right
      rw [List.getLast?_concat]
      exact hend

theorem atLineStart_lines {text : List Char} {earlier later : List (List Char)}
    (h : splitInclusive text = earlier ++ later) (hlater : later ≠ []) :
    AtLineStart earlier.flatten := by
  cases List.eq_nil_or_concat' earlier with
  | inl hempty =>
    rw [hempty]
    exact atLineStart_nil
  | inr hlast =>
    obtain ⟨others, line, rfl⟩ := hlast
    obtain ⟨next, rest, rfl⟩ := List.exists_cons_of_ne_nil hlater
    have hends := splitInclusive_ends (by simpa using h)
    right
    rw [List.flatten_append, List.flatten_singleton, List.getLast?_append, hends]
    rfl

end MobiusAgent.TextLines
