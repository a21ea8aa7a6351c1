import Mathlib.Data.List.Basic

/-!
# Calls and their answers in a sequence

A sequence of signals opens calls by their keys and closes them. The calls
that are open at its end are those no later signal closes. A sequence is
paired if no call is open at its end and every closing signal closes a call
that is open. Silent signals do not matter, and what comes after a part
without open calls is paired by itself.
-/

namespace MobiusAgent.CallPairing

variable {κ : Type} [DecidableEq κ]

/-- What one element of a sequence does to the open calls. -/
inductive Signal (κ : Type) where
  | opens (key : κ)
  | closes (key : κ)
  | silent
  deriving DecidableEq

/-- Whether a signal matters. -/
def Signal.loud : Signal κ → Bool
  | .silent => false
  | _ => true

def after (opened : List κ) : Signal κ → List κ
  | .opens key => opened.insert key
  | .closes key => opened.filter (· ≠ key)
  | .silent => opened

/-- The open calls after a sequence. -/
def openAfter (opened : List κ) (signals : List (Signal κ)) : List κ := signals.foldl after opened

/-- Every call is closed by a later signal. -/
def Answered (signals : List (Signal κ)) : Prop :=
  ∀ earlier key later, signals = earlier ++ .opens key :: later → .closes key ∈ later

def Called (opened : List κ) (signals : List (Signal κ)) : Prop :=
  ∀ earlier key later, signals = earlier ++ .closes key :: later → key ∈ openAfter opened earlier

/-- Calls and answers belong together. -/
structure Paired (signals : List (Signal κ)) : Prop where
  answered : openAfter [] signals = []
  called : Called [] signals

theorem called_cons {opened : List κ} {signal : Signal κ} {rest : List (Signal κ)}
    (hsignal : ∀ key, signal = .closes key → key ∈ opened)
    (hrest : Called (after opened signal) rest) : Called opened (signal :: rest) := by
  intro earlier key later hsplit
  cases earlier with
  | nil => exact hsignal key (List.cons.inj hsplit).1
  | cons first earlier =>
    obtain ⟨hfirst, hlater⟩ := List.cons.inj hsplit
    rw [← hfirst]
    exact hrest earlier key later hlater

theorem openAfter_append (opened : List κ) (first second : List (Signal κ)) :
    openAfter opened (first ++ second) = openAfter (openAfter opened first) second :=
  List.foldl_append

/-- The calls that are open at the end: those that were open and those that were opened, if no
later signal closes them. -/
theorem mem_openAfter {opened : List κ} {signals : List (Signal κ)} {key : κ} :
    key ∈ openAfter opened signals ↔
      (key ∈ opened ∧ .closes key ∉ signals) ∨
      ∃ earlier later, signals = earlier ++ .opens key :: later ∧ .closes key ∉ later := by
  induction signals generalizing opened with
  | nil =>
    constructor
    · intro hmember
      exact .inl ⟨hmember, List.not_mem_nil⟩
    · rintro (⟨hmember, _⟩ | ⟨earlier, later, hsplit, _⟩)
      · exact hmember
      · simp at hsplit
  | cons signal rest ih =>
    have hstep : openAfter opened (signal :: rest) = openAfter (after opened signal) rest := rfl
    rw [hstep, ih]
    constructor
    · rintro (⟨hmember, hopen⟩ | ⟨earlier, later, hsplit, hopen⟩)
      · cases signal with
        | opens other =>
          rcases List.mem_insert_iff.mp hmember with hsame | hold
          · right
            exact ⟨[], rest, by rw [hsame]; rfl, hopen⟩
          · left
            exact ⟨hold, by simpa using hopen⟩
        | closes other =>
          obtain ⟨hold, hother⟩ := List.mem_filter.mp hmember
          left
          refine ⟨hold, ?_⟩
          intro hclosed
          rcases List.mem_cons.mp hclosed with hsame | hrest
          · have hkey := Signal.closes.inj hsame
            simp [hkey] at hother
          · exact hopen hrest
        | silent =>
          left
          exact ⟨hmember, by simpa using hopen⟩
      · right
        exact ⟨signal :: earlier, later, by rw [hsplit]; rfl, hopen⟩
    · rintro (⟨hmember, hopen⟩ | ⟨earlier, later, hsplit, hopen⟩)
      · left
        have hrest : Signal.closes key ∉ rest := fun hclosed =>
          hopen (List.mem_cons_of_mem _ hclosed)
        refine ⟨?_, hrest⟩
        cases signal with
        | opens other => exact List.mem_insert_of_mem hmember
        | closes other =>
          refine List.mem_filter.mpr ⟨hmember, ?_⟩
          have hother : key ≠ other := by
            rintro rfl
            exact hopen List.mem_cons_self
          simpa using hother
        | silent => exact hmember
      · cases earlier with
        | nil =>
          obtain ⟨hsignal, hrest⟩ := List.cons.inj hsplit
          left
          rw [hsignal, hrest]
          exact ⟨List.mem_insert_self, hopen⟩
        | cons first earlier =>
          obtain ⟨_, hrest⟩ := List.cons.inj hsplit
          right
          exact ⟨earlier, later, hrest, hopen⟩

theorem openAfter_nil_iff (signals : List (Signal κ)) :
    openAfter [] signals = [] ↔ Answered signals := by
  constructor
  · intro hnone earlier key later hsplit
    by_contra hopen
    have hmember : key ∈ openAfter [] signals :=
      mem_openAfter.mpr (.inr ⟨earlier, later, hsplit, hopen⟩)
    rw [hnone] at hmember
    exact List.not_mem_nil hmember
  · intro hanswered
    rw [List.eq_nil_iff_forall_not_mem]
    intro key hmember
    rcases mem_openAfter.mp hmember with ⟨hold, _⟩ | ⟨earlier, later, hsplit, hopen⟩
    · exact List.not_mem_nil hold
    · exact hopen (hanswered earlier key later hsplit)

theorem openAfter_loud (opened : List κ) (signals : List (Signal κ)) :
    openAfter opened (signals.filter Signal.loud) = openAfter opened signals := by
  induction signals generalizing opened with
  | nil => rfl
  | cons signal rest ih =>
    cases signal with
    | opens key | closes key | silent => exact ih _

theorem called_loud (opened : List κ) (signals : List (Signal κ)) :
    Called opened (signals.filter Signal.loud) ↔ Called opened signals := by
  constructor
  · intro hcalled earlier key later hsplit
    have hfilter : signals.filter Signal.loud =
        earlier.filter Signal.loud ++ .closes key :: later.filter Signal.loud := by
      rw [hsplit, List.filter_append, List.filter_cons_of_pos rfl]
    have hmember := hcalled _ key _ hfilter
    rwa [openAfter_loud] at hmember
  · intro hcalled earlier key later hsplit
    obtain ⟨front, back, hsignals, hfront, hback⟩ := List.filter_eq_append_iff.mp hsplit
    obtain ⟨middle, tail, htail, hmiddle, _, _⟩ := List.filter_eq_cons_iff.mp hback
    have hwhole : signals = (front ++ middle) ++ .closes key :: tail := by
      rw [hsignals, htail, List.append_assoc]
    have hmember := hcalled _ key _ hwhole
    rw [openAfter_append] at hmember
    have hsilent : openAfter (openAfter opened front) middle = openAfter opened front := by
      rw [← openAfter_loud _ middle, List.filter_eq_nil_iff.mpr hmiddle]
      rfl
    rw [hsilent, ← openAfter_loud, hfront] at hmember
    exact hmember

theorem Paired.congr {first second : List (Signal κ)}
    (hsame : first.filter Signal.loud = second.filter Signal.loud) (h : Paired first) :
    Paired second := by
  constructor
  · rw [← openAfter_loud, ← hsame, openAfter_loud]
    exact h.answered
  · rw [← called_loud, ← hsame, called_loud]
    exact h.called

theorem Paired.rest {first second : List (Signal κ)} (hnone : openAfter [] first = [])
    (h : Paired (first ++ second)) : Paired second := by
  constructor
  · have hanswered := h.answered
    rwa [openAfter_append, hnone] at hanswered
  · intro earlier key later hsplit
    have hmember := h.called (first ++ earlier) key later (by rw [hsplit, List.append_assoc])
    rwa [openAfter_append, hnone] at hmember

end MobiusAgent.CallPairing
