import Mathlib.Logic.Relation
import Mathlib.Data.List.Basic

/-!
# Admission in order

Items arrive at a gate and are admitted in their order: a shared item beside
other shared items, an exclusive one when nothing runs. An item that runs may
finish at any time. An exclusive item then runs alone, and any shared items in
a row may run together.
-/

namespace MobiusAgent.OrderedAdmission

variable {α : Type} (shared : α → Bool)

/-- The items at a gate. -/
structure Gate (α : Type) where
  /-- Those that wait, in their order. -/
  waiting : List α
  running : List α

/-- An item may run beside others. -/
def Compatible (running : List α) (item : α) : Prop :=
  running = [] ∨ (shared item = true ∧ ∀ other ∈ running, shared other = true)

inductive Step : Gate α → Gate α → Prop
  | arrive {waiting running : List α} (item : α) :
      Step ⟨waiting, running⟩ ⟨waiting ++ [item], running⟩
  /-- The first waiting item is admitted. -/
  | accept {item : α} {rest running : List α} (free : Compatible shared running item) :
      Step ⟨item :: rest, running⟩ ⟨rest, running ++ [item]⟩
  | finish {waiting before later : List α} {item : α} :
      Step ⟨waiting, before ++ item :: later⟩ ⟨waiting, before ++ later⟩

def Steps : Gate α → Gate α → Prop := Relation.ReflTransGen (Step shared)

/-- Everything that runs is shared, unless one item runs alone. -/
def Separate (running : List α) : Prop :=
  (∀ item ∈ running, shared item = true) ∨ ∃ item, running = [item]

variable {shared}

theorem Separate.alone {running : List α} (h : Separate shared running) {item : α}
    (hmember : item ∈ running) (hexclusive : shared item = false) : running = [item] := by
  rcases h with hshared | ⟨other, hother⟩
  · have hitem := hshared item hmember
    rw [hexclusive] at hitem
    cases hitem
  · rw [hother] at hmember ⊢
    rw [List.mem_singleton.mp hmember]

theorem Step.separate {gate next : Gate α} (h : Step shared gate next)
    (hseparate : Separate shared gate.running) : Separate shared next.running := by
  cases h with
  | arrive item => exact hseparate
  | accept free =>
    rename_i item rest running
    rcases free with hempty | ⟨hitem, hothers⟩
    · right
      refine ⟨item, ?_⟩
      rw [hempty]
      rfl
    · left
      intro other hother
      rcases List.mem_append.mp hother with hold | hnew
      · exact hothers other hold
      · rw [List.mem_singleton.mp hnew]
        exact hitem
  | finish =>
    rename_i waiting before later item
    rcases hseparate with hshared | ⟨other, hother⟩
    · left
      intro kept hkept
      refine hshared kept ?_
      rcases List.mem_append.mp hkept with hbefore | hlater
      · exact List.mem_append_left _ hbefore
      · exact List.mem_append_right _ (List.mem_cons_of_mem _ hlater)
    · left
      have hlength := congrArg List.length hother
      simp only [List.length_append, List.length_cons, List.length_nil] at hlength
      have hbefore : before = [] := List.eq_nil_of_length_eq_zero (by omega)
      have hlater : later = [] := List.eq_nil_of_length_eq_zero (by omega)
      intro kept hkept
      rw [hbefore, hlater] at hkept
      cases hkept

theorem Steps.separate {gate next : Gate α} (h : Steps shared gate next)
    (hseparate : Separate shared gate.running) : Separate shared next.running := by
  induction h with
  | refl => exact hseparate
  | tail _ hstep ih => exact hstep.separate ih

theorem Steps.pass {rest : List α} (items : List α) :
    Steps shared ⟨items ++ rest, []⟩ ⟨rest, []⟩ := by
  induction items with
  | nil => exact .refl
  | cons item items ih =>
    have hadmit : Step shared ⟨item :: (items ++ rest), []⟩ ⟨items ++ rest, [] ++ [item]⟩ :=
      .accept (.inl rfl)
    have hfinish : Step shared ⟨items ++ rest, [] ++ item :: []⟩ ⟨items ++ rest, [] ++ []⟩ :=
      .finish
    exact .head hadmit (.head hfinish ih)

theorem Steps.enter {rest : List α} (items : List α) :
    ∀ running : List α, (∀ item ∈ items, shared item = true) →
      (∀ item ∈ running, shared item = true) →
      Steps shared ⟨items ++ rest, running⟩ ⟨rest, running ++ items⟩ := by
  induction items with
  | nil =>
    intro running _ _
    rw [List.append_nil]
    exact .refl
  | cons item items ih =>
    intro running hitems hrunning
    obtain ⟨hitem, hmore⟩ := List.forall_mem_cons.mp hitems
    have hadmit : Step shared ⟨item :: (items ++ rest), running⟩
        ⟨items ++ rest, running ++ [item]⟩ := .accept (.inr ⟨hitem, hrunning⟩)
    have hrest := ih (running ++ [item]) hmore (by
      intro other hother
      rcases List.mem_append.mp hother with hold | hnew
      · exact hrunning other hold
      · rw [List.mem_singleton.mp hnew]
        exact hitem)
    rw [List.append_assoc] at hrest
    exact .head hadmit hrest

theorem Steps.arrivals {running : List α} (items : List α) :
    ∀ waiting : List α, Steps shared ⟨waiting, running⟩ ⟨waiting ++ items, running⟩ := by
  induction items with
  | nil =>
    intro waiting
    rw [List.append_nil]
    exact .refl
  | cons item items ih =>
    intro waiting
    have hrest := ih (waiting ++ [item])
    rw [List.append_assoc] at hrest
    exact .head (.arrive item) hrest

theorem Steps.overlap {before run rest : List α} (hrun : ∀ item ∈ run, shared item = true) :
    Steps shared ⟨before ++ (run ++ rest), []⟩ ⟨rest, run⟩ :=
  (Steps.pass before).trans (Steps.enter run [] hrun nofun)

end MobiusAgent.OrderedAdmission
