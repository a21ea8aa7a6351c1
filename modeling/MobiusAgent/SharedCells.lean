import Mathlib.Data.List.Basic

/-!
# Lists of reference-counted cells, written by copying

A list holds its elements as addresses of cells, and other lists may hold the
same cells. A pass goes once over the list and decides for each slot whether
it stays, goes or is written. A write takes place in the cell only when this
slot is its one holder; otherwise it goes to a new cell. `pass_passed` states
what a pass does whatever is shared: the values that the list shows are those
of the same pass over a plain list, a slot that stays keeps its address, and
no other holder sees a write.
-/

namespace MobiusAgent.SharedCells

variable {V : Type}

/-- Cells by address. The addresses from `next` on are free. -/
structure Cells (V : Type) where
  value : Nat → V
  next : Nat

/-- What a pass does with one slot. -/
inductive Edit (V : Type) where
  | keep
  | drop
  /-- The slot shows another value. -/
  | write (value : V)

/-- The cells with one of them written. -/
def Cells.put (cells : Cells V) (address : Nat) (value : V) : Cells V :=
  { cells with value := fun other => if other = address then value else cells.value other }

/-- A write through a slot of a cell with this many holders: in place if there is no
other, else to a new cell. -/
def Cells.makeMut (cells : Cells V) (holders address : Nat) (value : V) : Cells V × Nat :=
  if holders = 1 then (cells.put address value, address)
  else ({ cells.put cells.next value with next := cells.next + 1 }, cells.next)

/-- What a pass leaves. -/
structure Result (V : Type) where
  cells : Cells V
  slots : List Nat
  /-- Whether some edit was flagged. -/
  flag : Bool

/-- The pass over the slots of `todo`, after those of `done`. The cells have `others`
holders outside the list, and the edit of a slot comes with a flag. -/
def pass (others : Nat → Nat) (edit : Nat → V → Edit V × Bool) (cells : Cells V)
    (done : List Nat) (index : Nat) (flag : Bool) : List Nat → Result V
  | [] => ⟨cells, done, flag⟩
  | address :: rest =>
    let decision := edit index (cells.value address)
    match decision.1 with
    | .keep => pass others edit cells (done ++ [address]) (index + 1) (flag || decision.2) rest
    | .drop => pass others edit cells done (index + 1) (flag || decision.2) rest
    | .write value =>
      let holders := others address + (done ++ address :: rest).count address
      let written := cells.makeMut holders address value
      pass others edit written.1 (done ++ [written.2]) (index + 1) (flag || decision.2) rest

/-- The same pass over a plain list of values. -/
def applied (edit : Nat → V → Edit V × Bool) (index : Nat) : List V → List V × Bool
  | [] => ([], false)
  | value :: rest =>
    let decision := edit index value
    let later := applied edit (index + 1) rest
    match decision.1 with
    | .keep => (value :: later.1, decision.2 || later.2)
    | .drop => (later.1, decision.2 || later.2)
    | .write written => (written :: later.1, decision.2 || later.2)

/-- What becomes of the slots of a list from an index on, and of the flag. -/
inductive Passed (edit : Nat → V → Edit V × Bool) (before after : Cells V) :
    Nat → List Nat → List Nat → Bool → Prop where
  /-- There are no more slots. -/
  | done (index : Nat) : Passed edit before after index [] [] false
  /-- A slot stays, with its address and its value. -/
  | kept {index address : Nat} {todo slots : List Nat} {raised flag : Bool}
      (decided : edit index (before.value address) = (.keep, raised))
      (same : after.value address = before.value address)
      (rest : Passed edit before after (index + 1) todo slots flag) :
      Passed edit before after index (address :: todo) (address :: slots) (raised || flag)
  | dropped {index address : Nat} {todo slots : List Nat} {raised flag : Bool}
      (decided : edit index (before.value address) = (.drop, raised))
      (rest : Passed edit before after (index + 1) todo slots flag) :
      Passed edit before after index (address :: todo) slots (raised || flag)
  | written {index address written : Nat} {value : V} {todo slots : List Nat}
      {raised flag : Bool}
      (decided : edit index (before.value address) = (.write value, raised))
      (shows : after.value written = value)
      (rest : Passed edit before after (index + 1) todo slots flag) :
      Passed edit before after index (address :: todo) (written :: slots) (raised || flag)

section Writing

@[simp]
theorem Cells.put_self (cells : Cells V) (address : Nat) (value : V) :
    (cells.put address value).value address = value := by
  simp [Cells.put]

theorem Cells.put_ne {address other : Nat} (h : other ≠ address) (cells : Cells V) (value : V) :
    (cells.put address value).value other = cells.value other := by
  simp [Cells.put, h]

theorem Cells.makeMut_self (cells : Cells V) (holders address : Nat) (value : V) :
    (cells.makeMut holders address value).1.value (cells.makeMut holders address value).2 =
      value := by
  unfold Cells.makeMut
  by_cases hone : holders = 1
  · rw [if_pos hone]
    exact cells.put_self address value
  · rw [if_neg hone]
    exact cells.put_self cells.next value

theorem Cells.makeMut_other {cells : Cells V} {holders address other : Nat} (value : V)
    (hother : other < cells.next) (hheld : other = address → holders ≠ 1) :
    (cells.makeMut holders address value).1.value other = cells.value other := by
  unfold Cells.makeMut
  by_cases hone : holders = 1
  · rw [if_pos hone]
    have hne : other ≠ address := fun h => hheld h hone
    exact Cells.put_ne hne cells value
  · rw [if_neg hone]
    have hne : other ≠ cells.next := by omega
    exact Cells.put_ne hne cells value

theorem Cells.next_le_makeMut (cells : Cells V) (holders address : Nat) (value : V) :
    cells.next ≤ (cells.makeMut holders address value).1.next := by
  unfold Cells.makeMut
  by_cases hone : holders = 1
  · rw [if_pos hone]
    exact Nat.le_refl _
  · rw [if_neg hone]
    exact Nat.le_succ _

theorem Cells.makeMut_lt {cells : Cells V} {address : Nat} (haddress : address < cells.next)
    (holders : Nat) (value : V) :
    (cells.makeMut holders address value).2 < (cells.makeMut holders address value).1.next := by
  unfold Cells.makeMut
  by_cases hone : holders = 1
  · rw [if_pos hone]
    exact haddress
  · rw [if_neg hone]
    exact Nat.lt_succ_self _

end Writing

section Passing

variable {edit : Nat → V → Edit V × Bool} {before after : Cells V} {index : Nat}
  {todo slots : List Nat} {flag : Bool}

theorem Passed.of_values {other : Cells V} (h : Passed edit other after index todo slots flag)
    (hvalues : ∀ address ∈ todo, other.value address = before.value address) :
    Passed edit before after index todo slots flag := by
  induction h with
  | done index => exact .done index
  | kept decided same _ ih =>
    have hfirst := hvalues _ List.mem_cons_self
    have hrest := ih fun address hmem => hvalues address (List.mem_cons_of_mem _ hmem)
    exact .kept (hfirst ▸ decided) (same.trans hfirst) hrest
  | dropped decided _ ih =>
    have hfirst := hvalues _ List.mem_cons_self
    have hrest := ih fun address hmem => hvalues address (List.mem_cons_of_mem _ hmem)
    exact .dropped (hfirst ▸ decided) hrest
  | written decided shows _ ih =>
    have hfirst := hvalues _ List.mem_cons_self
    have hrest := ih fun address hmem => hvalues address (List.mem_cons_of_mem _ hmem)
    exact .written (hfirst ▸ decided) shows hrest

theorem Passed.values (h : Passed edit before after index todo slots flag) :
    (slots.map after.value, flag) = applied edit index (todo.map before.value) := by
  induction h with
  | done index => rfl
  | kept decided same _ ih =>
    simp only [List.map_cons, applied, decided, ← ih, same]
  | dropped decided _ ih =>
    simp only [List.map_cons, applied, decided, ← ih]
  | written decided shows _ ih =>
    simp only [List.map_cons, applied, decided, ← ih, shows]

theorem Passed.all (h : Passed edit before after index todo slots flag) {Good : V → Prop}
    (hbefore : ∀ address ∈ todo, Good (before.value address))
    (hwrites : ∀ index old value raised, Good old → edit index old = (.write value, raised) →
      Good value) :
    ∀ address ∈ slots, Good (after.value address) := by
  induction h with
  | done index => exact fun _ hmem => nomatch hmem
  | kept _ same _ ih =>
    have hrest := ih fun address hmem => hbefore address (List.mem_cons_of_mem _ hmem)
    intro address hmem
    cases List.mem_cons.mp hmem with
    | inl hfirst => rw [hfirst, same]; exact hbefore _ List.mem_cons_self
    | inr hlater => exact hrest address hlater
  | dropped _ _ ih =>
    exact ih fun address hmem => hbefore address (List.mem_cons_of_mem _ hmem)
  | written decided shows _ ih =>
    have hrest := ih fun address hmem => hbefore address (List.mem_cons_of_mem _ hmem)
    have hgood := hwrites _ _ _ _ (hbefore _ List.mem_cons_self) decided
    intro address hmem
    cases List.mem_cons.mp hmem with
    | inl hfirst => rw [hfirst, shows]; exact hgood
    | inr hlater => exact hrest address hlater

theorem Passed.paired (h : Passed edit before after index todo slots flag) {removed : V → Bool}
    {Related : Nat → Nat → Prop}
    (hremoved : ∀ index value, removed value = true ↔ (edit index value).1 = .drop)
    (hkept : ∀ index address, (edit index (before.value address)).1 = .keep →
      after.value address = before.value address → Related address address)
    (hwritten : ∀ index address written,
      (edit index (before.value address)).1 = .write (after.value written) →
        Related address written) :
    List.Forall₂ Related (todo.filter fun address => !removed (before.value address)) slots := by
  induction h with
  | done index => exact .nil
  | @kept index address _ _ _ _ decided same _ ih =>
    have hstays : removed (before.value address) = false := by
      rw [Bool.eq_false_iff, ne_eq, hremoved index, decided]
      exact fun h => by cases h
    rw [List.filter_cons_of_pos (by simp [hstays])]
    exact .cons (hkept index address (by rw [decided]) same) ih
  | @dropped index address _ _ _ _ decided _ ih =>
    have hgoes : removed (before.value address) = true := by
      rw [hremoved index, decided]
    rw [List.filter_cons_of_neg (by simp [hgoes])]
    exact ih
  | @written index address written _ _ _ _ _ decided shows _ ih =>
    have hstays : removed (before.value address) = false := by
      rw [Bool.eq_false_iff, ne_eq, hremoved index, decided]
      exact fun h => by cases h
    rw [List.filter_cons_of_pos (by simp [hstays])]
    exact .cons (hwritten index address written (by rw [decided, shows])) ih

theorem Passed.place (h : Passed edit before after index todo slots flag)
    (hstay : ∀ index value, (edit index value).1 ≠ .drop) {place address : Nat}
    (haddress : todo[place]? = some address)
    (hkeep : (edit (index + place) (before.value address)).1 = .keep) :
    slots[place]? = some address := by
  induction h generalizing place with
  | done index => simp at haddress
  | @kept index first _ _ _ _ _ _ _ ih =>
    cases place with
    | zero => simpa using haddress
    | succ place =>
      rw [List.getElem?_cons_succ] at haddress ⊢
      exact ih haddress (by rw [Nat.add_right_comm, Nat.add_assoc]; exact hkeep)
  | @dropped index first _ _ _ _ decided _ _ =>
    exact absurd (by rw [decided]) (hstay index (before.value first))
  | @written index first written value _ _ _ _ decided _ _ ih =>
    cases place with
    | zero =>
      obtain rfl : first = address := by simpa using haddress
      rw [Nat.add_zero, decided] at hkeep
      cases hkeep
    | succ place =>
      rw [List.getElem?_cons_succ] at haddress ⊢
      exact ih haddress (by rw [Nat.add_right_comm, Nat.add_assoc]; exact hkeep)

/-- What one pass does from a state in which these slots are done. -/
structure PassSpec (others : Nat → Nat) (edit : Nat → V → Edit V × Bool) (cells : Cells V)
    (done : List Nat) (index : Nat) (flag : Bool) (todo : List Nat) (result : Result V) :
    Prop where
  /-- The slots left follow those done, and so does the flag. -/
  passed : ∃ slots raised, result.slots = done ++ slots ∧ result.flag = (flag || raised) ∧
    Passed edit cells result.cells index todo slots raised
  allocated : ∀ address ∈ result.slots, address < result.cells.next
  /-- The slots done and the cells held elsewhere show what they showed. -/
  framed : ∀ address, address < cells.next → 0 < others address ∨ address ∈ done →
    result.cells.value address = cells.value address
  grows : cells.next ≤ result.cells.next

/-- A pass meets its specification: each write takes the one cell without other holders,
or a new one. -/
theorem pass_passed (others : Nat → Nat) (edit : Nat → V → Edit V × Bool) (cells : Cells V)
    (done : List Nat) (index : Nat) (flag : Bool) (todo : List Nat)
    (hdone : ∀ address ∈ done, address < cells.next)
    (htodo : ∀ address ∈ todo, address < cells.next) :
    PassSpec others edit cells done index flag todo
      (pass others edit cells done index flag todo) := by
  induction todo generalizing cells done index flag with
  | nil =>
    exact ⟨⟨[], false, by simp [pass], by simp [pass], .done index⟩, hdone, fun _ _ _ => rfl,
      Nat.le_refl _⟩
  | cons address rest ih =>
    have haddress := htodo address List.mem_cons_self
    have hrest : ∀ other ∈ rest, other < cells.next := fun other hmem =>
      htodo other (List.mem_cons_of_mem _ hmem)
    cases hdecided : edit index (cells.value address) with
    | mk decision raised =>
      cases decision with
      | keep =>
        have hnow : ∀ other ∈ done ++ [address], other < cells.next := by
          intro other hmem
          cases List.mem_append.mp hmem with
          | inl h => exact hdone other h
          | inr h => rw [List.mem_singleton.mp h]; exact haddress
        have hspec := ih cells (done ++ [address]) (index + 1) (flag || raised) hnow hrest
        obtain ⟨slots, later, hslots, hflag, hpassed⟩ := hspec.passed
        have hsame := hspec.framed address haddress (.inr (by simp))
        simp only [pass, hdecided]
        exact {
          passed := ⟨address :: slots, raised || later, by rw [hslots]; simp,
            by rw [hflag, Bool.or_assoc], .kept hdecided hsame hpassed⟩
          allocated := hspec.allocated
          framed := fun other hother hheld =>
            hspec.framed other hother (hheld.imp_right fun h => by simp [h])
          grows := hspec.grows }
      | drop =>
        have hspec := ih cells done (index + 1) (flag || raised) hdone hrest
        obtain ⟨slots, later, hslots, hflag, hpassed⟩ := hspec.passed
        simp only [pass, hdecided]
        exact {
          passed := ⟨slots, raised || later, hslots, by rw [hflag, Bool.or_assoc],
            .dropped hdecided hpassed⟩
          allocated := hspec.allocated
          framed := hspec.framed
          grows := hspec.grows }
      | write value =>
        let holders := others address + (done ++ address :: rest).count address
        let written := cells.makeMut holders address value
        have hgrows : cells.next ≤ written.1.next := cells.next_le_makeMut holders address value
        -- A cell with another holder, here or elsewhere, has more than one.
        have hother : ∀ other, other < cells.next →
            0 < others other ∨ other ∈ done ∨ other ∈ rest →
              written.1.value other = cells.value other := by
          intro other hlt hheld
          refine Cells.makeMut_other value hlt fun heq hone => ?_
          subst heq
          have hcount : holders =
              others other + (done.count other + (rest.count other + 1)) := by
            simp [holders, List.count_append]
          rcases hheld with h | h | h
          · omega
          · have := List.count_pos_iff.mpr h
            omega
          · have := List.count_pos_iff.mpr h
            omega
        have hnow : ∀ other ∈ done ++ [written.2], other < written.1.next := by
          intro other hmem
          cases List.mem_append.mp hmem with
          | inl h => exact Nat.lt_of_lt_of_le (hdone other h) hgrows
          | inr h =>
            rw [List.mem_singleton.mp h]
            exact Cells.makeMut_lt haddress holders value
        have hspec := ih written.1 (done ++ [written.2]) (index + 1) (flag || raised) hnow
          fun other hmem => Nat.lt_of_lt_of_le (hrest other hmem) hgrows
        obtain ⟨slots, later, hslots, hflag, hpassed⟩ := hspec.passed
        have hshows : (pass others edit written.1 (done ++ [written.2]) (index + 1)
            (flag || raised) rest).cells.value written.2 = value := by
          rw [hspec.framed written.2 (hnow written.2 (by simp)) (.inr (by simp))]
          exact cells.makeMut_self holders address value
        have hpassed' := hpassed.of_values fun other hmem =>
          hother other (hrest other hmem) (.inr (.inr hmem))
        simp only [pass, hdecided]
        exact {
          passed := ⟨written.2 :: slots, raised || later, by rw [hslots]; simp,
            by rw [hflag, Bool.or_assoc], .written hdecided hshows hpassed'⟩
          allocated := hspec.allocated
          framed := fun other hlt hheld => by
            have hlater := hspec.framed other (Nat.lt_of_lt_of_le hlt hgrows)
              (hheld.imp_right fun h => by simp [h])
            have hnow := hother other hlt (hheld.imp_right .inl)
            exact hlater.trans hnow
          grows := Nat.le_trans hgrows hspec.grows }

theorem pass_keep {others : Nat → Nat} {edit : Nat → V → Edit V × Bool} {cells : Cells V}
    {todo : List Nat} {index : Nat} (done : List Nat) (flag : Bool)
    (hkeep : ∀ place address, todo[place]? = some address →
      edit (index + place) (cells.value address) = (.keep, false)) :
    pass others edit cells done index flag todo = ⟨cells, done ++ todo, flag⟩ := by
  induction todo generalizing index done with
  | nil => simp [pass]
  | cons address rest ih =>
    have hfirst := hkeep 0 address (by simp)
    rw [Nat.add_zero] at hfirst
    have hrest := @ih (index + 1) (done ++ [address]) fun place other hother => by
      have hplace := hkeep (place + 1) other (by simpa using hother)
      rwa [← Nat.add_assoc, Nat.add_right_comm] at hplace
    simp only [pass, hfirst, Bool.or_false, hrest, List.append_assoc, List.singleton_append]

end Passing

end MobiusAgent.SharedCells
