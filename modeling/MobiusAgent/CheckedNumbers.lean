import Mathlib.Algebra.Ring.Nat
import Mathlib.Data.List.Basic

/-!
# Numbers of bounded types

An operation on unsigned numbers of a fixed width has no result where the exact
one is out of range. A computation with these operations that has a result
overflows nowhere.
-/

namespace MobiusAgent.CheckedNumbers

/-- A number, unless it is above the limit of its type. -/
def fitting (limit value : Nat) : Option Nat := if value ≤ limit then some value else none

/-- A difference, unless it is negative. -/
def minus (first second : Nat) : Option Nat :=
  if second ≤ first then some (first - second) else none

/-- The sum of numbers, added one by one. -/
def sumFitting (limit : Nat) : Nat → List Nat → Option Nat
  | sum, [] => some sum
  | sum, value :: rest => (fitting limit (sum + value)).bind fun next => sumFitting limit next rest

theorem fitting_of_le {limit value : Nat} (h : value ≤ limit) : fitting limit value = some value :=
  if_pos h

theorem minus_of_le {first second : Nat} (h : second ≤ first) :
    minus first second = some (first - second) := if_pos h

theorem minus_of_lt {first second : Nat} (h : first < second) : minus first second = none :=
  if_neg (Nat.not_le.mpr h)

theorem sumFitting_of_le {limit sum : Nat} {values : List Nat} (h : sum + values.sum ≤ limit) :
    sumFitting limit sum values = some (sum + values.sum) := by
  induction values generalizing sum with
  | nil => rfl
  | cons value rest ih =>
    rw [List.sum_cons, ← Nat.add_assoc] at h ⊢
    rw [sumFitting, fitting_of_le (Nat.le_trans (Nat.le_add_right _ _) h), Option.bind_some]
    exact ih h

end MobiusAgent.CheckedNumbers
