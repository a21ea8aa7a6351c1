import Mathlib.Algebra.BigOperators.Group.List.Basic
import Mathlib.Algebra.Ring.Nat

/-!
# Shares of a total

A total is shared out in proportion to weights, and each share is rounded down.
The shares lack less than one for each weight together, so the rest that one of
them receives is smaller than their number.
-/

namespace MobiusAgent.ProportionalShares

variable {total whole : Nat} {weights : List Nat}

def share (total whole weight : Nat) : Nat := weight * total / whole

theorem share_mul_le (weight : Nat) : share total whole weight * whole ≤ weight * total :=
  Nat.div_mul_le_self _ _

theorem lt_share_mul (hwhole : 0 < whole) (weight : Nat) :
    weight * total < (share total whole weight + 1) * whole := by
  rw [Nat.mul_comm _ whole]
  exact Nat.lt_mul_div_succ _ hwhole

theorem share_le {weight : Nat} (h : weight ≤ whole) : share total whole weight ≤ total := by
  unfold share
  rcases Nat.eq_zero_or_pos whole with hzero | hwhole
  · rw [hzero, Nat.div_zero]
    exact Nat.zero_le _
  · exact Nat.div_le_of_le_mul (Nat.mul_le_mul_right _ h)

theorem sum_shares_mul_le (weights : List Nat) :
    (weights.map (share total whole)).sum * whole ≤ weights.sum * total := by
  induction weights with
  | nil => simp
  | cons weight rest ih =>
    have hweight := @share_mul_le total whole weight
    rw [List.map_cons, List.sum_cons, List.sum_cons, Nat.add_mul, Nat.add_mul]
    exact Nat.add_le_add hweight ih

theorem le_sum_shares_mul (hwhole : 0 < whole) (weights : List Nat) :
    weights.sum * total + weights.length ≤
      ((weights.map (share total whole)).sum + weights.length) * whole := by
  induction weights with
  | nil => simp
  | cons weight rest ih =>
    have hweight : weight * total + 1 ≤ (share total whole weight + 1) * whole :=
      lt_share_mul hwhole weight
    have hboth := Nat.add_le_add hweight ih
    rw [← Nat.add_mul] at hboth
    rw [List.map_cons, List.sum_cons, List.sum_cons, List.length_cons, Nat.add_mul]
    have hcount : share total whole weight + (rest.map (share total whole)).sum +
        (rest.length + 1) = share total whole weight + 1 +
          ((rest.map (share total whole)).sum + rest.length) := by omega
    rw [hcount]
    omega

theorem sum_shares_le (hwhole : 0 < weights.sum) :
    (weights.map (share total weights.sum)).sum ≤ total := by
  have hall := @sum_shares_mul_le total weights.sum weights
  rw [Nat.mul_comm weights.sum] at hall
  exact Nat.le_of_mul_le_mul_right hall hwhole

theorem lt_sum_shares (hwhole : 0 < weights.sum) :
    total < (weights.map (share total weights.sum)).sum + weights.length := by
  have hall := @le_sum_shares_mul total weights.sum hwhole weights
  have hsome : 0 < weights.length := by
    cases weights with
    | nil => simp at hwhole
    | cons weight rest => exact Nat.succ_pos _
  refine Nat.lt_of_mul_lt_mul_right (a := weights.sum) ?_
  rw [Nat.mul_comm total]
  omega

end MobiusAgent.ProportionalShares
