import Mathlib.Algebra.Ring.Nat
import Mathlib.Data.List.Basic

/-!
# Numbers as decimal texts

The text of a natural number consists of digits, each of them one byte, and a
larger number has no shorter text.
-/

namespace MobiusAgent.DecimalTexts

theorem toString_digits (number : Nat) : ∀ c ∈ (toString number).toList, c.isDigit = true := by
  intro c hc
  have hrepr : (toString number).toList = Nat.toDigits 10 number := by
    show (Nat.repr number).toList = _
    rw [Nat.repr_eq_ofList_toDigits, String.toList_ofList]
  rw [hrepr] at hc
  exact Nat.isDigit_of_mem_toDigits (by omega) (by omega) hc

theorem length_toString_mono {first second : Nat} (h : first ≤ second) :
    (toString first).length ≤ (toString second).length := by
  have hbound : second < 10 ^ (toString second).length :=
    (Nat.length_repr_le_iff Nat.length_repr_pos).mp (Nat.le_refl _)
  exact (Nat.length_repr_le_iff Nat.length_repr_pos).mpr (Nat.lt_of_le_of_lt h hbound)

theorem isDigit_range {c : Char} (h : c.isDigit = true) :
    48 ≤ c.val.toNat ∧ c.val.toNat ≤ 57 := by
  unfold Char.isDigit at h
  rw [Bool.and_eq_true, decide_eq_true_eq, decide_eq_true_eq] at h
  exact ⟨UInt32.le_iff_toNat_le.mp h.1, UInt32.le_iff_toNat_le.mp h.2⟩

theorem toString_bytes (number : Nat) :
    ((toString number).toList.map Char.utf8Size).sum = (toString number).length := by
  have hsizes : (toString number).toList.map Char.utf8Size =
      List.replicate (toString number).toList.length 1 := by
    refine List.eq_replicate_iff.mpr ⟨List.length_map _, fun size hsize => ?_⟩
    obtain ⟨c, hc, rfl⟩ := List.mem_map.mp hsize
    rw [Char.utf8Size_eq_one_iff, UInt32.le_iff_toNat_le]
    exact Nat.le_trans (isDigit_range (toString_digits number c hc)).2 (by decide)
  rw [hsizes, List.sum_replicate_nat, Nat.mul_one, String.length_toList]

end MobiusAgent.DecimalTexts
