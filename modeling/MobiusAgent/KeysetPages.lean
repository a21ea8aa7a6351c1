import Mathlib.Data.List.Sort
import Mathlib.Order.Defs.LinearOrder

/-!
# Pages of rows in the order of a key

Rows with a key in a linear order are read from the highest key down. A page
ends at some row, and the next one starts below the key of this row. As long
as the rows stay the same, nothing is read twice and nothing is passed over.
-/

namespace MobiusAgent.KeysetPages

variable {Row Key : Type} [LinearOrder Key] (key : Row → Key)

def below (rows : List Row) (cursor : Option Key) : List Row :=
  (rows.filter fun row => cursor.all fun bound => decide (key row < bound)).insertionSort
    fun first second => key second ≤ key first

theorem below_perm (rows : List Row) (cursor : Option Key) :
    (below key rows cursor).Perm
      (rows.filter fun row => cursor.all fun bound => decide (key row < bound)) :=
  List.perm_insertionSort _ _

theorem below_none_perm (rows : List Row) : (below key rows none).Perm rows := by
  have h := below_perm key rows none
  simpa using h

theorem below_sorted (rows : List Row) (cursor : Option Key) :
    (below key rows cursor).Pairwise fun first second => key second ≤ key first :=
  List.pairwise_insertionSort _ _

variable {key} {rows : List Row}

theorem below_strict (hkeys : (rows.map key).Nodup) (cursor : Option Key) :
    (below key rows cursor).Pairwise fun first second => key second < key first := by
  have hnodup : ((below key rows cursor).map key).Nodup := by
    rw [((below_perm key rows cursor).map key).nodup_iff]
    exact hkeys.sublist (List.filter_sublist.map key)
  have hdistinct : (below key rows cursor).Pairwise fun first second => key first ≠ key second :=
    List.pairwise_map.mp hnodup
  refine ((below_sorted key rows cursor).and hdistinct).imp ?_
  rintro first second ⟨hle, hne⟩
  exact lt_of_le_of_ne hle (Ne.symm hne)

theorem below_next (hkeys : (rows.map key).Nodup) {cursor : Option Key} {before rest : List Row}
    {last : Row} (h : below key rows cursor = before ++ last :: rest) :
    below key rows (some (key last)) = rest := by
  have hstrict := below_strict hkeys cursor
  rw [h] at hstrict
  obtain ⟨_, htail, hacross⟩ := List.pairwise_append.mp hstrict
  obtain ⟨hlast, hrest⟩ := List.pairwise_cons.mp htail
  have hfilter : (below key rows cursor).filter (fun row => decide (key row < key last)) = rest := by
    rw [h, List.filter_append, List.filter_cons]
    have hbefore : before.filter (fun row => decide (key row < key last)) = [] := by
      rw [List.filter_eq_nil_iff]
      intro row hrow
      have hgreater := hacross row hrow last List.mem_cons_self
      simpa using hgreater.le
    have hkept : rest.filter (fun row => decide (key row < key last)) = rest := by
      rw [List.filter_eq_self]
      intro row hrow
      simpa using hlast row hrow
    rw [hbefore, hkept]
    simp
  have hmember : last ∈ below key rows cursor := by
    rw [h]
    simp
  have hbound : ∀ bound, cursor = some bound → key last < bound := by
    intro bound hcursor
    have hfound := (List.mem_filter.mp ((below_perm key rows cursor).mem_iff.mp hmember)).2
    rw [hcursor] at hfound
    simpa using hfound
  have hperm : (below key rows (some (key last))).Perm rest := by
    rw [← hfilter]
    refine (below_perm key rows _).trans ?_
    have hinner := (below_perm key rows cursor).filter fun row => decide (key row < key last)
    refine List.Perm.trans (.of_eq ?_) hinner.symm
    rw [List.filter_filter]
    refine List.filter_congr ?_
    intro row _
    cases cursor with
    | none => simp
    | some bound =>
      have hlt := hbound bound rfl
      by_cases hrow : key row < key last
      · have htransitive := hrow.trans hlt
        simp [hrow, htransitive]
      · simp [hrow]
  refine hperm.eq_of_pairwise ?_ (below_strict hkeys _) hrest
  intro first second _ _ hfirst hsecond
  exact absurd hfirst hsecond.not_gt

end MobiusAgent.KeysetPages
