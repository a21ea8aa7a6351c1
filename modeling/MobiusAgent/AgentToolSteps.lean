import MobiusAgent.AgentTools

/-!
# Results in the order of their calls

The results of a batch arrive in any order. `order_results` puts them in the
order of the calls, and keeps the one result of each call.
-/

namespace MobiusAgent.AgentToolSteps

open ProtocolEvents ContextItems AgentTools

def callIds (calls : List ToolCall) : List String := calls.map (·.callId)

def resultIds (results : List ToolResult) : List String := results.map (·.callId)

theorem swapRemove_perm {α : Type} {items : List α} {index : Nat} {item : α}
    (h : items[index]? = some item) : items.Perm (item :: swapRemove items index) := by
  rcases List.eq_nil_or_concat items with rfl | ⟨init, last, rfl⟩
  · simp at h
  rw [List.concat_eq_append] at h ⊢
  have hlast : swapRemove (init ++ [last]) index = ((init ++ [last]).set index last).dropLast := by
    simp [swapRemove]
  rw [hlast]
  by_cases hindex : index < init.length
  · rw [List.getElem?_append_left hindex, List.getElem?_eq_getElem hindex] at h
    obtain rfl := Option.some.inj h
    rw [List.set_append_left _ _ hindex, List.dropLast_concat]
    have hset := (List.set_perm_cons_eraseIdx hindex last).cons init[index]
    have hinit := (List.getElem_cons_eraseIdx_perm hindex).symm.append_right [last]
    calc init ++ [last]
      _ |>.Perm (init[index] :: init.eraseIdx index ++ [last]) := hinit
      _ |>.Perm (last :: init[index] :: init.eraseIdx index) := List.perm_append_singleton _ _
      _ |>.Perm (init[index] :: last :: init.eraseIdx index) := .swap _ _ _
      _ |>.Perm (init[index] :: init.set index last) := hset.symm
  · have hlength : index < (init ++ [last]).length := (List.getElem?_eq_some_iff.mp h).1
    have hindex : index = init.length := by
      rw [List.length_append, List.length_singleton] at hlength
      omega
    subst hindex
    simp only [List.getElem?_concat_length, Option.some.injEq] at h
    subst h
    simp only [List.set_append_right _ _ (Nat.le_refl _), Nat.sub_self, List.set_cons_zero,
      List.dropLast_concat]
    exact List.perm_append_singleton _ _

/-- `order_results` keeps the result of each call, in the order of the calls. -/
theorem orderResults_ids {calls : List ToolCall} {results : List ToolResult}
    (hcalls : (callIds calls).Nodup) (hresults : (resultIds results).Nodup) :
    resultIds (orderResults calls results) =
      (callIds calls).filter fun id => (resultIds results).contains id := by
  induction calls generalizing results with
  | nil => rfl
  | cons call rest ih =>
    obtain ⟨hfresh, hrest⟩ := List.nodup_cons.mp hcalls
    unfold orderResults
    cases hposition : rposition (fun result : ToolResult => result.callId == call.callId) results with
    | none =>
      have habsent : (resultIds results).contains call.callId = false := by
        rw [← Bool.not_eq_true, List.contains_iff_mem]
        intro hmem
        obtain ⟨result, hresult, hid⟩ := List.mem_map.mp hmem
        have hnone := rposition_none hposition result hresult
        simp [hid] at hnone
      dsimp only
      rw [ih hrest hresults]
      simp only [callIds, List.map_cons, List.filter_cons, habsent, Bool.false_eq_true, if_false]
    | some index =>
      dsimp only
      obtain ⟨⟨result, hfound, hmatch⟩, _⟩ := rposition_some hposition
      have hid : result.callId = call.callId := by simpa using hmatch
      have hperm : (resultIds results).Perm
          (call.callId :: resultIds (swapRemove results index)) := by
        rw [← hid]
        exact (swapRemove_perm hfound).map _
      have hremaining : (resultIds (swapRemove results index)).Nodup :=
        (List.nodup_cons.mp (hperm.nodup_iff.mp hresults)).2
      have hpresent : (resultIds results).contains call.callId = true :=
        List.contains_iff_mem.mpr (hperm.mem_iff.mpr List.mem_cons_self)
      rw [hfound]
      dsimp only
      have hcons : resultIds (result :: orderResults rest (swapRemove results index)) =
          call.callId :: resultIds (orderResults rest (swapRemove results index)) := by
        simp [resultIds, hid]
      rw [hcons, ih hrest hremaining]
      simp only [callIds, List.map_cons, List.filter_cons, hpresent, if_true]
      refine congrArg (call.callId :: ·) (List.filter_congr fun id hmem => ?_)
      have hne : id ≠ call.callId := by
        rintro rfl
        exact hfresh hmem
      rw [Bool.eq_iff_iff, List.contains_iff_mem, List.contains_iff_mem, hperm.mem_iff]
      simp [hne]

end MobiusAgent.AgentToolSteps
