import Mathlib.Data.List.TakeWhile
import MobiusAgent.OrderedAdmission
import MobiusAgent.ProtocolEvents

/-!
# When the calls of a batch run

`execute_batch` of `middleware/tools.rs` takes calls one by one: it runs a
maximal run of parallel calls together and an exclusive call by itself. The
calls are those of a gate that admits them in order, so an exclusive call runs
alone. While a response streams, the gate is that of `agent/turn/streaming.rs`.
-/

namespace MobiusAgent.ToolBatches

open ProtocolEvents OrderedAdmission

variable (isParallel : ToolCall → Bool)

/-- The state of `execute_batch`. -/
structure Batch where
  calls : List ToolCall
  /-- The calls of the current run that were not polled yet. -/
  queued : List ToolCall
  running : List ToolCall

/-- One step of `execute_batch`. -/
inductive BatchStep : Batch → Batch → Prop
  /-- A run of parallel calls is taken, after the run before it is over. -/
  | parallel {call : ToolCall} {rest : List ToolCall} (kind : isParallel call = true) :
      BatchStep ⟨call :: rest, [], []⟩
        ⟨rest.dropWhile isParallel, call :: rest.takeWhile isParallel, []⟩
  /-- An exclusive call is taken, after the run before it is over. -/
  | exclusive {call : ToolCall} {rest : List ToolCall} (kind : isParallel call = false) :
      BatchStep ⟨call :: rest, [], []⟩ ⟨rest, [call], []⟩
  /-- The next call of the run starts. -/
  | poll {call : ToolCall} {calls queued running : List ToolCall} :
      BatchStep ⟨calls, call :: queued, running⟩ ⟨calls, queued, running ++ [call]⟩
  | finish {call : ToolCall} {calls queued before later : List ToolCall} :
      BatchStep ⟨calls, queued, before ++ call :: later⟩ ⟨calls, queued, before ++ later⟩

def BatchSteps : Batch → Batch → Prop := Relation.ReflTransGen (BatchStep isParallel)

/-- A batch before any of its calls is taken. -/
def Batch.start (calls : List ToolCall) : Batch := ⟨calls, [], []⟩

def Batch.gate (batch : Batch) : Gate ToolCall := ⟨batch.queued ++ batch.calls, batch.running⟩

/-- A run of parallel calls that no neighbour extends. -/
structure MaximalRun (calls before run rest : List ToolCall) : Prop where
  split : calls = before ++ (run ++ rest)
  nonempty : run ≠ []
  parallel : ∀ call ∈ run, isParallel call = true
  first : before = [] ∨ ∃ earlier call, before = earlier ++ [call] ∧ isParallel call = false
  last : rest.takeWhile isParallel = []

variable {isParallel}

/-- What is queued and running belongs to one run. -/
structure OneRun (isParallel : ToolCall → Bool) (batch : Batch) : Prop where
  calls : (∀ call ∈ batch.queued ++ batch.running, isParallel call = true) ∨
    ∃ call, batch.queued ++ batch.running = [call]

theorem BatchStep.simulates {batch next : Batch} (h : BatchStep isParallel batch next)
    (hrun : OneRun isParallel batch) :
    OneRun isParallel next ∧ Steps isParallel batch.gate next.gate := by
  cases h with
  | parallel kind =>
    rename_i call rest
    have hgate : Batch.gate ⟨rest.dropWhile isParallel, call :: rest.takeWhile isParallel, []⟩ =
        Batch.gate ⟨call :: rest, [], []⟩ := by
      unfold Batch.gate
      rw [List.cons_append, List.takeWhile_append_dropWhile]
      rfl
    refine ⟨⟨.inl ?_⟩, ?_⟩
    · intro other hother
      rw [List.append_nil] at hother
      rcases List.mem_cons.mp hother with hsame | hmore
      · rw [hsame]
        exact kind
      · exact List.all_eq_true.mp List.all_takeWhile other hmore
    · rw [hgate]
      exact .refl
  | exclusive kind =>
    rename_i call rest
    exact ⟨⟨.inr ⟨call, rfl⟩⟩, .refl⟩
  | poll =>
    rename_i call calls queued running
    have hmembers : ∀ other, other ∈ queued ++ (running ++ [call]) →
        other ∈ call :: queued ++ running := by
      intro other hother
      simp only [List.mem_append, List.mem_cons, List.not_mem_nil, or_false] at hother ⊢
      tauto
    rcases hrun.calls with hparallel | ⟨only, honly⟩
    · refine ⟨⟨.inl fun other hother => hparallel other (hmembers other hother)⟩, .single ?_⟩
      refine Step.accept (.inr ⟨hparallel call List.mem_cons_self, ?_⟩)
      intro other hother
      exact hparallel other (List.mem_append_right _ hother)
    · obtain ⟨hcall, hnone⟩ := List.cons.inj honly
      obtain ⟨hqueued, hrunning⟩ := List.append_eq_nil_iff.mp hnone
      simp only at hqueued hrunning
      refine ⟨⟨.inr ⟨call, ?_⟩⟩, .single ?_⟩
      · rw [hqueued, hrunning]
        rfl
      · exact Step.accept (.inl hrunning)
  | finish =>
    rename_i call calls queued before later
    refine ⟨⟨.inl ?_⟩, .single Step.finish⟩
    intro other hother
    rcases hrun.calls with hparallel | ⟨only, honly⟩
    · refine hparallel other ?_
      simp only [List.mem_append, List.mem_cons] at hother ⊢
      tauto
    · have hlength := congrArg List.length honly
      simp only [List.length_append, List.length_cons, List.length_nil] at hlength
      have hother' := List.length_pos_of_mem hother
      simp only [List.length_append] at hother'
      omega

theorem BatchSteps.simulates {batch next : Batch} (h : BatchSteps isParallel batch next)
    (hrun : OneRun isParallel batch) :
    OneRun isParallel next ∧ Steps isParallel batch.gate next.gate := by
  induction h with
  | refl => exact ⟨hrun, .refl⟩
  | tail _ hstep ih =>
    obtain ⟨hnext, hgate⟩ := hstep.simulates ih.1
    exact ⟨hnext, ih.2.trans hgate⟩

theorem exclusive_alone {calls : List ToolCall} {batch : Batch}
    (h : BatchSteps isParallel (.start calls) batch) {call : ToolCall}
    (hrunning : call ∈ batch.running) (hexclusive : isParallel call = false) :
    batch.running = [call] := by
  have hstart : OneRun isParallel (.start calls) := ⟨.inl nofun⟩
  exact ((h.simulates hstart).2.separate (.inl nofun)).alone hrunning hexclusive

theorem BatchSteps.pollAll {calls : List ToolCall} (queued : List ToolCall) :
    ∀ running, BatchSteps isParallel ⟨calls, queued, running⟩ ⟨calls, [], running ++ queued⟩ := by
  induction queued with
  | nil =>
    intro running
    rw [List.append_nil]
    exact .refl
  | cons call queued ih =>
    intro running
    have hrest := ih (running ++ [call])
    rw [List.append_assoc] at hrest
    exact .head .poll hrest

theorem BatchSteps.finishAll {calls : List ToolCall} (running : List ToolCall) :
    BatchSteps isParallel ⟨calls, [], running⟩ ⟨calls, [], []⟩ := by
  induction running with
  | nil => exact .refl
  | cons call running ih =>
    have hfinish : BatchStep isParallel ⟨calls, [], [] ++ call :: running⟩
        ⟨calls, [], [] ++ running⟩ := .finish
    exact .head hfinish ih

theorem BatchSteps.pass {rest : List ToolCall} (bound : Nat) :
    ∀ before : List ToolCall, before.length ≤ bound →
      (before = [] ∨ ∃ earlier call, before = earlier ++ [call] ∧ isParallel call = false) →
      BatchSteps isParallel (.start (before ++ rest)) (.start rest) := by
  induction bound with
  | zero =>
    intro before hlength _
    rw [List.eq_nil_of_length_eq_zero (by omega : before.length = 0)]
    exact .refl
  | succ bound ih =>
    intro before hlength hends
    cases before with
    | nil => exact .refl
    | cons call more =>
      rw [List.length_cons] at hlength
      rcases hends with hempty | ⟨earlier, last, hsplit, hlast⟩
      · cases hempty
      have hmore : ∀ later, later <:+ more → later = [] ∨
          ∃ earlier call, later = earlier ++ [call] ∧ isParallel call = false := by
        rintro later ⟨front, hfront⟩
        rcases List.eq_nil_or_concat later with hnone | ⟨init, final, hconcat⟩
        · exact .inl hnone
        · right
          rw [List.concat_eq_append] at hconcat
          refine ⟨init, final, hconcat, ?_⟩
          rw [← hfront, hconcat, ← List.append_assoc, ← List.cons_append] at hsplit
          have hsame := (List.append_inj' hsplit rfl).2
          rw [List.singleton_inj.mp hsame]
          exact hlast
      by_cases hcall : isParallel call = true
      · have hnotAll : (more.dropWhile isParallel) ≠ [] := by
          intro hnone
          have hall := List.dropWhile_eq_nil_iff.mp hnone
          cases earlier with
          | nil =>
            obtain ⟨hhead, _⟩ := List.cons.inj hsplit
            rw [hhead, hlast] at hcall
            cases hcall
          | cons first earlier =>
            obtain ⟨_, htail⟩ := List.cons.inj hsplit
            have hin := hall last (by rw [htail]; exact List.mem_append_right _ List.mem_cons_self)
            rw [hlast] at hin
            cases hin
        have hdrop : (more ++ rest).dropWhile isParallel = more.dropWhile isParallel ++ rest := by
          rw [List.dropWhile_append, if_neg]
          rw [List.isEmpty_iff]
          exact hnotAll
        have htake : BatchStep isParallel (.start (call :: (more ++ rest)))
            ⟨(more ++ rest).dropWhile isParallel,
              call :: (more ++ rest).takeWhile isParallel, []⟩ := .parallel hcall
        rw [hdrop] at htake
        refine .head htake ((BatchSteps.pollAll _ _).trans ((BatchSteps.finishAll _).trans ?_))
        refine ih (more.dropWhile isParallel) ?_ (hmore _ (List.dropWhile_suffix _))
        have hshort := (List.dropWhile_suffix (l := more) isParallel).length_le
        omega
      · have htake : BatchStep isParallel (.start (call :: (more ++ rest)))
            ⟨more ++ rest, [call], []⟩ := .exclusive (Bool.eq_false_iff.mpr hcall)
        refine .head htake ((BatchSteps.pollAll _ _).trans ((BatchSteps.finishAll _).trans ?_))
        exact ih more (by omega) (hmore _ (List.suffix_refl _))

theorem run_overlaps {calls before run rest : List ToolCall}
    (h : MaximalRun isParallel calls before run rest) :
    BatchSteps isParallel (.start calls) ⟨rest, [], run⟩ := by
  rw [h.split]
  refine (BatchSteps.pass before.length before (Nat.le_refl _) h.first).trans ?_
  have hnonempty := h.nonempty
  have hparallel := h.parallel
  cases run with
  | nil => exact absurd rfl hnonempty
  | cons call more =>
    obtain ⟨hcall, hmore⟩ := List.forall_mem_cons.mp hparallel
    have htakeMore : more.takeWhile isParallel = more := List.takeWhile_eq_self_iff.mpr hmore
    have htake : BatchStep isParallel (.start (call :: (more ++ rest)))
        ⟨(more ++ rest).dropWhile isParallel, call :: (more ++ rest).takeWhile isParallel, []⟩ :=
      .parallel hcall
    have hrun : (more ++ rest).takeWhile isParallel = more := by
      rw [List.takeWhile_append, htakeMore, if_pos rfl, h.last, List.append_nil]
    have hrest : (more ++ rest).dropWhile isParallel = rest := by
      have hboth := List.takeWhile_append_dropWhile (p := isParallel) (l := more ++ rest)
      rw [hrun] at hboth
      exact List.append_cancel_left hboth
    rw [hrun, hrest] at htake
    exact .head htake (BatchSteps.pollAll _ _)

end MobiusAgent.ToolBatches
