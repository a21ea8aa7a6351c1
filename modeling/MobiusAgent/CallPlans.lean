import MobiusAgent.AgentRouting
import MobiusAgent.AgentToolSteps

/-!
# Where the calls of a response go

A model step hands every call of its response to exactly one place: a streamed
tool, a denial, or the batch after the response. `Streamed` says so while the
response streams, `Planned` while its calls are planned, and `Divided` of the
response that was saved.
-/

namespace MobiusAgent.CallPlans

open JsonValue ProtocolEvents CheckpointRecords ContextItems MessageQueue AgentWorld AgentInput AgentTools
  AgentTurn AgentStreaming AgentApproval AgentModelStep AgentTransactions AgentRouting
  AgentToolSteps EffectLogic

section Calls

variable {config : Config} (env : Surroundings config) {world : World}

theorem replaceAll_callId {call replaced : ToolCall} {changed after : Bool}
    {replacements : List (String × Json)}
    (h : replaceAll config call changed replacements = .ok (replaced, after)) :
    replaced.callId = call.callId := by
  induction replacements generalizing call changed with
  | nil =>
    cases h
    rfl
  | cons replacement rest ih =>
    obtain ⟨name, arguments⟩ := replacement
    unfold replaceAll at h
    cases hreplace : replaceCall config call name arguments with
    | error error =>
      rw [hreplace] at h
      cases h
    | ok next =>
      rw [hreplace] at h
      have hnext : next.callId = call.callId := by
        unfold replaceCall at hreplace
        dsimp only at hreplace
        split_ifs at hreplace
        rw [← Except.ok.inj hreplace]
      exact (ih h).trans hnext

theorem bindCall_returns (call : ToolCall) :
    Returns world (bindCall env call) fun binding next => Same world next ∧
      ∀ bound repaired, binding = .ok (bound, repaired) → bound.callId = call.callId := by
  refine Returns.bind (ask_returns env.bind) fun answer next h => ?_
  cases answer with
  | error error => exact Returns.pure ⟨h.2, fun _ _ hbound => by cases hbound⟩
  | ok repair =>
    cases repair with
    | none | some arguments =>
      refine Returns.pure ⟨h.2, fun _ _ hbound => ?_⟩
      cases hbound
      rfl

theorem prepareToolCall_returns (call : ToolCall) :
    Returns world (prepareToolCall env call) fun use _ => use.call.callId = call.callId ∧
      ∀ denial, use.denial = some denial → denial.callId = call.callId := by
  refine Returns.bind Returns.get fun current next h => ?_
  obtain ⟨rfl, rfl⟩ := h
  refine Returns.bind (activeExecution_returns _) fun active next h => ?_
  obtain ⟨_, rfl⟩ := h
  refine Returns.bind (note_returns _) fun _ noted hnoted => ?_
  refine Returns.bind (askOk_returns env.preToolUse) fun use asked hasked => ?_
  refine Returns.bind (Returns.ofExcept fun result hresult => ⟨hresult, rfl⟩ :
    Returns asked _ fun result last =>
      replaceAll config call false use.replacements = .ok result ∧ last = asked)
    fun result last hresult => ?_
  obtain ⟨replaced, changed⟩ := result
  obtain ⟨hreplaced, rfl⟩ := hresult
  have hid := replaceAll_callId hreplaced
  refine Returns.pure ⟨hid, ?_⟩
  intro denial hdenial
  obtain ⟨reason, _, hsame⟩ := Option.map_eq_some_iff.mp hdenial
  rw [← hsame]
  exact hid

end Calls

section Planning

variable {config : Config} (env : Surroundings config) {world : World}

theorem callsAt_skip {indexes : List Nat} {calls : List ToolCall} {call : ToolCall}
    (h : ∀ index ∈ indexes, index < calls.length) :
    callsAt indexes (calls ++ [call]) = callsAt indexes calls := by
  have habsent : indexes.contains calls.length = false := by
    by_contra hnot
    have hmember : calls.length ∈ indexes := by simpa using hnot
    exact absurd (h _ hmember) (Nat.lt_irrefl _)
  unfold callsAt
  rw [List.zipIdx_append, List.filterMap_append, List.zipIdx_singleton, Nat.zero_add]
  simp only [List.filterMap_cons, habsent, Bool.false_eq_true, if_false, List.filterMap_nil,
    List.append_nil]

theorem callsAt_take {indexes : List Nat} {calls : List ToolCall} {call : ToolCall} :
    callsAt (indexes ++ [calls.length]) (calls ++ [call]) = callsAt indexes calls ++ [call] := by
  have hpresent : (indexes ++ [calls.length]).contains calls.length = true := by simp
  have hbefore : ∀ place ∈ calls.zipIdx,
      (if (indexes ++ [calls.length]).contains place.2 then some place.1 else none) =
        if indexes.contains place.2 then some place.1 else none := by
    intro place hplace
    have hless := List.snd_lt_of_mem_zipIdx hplace
    have hne : place.2 ≠ calls.length := by omega
    have hsame : (indexes ++ [calls.length]).contains place.2 = indexes.contains place.2 := by
      simp [hne]
    rw [hsame]
  unfold callsAt
  rw [List.zipIdx_append, List.filterMap_append, List.zipIdx_singleton, Nat.zero_add,
    List.filterMap_congr hbefore]
  simp only [List.filterMap_cons, hpresent, if_true, List.filterMap_nil]

/-- What became of the calls so far: those not handed out before are denied or executable. -/
structure Planned (handed : List String) (before : List ToolResult) (calls : List ToolCall)
    (plan : CallPlan) : Prop where
  ids : callIds plan.calls = callIds calls
  executable : ∀ index ∈ plan.executable, index < plan.calls.length
  rest : ∃ more, plan.denied = before ++ more ∧
    (resultIds more ++ callIds (callsAt plan.executable plan.calls)).Perm
      ((callIds calls).filter fun id => !handed.contains id)

/-- A slot of a streamed call keeps its identity. -/
def SlotOf (call : ToolCall) (prepared : PreparedCall) : Prop :=
  ∀ rewritten, prepared.call = some rewritten → rewritten.callId = call.callId

variable {env} {handed : List String} {before : List ToolResult} {calls : List ToolCall}
  {plan : CallPlan} {call : ToolCall}

theorem callIds_snoc (calls : List ToolCall) (call : ToolCall) :
    callIds (calls ++ [call]) = callIds calls ++ [call.callId] := by
  unfold callIds
  rw [List.map_append, List.map_singleton]

variable {input : List Json} {events : List HookEvent} {changed : Bool} {used : ToolCall}

theorem Planned.ids_snoc (h : Planned handed before calls plan) (hid : used.callId = call.callId) :
    callIds (plan.calls ++ [used]) = callIds (calls ++ [call]) := by
  rw [callIds_snoc, callIds_snoc, h.ids, hid]

theorem Planned.executable_snoc (h : Planned handed before calls plan) (used : ToolCall) :
    ∀ index ∈ plan.executable, index < (plan.calls ++ [used]).length := by
  intro index hindex
  have hless := h.executable index hindex
  rw [List.length_append]
  omega

theorem Planned.skip (h : Planned handed before calls plan) (hid : used.callId = call.callId)
    (hhanded : call.callId ∈ handed) :
    Planned handed before (calls ++ [call])
      ⟨plan.calls ++ [used], changed, plan.executable, plan.denied, events, input⟩ := by
  obtain ⟨more, hdenied, hperm⟩ := h.rest
  refine ⟨h.ids_snoc hid, h.executable_snoc used, ?_⟩
  refine ⟨more, hdenied, ?_⟩
  have hcontains : (!handed.contains call.callId) = false := by simpa using hhanded
  rw [callIds_snoc, List.filter_append, List.filter_singleton, hcontains]
  change (resultIds more ++ callIds (callsAt plan.executable (plan.calls ++ [used]))).Perm
    (_ ++ [])
  rw [callsAt_skip h.executable, List.append_nil]
  exact hperm

theorem Planned.deny (h : Planned handed before calls plan) {result : ToolResult}
    (hid : used.callId = call.callId) (hresult : result.callId = call.callId)
    (hfree : call.callId ∉ handed) :
    Planned handed before (calls ++ [call])
      ⟨plan.calls ++ [used], changed, plan.executable, plan.denied ++ [result], events, input⟩ := by
  obtain ⟨more, hdenied, hperm⟩ := h.rest
  refine ⟨h.ids_snoc hid, h.executable_snoc used, ?_⟩
  refine ⟨more ++ [result], by rw [hdenied, List.append_assoc], ?_⟩
  have hcontains : (!handed.contains call.callId) = true := by simpa using hfree
  have hids : resultIds (more ++ [result]) = resultIds more ++ [call.callId] := by
    unfold resultIds
    rw [List.map_append, List.map_singleton, hresult]
  rw [callIds_snoc, List.filter_append, List.filter_singleton, hcontains, hids]
  change (resultIds more ++ [call.callId] ++
    callIds (callsAt plan.executable (plan.calls ++ [used]))).Perm (_ ++ [call.callId])
  rw [callsAt_skip h.executable, List.append_assoc]
  refine (List.Perm.append_left _ List.perm_append_comm).trans ?_
  rw [← List.append_assoc]
  exact hperm.append_right _

theorem Planned.execute (h : Planned handed before calls plan) (hid : used.callId = call.callId)
    (hfree : call.callId ∉ handed) {index : Nat} (hindex : index = plan.calls.length) :
    Planned handed before (calls ++ [call])
      ⟨plan.calls ++ [used], changed, plan.executable ++ [index], plan.denied, events, input⟩ := by
  obtain ⟨more, hdenied, hperm⟩ := h.rest
  subst hindex
  constructor
  · change callIds (plan.calls ++ [used]) = _
    rw [callIds_snoc, callIds_snoc, h.ids, hid]
  · intro index hindex
    change index < (plan.calls ++ [used]).length
    rw [List.length_append, List.length_singleton]
    rcases List.mem_append.mp hindex with hold | hnew
    · have hless := h.executable index hold
      omega
    · have hsame := List.mem_singleton.mp hnew
      omega
  · refine ⟨more, hdenied, ?_⟩
    have hcontains : (!handed.contains call.callId) = true := by simpa using hfree
    rw [callIds_snoc, List.filter_append, List.filter_singleton, hcontains]
    change (resultIds more ++ callIds (callsAt (plan.executable ++ [plan.calls.length])
      (plan.calls ++ [used]))).Perm (_ ++ [call.callId])
    rw [callsAt_take, callIds_snoc, hid, ← List.append_assoc]
    exact hperm.append_right _

theorem Planned.length (h : Planned handed before calls plan) :
    plan.calls.length = calls.length := by
  have hlength := congrArg List.length h.ids
  unfold callIds at hlength
  rwa [List.length_map, List.length_map] at hlength

theorem bindPlanned_returns (h : Planned handed before calls plan)
    (hid : used.callId = call.callId) (hfree : call.callId ∉ handed) :
    Returns world (bindPlanned env plan calls.length used) fun planned _ =>
      Planned handed before (calls ++ [call]) planned := by
  refine Returns.bind (bindCall_returns env used) fun binding next hbinding => ?_
  cases binding with
  | error error => exact Returns.pure (h.deny hid hid hfree)
  | ok bound =>
    obtain ⟨bound, repaired⟩ := bound
    have hbound := (hbinding.2 bound repaired rfl).trans hid
    exact Returns.pure (h.execute hbound hfree h.length.symm)

theorem planBound_returns (h : Planned handed before calls plan) (hid : used.callId = call.callId)
    (hfree : call.callId ∉ handed) (bound : Bool) :
    Returns world (planBound env plan calls.length used bound) fun planned _ =>
      Planned handed before (calls ++ [call]) planned := by
  unfold planBound
  cases bound with
  | true => exact Returns.pure (h.execute hid hfree h.length.symm)
  | false => exact bindPlanned_returns h hid hfree

theorem Planned.congr (h : Planned handed before calls plan) :
    Planned handed before calls
      ⟨plan.calls, changed, plan.executable, plan.denied, events, input⟩ :=
  ⟨h.ids, h.executable, h.rest⟩

theorem planPrepared_returns {started : List String}
    (h : Planned (started ++ resultIds before) before calls plan) {prepared : PreparedCall}
    (hslot : SlotOf call prepared) (hfresh : call.callId ∉ callIds calls) :
    Returns world (planPrepared env started plan calls.length call prepared) fun planned _ =>
      Planned (started ++ resultIds before) before (calls ++ [call]) planned := by
  have hid : (prepared.call.getD call).callId = call.callId := by
    cases hcall : prepared.call with
    | none => rfl
    | some rewritten => exact hslot rewritten hcall
  have hhanded : (started.contains (prepared.call.getD call).callId ||
      plan.denied.any fun result => result.callId == (prepared.call.getD call).callId) = true ↔
        call.callId ∈ started ++ resultIds before := by
    obtain ⟨more, hdenied, hperm⟩ := h.rest
    have hmore : call.callId ∉ resultIds more := by
      intro hmember
      have hfilter := hperm.subset (List.mem_append_left _ hmember)
      exact hfresh (List.mem_filter.mp hfilter).1
    rw [hid, Bool.or_eq_true, List.contains_iff_mem, List.any_eq_true, List.mem_append]
    constructor
    · rintro (hstarted | ⟨result, hresult, hsame⟩)
      · exact .inl hstarted
      · right
        have hresultId : result.callId = call.callId := by simpa using hsame
        rw [hdenied] at hresult
        rcases List.mem_append.mp hresult with hold | hnew
        · exact List.mem_map.mpr ⟨result, hold, hresultId⟩
        · exact absurd (List.mem_map.mpr ⟨result, hnew, hresultId⟩) hmore
    · rintro (hstarted | hbefore)
      · exact .inl hstarted
      · obtain ⟨result, hresult, hsame⟩ := List.mem_map.mp hbefore
        refine .inr ⟨result, ?_, by simpa using hsame⟩
        rw [hdenied]
        exact List.mem_append_left _ hresult
  unfold planPrepared
  dsimp only
  by_cases hcondition : (started.contains (prepared.call.getD call).callId ||
      plan.denied.any fun result => result.callId == (prepared.call.getD call).callId) = true
  · rw [if_pos hcondition]
    exact Returns.pure (h.skip hid (hhanded.mp hcondition))
  · rw [if_neg hcondition]
    exact planBound_returns h.congr hid (fun hmember => hcondition (hhanded.mpr hmember)) _

theorem planCompleted_returns (h : Planned handed before calls plan)
    (hfree : call.callId ∉ handed) :
    Returns world (planCompleted env plan calls.length call) fun planned _ =>
      Planned handed before (calls ++ [call]) planned := by
  refine Returns.bind (bindCall_returns env call) fun binding next hbinding => ?_
  cases binding with
  | error error => exact Returns.pure (h.deny rfl rfl hfree)
  | ok bound =>
    obtain ⟨bound, repaired⟩ := bound
    have hbound := hbinding.2 bound repaired rfl
    refine Returns.bind (prepareToolCall_returns env bound) fun use prepared huse => ?_
    obtain ⟨huseId, hdenial⟩ := huse
    have hid := huseId.trans hbound
    dsimp only
    cases hdenied : use.denial with
    | some denial =>
      exact Returns.pure (h.deny hid ((hdenial denial hdenied).trans hbound) hfree)
    | none => exact planBound_returns h.congr hid hfree _

theorem planCalls_returns {started : List String} (rest : List ToolCall) :
    ∀ {plan : CallPlan} {calls : List ToolCall} {prepared : List PreparedCall} {world : World},
      Planned (started ++ resultIds before) before calls plan →
      (callIds (calls ++ rest)).Nodup →
      (∃ first later, rest = first ++ later ∧ List.Forall₂ SlotOf first prepared ∧
        ∀ call ∈ later, call.callId ∉ started ++ resultIds before) →
      Returns world (planCalls env started plan calls.length rest prepared) fun planned _ =>
        Planned (started ++ resultIds before) before (calls ++ rest) planned := by
  induction rest with
  | nil =>
    intro plan calls prepared world h _ _
    rw [List.append_nil]
    have hdone : planCalls env started plan calls.length [] prepared = pure plan := by
      unfold planCalls
      rfl
    rw [hdone]
    exact Returns.pure h
  | cons call rest ih =>
    intro plan calls prepared world h hdistinct hslots
    have hfresh : call.callId ∉ callIds calls := by
      unfold callIds at hdistinct ⊢
      rw [List.map_append, List.map_cons] at hdistinct
      intro hmember
      exact (List.nodup_append.mp hdistinct).2.2 _ hmember _ List.mem_cons_self rfl
    have hsplit : calls ++ call :: rest = (calls ++ [call]) ++ rest := by
      rw [List.append_assoc]
      rfl
    have hlength : (calls ++ [call]).length = calls.length + 1 := by
      rw [List.length_append, List.length_singleton]
    obtain ⟨first, later, hrest, hforall, hlater⟩ := hslots
    rw [hsplit] at hdistinct ⊢
    cases prepared with
    | nil =>
      cases hforall
      rw [List.nil_append] at hrest
      unfold planCalls
      have hfree := hlater call (by rw [← hrest]; exact List.mem_cons_self)
      refine Returns.bind (planCompleted_returns h hfree) fun next between hnext => ?_
      rw [← hlength]
      refine ih hnext hdistinct ⟨[], rest, rfl, .nil, ?_⟩
      intro other hother
      exact hlater other (by rw [← hrest]; exact List.mem_cons_of_mem _ hother)
    | cons slot slots =>
      cases hforall with
      | cons hslot htail =>
        obtain ⟨hhead, hmore⟩ := List.cons.inj hrest
        rw [← hhead] at hslot
        unfold planCalls
        refine Returns.bind (planPrepared_returns h hslot hfresh) fun next between hnext => ?_
        rw [← hlength]
        exact ih hnext hdistinct ⟨_, later, hmore, htail, hlater⟩

end Planning

section Streaming

variable {config : Config} {env : Surroundings config} {world : World}

/-- Every streamed call has a slot, and those that were handed out are denied, running or done. -/
structure Streamed (streamed : StreamedTools) : Prop where
  slots : List.Forall₂ SlotOf streamed.originals streamed.calls
  handed : ∃ waiting, (streamed.started ++ resultIds streamed.denied ++ waiting).Perm
    (callIds streamed.originals)
  running : (resultIds streamed.results ++ callIds streamed.running).Perm streamed.started

theorem Streamed.empty : Streamed .empty := ⟨.nil, ⟨[], .refl _⟩, .refl _⟩

variable {streamed : StreamedTools} {call : ToolCall} {prepared : PreparedCall}

theorem Streamed.slot (h : Streamed streamed) (hslot : SlotOf call prepared) :
    List.Forall₂ SlotOf (streamed.originals ++ [call]) (streamed.calls ++ [prepared]) :=
  List.rel_append h.slots (.cons hslot .nil)

theorem Streamed.defer (h : Streamed streamed) (hslot : SlotOf call prepared)
    {input : List Json} {events : List HookEvent} :
    Streamed { streamed with
      originals := streamed.originals ++ [call]
      calls := streamed.calls ++ [prepared]
      hookInput := input
      hookEvents := events
      deferred := true } := by
  obtain ⟨waiting, hperm⟩ := h.handed
  refine ⟨h.slot hslot, ⟨waiting ++ [call.callId], ?_⟩, h.running⟩
  change (streamed.started ++ resultIds streamed.denied ++ (waiting ++ [call.callId])).Perm
    (callIds (streamed.originals ++ [call]))
  rw [callIds_snoc, ← List.append_assoc]
  exact hperm.append_right _

theorem Streamed.deny (h : Streamed streamed) (hslot : SlotOf call prepared) {denial : ToolResult}
    (hdenial : denial.callId = call.callId) {input : List Json} {events : List HookEvent} :
    Streamed { streamed with
      originals := streamed.originals ++ [call]
      calls := streamed.calls ++ [prepared]
      denied := streamed.denied ++ [denial]
      hookInput := input
      hookEvents := events
      deferred := true } := by
  obtain ⟨waiting, hperm⟩ := h.handed
  refine ⟨h.slot hslot, ⟨waiting, ?_⟩, h.running⟩
  change (streamed.started ++ resultIds (streamed.denied ++ [denial]) ++ waiting).Perm
    (callIds (streamed.originals ++ [call]))
  have hids : resultIds (streamed.denied ++ [denial]) =
      resultIds streamed.denied ++ [call.callId] := by
    unfold resultIds
    rw [List.map_append, List.map_singleton, hdenial]
  rw [callIds_snoc, hids, ← List.append_assoc, List.append_assoc _ [call.callId]]
  refine (List.Perm.append_left _ List.perm_append_comm).trans ?_
  rw [← List.append_assoc]
  exact hperm.append_right _

theorem Streamed.launch (h : Streamed streamed) (hslot : SlotOf call prepared) {used : ToolCall}
    (hid : used.callId = call.callId) :
    Streamed { streamed with
      originals := streamed.originals ++ [call]
      calls := streamed.calls ++ [prepared]
      started := streamed.started ++ [used.callId]
      running := streamed.running ++ [used] } := by
  obtain ⟨waiting, hperm⟩ := h.handed
  refine ⟨h.slot hslot, ⟨waiting, ?_⟩, ?_⟩
  · change (streamed.started ++ [used.callId] ++ resultIds streamed.denied ++ waiting).Perm
      (callIds (streamed.originals ++ [call]))
    rw [callIds_snoc, hid, List.append_assoc, List.append_assoc]
    refine (List.Perm.append_left _ List.perm_append_comm).trans ?_
    rw [← List.append_assoc, ← List.append_assoc]
    exact hperm.append_right _
  · change (resultIds streamed.results ++ callIds (streamed.running ++ [used])).Perm
      (streamed.started ++ [used.callId])
    rw [callIds_snoc, ← List.append_assoc]
    exact h.running.append_right _

theorem bindPrepared_returns (use : PreparedUse) :
    Returns world (bindPrepared env use) fun bound _ =>
      ∀ call, bound = some call → call.callId = use.call.callId := by
  unfold bindPrepared
  by_cases hchanged : use.changed = true
  · rw [if_pos hchanged]
    by_cases hcancel : cancelsOnInput config [use.call] = true
    · rw [if_pos hcancel]
      exact Returns.pure nofun
    · rw [if_neg hcancel]
      refine Returns.bind (bindCall_returns env use.call) fun binding next hbinding => ?_
      cases binding with
      | error error => exact Returns.pure nofun
      | ok bound =>
        refine Returns.pure ?_
        intro call hcall
        rw [← Option.some.inj hcall]
        exact hbinding.2 bound.1 bound.2 rfl
  · rw [if_neg hchanged]
    refine Returns.pure ?_
    intro call hcall
    rw [Option.some.inj hcall]

theorem startPreparedTool_returns (h : Streamed streamed) {use : PreparedUse}
    (hid : use.call.callId = call.callId) (repaired : Bool) :
    Returns world (startPreparedTool env
      { streamed with originals := streamed.originals ++ [call] } use repaired)
      fun next _ => Streamed next := by
  refine Returns.bind (bindPrepared_returns use) fun bound next hbound => ?_
  cases bound with
  | none =>
    refine Returns.pure (h.defer ?_)
    intro rewritten hrewritten
    change (if (use.changed || repaired) = true then some use.call else none) = some rewritten
      at hrewritten
    split_ifs at hrewritten
    rw [← Option.some.inj hrewritten]
    exact hid
  | some used =>
    have hused := (hbound used rfl).trans hid
    have hslot : ∀ ready, SlotOf call
        ⟨if (use.changed || repaired) = true then some used else none, use.changed, ready⟩ := by
      intro ready rewritten hrewritten
      change (if (use.changed || repaired) = true then some used else none) = some rewritten
        at hrewritten
      split_ifs at hrewritten
      rw [← Option.some.inj hrewritten]
      exact hused
    dsimp only
    refine Returns.bind (.any _) fun allowed asked _ => ?_
    cases allowed with
    | true =>
      refine Returns.bind (.any _) fun _ launched _ => ?_
      exact Returns.pure (h.launch (hslot false) hused)
    | false => exact Returns.pure (h.defer (hslot true))

theorem streamHookedTool_returns (h : Streamed streamed) {use : PreparedUse}
    (hid : use.call.callId = call.callId)
    (hdenial : ∀ denial, use.denial = some denial → denial.callId = call.callId)
    (repaired : Bool) :
    Returns world (streamHookedTool env
      { streamed with originals := streamed.originals ++ [call] } use repaired)
      fun next _ => Streamed next := by
  unfold streamHookedTool
  by_cases hwaits : (use.denial.isSome || !use.input.isEmpty || !use.events.isEmpty) = true
  · rw [if_pos hwaits]
    have hslot : SlotOf call ⟨if use.changed || repaired then some use.call else none,
        use.changed, !use.changed⟩ := by
      intro rewritten hrewritten
      change (if (use.changed || repaired) = true then some use.call else none) = some rewritten
        at hrewritten
      split_ifs at hrewritten
      rw [← Option.some.inj hrewritten]
      exact hid
    refine Returns.pure ?_
    cases hdenied : use.denial with
    | none =>
      simp only [Option.toList_none, List.append_nil]
      exact h.defer hslot
    | some denial => exact h.deny hslot (hdenial denial hdenied)
  · rw [if_neg hwaits]
    exact startPreparedTool_returns h hid repaired

theorem startStreamedTool_returns (h : Streamed streamed) (original : ToolCall) :
    Returns world (startStreamedTool env streamed original) fun result _ =>
      result.1 = .ok () → Streamed result.2 := by
  have hwaits : Streamed { streamed with deferred := true } := ⟨h.slots, h.handed, h.running⟩
  unfold startStreamedTool
  by_cases hdeferred : (streamed.deferred || cancelsOnInput config [original]) = true
  · rw [if_pos hdeferred]
    exact Returns.pure fun _ => hwaits
  · rw [if_neg hdeferred]
    refine Returns.bind (bindCall_returns env original) fun binding next hbinding => ?_
    cases binding with
    | error error => exact Returns.pure fun _ => hwaits
    | ok bound =>
      obtain ⟨call, repaired⟩ := bound
      have hid := hbinding.2 call repaired rfl
      refine Returns.bind (.any _) fun _ noted _ => ?_
      have hbody : Returns noted (do
          let use ← prepareToolCall env call
          streamHookedTool env
            { streamed with originals := streamed.originals ++ [original] } use repaired)
          fun started _ => Streamed started := by
        refine Returns.bind (prepareToolCall_returns env call) fun use between huse => ?_
        obtain ⟨huseId, hdenial⟩ := huse
        exact streamHookedTool_returns h (huseId.trans hid)
          (fun denial hdenied => (hdenial denial hdenied).trans hid) repaired
      refine Returns.bind hbody.attempt fun result last hresult => ?_
      cases result with
      | error error => exact Returns.pure nofun
      | ok started => exact Returns.pure fun _ => hresult started rfl

theorem finishRunningTool_streamed {encoding : Encoding} {state next : StreamState}
    (h : Streamed state.streamed) {outcome : Except Error ToolOutcome}
    (hnext : finishRunningTool encoding state outcome = .inl next) : Streamed next.streamed := by
  unfold finishRunningTool at hnext
  cases hrunning : state.streamed.running with
  | nil =>
    rw [hrunning] at hnext
    rw [← Sum.inl.inj hnext]
    exact h
  | cons call rest =>
    rw [hrunning] at hnext
    cases outcome with
    | error error => cases hnext
    | ok outcome =>
      rw [← Sum.inl.inj hnext]
      refine ⟨h.slots, h.handed, ?_⟩
      have hperm := h.running
      rw [hrunning] at hperm
      change (resultIds (state.streamed.results ++ [outcomeResult call outcome]) ++
        callIds rest).Perm state.streamed.started
      unfold resultIds callIds at hperm ⊢
      rw [List.map_append, List.append_assoc]
      exact hperm

theorem waitStreamedResponse_returns :
    Returns world (waitStreamedResponse env) fun finished _ =>
      ∀ result changed, finished.outcome = .ok (.ready result changed) →
        Streamed finished.streamed := by
  refine Returns.bind getState_returns fun state next hstate => ?_
  obtain ⟨rfl, rfl⟩ := hstate
  cases next.state.activeExecution with
  | none => exact Returns.pure nofun
  | some active =>
    refine Returns.iterate (fun state _ => Streamed state.streamed) ?_ .empty config.fuel
    intro state start hstreamed
    refine Returns.bind (.any _) fun progress waited _ => ?_
    cases progress with
    | error error => exact Returns.pure nofun
    | ok progress =>
      cases progress with
      | interrupted submissionId => exact Returns.pure nofun
      | ready progress changed =>
        cases progress with
        | response output => exact Returns.pure fun _ _ _ => hstreamed
        | tool outcome =>
          dsimp only
          cases hfinish : finishRunningTool config.encoding
              { state with inputChanged := state.inputChanged || changed } outcome with
          | inl again =>
            exact Returns.pure (finishRunningTool_streamed (by exact hstreamed) hfinish)
          | inr finished =>
            refine Returns.pure ?_
            intro result inputChanged houtcome
            unfold finishRunningTool at hfinish
            cases hrunning : state.streamed.running with
            | nil =>
              rw [hrunning] at hfinish
              cases hfinish
            | cons call rest =>
              rw [hrunning] at hfinish
              cases outcome with
              | ok outcome => cases hfinish
              | error error =>
                rw [← Sum.inr.inj hfinish] at houtcome
                cases houtcome
        | call arrived =>
          cases arrived with
          | none => exact Returns.pure hstreamed
          | some call =>
            dsimp only
            unfold streamCall
            by_cases haccepted : (state.callsOpen && acceptStreamedCall state.seen call) = true
            · rw [if_pos haccepted]
              refine Returns.bind (.any _) fun current between _ => ?_
              refine Returns.bind (.any _) fun _ noted _ => ?_
              refine Returns.bind (startStreamedTool_returns hstreamed call)
                fun result last hresult => ?_
              obtain ⟨outcome, streamed⟩ := result
              cases outcome with
              | error error => exact Returns.pure nofun
              | ok done =>
                exact Returns.pure (hresult rfl)
            · rw [if_neg haccepted]
              exact Returns.pure hstreamed

end Streaming

section Requests

variable {config : Config} {env : Surroundings config} {world : World}

/-- What a request leads to: a completed response kept its calls. -/
def Requested (result : Nat ⊕ ModelStepRequest config.encoding) : Prop :=
  match result with
  | .inr (.completed step) => Streamed step.streamed
  | _ => True

theorem waitForRetry_returns (turnId : String) (retries : Nat) :
    Returns world (waitForRetry env turnId retries) fun result _ => Requested result := by
  have habort : ∀ (interruptId : String) (start : World),
      Returns start (abortRequest env interruptId turnId) fun result _ => Requested result :=
    fun interruptId start => Returns.bind (.any _) fun _ _ _ => Returns.pure trivial
  refine Returns.bind (.any _) fun wait waited _ => ?_
  cases wait with
  | interrupted interruptId => exact habort interruptId waited
  | ready value inputChanged =>
    refine Returns.bind (.any _) fun drained next _ => ?_
    cases drained.interrupted with
    | some interruptId => exact habort interruptId next
    | none =>
      refine Returns.bind (.any _) fun state last _ => ?_
      by_cases hchanged : (inputChanged || messagesReady state.pendingMessages turnId) = true
      · rw [if_pos hchanged]
        exact Returns.pure trivial
      · rw [if_neg hchanged]
        exact Returns.pure trivial

theorem failRequest_returns (submissionId : String) (started : StartedStep) (error : Error) :
    Returns world (failRequest env submissionId started error) fun result _ => Requested result :=
  Returns.bind (.any _) fun _ _ _ => Returns.pure trivial

theorem discardResponse_returns (submissionId turnId : String) (started : StartedStep)
    (inputChanged : Bool) (retries : Nat) :
    Returns world (discardResponse env submissionId turnId started inputChanged retries)
      fun result _ => Requested result := by
  refine Returns.bind (.any _) fun _ next _ => ?_
  refine Returns.bind (.any _) fun _ noted _ => ?_
  by_cases hchanged : inputChanged = true
  · rw [if_pos hchanged]
    exact Returns.pure trivial
  · rw [if_neg hchanged]
    exact waitForRetry_returns turnId retries

theorem retryRequest_returns (submissionId turnId : String) (started : StartedStep)
    (error : Error) (inputChanged : Bool) (retries : Nat) :
    Returns world (retryRequest env submissionId turnId started error inputChanged retries)
      fun result _ => Requested result := by
  refine Returns.bind (.any _) fun limit next _ => ?_
  by_cases hretry : retries < limit
  · rw [if_pos hretry]
    exact discardResponse_returns submissionId turnId started inputChanged _
  · rw [if_neg hretry]
    refine Returns.bind (.any _) fun fallback last _ => ?_
    cases fallback with
    | error outcome => exact failRequest_returns submissionId started outcome
    | ok found =>
      cases found with
      | false => exact failRequest_returns submissionId started error
      | true => exact discardResponse_returns submissionId turnId started inputChanged 0

theorem resolveResponse_returns (submissionId turnId : String) (started : StartedStep)
    (finished : StreamEnd config.encoding) (retries : Nat)
    (h : ∀ result changed, finished.outcome = .ok (.ready result changed) →
      Streamed finished.streamed) :
    Returns world (resolveResponse env submissionId turnId started finished retries)
      fun result _ => Requested result := by
  unfold resolveResponse
  cases houtcome : finished.outcome with
  | error error => exact failRequest_returns submissionId started error
  | ok wait =>
    cases wait with
    | interrupted interruptId => exact Returns.bind (.any _) fun _ _ _ => Returns.pure trivial
    | ready result inputChanged =>
      cases result with
      | ok output =>
        refine Returns.bind (.any _) fun _ noted _ => ?_
        exact Returns.pure (h (.ok output) inputChanged houtcome)
      | error error =>
        change Returns world (resolveFailure env submissionId turnId started error
          finished.streamed inputChanged retries) _
        unfold resolveFailure
        split
        · by_cases hnone : finished.streamed.originals.isEmpty = true
          · rw [if_pos hnone]
            exact retryRequest_returns submissionId turnId started _ inputChanged retries
          · rw [if_neg hnone]
            exact failRequest_returns submissionId started _
        · exact failRequest_returns submissionId started _

theorem requestRound_returns (submissionId turnId : String) (modelStep retries : Nat) :
    Returns world (requestRound env submissionId turnId modelStep retries)
      fun result _ => Requested result := by
  refine Returns.bind (.any _) fun started first _ => ?_
  refine Returns.bind (.any _) fun _ second _ => ?_
  refine Returns.bind waitStreamedResponse_returns fun finished third hthird => ?_
  refine Returns.bind (.any _) fun flush last _ => ?_
  refine resolveResponse_returns submissionId turnId started (flushed finished flush) retries ?_
  intro result changed houtcome
  cases flush with
  | error error => cases houtcome
  | ok done => exact hthird result changed houtcome

theorem requestModelStep_returns (submissionId turnId : String) (modelStep : Nat) :
    Returns world (requestModelStep env submissionId turnId modelStep) fun request _ =>
      ∀ step, request = .completed step → Streamed step.streamed := by
  refine Returns.bind (.any _) fun _ first _ => ?_
  refine Returns.iterate (fun _ _ => True) ?_ trivial config.fuel
  intro retries next _
  refine (requestRound_returns submissionId turnId modelStep retries).mono
    fun result last hlast => ?_
  cases result with
  | inl again => trivial
  | inr request =>
    rintro step rfl
    exact hlast

end Requests

section Plans

variable {config : Config} {env : Surroundings config} {world : World}

/-- The calls of a saved response, each handed to one place. -/
structure Divided (ids : List String) (step : NormalizedModelStep) : Prop where
  ids : callIds step.toolCalls = ids
  handed : (step.streamed.started ++ resultIds step.denied ++
    callIds (callsAt step.executable step.toolCalls)).Perm (callIds step.toolCalls)
  running : (resultIds step.streamed.results ++ callIds step.streamed.running).Perm
    step.streamed.started
  listed : ∀ index ∈ step.executable, index < step.toolCalls.length

theorem perm_handed {handed ids : List String} (hhanded : handed.Nodup) (hids : ids.Nodup)
    (hsubset : handed ⊆ ids) :
    (handed ++ ids.filter fun id => !handed.contains id).Perm ids := by
  have hdisjoint : (handed ++ ids.filter fun id => !handed.contains id).Nodup := by
    refine List.nodup_append.mpr ⟨hhanded, hids.filter _, ?_⟩
    intro first hfirst second hsecond hsame
    have hnot := (List.mem_filter.mp hsecond).2
    rw [← hsame] at hnot
    simp [hfirst] at hnot
  refine (List.perm_ext_iff_of_nodup hdisjoint hids).mpr ?_
  intro id
  rw [List.mem_append, List.mem_filter]
  constructor
  · rintro (hold | hnew)
    · exact hsubset hold
    · exact hnew.1
  · intro hmember
    by_cases hhas : id ∈ handed
    · exact .inl hhas
    · exact .inr ⟨hmember, by simpa using hhas⟩

theorem planStep_returns {step : CompletedModelStep config.encoding} (h : Streamed step.streamed) :
    Returns world (planStep env step) fun planned _ => Divided (callIds step.output.toolCalls)
      ⟨planned.2.1.calls, planned.2.1.executable, planned.2.1.denied, step.streamed⟩ := by
  refine Returns.bind (.any _) fun _ first _ => ?_
  refine Returns.bind (.any _) fun _ second _ => ?_
  by_cases horiginals : step.streamed.originals.isPrefixOf step.output.toolCalls = true
  · rw [if_pos horiginals]
    refine Returns.bind (.any _) fun loaded third _ => ?_
    obtain ⟨later, hlater⟩ := List.isPrefixOf_iff_prefix.mp horiginals
    obtain ⟨waiting, hwaiting⟩ := h.handed
    have hdistinct : (callIds step.output.toolCalls).Nodup := step.output.distinct
    have hsplit : callIds step.output.toolCalls =
        callIds step.streamed.originals ++ callIds later := by
      rw [← hlater]
      exact List.map_append
    have hparts : (step.streamed.started ++ resultIds step.streamed.denied ++ waiting).Nodup := by
      rw [hsplit] at hdistinct
      exact hwaiting.nodup_iff.mpr (List.nodup_append.mp hdistinct).1
    have hhanded := (List.nodup_append.mp hparts).1
    have hsubset : step.streamed.started ++ resultIds step.streamed.denied ⊆
        callIds step.streamed.originals := fun id hid =>
      hwaiting.subset (List.mem_append_left _ hid)
    have hstart : Planned (step.streamed.started ++ resultIds step.streamed.denied)
        step.streamed.denied [] ⟨[], false, [], step.streamed.denied, step.streamed.hookEvents,
          step.streamed.hookInput⟩ :=
      ⟨rfl, nofun, [], (List.append_nil _).symm, .refl _⟩
    have hplan := @planCalls_returns config env step.streamed.denied step.streamed.started
      step.output.toolCalls _ [] step.streamed.calls third hstart hdistinct
      ⟨step.streamed.originals, later, hlater.symm, h.slots, ?_⟩
    · refine Returns.bind hplan fun plan planned hplanned => ?_
      refine Returns.bind (.any _) fun output last _ => ?_
      refine Returns.pure ?_
      obtain ⟨more, hdenied, hperm⟩ := hplanned.rest
      rw [List.nil_append] at hperm
      have hids : callIds plan.calls = callIds step.output.toolCalls := hplanned.ids
      refine ⟨hids, ?_, h.running, hplanned.executable⟩
      change (step.streamed.started ++ resultIds plan.denied ++
        callIds (callsAt plan.executable plan.calls)).Perm (callIds plan.calls)
      have hresults : resultIds plan.denied =
          resultIds step.streamed.denied ++ resultIds more := by
        rw [hdenied]
        exact List.map_append
      rw [hids, hresults, ← List.append_assoc, List.append_assoc]
      refine (List.Perm.append_left _ hperm).trans ?_
      exact perm_handed hhanded hdistinct fun id hid => by
        rw [hsplit]
        exact List.mem_append_left _ (hsubset hid)
    · intro call hcall hmember
      rw [hsplit] at hdistinct
      have hin : call.callId ∈ callIds later := List.mem_map_of_mem hcall
      exact (List.nodup_append.mp hdistinct).2.2 _ (hsubset hmember) _ hin rfl
  · rw [if_neg horiginals]
    exact Returns.fail

theorem persistModelStep_returns (submissionId turnId : String)
    (step : CompletedModelStep config.encoding) (loaded : String × List String) (plan : CallPlan)
    (output : List Json) :
    Returns world (persistModelStep env submissionId turnId step loaded plan output)
      fun _ next => Synced next := by
  refine Returns.bind (.any _) fun before first _ => ?_
  dsimp only
  refine Returns.bind (.any _) fun _ second _ => ?_
  refine Returns.bind (.any _) fun current third _ => ?_
  split
  · exact Returns.fail
  · refine Returns.bind (.any _) fun active fourth _ => ?_
    refine Returns.bind (.any _) fun _ fifth _ => ?_
    refine Returns.bind (.any _) fun diagnostics sixth _ => ?_
    split
    · exact Returns.fail
    · refine Returns.bind (.any _) fun completed seventh _ => ?_
      refine Returns.bind (.any _) fun usage eighth _ => ?_
      refine Returns.bind (.any _) fun previous ninth _ => ?_
      refine Returns.bind (.any _) fun _ tenth _ => ?_
      refine (Returns.restoring (persist_returns env _ none)).mono fun _ last hlast => ?_
      rw [Synced, hlast.log, durable_committed, hlast.state]

theorem normalizeAndPersist_returns (submissionId turnId : String)
    {step : CompletedModelStep config.encoding} (h : Streamed step.streamed) :
    Returns world (normalizeAndPersistModelStep env submissionId turnId step)
      fun result next => ∀ normalized, result = some normalized →
        Synced next ∧ Divided (callIds step.output.toolCalls) normalized := by
  refine Returns.bind (planStep_returns h).attempt fun planned next hplanned => ?_
  cases planned with
  | error error => exact Returns.bind (.any _) fun _ _ _ => Returns.pure nofun
  | ok found =>
    obtain ⟨loaded, plan, output⟩ := found
    refine Returns.bind (.any _) fun drained between _ => ?_
    cases drained.interrupted with
    | some interruptId => exact Returns.bind (.any _) fun _ _ _ => Returns.pure nofun
    | none =>
      refine Returns.bind (persistModelStep_returns submissionId turnId step loaded plan output)
        fun _ last hlast => ?_
      refine Returns.pure ?_
      intro normalized hnormalized
      rw [← Option.some.inj hnormalized]
      exact ⟨hlast, hplanned _ rfl⟩

end Plans

end MobiusAgent.CallPlans
