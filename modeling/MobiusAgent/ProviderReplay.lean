import MobiusAgent.ProviderRequests

/-!
# The translated conversation is the conversation

What the message lists of Anthropic and of Chat Completions say, read as one
sequence of entries, is what the items of the context say, in their order.
`Replays` relates items and entries for Anthropic, `ReplaysChat` for Chat
Completions. The messages of Anthropic are the runs of one role of its block
sequence, which places a result directly after the message with its call.
-/

namespace MobiusAgent.ProviderReplay

open JsonValue ProtocolEvents CheckpointValidation ContextItems ResponsesWire ProviderMessages
  ProviderRequests

section Runs

def wireBlocks (messages : List WireMessage) : List (String × Json) :=
  messages.flatMap fun message => message.content.map fun block => (message.role, block)

/-- Neighbouring messages have different roles, and none is empty. -/
inductive Alternating : List WireMessage → Prop where
  | nil : Alternating []
  | single (message : WireMessage) (hfilled : message.content ≠ []) : Alternating [message]
  /-- A message before one of another role. -/
  | cons (first second : WireMessage) (rest : List WireMessage) (hfilled : first.content ≠ [])
      (hroles : first.role ≠ second.role) (hrest : Alternating (second :: rest)) :
      Alternating (first :: second :: rest)

theorem wireBlocks_append (first second : List WireMessage) :
    wireBlocks (first ++ second) = wireBlocks first ++ wireBlocks second :=
  List.flatMap_append

theorem wireBlocks_cons (message : WireMessage) (rest : List WireMessage) :
    wireBlocks (message :: rest) =
      (message.content.map fun block => (message.role, block)) ++ wireBlocks rest :=
  List.flatMap_cons

theorem split_last {messages : List WireMessage} {last : WireMessage}
    (h : messages.getLast? = some last) : messages = messages.dropLast ++ [last] :=
  (List.dropLast_append_getLast? last h).symm

theorem wireBlocks_pushMessage (messages : List WireMessage) (role : String) (blocks : List Json) :
    wireBlocks (pushMessage messages role blocks) =
      wireBlocks messages ++ blocks.map fun block => (role, block) := by
  unfold pushMessage
  split
  · rename_i hempty
    rw [List.isEmpty_iff.mp hempty, List.map_nil, List.append_nil]
  · split
    · rename_i last hlast
      have hsplit := congrArg wireBlocks (split_last hlast)
      rw [wireBlocks_append] at hsplit
      split
      · rename_i hrole
        rw [wireBlocks_append, hsplit, List.append_assoc]
        congr 1
        simp only [wireBlocks, List.flatMap_cons, List.flatMap_nil, List.append_nil,
          List.map_append, hrole]
      · rw [wireBlocks_append]
        simp only [wireBlocks, List.flatMap_cons, List.flatMap_nil, List.append_nil]
    · rename_i hnone
      rw [List.getLast?_eq_none_iff] at hnone
      subst hnone
      simp only [wireBlocks, List.flatMap_cons, List.flatMap_nil, List.append_nil, List.nil_append]

/-- A message of another role, or more blocks for the last, keep messages alternating. -/
theorem Alternating.push {messages : List WireMessage} (h : Alternating messages) (role : String)
    (blocks : List Json) : Alternating (pushMessage messages role blocks) := by
  unfold pushMessage
  split
  · exact h
  · rename_i hempty
    have hblocks : blocks ≠ [] := fun hnil => hempty (List.isEmpty_iff.mpr hnil)
    induction h with
    | nil => exact .single _ hblocks
    | single message hfilled =>
      simp only [List.getLast?_singleton, List.dropLast_singleton, List.nil_append,
        List.singleton_append]
      split
      · refine .single _ fun hnil => hfilled ?_
        exact (List.append_eq_nil_iff.mp hnil).1
      · rename_i hrole
        exact .cons _ _ _ hfilled hrole (.single _ hblocks)
    | cons first second rest hfilled hroles hrest ih =>
      rw [List.getLast?_cons_cons]
      cases hlast : (second :: rest).getLast? with
      | none =>
        rw [List.getLast?_eq_none_iff] at hlast
        cases hlast
      | some last =>
        rw [hlast] at ih
        dsimp only at ih ⊢
        split
        · rename_i hrole
          rw [if_pos hrole] at ih
          cases rest with
          | nil =>
            obtain rfl : second = last := Option.some.inj hlast
            exact .cons _ _ _ hfilled hroles ih
          | cons third rest => exact .cons _ _ _ hfilled hroles ih
        · rename_i hrole
          rw [if_neg hrole] at ih
          exact .cons _ _ _ hfilled hroles ih

theorem Alternating.tail {first : WireMessage} {rest : List WireMessage}
    (h : Alternating (first :: rest)) : first.content ≠ [] ∧ Alternating rest := by
  cases h with
  | single _ hfilled => exact ⟨hfilled, .nil⟩
  | cons _ _ _ hfilled _ hrest => exact ⟨hfilled, hrest⟩

theorem Alternating.first {messages : List WireMessage} (h : Alternating messages) {role : String}
    {run : List Json} (hrun : run ≠ []) {later : List (String × Json)}
    (hblocks : wireBlocks messages = (run.map fun block => (role, block)) ++ later) :
    ∃ content rest, messages = ⟨role, run ++ content⟩ :: rest ∧
      later = (content.map fun block => (role, block)) ++ wireBlocks rest := by
  cases messages with
  | nil =>
    have hnil := congrArg List.length hblocks
    have hpositive := List.length_pos_of_ne_nil hrun
    simp only [wireBlocks, List.flatMap_nil, List.length_nil, List.length_append,
      List.length_map] at hnil
    omega
  | cons message rest =>
    obtain ⟨mrole, mcontent⟩ := message
    induction run generalizing mcontent later with
    | nil => exact absurd rfl hrun
    | cons block run ih =>
      have hfilled := h.tail.1
      rw [wireBlocks_cons] at hblocks
      cases mcontent with
      | nil => exact absurd rfl hfilled
      | cons first content =>
        rw [List.map_cons, List.map_cons, List.cons_append, List.cons_append] at hblocks
        obtain ⟨hhead, hrest⟩ := List.cons.inj hblocks
        obtain ⟨rfl, rfl⟩ := Prod.mk.inj hhead
        cases hmore : run with
        | nil =>
          subst hmore
          exact ⟨content, rest, rfl, hrest.symm⟩
        | cons next run' =>
          have hnonempty : run ≠ [] := by
            rw [hmore]
            exact List.cons_ne_nil _ _
          have hcontent : content ≠ [] := by
            rintro rfl
            rw [hmore, List.map_nil, List.nil_append, List.map_cons, List.cons_append] at hrest
            cases h with
            | single => cases hrest
            | cons _ second later' _ hroles hlater =>
              obtain ⟨srole, scontent⟩ := second
              rw [wireBlocks_cons] at hrest
              cases scontent with
              | nil => exact absurd rfl hlater.tail.1
              | cons other more =>
                rw [List.map_cons, List.cons_append] at hrest
                exact hroles (congrArg Prod.fst (List.cons.inj hrest).1).symm
          have hshorter : Alternating (⟨mrole, content⟩ :: rest) := by
            cases h with
            | single => exact .single _ hcontent
            | cons _ second later' _ hroles hlater => exact .cons _ _ _ hcontent hroles hlater
          obtain ⟨left, after, hsame, hafter⟩ := ih hnonempty content hshorter
            (by rw [wireBlocks_cons]; exact hrest)
          obtain ⟨hmessage, rfl⟩ := List.cons.inj hsame
          obtain rfl : content = run ++ left := congrArg WireMessage.content hmessage
          exact ⟨left, rest, by rw [← hmore]; rfl, hafter⟩

theorem role_of_mem {message : WireMessage} {pair : String × Json}
    (h : pair ∈ message.content.map fun block => (message.role, block)) :
    pair.1 = message.role := by
  obtain ⟨block, -, rfl⟩ := List.mem_map.mp h
  rfl

theorem Alternating.last {messages : List WireMessage} (h : Alternating messages) {role : String}
    {run : List Json} (hrun : run ≠ []) {before : List (String × Json)}
    (hblocks : wireBlocks messages = before ++ run.map fun block => (role, block)) :
    ∃ rest content, messages = rest ++ [⟨role, content ++ run⟩] := by
  obtain ⟨start, later, rfl⟩ := List.exists_cons_of_ne_nil hrun
  have hmem : ∀ pair ∈ (start :: later).map (fun block => (role, block)), pair.1 = role := by
    intro pair hpair
    obtain ⟨block, -, rfl⟩ := List.mem_map.mp hpair
    rfl
  induction h generalizing before with
  | nil =>
    cases before with
    | nil | cons => cases hblocks
  | single message hfilled =>
    rw [wireBlocks_cons] at hblocks
    change _ ++ [] = _ at hblocks
    rw [List.append_nil] at hblocks
    obtain ⟨content, tail, hcontent, -, htail⟩ := List.map_eq_append_iff.mp hblocks
    have hrole : message.role = role := by
      have hfirst : (role, start) ∈ tail.map fun block => (message.role, block) := by
        rw [htail]
        exact List.mem_cons_self
      obtain ⟨block, -, hsame⟩ := List.mem_map.mp hfirst
      exact congrArg Prod.fst hsame
    have hsame : tail = start :: later := by
      have hsecond := congrArg (List.map Prod.snd) htail
      simpa only [List.map_map, Function.comp_def, List.map_id'] using hsecond
    obtain ⟨mrole, mcontent⟩ := message
    dsimp only at hcontent hrole
    subst hrole hsame hcontent
    exact ⟨[], content, rfl⟩
  | cons first second rest hfilled hroles hrest ih =>
    rw [wireBlocks_cons] at hblocks
    rcases List.append_eq_append_iff.mp hblocks with ⟨extra, -, hlater⟩ | ⟨extra, hcontent, hlater⟩
    · obtain ⟨init, content, hinit⟩ := ih hlater
      exact ⟨first :: init, content, by rw [hinit]; rfl⟩
    · cases extra with
      | nil =>
        obtain ⟨init, content, hinit⟩ := @ih [] hlater.symm
        exact ⟨first :: init, content, by rw [hinit]; rfl⟩
      | cons pair extra =>
        exfalso
        have hfirst : pair.1 = first.role := by
          refine @role_of_mem first _ ?_
          rw [hcontent]
          exact List.mem_append_right _ List.mem_cons_self
        have hpair : pair.1 = role := by
          refine hmem pair ?_
          rw [hlater]
          exact List.mem_append_left _ List.mem_cons_self
        obtain ⟨block, content, hsecond⟩ := List.exists_cons_of_ne_nil hrest.tail.1
        have hnext : second.role = role := by
          refine hmem (second.role, block) ?_
          rw [hlater, wireBlocks_cons, hsecond]
          exact List.mem_append_right _ (List.mem_append_left _ List.mem_cons_self)
        exact hroles (hfirst.symm.trans (hpair.trans hnext.symm))

theorem Alternating.split {messages : List WireMessage} (h : Alternating messages)
    {before after : List (String × Json)} {role other : String} {block next : Json}
    (hblocks : wireBlocks messages = before ++ (role, block) :: (other, next) :: after)
    (hroles : role ≠ other) :
    ∃ first second, messages = first ++ second ∧ Alternating first ∧ Alternating second ∧
      wireBlocks first = before ++ [(role, block)] ∧ wireBlocks second = (other, next) :: after := by
  induction messages generalizing before with
  | nil => cases before <;> cases hblocks
  | cons message rest ih =>
    obtain ⟨hfilled, hrest⟩ := h.tail
    rw [wireBlocks_cons] at hblocks
    rcases List.append_eq_append_iff.mp hblocks with ⟨extra, hbefore, hlater⟩ | ⟨extra, hcontent, hlater⟩
    · -- The change comes after this message.
      obtain ⟨first, second, rfl, hfirst, hsecond, hone, htwo⟩ := ih hrest hlater
      refine ⟨message :: first, second, rfl, ?_, hsecond, ?_, htwo⟩
      · cases first with
        | nil => exact .single _ hfilled
        | cons head tail =>
          cases h with
          | cons _ _ _ _ hne _ => exact .cons _ _ _ hfilled hne hfirst
      · rw [wireBlocks_cons, hone, hbefore, List.append_assoc]
    · -- The change begins in this message, so it ends with the block.
      cases extra with
      | nil =>
        rw [List.nil_append] at hlater
        rw [List.append_nil] at hcontent
        obtain ⟨first, second, rfl, hfirst, hsecond, hone, htwo⟩ :=
          @ih hrest [] hlater.symm
        refine ⟨message :: first, second, rfl, ?_, hsecond, ?_, htwo⟩
        · cases first with
          | nil => cases hone
          | cons head tail =>
            cases h with
            | cons _ _ _ _ hne _ => exact .cons _ _ _ hfilled hne hfirst
        · rw [wireBlocks_cons, hone, hcontent, List.nil_append]
      | cons pair extra =>
        rw [List.cons_append] at hlater
        obtain ⟨hpair, hafter⟩ := List.cons.inj hlater
        subst hpair
        have hlast : extra = [] := by
          cases extra with
          | nil => rfl
          | cons second extra =>
            exfalso
            rw [List.cons_append] at hafter
            obtain ⟨hsecond, -⟩ := List.cons.inj hafter
            subst hsecond
            have hfirst : role = message.role := by
              refine @role_of_mem _ (role, block) ?_
              rw [hcontent]
              exact List.mem_append_right _ List.mem_cons_self
            have hsecond : other = message.role := by
              refine @role_of_mem _ (other, next) ?_
              rw [hcontent]
              exact List.mem_append_right _ (List.mem_cons_of_mem _ List.mem_cons_self)
            exact hroles (hfirst.trans hsecond.symm)
        subst hlast
        rw [List.nil_append] at hafter
        refine ⟨[message], rest, rfl, .single _ hfilled, hrest, ?_, hafter.symm⟩
        rw [wireBlocks_cons, hcontent]
        exact List.append_nil _

/-- Results that come directly after blocks of the assistant are in the message directly after
that of these blocks, at its start. -/
theorem Alternating.adjacent {messages : List WireMessage} (h : Alternating messages)
    {before after : List (String × Json)} {calls results : List Json} (hcalls : calls ≠ [])
    (hresults : results ≠ [])
    (hblocks : wireBlocks messages = before ++ (calls.map fun block => ("assistant", block)) ++
      (results.map fun block => ("user", block)) ++ after) :
    ∃ first content second more, messages = first ++
      [⟨"assistant", content ++ calls⟩, ⟨"user", results ++ more⟩] ++ second := by
  have hlast := List.dropLast_append_getLast hcalls
  obtain ⟨next, later, hnext⟩ := List.exists_cons_of_ne_nil hresults
  have hsplit : wireBlocks messages =
      (before ++ calls.dropLast.map fun block => ("assistant", block)) ++
        ("assistant", calls.getLast hcalls) :: ("user", next) ::
          ((later.map fun block => ("user", block)) ++ after) := by
    rw [hblocks, hnext]
    nth_rewrite 1 [← hlast]
    simp only [List.map_append, List.map_cons, List.map_nil, List.append_assoc,
      List.cons_append, List.nil_append]
  obtain ⟨first, second, rfl, hfirst, hsecond, hone, htwo⟩ := h.split hsplit (by decide)
  have hcall : wireBlocks first = before ++ calls.map fun block => ("assistant", block) := by
    rw [hone, List.append_assoc]
    congr 1
    nth_rewrite 3 [← hlast]
    rw [List.map_append]
    rfl
  have hresult : wireBlocks second = (results.map fun block => ("user", block)) ++ after := by
    rw [htwo, hnext]
    rfl
  obtain ⟨init, content, rfl⟩ := hfirst.last hcalls hcall
  obtain ⟨more, rest, rfl, -⟩ := hsecond.first hresults hresult
  refine ⟨init, content, rest, more, ?_⟩
  simp only [List.append_assoc, List.cons_append, List.nil_append]

end Runs

section Anthropic

/-- What one item says in an Anthropic request. -/
inductive Entry where
  | block (role : String) (shown : Json)
  | call (callId name : String) (input : Json)
  | result (callId : String) (content : List Json) (isError : Bool)
  /-- Loaded tools, as the search that would have found them. -/
  | load (callId : String) (references : List Json)

def Entry.blocks : Entry → List (String × Json)
  | .block role shown => [(role, shown)]
  | .call callId name input => [("assistant", toolUseBlock callId name input)]
  | .result callId content isError => [("user", toolResult callId content isError)]
  | .load callId references =>
    [("assistant", toolUseBlock callId toolsSearchName
      (.obj [("query", .str "restore loaded session tools")])),
      ("user", toolResult callId references false)]

def itemSearches (item : Json) : List String :=
  if itemKind item = some "function_call" ∧ item.getStr "name" = some toolsSearchName then
    (itemCallId item).toList
  else []

/-- The searches that items start, the latest first. -/
def searchesIn (items : List Json) : List String :=
  items.foldl (fun searches item => itemSearches item ++ searches) []

variable (codec : MessageCodec) (discovery : Discovery)

/-- What an item says, between the items before it and the one after it. -/
inductive ReplaysItem (before : List Json) (item : Json) (next : Option Json) :
    List Entry → Prop where
  | preserved (role : String) (blocks : List Json) (hkind : itemKind item = some "message")
      (hrole : item.getStr "role" = some role) (hraw : rawContent item = some blocks) :
      ReplaysItem before item next (blocks.map (.block role))
  /-- Another message says the blocks of its parts. -/
  | message (role : String) (blocks : List Json) (hkind : itemKind item = some "message")
      (hrole : item.getStr "role" = some role) (hraw : rawContent item = none)
      (hblocks : contentBlocks codec (messageParts item) = .ok blocks) :
      ReplaysItem before item next (blocks.map (.block role))
  | call (callId name arguments : String) (input : Json)
      (hkind : itemKind item = some "function_call") (hid : item.getStr "call_id" = some callId)
      (hname : item.getStr "name" = some name)
      (harguments : item.getStr "arguments" = some arguments)
      (hinput : codec.parse arguments = .ok input) (hnew : callId ∉ preservedIn before) :
      ReplaysItem before item next [.call callId name input]
  /-- A call that preserved blocks hold says nothing more. -/
  | held (callId : String) (hkind : itemKind item = some "function_call")
      (hid : item.getStr "call_id" = some callId) (hold : callId ∈ preservedIn before) :
      ReplaysItem before item next []
  /-- A result says its content, or the tools that the load after it gives a search. -/
  | result (callId : String) (load : Option ToolLoad) (content : List Json)
      (hkind : itemKind item = some "function_call_output")
      (hid : item.getStr "call_id" = some callId) (hload : nextLoad codec next = .ok load)
      (hcontent : resultContent codec (resultReferences load discovery (searchesIn before) callId)
        item = .ok content) :
      ReplaysItem before item next
        [.result callId content ((item.getBool toolErrorField).getD false)]
  /-- A load that answers no search says the tools that the request can refer to. -/
  | load (load : ToolLoad) (hkind : itemKind item = some "tool_load")
      (hload : toolLoadOf codec.toWireCodec item = .ok (some load))
      (hmode : discovery.mode = .native)
      (halone : followsSearchResult before.getLast? (searchesIn before) = false)
      (hshown : toolReferences load discovery ≠ []) :
      ReplaysItem before item next
        [.load ("mobius-tool-load-" ++ toString before.length) (toolReferences load discovery)]
  /-- Another load says nothing. -/
  | silent (hkind : itemKind item = some "tool_load")
      (hnothing : discovery.mode = .rebuild ∨
        followsSearchResult before.getLast? (searchesIn before) = true ∨
          ∀ load, toolLoadOf codec.toWireCodec item = .ok (some load) →
            toolReferences load discovery = []) :
      ReplaysItem before item next []
  | other (hmessage : itemKind item ≠ some "message") (hcall : itemKind item ≠ some "function_call")
      (hresult : itemKind item ≠ some "function_call_output")
      (hload : itemKind item ≠ some "tool_load") : ReplaysItem before item next []

/-- What items say in their order, after those before them. -/
inductive Replays : List Json → List Json → List Entry → Prop where
  | nil (before : List Json) : Replays before [] []
  /-- What the first says, then the others. -/
  | cons {before : List Json} {item : Json} {rest : List Json} {entries later : List Entry}
      (hitem : ReplaysItem codec discovery before item rest.head? entries)
      (hrest : Replays (before ++ [item]) rest later) :
      Replays before (item :: rest) (entries ++ later)

variable {codec : MessageCodec} {discovery : Discovery}

/-- The state of a translation after some items. -/
structure After (before : List Json) (state : Translation) : Prop where
  preserved : state.preserved = preservedIn before
  searches : state.searches = searchesIn before
  alternating : Alternating state.messages

theorem preservedIn_concat (before : List Json) (item : Json) :
    preservedIn (before ++ [item]) = preservedIn before ++ itemPreserves item := by
  unfold preservedIn
  rw [List.flatMap_append, List.flatMap_singleton]

theorem searchesIn_concat (before : List Json) (item : Json) :
    searchesIn (before ++ [item]) = itemSearches item ++ searchesIn before := by
  unfold searchesIn
  rw [List.foldl_append]
  rfl

theorem itemSearches_other {item : Json} (h : itemKind item ≠ some "function_call") :
    itemSearches item = [] := by
  unfold itemSearches
  rw [if_neg]
  exact fun hcall => h hcall.1

theorem blocks_entries (role : String) (blocks : List Json) :
    (blocks.map (Entry.block role)).flatMap Entry.blocks =
      blocks.map fun block => (role, block) := by
  induction blocks with
  | nil => rfl
  | cons block rest ih =>
    rw [List.map_cons, List.flatMap_cons, ih]
    rfl

theorem wireBlocks_load {messages : List WireMessage} {index : Nat} {load : ToolLoad}
    (hshown : toolReferences load discovery ≠ []) (hmode : discovery.mode = .native) :
    wireBlocks (replayStandaloneToolLoad discovery false index (some load) messages) =
      wireBlocks messages ++
        (Entry.load ("mobius-tool-load-" ++ toString index)
          (toolReferences load discovery)).blocks := by
  unfold replayStandaloneToolLoad
  have hempty : ¬(toolReferences load discovery).isEmpty = true := by
    intro hnil
    exact hshown (List.isEmpty_iff.mp hnil)
  have hskip : ¬(discovery.mode ≠ .native ∨ (false : Bool) = true) := by
    rw [hmode]
    decide
  dsimp only
  rw [if_neg hskip, if_neg hempty, wireBlocks_pushMessage, wireBlocks_pushMessage,
    List.append_assoc]
  rfl

theorem Alternating.load {messages : List WireMessage} (h : Alternating messages) (follows : Bool)
    (index : Nat) (load : Option ToolLoad) :
    Alternating (replayStandaloneToolLoad discovery follows index load messages) := by
  unfold replayStandaloneToolLoad
  cases load with
  | none => exact h
  | some load =>
    dsimp only
    split
    · exact h
    · split
      · exact h
      · exact (h.push _ _).push _ _

theorem translateItem_replays {before : List Json} {item : Json} {next : Option Json}
    {state after : Translation} (hstate : After before state)
    (h : translateItem codec discovery before.getLast? next before.length state item = .ok after) :
    ∃ entries, ReplaysItem codec discovery before item next entries ∧
      wireBlocks after.messages = wireBlocks state.messages ++ entries.flatMap Entry.blocks ∧
      After (before ++ [item]) after := by
  have hadded := (translateItem_added h).preserved
  have hpreserved : after.preserved = preservedIn (before ++ [item]) := by
    rw [hadded, hstate.preserved, preservedIn_concat]
  unfold translateItem at h
  split at h
  · rename_i hkind
    have hsearches : searchesIn (before ++ [item]) = searchesIn before := by
      rw [searchesIn_concat, itemSearches_other, List.nil_append]
      rw [hkind]
      decide
    unfold translateMessage at h
    split at h
    · cases h
    · rename_i role hrole
      split at h
      · rename_i blocks hraw
        cases h
        refine ⟨_, .preserved role blocks hkind hrole hraw, ?_, hpreserved, ?_,
          hstate.alternating.push role blocks⟩
        · rw [blocks_entries]
          exact wireBlocks_pushMessage _ _ _
        · exact hstate.searches.trans hsearches.symm
      · rename_i hraw
        obtain ⟨blocks, hblocks, h⟩ := bind_ok h
        cases h
        refine ⟨_, .message role blocks hkind hrole hraw hblocks, ?_, hpreserved, ?_,
          hstate.alternating.push role blocks⟩
        · rw [blocks_entries]
          exact wireBlocks_pushMessage _ _ _
        · exact hstate.searches.trans hsearches.symm
  · rename_i hmessage
    split at h
    · rename_i hkind
      unfold translateCall at h
      obtain ⟨callId, hcallId, h⟩ := bind_ok h
      obtain ⟨name, hname, h⟩ := bind_ok h
      have hid := (requiredString_ok_iff.mp hcallId).1
      have hnamed := (requiredString_ok_iff.mp hname).1
      have hsearches : (if name = toolsSearchName then callId :: state.searches
          else state.searches) = searchesIn (before ++ [item]) := by
        rw [searchesIn_concat, hstate.searches]
        unfold itemSearches
        by_cases hsearch : name = toolsSearchName
        · rw [if_pos hsearch, if_pos ⟨hkind, by rw [hnamed, hsearch]⟩]
          have hcall : itemCallId item = some callId := hid
          rw [hcall]
          rfl
        · rw [if_neg hsearch, if_neg]
          · rfl
          · rintro ⟨-, hsame⟩
            rw [hnamed] at hsame
            exact hsearch (Option.some.inj hsame)
      dsimp only at h
      split at h
      · rename_i hold
        cases h
        rw [hstate.preserved] at hold
        refine ⟨_, .held callId hkind hid hold, ?_, hpreserved, hsearches, hstate.alternating⟩
        exact (List.append_nil _).symm
      · rename_i hnew
        obtain ⟨arguments, harguments, h⟩ := bind_ok h
        obtain ⟨input, hinput, h⟩ := bind_ok h
        cases h
        rw [hstate.preserved] at hnew
        refine ⟨_, .call callId name arguments input hkind hid hnamed
          (requiredString_ok_iff.mp harguments).1 hinput hnew, ?_, hpreserved, hsearches, ?_⟩
        · exact wireBlocks_pushMessage state.messages "assistant" [toolUseBlock callId name input]
        · exact hstate.alternating.push "assistant" [toolUseBlock callId name input]
    · rename_i hcall
      have hsearches : searchesIn (before ++ [item]) = searchesIn before := by
        rw [searchesIn_concat, itemSearches_other hcall, List.nil_append]
      split at h
      · rename_i hkind
        obtain ⟨block, hblock, h⟩ := bind_ok h
        cases h
        unfold toolResultBlock at hblock
        obtain ⟨callId, hcallId, hblock⟩ := bind_ok hblock
        obtain ⟨load, hload, hblock⟩ := bind_ok hblock
        obtain ⟨content, hcontent, hblock⟩ := bind_ok hblock
        cases hblock
        rw [hstate.searches] at hcontent
        refine ⟨_, .result callId load content hkind (requiredString_ok_iff.mp hcallId).1 hload
          hcontent, ?_, hpreserved, hstate.searches.trans hsearches.symm, ?_⟩
        · exact wireBlocks_pushMessage state.messages "user"
            [toolResult callId content ((item.getBool toolErrorField).getD false)]
        · exact hstate.alternating.push "user"
            [toolResult callId content ((item.getBool toolErrorField).getD false)]
      · rename_i hresult
        split at h
        · rename_i hkind
          obtain ⟨load, hload, h⟩ := bind_ok h
          cases h
          have hsame := hstate.searches.trans hsearches.symm
          by_cases hsays : discovery.mode = .native ∧
              followsSearchResult before.getLast? (searchesIn before) = false ∧
              ∃ found, load = some found ∧ toolReferences found discovery ≠ []
          · obtain ⟨hmode, halone, found, rfl, hshown⟩ := hsays
            refine ⟨_, .load found hkind hload hmode halone hshown, ?_, hpreserved, hsame, ?_⟩
            · dsimp only
              rw [hstate.searches, halone]
              exact wireBlocks_load hshown hmode
            · dsimp only
              exact hstate.alternating.load _ _ _
          · refine ⟨_, .silent hkind ?_, ?_, hpreserved, hsame, ?_⟩
            · cases hmode : discovery.mode with
              | rebuild => exact .inl rfl
              | native =>
                cases halone : followsSearchResult before.getLast? (searchesIn before) with
                | true => exact .inr (.inl rfl)
                | false =>
                  refine .inr (.inr fun found hfound => ?_)
                  by_contra hshown
                  rw [hload] at hfound
                  exact hsays ⟨hmode, halone, found, Except.ok.inj hfound, hshown⟩
            · dsimp only
              rw [hstate.searches, List.flatMap_nil, List.append_nil]
              unfold replayStandaloneToolLoad
              cases load with
              | none => rfl
              | some found =>
                dsimp only
                split
                · rfl
                · rename_i hactive
                  split
                  · rfl
                  · rename_i hshown
                    exfalso
                    apply hsays
                    refine ⟨?_, ?_, found, rfl, fun hnil => hshown (List.isEmpty_iff.mpr hnil)⟩
                    · by_contra hmode
                      exact hactive (.inl hmode)
                    · rw [Bool.eq_false_iff]
                      exact fun hfollows => hactive (.inr hfollows)
            · dsimp only
              exact hstate.alternating.load _ _ _
        · rename_i hload
          cases h
          refine ⟨_, .other hmessage hcall hresult hload, ?_, hpreserved,
            hstate.searches.trans hsearches.symm, hstate.alternating⟩
          exact (List.append_nil _).symm

theorem translateFrom_replays {before input : List Json} {state after : Translation}
    (hstate : After before state)
    (h : translateFrom codec discovery before.getLast? before.length state input = .ok after) :
    ∃ entries, Replays codec discovery before input entries ∧
      wireBlocks after.messages = wireBlocks state.messages ++ entries.flatMap Entry.blocks ∧
      Alternating after.messages := by
  induction input generalizing before state with
  | nil =>
    cases h
    exact ⟨[], .nil before, (List.append_nil _).symm, hstate.alternating⟩
  | cons item rest ih =>
    unfold translateFrom at h
    obtain ⟨between, hbetween, h⟩ := bind_ok h
    obtain ⟨entries, hentries, hblocks, hafter⟩ := translateItem_replays hstate hbetween
    have hlast : (before ++ [item]).getLast? = some item := List.getLast?_concat
    have hlength : (before ++ [item]).length = before.length + 1 := List.length_append
    rw [← hlast, ← hlength] at h
    obtain ⟨later, hlater, hmore, halternating⟩ := ih hafter h
    refine ⟨entries ++ later, .cons hentries hlater, ?_, halternating⟩
    rw [hmore, hblocks, List.flatMap_append, List.append_assoc]

/-- A block before and after the cache endpoint was marked. -/
inductive Marked : Json → Json → Prop where
  | plain (block : Json) : Marked block block
  | endpoint (block : Json) : Marked block (block.insert "cache_control" cacheControl)

/-- A message before and after the cache endpoint was marked. -/
structure MarkedMessage (message marked : WireMessage) : Prop where
  role : marked.role = message.role
  content : List.Forall₂ Marked message.content marked.content

theorem marked_refl (blocks : List Json) : List.Forall₂ Marked blocks blocks := by
  induction blocks with
  | nil => exact .nil
  | cons block rest ih => exact .cons (.plain block) ih

theorem markLastBlock_marked (blocks : List Json) :
    List.Forall₂ Marked blocks (markLastBlock blocks).1 := by
  induction blocks with
  | nil => exact .nil
  | cons block rest ih =>
    unfold markLastBlock
    dsimp only
    split
    · exact .cons (.plain block) ih
    · split
      · exact .cons (.endpoint block) ih
      · exact .cons (.plain block) ih

theorem markLatest_marked (messages : List WireMessage) :
    List.Forall₂ MarkedMessage messages (markLatestCacheEndpoint messages) := by
  induction messages with
  | nil => exact .nil
  | cons message rest ih =>
    cases rest with
    | nil => exact .cons ⟨rfl, markLastBlock_marked message.content⟩ .nil
    | cons second later => exact .cons ⟨rfl, marked_refl message.content⟩ ih

/-- Whether an entry is said by the assistant alone. -/
def Entry.isAssistant (entry : Entry) : Bool := entry.blocks.all fun block => block.1 == "assistant"

def Entry.isResult : Entry → Bool
  | .result .. => true
  | .block .. => false
  | .call .. => false
  | .load .. => false

/-- Results directly after what the assistant said are in the message directly after it, and
that message begins with them. -/
def ResultsFollow (entries : List Entry) (messages : List WireMessage) : Prop :=
  ∀ before calls results after, entries = before ++ calls ++ results ++ after → calls ≠ [] →
    results ≠ [] → (∀ entry ∈ calls, entry.isAssistant = true) →
      (∀ entry ∈ results, entry.isResult = true) → ∃ first content second more,
        messages = first ++ [⟨"assistant", content ++ (calls.flatMap Entry.blocks).map Prod.snd⟩,
          ⟨"user", (results.flatMap Entry.blocks).map Prod.snd ++ more⟩] ++ second

theorem Entry.blocks_ne_nil (entry : Entry) : entry.blocks ≠ [] := by
  cases entry with
  | block | call | result | load => exact List.cons_ne_nil _ _

theorem entries_blocks_ne_nil {entries : List Entry} (h : entries ≠ []) :
    (entries.flatMap Entry.blocks).map Prod.snd ≠ [] := by
  obtain ⟨entry, rest, rfl⟩ := List.exists_cons_of_ne_nil h
  intro hnil
  have hblocks := List.map_eq_nil_iff.mp hnil
  rw [List.flatMap_cons] at hblocks
  exact entry.blocks_ne_nil (List.append_eq_nil_iff.mp hblocks).1

theorem blocks_of_role {pairs : List (String × Json)} {role : String}
    (h : ∀ pair ∈ pairs, pair.1 = role) :
    pairs = (pairs.map Prod.snd).map fun block => (role, block) := by
  induction pairs with
  | nil => rfl
  | cons pair rest ih =>
    have hpair : pair = (role, pair.2) := Prod.ext (h pair List.mem_cons_self) rfl
    have hrest := ih fun other hother => h other (List.mem_cons_of_mem _ hother)
    rw [List.map_cons, List.map_cons, ← hrest, ← hpair]

theorem assistant_blocks {entries : List Entry} (h : ∀ entry ∈ entries, entry.isAssistant = true) :
    entries.flatMap Entry.blocks =
      ((entries.flatMap Entry.blocks).map Prod.snd).map fun block => ("assistant", block) := by
  refine blocks_of_role fun pair hpair => ?_
  obtain ⟨entry, hentry, hblock⟩ := List.mem_flatMap.mp hpair
  exact beq_iff_eq.mp (List.all_eq_true.mp (h entry hentry) pair hblock)

theorem result_blocks {entries : List Entry} (h : ∀ entry ∈ entries, entry.isResult = true) :
    entries.flatMap Entry.blocks =
      ((entries.flatMap Entry.blocks).map Prod.snd).map fun block => ("user", block) := by
  refine blocks_of_role fun pair hpair => ?_
  obtain ⟨entry, hentry, hblock⟩ := List.mem_flatMap.mp hpair
  have hresult := h entry hentry
  cases entry with
  | result callId content isError =>
    rw [List.mem_singleton.mp hblock]
  | block | call | load => cases hresult

theorem Alternating.resultsFollow {messages : List WireMessage} (h : Alternating messages)
    {entries : List Entry} (hblocks : wireBlocks messages = entries.flatMap Entry.blocks) :
    ResultsFollow entries messages := by
  intro before calls results after hsplit hcalls hresults hassistant hresult
  rw [hsplit, List.flatMap_append, List.flatMap_append, List.flatMap_append,
    assistant_blocks hassistant, result_blocks hresult] at hblocks
  exact h.adjacent (entries_blocks_ne_nil hcalls) (entries_blocks_ne_nil hresults) hblocks

variable (codec : MessageCodec) (discovery : Discovery)

/-- The text of a part that a message shows. -/
def partText (part : Json) : Option String :=
  if itemType part = some "input_text" ∨ itemType part = some "output_text" then
    part.getStr "text"
  else if itemType part = some "file" then some (storedFileText codec.toWireCodec part)
  else none

def blockText (block : Json) : Option String :=
  if itemType block = some "text" then block.getStr "text" else none

def outputParts (item : Json) : List Json := ((item.get "output").bind Json.asArray).getD []

/-- What a request to Anthropic keeps of a context. -/
structure AnthropicKeeps (context : List Json) (wire : List WireMessage) : Prop where
  /-- Every item is said once, in the order of the context. -/
  conversation : ∃ messages entries, Replays codec discovery [] context entries ∧
    wireBlocks messages = entries.flatMap Entry.blocks ∧ Alternating messages ∧
      ResultsFollow entries messages ∧ List.Forall₂ MarkedMessage messages wire
  /-- The blocks of a message show the text of its parts, in their order. -/
  text : ∀ item ∈ context, ∀ blocks, contentBlocks codec (messageParts item) = .ok blocks →
    blocks.filterMap blockText = (messageParts item).filterMap (partText codec)
  /-- The blocks of a result, unless it refers to tools, show the text of its parts as well. -/
  results : ∀ item ∈ context, ∀ blocks, resultContent codec [] item = .ok blocks →
    blocks.filterMap blockText = (outputParts item).filterMap (partText codec)

variable {codec : MessageCodec} {discovery : Discovery}

theorem blockText_insert (block value : Json) :
    blockText (block.insert "cache_control" value) = blockText block := by
  unfold blockText itemType Json.getStr
  rw [Json.get_insert_ne (by decide), Json.get_insert_ne (by decide)]

theorem bareBlock_text {part : Json} {block : Option Json} (h : bareBlock codec part = .ok block) :
    block.bind blockText = partText codec part := by
  unfold bareBlock at h
  unfold partText
  split at h
  · rename_i htext
    obtain ⟨text, hread, hblock⟩ := except_map_ok h
    rw [if_pos htext, ← hblock, (requiredString_ok_iff.mp hread).1]
    rfl
  · rename_i hother
    rw [if_neg hother]
    split at h
    · rename_i himage
      obtain ⟨image, -, hblock⟩ := except_map_ok h
      rw [if_neg (by rw [himage]; decide), ← hblock]
      cases image <;> rfl
    · split at h
      · rename_i hfile
        rw [if_pos hfile]
        cases h
        rfl
      · rename_i hfile
        rw [if_neg hfile]
        cases h
        rfl

theorem contentBlock_text {part : Json} {block : Option Json}
    (h : contentBlock codec part = .ok block) : block.bind blockText = partText codec part := by
  unfold contentBlock at h
  obtain ⟨bare, hbare, hblock⟩ := except_map_ok h
  rw [← bareBlock_text hbare, ← hblock]
  cases bare with
  | none => rfl
  | some block =>
    dsimp only [Option.map_some, Option.bind_some]
    split
    · exact blockText_insert _ _
    · rfl

theorem contentBlocks_text {parts blocks : List Json} (h : contentBlocks codec parts = .ok blocks) :
    blocks.filterMap blockText = parts.filterMap (partText codec) := by
  unfold contentBlocks at h
  obtain ⟨options, hoptions, rfl⟩ := except_map_ok h
  have hrelated := mapM_forall₂ hoptions
  clear h hoptions
  induction hrelated with
  | nil => rfl
  | @cons part option parts options hpart hrest ih =>
    rw [List.filterMap_cons, List.filterMap_cons, ← contentBlock_text hpart]
    cases option with
    | none => exact ih
    | some block =>
      dsimp only [id, Option.bind_some]
      rw [List.filterMap_cons, ih]

theorem filterMap_forall₂ {α β γ : Type} {first : α → Option γ} {second : β → Option γ}
    {items : List α} {others : List β}
    (h : List.Forall₂ (fun item other => second other = first item) items others) :
    others.filterMap second = items.filterMap first := by
  induction h with
  | nil => rfl
  | cons hitem _ ih => rw [List.filterMap_cons, List.filterMap_cons, hitem, ih]

theorem toolContentBlock_text {part block : Json} (h : toolContentBlock codec part = .ok block) :
    blockText block = partText codec part := by
  unfold toolContentBlock at h
  obtain ⟨shown, hshown, h⟩ := bind_ok h
  have htext := contentBlock_text hshown
  cases shown with
  | none => cases h
  | some shown =>
    rw [← Except.ok.inj h]
    exact htext

theorem resultContent_text {item : Json} {blocks : List Json}
    (h : resultContent codec [] item = .ok blocks) :
    blocks.filterMap blockText = (outputParts item).filterMap (partText codec) := by
  unfold resultContent at h
  rw [if_pos List.isEmpty_nil] at h
  obtain ⟨output, houtput, h⟩ := bind_ok h
  unfold outputParts
  rw [resultOutput_ok_iff.mp houtput, Option.bind_some]
  unfold toolContentBlocks at h
  split at h
  · rename_i parts hparts
    rw [hparts, Option.getD_some]
    exact filterMap_forall₂ ((mapM_forall₂ h).imp fun _ _ => toolContentBlock_text)
  · cases h

theorem translateMessages_keeps {context : List Json} {wire : List WireMessage}
    (h : translateMessages codec discovery context = .ok wire) :
    AnthropicKeeps codec discovery context wire := by
  unfold translateMessages at h
  obtain ⟨after, hafter, h⟩ := bind_ok h
  have hstart : After [] ⟨[], [], []⟩ := ⟨rfl, rfl, .nil⟩
  obtain ⟨entries, hentries, hblocks, halternating⟩ := translateFrom_replays hstart hafter
  split at h
  · cases h
  · cases h
    constructor
    · exact ⟨after.messages, entries, hentries, hblocks, halternating,
        halternating.resultsFollow hblocks, markLatest_marked after.messages⟩
    · intro item _ blocks hread
      exact contentBlocks_text hread
    · intro item _ blocks hread
      exact resultContent_text hread

end Anthropic

section ChatCompletions

/-- What one item says in a Chat Completions request. -/
inductive ChatEntry (C : Type) where
  | message (role : String) (payload : C)
  | call (wireCall : WireToolCall)
  | result (callId : String) (payload : C)

variable {C : Type}

/-- What the head of a message says; the message that carries calls only says none. -/
def chatHead (carrier : C → Bool) (message : ChatMessage C) : List (ChatEntry C) :=
  match message.toolCallId with
  | some callId => [.result callId message.payload]
  | none =>
    if message.role = "assistant" ∧ carrier message.payload = true then []
    else [.message message.role message.payload]

/-- What a message says: its content, then its calls. -/
def chatEntries (carrier : C → Bool) (message : ChatMessage C) : List (ChatEntry C) :=
  chatHead carrier message ++ message.toolCalls.map .call

variable (codec : MessageCodec) (provider : String) (content : ContentSource → Except Error C)
  (text : C → String)

/-- The text of an output: those of its parts as lines or in a row. -/
def Shows (output : Json) (shown : String) : Prop :=
  shown = "\n".intercalate ((output.asArray.getD []).filterMap (partText codec)) ∨
    shown = String.join ((output.asArray.getD []).filterMap (partText codec))

/-- What an item of the context says. -/
inductive SaysChat (item : Json) : List (ChatEntry C) → Prop where
  /-- A call says its name and the text of its arguments. -/
  | call (wireCall : WireToolCall) (hkind : itemType item = some "function_call")
      (hid : item.getStr "call_id" = some wireCall.id)
      (hname : item.getStr "name" = some wireCall.name)
      (harguments : item.get "arguments" = some (.str wireCall.arguments)) :
      SaysChat item [.call wireCall]
  /-- Arguments that are no text are written as text. -/
  | rendered (wireCall : WireToolCall) (arguments : Json)
      (hkind : itemType item = some "function_call")
      (hid : item.getStr "call_id" = some wireCall.id)
      (hname : item.getStr "name" = some wireCall.name)
      (harguments : item.get "arguments" = some arguments)
      (hrendered : wireCall.arguments = codec.render arguments) : SaysChat item [.call wireCall]
  /-- A result says its content, with the texts of its parts as lines or in a row. -/
  | result (callId : String) (output : Json) (payload : C)
      (hkind : itemType item = some "function_call_output")
      (hid : item.getStr "call_id" = some callId) (houtput : item.get "output" = some output)
      (hpayload : content (.tool output) = .ok payload)
      (hshows : Shows codec output (text payload)) : SaysChat item [.result callId payload]
  /-- A message says its content, with the text of its parts. -/
  | message (declared role : String) (payload : C)
      (hkind : itemType item = some "message" ∨ itemType item = none)
      (hdeclared : item.getStr "role" = some declared)
      (hrole : wireRole provider declared = .ok role)
      (hpayload : content (.history role item) = .ok payload)
      (htext : text payload = contentText codec (item.get "content")) :
      SaysChat item [.message role payload]
  /-- Items of other kinds say nothing. -/
  | other (hcall : itemType item ≠ some "function_call")
      (hresult : itemType item ≠ some "function_call_output")
      (hmessage : (itemType item ≠ some "message" ∧ itemType item ≠ none) ∨
        item.get "role" = none) : SaysChat item []

/-- How a provider gives content to its messages. -/
structure ChatContent (empty : C) (carrier : C → Bool) : Prop where
  empty : carrier empty = true
  filled : ∀ source payload, content source = .ok payload → carrier payload = false
  /-- The content of a result shows the texts of its parts. -/
  output : ∀ output payload, content (.tool output) = .ok payload →
    Shows codec output (text payload)
  /-- The content of a message shows the text of its parts. -/
  text : ∀ role item payload, content (.history role item) = .ok payload →
    text payload = contentText codec (item.get "content")

/-- What a Chat Completions request keeps of a context: the instructions, then every item once,
in the order of the context. -/
def ChatKeeps (carrier : C → Bool) (instructions : String) (context : List Json)
    (wire : List (ChatMessage C)) : Prop :=
  ∃ start said, systemMessages instructions content = .ok start ∧
    List.Forall₂ (SaysChat codec provider content text) context said ∧
      wire.flatMap (chatEntries carrier) = start.flatMap (chatEntries carrier) ++ said.flatten

variable {codec : MessageCodec} {provider : String} {content : ContentSource → Except Error C}
  {text : C → String} {empty : C} {carrier : C → Bool}

theorem chatEntries_concat (messages : List (ChatMessage C)) (message : ChatMessage C) :
    (messages ++ [message]).flatMap (chatEntries carrier) =
      messages.flatMap (chatEntries carrier) ++ chatEntries carrier message := by
  rw [List.flatMap_append, List.flatMap_singleton]

theorem chatEntries_pushCall (hempty : carrier empty = true) (messages : List (ChatMessage C))
    (wireCall : WireToolCall) :
    (pushCall empty messages wireCall).flatMap (chatEntries carrier) =
      messages.flatMap (chatEntries carrier) ++ [.call wireCall] := by
  have hcarrier : chatEntries carrier ⟨"assistant", empty, [wireCall], none⟩ =
      [.call wireCall] := by
    unfold chatEntries chatHead
    dsimp only
    rw [if_pos ⟨rfl, hempty⟩]
    rfl
  unfold pushCall
  split
  · rename_i last hlast
    split
    · -- The call joins the last message, behind the calls it has.
      have hsplit := congrArg (List.flatMap (chatEntries carrier))
        (List.dropLast_append_getLast? last hlast)
      rw [chatEntries_concat] at hsplit
      rw [chatEntries_concat, ← hsplit, List.append_assoc]
      congr 1
      unfold chatEntries
      rw [List.map_append, List.append_assoc]
      rfl
    · rw [chatEntries_concat, hcarrier]
  · rename_i hnone
    rw [List.getLast?_eq_none_iff] at hnone
    subst hnone
    exact (chatEntries_concat [] _).trans (congrArg _ hcarrier)

theorem wireToolCall_says {item : Json} {wireCall : WireToolCall}
    (hkind : itemType item = some "function_call")
    (h : wireToolCall codec provider item = .ok wireCall) :
    SaysChat codec provider content text item [.call wireCall] := by
  unfold wireToolCall at h
  obtain ⟨callId, hcallId, h⟩ := bind_ok h
  obtain ⟨name, hname, h⟩ := bind_ok h
  obtain ⟨arguments, harguments, h⟩ := bind_ok h
  cases h
  have hid := (requiredString_ok_iff.mp hcallId).1
  have hnamed := (requiredString_ok_iff.mp hname).1
  unfold argumentText at harguments
  split at harguments
  · rename_i encoded hencoded
    obtain ⟨_, -, rfl⟩ := except_map_ok harguments
    exact .call _ hkind hid hnamed hencoded
  · rename_i value hvalue _
    cases harguments
    exact .rendered _ _ hkind hid hnamed ‹_› rfl
  · cases harguments

theorem wireMessageItem_says (hcontent : ChatContent codec content text empty carrier)
    {messages after : List (ChatMessage C)} {item : Json}
    (h : wireMessageItem codec empty provider content messages item = .ok after) :
    ∃ entries, SaysChat codec provider content text item entries ∧
      after.flatMap (chatEntries carrier) =
        messages.flatMap (chatEntries carrier) ++ entries := by
  unfold wireMessageItem at h
  split at h
  · rename_i hkind
    obtain ⟨wireCall, hwireCall, h⟩ := bind_ok h
    cases h
    exact ⟨_, wireToolCall_says hkind hwireCall, chatEntries_pushCall hcontent.empty _ _⟩
  · rename_i hcall
    split at h
    · rename_i hkind
      obtain ⟨callId, hcallId, h⟩ := bind_ok h
      obtain ⟨output, houtput, h⟩ := bind_ok h
      obtain ⟨payload, hpayload, h⟩ := bind_ok h
      cases h
      exact ⟨_, .result callId output payload hkind (requiredString_ok_iff.mp hcallId).1
        (resultOutput_ok_iff.mp houtput) hpayload (hcontent.output output payload hpayload),
        chatEntries_concat _ _⟩
    · rename_i hresult
      split at h
      · rename_i hmessage
        obtain ⟨declared, hdeclared, h⟩ := bind_ok h
        obtain ⟨role, hrole, h⟩ := bind_ok h
        obtain ⟨payload, hpayload, h⟩ := bind_ok h
        cases h
        refine ⟨_, .message declared role payload hmessage.1 (requiredString_ok_iff.mp hdeclared).1
          hrole hpayload (hcontent.text role item payload hpayload), ?_⟩
        rw [chatEntries_concat]
        congr 1
        unfold chatEntries chatHead
        dsimp only
        rw [if_neg]
        · rfl
        · rintro ⟨-, hcarrier⟩
          rw [hcontent.filled _ _ hpayload] at hcarrier
          cases hcarrier
      · rename_i hmessage
        cases h
        refine ⟨[], .other hcall hresult ?_, (List.append_nil _).symm⟩
        cases hrole : item.get "role" with
        | none => exact .inr rfl
        | some role =>
          refine .inl ⟨fun hkind => hmessage ⟨.inl hkind, ?_⟩, fun hkind => hmessage ⟨.inr hkind, ?_⟩⟩
          · rw [hrole]
            rfl
          · rw [hrole]
            rfl

theorem wireMessages_says (hcontent : ChatContent codec content text empty carrier)
    {context : List Json} {messages after : List (ChatMessage C)}
    (h : context.foldlM (wireMessageItem codec empty provider content) messages = .ok after) :
    ∃ said, List.Forall₂ (SaysChat codec provider content text) context said ∧
      after.flatMap (chatEntries carrier) =
        messages.flatMap (chatEntries carrier) ++ said.flatten := by
  induction context generalizing messages with
  | nil =>
    cases h
    exact ⟨[], .nil, (List.append_nil _).symm⟩
  | cons item rest ih =>
    rw [List.foldlM_cons] at h
    obtain ⟨between, hbetween, h⟩ := bind_ok h
    obtain ⟨entries, hentries, hsame⟩ := wireMessageItem_says hcontent hbetween
    obtain ⟨said, hsaid, hlater⟩ := ih h
    refine ⟨entries :: said, .cons hentries hsaid, ?_⟩
    rw [hlater, hsame, List.flatten_cons, List.append_assoc]

theorem wireMessages_keeps (hcontent : ChatContent codec content text empty carrier)
    {instructions : String} {context : List Json} {wire : List (ChatMessage C)}
    (h : wireMessages codec empty instructions provider content context = .ok wire) :
    ChatKeeps codec provider content text carrier instructions context wire := by
  unfold wireMessages at h
  obtain ⟨start, hstart, h⟩ := bind_ok h
  obtain ⟨after, hafter, h⟩ := bind_ok h
  obtain ⟨said, hsaid, hsame⟩ := wireMessages_says hcontent hafter
  split at h
  · cases h
    exact ⟨start, said, hstart, hsaid, hsame⟩
  · cases h

def wirePartText : WireContentPart → Option String
  | .text shown => some shown
  | .imageUrl _ => none

def wireContentText : WireContent → String
  | .text shown => shown
  | .parts parts => String.join (parts.filterMap wirePartText)

def kimiText (payload : KimiMessage) : String := (payload.content.map wireContentText).getD ""

def mistralText : MistralContent → String
  | .neutral shown => wireContentText shown
  | .text shown => shown
  | .thinking _ shown => shown
  | .empty => ""

/-- Whether a Kimi message carries calls only. -/
def kimiCarrier (payload : KimiMessage) : Bool := payload.content.isNone

/-- Whether a Mistral message carries calls only. -/
def mistralCarrier : MistralContent → Bool
  | .neutral _ => false
  | .text _ => false
  | .thinking _ _ => false
  | .empty => true

theorem messagePart_text {part : Json} {shown : List WireContentPart}
    (h : messagePart provider part = .ok shown) :
    String.join (shown.filterMap wirePartText) =
      if isTextPart part = true then (part.getStr "text").getD "" else "" := by
  unfold messagePart at h
  split at h
  · rename_i htext
    cases h
    rw [if_pos htext]
    simp [wirePartText, String.join_cons]
  · rename_i htext
    rw [if_neg htext]
    split at h
    · obtain ⟨image, -, rfl⟩ := except_map_ok h
      cases image <;> rfl
    · cases h
      rfl

theorem partTexts_cons (part : Json) (rest : List Json) :
    String.join (((part :: rest).filter isTextPart).filterMap fun part => part.getStr "text") =
      (if isTextPart part = true then (part.getStr "text").getD "" else "") ++
        String.join ((rest.filter isTextPart).filterMap fun part => part.getStr "text") := by
  by_cases htext : isTextPart part = true
  · rw [List.filter_cons, if_pos htext, if_pos htext, List.filterMap_cons]
    cases part.getStr "text" with
    | none => simp
    | some shown => exact String.join_cons
  · rw [List.filter_cons, if_neg htext, if_neg htext]
    simp

theorem messageParts_text {parts : List Json} {shown : List (List WireContentPart)}
    (h : List.Forall₂ (fun part result => messagePart provider part = .ok result) parts shown) :
    String.join (shown.flatten.filterMap wirePartText) =
      String.join ((parts.filter isTextPart).filterMap fun part => part.getStr "text") := by
  induction h with
  | nil => rfl
  | cons hpart hrest ih =>
    rw [List.flatten_cons, List.filterMap_append, String.join_append, messagePart_text hpart, ih,
      partTexts_cons]

theorem messageContent_text {source : Option Json} {shown : WireContent}
    (h : messageContent codec provider source = .ok shown) :
    wireContentText shown = contentText codec source := by
  unfold messageContent at h
  split at h
  · rename_i parts hparts
    obtain ⟨pieces, hpieces, rfl⟩ := except_map_ok h
    obtain ⟨value, rfl, harray⟩ := Option.bind_eq_some_iff.mp (Option.filter_eq_some_iff.mp hparts).1
    cases value with
    | arr items =>
      cases harray
      exact messageParts_text (mapM_forall₂ hpieces)
    | null | bool | number | decimal | str | obj => cases harray
  · cases h
    rfl

theorem outputLine_text {part : Json} {line : String} (h : outputLine codec part = .ok line) :
    partText codec part = some line := by
  unfold outputLine at h
  unfold partText
  split at h
  · rename_i htext
    rw [if_pos (.inl htext)]
    split at h
    · rename_i shown hshown
      rw [hshown, Except.ok.inj h]
    · cases h
  · rename_i htext
    split at h
    · rename_i hfile
      rw [if_neg (by rw [hfile]; decide), if_pos hfile, Except.ok.inj h]
    · cases h

theorem outputText_text {output : Json} {shown : String} (h : outputText codec output = .ok shown) :
    shown = "\n".intercalate ((output.asArray.getD []).filterMap (partText codec)) := by
  unfold outputText at h
  split at h
  · rename_i parts hparts
    obtain ⟨lines, hlines, rfl⟩ := except_map_ok h
    rw [hparts, Option.getD_some]
    have htexts : lines.filterMap some = parts.filterMap (partText codec) :=
      filterMap_forall₂ ((mapM_forall₂ hlines).imp fun _ _ hline => (outputLine_text hline).symm)
    rw [← htexts, List.filterMap_some]
  · cases h

theorem toolText_text {output : Json} {shown : String} (h : toolText codec output = .ok shown) :
    shown = "\n".intercalate ((output.asArray.getD []).filterMap (partText codec)) := by
  unfold toolText at h
  split at h
  · rename_i part hpart
    split at h
    · rename_i htext
      rw [hpart, Option.getD_some, List.filterMap_cons, List.filterMap_nil]
      have hline : outputLine codec part = .ok shown := by
        unfold outputLine
        rw [if_pos htext]
        exact h
      rw [outputLine_text hline, String.intercalate_singleton]
    · exact outputText_text h
  · exact outputText_text h

theorem toolResultPart_text {part : Json} {shown : List WireContentPart}
    (h : toolResultPart codec provider part = .ok shown) :
    shown.filterMap wirePartText = (partText codec part).toList := by
  unfold toolResultPart at h
  unfold partText
  split at h
  · rename_i htext
    rw [if_pos (.inl htext)]
    split at h
    · rename_i text hread
      rw [hread, ← Except.ok.inj h]
      rfl
    · cases h
  · rename_i htext
    split at h
    · rename_i hfile
      rw [if_neg (by rw [hfile]; decide), if_pos hfile, ← Except.ok.inj h]
      rfl
    · rename_i hfile
      split at h
      · rename_i himage
        rw [if_neg (by rw [himage]; decide), if_neg hfile]
        obtain ⟨image, -, rfl⟩ := except_map_ok h
        cases image <;> rfl
      · cases h

theorem toolResultParts_text {parts : List Json} {pieces : List (List WireContentPart)}
    (h : List.Forall₂ (fun part piece => toolResultPart codec provider part = .ok piece) parts
      pieces) : pieces.flatten.filterMap wirePartText = parts.filterMap (partText codec) := by
  induction h with
  | nil => rfl
  | @cons part piece parts pieces hpart _ ih =>
    rw [List.flatten_cons, List.filterMap_append, toolResultPart_text hpart, ih,
      List.filterMap_cons]
    cases partText codec part with
    | none | some text => rfl

theorem toolResultContent_shows {output : Json} {shown : WireContent}
    (h : toolResultContent codec provider output = .ok shown) :
    Shows codec output (wireContentText shown) := by
  unfold toolResultContent at h
  split at h
  · rename_i parts hparts
    obtain ⟨pieces, hpieces, rfl⟩ := except_map_ok h
    right
    rw [(Option.filter_eq_some_iff.mp hparts).1, Option.getD_some]
    exact congrArg String.join (toolResultParts_text (mapM_forall₂ hpieces))
  · obtain ⟨text, htext, rfl⟩ := except_map_ok h
    exact .inl (toolText_text htext)

theorem kimi_chatContent (codec : MessageCodec) :
    ChatContent codec (kimiContent codec) kimiText ⟨none, none⟩ kimiCarrier := by
  constructor
  · rfl
  · intro source payload hpayload
    cases source with
    | system shown =>
      cases hpayload
      rfl
    | tool output | history role item =>
      obtain ⟨shown, -, rfl⟩ := except_map_ok hpayload
      rfl
  · intro output payload hpayload
    obtain ⟨shown, hshown, rfl⟩ := except_map_ok hpayload
    exact .inl (toolText_text hshown)
  · intro role item payload hpayload
    obtain ⟨shown, hshown, rfl⟩ := except_map_ok hpayload
    exact messageContent_text hshown

theorem mistral_chatContent (codec : MessageCodec) :
    ChatContent codec (mistralContent codec) mistralText .empty mistralCarrier := by
  constructor
  · rfl
  · intro source payload hpayload
    cases source with
    | system shown =>
      cases hpayload
      rfl
    | tool output =>
      obtain ⟨shown, -, rfl⟩ := except_map_ok hpayload
      rfl
    | history role item =>
      dsimp only [mistralContent] at hpayload
      split at hpayload
      · cases hpayload
        rfl
      · obtain ⟨shown, -, rfl⟩ := except_map_ok hpayload
        rfl
  · intro output payload hpayload
    obtain ⟨shown, hshown, rfl⟩ := except_map_ok hpayload
    exact toolResultContent_shows hshown
  · intro role item payload hpayload
    dsimp only [mistralContent] at hpayload
    split at hpayload
    · cases hpayload
      rfl
    · obtain ⟨shown, hshown, rfl⟩ := except_map_ok hpayload
      exact messageContent_text hshown

/-- Whatever context is translated for Anthropic, for Kimi or for Mistral is kept. -/
theorem translation_keeps_conversation (codec : MessageCodec) (context : List Json) :
    (∀ discovery wire, translateMessages codec discovery context = .ok wire →
      AnthropicKeeps codec discovery context wire) ∧
    (∀ instructions wire, wireMessages codec ⟨none, none⟩ instructions "Kimi" (kimiContent codec)
      context = .ok wire →
        ChatKeeps codec "Kimi" (kimiContent codec) kimiText kimiCarrier instructions context wire) ∧
    (∀ instructions wire, wireMessages codec .empty instructions "Mistral" (mistralContent codec)
      context = .ok wire →
        ChatKeeps codec "Mistral" (mistralContent codec) mistralText mistralCarrier instructions
          context wire) := by
  refine ⟨?_, ?_, ?_⟩
  · intro discovery wire h
    exact translateMessages_keeps h
  · intro instructions wire h
    exact wireMessages_keeps (kimi_chatContent codec) h
  · intro instructions wire h
    exact wireMessages_keeps (mistral_chatContent codec) h

end ChatCompletions

section Samples

open ModelOutputs CommittedContexts

/-- The text of the arguments that the provider gave. -/
def givenText : String := "\x7b\x22path\x22:\x22a\x22\x7d"

/-- The arguments that the provider gave. -/
def givenArguments : Json := .obj [("path", .str "a")]

/-- A codec that reads the arguments given and the ones they are rewritten to. -/
def rewritingCodec : OutputCodec where
  render := fun value => if value = givenArguments then givenText else "{}"
  decodeError := fun _ => "invalid type"
  parse := fun text =>
    if text = givenText then .ok givenArguments
    else if text = "{}" then .ok (.obj [])
    else .error (.json "EOF while parsing a value at line 1 column 0")
  skim := fun text =>
    if text = givenText ∨ text = "{}" then .ok ()
    else .error (.json "EOF while parsing a value at line 1 column 0")
  annotations := fun _ => .ok []

/-- A message of the assistant with the blocks that Anthropic returned. -/
def rawMessage : Json :=
  .obj [("_anthropic_content", .arr [toolUseBlock "call-1" "shell" givenArguments]),
    ("content", .arr []), ("role", .str "assistant"), ("type", .str "message")]

def callItem (arguments : String) : Json :=
  .obj [("arguments", .str arguments), ("call_id", .str "call-1"), ("name", .str "shell"),
    ("type", .str "function_call")]

/-- The call with the arguments that a hook gave it. -/
def rewrittenOutput : List Json :=
  [rawMessage.insert "phase" (.str "commentary"), callItem "{}"]

/-- A message, the output with the rewritten call, and the result of the call. -/
def rewrittenContext : List Json :=
  [prepareTurnInput [] (messageInput rewritingCodec.encoding sampleEvent)] ++ rewrittenOutput ++
    [toolOutput rewritingCodec.encoding "call-1" [.text "done"] false]

theorem rawMessage_accepted : fromOutput rewritingCodec [rawMessage, callItem givenText] false {} =
    .ok ⟨[rawMessage.insert "phase" (.str "commentary"), callItem givenText], "", [],
      [⟨"call-1", "shell", givenArguments⟩], [], false, {}⟩ := by
  rfl

theorem rewrittenContext_committed :
    Committed rewritingCodec (fun _ => false) rewrittenContext := by
  have hmessage : validateMessageContent (MessageReload.queueChecks fun _ => false)
      sampleEvent.author sampleEvent.text sampleEvent.attachments = .ok () := by rfl
  have hturn := @Committed.append rewritingCodec _ _ _ .start (.turn sampleEvent hmessage)
  have houtput : StepOutput rewritingCodec rewrittenOutput := by
    have hordered : ∀ item ∈ [rawMessage, callItem givenText], Ordered item := by
      intro item hitem
      rcases List.mem_pair.mp hitem with rfl | rfl
      · have hkeys : ["_anthropic_content", "content", "role", "type"].Pairwise (· < ·) := by
          decide
        exact ordered_of_keys rfl hkeys
      · have hkeys : ["arguments", "call_id", "name", "type"].Pairwise (· < ·) := by decide
        exact ordered_of_keys rfl hkeys
    refine ⟨[rawMessage, callItem givenText], false, {}, [], _, hordered, rawMessage_accepted,
      .inr ⟨[⟨"call-1", "shell", .obj []⟩], by decide, rfl⟩⟩
  have hstep := @Committed.step _ _ _ _ [] [] hturn houtput (by simp) (by simp)
  exact Committed.append hstep (.result "call-1" [.text "done"] false (by decide))

/-- The request that the rewritten context becomes. -/
def rewrittenWire : List WireMessage :=
  [⟨"user", [(textBlock "hello").insert "cache_control" cacheControl]⟩,
    ⟨"assistant", [toolUseBlock "call-1" "shell" givenArguments]⟩,
    ⟨"user", [(toolResult "call-1" [textBlock "done"] false).insert "cache_control"
      cacheControl]⟩]

theorem rewrittenContext_translated : translateMessages rewritingCodec.toMessageCodec
    ⟨.native, "", []⟩ rewrittenContext = .ok rewrittenWire := by
  rfl

/-- A call whose arguments were rewritten is sent with the arguments that the provider gave. -/
theorem rewritten_call_replayed :
    ∃ (codec : OutputCodec) (isUuid : String → Bool) (context : List Json)
      (wire : List WireMessage) (item : Json),
      Committed codec isUuid context ∧
        (toolCompleteBoundaries context).getLast? = some context.length ∧ item ∈ context ∧
        itemType item = some "function_call" ∧ item.getStr "call_id" = some "call-1" ∧
          item.getStr "name" = some "shell" ∧ item.getStr "arguments" = some "{}" ∧
            codec.parse "{}" = .ok (.obj []) ∧
              translateMessages codec.toMessageCodec ⟨.native, "", []⟩ context = .ok wire ∧
                ∀ message ∈ wire, ∀ block ∈ message.content,
                  block.get "input" ≠ some (.obj []) := by
  refine ⟨rewritingCodec, fun _ => false, rewrittenContext, rewrittenWire, callItem "{}",
    rewrittenContext_committed, rfl, ?_, rfl, rfl, rfl, rfl, rfl, rewrittenContext_translated, ?_⟩
  · exact List.mem_append_left _
      (List.mem_append_right _ (List.mem_cons_of_mem _ List.mem_cons_self))
  · decide

/-- The rewritten call as Chat Completions sends it. -/
def rewrittenCall : WireToolCall := ⟨"call-1", "shell", "{}"⟩

def rewrittenKimi : List (ChatMessage KimiMessage) :=
  [⟨"system", ⟨some (.text "Help."), none⟩, [], none⟩,
    ⟨"user", ⟨some (.text "hello"), none⟩, [], none⟩,
    ⟨"assistant", ⟨some (.text ""), none⟩, [rewrittenCall], none⟩,
    ⟨"tool", ⟨some (.text "done"), none⟩, [], some "call-1"⟩]

def rewrittenMistral : List (ChatMessage MistralContent) :=
  [⟨"system", .text "Help.", [], none⟩, ⟨"user", .neutral (.text "hello"), [], none⟩,
    ⟨"assistant", .neutral (.text ""), [rewrittenCall], none⟩,
    ⟨"tool", .neutral (.text "done"), [], some "call-1"⟩]

/-- What the translations of the rewritten context keep. -/
theorem translation_keeps_conversation_rewritten :
    AnthropicKeeps rewritingCodec.toMessageCodec ⟨.native, "", []⟩ rewrittenContext rewrittenWire ∧
    ChatKeeps rewritingCodec.toMessageCodec "Kimi" (kimiContent rewritingCodec.toMessageCodec)
      kimiText kimiCarrier "Help." rewrittenContext rewrittenKimi ∧
    ChatKeeps rewritingCodec.toMessageCodec "Mistral"
      (mistralContent rewritingCodec.toMessageCodec) mistralText mistralCarrier "Help."
      rewrittenContext rewrittenMistral := by
  obtain ⟨hanthropic, hkimi, hmistral⟩ :=
    translation_keeps_conversation rewritingCodec.toMessageCodec rewrittenContext
  exact ⟨hanthropic _ _ rewrittenContext_translated, hkimi "Help." _ (by rfl),
    hmistral "Help." _ (by rfl)⟩

end Samples

end MobiusAgent.ProviderReplay
