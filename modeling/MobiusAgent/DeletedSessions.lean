import MobiusAgent.SessionDeletion

/-!
# What the deletion of a selection deletes

The catalog lists every session once, whatever the pages are. The trees of a
selection without a session below itself are the descendants of its sessions,
and the store finds the same ones in its tables. Everything of another
session stays, and no run of the store ever has a session below itself.
-/

namespace MobiusAgent.DeletedSessions

open JsonValue ProtocolEvents CheckpointRecords CheckpointValidation StoreTables
open HookRecords RoutineCatalog EffectLogic SessionDeletion
open StoreTransactions (SessionSummary summaryFromRow ContextCaches cachedContext removeCache)
open StoreConnections (World commit)
open ParentTrees (IsChild Descends Below)

section Catalog

variable {Text : Type} {codecs : Codecs Text} {updatedAt : SessionId → Int}

/-- The sessions of the tables and their parents. -/
def links (tables : Tables Text) : List (SessionId × Option SessionId) :=
  tables.sessions.map fun row => (row.sessionId, row.parentSessionId)

structure Summarizes (row : SessionRow Text) (summary : SessionSummary) : Prop where
  sessionId : summary.sessionId = row.sessionId
  parent : summary.parentSessionId = row.parentSessionId
  sequence : summary.sequence = row.latestSequence

theorem summaryFromRow_summarizes {row : SessionRow Text} {summary : SessionSummary}
    (h : summaryFromRow codecs row = .ok summary) : Summarizes row summary := by
  unfold summaryFromRow at h
  obtain ⟨context, _, h⟩ := bind_ok h
  obtain ⟨_, _, h⟩ := bind_ok h
  obtain ⟨stats, _, h⟩ := bind_ok h
  cases h
  exact ⟨rfl, rfl, rfl⟩

variable {tables : Tables Text} {summaries : List SessionSummary}

theorem listSessionsPage_ok {cursor : Option Cursor} {limit : Nat} {page : SessionPage}
    (h : listSessionsPage codecs updatedAt tables cursor limit = .ok page) :
    ∃ sessions, List.Forall₂ Summarizes
        ((KeysetPages.below (rowKey updatedAt) tables.sessions cursor).take (limit + 1)) sessions ∧
      page.sessions = sessions.take limit ∧
      page.nextCursor = if limit < sessions.length then
        (sessions.take limit).getLast?.map (sessionCursor updatedAt) else none := by
  unfold listSessionsPage at h
  obtain ⟨_, _, h⟩ := bind_ok h
  obtain ⟨_, _, h⟩ := bind_ok h
  obtain ⟨sessions, hsessions, h⟩ := bind_ok h
  cases h
  refine ⟨sessions, ?_, rfl, rfl⟩
  exact (mapM_forall₂ hsessions).imp fun _ _ hrow => summaryFromRow_summarizes hrow

theorem rowKey_nodup (h : (tables.sessions.map (·.sessionId)).Nodup) :
    (tables.sessions.map (rowKey updatedAt)).Nodup := by
  refine List.Nodup.of_map (fun key : Cursor => (ofLex (ofLex key).2).2) ?_
  rw [List.map_map]
  exact h

theorem collectPages_ok (hkeys : (tables.sessions.map (·.sessionId)).Nodup) {fuel : Nat}
    {cursor : Option Cursor} {sessions : List SessionSummary}
    (hfuel : (KeysetPages.below (rowKey updatedAt) tables.sessions cursor).length < fuel)
    (h : collectPages codecs updatedAt tables fuel cursor sessions = .ok summaries) :
    ∃ later, summaries = sessions ++ later ∧ List.Forall₂ Summarizes
      (KeysetPages.below (rowKey updatedAt) tables.sessions cursor) later := by
  induction fuel generalizing cursor sessions with
  | zero => omega
  | succ fuel ih =>
    unfold collectPages at h
    obtain ⟨page, hpage, h⟩ := bind_ok h
    obtain ⟨found, hfound, hsessions, hnext⟩ := listSessionsPage_ok hpage
    have hlength := hfound.length_eq
    rw [List.length_take] at hlength
    by_cases hmore : sessionPageSize < found.length
    · rw [if_pos hmore] at hnext
      have hfull : (found.take sessionPageSize).length = sessionPageSize := by
        rw [List.length_take]
        omega
      obtain ⟨earlier, last, hsplit⟩ : ∃ earlier last,
          found.take sessionPageSize = earlier ++ [last] := by
        rcases List.eq_nil_or_concat' (found.take sessionPageSize) with hempty | hsplit
        · rw [hempty] at hfull
          exact absurd hfull (by decide)
        · exact hsplit
      obtain ⟨first, lastRow, hrows⟩ : ∃ first lastRow,
          (KeysetPages.below (rowKey updatedAt) tables.sessions cursor).take sessionPageSize =
            first ++ [lastRow] := by
        rcases List.eq_nil_or_concat' ((KeysetPages.below (rowKey updatedAt) tables.sessions
          cursor).take sessionPageSize) with hempty | hrows
        · have hpositive : 0 < sessionPageSize := by decide
          have hnone := congrArg List.length hempty
          rw [List.length_take, List.length_nil] at hnone
          omega
        · exact hrows
      have hpaired := List.forall₂_take sessionPageSize hfound
      rw [List.take_take, Nat.min_eq_left (Nat.le_succ _), hsplit, hrows] at hpaired
      have hlast : Summarizes lastRow last := by
        have hreversed := List.forall₂_reverse_iff.mpr hpaired
        rw [List.reverse_append, List.reverse_append] at hreversed
        cases hreversed with
        | cons hhead _ => exact hhead
      have hcursor : page.nextCursor = some (rowKey updatedAt lastRow) := by
        rw [hnext, hsplit, List.getLast?_concat, Option.map_some, sessionCursor, rowKey,
          hlast.sessionId, hlast.sequence]
      rw [hcursor] at h
      have hbelow : KeysetPages.below (rowKey updatedAt) tables.sessions cursor =
          first ++ lastRow :: (KeysetPages.below (rowKey updatedAt) tables.sessions cursor).drop
            sessionPageSize := by
        have hwhole := List.take_append_drop sessionPageSize
          (KeysetPages.below (rowKey updatedAt) tables.sessions cursor)
        rw [hrows, List.append_assoc] at hwhole
        exact hwhole.symm
      have hrest := KeysetPages.below_next (rowKey_nodup hkeys) hbelow
      have hshorter : (KeysetPages.below (rowKey updatedAt) tables.sessions
          (some (rowKey updatedAt lastRow))).length < fuel := by
        have hcount := congrArg List.length hbelow
        rw [List.length_append, List.length_cons] at hcount
        rw [hrest]
        omega
      obtain ⟨later, hsummaries, hlater⟩ := ih hshorter h
      refine ⟨page.sessions ++ later, by rw [hsummaries, List.append_assoc], ?_⟩
      rw [hbelow, ← List.singleton_append, ← List.append_assoc, ← hrows, hsessions, ← hrest]
      refine List.rel_append ?_ hlater
      rw [hrows, hsplit]
      exact hpaired
    · rw [if_neg hmore] at hnext
      rw [hnext] at h
      cases h
      have hall : (KeysetPages.below (rowKey updatedAt) tables.sessions cursor).length ≤
          sessionPageSize := by omega
      rw [List.take_of_length_le (by omega)] at hfound
      refine ⟨found, ?_, hfound⟩
      rw [hsessions, List.take_of_length_le (by omega)]

theorem Summarizes.links {rows : List (SessionRow Text)}
    (h : List.Forall₂ Summarizes rows summaries) :
    summaries.map (fun summary => (summary.sessionId, summary.parentSessionId)) =
      rows.map fun row => (row.sessionId, row.parentSessionId) := by
  induction h with
  | nil => rfl
  | cons hfirst _ ih =>
    rw [List.map_cons, List.map_cons, hfirst.sessionId, hfirst.parent, ih]

theorem gatewaySessionSummaries_perm (hkeys : (tables.sessions.map (·.sessionId)).Nodup)
    (h : gatewaySessionSummaries codecs updatedAt tables = .ok summaries) :
    (summaries.map fun summary => (summary.sessionId, summary.parentSessionId)).Perm
      (links tables) := by
  have hperm := KeysetPages.below_none_perm (rowKey updatedAt) tables.sessions
  obtain ⟨later, hsummaries, hlater⟩ :=
    collectPages_ok hkeys (by rw [hperm.length_eq]; omega) h
  rw [List.nil_append] at hsummaries
  rw [hsummaries, Summarizes.links hlater]
  exact hperm.map _

end Catalog

section Trees

variable {sessions : List BotCatalog.SessionSummary} {root : SessionId}

/-- The listed sessions and their parents. -/
def listedLinks (sessions : List BotCatalog.SessionSummary) :
    List (SessionId × Option SessionId) :=
  sessions.map fun session => (session.sessionId, session.parentSessionId)

theorem growTree_eq (fuel : Nat) (seen : List SessionId) :
    BotCatalog.growTree sessions fuel seen = ParentTrees.grow (listedLinks sessions) fuel seen := by
  induction fuel generalizing seen with
  | zero => rfl
  | succ fuel ih =>
    have hpass : BotCatalog.growOnce sessions seen =
        ParentTrees.pass (listedLinks sessions) seen := by
      unfold BotCatalog.growOnce ParentTrees.pass listedLinks
      rw [List.foldl_map]
      rfl
    unfold BotCatalog.growTree ParentTrees.grow
    dsimp only
    rw [hpass, ih]

/-- A tree of sessions: every descendant of its root once, and a child before its parent. -/
structure TreeOf (links : List (SessionId × Option SessionId)) (root : SessionId)
    (ids : List SessionId) : Prop where
  nodup : ids.Nodup
  descendants : ∀ id, id ∈ ids ↔ Descends links root id
  childFirst : ∀ parent child, IsChild links parent child → child ≠ root → parent ∈ ids →
    ∃ before rest, ids = before ++ child :: rest ∧ parent ∈ rest

theorem sessionTreeIds_listed (hroot : root ∈ sessions.map (·.sessionId)) :
    BotCatalog.sessionTreeIds root sessions =
      some (ParentTrees.grow (listedLinks sessions) sessions.length [root]).reverse := by
  obtain ⟨session, hsession, hid⟩ := List.mem_map.mp hroot
  have hany : (sessions.any fun session => session.sessionId == root) = true :=
    List.any_eq_true.mpr ⟨session, hsession, beq_iff_eq.mpr hid⟩
  unfold BotCatalog.sessionTreeIds
  rw [if_pos hany, growTree_eq]

theorem sessionTreeIds_unlisted (hroot : root ∉ sessions.map (·.sessionId)) :
    BotCatalog.sessionTreeIds root sessions = none := by
  have hany : ¬(sessions.any fun session => session.sessionId == root) = true := by
    intro hfound
    obtain ⟨session, hsession, hid⟩ := List.any_eq_true.mp hfound
    exact hroot (List.mem_map.mpr ⟨session, hsession, beq_iff_eq.mp hid⟩)
  unfold BotCatalog.sessionTreeIds
  rw [if_neg hany]

theorem sessionTreeIds_tree (hkeys : (sessions.map (·.sessionId)).Nodup) {ids : List SessionId}
    (h : BotCatalog.sessionTreeIds root sessions = some ids) :
    TreeOf (listedLinks sessions) root ids := by
  by_cases hroot : root ∈ sessions.map (·.sessionId)
  · rw [sessionTreeIds_listed hroot] at h
    have hentries : ∀ link ∈ listedLinks sessions, link.1 ∈ sessions.map (·.sessionId) := by
      intro link hlink
      obtain ⟨session, hsession, rfl⟩ := List.mem_map.mp hlink
      exact List.mem_map_of_mem hsession
    obtain ⟨hrooted, hdescends⟩ := ParentTrees.grow_descends hroot hentries
    rw [List.length_map] at hrooted hdescends
    generalize ParentTrees.grow (listedLinks sessions) sessions.length [root] = tree at *
    cases h
    refine ⟨List.nodup_reverse.mpr hrooted.nodup, ?_, ?_⟩
    · intro id
      rw [List.mem_reverse]
      exact hdescends id
    · intro parent child hchild hother hparent
      have hinside : child ∈ tree := by
        rw [hdescends]
        exact ((hdescends parent).mp (List.mem_reverse.mp hparent)).tail hchild
      obtain ⟨before, rest, hsplit⟩ := List.append_of_mem hinside
      have hlinks : ((listedLinks sessions).map Prod.fst).Nodup := by
        unfold listedLinks
        rw [List.map_map]
        exact hkeys
      rcases hrooted.after before child rest hsplit with hsame | ⟨other, hbefore, hnamed⟩
      · exact absurd hsame hother
      · have hunique := ParentTrees.parent_unique hlinks hnamed hchild
        refine ⟨rest.reverse, before.reverse, ?_, ?_⟩
        · rw [hsplit]
          simp
        · rw [List.mem_reverse, ← hunique]
          exact hbefore
  · rw [sessionTreeIds_unlisted hroot] at h
    cases h

theorem distinctSessions_spec (ids : List SessionId) :
    (BotCatalog.distinctSessions ids).Nodup ∧
      ∀ id, id ∈ BotCatalog.distinctSessions ids ↔ id ∈ ids := by
  have hloop : ∀ (ids seen : List SessionId), seen.Nodup →
      (ids.foldl (fun seen id => if seen.contains id then seen else seen ++ [id]) seen).Nodup ∧
      ∀ id, id ∈ (ids.foldl (fun seen id => if seen.contains id then seen else seen ++ [id]) seen) ↔
        id ∈ seen ∨ id ∈ ids := by
    intro ids
    induction ids with
    | nil => exact fun seen hseen => ⟨hseen, by simp⟩
    | cons first rest ih =>
      intro seen hseen
      rw [List.foldl_cons]
      by_cases hfirst : first ∈ seen
      · rw [if_pos (List.contains_iff_mem.mpr hfirst)]
        obtain ⟨hnodup, hmem⟩ := ih seen hseen
        refine ⟨hnodup, fun id => ?_⟩
        rw [hmem id, List.mem_cons]
        constructor
        · rintro (hid | hid)
          · exact .inl hid
          · exact .inr (.inr hid)
        · rintro (hid | rfl | hid)
          · exact .inl hid
          · exact .inl hfirst
          · exact .inr hid
      · rw [if_neg (fun hcontains => hfirst (List.contains_iff_mem.mp hcontains))]
        have hmore : (seen ++ [first]).Nodup := by
          rw [List.nodup_append]
          refine ⟨hseen, List.nodup_singleton _, ?_⟩
          intro id hid other hother hsame
          rw [List.mem_singleton.mp hother] at hsame
          exact hfirst (hsame ▸ hid)
        obtain ⟨hnodup, hmem⟩ := ih (seen ++ [first]) hmore
        refine ⟨hnodup, fun id => ?_⟩
        rw [hmem id, List.mem_append, List.mem_singleton, List.mem_cons, or_assoc]
  obtain ⟨hnodup, hmem⟩ := hloop ids [] List.nodup_nil
  exact ⟨hnodup, fun id => (hmem id).trans (by simp)⟩

theorem sessionTrees_spec (hkeys : (sessions.map (·.sessionId)).Nodup) {roots : List SessionId}
    (hroots : ∀ root ∈ roots, root ∈ sessions.map (·.sessionId)) :
    (BotCatalog.sessionTrees roots sessions).Nodup ∧
      ∀ id, id ∈ BotCatalog.sessionTrees roots sessions ↔
        ∃ root ∈ roots, Descends (listedLinks sessions) root id := by
  unfold BotCatalog.sessionTrees
  refine ⟨(distinctSessions_spec _).1, fun id => ?_⟩
  rw [(distinctSessions_spec _).2, List.mem_flatten]
  constructor
  · rintro ⟨ids, hids, hid⟩
    obtain ⟨root, hroot, htree⟩ := List.mem_filterMap.mp hids
    exact ⟨root, hroot, ((sessionTreeIds_tree hkeys htree).descendants id).mp hid⟩
  · rintro ⟨root, hroot, hdescends⟩
    have hlisted := sessionTreeIds_listed (hroots root hroot)
    refine ⟨_, List.mem_filterMap.mpr ⟨root, hroot, hlisted⟩, ?_⟩
    exact ((sessionTreeIds_tree hkeys hlisted).descendants id).mpr hdescends

end Trees

section Selection

variable {summaries : List SessionSummary} {selected : List SessionId}

/-- The sessions of a catalog and their parents. -/
def catalogLinks (summaries : List SessionSummary) : List (SessionId × Option SessionId) :=
  summaries.map fun summary => (summary.sessionId, summary.parentSessionId)

theorem parentOf_eq_some (hkeys : (summaries.map (·.sessionId)).Nodup) {parent child : SessionId} :
    parentOf summaries child = some parent ↔ IsChild (catalogLinks summaries) parent child := by
  unfold parentOf IsChild catalogLinks
  rw [Option.bind_eq_some_iff]
  constructor
  · rintro ⟨summary, hfound, hparent⟩
    have hid := List.find?_some hfound
    have hmember := List.mem_reverse.mp (List.mem_of_find?_eq_some hfound)
    simp only [decide_eq_true_eq] at hid
    exact List.mem_map.mpr ⟨summary, hmember, by rw [hid, hparent]⟩
  · intro hlink
    obtain ⟨summary, hmember, hpair⟩ := List.mem_map.mp hlink
    obtain ⟨hid, hparent⟩ := Prod.mk.inj hpair
    cases hfound : summaries.reverse.find? (·.sessionId = child) with
    | none =>
      have hmissing := List.find?_eq_none.mp hfound summary (List.mem_reverse.mpr hmember)
      simp [hid] at hmissing
    | some other =>
      have hother := List.find?_some hfound
      simp only [decide_eq_true_eq] at hother
      have hsame := List.inj_on_of_nodup_map hkeys
        (List.mem_reverse.mp (List.mem_of_find?_eq_some hfound)) hmember (hother.trans hid.symm)
      exact ⟨other, rfl, hsame ▸ hparent⟩

theorem met_iff_below (hkeys : (summaries.map (·.sessionId)).Nodup) {id ancestor : SessionId} :
    ParentTrees.Met (parentOf summaries) (parentOf summaries id) ancestor ↔
      Below (catalogLinks summaries) id ancestor := by
  have hup : ∀ {first last}, Relation.ReflTransGen
      (fun child parent => parentOf summaries child = some parent) first last ↔
        Descends (catalogLinks summaries) last first := by
    intro first last
    rw [← Relation.reflTransGen_swap]
    have hsame : (fun child parent => parentOf summaries child = some parent) =
        Function.swap (IsChild (catalogLinks summaries)) := by
      funext child parent
      exact propext (parentOf_eq_some hkeys)
    rw [hsame]
  constructor
  · rintro ⟨first, hfirst, hrest⟩
    exact Relation.TransGen.tail' (hup.mp hrest) ((parentOf_eq_some hkeys).mp hfirst)
  · intro hbelow
    obtain ⟨first, hrest, hfirst⟩ := Relation.TransGen.tail'_iff.mp hbelow
    exact ⟨first, (parentOf_eq_some hkeys).mpr hfirst, hup.mpr hrest⟩

theorem isSelectionRoot_iff (hkeys : (summaries.map (·.sessionId)).Nodup) {id : SessionId} :
    isSelectionRoot summaries selected id = true ↔
      ∀ ancestor ∈ selected, ¬ Below (catalogLinks summaries) id ancestor := by
  have hknown : ∀ child parent, parentOf summaries child = some parent →
      parent ∈ summaries.filterMap (·.parentSessionId) := by
    intro child parent hparent
    obtain ⟨summary, hmember, hpair⟩ := List.mem_map.mp ((parentOf_eq_some hkeys).mp hparent)
    exact List.mem_filterMap.mpr ⟨summary, hmember, (Prod.mk.inj hpair).2⟩
  have hfuel : (summaries.filterMap (·.parentSessionId)).length < summaries.length + 1 :=
    Nat.lt_succ_of_le (List.length_filterMap_le _ _)
  have hreaches := @ParentTrees.reaches_iff _ _ (parentOf summaries) selected _ _
    (parentOf summaries id) (hknown id) hknown hfuel
  unfold isSelectionRoot
  rw [Bool.not_eq_true', ← Bool.not_eq_true, hreaches]
  simp only [not_exists, not_and, met_iff_below hkeys]

/-- The trees of a selection are the descendants of its sessions, each once. -/
theorem selectionTrees_spec (hkeys : (summaries.map (·.sessionId)).Nodup)
    (hlisted : ∀ id ∈ selected, id ∈ summaries.map (·.sessionId))
    (hacyclic : ∀ id ∈ selected, ¬ Below (catalogLinks summaries) id id) :
    (selectionTrees summaries selected).Nodup ∧
      (∀ id, id ∈ selectionTrees summaries selected ↔
        ∃ root ∈ selectionRoots summaries selected, Descends (catalogLinks summaries) root id) ∧
      ∀ id, id ∈ selectionTrees summaries selected ↔
        ∃ root ∈ selected, Descends (catalogLinks summaries) root id := by
  have hlinks : listedLinks (summaries.map listed) = catalogLinks summaries := by
    unfold listedLinks catalogLinks
    rw [List.map_map]
    rfl
  have hids : (summaries.map listed).map (·.sessionId) = summaries.map (·.sessionId) := by
    rw [List.map_map]
    rfl
  have hroots : ∀ root ∈ selectionRoots summaries selected,
      root ∈ (summaries.map listed).map (·.sessionId) := by
    intro root hroot
    rw [hids]
    exact hlisted root (List.mem_filter.mp hroot).1
  obtain ⟨hnodup, hmem⟩ := sessionTrees_spec (hids ▸ hkeys) hroots
  rw [hlinks] at hmem
  refine ⟨hnodup, hmem, fun id => ?_⟩
  unfold selectionTrees
  rw [hmem id]
  constructor
  · rintro ⟨root, hroot, hdescends⟩
    exact ⟨root, (List.mem_filter.mp hroot).1, hdescends⟩
  · rintro ⟨root, hroot, hdescends⟩
    obtain ⟨top, htop, hfree, habove⟩ := ParentTrees.topmost_above hacyclic hroot
    refine ⟨top, List.mem_filter.mpr ⟨htop, ?_⟩, habove.trans hdescends⟩
    exact (isSelectionRoot_iff hkeys).mpr hfree

end Selection

section Store

variable {Text : Type} {tables : Tables Text} {roots : List SessionId}

def sessionIds (tables : Tables Text) : List SessionId := tables.sessions.map (·.sessionId)

theorem links_fst (tables : Tables Text) : (links tables).map Prod.fst = sessionIds tables := by
  unfold links sessionIds
  rw [List.map_map]
  rfl

theorem mem_addChildren {tree : List SessionId} {id : SessionId} :
    id ∈ StoreTransactions.addChildren tables tree ↔
      id ∈ tree ∨ id ∉ tree ∧ ∃ parent ∈ tree, IsChild (links tables) parent id := by
  unfold StoreTransactions.addChildren IsChild links
  rw [List.mem_append]
  refine or_congr Iff.rfl ?_
  simp only [List.mem_map, List.mem_filter, Bool.and_eq_true, Option.any_eq_true,
    List.contains_iff_mem, Bool.not_eq_true', Prod.mk.injEq]
  constructor
  · rintro ⟨row, ⟨hrow, ⟨parent, hparent, hinside⟩, hnew⟩, rfl⟩
    refine ⟨?_, parent, hinside, row, hrow, rfl, hparent⟩
    rw [← List.contains_iff_mem, hnew]
    exact Bool.false_ne_true
  · rintro ⟨hnew, parent, hinside, row, hrow, rfl, hparent⟩
    refine ⟨row, ⟨hrow, ⟨parent, hparent, hinside⟩, ?_⟩, rfl⟩
    rw [← Bool.not_eq_true, List.contains_iff_mem]
    exact hnew

/-- A tree under construction. -/
structure Growing (tables : Tables Text) (roots tree : List SessionId) : Prop where
  nodup : tree.Nodup
  inside : tree ⊆ sessionIds tables
  top : ∀ root ∈ roots, root ∈ sessionIds tables → root ∈ tree
  sound : ∀ id ∈ tree, ∃ root ∈ roots, root ∈ sessionIds tables ∧
    Descends (links tables) root id

theorem growing_roots (hkeys : (sessionIds tables).Nodup) : Growing tables roots
    ((tables.sessions.filter fun row => roots.contains row.sessionId).map (·.sessionId)) := by
  refine ⟨?_, ?_, ?_, ?_⟩
  · exact hkeys.sublist (List.filter_sublist.map _)
  · intro id hid
    obtain ⟨row, hrow, rfl⟩ := List.mem_map.mp hid
    exact List.mem_map_of_mem (List.mem_filter.mp hrow).1
  · intro root hroot hexists
    obtain ⟨row, hrow, rfl⟩ := List.mem_map.mp hexists
    exact List.mem_map_of_mem (List.mem_filter.mpr ⟨hrow, List.contains_iff_mem.mpr hroot⟩)
  · intro id hid
    obtain ⟨row, hrow, rfl⟩ := List.mem_map.mp hid
    obtain ⟨hmember, hroot⟩ := List.mem_filter.mp hrow
    exact ⟨row.sessionId, List.contains_iff_mem.mp hroot, List.mem_map_of_mem hmember, .refl⟩

theorem Growing.addChildren {tree : List SessionId} (hkeys : (sessionIds tables).Nodup)
    (h : Growing tables roots tree) :
    Growing tables roots (StoreTransactions.addChildren tables tree) := by
  refine ⟨?_, ?_, ?_, ?_⟩
  · unfold StoreTransactions.addChildren
    rw [List.nodup_append]
    refine ⟨h.nodup, hkeys.sublist (List.filter_sublist.map _), ?_⟩
    intro id hid other hother hsame
    obtain ⟨row, hrow, hrowId⟩ := List.mem_map.mp hother
    have hnew := (List.mem_filter.mp hrow).2
    have hcontained : tree.contains row.sessionId = true :=
      List.contains_iff_mem.mpr (hrowId.trans hsame.symm ▸ hid)
    rw [hcontained] at hnew
    simp at hnew
  · intro id hid
    rcases mem_addChildren.mp hid with hold | ⟨_, parent, _, hchild⟩
    · exact h.inside hold
    · rw [← links_fst]
      exact List.mem_map_of_mem hchild
  · intro root hroot hexists
    exact mem_addChildren.mpr (.inl (h.top root hroot hexists))
  · intro id hid
    rcases mem_addChildren.mp hid with hold | ⟨_, parent, hparent, hchild⟩
    · exact h.sound id hold
    · obtain ⟨root, hroot, hexists, hdescends⟩ := h.sound parent hparent
      exact ⟨root, hroot, hexists, hdescends.tail hchild⟩

/-- The recursive query finds the descendants of the roots that exist, each once. -/
theorem sessionTree_spec (hkeys : (sessionIds tables).Nodup) :
    (StoreTransactions.sessionTree tables roots).Nodup ∧
      (∀ id, id ∈ StoreTransactions.sessionTree tables roots ↔
        ∃ root ∈ roots, root ∈ sessionIds tables ∧ Descends (links tables) root id) ∧
      ∀ parent child, IsChild (links tables) parent child →
        parent ∈ StoreTransactions.sessionTree tables roots →
          child ∈ StoreTransactions.sessionTree tables roots := by
  have hlength : ∀ tree, Growing tables roots tree → tree.length ≤ tables.sessions.length := by
    intro tree htree
    have hle := (htree.nodup.subperm htree.inside).length_le
    rwa [sessionIds, List.length_map] at hle
  obtain ⟨hgrown, hstable⟩ := ParentTrees.iterate_stable
    (fun _ htree => Growing.addChildren hkeys htree)
    (fun tree _ => List.prefix_append tree _) hlength (growing_roots hkeys)
  have hclosed : ∀ parent child, IsChild (links tables) parent child →
      parent ∈ StoreTransactions.sessionTree tables roots →
        child ∈ StoreTransactions.sessionTree tables roots := by
    intro parent child hchild hparent
    by_contra hnew
    have hadded : child ∈ StoreTransactions.addChildren tables
        (StoreTransactions.sessionTree tables roots) :=
      mem_addChildren.mpr (.inr ⟨hnew, parent, hparent, hchild⟩)
    unfold StoreTransactions.sessionTree at hadded hnew
    rw [hstable] at hadded
    exact hnew hadded
  refine ⟨hgrown.nodup, ?_, hclosed⟩
  intro id
  have hroots : ∀ root ∈ roots.filter (fun root => decide (root ∈ sessionIds tables)),
      root ∈ StoreTransactions.sessionTree tables roots := by
    intro root hroot
    obtain ⟨hmember, hexists⟩ := List.mem_filter.mp hroot
    exact hgrown.top root hmember (of_decide_eq_true hexists)
  have hsound : ∀ id ∈ StoreTransactions.sessionTree tables roots,
      ∃ root ∈ roots.filter (fun root => decide (root ∈ sessionIds tables)),
        Descends (links tables) root id := by
    intro id hid
    obtain ⟨root, hroot, hexists, hdescends⟩ := hgrown.sound id hid
    exact ⟨root, List.mem_filter.mpr ⟨hroot, decide_eq_true hexists⟩, hdescends⟩
  rw [ParentTrees.mem_iff_descends hroots hsound hclosed id]
  simp only [List.mem_filter, decide_eq_true_eq, and_assoc]

theorem length_withoutSessions (hkeys : (sessionIds tables).Nodup) {tree : List SessionId}
    (hnodup : tree.Nodup) (hinside : tree ⊆ sessionIds tables) :
    tables.sessions.length - (StoreTransactions.Tables.withoutSessions tables tree).sessions.length = tree.length := by
  have hsplit := List.length_eq_length_filter_add (l := tables.sessions)
    fun row => tree.contains row.sessionId
  have hgone : (tables.sessions.filter fun row => tree.contains row.sessionId).length =
      tree.length := by
    rw [← List.length_map (·.sessionId)]
    refine List.Perm.length_eq ?_
    refine (List.perm_ext_iff_of_nodup (hkeys.sublist (List.filter_sublist.map _)) hnodup).mpr ?_
    intro id
    constructor
    · intro hid
      obtain ⟨row, hrow, rfl⟩ := List.mem_map.mp hid
      exact List.contains_iff_mem.mp (List.mem_filter.mp hrow).2
    · intro hid
      obtain ⟨row, hrow, rfl⟩ := List.mem_map.mp (hinside hid)
      exact List.mem_map_of_mem (List.mem_filter.mpr ⟨hrow, List.contains_iff_mem.mpr hid⟩)
  have hkept : (StoreTransactions.Tables.withoutSessions tables tree).sessions.length =
      (tables.sessions.filter fun row => !tree.contains row.sessionId).length := rfl
  omega

/-- The store deletes the descendants of its roots if all of them exist, and nothing otherwise;
it never fails. -/
theorem deleteSessions_spec (hkeys : (sessionIds tables).Nodup) :
    StoreTransactions.deleteSessions tables roots =
      .ok (if ∀ root ∈ roots, root ∈ sessionIds tables then
        some (StoreTransactions.sessionTree tables roots,
          StoreTransactions.Tables.withoutSessions tables (StoreTransactions.sessionTree tables roots)) else none) := by
  obtain ⟨hnodup, hmem, hclosed⟩ := @sessionTree_spec _ tables roots hkeys
  have hinside : StoreTransactions.sessionTree tables roots ⊆ sessionIds tables := by
    intro id hid
    obtain ⟨root, _, hexists, hdescends⟩ := (hmem id).mp hid
    cases Relation.ReflTransGen.cases_tail hdescends with
    | inl hsame => exact hsame ▸ hexists
    | inr hchild =>
      obtain ⟨parent, _, hchild⟩ := hchild
      rw [← links_fst]
      exact List.mem_map_of_mem hchild
  have hall : (roots.all (StoreTransactions.sessionTree tables roots).contains) = true ↔
      ∀ root ∈ roots, root ∈ sessionIds tables := by
    rw [List.all_eq_true]
    refine forall₂_congr fun root hroot => ?_
    rw [List.contains_iff_mem]
    constructor
    · exact fun hfound => hinside hfound
    · exact fun hexists => (hmem root).mpr ⟨root, hroot, hexists, .refl⟩
  unfold StoreTransactions.deleteSessions
  dsimp only
  by_cases hexist : ∀ root ∈ roots, root ∈ sessionIds tables
  · rw [if_pos hexist, hall.mpr hexist, Bool.not_true, if_neg Bool.false_ne_true]
    have hforeign : ((StoreTransactions.Tables.withoutSessions tables (StoreTransactions.sessionTree tables roots)).sessions.any
        fun row => row.parentSessionId.any
          (StoreTransactions.sessionTree tables roots).contains) = false := by
      rw [List.any_eq_false]
      intro row hrow hparent
      obtain ⟨hmember, hkept⟩ := List.mem_filter.mp hrow
      obtain ⟨parent, hnamed, hgone⟩ := (Option.any_eq_true _ _).mp hparent
      have hchild : IsChild (links tables) parent row.sessionId :=
        List.mem_map.mpr ⟨row, hmember, by rw [hnamed]⟩
      have hfound := hclosed parent row.sessionId hchild (List.contains_iff_mem.mp hgone)
      rw [List.contains_iff_mem.mpr hfound] at hkept
      cases hkept
    have hcount := length_withoutSessions hkeys hnodup hinside
    rw [hforeign, hcount]
    simp [rejectIf]
    rfl
  · rw [if_neg hexist]
    have hmissing : (!roots.all (StoreTransactions.sessionTree tables roots).contains) = true := by
      rw [Bool.not_eq_true', ← Bool.not_eq_true, hall]
      exact hexist
    rw [if_pos hmissing]

end Store

section Host

variable {Text : Type}

def withoutState (tables : Tables Text) : Tables Text := { tables with middlewareState := [] }

/-- A world that an original one became when some sessions went: apart from the state of the
gateway nothing else changed. -/
structure Remaining (origin next : World Text) (gone : List SessionId) : Prop where
  tables : withoutState next.tables =
    withoutState (StoreTransactions.Tables.withoutSessions origin.tables gone)
  /-- The state in every other scope is that of the sessions that stayed. -/
  state : ∀ scope, scope ≠ gatewayScope →
    next.tables.middlewareState.filter (·.1 = scope) =
      (StoreTransactions.Tables.withoutSessions origin.tables gone).middlewareState.filter
        (·.1 = scope)
  /-- Every connection has the hints of the sessions that stayed. -/
  hints : ∀ id, id ∉ gone → ∀ index : Nat,
    (next.connections[index]?).map (fun connection => cachedContext connection.caches id) =
      (origin.connections[index]?).map fun connection => cachedContext connection.caches id

variable {gone : List SessionId} {origin next : World Text}

theorem Remaining.sessions (h : Remaining origin next gone) : next.tables.sessions =
      (StoreTransactions.Tables.withoutSessions origin.tables gone).sessions := by
  have hsame := congrArg Tables.sessions h.tables
  exact hsame

theorem withoutSessions_nil (tables : Tables Text) :
    StoreTransactions.Tables.withoutSessions tables [] = tables := by
  simp [StoreTransactions.Tables.withoutSessions]

theorem Remaining.refl (world : World Text) : Remaining world world [] := by
  refine ⟨?_, ?_, fun _ _ _ => rfl⟩
  · rw [withoutSessions_nil]
  · intro scope _
    rw [withoutSessions_nil]

theorem Remaining.congr {other : List SessionId} (h : Remaining origin next gone)
    (hsame : ∀ id, id ∈ gone ↔ id ∈ other) : Remaining origin next other := by
  have hcontains : ∀ id, gone.contains id = other.contains id := by
    intro id
    rw [Bool.eq_iff_iff, List.contains_iff_mem, List.contains_iff_mem]
    exact hsame id
  have htables : StoreTransactions.Tables.withoutSessions origin.tables gone =
      StoreTransactions.Tables.withoutSessions origin.tables other := by
    unfold StoreTransactions.Tables.withoutSessions
    simp only [hcontains]
  refine ⟨htables ▸ h.tables, htables ▸ h.state, ?_⟩
  intro id hid
  exact h.hints id fun hgone => hid ((hsame id).mp hgone)

theorem commit_hints {world : World Text} {index : Nat} {tables : Tables Text}
    {caches : ContextCaches} {id : SessionId}
    (hcaches : cachedContext caches id = cachedContext (cachesOf world index) id) (other : Nat) :
    ((commit world index tables caches).connections[other]?).map
        (fun connection => cachedContext connection.caches id) =
      (world.connections[other]?).map fun connection => cachedContext connection.caches id := by
  unfold commit
  rw [List.getElem?_mapIdx, Option.map_map]
  cases hconnection : world.connections[other]? with
  | none => rfl
  | some connection =>
    simp only [Option.map_some, Function.comp_apply]
    split_ifs with hsame
    · subst hsame
      rw [hcaches]
      unfold cachesOf
      rw [hconnection]
      rfl
    · rfl

theorem filter_writeState (tables : Tables Text) {scope other key : String} {value : Text}
    (h : other ≠ scope) : (writeState tables scope key value).middlewareState.filter (·.1 = other) =
      tables.middlewareState.filter (·.1 = other) := by
  unfold writeState
  dsimp only
  split_ifs with hfound
  · induction tables.middlewareState with
    | nil => rfl
    | cons row rest ih =>
      rw [List.map_cons, List.filter_cons, List.filter_cons, ih]
      by_cases hrow : row.1 = scope ∧ row.2.1 = key
      · rw [if_pos hrow]
        have hfirst : row.1 ≠ other := fun hsame => h (hsame.symm.trans hrow.1)
        simp [h.symm, hfirst]
      · rw [if_neg hrow]
  · rw [List.filter_append]
    simp [h.symm]

theorem Remaining.saveState (h : Remaining origin next gone) (index : Nat) (key : String)
    (value : Text) : Remaining origin (SessionDeletion.saveState next index key value) gone := by
  refine ⟨h.tables, ?_, ?_⟩
  · intro scope hscope
    exact (filter_writeState next.tables hscope).trans (h.state scope hscope)
  · intro id hid other
    exact (commit_hints rfl other).trans (h.hints id hid other)

theorem cachedContext_removed {caches : ContextCaches} {tree : List SessionId} {id : SessionId}
    (h : id ∉ tree) :
    cachedContext (tree.foldl removeCache caches) id = cachedContext caches id := by
  induction tree generalizing caches with
  | nil => rfl
  | cons first rest ih =>
    rw [List.foldl_cons, ih fun hmem => h (List.mem_cons_of_mem _ hmem)]
    have hother : id ≠ first := fun hsame => h (hsame ▸ List.mem_cons_self)
    unfold cachedContext removeCache
    rw [List.find?_filter]
    congr 2
    funext entry
    by_cases hentry : entry.1 = id
    · simp [hentry, hother]
    · simp [hentry]

/-- What the store deletes from a world in which nobody went yet. -/
theorem deleteStored_remaining {world : World Text} {index : Nat} {roots : List SessionId}
    (hkeys : (sessionIds origin.tables).Nodup) (h : Remaining origin world [])
    (hdelete : deleteStored world index roots = .ok (true, next)) :
    Remaining origin next (StoreTransactions.sessionTree origin.tables roots) := by
  have hsessions : world.tables.sessions = origin.tables.sessions := by
    rw [h.sessions, withoutSessions_nil]
  have htree : StoreTransactions.sessionTree world.tables roots =
      StoreTransactions.sessionTree origin.tables roots := by
    unfold StoreTransactions.sessionTree StoreTransactions.addChildren
    rw [hsessions]
  have hworldKeys : (sessionIds world.tables).Nodup := by
    unfold sessionIds
    rw [hsessions]
    exact hkeys
  unfold deleteStored at hdelete
  by_cases hempty : roots.isEmpty = true
  · rw [if_pos hempty] at hdelete
    cases hdelete
    refine h.congr fun id => ?_
    rw [(sessionTree_spec hkeys).2.1 id, List.isEmpty_iff.mp hempty]
    simp
  · rw [if_neg hempty, deleteSessions_spec hworldKeys] at hdelete
    by_cases hexist : ∀ root ∈ roots, root ∈ sessionIds world.tables
    · rw [if_pos hexist] at hdelete
      cases hdelete
      rw [htree]
      have htables := h.tables
      rw [withoutSessions_nil] at htables
      refine ⟨?_, ?_, ?_⟩
      · have hcommute : ∀ tables : Tables Text,
            withoutState (StoreTransactions.Tables.withoutSessions tables
              (StoreTransactions.sessionTree origin.tables roots)) =
            StoreTransactions.Tables.withoutSessions (withoutState tables)
              (StoreTransactions.sessionTree origin.tables roots) := fun _ => rfl
        rw [hcommute origin.tables, ← htables]
        rfl
      · intro scope hscope
        have hstate := h.state scope hscope
        rw [withoutSessions_nil] at hstate
        have hcommute : ∀ rows : List (String × String × Text),
            (rows.filter fun row => !(StoreTransactions.sessionTree origin.tables roots).contains
              row.1).filter (·.1 = scope) =
            (rows.filter (·.1 = scope)).filter fun row =>
              !(StoreTransactions.sessionTree origin.tables roots).contains row.1 := by
          intro rows
          rw [List.filter_filter, List.filter_filter]
          exact List.filter_congr fun _ _ => Bool.and_comm _ _
        exact (hcommute _).trans (hstate ▸ (hcommute _).symm)
      · intro id hid other
        exact (commit_hints (cachedContext_removed hid) other).trans
          (h.hints id List.not_mem_nil other)
    · rw [if_neg hexist] at hdelete
      cases hdelete

end Host

section Deletion

variable {Text : Type} {codecs : GatewayCodecs Text} {host : Host} {around : Surroundings}
  {origin : World Text} {gone : List SessionId}

def Left (origin : World Text) (gone : List SessionId) (state : GatewayState Text) : Prop :=
  Remaining origin state.world gone

theorem saveGatewayState_left (call : Nat) (key : String) (value : Text) :
    Spec (Left origin gone) (saveGatewayState around call key value) (fun _ => Left origin gone)
      (fun _ => Left origin gone) :=
  Spec.modify _ fun _ h => Remaining.saveState h _ _ _

theorem ofExcept_left {α : Type} {value : Except Rejection α} :
    Spec (Left origin gone) (Proc.ofExcept value : Proc (GatewayState Text) Rejection α)
      (fun _ => Left origin gone) (fun _ => Left origin gone) :=
  Spec.ofExcept _ (fun _ _ _ h => h) fun _ _ _ h => h

theorem modify_left {change : GatewayState Text → GatewayState Text}
    (h : ∀ state, (change state).world = state.world) :
    Spec (Left origin gone) (Proc.modify change : Proc (GatewayState Text) Rejection Unit)
      (fun _ => Left origin gone) (fun _ => Left origin gone) := by
  refine Spec.modify _ fun state hstate => ?_
  unfold Left
  rw [h state]
  exact hstate

theorem get_left : Spec (Left origin gone) (Proc.get : Proc (GatewayState Text) Rejection _)
    (fun _ => Left origin gone) (fun _ => Left origin gone) :=
  fun _ h => h

theorem recoverSessionHookClosures_left (call : Nat) :
    Spec (Left origin gone) (recoverSessionHookClosures codecs host around call)
      (fun _ => Left origin gone) (fun _ => Left origin gone) := by
  unfold recoverSessionHookClosures
  refine Spec.bind get_left fun state => ?_
  cases loadState state.world.tables gatewayScope sessionHookClosures with
  | none => exact Spec.pure fun _ h => h
  | some value =>
    refine Spec.bind ofExcept_left fun pending => ?_
    refine Spec.bind ofExcept_left fun committed => ?_
    refine Spec.bind ofExcept_left fun database => ?_
    refine Spec.bind (modify_left fun _ => rfl) fun _ => ?_
    exact saveGatewayState_left call _ _

theorem prepareSessionTreeDeletion_left (ids : List SessionId)
    (selection : SessionFileSelection) :
    Spec (Left origin gone) (prepareSessionTreeDeletion around ids selection)
      (fun _ => Left origin gone) (fun _ => Left origin gone) := by
  unfold prepareSessionTreeDeletion
  have hchecks : Spec (Left origin gone)
      (if around.starting.any ids.contains then
        Proc.fail ⟨"agent_busy", "wait for this chat to finish starting before deleting it", false⟩
      else do
        let state ← Proc.get
        let residents := ids.filter state.residents.contains
        Proc.ofExcept (residents.forM (checkIdle around))
        Proc.ofExcept ((around.prepareFiles ids selection).mapError sessionFileRejection)
        if selection = .all then Proc.ofExcept (residents.forM (stopIdle around))
        else return () : Proc (GatewayState Text) Rejection Unit)
      (fun _ => Left origin gone) (fun _ => Left origin gone) := by
    split_ifs with hstarting hall
    · exact Spec.fail fun _ h => h
    · refine Spec.bind get_left fun state => ?_
      refine Spec.bind ofExcept_left fun _ => ?_
      refine Spec.bind ofExcept_left fun _ => ?_
      exact ofExcept_left
    · refine Spec.bind get_left fun state => ?_
      refine Spec.bind ofExcept_left fun _ => ?_
      refine Spec.bind ofExcept_left fun _ => ?_
      exact Spec.pure fun _ h => h
  cases selection with
  | ids files => exact ofExcept_left
  | all | origins files =>
    cases ids with
    | nil => exact ofExcept_left
    | cons first rest => exact hchecks

theorem dropMetadata_left (ids : List SessionId) :
    Spec (Left origin gone) (dropMetadata codecs around ids)
      (fun _ => Left origin gone) (fun _ => Left origin gone) := by
  unfold dropMetadata
  refine Spec.bind get_left fun state => ?_
  cases loadState state.world.tables gatewayScope sessionCatalogKey with
  | none => exact Spec.bind (saveGatewayState_left 4 _ _) fun _ => Spec.pure fun _ h => h
  | some value =>
    dsimp only
    cases codecs.metadata.decode value with
    | error error => exact Spec.pure fun _ h => h
    | ok metadata => exact Spec.bind (saveGatewayState_left 4 _ _) fun _ => Spec.pure fun _ h => h

/-- The store deletes the trees of the roots, or the removal fails before that. -/
theorem removeSessionTrees_left {roots ids : List SessionId}
    (hkeys : (sessionIds origin.tables).Nodup) (hroots : ids = [] → roots = []) :
    Spec (Left origin []) (removeSessionTrees codecs host around roots ids)
      (fun _ => Left origin (StoreTransactions.sessionTree origin.tables roots))
      (fun _ state => Left origin [] state ∨
        Left origin (StoreTransactions.sessionTree origin.tables roots) state) := by
  unfold removeSessionTrees
  split_ifs with hempty
  · refine Spec.pure fun state h => ?_
    refine Remaining.congr h fun id => ?_
    rw [(sessionTree_spec hkeys).2.1 id, hroots (List.isEmpty_iff.mp hempty)]
    simp
  · have hbefore : ∀ {α : Type} {body : Proc (GatewayState Text) Rejection α},
        Spec (Left origin []) body (fun _ => Left origin []) (fun _ => Left origin []) →
        Spec (Left origin []) body (fun _ => Left origin []) (fun _ state => Left origin [] state ∨
          Left origin (StoreTransactions.sessionTree origin.tables roots) state) :=
      fun h => h.weaken (fun _ hstate => hstate) (fun _ _ hstate => hstate)
        fun _ _ hstate => .inl hstate
    refine Spec.bind (hbefore (recoverSessionHookClosures_left 0)) fun _ => ?_
    refine Spec.bind (hbefore get_left) fun first => ?_
    refine Spec.bind (hbefore ofExcept_left) fun facts => ?_
    refine Spec.bind (hbefore (saveGatewayState_left 1 _ _)) fun _ => ?_
    have hread : Spec (Left origin []) (Proc.get : Proc (GatewayState Text) Rejection _)
        (fun state now => Left origin [] now ∧ state = now) (fun _ state => Left origin [] state ∨
          Left origin (StoreTransactions.sessionTree origin.tables roots) state) :=
      fun state hstate => ⟨hstate, rfl⟩
    refine Spec.bind hread fun second => ?_
    have hdelete : Spec (fun now => Left origin [] now ∧ second = now)
        (Proc.ofExcept ((deleteStored second.world (around.connection 2) roots).mapError internal) :
          Proc (GatewayState Text) Rejection _)
        (fun result now => Left origin [] now ∧ ∀ world, result = (true, world) →
          Remaining origin world (StoreTransactions.sessionTree origin.tables roots))
        (fun _ state => Left origin [] state ∨
          Left origin (StoreTransactions.sessionTree origin.tables roots) state) := by
      refine Spec.ofExcept _ ?_ ?_
      · rintro result hresult now ⟨hnow, rfl⟩
        refine ⟨hnow, ?_⟩
        rintro world rfl
        exact deleteStored_remaining hkeys hnow (mapError_ok hresult)
      · rintro error _ now ⟨hnow, _⟩
        exact .inl hnow
    refine Spec.bind hdelete ?_
    rintro ⟨deleted, world⟩
    dsimp only
    cases deleted with
    | false => exact Spec.fail fun _ h => .inl h.1
    | true =>
      have hafter : ∀ {α : Type} {body : Proc (GatewayState Text) Rejection α},
          Spec (Left origin (StoreTransactions.sessionTree origin.tables roots)) body
            (fun _ => Left origin (StoreTransactions.sessionTree origin.tables roots))
            (fun _ => Left origin (StoreTransactions.sessionTree origin.tables roots)) →
          Spec (Left origin (StoreTransactions.sessionTree origin.tables roots)) body
            (fun _ => Left origin (StoreTransactions.sessionTree origin.tables roots))
            (fun _ state => Left origin [] state ∨
              Left origin (StoreTransactions.sessionTree origin.tables roots) state) :=
        fun h => h.weaken (fun _ hstate => hstate) (fun _ _ hstate => hstate)
          fun _ _ hstate => .inr hstate
      rw [if_pos rfl]
      refine Spec.bind (Spec.modify
        (fun _ => Left origin (StoreTransactions.sessionTree origin.tables roots))
        fun state hstate => hstate.2 world rfl) fun _ => ?_
      refine Spec.bind (hafter (recoverSessionHookClosures_left 3)) fun _ => ?_
      refine Spec.bind (hafter (modify_left fun _ => rfl)) fun _ => ?_
      refine Spec.bind (hafter (dropMetadata_left ids)) fun metadata => ?_
      refine Spec.bind (hafter (modify_left fun _ => rfl)) fun _ => ?_
      exact Spec.pure fun _ h => h

/-- A deletion of the trees of a selection: the descendants of its sessions, each once, and
nothing else. -/
structure DeletedTrees (origin next : World Text) (selected deleted : List SessionId) : Prop where
  nodup : deleted.Nodup
  descendants : ∀ id, id ∈ deleted ↔ ∃ root ∈ selected, Descends (links origin.tables) root id
  remaining : Remaining origin next deleted

theorem catalogLinks_eq {tables : Tables Text} (hkeys : (sessionIds tables).Nodup)
    {summaries : List SessionSummary}
    (h : gatewaySessionSummaries codecs.toCodecs around.updatedAt tables = .ok summaries) :
    (summaries.map (·.sessionId)).Nodup ∧
      IsChild (catalogLinks summaries) = IsChild (links tables) ∧
      ∀ id, id ∈ summaries.map (·.sessionId) ↔ id ∈ sessionIds tables := by
  have hperm : (catalogLinks summaries).Perm (links tables) :=
    gatewaySessionSummaries_perm hkeys h
  have hfirst : (summaries.map (·.sessionId)).Perm (sessionIds tables) := by
    have hids := hperm.map Prod.fst
    rw [links_fst] at hids
    unfold catalogLinks at hids
    rw [List.map_map] at hids
    exact hids
  refine ⟨hfirst.nodup_iff.mpr hkeys, ?_, fun id => hfirst.mem_iff⟩
  funext parent child
  exact propext hperm.mem_iff

/-- The store and the host expand a selection to the same sessions. -/
theorem selectionTrees_eq {tables : Tables Text} (hkeys : (sessionIds tables).Nodup)
    {summaries : List SessionSummary} {selected : List SessionId}
    (h : gatewaySessionSummaries codecs.toCodecs around.updatedAt tables = .ok summaries)
    (hlisted : ∀ id ∈ selected, id ∈ summaries.map (·.sessionId))
    (hacyclic : ∀ id ∈ selected, ¬ Below (links tables) id id) :
    (selectionTrees summaries selected).Nodup ∧
      (∀ id, id ∈ selectionTrees summaries selected ↔
        ∃ root ∈ selected, Descends (links tables) root id) ∧
      (∀ id, id ∈ StoreTransactions.sessionTree tables (selectionRoots summaries selected) ↔
        id ∈ selectionTrees summaries selected) ∧
      (selectionTrees summaries selected = [] → selectionRoots summaries selected = []) := by
  obtain ⟨hsummaryKeys, hlinks, hids⟩ := catalogLinks_eq hkeys h
  have habove : ∀ id ∈ selected, ¬ Below (catalogLinks summaries) id id := by
    intro id hid
    unfold Below
    rw [hlinks]
    exact hacyclic id hid
  obtain ⟨hnodup, hroots, hselected⟩ := selectionTrees_spec hsummaryKeys hlisted habove
  unfold Descends at hroots hselected
  rw [hlinks] at hroots hselected
  refine ⟨hnodup, hselected, ?_, ?_⟩
  · intro id
    rw [(sessionTree_spec hkeys).2.1 id, hroots id]
    refine exists_congr fun root => and_congr_right fun hroot => ?_
    have hexists : root ∈ sessionIds tables :=
      (hids root).mp (hlisted root (List.mem_filter.mp hroot).1)
    exact and_iff_right hexists
  · intro hempty
    refine List.eq_nil_iff_forall_not_mem.mpr fun root hroot => ?_
    have hfound := (hroots root).mpr ⟨root, hroot, .refl⟩
    rw [hempty] at hfound
    exact absurd hfound List.not_mem_nil

/-- A deletion of sessions deletes exactly the trees of its selection, or is rejected and deletes
nothing. A rejection after the sessions went is that of the closing facts. -/
theorem deleteSessions_trees {selected : List SessionId} (hkeys : (sessionIds origin.tables).Nodup)
    (hacyclic : ∀ id ∈ selected, ¬ Below (links origin.tables) id id) :
    Spec (fun state => state.world = origin) (deleteSessions codecs host around selected .all)
      (fun deleted state => DeletedTrees origin state.world selected deleted)
      (fun _ state => Remaining origin state.world [] ∨
        ∃ deleted, DeletedTrees origin state.world selected deleted) := by
  have hstart : ∀ state : GatewayState Text, state.world = origin → Left origin [] state := by
    rintro state rfl
    exact Remaining.refl _
  unfold deleteSessions
  by_cases hcount : selected = [] ∨ maxSessionDeleteRoots < selected.length
  · rw [if_pos hcount]
    exact Spec.fail fun state h => .inl (hstart state h)
  rw [if_neg hcount]
  dsimp only
  refine Spec.bind (Spec.ofExcept (fun _ state => state.world = origin) (fun _ _ _ h => h)
    fun _ _ state h => .inl (hstart state h)) fun pending => ?_
  by_cases hpending : pending = true
  · rw [if_pos hpending]
    exact Spec.fail fun state h => .inl (hstart state h)
  rw [if_neg hpending]
  have hread : Spec (fun state => state.world = origin)
      (Proc.get : Proc (GatewayState Text) Rejection _)
      (fun value state => value.world = origin ∧ state.world = origin)
      (fun _ state => Remaining origin state.world [] ∨
        ∃ deleted, DeletedTrees origin state.world selected deleted) := fun _ h => ⟨h, h⟩
  refine Spec.bind hread fun state => ?_
  refine Spec.given fun hworld => ?_
  rw [hworld]
  refine Spec.bind (Spec.ofExcept (fun summaries state =>
    gatewaySessionSummaries codecs.toCodecs around.updatedAt origin.tables = .ok summaries ∧
      state.world = origin) (fun _ hsummaries _ h => ⟨mapError_ok hsummaries, h⟩)
    fun _ _ state h => .inl (hstart state h)) fun summaries => ?_
  refine Spec.given fun hsummaries => ?_
  by_cases hunknown : (!(BotCatalog.distinctSessions selected).all fun id =>
      summaries.any fun summary => summary.catalogVisible && summary.sessionId == id) = true
  · rw [if_pos hunknown]
    exact Spec.fail fun state h => .inl (hstart state h)
  rw [if_neg hunknown, if_neg (fun hother => hother rfl)]
  have hdistinct := (distinctSessions_spec selected).2
  have hlisted : ∀ id ∈ BotCatalog.distinctSessions selected,
      id ∈ summaries.map (·.sessionId) := by
    rw [Bool.not_eq_true', Bool.not_eq_false, List.all_eq_true] at hunknown
    intro id hid
    obtain ⟨summary, hsummary, hshown⟩ := List.any_eq_true.mp (hunknown id hid)
    rw [Bool.and_eq_true, beq_iff_eq] at hshown
    exact List.mem_map.mpr ⟨summary, hsummary, hshown.2⟩
  obtain ⟨hnodup, hselected, hstored, hempty⟩ := selectionTrees_eq hkeys hsummaries hlisted
    fun id hid => hacyclic id ((hdistinct id).mp hid)
  refine Spec.bind (Spec.ofExcept (fun _ => Left origin []) (fun _ _ state h => hstart state h)
    fun _ _ state h => .inl (hstart state h)) fun _ => ?_
  refine Spec.bind ((prepareSessionTreeDeletion_left _ _).weaken (fun _ h => h)
    (fun _ _ h => h) fun _ _ h => .inl h) fun _ => ?_
  have hdeleted : ∀ state : GatewayState Text,
      Left origin (StoreTransactions.sessionTree origin.tables
        (selectionRoots summaries (BotCatalog.distinctSessions selected))) state →
      DeletedTrees origin state.world selected
        (selectionTrees summaries (BotCatalog.distinctSessions selected)) := by
    intro state hleft
    refine ⟨hnodup, fun id => ?_, Remaining.congr hleft hstored⟩
    rw [hselected id]
    exact exists_congr fun root => and_congr_left fun _ => hdistinct root
  refine Spec.bind ((removeSessionTrees_left hkeys hempty).weaken (fun _ h => h)
    (fun _ _ h => h) ?_) fun _ => Spec.pure fun state h => hdeleted state h
  rintro _ state (hbefore | hafter)
  · exact .inl hbefore
  · exact .inr ⟨_, hdeleted state hafter⟩

theorem deleteSessions_files {selected : List SessionId} {selection : SessionFileSelection}
    (hfiles : selection ≠ .all) :
    Spec (fun state => state.world = origin)
      (deleteSessions codecs host around selected selection)
      (fun _ state => Remaining origin state.world [])
      (fun _ state => Remaining origin state.world []) := by
  have hleft : Spec (Left origin []) (deleteSessions codecs host around selected selection)
      (fun _ => Left origin []) (fun _ => Left origin []) := by
    unfold deleteSessions
    split_ifs with hcount
    · exact Spec.fail fun _ h => h
    dsimp only
    refine Spec.bind ofExcept_left fun pending => ?_
    split_ifs with hpending
    · exact Spec.fail fun _ h => h
    refine Spec.bind get_left fun state => ?_
    refine Spec.bind ofExcept_left fun summaries => ?_
    split_ifs with hunknown
    · exact Spec.fail fun _ h => h
    refine Spec.bind (prepareSessionTreeDeletion_left _ _) fun _ => ?_
    refine Spec.bind ofExcept_left fun _ => ?_
    exact Spec.pure fun _ h => h
  refine hleft.pre ?_
  rintro state rfl
  exact Remaining.refl _

end Deletion

section Runs

variable {Text : Type} {codecs : Codecs Text} {checks : ExternalChecks}

open StoreTransactions StoreConnections StoreRefinement

/-- What an operation of the store does to the parents of the sessions. -/
inductive LinksStep (before : List (SessionId × Option SessionId)) :
    List (SessionId × Option SessionId) → Prop where
  | same : LinksStep before before
  | added {id : SessionId} {parent : Option SessionId} (hnew : id ∉ before.map Prod.fst)
      (hparent : ∀ above, parent = some above → above ∈ before.map Prod.fst) :
      LinksStep before (before ++ [(id, parent)])
  /-- Sessions are removed together with their children. -/
  | removed {gone : List SessionId}
      (hclosed : ∀ parent child, IsChild before parent child → parent ∈ gone → child ∈ gone) :
      LinksStep before (before.filter fun link => !gone.contains link.1)

theorem LinksStep.founded {before after : List (SessionId × Option SessionId)}
    (h : LinksStep before after) (hfounded : ParentTrees.Founded before) :
    ParentTrees.Founded after := by
  cases h with
  | same => exact hfounded
  | added hnew hparent => exact hfounded.concat hnew hparent
  | @removed gone hclosed =>
    refine @ParentTrees.Founded.filter _ _ hfounded (fun id => !gone.contains id) ?_
    intro parent child hchild hkept
    rw [Bool.not_eq_true', ← Bool.not_eq_true, List.contains_iff_mem] at hkept ⊢
    exact fun hgone => hkept (hclosed parent child hchild hgone)

variable {id : SessionId} {tables next : Tables Text} {shared : SharedCheckpoint}

theorem not_mem_links (h : tables.session? id = none) : id ∉ (links tables).map Prod.fst := by
  rw [links_fst]
  intro hid
  obtain ⟨row, hrow, rfl⟩ := List.mem_map.mp hid
  have hmissing := List.find?_eq_none.mp h row hrow
  simp at hmissing

theorem mem_links {row : SessionRow Text} (h : tables.session? id = some row) :
    id ∈ (links tables).map Prod.fst := by
  rw [links_fst, ← session?_id h]
  exact List.mem_map_of_mem (List.mem_of_find?_eq_some h)

theorem links_updateSession (tables : Tables Text) (id : SessionId)
    (change : SessionRow Text → SessionRow Text)
    (hid : ∀ row, (change row).sessionId = row.sessionId)
    (hparent : ∀ row, (change row).parentSessionId = row.parentSessionId) :
    links (tables.updateSession id change) = links tables := by
  unfold links Tables.updateSession
  rw [List.map_map]
  refine List.map_congr_left fun row _ => ?_
  simp only [Function.comp_apply]
  split_ifs
  · rw [hid, hparent]
  · rfl

theorem prepareAppend_sessions {mid : Tables Text} {cached : Option ContextCache}
    {dataVersion : Nat} {decision : Nat × Bool}
    (h : prepareAppend codecs tables shared cached dataVersion = .ok (decision, mid)) :
    mid.sessions = tables.sessions := by
  unfold prepareAppend at h
  split at h
  · cases h
    rfl
  · simp only [except_bind_ok_iff] at h
    obtain ⟨nextSequence, -, nextEpoch, -, _, -, _, -, h⟩ := h
    split at h
    · cases h
      rfl
    · simp only [except_bind_ok_iff] at h
      obtain ⟨count, -, _, -, h⟩ := h
      split at h
      · cases h
        rfl
      · simp only [except_bind_ok_iff] at h
        obtain ⟨_, -, h⟩ := h
        cases h
        rfl

theorem appendContext_sessions {start : Nat}
    (h : appendContext codecs tables shared start = .ok next) :
    next.sessions = tables.sessions := by
  simp only [appendContext, except_bind_ok_iff] at h
  obtain ⟨epoch, -, h⟩ := h
  rw [StoreContext.insertContext_ok codecs h]
  rfl

theorem insertNonemptyTranscript_sessions {sequence : Int} {items : List Json}
    (h : insertNonemptyTranscript codecs tables id sequence items = .ok next) :
    next.sessions = tables.sessions := by
  unfold insertNonemptyTranscript at h
  split at h
  · cases h
    rfl
  · simp only [insertTranscript, except_bind_ok_iff] at h
    obtain ⟨_, -, h⟩ := h
    cases h
    rfl

/-- Storing a checkpoint adds a session without a parent or keeps the links. -/
theorem storeCheckpoint_links {sequence : Int} {transcriptDelta : List Json}
    {execution : Option ExecutionRecord}
    (h : storeCheckpoint codecs tables shared sequence transcriptDelta execution = .ok next) :
    LinksStep (links tables) (links next) := by
  simp only [storeCheckpoint, except_bind_ok_iff] at h
  obtain ⟨epoch, -, count, -, mid, hupsert, last, htranscript, h⟩ := h
  have hmid : LinksStep (links tables) (links mid) := by
    unfold upsertSession at hupsert
    cases hrow : tables.session? shared.header.sessionId with
    | none =>
      rw [hrow] at hupsert
      cases hupsert
      have hlinks : links { tables with sessions := tables.sessions ++
          [newRow codecs shared none sequence epoch count] } =
            links tables ++ [(shared.header.sessionId, none)] := by
        unfold links
        rw [List.map_append]
        rfl
      rw [hlinks]
      exact .added (not_mem_links hrow) (by simp)
    | some row =>
      simp only [hrow, except_bind_ok_iff] at hupsert
      obtain ⟨_, -, hupsert⟩ := hupsert
      cases hupsert
      have hlinks := links_updateSession tables shared.header.sessionId
        (advanceRow codecs shared sequence epoch count) (fun _ => rfl) fun _ => rfl
      rw [hlinks]
      exact .same
  have hlast : links last = links mid := by
    have hsessions := insertNonemptyTranscript_sessions htranscript
    unfold links
    rw [hsessions]
  have hnext : links next = links last := by
    cases execution with
    | none =>
      cases h
      rfl
    | some record =>
      simp only [insertExecution, except_bind_ok_iff] at h
      obtain ⟨_, -, h⟩ := h
      cases h
      rfl
  rw [hnext, hlast]
  exact hmid

theorem storeEvent_links {event : TimestampedEvent} {transcript : Option (Int × List Json)}
    {record : JournalEvent}
    (h : storeEvent codecs tables id event transcript = .ok (record, next)) :
    links next = links tables := by
  obtain ⟨latest, hsessions, _, _⟩ := (storeEvent_journaled codecs h).sessions
  have hlinks : links next = links (tables.updateSession id fun row =>
      { row with latestEventSequence := latest }) := by
    unfold links
    rw [hsessions]
  rw [hlinks]
  exact links_updateSession tables id _ (fun _ => rfl) fun _ => rfl

theorem storeEvents_links {transcript : Option (Int × List Json)} {events : List TimestampedEvent}
    {records : List JournalEvent}
    (h : storeEvents codecs tables id transcript events = .ok (records, next)) :
    links next = links tables := by
  induction events generalizing tables records with
  | nil =>
    cases h
    rfl
  | cons event rest ih =>
    simp only [storeEvents, except_bind_ok_iff] at h
    obtain ⟨⟨record, mid⟩, hfirst, ⟨later, last⟩, hrest, h⟩ := h
    cases h
    rw [ih hrest, storeEvent_links hfirst]

theorem saveWithEvents_links {transcriptDelta : List Json} {execution : Option ExecutionRecord}
    {events : List TimestampedEvent} {cached : Option ContextCache} {dataVersion : Nat}
    {records : List JournalEvent}
    (h : saveWithEvents codecs checks tables shared transcriptDelta execution events cached
      dataVersion = .ok (records, next)) : LinksStep (links tables) (links next) := by
  simp only [saveWithEvents, except_bind_ok_iff] at h
  obtain ⟨_, -, _, -, sequence, -, ⟨⟨start, rewritten⟩, mid⟩, hprepare, stored, hstore, appended,
    happend, h⟩ := h
  have hmid : links mid = links tables := by
    have hsessions := prepareAppend_sessions hprepare
    unfold links
    rw [hsessions]
  have happended : links appended = links stored := by
    have hsessions := appendContext_sessions happend
    unfold links
    rw [hsessions]
  rw [storeEvents_links h, happended, ← hmid]
  exact storeCheckpoint_links hstore

theorem fork_links {parent : SessionId} {parentSequence : Nat} {summary : SessionSummary}
    (h : StoreTransactions.fork codecs tables parent parentSequence shared = .ok (summary, next)) :
    LinksStep (links tables) (links next) := by
  simp only [StoreTransactions.fork, except_bind_ok_iff] at h
  obtain ⟨_, -, _, -, above, -, sequence, -, _, -, durable, hdurable, _, -, epoch, -, count, -, _,
    hnew, appended, happend, last, htranscript, found, -, h⟩ := h
  cases h
  have hrow := orError_ok hdurable
  have hmissing : tables.session? shared.header.sessionId = none := by
    have hfree := rejectIf_ok hnew
    rwa [Option.isSome_eq_false_iff, Option.isNone_iff_eq_none] at hfree
  have hlinks : links next = links tables ++ [(shared.header.sessionId, some parent)] := by
    have hlast := insertNonemptyTranscript_sessions htranscript
    have hmid := appendContext_sessions happend
    unfold links
    rw [hlast, hmid, List.map_append]
    rfl
  rw [hlinks]
  refine .added (not_mem_links hmissing) ?_
  intro other hother
  cases hother
  exact mem_links hrow

theorem step_links {world : World Text} (hfounded : ParentTrees.Founded (links world.tables))
    (operation : Operation checks) :
    LinksStep (links world.tables) (links (step codecs checks world operation).1.tables) := by
  have hconnection : ∀ (index : Nat) (body : Connection → World Text × Outcome),
      (∀ connection, LinksStep (links world.tables) (links (body connection).1.tables)) →
      LinksStep (links world.tables) (links (withConnection world index body).1.tables) := by
    intro index body hbody
    unfold withConnection
    cases world.connections[index]? with
    | none => exact .same
    | some connection => exact hbody connection
  cases operation with
  | allocate address value =>
    simp only [step]
    split_ifs
    · exact .same
    · exact .same
  | release address | connect dataVersion | disconnect index => exact .same
  | load index id behind addresses =>
    refine hconnection index _ fun connection => ?_
    unfold loadOn
    cases load codecs checks world.tables id with
    | error error => exact .same
    | ok found =>
      cases found with
      | none => exact .same
      | some checkpoint =>
        dsimp only
        split_ifs
        · exact .same
        · exact .same
  | save index offer transcriptDelta execution events =>
    refine hconnection index _ fun connection => ?_
    unfold saveOn
    dsimp only
    split_ifs
    · cases hsave : saveWithEvents codecs checks world.tables offer.shared transcriptDelta
          execution events (cachedContext connection.caches offer.shared.header.sessionId)
          connection.dataVersion with
      | error error => exact .same
      | ok saved => exact saveWithEvents_links hsave
    · exact .same
  | fork index parent parentSequence offer =>
    refine hconnection index _ fun connection => ?_
    unfold forkOn
    dsimp only
    split_ifs
    · cases hfork : StoreTransactions.fork codecs world.tables parent parentSequence
          offer.shared with
      | error error => exact .same
      | ok forked => exact fork_links hfork
    · exact .same
  | delete index roots =>
    refine hconnection index _ fun connection => ?_
    unfold deleteOn
    split_ifs
    · exact .same
    · have hkeys : (sessionIds world.tables).Nodup := links_fst world.tables ▸ hfounded.keys
      rw [deleteSessions_spec hkeys]
      by_cases hexist : ∀ root ∈ roots, root ∈ sessionIds world.tables
      · rw [if_pos hexist]
        have hlinks : links (StoreTransactions.Tables.withoutSessions world.tables
            (sessionTree world.tables roots)) = (links world.tables).filter fun link =>
              !(sessionTree world.tables roots).contains link.1 := by
          unfold links StoreTransactions.Tables.withoutSessions
          rw [List.filter_map]
          rfl
        have hremoved := LinksStep.removed (@sessionTree_spec _ _ roots hkeys).2.2
        rw [← hlinks] at hremoved
        exact hremoved
      · rw [if_neg hexist]
        exact .same
  | appendEvent index id event =>
    refine hconnection index _ fun connection => ?_
    unfold appendEventOn
    cases hevent : storeEvent codecs world.tables id event none with
    | error error => exact .same
    | ok stored =>
      have hlinks : links stored.2 = links world.tables := storeEvent_links hevent
      have hstep : LinksStep (links world.tables) (links stored.2) := by
        rw [hlinks]
        exact .same
      exact hstep

theorem run_founded {world : World Text} (h : ParentTrees.Founded (links world.tables))
    (operations : List (Operation checks)) :
    ParentTrees.Founded (links (run codecs checks world operations).1.tables) := by
  induction operations generalizing world with
  | nil => exact h
  | cons operation rest ih => exact ih ((step_links h operation).founded h)

/-- In every run of the store each session has one row, and its parent has an earlier one. -/
theorem parents_stay (operations : List (Operation checks)) :
    (sessionIds (run codecs checks (.empty : World Text) operations).1.tables).Nodup ∧
      ∀ earlier row later parent,
        (run codecs checks (.empty : World Text) operations).1.tables.sessions =
          earlier ++ row :: later → row.parentSessionId = some parent →
        ∃ above ∈ earlier, above.sessionId = parent := by
  have hempty : ParentTrees.Founded (links (World.empty : World Text).tables) :=
    ParentTrees.Founded.nil
  have hfounded := @run_founded _ codecs checks _ hempty operations
  refine ⟨links_fst _ ▸ hfounded.keys, ?_⟩
  intro earlier row later parent hrows hparent
  have hlinks : links (run codecs checks (.empty : World Text) operations).1.tables =
      earlier.map (fun row => (row.sessionId, row.parentSessionId)) ++
        (row.sessionId, some parent) ::
          later.map fun row => (row.sessionId, row.parentSessionId) := by
    unfold links
    rw [hrows, List.map_append, List.map_cons, hparent]
  obtain ⟨link, hlink, hid⟩ := List.mem_map.mp (hfounded.before _ _ _ _ hlinks)
  obtain ⟨above, habove, rfl⟩ := List.mem_map.mp hlink
  exact ⟨above, habove, hid⟩

end Runs

section Results

variable {Text : Type} (codecs : GatewayCodecs Text) (checks : ExternalChecks) (host : Host)
  (around : Surroundings)

/-- A deletion deletes whole trees. For all parents the tree of a listed session is found: its
descendants, each once, and every child but the root before its parent. The store deletes the
descendants of its roots or, if one does not exist, nothing, and never fails. For every selection
without a session below itself the host deletes the descendants of its sessions, each once, and
leaves the rows and hints of all others, or it rejects. In every run of the store no session is
below itself. -/
theorem deletion_deletes_descendants :
    (∀ (sessions : List BotCatalog.SessionSummary) (root : SessionId),
      (sessions.map (·.sessionId)).Nodup →
      (BotCatalog.sessionTreeIds root sessions = none ↔ root ∉ sessions.map (·.sessionId)) ∧
      ∀ ids, BotCatalog.sessionTreeIds root sessions = some ids →
        TreeOf (listedLinks sessions) root ids) ∧
    (∀ (tables : Tables Text) (roots : List SessionId), (sessionIds tables).Nodup →
      StoreTransactions.deleteSessions tables roots =
          .ok (if ∀ root ∈ roots, root ∈ sessionIds tables then
            some (StoreTransactions.sessionTree tables roots,
              StoreTransactions.Tables.withoutSessions tables
                (StoreTransactions.sessionTree tables roots)) else none) ∧
        (StoreTransactions.sessionTree tables roots).Nodup ∧
        ∀ id, id ∈ StoreTransactions.sessionTree tables roots ↔
          ∃ root ∈ roots, root ∈ sessionIds tables ∧ Descends (links tables) root id) ∧
    (∀ (origin : World Text) (selected : List SessionId), (sessionIds origin.tables).Nodup →
      (∀ id ∈ selected, ¬ Below (links origin.tables) id id) →
      Spec (fun state => state.world = origin) (deleteSessions codecs host around selected .all)
        (fun deleted state => DeletedTrees origin state.world selected deleted)
        (fun _ state => Remaining origin state.world [] ∨
          ∃ deleted, DeletedTrees origin state.world selected deleted)) ∧
    (∀ (origin : World Text) (selected : List SessionId) (selection : SessionFileSelection),
      selection ≠ .all →
      Spec (fun state => state.world = origin)
        (deleteSessions codecs host around selected selection)
        (fun _ state => Remaining origin state.world [])
        (fun _ state => Remaining origin state.world [])) ∧
    ∀ operations : List (StoreConnections.Operation checks),
      (sessionIds (StoreConnections.run codecs.toCodecs checks .empty operations).1.tables).Nodup ∧
      ∀ id, ¬ Below
        (links (StoreConnections.run codecs.toCodecs checks .empty operations).1.tables) id id := by
  refine ⟨?_, ?_, ?_, ?_, ?_⟩
  · intro sessions root hkeys
    refine ⟨⟨?_, sessionTreeIds_unlisted⟩, fun ids h => sessionTreeIds_tree hkeys h⟩
    intro hnone hlisted
    rw [sessionTreeIds_listed hlisted] at hnone
    cases hnone
  · intro tables roots hkeys
    obtain ⟨hnodup, hmem, _⟩ := @sessionTree_spec _ tables roots hkeys
    exact ⟨deleteSessions_spec hkeys, hnodup, hmem⟩
  · intro origin selected hkeys hacyclic
    exact deleteSessions_trees hkeys hacyclic
  · intro origin selected selection hfiles
    exact deleteSessions_files hfiles
  · intro operations
    have hempty : ParentTrees.Founded (links (StoreConnections.World.empty : World Text).tables) :=
      ParentTrees.Founded.nil
    have hfounded := @run_founded _ codecs.toCodecs checks _ hempty operations
    refine ⟨links_fst _ ▸ hfounded.keys, hfounded.acyclic⟩

/-- A column of a checkpoint or of the state of the gateway. -/
abbrev Sheet : Type := StoreConnections.Document ⊕ List HookEvent ⊕ List (SessionId × Json)

def checkpointSheet {Record : Type} (codec : Codec StoreConnections.Document Record) :
    Codec Sheet Record where
  encode := fun record => .inl (codec.encode record)
  decode := fun
    | .inl document => codec.decode document
    | .inr _ => .error StoreConnections.wrongDocument

def sheetCodecs : GatewayCodecs Sheet where
  header := checkpointSheet StoreConnections.documentCodecs.header
  item := checkpointSheet StoreConnections.documentCodecs.item
  items := checkpointSheet StoreConnections.documentCodecs.items
  sessionContext := checkpointSheet StoreConnections.documentCodecs.sessionContext
  executionStats := checkpointSheet StoreConnections.documentCodecs.executionStats
  execution := checkpointSheet StoreConnections.documentCodecs.execution
  event := checkpointSheet StoreConnections.documentCodecs.event
  metrics := checkpointSheet StoreConnections.documentCodecs.metrics
  closures := ⟨fun events => .inr (.inl events), fun
    | .inr (.inl events) => .ok events
    | _ => .error StoreConnections.wrongDocument⟩
  metadata := ⟨fun metadata => .inr (.inr metadata), fun
    | .inr (.inr metadata) => .ok metadata
    | _ => .error StoreConnections.wrongDocument⟩

/-- A gateway where nothing refuses. -/
def quietSurroundings (updatedAt : SessionId → Int) : Surroundings where
  updatedAt := updatedAt
  pendingBotDeletion := .ok false
  starting := []
  cutoverStatus := fun _ => .ok true
  stopIfIdle := fun _ => true
  prepareFiles := fun _ _ => .ok ()
  deleteFiles := .ok ()
  stageFiles := .ok ()
  closureId := fun _ => "0"
  now := 0
  connection := fun _ => 0

def smallRow (id : SessionId) (parent : Option SessionId) : SessionRow Sheet :=
  ⟨id, parent, parent.map fun _ => 0, 0, 0,
    sheetCodecs.header.encode (Checkpoint.empty id).toCheckpointHeader, 0, 0,
    sheetCodecs.sessionContext.encode { ownerId := "owner" },
    sheetCodecs.executionStats.encode {}, true, none⟩

def smallGateway (rows : List (SessionRow Sheet)) : GatewayState Sheet where
  world := ⟨{ Tables.empty with sessions := rows }, fun _ => none, [⟨[], 1⟩]⟩
  database := {}
  residents := []
  activities := []
  approvals := []

/-- Two sessions that name each other. -/
def cyclicGateway : GatewayState Sheet :=
  smallGateway [smallRow "first" (some "second"), smallRow "second" (some "first")]

/-- A selected session below itself is not deleted, and its tree has it after its parent. -/
theorem cyclic_selection_stays :
    (deleteSessions sheetCodecs RoutineRuns.plainHost (quietSurroundings fun _ => 0) ["first"] .all
      cyclicGateway).1 = .ok [] ∧
    IsChild (links cyclicGateway.world.tables) "second" "first" ∧
    BotCatalog.sessionTreeIds "first" [⟨"first", some "second", "owner"⟩,
      ⟨"second", some "first", "owner"⟩] = some ["second", "first"] := by
  refine ⟨rfl, ?_, rfl⟩
  exact List.mem_cons_self

/-- A session and its fork. -/
def familyGateway : GatewayState Sheet :=
  smallGateway [smallRow "first" none, smallRow "second" (some "first")]

/-- A session and its fork are listed, found in the tables, deleted together, and both kept when
only files are deleted. -/
theorem deletion_deletes_descendants_family :
    TreeOf [("first", none), ("second", some "first")] "first" ["second", "first"] ∧
    (StoreTransactions.sessionTree familyGateway.world.tables ["first"]).Nodup ∧
    DeletedTrees familyGateway.world
      (deleteSessions sheetCodecs RoutineRuns.plainHost (quietSurroundings fun _ => 0)
        ["first", "second"] .all familyGateway).2.world ["first", "second"] ["second", "first"] ∧
    Remaining familyGateway.world
      (deleteSessions sheetCodecs RoutineRuns.plainHost (quietSurroundings fun _ => 0)
        ["first"] (.origins ["upload"]) familyGateway).2.world [] := by
  obtain ⟨htrees, hstore, hhost, hfiles, _⟩ := deletion_deletes_descendants sheetCodecs
    StoreConnections.openChecks RoutineRuns.plainHost (quietSurroundings fun _ => 0)
  have hkeys : (sessionIds familyGateway.world.tables).Nodup := by decide
  have hfounded : ParentTrees.Founded (links familyGateway.world.tables) := by
    have hfirst : ParentTrees.Founded [(("first" : SessionId), (none : Option SessionId))] :=
      ParentTrees.Founded.nil.concat (by simp) (by simp)
    have hparent : ∀ above, some "first" = some above →
        above ∈ [(("first" : SessionId), (none : Option SessionId))].map Prod.fst := by
      rintro above hname
      cases hname
      decide
    exact hfirst.concat (by decide) hparent
  refine ⟨?_, ?_, ?_, ?_⟩
  · exact (htrees [⟨"first", none, "owner"⟩, ⟨"second", some "first", "owner"⟩] "first"
      (by decide)).2 _ rfl
  · exact (hstore familyGateway.world.tables ["first"] hkeys).2.1
  · exact hhost familyGateway.world ["first", "second"] hkeys
      (fun id _ => hfounded.acyclic id) familyGateway rfl
  · exact hfiles familyGateway.world ["first"] (.origins ["upload"]) (by decide) familyGateway rfl

end Results

end MobiusAgent.DeletedSessions
