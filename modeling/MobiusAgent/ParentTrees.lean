import Mathlib.Data.List.Nodup
import Mathlib.Data.Set.Finite.List
import Mathlib.Logic.Relation
import Mathlib.Order.WellFounded

/-!
# Trees given by parents

Entries that may name a parent, over any type. Nothing is asked of the
parents: they may be missing, and they may form cycles. A set that holds some
roots, only what descends from them and all children of its members is the
set of their descendants; every way to compute it is measured against this.
-/

namespace MobiusAgent.ParentTrees

section Descent

variable {α : Type} {links : List (α × Option α)}

/-- An entry names its parent. -/
def IsChild (links : List (α × Option α)) (parent child : α) : Prop := (child, some parent) ∈ links

/-- The descendants of an entry, itself included. -/
abbrev Descends (links : List (α × Option α)) : α → α → Prop :=
  Relation.ReflTransGen (IsChild links)

/-- The proper ancestors of an entry, found from it upwards. -/
abbrev Below (links : List (α × Option α)) (entry ancestor : α) : Prop :=
  Relation.TransGen (IsChild links) ancestor entry

theorem mem_iff_descends {roots tree : List α} (hroots : ∀ root ∈ roots, root ∈ tree)
    (hsound : ∀ entry ∈ tree, ∃ root ∈ roots, Descends links root entry)
    (hclosed : ∀ parent child, IsChild links parent child → parent ∈ tree → child ∈ tree)
    (entry : α) : entry ∈ tree ↔ ∃ root ∈ roots, Descends links root entry := by
  constructor
  · exact hsound entry
  · rintro ⟨root, hroot, hdescends⟩
    induction hdescends with
    | refl => exact hroots root hroot
    | tail _ hchild ih => exact hclosed _ _ hchild ih

theorem parent_unique {parent other child : α} (hkeys : (links.map Prod.fst).Nodup)
    (h : IsChild links parent child) (hother : IsChild links other child) : parent = other := by
  have hsame : ((child, some parent) : α × Option α) = (child, some other) :=
    List.inj_on_of_nodup_map hkeys h hother rfl
  simpa using hsame

/-- Entries of which none is its own ancestor descend from those of them without an ancestor
among them. -/
theorem topmost_above {selected : List α} (hacyclic : ∀ entry ∈ selected, ¬ Below links entry entry)
    {entry : α} (hentry : entry ∈ selected) :
    ∃ top ∈ selected, (∀ ancestor ∈ selected, ¬ Below links top ancestor) ∧
      Descends links top entry := by
  let Above : {entry // entry ∈ selected} → {entry // entry ∈ selected} → Prop :=
    fun ancestor entry => Below links entry.1 ancestor.1
  have hirrefl : Std.Irrefl Above := ⟨fun entry => hacyclic entry.1 entry.2⟩
  have htrans : IsTrans _ Above := ⟨fun _ _ _ hfirst hsecond => hfirst.trans hsecond⟩
  have hfinite : Finite {entry // entry ∈ selected} := (List.finite_toSet selected).to_subtype
  have hwf : WellFounded Above := Finite.wellFounded_of_trans_of_irrefl Above
  have hclaim : ∀ entry : {entry // entry ∈ selected},
      ∃ top ∈ selected, (∀ ancestor ∈ selected, ¬ Below links top ancestor) ∧
        Descends links top entry.1 := by
    intro entry
    induction entry using hwf.induction with
    | _ entry ih =>
      by_cases htop : ∃ ancestor ∈ selected, Below links entry.1 ancestor
      · obtain ⟨ancestor, hancestor, hbelow⟩ := htop
        obtain ⟨top, hselected, hfree, hdescends⟩ := ih ⟨ancestor, hancestor⟩ hbelow
        exact ⟨top, hselected, hfree, hdescends.trans hbelow.to_reflTransGen⟩
      · refine ⟨entry.1, entry.2, ?_, .refl⟩
        intro ancestor hancestor hbelow
        exact htop ⟨ancestor, hancestor, hbelow⟩
  exact hclaim ⟨entry, hentry⟩

end Descent

section Founding

variable {α : Type} {links : List (α × Option α)}

/-- Every entry comes after its parent, and no entry is repeated. -/
structure Founded (links : List (α × Option α)) : Prop where
  keys : (links.map Prod.fst).Nodup
  before : ∀ earlier entry parent rest, links = earlier ++ (entry, some parent) :: rest →
    parent ∈ earlier.map Prod.fst

theorem Founded.nil : Founded ([] : List (α × Option α)) := by
  refine ⟨List.nodup_nil, ?_⟩
  intro earlier entry parent rest h
  simp at h

theorem Founded.concat (h : Founded links) {entry : α} {parent : Option α}
    (hnew : entry ∉ links.map Prod.fst)
    (hparent : ∀ above, parent = some above → above ∈ links.map Prod.fst) :
    Founded (links ++ [(entry, parent)]) := by
  refine ⟨?_, ?_⟩
  · rw [List.map_append, List.nodup_append]
    refine ⟨h.keys, List.nodup_singleton _, ?_⟩
    intro key hkey other hother hsame
    rw [List.map_singleton, List.mem_singleton] at hother
    rw [hsame, hother] at hkey
    exact hnew hkey
  · intro earlier child above rest hsplit
    rcases List.eq_nil_or_concat' rest with rfl | ⟨middle, last, rfl⟩
    · obtain ⟨hearlier, hlast⟩ := List.append_inj' hsplit rfl
      have hpair := (List.cons.inj hlast).1
      rw [← hearlier]
      exact hparent above (Prod.mk.inj hpair).2
    · have hinner : links = earlier ++ (child, some above) :: middle := by
        have hwhole : links ++ [(entry, parent)] =
            (earlier ++ (child, some above) :: middle) ++ [last] := by
          rw [hsplit]
          simp
        exact (List.append_inj' hwhole rfl).1
      exact h.before earlier child above middle hinner

theorem Founded.filter (h : Founded links) {keep : α → Bool}
    (hclosed : ∀ parent child, IsChild links parent child → keep child = true →
      keep parent = true) : Founded (links.filter fun link => keep link.1) := by
  refine ⟨h.keys.sublist (List.filter_sublist.map _), ?_⟩
  intro earlier child parent rest hsplit
  obtain ⟨first, second, hlinks, hfirst, hsecond⟩ := List.filter_eq_append_iff.mp hsplit
  obtain ⟨dropped, later, rfl, hdropped, hkept, _⟩ := List.filter_eq_cons_iff.mp hsecond
  have hwhole : links = (first ++ dropped) ++ (child, some parent) :: later := by
    rw [hlinks]
    simp
  have hchild : IsChild links parent child := by
    unfold IsChild
    rw [hwhole]
    simp
  have habove := h.before (first ++ dropped) child parent later hwhole
  obtain ⟨link, hlink, hsame⟩ := List.mem_map.mp habove
  have hkeeps : keep link.1 = true := hsame ▸ hclosed parent child hchild hkept
  refine List.mem_map.mpr ⟨link, ?_, hsame⟩
  rw [← hfirst]
  cases List.mem_append.mp hlink with
  | inl hinside => exact List.mem_filter.mpr ⟨hinside, hkeeps⟩
  | inr hgone => exact absurd hkeeps (hdropped link hgone)

theorem Founded.acyclic (h : Founded links) (entry : α) : ¬ Below links entry entry := by
  classical
  have hearlier : ∀ {ancestor entry : α}, Below links entry ancestor →
      (links.map Prod.fst).idxOf ancestor < (links.map Prod.fst).idxOf entry := by
    intro ancestor entry hbelow
    have hstep : ∀ {parent child : α}, IsChild links parent child →
        (links.map Prod.fst).idxOf parent < (links.map Prod.fst).idxOf child := by
      intro parent child hchild
      obtain ⟨before, rest, hsplit⟩ := List.append_of_mem hchild
      have hparent := h.before before child parent rest hsplit
      have hchildNew : child ∉ before.map Prod.fst := by
        have hkeys := h.keys
        rw [hsplit, List.map_append, List.nodup_append] at hkeys
        intro hagain
        exact hkeys.2.2 child hagain child (by simp) rfl
      rw [hsplit, List.map_append, List.map_cons, List.idxOf_append_of_mem hparent,
        List.idxOf_append_of_notMem hchildNew, List.idxOf_cons_self]
      exact Nat.lt_add_right _ (List.idxOf_lt_length_of_mem hparent)
    induction hbelow with
    | single hchild => exact hstep hchild
    | tail _ hchild ih => exact ih.trans (hstep hchild)
  intro hbelow
  exact absurd (hearlier hbelow) (Nat.lt_irrefl _)

end Founding

section Growth

variable {α : Type} [DecidableEq α] {links : List (α × Option α)}

/-- One entry is added if its parent is there. -/
def addEntry (tree : List α) (link : α × Option α) : List α :=
  if tree.contains link.1 || !link.2.any tree.contains then tree else tree ++ [link.1]

def pass (links : List (α × Option α)) (tree : List α) : List α := links.foldl addEntry tree

/-- Passes until one adds nothing. -/
def grow (links : List (α × Option α)) : Nat → List α → List α
  | 0, tree => tree
  | fuel + 1, tree =>
    let grown := pass links tree
    if grown.length = tree.length then tree else grow links fuel grown

/-- A tree with its root, where every other entry comes after its parent. -/
structure Rooted (links : List (α × Option α)) (root : α) (tree : List α) : Prop where
  nodup : tree.Nodup
  top : root ∈ tree
  after : ∀ before entry rest, tree = before ++ entry :: rest →
    entry = root ∨ ∃ parent ∈ before, IsChild links parent entry

omit [DecidableEq α] in
theorem Rooted.single (root : α) : Rooted links root [root] := by
  refine ⟨List.nodup_singleton root, List.mem_singleton_self root, ?_⟩
  intro before entry rest h
  cases before with
  | nil => exact .inl (List.cons.inj h).1.symm
  | cons first before => simp at h

theorem addEntry_of_new {tree : List α} {entry parent : α} (hnew : entry ∉ tree)
    (hparent : parent ∈ tree) : addEntry tree (entry, some parent) = tree ++ [entry] := by
  unfold addEntry
  simp [hnew, hparent]

theorem addEntry_cases (tree : List α) (link : α × Option α) :
    addEntry tree link = tree ∨ ∃ parent ∈ tree, link.2 = some parent ∧ link.1 ∉ tree ∧
      addEntry tree link = tree ++ [link.1] := by
  obtain ⟨entry, parent⟩ := link
  cases parent with
  | none => exact .inl (by simp [addEntry])
  | some parent =>
    by_cases hentry : entry ∈ tree
    · exact .inl (by simp [addEntry, hentry])
    · by_cases hparent : parent ∈ tree
      · exact .inr ⟨parent, hparent, rfl, hentry, addEntry_of_new hentry hparent⟩
      · exact .inl (by simp [addEntry, hparent])

theorem prefix_addEntry (tree : List α) (link : α × Option α) : tree <+: addEntry tree link := by
  cases addEntry_cases tree link with
  | inl hsame => rw [hsame]
  | inr hadded =>
    obtain ⟨_, _, _, _, hadded⟩ := hadded
    rw [hadded]
    exact List.prefix_append _ _

theorem Rooted.addEntry {root : α} {tree : List α} {link : α × Option α}
    (h : Rooted links root tree) (hlink : link ∈ links) : Rooted links root (addEntry tree link) := by
  cases addEntry_cases tree link with
  | inl hsame => rwa [hsame]
  | inr hadded =>
    obtain ⟨parent, hparent, hnamed, hnew, hadded⟩ := hadded
    rw [hadded]
    refine ⟨?_, List.mem_append_left _ h.top, ?_⟩
    · rw [List.nodup_append]
      refine ⟨h.nodup, List.nodup_singleton _, ?_⟩
      intro entry hentry other hother hsame
      rw [List.mem_singleton.mp hother] at hsame
      exact hnew (hsame ▸ hentry)
    · intro before entry rest hsplit
      cases List.eq_nil_or_concat' rest with
      | inl hempty =>
        subst hempty
        obtain ⟨hbefore, hlast⟩ := List.append_inj' hsplit rfl
        have hentry : link.1 = entry := (List.cons.inj hlast).1
        refine .inr ⟨parent, hbefore ▸ hparent, ?_⟩
        have hpair : link = (entry, some parent) := Prod.ext hentry hnamed
        rw [hpair] at hlink
        exact hlink
      | inr hmore =>
        obtain ⟨middle, last, hmore⟩ := hmore
        have hinner : tree = before ++ entry :: middle := by
          have hwhole : tree ++ [link.1] = (before ++ entry :: middle) ++ [last] := by
            rw [hsplit, hmore]
            simp
          exact (List.append_inj' hwhole rfl).1
        exact h.after before entry middle hinner

theorem Rooted.foldl {root : α} {tree : List α} {some : List (α × Option α)}
    (h : Rooted links root tree) (hsome : some ⊆ links) :
    Rooted links root (some.foldl ParentTrees.addEntry tree) := by
  induction some generalizing tree with
  | nil => exact h
  | cons link rest ih =>
    exact ih (h.addEntry (hsome List.mem_cons_self))
      fun _ hmem => hsome (List.mem_cons_of_mem _ hmem)

theorem prefix_foldl (some : List (α × Option α)) (tree : List α) :
    tree <+: some.foldl addEntry tree := by
  induction some generalizing tree with
  | nil => exact List.prefix_rfl
  | cons link rest ih => exact (prefix_addEntry tree link).trans (ih _)

theorem addEntry_of_foldl {some : List (α × Option α)} {tree : List α}
    (h : (some.foldl addEntry tree).length = tree.length) :
    ∀ link ∈ some, addEntry tree link = tree := by
  induction some with
  | nil => simp
  | cons link rest ih =>
    have hfirst := prefix_addEntry tree link
    have hrest := prefix_foldl rest (addEntry tree link)
    rw [List.foldl_cons] at h
    have hsame : addEntry tree link = tree := by
      refine (hfirst.eq_of_length ?_).symm
      have hone := hfirst.length_le
      have htwo := hrest.length_le
      omega
    rw [hsame] at h
    intro other hother
    cases List.mem_cons.mp hother with
    | inl hhead => rwa [hhead]
    | inr htail => exact ih h other htail

theorem closed_of_pass {tree : List α} (h : (pass links tree).length = tree.length)
    {parent child : α} (hchild : IsChild links parent child) (hparent : parent ∈ tree) :
    child ∈ tree := by
  by_contra hnew
  have hsame := addEntry_of_foldl h _ hchild
  rw [addEntry_of_new hnew hparent] at hsame
  simpa using congrArg List.length hsame

theorem inside_of_foldl {entries tree : List α} {some : List (α × Option α)}
    (hinside : tree ⊆ entries) (hsome : ∀ link ∈ some, link.1 ∈ entries) :
    some.foldl addEntry tree ⊆ entries := by
  induction some generalizing tree with
  | nil => exact hinside
  | cons link rest ih =>
    refine ih ?_ (fun other hother => hsome other (List.mem_cons_of_mem _ hother))
    cases addEntry_cases tree link with
    | inl hsame => rwa [hsame]
    | inr hadded =>
      obtain ⟨_, _, _, _, hadded⟩ := hadded
      rw [hadded]
      intro entry hentry
      cases List.mem_append.mp hentry with
      | inl hold => exact hinside hold
      | inr hlast =>
        rw [List.mem_singleton.mp hlast]
        exact hsome link List.mem_cons_self

theorem grow_spec {root : α} {entries tree : List α} {fuel : Nat} (h : Rooted links root tree)
    (hinside : tree ⊆ entries) (hentries : ∀ link ∈ links, link.1 ∈ entries)
    (hfuel : entries.length < fuel + tree.length) :
    Rooted links root (grow links fuel tree) ∧
      ∀ parent child, IsChild links parent child → parent ∈ grow links fuel tree →
        child ∈ grow links fuel tree := by
  induction fuel generalizing tree with
  | zero =>
    have hlength := (h.nodup.subperm hinside).length_le
    omega
  | succ fuel ih =>
    unfold grow
    dsimp only
    split_ifs with hstable
    · exact ⟨h, fun parent child hchild hparent => closed_of_pass hstable hchild hparent⟩
    · have hrooted : Rooted links root (pass links tree) := h.foldl fun _ hmem => hmem
      have hlength := (prefix_foldl links tree).length_le
      refine ih hrooted (inside_of_foldl hinside hentries) ?_
      · have hmore : tree.length < (pass links tree).length :=
          lt_of_le_of_ne hlength (Ne.symm hstable)
        omega

omit [DecidableEq α] in
theorem Rooted.descends {root entry : α} {tree : List α} (h : Rooted links root tree)
    (hentry : entry ∈ tree) : Descends links root entry := by
  obtain ⟨before, rest, hsplit⟩ := List.append_of_mem hentry
  induction hlength : before.length using Nat.strong_induction_on
    generalizing before entry rest with
  | _ length ih =>
    rcases h.after before entry rest hsplit with hroot | ⟨parent, hparent, hchild⟩
    · rw [hroot]
    · obtain ⟨first, second, hbefore⟩ := List.append_of_mem hparent
      have hshorter : first.length < length := by
        rw [← hlength, hbefore, List.length_append, List.length_cons]
        omega
      have hinner : tree = first ++ parent :: (second ++ entry :: rest) := by
        rw [hsplit, hbefore]
        simp
      have hmember : parent ∈ tree := by
        rw [hinner]
        simp
      exact (ih first.length hshorter hmember first _ hinner rfl).tail hchild

/-- A tree that was grown long enough holds exactly the descendants of its root, each once and
each after its parent. -/
theorem grow_descends {root : α} {entries : List α} (hroot : root ∈ entries)
    (hentries : ∀ link ∈ links, link.1 ∈ entries) :
    Rooted links root (grow links entries.length [root]) ∧
      ∀ entry, entry ∈ grow links entries.length [root] ↔ Descends links root entry := by
  have hinside : [root] ⊆ entries := by simpa using hroot
  obtain ⟨hrooted, hclosed⟩ :=
    grow_spec (.single root) hinside hentries (by simp : entries.length < entries.length + _)
  refine ⟨hrooted, ?_⟩
  intro entry
  constructor
  · exact hrooted.descends
  · intro hdescends
    induction hdescends with
    | refl => exact hrooted.top
    | tail _ hchild ih => exact hclosed _ _ hchild ih

end Growth

section Rounds

variable {α : Type} {change : List α → List α} {P : List α → Prop}

/-- Rounds that only extend a bounded list come to an end within the bound. -/
theorem iterate_stable {bound : Nat} (hkeep : ∀ tree, P tree → P (change tree))
    (hbegins : ∀ tree, P tree → tree <+: change tree)
    (hbound : ∀ tree, P tree → tree.length ≤ bound) {tree : List α} (h : P tree) :
    P (change^[bound] tree) ∧ change (change^[bound] tree) = change^[bound] tree := by
  have hrounds : ∀ rounds, P (change^[rounds] tree) ∧
      (change (change^[rounds] tree) = change^[rounds] tree ∨
        rounds ≤ (change^[rounds] tree).length) := by
    intro rounds
    induction rounds with
    | zero => exact ⟨h, .inr (Nat.zero_le _)⟩
    | succ rounds ih =>
      rw [Function.iterate_succ_apply']
      obtain ⟨hholds, hgrown⟩ := ih
      refine ⟨hkeep _ hholds, ?_⟩
      by_cases hstable : change (change^[rounds] tree) = change^[rounds] tree
      · exact .inl (by rw [hstable, hstable])
      · have hlength := hgrown.resolve_left hstable
        have hextended := hbegins _ hholds
        have hmore : (change^[rounds] tree).length ≠ (change (change^[rounds] tree)).length := by
          intro hsame
          exact hstable (hextended.eq_of_length hsame).symm
        have hle := hextended.length_le
        exact .inr (by omega)
  obtain ⟨hholds, hgrown⟩ := hrounds bound
  refine ⟨hholds, ?_⟩
  have hextended := hbegins _ hholds
  have hnext := hbound _ (hkeep _ hholds)
  have hle := hextended.length_le
  rcases hgrown with hstable | hlength
  · exact hstable
  · exact (hextended.eq_of_length (by omega)).symm

end Rounds

section Walk

variable {α : Type} [DecidableEq α]

/-- Walk up the parents until one is wanted, is missing or was visited before. -/
def reaches (parentOf : α → Option α) (wanted : List α) : Nat → List α → Option α → Bool
  | 0, _, _ => false
  | _ + 1, _, none => false
  | fuel + 1, visited, some parent =>
    if visited.contains parent then false
    else if wanted.contains parent then true
    else reaches parentOf wanted fuel (parent :: visited) (parentOf parent)

variable {parentOf : α → Option α} {wanted everything : List α}

def Met (parentOf : α → Option α) (start : Option α) (entry : α) : Prop :=
  ∃ first, start = some first ∧
    Relation.ReflTransGen (fun child parent => parentOf child = some parent) first entry

omit [DecidableEq α] in
theorem met_some {first entry : α} :
    Met parentOf (some first) entry ↔ first = entry ∨ Met parentOf (parentOf first) entry := by
  constructor
  · rintro ⟨_, hsame, hup⟩
    cases hsame
    cases Relation.ReflTransGen.cases_head hup with
    | inl hhere => exact .inl hhere
    | inr hmore =>
      obtain ⟨parent, hparent, hrest⟩ := hmore
      exact .inr ⟨parent, hparent, hrest⟩
  · rintro (rfl | ⟨parent, hparent, hrest⟩)
    · exact ⟨first, rfl, .refl⟩
    · exact ⟨first, rfl, .head hparent hrest⟩

/-- A walk: the entries visited are not wanted, and above them comes where the walk stands. -/
structure Walking (parentOf : α → Option α) (wanted everything visited : List α)
    (current : Option α) : Prop where
  nodup : visited.Nodup
  known : visited ⊆ everything
  unwanted : ∀ entry ∈ visited, entry ∉ wanted
  /-- Above an entry comes one that was visited, or where the walk stands. -/
  above : ∀ entry ∈ visited, ∀ parent, parentOf entry = some parent →
    parent ∈ visited ∨ current = some parent

omit [DecidableEq α] in
theorem Walking.no_wanted {visited : List α} {parent : α}
    (h : Walking parentOf wanted everything visited (some parent)) (hseen : parent ∈ visited)
    {entry : α} (hmet : Met parentOf (some parent) entry) : entry ∉ wanted := by
  obtain ⟨first, hfirst, hup⟩ := hmet
  cases hfirst
  have hvisited : entry ∈ visited := by
    induction hup with
    | refl => exact hseen
    | tail _ hparent ih =>
      cases h.above _ ih _ hparent with
      | inl hagain => exact hagain
      | inr hcurrent => exact Option.some.inj hcurrent ▸ hseen
  exact h.unwanted entry hvisited

/-- With more rounds than entries a walk finds out whether a wanted entry is met. -/
theorem reaches_walking {fuel : Nat} {visited : List α} {current : Option α}
    (h : Walking parentOf wanted everything visited current)
    (hcurrent : ∀ parent, current = some parent → parent ∈ everything)
    (hparents : ∀ entry parent, parentOf entry = some parent → parent ∈ everything)
    (hfuel : everything.length < fuel + visited.length) :
    reaches parentOf wanted fuel visited current = true ↔
      ∃ entry ∈ wanted, Met parentOf current entry := by
  induction fuel generalizing visited current with
  | zero =>
    have hlength := (h.nodup.subperm h.known).length_le
    omega
  | succ fuel ih =>
    cases current with
    | none =>
      simp [reaches, Met]
    | some parent =>
      unfold reaches
      split_ifs with hseen hwanted
      · rw [List.contains_iff_mem] at hseen
        simp only [false_iff, not_exists, not_and]
        intro entry hentry hmet
        exact h.no_wanted hseen hmet hentry
      · rw [List.contains_iff_mem] at hwanted
        simp only [true_iff]
        exact ⟨parent, hwanted, parent, rfl, .refl⟩
      · rw [List.contains_iff_mem] at hseen hwanted
        have hnext : Walking parentOf wanted everything (parent :: visited) (parentOf parent) := by
          refine ⟨List.nodup_cons.mpr ⟨hseen, h.nodup⟩, ?_, ?_, ?_⟩
          · exact List.cons_subset.mpr ⟨hcurrent parent rfl, h.known⟩
          · intro entry hentry
            cases List.mem_cons.mp hentry with
            | inl hhere => exact hhere ▸ hwanted
            | inr hold => exact h.unwanted entry hold
          · intro entry hentry above habove
            cases List.mem_cons.mp hentry with
            | inl hhere => exact .inr (hhere ▸ habove)
            | inr hold =>
              cases h.above entry hold above habove with
              | inl hagain => exact .inl (List.mem_cons_of_mem _ hagain)
              | inr hcurrent => exact .inl (Option.some.inj hcurrent ▸ List.mem_cons_self)
        have hmore : everything.length < fuel + (parent :: visited).length := by
          rw [List.length_cons]
          omega
        rw [ih hnext (hparents parent) hmore]
        constructor
        · rintro ⟨entry, hentry, hmet⟩
          exact ⟨entry, hentry, met_some.mpr (.inr hmet)⟩
        · rintro ⟨entry, hentry, hmet⟩
          cases met_some.mp hmet with
          | inl hhere => exact absurd (hhere ▸ hentry) hwanted
          | inr hmore => exact ⟨entry, hentry, hmore⟩

theorem reaches_iff {fuel : Nat} {start : Option α}
    (hstart : ∀ parent, start = some parent → parent ∈ everything)
    (hparents : ∀ entry parent, parentOf entry = some parent → parent ∈ everything)
    (hfuel : everything.length < fuel) :
    reaches parentOf wanted fuel [] start = true ↔ ∃ entry ∈ wanted, Met parentOf start entry := by
  have hwalking : Walking parentOf wanted everything [] start :=
    ⟨List.nodup_nil, List.nil_subset _, by simp, by simp⟩
  exact reaches_walking hwalking hstart hparents (by simpa using hfuel)

end Walk

end MobiusAgent.ParentTrees
