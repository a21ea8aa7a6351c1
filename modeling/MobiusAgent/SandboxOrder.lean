import MobiusAgent.SandboxGrants

/-!
# The order of the builders

On one host, whether some builder calls succeed depends on what each is on its
own and on what all of them grant and deny together. Two sandboxes with the
same grants and the same temporary directory accept the same paths, although
the roots are looked through in the order of the calls.
-/

namespace MobiusAgent.SandboxOrder

open ProtocolEvents CheckpointValidation FileTrees SandboxPolicy SandboxFiles SandboxGrants

section Grants

variable (host : Host)

def noGrants : Grants := ⟨[], [], []⟩

/-- What some calls grant and deny together. -/
def afterAll (grants : Grants) (builders : List Builder) : Grants :=
  builders.foldl (Grants.after host) grants

/-- The grants of two together. -/
def Grants.add (first second : Grants) : Grants :=
  ⟨first.workspaces ++ second.workspaces, first.readRoots ++ second.readRoots,
    first.denied ++ second.denied⟩

theorem after_eq_add (grants : Grants) (builder : Builder) :
    grants.after host builder = Grants.add grants (noGrants.after host builder) := by
  cases builder <;> simp [Grants.after, Grants.add, noGrants]

/-- Two grants with the same roots and denied paths. -/
structure Grants.Same (first second : Grants) : Prop where
  workspaces : ∀ path, path ∈ first.workspaces ↔ path ∈ second.workspaces
  readRoots : ∀ path, path ∈ first.readRoots ↔ path ∈ second.readRoots
  denied : ∀ path, path ∈ first.denied ↔ path ∈ second.denied

theorem mem_afterAll {grants : Grants} {builders : List Builder} {path : Location}
    (part : Grants → List Location)
    (hadd : ∀ first second, part (Grants.add first second) = part first ++ part second) :
    path ∈ part (afterAll host grants builders) ↔
      path ∈ part grants ∨ ∃ builder ∈ builders, path ∈ part (noGrants.after host builder) := by
  induction builders generalizing grants with
  | nil => simp [afterAll]
  | cons builder rest ih =>
    have hcons : afterAll host grants (builder :: rest) =
        afterAll host (grants.after host builder) rest := rfl
    rw [hcons, ih, after_eq_add, hadd, List.mem_append, List.exists_mem_cons_iff, or_assoc]

theorem afterAll_perm {grants : Grants} {first second : List Builder} (h : first.Perm second) :
    Grants.Same (afterAll host grants first) (afterAll host grants second) := by
  have hsame : ∀ (part : Grants → List Location),
      (∀ one other, part (Grants.add one other) = part one ++ part other) →
      ∀ path, path ∈ part (afterAll host grants first) ↔
        path ∈ part (afterAll host grants second) := by
    intro part hadd path
    rw [mem_afterAll host part hadd, mem_afterAll host part hadd]
    have hcalls : (∃ builder ∈ first, path ∈ part (noGrants.after host builder)) ↔
        ∃ builder ∈ second, path ∈ part (noGrants.after host builder) := by
      simp [h.mem_iff]
    rw [hcalls]
  exact ⟨hsame Grants.workspaces fun _ _ => rfl, hsame Grants.readRoots fun _ _ => rfl,
    hsame Grants.denied fun _ _ => rfl⟩

end Grants

section Success

variable {host : Host} {sandbox next : LocalSandbox}

/-- A call that succeeds where nothing overlaps. -/
inductive Sound (host : Host) (root : Location) : Builder → Prop where
  | denyRead {path : FilePath} {location : Location} {node : FileNode}
      (hcanonical : canonicalize host path = .ok location)
      (hnode : host.tree.lookup location = some node)
      (hkind : (node.isDir || node.isFile) = true) : Sound host root (.denyRead path)
  | allowWorkspaceRoot {path : FilePath} {location : Location} {directory : Nat}
      (hcanonical : canonicalize host path = .ok location)
      (hnode : host.tree.lookup location = some (.directory directory))
      (hpublic : PublicRoot host location) : Sound host root (.allowWorkspaceRoot path)
  /-- A public directory is granted to read. -/
  | allowReadRoot {path : FilePath} {location : Location} {directory : Nat}
      (hcanonical : canonicalize host path = .ok location)
      (hnode : host.tree.lookup location = some (.directory directory))
      (hpublic : PublicRoot host location) : Sound host root (.allowReadRoot path)
  | shareTemporaryDirectory {owner : LocalSandbox} :
      Sound host root (.shareTemporaryDirectory owner)
  /-- A child can be made at the root. -/
  | isolatedExecution {session : String} {child : LocalSandbox}
      (h : LocalSandbox.new host (.ofLocation root) session = .ok child) :
      Sound host root (.isolatedExecution session)

/-- Nothing granted overlaps what is denied. -/
def Separate (root : Location) (grants : Grants) : Prop :=
  ∀ path, path = root ∨ path ∈ grants.workspaces ∨ path ∈ grants.readRoots →
    ∀ denied ∈ grants.denied, pathsOverlap path denied = false

/-- A sandbox with all that was granted and denied, and nothing else. -/
structure Complete (host : Host) (sandbox : LocalSandbox) (grants : Grants) : Prop where
  inPlace : InPlace host sandbox
  guarded : Guarded host sandbox grants
  recorded : Recorded sandbox grants
  workspaces : ∀ path ∈ grants.workspaces, ∃ root ∈ sandbox.writableRoots, root.path = path
  readRoots : ∀ path ∈ grants.readRoots, ∃ root ∈ sandbox.policy.readRoots, root.path = path

variable {grants : Grants} {builder : Builder} {builders : List Builder}

theorem Complete.separate (h : Complete host sandbox grants) : Separate sandbox.root grants := by
  intro path hpath place hplace
  have hroot : ∃ root ∈ sandbox.readableRoots, root.path = path := by
    rcases hpath with rfl | hpath | hpath
    · exact ⟨sandbox.pinned, mem_readableRoots.mpr (.inl rfl), rfl⟩
    · obtain ⟨root, hmem, hsame⟩ := h.workspaces path hpath
      exact ⟨root, List.mem_append_left _ hmem, hsame⟩
    · obtain ⟨root, hmem, hsame⟩ := h.readRoots path hpath
      exact ⟨root, List.mem_append_right _ hmem, hsame⟩
  obtain ⟨root, hmem, rfl⟩ := hroot
  obtain ⟨denied, hdenied, hcovers⟩ := h.guarded.covered place hplace
  have habove : denied.path <+: place := by
    rcases hcovers with hsame | ⟨_, hbegins⟩
    · rw [hsame]
    · exact hbegins
  have hapart := h.guarded.apart root hmem denied hdenied
  rw [← Bool.not_eq_true] at hapart ⊢
  intro hoverlap
  refine hapart ?_
  rcases pathsOverlap_iff.mp hoverlap with hunder | hunder
  · exact pathsOverlap_iff.mpr (.inl (habove.trans hunder))
  · exact pathsOverlap_of_start hunder habove

theorem Complete.new {root : FilePath} {session : String}
    (h : LocalSandbox.new host root session = .ok sandbox) : Complete host sandbox noGrants := by
  have hbuilt : Built Unmoved host sandbox noGrants := .new h
  exact ⟨new_inPlace h, hbuilt.guarded, hbuilt.recorded, by simp [noGrants], by simp [noGrants]⟩

theorem inPlace_root (h : InPlace host sandbox) :
    host.tree.lookup sandbox.root = some (.directory sandbox.policy.rootDir) :=
  h.roots sandbox.pinned (mem_readableRoots.mpr (.inl rfl))

theorem child_root {session : String} {child : LocalSandbox} (h : InPlace host sandbox)
    (hchild : LocalSandbox.new host (.ofLocation sandbox.root) session = .ok child) :
    child.root = sandbox.root := by
  obtain ⟨location, directory, temp, hcanonical, _, _, _, rfl⟩ := new_ok_iff.mp hchild
  have hsame := canonicalize_location (inPlace_root h) rfl
  rw [hcanonical] at hsame
  exact Except.ok.inj hsame

theorem build_pinned (hplace : InPlace host sandbox) (h : build host sandbox builder = .ok next) :
    next.pinned = sandbox.pinned := by
  cases builder with
  | denyRead path =>
    obtain ⟨location, node, _, _, _, _, rfl⟩ := denyRead_ok_iff.mp h
    exact (denying_rest sandbox location node.isDir).1
  | allowWorkspaceRoot path =>
    obtain ⟨root, _, rfl⟩ := allowWorkspaceRoot_ok_iff.mp h
    exact (withWorkspaceRoot_rest sandbox root).1
  | allowReadRoot path =>
    obtain ⟨root, _, rfl⟩ := allowReadRoot_ok_iff.mp h
    exact (withReadRoot_rest sandbox root).1
  | shareTemporaryDirectory owner =>
    cases h
    rfl
  | isolatedExecution session =>
    obtain ⟨_, child, hchild, rfl⟩ := isolatedExecution_ok_iff.mp h
    unfold LocalSandbox.pinned
    rw [child_root hplace hchild]

theorem withWorkspaceRoot_has (sandbox : LocalSandbox) (root : PinnedRoot) :
    (∃ other ∈ (sandbox.withWorkspaceRoot root).writableRoots, other.path = root.path) ∧
      ∀ other ∈ sandbox.writableRoots, other ∈ (sandbox.withWorkspaceRoot root).writableRoots := by
  unfold LocalSandbox.withWorkspaceRoot
  split_ifs with hknown
  · refine ⟨?_, fun _ hother => hother⟩
    rcases (Bool.or_eq_true _ _).mp hknown with hroot | hother
    · exact ⟨sandbox.pinned, List.mem_cons_self, (beq_iff_eq.mp hroot).symm⟩
    · obtain ⟨other, hmem, hsame⟩ := List.any_eq_true.mp hother
      exact ⟨other, List.mem_cons_of_mem _ hmem, beq_iff_eq.mp hsame⟩
  · constructor
    · exact ⟨root, by simp [LocalSandbox.writableRoots], rfl⟩
    · intro other hother
      rcases List.mem_cons.mp hother with rfl | hother
      · exact List.mem_cons_self
      · exact List.mem_cons_of_mem _ (List.mem_append_left _ hother)

theorem withReadRoot_has (sandbox : LocalSandbox) (root : PinnedRoot) :
    (∃ other ∈ (sandbox.withReadRoot root).policy.readRoots, other.path = root.path) ∧
      ∀ other ∈ sandbox.policy.readRoots,
        other ∈ (sandbox.withReadRoot root).policy.readRoots := by
  unfold LocalSandbox.withReadRoot
  split_ifs with hknown
  · obtain ⟨other, hmem, hsame⟩ := List.any_eq_true.mp hknown
    exact ⟨⟨other, hmem, beq_iff_eq.mp hsame⟩, fun _ hother => hother⟩
  · exact ⟨⟨root, by simp, rfl⟩, fun _ hother => List.mem_append_left _ hother⟩

theorem Complete.call (hcomplete : Complete host sandbox grants)
    (h : build host sandbox builder = .ok next) :
    Complete host next (grants.after host builder) := by
  refine ⟨hcomplete.inPlace.call h, hcomplete.guarded.call h, hcomplete.recorded.call h, ?_, ?_⟩
  · cases builder with
    | denyRead path =>
      obtain ⟨location, node, _, _, _, _, rfl⟩ := denyRead_ok_iff.mp h
      obtain ⟨hpinned, hworkspace, _, _⟩ := denying_rest sandbox location node.isDir
      have hwritable : (sandbox.denying location node.isDir).writableRoots =
          sandbox.writableRoots := by
        rw [LocalSandbox.writableRoots, hpinned, hworkspace, LocalSandbox.writableRoots]
      rw [hwritable]
      exact hcomplete.workspaces
    | allowWorkspaceRoot path =>
      obtain ⟨root, hgrant, rfl⟩ := allowWorkspaceRoot_ok_iff.mp h
      obtain ⟨hadded, hkept⟩ := withWorkspaceRoot_has sandbox root
      intro place hplace
      have hcases : place ∈ grants.workspaces ∨ place = root.path := by
        simpa [Grants.after, hgrant.canonical, Except.toOption] using hplace
      rcases hcases with hplace | rfl
      · obtain ⟨other, hmem, hsame⟩ := hcomplete.workspaces place hplace
        exact ⟨other, hkept other hmem, hsame⟩
      · exact hadded
    | allowReadRoot path =>
      obtain ⟨root, hgrant, rfl⟩ := allowReadRoot_ok_iff.mp h
      obtain ⟨hpinned, hworkspace, _, _⟩ := withReadRoot_rest sandbox root
      have hwritable : (sandbox.withReadRoot root).writableRoots = sandbox.writableRoots := by
        rw [LocalSandbox.writableRoots, hpinned, hworkspace, LocalSandbox.writableRoots]
      rw [hwritable]
      exact hcomplete.workspaces
    | shareTemporaryDirectory owner =>
      cases h
      exact hcomplete.workspaces
    | isolatedExecution session =>
      have hpinned := build_pinned hcomplete.inPlace h
      obtain ⟨_, child, _, rfl⟩ := isolatedExecution_ok_iff.mp h
      rw [LocalSandbox.writableRoots, hpinned]
      exact hcomplete.workspaces
  · cases builder with
    | denyRead path =>
      obtain ⟨location, node, _, _, _, _, rfl⟩ := denyRead_ok_iff.mp h
      rw [(denying_rest sandbox location node.isDir).2.2.1]
      exact hcomplete.readRoots
    | allowWorkspaceRoot path =>
      obtain ⟨root, hgrant, rfl⟩ := allowWorkspaceRoot_ok_iff.mp h
      rw [(withWorkspaceRoot_rest sandbox root).2.1]
      exact hcomplete.readRoots
    | allowReadRoot path =>
      obtain ⟨root, hgrant, rfl⟩ := allowReadRoot_ok_iff.mp h
      obtain ⟨hadded, hkept⟩ := withReadRoot_has sandbox root
      intro place hplace
      have hcases : place ∈ grants.readRoots ∨ place = root.path := by
        simpa [Grants.after, hgrant.canonical, Except.toOption] using hplace
      rcases hcases with hplace | rfl
      · obtain ⟨other, hmem, hsame⟩ := hcomplete.readRoots place hplace
        exact ⟨other, hkept other hmem, hsame⟩
      · exact hadded
    | shareTemporaryDirectory owner =>
      cases h
      exact hcomplete.readRoots
    | isolatedExecution session =>
      obtain ⟨_, child, _, rfl⟩ := isolatedExecution_ok_iff.mp h
      exact hcomplete.readRoots

/-- A call succeeds iff it could on its own and overlaps nothing. -/
theorem build_succeeds_iff (hcomplete : Complete host sandbox grants) :
    (∃ next, build host sandbox builder = .ok next) ↔
      Sound host sandbox.root builder ∧ Separate sandbox.root (grants.after host builder) := by
  constructor
  · rintro ⟨next, h⟩
    have hpinned := build_pinned hcomplete.inPlace h
    have hroot : next.root = sandbox.root := congrArg PinnedRoot.path hpinned
    refine ⟨?_, hroot ▸ (hcomplete.call h).separate⟩
    cases builder with
    | denyRead path =>
      obtain ⟨location, node, hcanonical, hnode, hkind, _, _⟩ := denyRead_ok_iff.mp h
      exact .denyRead hcanonical hnode hkind
    | allowWorkspaceRoot path =>
      obtain ⟨root, hgrant, _⟩ := allowWorkspaceRoot_ok_iff.mp h
      exact .allowWorkspaceRoot hgrant.canonical hgrant.found hgrant.isPublic
    | allowReadRoot path =>
      obtain ⟨root, hgrant, _⟩ := allowReadRoot_ok_iff.mp h
      exact .allowReadRoot hgrant.canonical hgrant.found hgrant.isPublic
    | shareTemporaryDirectory owner => exact .shareTemporaryDirectory
    | isolatedExecution session =>
      obtain ⟨_, child, hchild, _⟩ := isolatedExecution_ok_iff.mp h
      exact .isolatedExecution hchild
  · rintro ⟨hsound, hseparate⟩
    have hgranted : ∀ denied ∈ sandbox.policy.deniedReads,
        denied.path ∈ grants.denied := hcomplete.recorded.denied
    cases hsound with
    | denyRead hcanonical hnode hkind =>
      rename_i path location node
      have hdenied : location ∈ (grants.after host (.denyRead path)).denied := by
        simp [Grants.after, hcanonical, Except.toOption]
      refine ⟨_, denyRead_ok_iff.mpr ⟨location, node, hcanonical, hnode, hkind, ?_, rfl⟩⟩
      intro root hroot
      refine hseparate root.path ?_ location hdenied
      rcases mem_readableRoots.mp hroot with rfl | hroot | hroot
      · exact .inl rfl
      · exact .inr (.inl (hcomplete.recorded.workspaces root hroot))
      · exact .inr (.inr (hcomplete.recorded.readRoots root hroot))
    | allowWorkspaceRoot hcanonical hnode hpublic =>
      rename_i path location directory
      have hadded : location ∈ (grants.after host (.allowWorkspaceRoot path)).workspaces := by
        simp [Grants.after, hcanonical, Except.toOption]
      exact ⟨_, allowWorkspaceRoot_ok_iff.mpr ⟨⟨location, directory⟩, ⟨hcanonical, hnode, hpublic,
        fun denied hmem => hseparate location (.inr (.inl hadded)) denied.path
          (hgranted denied hmem)⟩, rfl⟩⟩
    | allowReadRoot hcanonical hnode hpublic =>
      rename_i path location directory
      have hadded : location ∈ (grants.after host (.allowReadRoot path)).readRoots := by
        simp [Grants.after, hcanonical, Except.toOption]
      exact ⟨_, allowReadRoot_ok_iff.mpr ⟨⟨location, directory⟩, ⟨hcanonical, hnode, hpublic,
        fun denied hmem => hseparate location (.inr (.inr hadded)) denied.path
          (hgranted denied hmem)⟩, rfl⟩⟩
    | shareTemporaryDirectory => exact ⟨_, rfl⟩
    | isolatedExecution hchild =>
      refine ⟨_, isolatedExecution_ok_iff.mpr ⟨validateRoots_ok_iff.mpr ?_, _, hchild, rfl⟩⟩
      intro root hroot
      have hlookup := hcomplete.inPlace.roots root (List.mem_append_left _ hroot)
      exact validateRoot_ok_iff.mpr ⟨_, metadata_location hlookup rfl, rfl⟩

theorem Separate.before {root : Location} (h : Separate root (afterAll host grants builders)) :
    Separate root grants := by
  intro path hpath denied hdenied
  have hworkspaces := @mem_afterAll host grants builders path Grants.workspaces fun _ _ => rfl
  have hreads := @mem_afterAll host grants builders path Grants.readRoots fun _ _ => rfl
  have hdenials := @mem_afterAll host grants builders denied Grants.denied fun _ _ => rfl
  refine h path ?_ denied (hdenials.mpr (.inl hdenied))
  rcases hpath with hpath | hpath | hpath
  · exact .inl hpath
  · exact .inr (.inl (hworkspaces.mpr (.inl hpath)))
  · exact .inr (.inr (hreads.mpr (.inl hpath)))

theorem buildAll_complete (hcomplete : Complete host sandbox grants)
    (h : buildAll host sandbox builders = .ok next) :
    Complete host next (afterAll host grants builders) ∧ next.pinned = sandbox.pinned := by
  induction builders generalizing sandbox grants with
  | nil =>
    cases h
    exact ⟨hcomplete, rfl⟩
  | cons builder rest ih =>
    obtain ⟨middle, hmiddle, hrest⟩ := bind_ok h
    obtain ⟨hnext, hpinned⟩ := ih (hcomplete.call hmiddle) hrest
    exact ⟨hnext, hpinned.trans (build_pinned hcomplete.inPlace hmiddle)⟩

/-- Calls in a row succeed iff each could on its own and nothing overlaps in the end. -/
theorem buildAll_succeeds_iff (hcomplete : Complete host sandbox grants) :
    (∃ next, buildAll host sandbox builders = .ok next) ↔
      (∀ builder ∈ builders, Sound host sandbox.root builder) ∧
        Separate sandbox.root (afterAll host grants builders) := by
  induction builders generalizing sandbox grants with
  | nil =>
    constructor
    · intro _
      exact ⟨by simp, hcomplete.separate⟩
    · intro _
      exact ⟨sandbox, rfl⟩
  | cons builder rest ih =>
    constructor
    · rintro ⟨next, h⟩
      obtain ⟨middle, hmiddle, hrest⟩ := bind_ok h
      have hroot : middle.root = sandbox.root :=
        congrArg PinnedRoot.path (build_pinned hcomplete.inPlace hmiddle)
      obtain ⟨hsound, hseparate⟩ := (ih (hcomplete.call hmiddle)).mp ⟨next, hrest⟩
      rw [hroot] at hsound hseparate
      have hhead := ((build_succeeds_iff hcomplete).mp ⟨middle, hmiddle⟩).1
      refine ⟨?_, hseparate⟩
      intro other hother
      rcases List.mem_cons.mp hother with rfl | hother
      · exact hhead
      · exact hsound other hother
    · rintro ⟨hsound, hseparate⟩
      have hlater : Separate sandbox.root (afterAll host (grants.after host builder) rest) :=
        hseparate
      obtain ⟨middle, hmiddle⟩ := (build_succeeds_iff hcomplete).mpr
        ⟨hsound builder List.mem_cons_self, hlater.before⟩
      have hroot : middle.root = sandbox.root :=
        congrArg PinnedRoot.path (build_pinned hcomplete.inPlace hmiddle)
      have hrest := (ih (hcomplete.call hmiddle)).mpr ⟨by
        rw [hroot]
        exact fun other hother => hsound other (List.mem_cons_of_mem _ hother), by
        rw [hroot]
        exact hlater⟩
      obtain ⟨next, hnext⟩ := hrest
      exact ⟨next, except_bind_ok_iff.mpr ⟨middle, hmiddle, hnext⟩⟩

theorem buildAll_perm {first second : List Builder} (hcomplete : Complete host sandbox grants)
    (hperm : first.Perm second) (h : ∃ next, buildAll host sandbox first = .ok next) :
    ∃ next, buildAll host sandbox second = .ok next := by
  obtain ⟨hsound, hseparate⟩ := (buildAll_succeeds_iff hcomplete).mp h
  have hsame := @afterAll_perm host grants first second hperm
  refine (buildAll_succeeds_iff hcomplete).mpr ⟨?_, ?_⟩
  · exact fun builder hbuilder => hsound builder (hperm.mem_iff.mpr hbuilder)
  · intro path hpath denied hdenied
    rw [← hsame.workspaces, ← hsame.readRoots] at hpath
    exact hseparate path hpath denied ((hsame.denied denied).mpr hdenied)

end Success

section Agreement

variable {host : Host} {first second : LocalSandbox}

theorem stripPrefix_eq_some_iff {path base : FilePath} {below : List Component} :
    stripPrefix path base = some below ↔
      path.absolute = base.absolute ∧ path.components = base.components ++ below := by
  unfold stripPrefix
  split_ifs with h
  · obtain ⟨habsolute, rest, hrest⟩ := h
    rw [← hrest, List.drop_left]
    simp [habsolute]
  · simp only [false_iff]
    rintro ⟨habsolute, hparts⟩
    exact h ⟨habsolute, below, hparts.symm⟩

theorem leadsDown_names (location : Location) : LeadsDown (location.map Component.normal) := by
  intro part hpart
  obtain ⟨name, _, rfl⟩ := List.mem_map.mp hpart
  rfl

theorem rootTarget_reaches {requested : FilePath} {path : String} {roots : List PinnedRoot}
    (hvalid : ∀ root ∈ roots, validateRoot host (.ofLocation root.path) (display root.path)
      root.directory = .ok ())
    (hdown : LeadsDown requested.components)
    (h : ∃ root ∈ roots, ∃ below, stripPrefix requested (.ofLocation root.path) = some below) :
    ∃ found, rootTarget host requested path roots = .ok found := by
  induction roots with
  | nil => simp at h
  | cons root rest ih =>
    unfold rootTarget
    cases hstripped : stripPrefix requested (.ofLocation root.path) with
    | none =>
      obtain ⟨other, hother, below, hbelow⟩ := h
      rcases List.mem_cons.mp hother with rfl | hother
      · rw [hstripped] at hbelow
        cases hbelow
      · exact ih (fun entry hentry => hvalid entry (List.mem_cons_of_mem _ hentry))
          ⟨other, hother, below, hbelow⟩
    | some below =>
      obtain ⟨_, hparts⟩ := stripPrefix_eq_some_iff.mp hstripped
      have hbelow : LeadsDown below := fun part hpart => hdown part (by
        rw [hparts]
        exact List.mem_append_right _ hpart)
      refine ⟨(root.directory, below), ?_⟩
      refine except_bind_ok_iff.mpr ⟨(), leadsDown_iff.mpr hbelow, ?_⟩
      exact except_bind_ok_iff.mpr ⟨(), hvalid root List.mem_cons_self, rfl⟩

/-- Two directories on the way to a name lead to the same entry, where none is there itself. -/
theorem same_entry {requested : FilePath} {one other : Location} {below rest : List Component}
    {name : String} (hone : requested.components = one.map Component.normal ++ below)
    (hother : requested.components = other.map Component.normal ++ rest)
    (hname : fileName below = some name) (hdirectory : host.tree.IsDirectory other)
    (hflat : ¬host.tree.IsDirectory (one ++ names below)) :
    fileName rest = some name ∧ one ++ names below.dropLast = other ++ names rest.dropLast := by
  have hnames : one ++ names below = other ++ names rest := by
    have hparts : names (one.map Component.normal ++ below) =
        names (other.map Component.normal ++ rest) := by rw [← hone, hother]
    have hsplit : ∀ (location : Location) (parts : List Component),
        names (location.map Component.normal ++ parts) = location ++ names parts := by
      intro location parts
      rw [names, List.filterMap_append]
      exact congrArg (· ++ names parts) (names_map_normal location)
    rwa [hsplit, hsplit] at hparts
  have hrest : rest ≠ [] := by
    rintro rfl
    rw [hnames, show names [] = [] from rfl, List.append_nil] at hflat
    exact hflat hdirectory
  have hbelow : below ≠ [] := by
    rintro rfl
    cases hname
  have hlast : rest.getLast? = below.getLast? := by
    have hwhole : (one.map Component.normal ++ below).getLast? =
        (other.map Component.normal ++ rest).getLast? := by rw [← hone, hother]
    rw [List.getLast?_append_of_ne_nil _ hbelow, List.getLast?_append_of_ne_nil _ hrest] at hwhole
    exact hwhole.symm
  have hname' : fileName rest = some name := by
    unfold fileName at hname ⊢
    rw [hlast]
    exact hname
  refine ⟨hname', ?_⟩
  rw [names_fileName hname, names_fileName hname', ← List.append_assoc, ← List.append_assoc]
    at hnames
  exact List.append_cancel_right hnames

/-- Two sandboxes with the same grants and the same temporary directory. -/
structure Agree (host : Host) (first second : LocalSandbox) : Prop where
  grants : ∃ one other, Complete host first one ∧ Complete host second other ∧
    Grants.Same one other
  pinned : second.pinned = first.pinned
  temp : second.temp = first.temp

theorem Agree.symm (h : Agree host first second) : Agree host second first := by
  obtain ⟨one, other, hone, hother, hsame⟩ := h.grants
  exact ⟨⟨other, one, hother, hone, fun path => (hsame.workspaces path).symm,
    fun path => (hsame.readRoots path).symm, fun path => (hsame.denied path).symm⟩,
    h.pinned.symm, h.temp.symm⟩

theorem Agree.roots (h : Agree host first second) {operation : Operation} {root : PinnedRoot}
    (hroot : root ∈ Operation.roots operation first) :
    ∃ other ∈ Operation.roots operation second, other.path = root.path := by
  obtain ⟨one, other, hone, hother, hsame⟩ := h.grants
  have hwritable : ∀ root ∈ first.writableRoots,
      ∃ found ∈ second.writableRoots, found.path = root.path := by
    intro root hmem
    rcases List.mem_cons.mp hmem with rfl | hmem
    · exact ⟨second.pinned, List.mem_cons_self, congrArg PinnedRoot.path h.pinned⟩
    · exact hother.workspaces root.path
        ((hsame.workspaces _).mp (hone.recorded.workspaces root hmem))
  unfold Operation.roots at hroot ⊢
  split_ifs at hroot ⊢
  · rcases List.mem_append.mp hroot with hmem | hmem
    · obtain ⟨found, hfound, hpath⟩ := hwritable root hmem
      exact ⟨found, List.mem_append_left _ hfound, hpath⟩
    · obtain ⟨found, hfound, hpath⟩ := hother.readRoots root.path
        ((hsame.readRoots _).mp (hone.recorded.readRoots root hmem))
      exact ⟨found, List.mem_append_right _ hfound, hpath⟩
  · exact hwritable root hroot

theorem Agree.inPlace (h : Agree host first second) : InPlace host first ∧ InPlace host second := by
  obtain ⟨one, other, hone, hother, _⟩ := h.grants
  exact ⟨hone.inPlace, hother.inPlace⟩

/-- A target one sandbox resolves below its roots leads the other to the same entry. -/
theorem Agree.resolves (h : Agree host first second) {operation : Operation}
    {path requested : String} {found : Target} {parent : Nat} {name : String}
    {location : Location}
    (hfound : target host first (Operation.roots operation first) path = .ok found)
    (hentry : openEntry host found requested = .ok (parent, name))
    (hlocated : host.tree.locate parent = some location)
    (hflat : ¬host.tree.IsDirectory (location ++ [name])) :
    ∃ other, target host second (Operation.roots operation second) path = .ok other ∧
      openEntry host other requested = .ok (parent, name) := by
  obtain ⟨hplace, hplaces⟩ := h.inPlace
  have hroot : second.root = first.root := congrArg PinnedRoot.path h.pinned
  have hdir : second.policy.rootDir = first.policy.rootDir :=
    congrArg PinnedRoot.directory h.pinned
  have htemporary : temporaryTarget host second (FilePath.parse path) =
      temporaryTarget host first (FilePath.parse path) := by
    unfold temporaryTarget
    rw [h.temp]
  obtain ⟨temporary, htemp, hrest⟩ := bind_ok hfound
  cases temporary with
  | some below =>
    refine ⟨found, ?_, hentry⟩
    exact except_bind_ok_iff.mpr ⟨some below, htemporary.trans htemp, hrest⟩
  | none =>
    have hgranted : ∀ {other}, grantedTarget host second path
        (Operation.roots operation second) = .ok other →
        target host second (Operation.roots operation second) path = .ok other := fun hother =>
      except_bind_ok_iff.mpr ⟨none, htemporary.trans htemp, hother⟩
    dsimp only at hrest
    by_cases habsolute : (FilePath.parse path).absolute = true
    · unfold grantedTarget at hrest
      rw [if_pos habsolute] at hrest
      obtain ⟨root, hmem, hstripped, hdown, hdirectory, _⟩ := rootTarget_ok hrest
      obtain ⟨other, hother, hpath⟩ := h.roots hmem
      have hlookup := hplace.roots root (roots_readable hmem)
      have hbase := FileTree.locate_eq_some_iff.mpr hlookup
      rw [← hdirectory] at hbase
      obtain ⟨base, hfrom, hname, rfl⟩ := (openEntry_ok_iff hlocated).mp hentry
      rw [hbase] at hfrom
      cases hfrom
      obtain ⟨_, hparts⟩ := stripPrefix_eq_some_iff.mp hstripped
      rw [ofLocation_components (FileTree.plain_of_lookup hlookup)] at hparts
      have hwhole : LeadsDown (FilePath.parse path).components := by
        rw [hparts]
        intro part hpart
        rcases List.mem_append.mp hpart with hpart | hpart
        · exact leadsDown_names _ part hpart
        · exact hdown part hpart
      have hvalid : ∀ root ∈ Operation.roots operation second,
          validateRoot host (.ofLocation root.path) (display root.path) root.directory = .ok () :=
        fun entry hentry => validateRoot_ok_iff.mpr
          ⟨_, metadata_location (hplaces.roots entry (roots_readable hentry)) rfl, rfl⟩
      obtain ⟨reached, hreached⟩ := @rootTarget_reaches host (FilePath.parse path) path
        (Operation.roots operation second) hvalid hwhole
        ⟨other, hother, found.2, by rw [hpath]; exact hstripped⟩
      obtain ⟨last, hlast, hstrip, _, hsame, _⟩ := rootTarget_ok hreached
      have hlastLookup := hplaces.roots last (roots_readable hlast)
      obtain ⟨_, hlastParts⟩ := stripPrefix_eq_some_iff.mp hstrip
      rw [ofLocation_components (FileTree.plain_of_lookup hlastLookup)] at hlastParts
      have hnotDirectory : ¬host.tree.IsDirectory (root.path ++ names found.2) := by
        rw [names_fileName hname, ← List.append_assoc]
        exact hflat
      obtain ⟨hnameSame, hplaceSame⟩ :=
        same_entry hparts hlastParts hname ⟨_, hlastLookup⟩ hnotDirectory
      refine ⟨reached, hgranted (by
        unfold grantedTarget
        rw [if_pos habsolute]
        exact hreached), (openEntry_ok_iff hlocated).mpr ⟨last.path, ?_, hnameSame, hplaceSame⟩⟩
      rw [hsame]
      exact FileTree.locate_eq_some_iff.mpr hlastLookup
    · unfold grantedTarget at hrest
      rw [if_neg habsolute] at hrest
      refine ⟨found, hgranted ?_, hentry⟩
      unfold grantedTarget
      rw [if_neg habsolute, hroot, hdir]
      exact hrest

theorem Agree.fullAccess (h : Agree host first second) {requested : FilePath} {shown : String}
    {found : Target}
    (hfound : fullAccessTarget host requested shown first.policy.deniedReads = .ok found) :
    fullAccessTarget host requested shown second.policy.deniedReads = .ok found := by
  obtain ⟨one, other, hone, hother, hsame⟩ := h.grants
  obtain ⟨name, parent, directory, hname, hparent, hspared, hlookup, rfl⟩ :=
    fullAccessTarget_ok_iff.mp hfound
  refine fullAccessTarget_ok_iff.mpr ⟨name, parent, directory, hname, hparent, ?_, hlookup, rfl⟩
  intro entry hentry
  have hdenied := (hsame.denied _).mpr (hother.recorded.denied entry hentry)
  have hapart := hone.guarded.spared ⟨directory, hlookup⟩ hspared hdenied
  rw [← Bool.not_eq_true]
  intro hcovers
  unfold DeniedRead.covers at hcovers
  rcases (Bool.or_eq_true _ _).mp hcovers with hequal | hbelow
  · exact hapart (by rw [beq_iff_eq.mp hequal])
  · exact hapart (List.isPrefixOf_iff_prefix.mp ((Bool.and_eq_true _ _).mp hbelow).2)

theorem Agree.resolvesMode (h : Agree host first second) {operation : Operation}
    {path requested : String} {mode : SandboxMode} {found : Target} {parent : Nat} {name : String}
    {location : Location}
    (hfound : modeTarget host first path mode (Operation.roots operation first) = .ok found)
    (hentry : openEntry host found requested = .ok (parent, name))
    (hlocated : host.tree.locate parent = some location)
    (hflat : ¬host.tree.IsDirectory (location ++ [name])) :
    ∃ other, modeTarget host second path mode (Operation.roots operation second) = .ok other ∧
      openEntry host other requested = .ok (parent, name) := by
  unfold modeTarget at hfound ⊢
  split_ifs at hfound ⊢ with hfull
  · exact ⟨found, h.fullAccess hfound, hentry⟩
  · exact h.resolves hfound hentry hlocated hflat

theorem acts_flat {operation : Operation} {location : Location} {outcome : Outcome}
    (h : operation.Acts host.tree location outcome) : ¬host.tree.IsDirectory location := by
  rintro ⟨identity, hdirectory⟩
  rcases h with ⟨_, _, _, hfile, _⟩ | hleaves
  · rw [hdirectory] at hfile
    cases hfile
  · cases operation with
    | write path content mode created =>
      cases outcome with
      | tree left => exact absurd (hleaves.1 _ hdirectory) (by simp [FileNode.isFile])
      | text value | content value | range value next => exact hleaves
    | removeFile path =>
      cases outcome with
      | tree left =>
        obtain ⟨node, hnode, hfile⟩ := hleaves.1
        rw [hdirectory] at hnode
        cases hnode
        cases hfile
      | text value | content value | range value next => exact hleaves
    | read path mode | readBytes path maxBytes mode | readRange path offset maxBytes
    | readHostRange path offset maxBytes =>
      exact hleaves

/-- An operation that succeeds in one sandbox succeeds in the other, with the same outcome. -/
theorem Agree.performs (h : Agree host first second) {operation : Operation} {outcome : Outcome}
    (hperform : perform host first operation = .ok outcome) :
    perform host second operation = .ok outcome := by
  obtain ⟨⟨found, requested⟩, htarget, hrest⟩ := bind_ok hperform
  obtain ⟨⟨parent, name⟩, hentry, hwork⟩ := bind_ok hrest
  obtain ⟨location, hlocated, hacts⟩ := work_acts hwork
  have hflat := acts_flat hacts
  suffices hother : ∃ other, operation.target host second = .ok (other, requested) ∧
      openEntry host other requested = .ok (parent, name) by
    obtain ⟨other, hresolved, hopened⟩ := hother
    refine except_bind_ok_iff.mpr ⟨(other, requested), hresolved, ?_⟩
    exact except_bind_ok_iff.mpr ⟨(parent, name), hopened, hwork⟩
  cases operation with
  | read path mode =>
    obtain ⟨_, hfound, hsame⟩ := bind_ok htarget
    cases hsame
    obtain ⟨other, hresolved, hopened⟩ :=
      @Agree.resolvesMode _ _ _ h (.read requested mode) _ _ _ _ _ _ _ hfound hentry hlocated hflat
    exact ⟨other, except_bind_ok_iff.mpr ⟨other, hresolved, rfl⟩, hopened⟩
  | readBytes path maxBytes mode =>
    obtain ⟨_, hfound, hsame⟩ := bind_ok htarget
    cases hsame
    obtain ⟨other, hresolved, hopened⟩ := @Agree.resolvesMode _ _ _ h (.readBytes requested maxBytes mode)
      _ _ _ _ _ _ _ hfound hentry hlocated hflat
    exact ⟨other, except_bind_ok_iff.mpr ⟨other, hresolved, rfl⟩, hopened⟩
  | readRange path offset maxBytes =>
    obtain ⟨_, hbound, htarget⟩ := bind_ok htarget
    obtain ⟨_, hfound, hsame⟩ := bind_ok htarget
    cases hsame
    obtain ⟨other, hresolved, hopened⟩ :=
      @Agree.resolves _ _ _ h (.readRange requested offset maxBytes)
        _ _ _ _ _ _ hfound hentry hlocated hflat
    refine ⟨other, except_bind_ok_iff.mpr ⟨(), hbound, ?_⟩, hopened⟩
    exact except_bind_ok_iff.mpr ⟨other, hresolved, rfl⟩
  | readHostRange path offset maxBytes =>
    obtain ⟨_, hbound, htarget⟩ := bind_ok htarget
    obtain ⟨place, hcanonical, htarget⟩ := bind_ok htarget
    obtain ⟨_, hfound, hsame⟩ := bind_ok htarget
    cases hsame
    refine ⟨found, except_bind_ok_iff.mpr ⟨(), hbound, ?_⟩, hentry⟩
    refine except_bind_ok_iff.mpr ⟨place, hcanonical, ?_⟩
    exact except_bind_ok_iff.mpr ⟨found, h.fullAccess hfound, rfl⟩
  | write path content mode created =>
    obtain ⟨_, hfound, hsame⟩ := bind_ok htarget
    cases hsame
    obtain ⟨other, hresolved, hopened⟩ := @Agree.resolvesMode _ _ _ h
      (.write requested content mode created) _ _ _ _ _ _ _ hfound hentry hlocated hflat
    exact ⟨other, except_bind_ok_iff.mpr ⟨other, hresolved, rfl⟩, hopened⟩
  | removeFile path =>
    obtain ⟨_, hfound, hsame⟩ := bind_ok htarget
    cases hsame
    obtain ⟨other, hresolved, hopened⟩ := @Agree.resolves _ _ _ h (.removeFile requested)
      _ _ _ _ _ _ hfound hentry hlocated hflat
    exact ⟨other, except_bind_ok_iff.mpr ⟨other, hresolved, rfl⟩, hopened⟩

theorem agree_of_perm {root : FilePath} {session : String} {start : LocalSandbox}
    {builders others : List Builder} (hnew : LocalSandbox.new host root session = .ok start)
    (hperm : builders.Perm others) (hfirst : buildAll host start builders = .ok first)
    (hsecond : buildAll host start others = .ok second) (htemp : second.temp = first.temp)
    {later : Host} (hplace : InPlace later first) (hplaces : InPlace later second) :
    Agree later first second := by
  obtain ⟨hone, hpinned⟩ := buildAll_complete (Complete.new hnew) hfirst
  obtain ⟨hother, hpinneds⟩ := buildAll_complete (Complete.new hnew) hsecond
  have hguarded : Guarded later first (afterAll host noGrants builders) :=
    ⟨hplace.unmoved, hone.guarded.apart, hone.guarded.covered⟩
  have hguardeds : Guarded later second (afterAll host noGrants others) :=
    ⟨hplaces.unmoved, hother.guarded.apart, hother.guarded.covered⟩
  exact ⟨⟨_, _, ⟨hplace, hguarded, hone.recorded, hone.workspaces, hone.readRoots⟩,
    ⟨hplaces, hguardeds, hother.recorded, hother.workspaces, hother.readRoots⟩,
    afterAll_perm host hperm⟩, hpinneds.trans hpinned.symm, htemp⟩

end Agreement

section Results

/-- The paths an operation may work below, by what was granted: the temporary directory, the root
and the workspace roots, and for a read the read roots. -/
def MayUse (sandbox : LocalSandbox) (grants : Grants) (operation : Operation) (path : FilePath) :
    Prop :=
  path = sandbox.temp.path ∨ path = .ofLocation sandbox.root ∨
    (∃ granted ∈ grants.workspaces, path = .ofLocation granted) ∨
    Operation.reads operation = true ∧ ∃ granted ∈ grants.readRoots, path = .ofLocation granted

theorem mayUse_of_grants {sandbox : LocalSandbox} {grants : Grants} {operation : Operation}
    {path : FilePath} (hrecorded : Recorded sandbox grants)
    (h : Operation.Grants operation sandbox path) : MayUse sandbox grants operation path := by
  have hwritable : ∀ root ∈ sandbox.writableRoots, path = .ofLocation root.path →
      MayUse sandbox grants operation path := by
    intro root hroot hpath
    rcases List.mem_cons.mp hroot with rfl | hroot
    · exact .inr (.inl hpath)
    · exact .inr (.inr (.inl ⟨root.path, hrecorded.workspaces root hroot, hpath⟩))
  rcases h with hpath | ⟨root, hroot, hpath⟩
  · exact .inl hpath
  · unfold Operation.roots at hroot
    split_ifs at hroot with hreads
    · rcases List.mem_append.mp hroot with hroot | hroot
      · exact hwritable root hroot hpath
      · exact .inr (.inr (.inr ⟨hreads, root.path, hrecorded.readRoots root hroot, hpath⟩))
    · exact hwritable root hroot hpath

/-- File tools stay inside what was granted. Outside full access an operation works on a file that
is reached through directories only from the temporary directory or a granted root, in whatever
trees the builders and the operation ran. Where nothing moved a granted root or put a directory in
the place of a denied file, no operation works at or under a denied path, the temporary directory
apart; and builder calls succeed in every order or none, and sandboxes with the same temporary
directory then accept the same operations. -/
theorem file_tools_stay_inside :
    (∀ (settled : Host → LocalSandbox → Prop) (host : Host) (sandbox : LocalSandbox)
        (grants : Grants) (operation : Operation) (outcome : Outcome),
      Built settled host sandbox grants → perform host sandbox operation = .ok outcome →
      ¬Operation.FullAccess operation →
      ∃ location path, touched host sandbox operation = some location ∧
        MayUse sandbox grants operation path ∧ Below host path location ∧
        operation.Acts host.tree location outcome) ∧
    (∀ (host : Host) (sandbox : LocalSandbox) (grants : Grants) (operation : Operation)
        (outcome : Outcome),
      Built Unmoved host sandbox grants → perform host sandbox operation = .ok outcome →
      ∃ location, touched host sandbox operation = some location ∧
        operation.Acts host.tree location outcome ∧
        ∀ path ∈ grants.denied, path <+: location →
          ¬Operation.FullAccess operation ∧ InTemporary host sandbox location) ∧
    ∀ (host : Host) (root : FilePath) (session : String) (start first : LocalSandbox)
        (builders others : List Builder),
      LocalSandbox.new host root session = .ok start → builders.Perm others →
      buildAll host start builders = .ok first →
      ∃ second, buildAll host start others = .ok second ∧
        (second.temp = first.temp → ∀ later, InPlace later first → InPlace later second →
          ∀ operation outcome, perform later first operation = .ok outcome ↔
            perform later second operation = .ok outcome) := by
  refine ⟨?_, ?_, ?_⟩
  · intro settled host sandbox grants operation outcome hbuilt hperform hconfined
    obtain ⟨location, path, htouched, hgrants, hbelow, hacts⟩ :=
      perform_confined hperform hconfined
    exact ⟨location, path, htouched, mayUse_of_grants hbuilt.recorded hgrants, hbelow, hacts⟩
  · intro host sandbox grants operation outcome hbuilt hperform
    exact perform_spares hbuilt.guarded hperform
  · intro host root session start first builders others hnew hperm hfirst
    obtain ⟨second, hsecond⟩ := buildAll_perm (Complete.new hnew) hperm ⟨first, hfirst⟩
    refine ⟨second, hsecond, fun htemp later hplace hplaces operation outcome => ?_⟩
    have hagree := agree_of_perm hnew hperm hfirst hsecond htemp hplace hplaces
    exact ⟨hagree.performs, hagree.symm.performs⟩

/-- The entries of a small host: a workspace, a secret directory, a key file, nested directories
and two temporary directories. -/
def sampleNodes : List (Location × FileNode) :=
  [([], .directory 1), (["ws"], .directory 2), (["ws", "f"], .file 20 0 [1]),
    (["secret"], .directory 3), (["key"], .file 21 0 [2]), (["a"], .directory 5),
    (["a", "b"], .directory 6), (["a", "b", "f"], .file 22 0 [3]), (["tmp"], .directory 8),
    (["tmp", "one"], .directory 9), (["tmp", "one", "f"], .file 23 0 [4]),
    (["tmp", "two"], .directory 10)]

/-- The entries after the workspace moved below the secret directory and left a link, the key became
a directory and the outer nested directory was replaced. -/
def movedNodes : List (Location × FileNode) :=
  [([], .directory 1), (["ws"], .link 30 ⟨true, ["secret", "ws"]⟩), (["secret"], .directory 3),
    (["secret", "ws"], .directory 2), (["secret", "ws", "f"], .file 20 0 [1]),
    (["key"], .directory 31), (["key", "f"], .file 32 0 [5]), (["a"], .directory 33),
    (["a", "b"], .directory 6), (["a", "b", "f"], .file 22 0 [3]), (["tmp"], .directory 8),
    (["tmp", "one"], .directory 9)]

/-- A host with some entries. -/
def sampleHost (nodes : List (Location × FileNode)) (h : FormsTree nodes) : Host where
  tree := .ofNodes nodes h
  current := []
  settled := FileTree.isDirectory_root
  linkLimit := 8
  temporaryStorage := .ok ⟨true, ["tmp"]⟩
  systemError := "failed"

theorem sampleNodes_form : FormsTree sampleNodes := by decide +kernel

theorem movedNodes_form : FormsTree movedNodes := by decide +kernel

def smallHost : Host := sampleHost sampleNodes sampleNodes_form

/-- The host after the changes. -/
def movedHost : Host := sampleHost movedNodes movedNodes_form

/-- A new sandbox of the workspace. -/
def sampleSandbox : LocalSandbox := ⟨["ws"], ⟨2, [], [], []⟩, ⟨⟨true, ["tmp", "one"]⟩, 9⟩⟩

/-- A sandbox with the other temporary directory. -/
def sampleOwner : LocalSandbox := ⟨["ws"], ⟨2, [], [], []⟩, ⟨⟨true, ["tmp", "two"]⟩, 10⟩⟩

/-- The new sandbox with some roots and denied paths. -/
def sampleWith (workspaceRoots : List PinnedRoot) (deniedReads : List DeniedRead) :
    LocalSandbox :=
  { sampleSandbox with policy := ⟨2, workspaceRoots, [], deniedReads⟩ }

/-- File tools escape in five ways: a file under a denied temporary directory is read; two
temporary directories shared in the other order give other paths; a workspace moved below a denied
directory and a denied file that became a directory are read; and of two nested roots the order
decides whether the inner one is read after the outer one was replaced. -/
theorem file_tools_escape :
    LocalSandbox.new smallHost ⟨true, ["ws"]⟩ "one" = .ok sampleSandbox ∧
    (buildAll smallHost sampleSandbox [.denyRead ⟨true, ["tmp", "one"]⟩] =
        .ok (sampleWith [] [⟨["tmp", "one"], true⟩]) ∧
      perform smallHost (sampleWith [] [⟨["tmp", "one"], true⟩])
        (.readBytes "/tmp/one/f" 10 .workspaceWrite) = .ok (.content [4])) ∧
    (buildAll smallHost sampleSandbox [.shareTemporaryDirectory sampleOwner,
        .shareTemporaryDirectory sampleSandbox] = .ok sampleSandbox ∧
      buildAll smallHost sampleSandbox [.shareTemporaryDirectory sampleSandbox,
        .shareTemporaryDirectory sampleOwner] = .ok sampleOwner ∧
      perform smallHost sampleSandbox (.readBytes "/tmp/one/f" 10 .workspaceWrite) =
        .ok (.content [4]) ∧
      (perform smallHost sampleOwner
        (.readBytes "/tmp/one/f" 10 .workspaceWrite)).toOption.isNone = true) ∧
    (buildAll smallHost sampleSandbox [.denyRead ⟨true, ["secret"]⟩] =
        .ok (sampleWith [] [⟨["secret"], true⟩]) ∧
      perform movedHost (sampleWith [] [⟨["secret"], true⟩])
        (.readBytes "/ws/f" 10 .workspaceWrite) = .ok (.content [1]) ∧
      touched movedHost (sampleWith [] [⟨["secret"], true⟩])
        (.readBytes "/ws/f" 10 .workspaceWrite) = some ["secret", "ws", "f"]) ∧
    (buildAll smallHost sampleSandbox [.denyRead ⟨true, ["key"]⟩] =
        .ok (sampleWith [] [⟨["key"], false⟩]) ∧
      perform movedHost (sampleWith [] [⟨["key"], false⟩])
        (.readBytes "/key/f" 10 .dangerFullAccess) = .ok (.content [5])) ∧
    (buildAll smallHost sampleSandbox [.allowWorkspaceRoot ⟨true, ["a", "b"]⟩,
        .allowWorkspaceRoot ⟨true, ["a"]⟩] =
        .ok (sampleWith [⟨["a", "b"], 6⟩, ⟨["a"], 5⟩] []) ∧
      buildAll smallHost sampleSandbox [.allowWorkspaceRoot ⟨true, ["a"]⟩,
        .allowWorkspaceRoot ⟨true, ["a", "b"]⟩] =
        .ok (sampleWith [⟨["a"], 5⟩, ⟨["a", "b"], 6⟩] []) ∧
      perform movedHost (sampleWith [⟨["a", "b"], 6⟩, ⟨["a"], 5⟩] [])
        (.readBytes "/a/b/f" 10 .workspaceWrite) = .ok (.content [3]) ∧
      (perform movedHost (sampleWith [⟨["a"], 5⟩, ⟨["a", "b"], 6⟩] [])
        (.readBytes "/a/b/f" 10 .workspaceWrite)).toOption.isNone = true) := by
  refine ⟨rfl, ⟨rfl, rfl⟩, ⟨rfl, rfl, rfl, rfl⟩, ⟨rfl, rfl, rfl⟩, ⟨rfl, rfl⟩, ⟨rfl, rfl, rfl, rfl⟩⟩

/-- The results on the small host: the workspace is read, below its root and away from the secret
directory, and the two orders of a denial and a grant agree. -/
theorem file_tools_stay_inside_small :
    (∃ location path, touched smallHost (sampleWith [] [⟨["secret"], true⟩])
        (.readBytes "/ws/f" 10 .workspaceWrite) = some location ∧
      MayUse (sampleWith [] [⟨["secret"], true⟩]) ⟨[], [], [["secret"]]⟩
        (.readBytes "/ws/f" 10 .workspaceWrite) path ∧
      Below smallHost path location ∧
      Operation.Acts smallHost.tree (.readBytes "/ws/f" 10 .workspaceWrite) location
        (.content [1])) ∧
    (∃ location, touched smallHost (sampleWith [] [⟨["secret"], true⟩])
        (.readBytes "/ws/f" 10 .workspaceWrite) = some location ∧
      Operation.Acts smallHost.tree (.readBytes "/ws/f" 10 .workspaceWrite) location
        (.content [1]) ∧
      ∀ path ∈ [["secret"]], path <+: location →
        ¬Operation.FullAccess (.readBytes "/ws/f" 10 .workspaceWrite) ∧
          InTemporary smallHost (sampleWith [] [⟨["secret"], true⟩]) location) ∧
    ∃ second, buildAll smallHost sampleSandbox [.allowWorkspaceRoot ⟨true, ["a"]⟩,
        .denyRead ⟨true, ["secret"]⟩] = .ok second := by
  have hnew : LocalSandbox.new smallHost ⟨true, ["ws"]⟩ "one" = .ok sampleSandbox := rfl
  have hbuild : build smallHost sampleSandbox (.denyRead ⟨true, ["secret"]⟩) =
      .ok (sampleWith [] [⟨["secret"], true⟩]) := rfl
  have hbuilt : Built Unmoved smallHost (sampleWith [] [⟨["secret"], true⟩])
      ⟨[], [], [["secret"]]⟩ := .call (.new hnew) hbuild
  have hperform : perform smallHost (sampleWith [] [⟨["secret"], true⟩])
      (.readBytes "/ws/f" 10 .workspaceWrite) = .ok (.content [1]) := rfl
  have hall : buildAll smallHost sampleSandbox [.denyRead ⟨true, ["secret"]⟩,
      .allowWorkspaceRoot ⟨true, ["a"]⟩] = .ok (sampleWith [⟨["a"], 5⟩] [⟨["secret"], true⟩]) := rfl
  refine ⟨file_tools_stay_inside.1 Unmoved _ _ _ _ _ hbuilt hperform fun hfull => ?_,
    file_tools_stay_inside.2.1 _ _ _ _ _ hbuilt hperform, ?_⟩
  · cases hfull.1
  · obtain ⟨second, hsecond, _⟩ := file_tools_stay_inside.2.2 _ _ _ _ _ _ _ hnew
      (List.Perm.swap _ _ []) hall
    exact ⟨second, hsecond⟩

end Results

end MobiusAgent.SandboxOrder
