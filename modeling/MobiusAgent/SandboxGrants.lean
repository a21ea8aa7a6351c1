import MobiusAgent.SandboxFiles

/-!
# What a sandbox was granted

`Built` follows the builders of a sandbox and records what they granted and
denied, while other programs may change the file tree between two calls. A
file tool stays below what was granted in every tree. It stays away from what
was denied, the temporary directory apart, where nothing moved a granted root
or put a directory in the place of a denied file.
-/

namespace MobiusAgent.SandboxGrants

open ProtocolEvents CheckpointValidation FileTrees SandboxPolicy SandboxFiles

section Confinement

variable {host : Host} {sandbox : LocalSandbox}

/-- The operation has full access: the mode grants it to an absolute path. -/
def Operation.FullAccess : Operation → Prop
  | .read path mode => mode = .dangerFullAccess ∧ (FilePath.parse path).absolute = true
  | .readBytes path _ mode => mode = .dangerFullAccess ∧ (FilePath.parse path).absolute = true
  | .readRange _ _ _ => False
  | .readHostRange _ _ _ => True
  | .write path _ mode _ => mode = .dangerFullAccess ∧ (FilePath.parse path).absolute = true
  | .removeFile _ => False

def Operation.reads : Operation → Bool
  | .write _ _ _ _ => false
  | .removeFile _ => false
  | _ => true

/-- The roots an operation may work below. -/
def Operation.roots (operation : Operation) (sandbox : LocalSandbox) : List PinnedRoot :=
  if Operation.reads operation then sandbox.readableRoots else sandbox.writableRoots

theorem roots_readable {operation : Operation} {root : PinnedRoot}
    (h : root ∈ Operation.roots operation sandbox) : root ∈ sandbox.readableRoots := by
  unfold Operation.roots at h
  split_ifs at h
  · exact h
  · exact List.mem_append_left _ h

theorem modeTarget_cases {path : String} {mode : SandboxMode} {roots : List PinnedRoot}
    {found : Target} (h : modeTarget host sandbox path mode roots = .ok found) :
    ¬(mode = .dangerFullAccess ∧ (FilePath.parse path).absolute = true) ∧
        Resolved host sandbox roots path found ∨
      (mode = .dangerFullAccess ∧ (FilePath.parse path).absolute = true) ∧
        fullAccessTarget host (FilePath.parse path) path sandbox.policy.deniedReads =
          .ok found := by
  unfold modeTarget at h
  split_ifs at h with hfull
  · exact .inr ⟨hfull, h⟩
  · exact .inl ⟨hfull, target_resolved h⟩

/-- An operation is resolved below its roots, or with full access. -/
theorem target_cases {operation : Operation} {found : Target} {requested : String}
    (h : operation.target host sandbox = .ok (found, requested)) :
    (¬Operation.FullAccess operation ∧
        ∃ path, Resolved host sandbox (Operation.roots operation sandbox) path found) ∨
      Operation.FullAccess operation ∧ ∃ path shown,
        fullAccessTarget host path shown sandbox.policy.deniedReads = .ok found := by
  cases operation with
  | read path mode | readBytes path maxBytes mode =>
    obtain ⟨_, hfound, hsame⟩ := bind_ok h
    cases hsame
    exact (modeTarget_cases hfound).imp (fun ⟨hnot, hrest⟩ => ⟨hnot, _, hrest⟩)
      fun ⟨hfull, hrest⟩ => ⟨hfull, _, _, hrest⟩
  | readRange path offset maxBytes =>
    obtain ⟨_, _, h⟩ := bind_ok h
    obtain ⟨_, hfound, hsame⟩ := bind_ok h
    cases hsame
    exact .inl ⟨id, _, target_resolved hfound⟩
  | readHostRange path offset maxBytes =>
    obtain ⟨_, _, h⟩ := bind_ok h
    obtain ⟨_, _, h⟩ := bind_ok h
    obtain ⟨_, hfound, hsame⟩ := bind_ok h
    cases hsame
    exact .inr ⟨trivial, _, _, hfound⟩
  | write path content mode created =>
    obtain ⟨_, hfound, hsame⟩ := bind_ok h
    cases hsame
    exact (modeTarget_cases hfound).imp (fun ⟨hnot, hrest⟩ => ⟨hnot, _, hrest⟩)
      fun ⟨hfull, hrest⟩ => ⟨hfull, _, _, hrest⟩
  | removeFile path =>
    obtain ⟨_, hfound, hsame⟩ := bind_ok h
    cases hsame
    exact .inl ⟨id, _, target_resolved hfound⟩

/-- A location below the directory a path leads to, through directories only. -/
def Below (host : Host) (path : FilePath) (location : Location) : Prop :=
  ∃ base below, canonicalize host path = .ok base ∧ location = base ++ below ∧ below ≠ [] ∧
    ∀ above, above <+: below → above ≠ below → host.tree.IsDirectory (base ++ above)

theorem below_of_parent {path : FilePath} {base : Location} {parts : List Component}
    {name : String} (hpath : canonicalize host path = .ok base)
    (hname : fileName parts = some name)
    (hparent : host.tree.IsDirectory (base ++ names parts.dropLast)) :
    Below host path (base ++ names parts) := by
  have hnames := names_fileName hname
  refine ⟨base, names parts, hpath, rfl, by simp [hnames], ?_⟩
  intro above habove hproper
  rw [hnames] at habove hproper
  obtain hwhole | hinside := List.prefix_concat_iff.mp habove
  · exact absurd hwhole hproper
  · obtain ⟨rest, hrest⟩ := hinside
    obtain ⟨identity, hlookup⟩ := hparent
    rw [← hrest, ← List.append_assoc] at hlookup
    by_cases hempty : rest = []
    · rw [hempty, List.append_nil] at hlookup
      exact ⟨identity, hlookup⟩
    · exact FileTree.isDirectory_above rest hlookup hempty

/-- The directories an operation may work below. -/
def Operation.Grants (operation : Operation) (sandbox : LocalSandbox) (path : FilePath) : Prop :=
  path = sandbox.temp.path ∨
    ∃ root ∈ Operation.roots operation sandbox, path = .ofLocation root.path

theorem perform_confined {operation : Operation} {outcome : Outcome}
    (h : perform host sandbox operation = .ok outcome)
    (hconfined : ¬Operation.FullAccess operation) :
    ∃ location path, touched host sandbox operation = some location ∧
      Operation.Grants operation sandbox path ∧ Below host path location ∧
      operation.Acts host.tree location outcome := by
  obtain ⟨found, requested, base, name, htarget, hbase, hname, htouched, hparent, hacts⟩ :=
    perform_acts h
  rcases target_cases htarget with ⟨_, text, hresolved⟩ | ⟨hfull, _⟩
  · refine ⟨base ++ names found.2, ?_⟩
    cases hresolved with
    | temporary hstripped hdown hvalid =>
      exact ⟨_, htouched, .inl rfl,
        below_of_parent (validateRoot_located hvalid hbase) hname hparent, hacts⟩
    | relative hoff hrelative hdown hvalid =>
      refine ⟨_, htouched, .inr ⟨sandbox.pinned, ?_, rfl⟩,
        below_of_parent (validateRoot_located hvalid hbase) hname hparent, hacts⟩
      unfold Operation.roots
      split_ifs <;> simp [LocalSandbox.readableRoots, LocalSandbox.writableRoots]
    | root hmem hoff habsolute hstripped hdown hvalid =>
      exact ⟨_, htouched, .inr ⟨_, hmem, rfl⟩,
        below_of_parent (validateRoot_located hvalid hbase) hname hparent, hacts⟩
  · exact absurd hfull hconfined

end Confinement

section Runs

/-- What the builders of a sandbox granted and denied, by canonical paths. -/
structure Grants where
  workspaces : List Location
  readRoots : List Location
  denied : List Location
  deriving DecidableEq, Repr

/-- What a successful call adds. -/
def Grants.after (host : Host) (grants : Grants) (builder : Builder) : Grants :=
  match builder with
  | .denyRead path =>
    { grants with denied := grants.denied ++ (canonicalize host path).toOption.toList }
  | .allowWorkspaceRoot path =>
    { grants with workspaces := grants.workspaces ++ (canonicalize host path).toOption.toList }
  | .allowReadRoot path =>
    { grants with readRoots := grants.readRoots ++ (canonicalize host path).toOption.toList }
  | .shareTemporaryDirectory _ => grants
  | .isolatedExecution _ => grants

/-- A sandbox made by successful builder calls on a host other programs change meanwhile. -/
inductive Built (settled : Host → LocalSandbox → Prop) : Host → LocalSandbox → Grants → Prop where
  | new {host : Host} {root : FilePath} {session : String} {sandbox : LocalSandbox}
      (h : LocalSandbox.new host root session = .ok sandbox) :
      Built settled host sandbox ⟨[], [], []⟩
  | call {host : Host} {sandbox next : LocalSandbox} {grants : Grants} {builder : Builder}
      (before : Built settled host sandbox grants)
      (h : build host sandbox builder = .ok next) :
      Built settled host next (grants.after host builder)
  /-- A change of the host by other programs. -/
  | changed {host other : Host} {sandbox : LocalSandbox} {grants : Grants}
      (before : Built settled host sandbox grants) (h : settled other sandbox) :
      Built settled other sandbox grants

/-- Nothing moved a granted root or put a directory in the place of a denied file. -/
structure Unmoved (host : Host) (sandbox : LocalSandbox) : Prop where
  /-- A root that is still in the tree is where it was granted. -/
  roots : ∀ root ∈ sandbox.readableRoots, ∀ place, host.tree.locate root.directory = some place →
    place = root.path
  files : ∀ denied ∈ sandbox.policy.deniedReads, denied.directory = false →
    ¬host.tree.IsDirectory denied.path

/-- Nothing moved, replaced or removed a granted root, or put a directory in the place of a denied
file. -/
structure InPlace (host : Host) (sandbox : LocalSandbox) : Prop where
  roots : ∀ root ∈ sandbox.readableRoots,
    host.tree.lookup root.path = some (.directory root.directory)
  files : ∀ denied ∈ sandbox.policy.deniedReads, denied.directory = false →
    ¬host.tree.IsDirectory denied.path

variable {host : Host} {sandbox next : LocalSandbox}

variable {root : PinnedRoot} {path : Location} {grants : Grants}

theorem mem_withWorkspaceRoot {added : PinnedRoot}
    (h : root ∈ (sandbox.withWorkspaceRoot added).policy.workspaceRoots) :
    root ∈ sandbox.policy.workspaceRoots ∨ root = added := by
  unfold LocalSandbox.withWorkspaceRoot at h
  split_ifs at h
  · exact .inl h
  · simpa using h

theorem mem_withReadRoot {added : PinnedRoot}
    (h : root ∈ (sandbox.withReadRoot added).policy.readRoots) :
    root ∈ sandbox.policy.readRoots ∨ root = added := by
  unfold LocalSandbox.withReadRoot at h
  split_ifs at h
  · exact .inl h
  · simpa using h

theorem withWorkspaceRoot_rest (sandbox : LocalSandbox) (added : PinnedRoot) :
    (sandbox.withWorkspaceRoot added).pinned = sandbox.pinned ∧
      (sandbox.withWorkspaceRoot added).policy.readRoots = sandbox.policy.readRoots ∧
      (sandbox.withWorkspaceRoot added).policy.deniedReads = sandbox.policy.deniedReads ∧
      (sandbox.withWorkspaceRoot added).temp = sandbox.temp := by
  unfold LocalSandbox.withWorkspaceRoot
  split_ifs
  · exact ⟨rfl, rfl, rfl, rfl⟩
  · exact ⟨rfl, rfl, rfl, rfl⟩

theorem withReadRoot_rest (sandbox : LocalSandbox) (added : PinnedRoot) :
    (sandbox.withReadRoot added).pinned = sandbox.pinned ∧
      (sandbox.withReadRoot added).policy.workspaceRoots = sandbox.policy.workspaceRoots ∧
      (sandbox.withReadRoot added).policy.deniedReads = sandbox.policy.deniedReads ∧
      (sandbox.withReadRoot added).temp = sandbox.temp := by
  unfold LocalSandbox.withReadRoot
  split_ifs
  · exact ⟨rfl, rfl, rfl, rfl⟩
  · exact ⟨rfl, rfl, rfl, rfl⟩

theorem denying_rest (sandbox : LocalSandbox) (path : Location) (directory : Bool) :
    (sandbox.denying path directory).pinned = sandbox.pinned ∧
      (sandbox.denying path directory).policy.workspaceRoots = sandbox.policy.workspaceRoots ∧
      (sandbox.denying path directory).policy.readRoots = sandbox.policy.readRoots ∧
      (sandbox.denying path directory).temp = sandbox.temp := by
  unfold LocalSandbox.denying
  split_ifs
  · exact ⟨rfl, rfl, rfl, rfl⟩
  · exact ⟨rfl, rfl, rfl, rfl⟩

theorem mem_readableRoots :
    root ∈ sandbox.readableRoots ↔ root = sandbox.pinned ∨
      root ∈ sandbox.policy.workspaceRoots ∨ root ∈ sandbox.policy.readRoots := by
  simp [LocalSandbox.readableRoots, LocalSandbox.writableRoots]

theorem mem_denying {directory : Bool} {denied : DeniedRead}
    (h : denied ∈ (sandbox.denying path directory).policy.deniedReads) :
    denied ∈ sandbox.policy.deniedReads ∨ denied = ⟨path, directory⟩ := by
  unfold LocalSandbox.denying at h
  split_ifs at h
  · exact .inl h
  · dsimp only at h
    unfold recordDenied at h
    rcases List.mem_append.mp h with h | h
    · split_ifs at h
      · exact .inl (List.mem_filter.mp h).1
      · exact .inl h
    · exact .inr (List.mem_singleton.mp h)

/-- Every root and denied path comes from a call, and no denial is lost. -/
structure Recorded (sandbox : LocalSandbox) (grants : Grants) : Prop where
  workspaces : ∀ root ∈ sandbox.policy.workspaceRoots, root.path ∈ grants.workspaces
  readRoots : ∀ root ∈ sandbox.policy.readRoots, root.path ∈ grants.readRoots
  denied : ∀ denied ∈ sandbox.policy.deniedReads, denied.path ∈ grants.denied

theorem Recorded.call {builder : Builder} (hrecorded : Recorded sandbox grants)
    (h : build host sandbox builder = .ok next) : Recorded next (grants.after host builder) := by
  obtain ⟨hworkspaces, hreads, hdenied⟩ := hrecorded
  cases builder with
  | denyRead path =>
    obtain ⟨location, node, hcanonical, _, _, _, rfl⟩ := denyRead_ok_iff.mp h
    have hafter : (grants.after host (.denyRead path)) =
        { grants with denied := grants.denied ++ [location] } := by
      simp [Grants.after, hcanonical, Except.toOption]
    obtain ⟨_, hworkspace, hread, _⟩ := denying_rest sandbox location node.isDir
    rw [hafter]
    refine ⟨by rw [hworkspace]; exact hworkspaces, by rw [hread]; exact hreads, ?_⟩
    intro denied hmem
    rcases mem_denying hmem with hmem | rfl
    · exact List.mem_append_left _ (hdenied denied hmem)
    · exact List.mem_append_right _ List.mem_cons_self
  | allowWorkspaceRoot path =>
    obtain ⟨root, hgrant, rfl⟩ := allowWorkspaceRoot_ok_iff.mp h
    obtain ⟨_, hread, hdeny, _⟩ := withWorkspaceRoot_rest sandbox root
    have hafter : (grants.after host (.allowWorkspaceRoot path)) =
        { grants with workspaces := grants.workspaces ++ [root.path] } := by
      simp [Grants.after, hgrant.canonical, Except.toOption]
    rw [hafter]
    refine ⟨?_, by rw [hread]; exact hreads, by rw [hdeny]; exact hdenied⟩
    intro other hother
    rcases mem_withWorkspaceRoot hother with hother | rfl
    · exact List.mem_append_left _ (hworkspaces other hother)
    · exact List.mem_append_right _ List.mem_cons_self
  | allowReadRoot path =>
    obtain ⟨root, hgrant, rfl⟩ := allowReadRoot_ok_iff.mp h
    obtain ⟨_, hworkspace, hdeny, _⟩ := withReadRoot_rest sandbox root
    have hafter : (grants.after host (.allowReadRoot path)) =
        { grants with readRoots := grants.readRoots ++ [root.path] } := by
      simp [Grants.after, hgrant.canonical, Except.toOption]
    rw [hafter]
    refine ⟨by rw [hworkspace]; exact hworkspaces, ?_, by rw [hdeny]; exact hdenied⟩
    intro other hother
    rcases mem_withReadRoot hother with hother | rfl
    · exact List.mem_append_left _ (hreads other hother)
    · exact List.mem_append_right _ List.mem_cons_self
  | shareTemporaryDirectory owner =>
    cases h
    exact ⟨hworkspaces, hreads, hdenied⟩
  | isolatedExecution session =>
    obtain ⟨_, child, _, rfl⟩ := isolatedExecution_ok_iff.mp h
    exact ⟨hworkspaces, hreads, hdenied⟩

theorem Built.recorded {settled : Host → LocalSandbox → Prop}
    (h : Built settled host sandbox grants) : Recorded sandbox grants := by
  induction h with
  | new hnew =>
    obtain ⟨location, directory, temp, _, _, _, _, rfl⟩ := new_ok_iff.mp hnew
    exact ⟨by simp, by simp, by simp⟩
  | call before hcall ih => exact ih.call hcall
  | changed before hchanged ih => exact ih

theorem unmoved_root {place : Location}
    (h : host.tree.lookup root.path = some (.directory root.directory))
    (hplace : host.tree.locate root.directory = some place) : place = root.path := by
  rw [FileTree.locate_eq_some_iff.mpr h] at hplace
  exact (Option.some.inj hplace).symm

theorem InPlace.unmoved (h : InPlace host sandbox) : Unmoved host sandbox :=
  ⟨fun root hroot _ hplace => unmoved_root (h.roots root hroot) hplace, h.files⟩

theorem isolatedExecution_root {session : String}
    (h : isolatedExecution host sandbox session = .ok next) :
    ∃ location temp, host.tree.lookup location = some (.directory sandbox.policy.rootDir) ∧
      canonicalize host (.ofLocation sandbox.root) = .ok location ∧
      next = ⟨location, sandbox.policy, temp⟩ := by
  obtain ⟨hvalid, child, hchild, rfl⟩ := isolatedExecution_ok_iff.mp h
  obtain ⟨location, directory, temp, hcanonical, hlookup, -, -, rfl⟩ := new_ok_iff.mp hchild
  obtain ⟨node, hnode, hidentity⟩ := validateRoot_ok_iff.mp
    (validateRoots_ok_iff.mp hvalid sandbox.pinned List.mem_cons_self)
  obtain ⟨place, hplace, hfound⟩ := metadata_ok_iff.mp hnode
  obtain rfl : place = location := Except.ok.inj (hplace.symm.trans hcanonical)
  rw [hlookup] at hfound
  rw [← Option.some.inj hfound] at hidentity
  refine ⟨place, temp, ?_, hcanonical, rfl⟩
  rw [hlookup]
  exact congrArg (some ∘ FileNode.directory) hidentity

/-- The roots after a call were roots before it, or are where the call found them. -/
theorem build_roots {builder : Builder} (h : build host sandbox builder = .ok next) :
    ∀ root ∈ next.readableRoots, root ∈ sandbox.readableRoots ∨
      host.tree.lookup root.path = some (.directory root.directory) := by
  intro root hroot
  cases builder with
  | denyRead path =>
    obtain ⟨location, node, _, _, _, _, rfl⟩ := denyRead_ok_iff.mp h
    obtain ⟨hpinned, hworkspace, hread, _⟩ := denying_rest sandbox location node.isDir
    rw [mem_readableRoots, hpinned, hworkspace, hread] at hroot
    exact .inl (mem_readableRoots.mpr hroot)
  | allowWorkspaceRoot path =>
    obtain ⟨added, hgrant, rfl⟩ := allowWorkspaceRoot_ok_iff.mp h
    obtain ⟨hpinned, hread, _, _⟩ := withWorkspaceRoot_rest sandbox added
    rw [mem_readableRoots, hpinned, hread] at hroot
    rcases hroot with hroot | hroot | hroot
    · exact .inl (mem_readableRoots.mpr (.inl hroot))
    · rcases mem_withWorkspaceRoot hroot with hroot | rfl
      · exact .inl (mem_readableRoots.mpr (.inr (.inl hroot)))
      · exact .inr hgrant.found
    · exact .inl (mem_readableRoots.mpr (.inr (.inr hroot)))
  | allowReadRoot path =>
    obtain ⟨added, hgrant, rfl⟩ := allowReadRoot_ok_iff.mp h
    obtain ⟨hpinned, hworkspace, _, _⟩ := withReadRoot_rest sandbox added
    rw [mem_readableRoots, hpinned, hworkspace] at hroot
    rcases hroot with hroot | hroot | hroot
    · exact .inl (mem_readableRoots.mpr (.inl hroot))
    · exact .inl (mem_readableRoots.mpr (.inr (.inl hroot)))
    · rcases mem_withReadRoot hroot with hroot | rfl
      · exact .inl (mem_readableRoots.mpr (.inr (.inr hroot)))
      · exact .inr hgrant.found
  | shareTemporaryDirectory owner =>
    cases h
    exact .inl hroot
  | isolatedExecution session =>
    obtain ⟨location, temp, hlookup, -, rfl⟩ := isolatedExecution_root h
    rcases mem_readableRoots.mp hroot with rfl | hroot
    · exact .inr hlookup
    · exact .inl (mem_readableRoots.mpr (.inr hroot))

theorem build_denied {builder : Builder} (h : build host sandbox builder = .ok next) :
    ∀ denied ∈ next.policy.deniedReads, denied.directory = false →
      denied ∈ sandbox.policy.deniedReads ∨ ¬host.tree.IsDirectory denied.path := by
  intro denied hdenied hflat
  cases builder with
  | denyRead path =>
    obtain ⟨location, node, _, hnode, _, _, rfl⟩ := denyRead_ok_iff.mp h
    rcases mem_denying hdenied with hdenied | rfl
    · exact .inl hdenied
    · exact .inr fun hdirectory => Bool.false_ne_true (hflat.symm.trans (hdirectory.node hnode))
  | allowWorkspaceRoot path =>
    obtain ⟨added, _, rfl⟩ := allowWorkspaceRoot_ok_iff.mp h
    rw [(withWorkspaceRoot_rest sandbox added).2.2.1] at hdenied
    exact .inl hdenied
  | allowReadRoot path =>
    obtain ⟨added, _, rfl⟩ := allowReadRoot_ok_iff.mp h
    rw [(withReadRoot_rest sandbox added).2.2.1] at hdenied
    exact .inl hdenied
  | shareTemporaryDirectory owner =>
    cases h
    exact .inl hdenied
  | isolatedExecution session =>
    obtain ⟨location, temp, -, -, rfl⟩ := isolatedExecution_root h
    exact .inl hdenied

theorem Unmoved.call {builder : Builder} (hunmoved : Unmoved host sandbox)
    (h : build host sandbox builder = .ok next) : Unmoved host next := by
  refine ⟨fun root hroot place hplace => ?_, fun denied hdenied hflat => ?_⟩
  · rcases build_roots h root hroot with hold | hfound
    · exact hunmoved.roots root hold place hplace
    · exact unmoved_root hfound hplace
  · rcases build_denied h denied hdenied hflat with hold | hfile
    · exact hunmoved.files denied hold hflat
    · exact hfile

theorem InPlace.call {builder : Builder} (hplace : InPlace host sandbox)
    (h : build host sandbox builder = .ok next) : InPlace host next := by
  refine ⟨fun root hroot => ?_, fun denied hdenied hflat => ?_⟩
  · rcases build_roots h root hroot with hold | hfound
    · exact hplace.roots root hold
    · exact hfound
  · rcases build_denied h denied hdenied hflat with hold | hfile
    · exact hplace.files denied hold hflat
    · exact hfile

/-- What holds of a sandbox while nothing is moved: roots and denied paths are apart and where they
were, and every path that was denied is covered. -/
structure Guarded (host : Host) (sandbox : LocalSandbox) (grants : Grants) : Prop where
  unmoved : Unmoved host sandbox
  apart : ∀ root ∈ sandbox.readableRoots, ∀ denied ∈ sandbox.policy.deniedReads,
    pathsOverlap root.path denied.path = false
  /-- A denied path is still denied, itself or a directory above it. -/
  covered : ∀ path ∈ grants.denied, ∃ denied ∈ sandbox.policy.deniedReads,
    denied.path = path ∨ denied.directory = true ∧ denied.path <+: path

theorem covered_of_known {node : FileNode} (hunmoved : Unmoved host sandbox)
    (hnode : host.tree.lookup path = some node)
    (hknown : sandbox.policy.deniedReads.any (fun denied =>
      path == denied.path || denied.path.isPrefixOf path) = true) :
    ∃ denied ∈ sandbox.policy.deniedReads,
      denied.path = path ∨ denied.directory = true ∧ denied.path <+: path := by
  obtain ⟨denied, hdenied, hcovers⟩ := List.any_eq_true.mp hknown
  refine ⟨denied, hdenied, ?_⟩
  by_cases hsame : denied.path = path
  · exact .inl hsame
  · have hbegins : denied.path <+: path := by
      simpa [Ne.symm hsame, List.isPrefixOf_iff_prefix] using hcovers
    obtain ⟨below, rfl⟩ := hbegins
    have hbelow : below ≠ [] := fun hempty => hsame (by simp [hempty])
    have hdirectory := FileTree.isDirectory_above below hnode hbelow
    cases hkind : denied.directory with
    | true => exact .inr ⟨rfl, List.prefix_append _ _⟩
    | false => exact absurd hdirectory (hunmoved.files denied hdenied hkind)

theorem recordDenied_covers {denied : List DeniedRead} {directory : Bool} {place : Location}
    (h : ∃ entry ∈ denied, entry.path = place ∨ entry.directory = true ∧ entry.path <+: place) :
    ∃ entry ∈ recordDenied denied path directory,
      entry.path = place ∨ entry.directory = true ∧ entry.path <+: place := by
  obtain ⟨entry, hentry, hcovers⟩ := h
  by_cases hdropped : directory = true ∧ path <+: entry.path
  · obtain ⟨rfl, hbegins⟩ := hdropped
    refine ⟨⟨path, true⟩, List.mem_append_right _ List.mem_cons_self, .inr ⟨rfl, ?_⟩⟩
    rcases hcovers with rfl | ⟨_, hcovers⟩
    · exact hbegins
    · exact hbegins.trans hcovers
  · refine ⟨entry, List.mem_append_left _ ?_, hcovers⟩
    split_ifs with hdirectory
    · refine List.mem_filter.mpr ⟨hentry, ?_⟩
      simpa [hdirectory, ← List.isPrefixOf_iff_prefix] using hdropped
    · exact hentry

theorem Guarded.deny {path : FilePath} (hguarded : Guarded host sandbox grants)
    (h : denyRead host sandbox path = .ok next) :
    Guarded host next (grants.after host (.denyRead path)) := by
  have hbuild : build host sandbox (.denyRead path) = .ok next := h
  have hunmoved := hguarded.unmoved.call hbuild
  obtain ⟨location, node, hcanonical, hnode, hkind, hapart, rfl⟩ := denyRead_ok_iff.mp h
  obtain ⟨hpinned, hworkspace, hread, _⟩ := denying_rest sandbox location node.isDir
  have hroots : (sandbox.denying location node.isDir).readableRoots = sandbox.readableRoots := by
    simp [LocalSandbox.readableRoots, LocalSandbox.writableRoots, hpinned, hworkspace, hread]
  have hafter : (grants.after host (.denyRead path)) =
      { grants with denied := grants.denied ++ [location] } := by
    simp [Grants.after, hcanonical, Except.toOption]
  rw [hafter]
  refine ⟨hunmoved, ?_, ?_⟩
  · rw [hroots]
    intro root hroot denied hdenied
    rcases mem_denying hdenied with hdenied | rfl
    · exact hguarded.apart root hroot denied hdenied
    · exact hapart root hroot
  · intro place hplace
    unfold LocalSandbox.denying
    split_ifs with hknown
    · rcases List.mem_append.mp hplace with hplace | hplace
      · exact hguarded.covered place hplace
      · rw [List.mem_singleton.mp hplace]
        exact covered_of_known hguarded.unmoved hnode hknown
    · rcases List.mem_append.mp hplace with hplace | hplace
      · exact recordDenied_covers (hguarded.covered place hplace)
      · refine ⟨⟨location, node.isDir⟩, List.mem_append_right _ List.mem_cons_self, .inl ?_⟩
        exact (List.mem_singleton.mp hplace).symm

theorem Guarded.grant {later : Grants} {path : FilePath} (hguarded : Guarded host sandbox grants)
    (hunmoved : Unmoved host next) (hgrant : Grantable host sandbox path root)
    (hroots : ∀ other ∈ next.readableRoots, other ∈ sandbox.readableRoots ∨ other = root)
    (hdenied : next.policy.deniedReads = sandbox.policy.deniedReads)
    (hlater : later.denied = grants.denied) : Guarded host next later := by
  refine ⟨hunmoved, ?_, ?_⟩
  · rw [hdenied]
    intro other hother denied hmem
    rcases hroots other hother with hother | rfl
    · exact hguarded.apart other hother denied hmem
    · exact hgrant.apart denied hmem
  · rw [hlater, hdenied]
    exact hguarded.covered

/-- A successful call keeps roots and denied paths apart and in place. -/
theorem Guarded.call {builder : Builder} (hguarded : Guarded host sandbox grants)
    (h : build host sandbox builder = .ok next) :
    Guarded host next (grants.after host builder) := by
  have hunmoved := hguarded.unmoved.call h
  cases builder with
  | denyRead path => exact hguarded.deny h
  | allowWorkspaceRoot path =>
    obtain ⟨root, hgrant, rfl⟩ := allowWorkspaceRoot_ok_iff.mp h
    obtain ⟨hpinned, hread, hdeny, _⟩ := withWorkspaceRoot_rest sandbox root
    refine hguarded.grant hunmoved hgrant ?_ hdeny rfl
    intro other hother
    rcases mem_readableRoots.mp hother with hother | hother | hother
    · rw [hpinned] at hother
      exact .inl (mem_readableRoots.mpr (.inl hother))
    · rcases mem_withWorkspaceRoot hother with hother | hother
      · exact .inl (mem_readableRoots.mpr (.inr (.inl hother)))
      · exact .inr hother
    · rw [hread] at hother
      exact .inl (mem_readableRoots.mpr (.inr (.inr hother)))
  | allowReadRoot path =>
    obtain ⟨root, hgrant, rfl⟩ := allowReadRoot_ok_iff.mp h
    obtain ⟨hpinned, hworkspace, hdeny, _⟩ := withReadRoot_rest sandbox root
    refine hguarded.grant hunmoved hgrant ?_ hdeny rfl
    intro other hother
    rcases mem_readableRoots.mp hother with hother | hother | hother
    · rw [hpinned] at hother
      exact .inl (mem_readableRoots.mpr (.inl hother))
    · rw [hworkspace] at hother
      exact .inl (mem_readableRoots.mpr (.inr (.inl hother)))
    · rcases mem_withReadRoot hother with hother | hother
      · exact .inl (mem_readableRoots.mpr (.inr (.inr hother)))
      · exact .inr hother
  | shareTemporaryDirectory owner =>
    cases h
    exact ⟨hunmoved, hguarded.apart, hguarded.covered⟩
  | isolatedExecution session =>
    obtain ⟨location, temp, hlookup, -, rfl⟩ := isolatedExecution_root h
    -- The pinned directory was not moved, so the new root is the old one.
    have hsame : location = sandbox.root := hguarded.unmoved.roots sandbox.pinned
      (mem_readableRoots.mpr (.inl rfl)) location (FileTree.locate_eq_some_iff.mpr hlookup)
    rw [hsame] at hunmoved ⊢
    exact ⟨hunmoved, hguarded.apart, hguarded.covered⟩

theorem new_inPlace {path : FilePath} {session : String}
    (h : LocalSandbox.new host path session = .ok sandbox) : InPlace host sandbox := by
  obtain ⟨location, directory, temp, _, hlookup, _, _, rfl⟩ := new_ok_iff.mp h
  refine ⟨?_, by simp⟩
  intro root hroot
  have hpinned : root = ⟨location, directory⟩ := by
    simpa [LocalSandbox.readableRoots, LocalSandbox.writableRoots, LocalSandbox.pinned]
      using hroot
  rw [hpinned]
  exact hlookup

theorem Built.guarded (h : Built Unmoved host sandbox grants) : Guarded host sandbox grants := by
  induction h with
  | new hnew =>
    obtain ⟨location, directory, temp, _, hlookup, _, _, rfl⟩ := new_ok_iff.mp hnew
    exact ⟨(new_inPlace hnew).unmoved, by simp, by simp⟩
  | call before hcall ih => exact ih.call hcall
  | changed before hchanged ih => exact ⟨hchanged, ih.apart, ih.covered⟩

end Runs

section Denials

variable {host : Host} {sandbox : LocalSandbox}

def InTemporary (host : Host) (sandbox : LocalSandbox) (location : Location) : Prop :=
  ∃ base, canonicalize host sandbox.temp.path = .ok base ∧ base <+: location

theorem Guarded.spared {grants : Grants} {parent : Location} {name : String}
    (hguarded : Guarded host sandbox grants) (hparent : host.tree.IsDirectory parent)
    (hspared : ∀ entry ∈ sandbox.policy.deniedReads,
      DeniedRead.covers entry (parent ++ [name]) = false)
    {path : Location} (hpath : path ∈ grants.denied) : ¬path <+: parent ++ [name] := by
  intro hunder
  obtain ⟨denied, hdenied, hcovers⟩ := hguarded.covered path hpath
  have habove : denied.path <+: parent ++ [name] := by
    rcases hcovers with hsame | ⟨_, hbegins⟩
    · rw [hsame]
      exact hunder
    · exact hbegins.trans hunder
  have hspare := hspared denied hdenied
  unfold DeniedRead.covers at hspare
  cases hkind : denied.directory with
  | true => simp [hkind, List.isPrefixOf_iff_prefix.mpr habove] at hspare
  | false =>
    obtain hsame | habove := List.prefix_concat_iff.mp habove
    · simp [hsame] at hspare
    · obtain ⟨rest, hrest⟩ := habove
      obtain ⟨directory, hlookup⟩ := hparent
      rw [← hrest] at hlookup
      have hdirectory : host.tree.IsDirectory denied.path := by
        by_cases hempty : rest = []
        · rw [hempty, List.append_nil] at hlookup
          exact ⟨directory, hlookup⟩
        · exact FileTree.isDirectory_above rest hlookup hempty
      exact hguarded.unmoved.files denied hdenied hkind hdirectory

/-- Nothing a successful operation touches is at or under a denied path, the temporary directory
apart. -/
theorem perform_spares {operation : Operation} {outcome : Outcome} {grants : Grants}
    (hguarded : Guarded host sandbox grants)
    (h : perform host sandbox operation = .ok outcome) :
    ∃ location, touched host sandbox operation = some location ∧
      operation.Acts host.tree location outcome ∧
      ∀ path ∈ grants.denied, path <+: location →
        ¬Operation.FullAccess operation ∧ InTemporary host sandbox location := by
  obtain ⟨found, requested, base, name, htarget, hbase, hname, htouched, hparent, hacts⟩ :=
    perform_acts h
  refine ⟨_, htouched, hacts, ?_⟩
  intro path hpath hunder
  obtain ⟨denied, hdenied, hcovers⟩ := hguarded.covered path hpath
  have habove : denied.path <+: base ++ names found.2 := by
    rcases hcovers with hsame | ⟨_, hbegins⟩
    · rw [hsame]
      exact hunder
    · exact hbegins.trans hunder
  -- An unmoved root is the base of what lies below it, so that both would be above the location.
  have hroot : ∀ root ∈ sandbox.readableRoots, found.1 = root.directory → False := by
    intro root hmem hdirectory
    rw [hdirectory] at hbase
    have hplace := (hguarded.unmoved.roots root hmem base hbase).symm
    have hoverlap := @pathsOverlap_of_start root.path denied.path (base ++ names found.2)
      (by rw [hplace]; exact List.prefix_append _ _) habove
    rw [hguarded.apart root hmem denied hdenied] at hoverlap
    cases hoverlap
  rcases target_cases htarget with ⟨hconfined, text, hresolved⟩ | ⟨_, full, shown, hfull⟩
  · cases hresolved with
    | temporary hstripped hdown hvalid =>
      exact ⟨hconfined, base, validateRoot_located hvalid hbase, List.prefix_append _ _⟩
    | relative hoff hrelative hdown hvalid =>
      exact absurd rfl (hroot sandbox.pinned (mem_readableRoots.mpr (.inl rfl)))
    | root hmem hoff habsolute hstripped hdown hvalid =>
      exact absurd rfl (hroot _ (roots_readable hmem))
  · obtain ⟨last, parent, directory, hlast, hcanonical, hspared, hlookup, rfl⟩ :=
      fullAccessTarget_ok_iff.mp hfull
    rw [FileTree.locate_eq_some_iff.mpr hlookup] at hbase
    cases hbase
    exact absurd hunder (hguarded.spared ⟨directory, hlookup⟩ hspared hpath)

end Denials

end MobiusAgent.SandboxGrants
