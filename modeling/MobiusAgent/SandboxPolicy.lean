import MobiusAgent.CheckpointValidation
import MobiusAgent.FileTrees

/-!
# The local sandbox and its policy

`LocalSandbox` of `backend/sandbox/local.rs` with the part of its policy the
file tools read: the root, the workspace and read roots with their pinned
directories, the denied paths and the temporary directory. The builders run
on a host, whose file tree may change between two calls.
-/

namespace MobiusAgent.SandboxPolicy

open ProtocolEvents CheckpointValidation FileTrees

/-- What a process sees of its system. -/
structure Host where
  tree : FileTree
  /-- The working directory relative paths start at. -/
  current : Location
  settled : tree.IsDirectory current
  /-- How many links the system follows in one path. -/
  linkLimit : Nat
  /-- `TEMP_PARENT`: the directory of all private temporary storage, or why there is none. -/
  temporaryStorage : Except String FilePath
  /-- The text of a failed system call. -/
  systemError : String

inductive SandboxMode where
  | workspaceWrite
  /-- Everything but denied paths. -/
  | dangerFullAccess
  deriving DecidableEq, Repr

/-- A granted directory and the open directory it was. -/
structure PinnedRoot where
  path : Location
  /-- The identity of the open directory. -/
  directory : Nat
  deriving DecidableEq, Repr

structure DeniedRead where
  path : Location
  directory : Bool
  deriving DecidableEq, Repr

/-- A private temporary directory. -/
structure Temporary where
  path : FilePath
  /-- The identity of the open directory. -/
  root : Nat
  deriving DecidableEq, Repr

/-- The part of the policy the file tools read. -/
structure Policy where
  rootDir : Nat
  /-- Additional directories to read and write. -/
  workspaceRoots : List PinnedRoot
  readRoots : List PinnedRoot
  deniedReads : List DeniedRead
  deriving DecidableEq, Repr

structure LocalSandbox where
  root : Location
  policy : Policy
  temp : Temporary
  deriving DecidableEq, Repr

def displayPath (path : FilePath) : String :=
  (if path.absolute then "/" else "") ++ String.intercalate "/" path.segments

/-- The text of a canonical path. -/
def display (location : Location) : String := displayPath (.ofLocation location)

section Lookups

variable (host : Host)

def Host.start (path : FilePath) : Location := if path.absolute then [] else host.current

theorem Host.start_isDirectory (path : FilePath) : host.tree.IsDirectory (host.start path) := by
  unfold Host.start
  split_ifs with h
  · exact FileTree.isDirectory_root
  · exact host.settled

/-- `canonicalize` of the standard library. -/
def canonicalize (path : FilePath) : Except Error Location :=
  if path.absolute = false ∧ path.segments = [] then .error (.io host.systemError)
  else
    match resolve host.tree host.linkLimit (host.start path) path.segments with
    | some location => .ok location
    | none => .error (.io host.systemError)

/-- `metadata` of the standard library: the entry a path leads to. -/
def metadata (path : FilePath) : Except Error FileNode :=
  match canonicalize host path with
  | .error error => .error error
  | .ok location =>
    match host.tree.lookup location with
    | some node => .ok node
    | none => .error (.io host.systemError)

/-- `is_dir` of a path. -/
def isDir (path : FilePath) : Bool :=
  match metadata host path with
  | .ok node => node.isDir
  | .error _ => false

/-- `open_ambient_dir`: the directory a path leads to, opened. -/
def openAmbientDir (path : FilePath) : Except Error Nat :=
  match metadata host path with
  | .ok (.directory identity) => .ok identity
  | .ok _ => .error (.io host.systemError)
  | .error error => .error error

/-- `validate_root`: the path still leads to the open directory. -/
def validateRoot (path : FilePath) (shown : String) (directory : Nat) : Check :=
  match metadata host path with
  | .error _ =>
    .error (.sandbox ("sandbox root unavailable at " ++ shown ++ ": " ++ host.systemError))
  | .ok node =>
    rejectIf (node.identity != directory) (.sandbox "sandbox root changed after initialization")

/-- `pin_directory`. A directory pinned before is used again only where it is the same one. -/
def pinDirectory (path : Location) : Except Error Nat := do
  let directory ← openAmbientDir host (.ofLocation path)
  validateRoot host (.ofLocation path) (display path) directory
  return directory

variable {host}

variable {location : Location} {path : FilePath} {node : FileNode}

theorem canonicalize_lookup (h : canonicalize host path = .ok location) :
    ∃ node, host.tree.lookup location = some node ∧ node.isSymlink = false := by
  unfold canonicalize at h
  split_ifs at h with hempty
  cases hresolved : resolve host.tree host.linkLimit (host.start path) path.segments with
  | none =>
    rw [hresolved] at h
    cases h
  | some found =>
    rw [hresolved] at h
    cases h
    exact resolve_lookup (host.start_isDirectory path) hresolved

theorem canonicalize_location (h : host.tree.lookup location = some node)
    (hlink : node.isSymlink = false) : canonicalize host (.ofLocation location) = .ok location := by
  have hresolved : resolve host.tree host.linkLimit (host.start (.ofLocation location))
      (FilePath.ofLocation location).segments = some location := resolve_location h hlink
  unfold canonicalize
  rw [if_neg (by simp [FilePath.ofLocation]), hresolved]

theorem metadata_ok_iff :
    metadata host path = .ok node ↔
      ∃ location, canonicalize host path = .ok location ∧ host.tree.lookup location = some node := by
  unfold metadata
  cases hpath : canonicalize host path with
  | error error => simp
  | ok location =>
    cases hnode : host.tree.lookup location with
    | none | some found => simp [hnode]

theorem metadata_location (h : host.tree.lookup location = some node)
    (hlink : node.isSymlink = false) : metadata host (.ofLocation location) = .ok node :=
  metadata_ok_iff.mpr ⟨location, canonicalize_location h hlink, h⟩

theorem openAmbientDir_ok_iff {identity : Nat} :
    openAmbientDir host path = .ok identity ↔
      ∃ location, canonicalize host path = .ok location ∧
        host.tree.lookup location = some (.directory identity) := by
  rw [← metadata_ok_iff]
  unfold openAmbientDir
  cases hnode : metadata host path with
  | error error => simp
  | ok node => cases node <;> simp

theorem validateRoot_ok_iff {path : FilePath} {shown : String} {directory : Nat} :
    validateRoot host path shown directory = .ok () ↔
      ∃ node, metadata host path = .ok node ∧ node.identity = directory := by
  unfold validateRoot
  cases hnode : metadata host path with
  | error error => simp
  | ok node => simp [rejectIf_ok_iff]

theorem pinDirectory_ok_iff {path : Location} {directory : Nat}
    (hcanonical : canonicalize host (.ofLocation path) = .ok path) :
    pinDirectory host path = .ok directory ↔
      host.tree.lookup path = some (.directory directory) := by
  constructor
  · intro h
    obtain ⟨found, hopen, hrest⟩ := bind_ok h
    obtain ⟨_, hvalid, hsame⟩ := bind_ok hrest
    cases hsame
    obtain ⟨location, hpath, hnode⟩ := openAmbientDir_ok_iff.mp hopen
    rw [hcanonical] at hpath
    cases hpath
    exact hnode
  · intro hnode
    have hopen := openAmbientDir_ok_iff.mpr ⟨path, hcanonical, hnode⟩
    have hmetadata := metadata_ok_iff.mpr ⟨path, hcanonical, hnode⟩
    have hvalid := (@validateRoot_ok_iff host (.ofLocation path) (display path) directory).mpr
      ⟨_, hmetadata, rfl⟩
    refine except_bind_ok_iff.mpr ⟨directory, hopen, ?_⟩
    exact except_bind_ok_iff.mpr ⟨(), hvalid, rfl⟩

end Lookups

section Builders

/-- `paths_overlap`: one path starts with the other. -/
def pathsOverlap (left right : Location) : Bool :=
  right.isPrefixOf left || left.isPrefixOf right

theorem pathsOverlap_iff {left right : Location} :
    pathsOverlap left right = true ↔ right <+: left ∨ left <+: right := by
  simp [pathsOverlap, List.isPrefixOf_iff_prefix]

theorem pathsOverlap_of_start {left right below : Location} (hleft : left <+: below)
    (hright : right <+: below) : pathsOverlap left right = true :=
  pathsOverlap_iff.mpr (List.prefix_or_prefix_of_prefix hright hleft)

variable (host : Host)

def validatePublicRoot (path : Location) : Check :=
  match host.temporaryStorage with
  | .error error => .error (.sandbox ("temporary storage unavailable: " ++ error))
  | .ok parent => do
    let storage ← canonicalize host parent
    rejectIf (pathsOverlap path storage)
      (.config "sandbox roots must not overlap private temporary storage")

/-- The temporary directory a session gets. The system chooses its name. -/
def makeTemporary (session : String) : Except Error Temporary :=
  match host.temporaryStorage with
  | .error error => .error (.sandbox ("temporary storage unavailable: " ++ error))
  | .ok parent => do
    let root ← openAmbientDir host (parent.join session)
    return ⟨parent.join session, root⟩

def LocalSandbox.new (root : FilePath) (session : String) : Except Error LocalSandbox := do
  let root ← canonicalize host root
  rejectIf (!isDir host (.ofLocation root))
    (.config ("sandbox root is not a directory: " ++ display root))
  validatePublicRoot host root
  let rootDir ← pinDirectory host root
  let temp ← makeTemporary host session
  return ⟨root, ⟨rootDir, [], [], []⟩, temp⟩

/-- Every root still is the pinned directory. -/
def validateRoots : List PinnedRoot → Check
  | [] => .ok ()
  | root :: rest => do
    validateRoot host (.ofLocation root.path) (display root.path) root.directory
    validateRoots rest

variable (sandbox : LocalSandbox)

def LocalSandbox.pinned : PinnedRoot := ⟨sandbox.root, sandbox.policy.rootDir⟩

/-- The roots `write_target` looks through. -/
def LocalSandbox.writableRoots : List PinnedRoot :=
  sandbox.pinned :: sandbox.policy.workspaceRoots

/-- The roots `read_target` looks through. -/
def LocalSandbox.readableRoots : List PinnedRoot :=
  sandbox.writableRoots ++ sandbox.policy.readRoots

def validateWorkspaceRoots : Check := validateRoots host sandbox.writableRoots

/-- `isolated_execution`: the same policy with a temporary directory of its own. -/
def isolatedExecution (session : String) : Except Error LocalSandbox := do
  validateWorkspaceRoots host sandbox
  let child ← LocalSandbox.new host (.ofLocation sandbox.root) session
  return { child with policy := sandbox.policy }

def shareTemporaryDirectory (owner : LocalSandbox) : LocalSandbox :=
  { sandbox with temp := owner.temp }

def recordDenied (denied : List DeniedRead) (path : Location) (directory : Bool) :
    List DeniedRead :=
  (if directory then denied.filter fun entry => !path.isPrefixOf entry.path else denied) ++
    [⟨path, directory⟩]

def denyRead (path : FilePath) : Except Error LocalSandbox := do
  let path ← canonicalize host path
  rejectIf (pathsOverlap sandbox.root path)
    (.config "sandbox root and denied read path must not overlap")
  rejectIf (sandbox.policy.workspaceRoots.any fun root => pathsOverlap root.path path)
    (.config "workspace root and denied read path must not overlap")
  rejectIf (sandbox.policy.readRoots.any fun root => pathsOverlap root.path path)
    (.config "read root and denied read path must not overlap")
  let metadata ← metadata host (.ofLocation path)
  rejectIf (!metadata.isDir && !metadata.isFile)
    (.config ("denied read path is not a file or directory: " ++ display path))
  if sandbox.policy.deniedReads.any fun denied =>
      path == denied.path || denied.path.isPrefixOf path then
    return sandbox
  return { sandbox with
    policy := { sandbox.policy with
      deniedReads := recordDenied sandbox.policy.deniedReads path metadata.isDir } }

/-- The checks of a directory to grant, as either kind of root. -/
def grantedDirectory (kind : String) (path : FilePath) : Except Error Location := do
  let path ← canonicalize host path
  validatePublicRoot host path
  rejectIf (!isDir host (.ofLocation path))
    (.config (kind ++ " is not a directory: " ++ display path))
  rejectIf (sandbox.policy.deniedReads.any fun denied => pathsOverlap path denied.path)
    (.config (kind ++ " and denied read path must not overlap"))
  return path

def allowWorkspaceRoot (path : FilePath) : Except Error LocalSandbox := do
  let path ← grantedDirectory host sandbox "workspace root" path
  if path == sandbox.root || sandbox.policy.workspaceRoots.any fun root => root.path == path then
    return sandbox
  let directory ← pinDirectory host path
  return { sandbox with
    policy := { sandbox.policy with
      workspaceRoots := sandbox.policy.workspaceRoots ++ [⟨path, directory⟩] } }

def allowReadRoot (path : FilePath) : Except Error LocalSandbox := do
  let path ← grantedDirectory host sandbox "read root" path
  if sandbox.policy.readRoots.any fun root => root.path == path then
    return sandbox
  let directory ← pinDirectory host path
  return { sandbox with
    policy := { sandbox.policy with
      readRoots := sandbox.policy.readRoots ++ [⟨path, directory⟩] } }

inductive Builder where
  | denyRead (path : FilePath)
  | allowWorkspaceRoot (path : FilePath)
  | allowReadRoot (path : FilePath)
  | shareTemporaryDirectory (owner : LocalSandbox)
  /-- `isolated_execution`, with the name its temporary directory gets. -/
  | isolatedExecution (session : String)
  deriving DecidableEq

/-- The sandbox a call gives. -/
def build : Builder → Except Error LocalSandbox
  | .denyRead path => denyRead host sandbox path
  | .allowWorkspaceRoot path => allowWorkspaceRoot host sandbox path
  | .allowReadRoot path => allowReadRoot host sandbox path
  | .shareTemporaryDirectory owner => .ok (shareTemporaryDirectory sandbox owner)
  | .isolatedExecution session => isolatedExecution host sandbox session

/-- The sandbox some calls in a row give. -/
def buildAll : LocalSandbox → List Builder → Except Error LocalSandbox
  | sandbox, [] => .ok sandbox
  | sandbox, builder :: rest => do
    let next ← build host sandbox builder
    buildAll next rest

end Builders

section Specifications

variable {host : Host} {sandbox next : LocalSandbox}

/-- A location may be a root: it does not overlap the private temporary storage. -/
def PublicRoot (host : Host) (location : Location) : Prop :=
  validatePublicRoot host location = .ok ()

variable {location : Location} {path : FilePath}

theorem isDir_location (hcanonical : canonicalize host (.ofLocation location) = .ok location) :
    isDir host (.ofLocation location) = true ↔ host.tree.IsDirectory location := by
  unfold isDir
  cases hnode : metadata host (.ofLocation location) with
  | error error =>
    constructor
    · intro h
      cases h
    · rintro ⟨identity, hdirectory⟩
      have hfound := metadata_ok_iff.mpr ⟨location, hcanonical, hdirectory⟩
      rw [hnode] at hfound
      cases hfound
  | ok node =>
    obtain ⟨place, hplace, hlookup⟩ := metadata_ok_iff.mp hnode
    rw [hcanonical] at hplace
    cases hplace
    dsimp only
    rw [FileNode.isDir_iff]
    constructor
    · rintro ⟨identity, rfl⟩
      exact ⟨identity, hlookup⟩
    · rintro ⟨identity, hdirectory⟩
      rw [hlookup] at hdirectory
      exact ⟨identity, Option.some.inj hdirectory⟩

theorem canonicalize_idem (h : canonicalize host path = .ok location) :
    canonicalize host (.ofLocation location) = .ok location := by
  obtain ⟨node, hnode, hlink⟩ := canonicalize_lookup h
  exact canonicalize_location hnode hlink

theorem new_ok_iff {root : FilePath} {session : String} :
    LocalSandbox.new host root session = .ok sandbox ↔
      ∃ location directory temp, canonicalize host root = .ok location ∧
        host.tree.lookup location = some (.directory directory) ∧ PublicRoot host location ∧
        makeTemporary host session = .ok temp ∧
        sandbox = ⟨location, ⟨directory, [], [], []⟩, temp⟩ := by
  constructor
  · intro h
    obtain ⟨location, hcanonical, h⟩ := bind_ok h
    obtain ⟨_, hdir, h⟩ := bind_ok h
    obtain ⟨_, hpublic, h⟩ := bind_ok h
    obtain ⟨directory, hpinned, h⟩ := bind_ok h
    obtain ⟨temp, htemp, h⟩ := bind_ok h
    cases h
    have hlookup := (pinDirectory_ok_iff (canonicalize_idem hcanonical)).mp hpinned
    exact ⟨location, directory, temp, hcanonical, hlookup, hpublic, htemp, rfl⟩
  · rintro ⟨location, directory, temp, hcanonical, hlookup, hpublic, htemp, rfl⟩
    have hidem := canonicalize_idem hcanonical
    have hdir := (isDir_location hidem).mpr ⟨directory, hlookup⟩
    have hpinned := (pinDirectory_ok_iff hidem).mpr hlookup
    refine except_bind_ok_iff.mpr ⟨location, hcanonical, ?_⟩
    refine except_bind_ok_iff.mpr ⟨(), rejectIf_ok_iff.mpr (by simp [hdir]), ?_⟩
    refine except_bind_ok_iff.mpr ⟨(), hpublic, ?_⟩
    refine except_bind_ok_iff.mpr ⟨directory, hpinned, ?_⟩
    exact except_bind_ok_iff.mpr ⟨temp, htemp, rfl⟩

theorem readableRoots_apart_iff :
    (∀ root ∈ sandbox.readableRoots, pathsOverlap root.path location = false) ↔
      pathsOverlap sandbox.root location = false ∧
      (sandbox.policy.workspaceRoots.any fun root => pathsOverlap root.path location) = false ∧
      (sandbox.policy.readRoots.any fun root => pathsOverlap root.path location) = false := by
  simp only [LocalSandbox.readableRoots, LocalSandbox.writableRoots, LocalSandbox.pinned,
    List.any_eq_false, List.mem_append, List.mem_cons, Bool.not_eq_true]
  constructor
  · intro h
    exact ⟨h _ (.inl (.inl rfl)), fun root hroot => h root (.inl (.inr hroot)),
      fun root hroot => h root (.inr hroot)⟩
  · rintro ⟨hpinned, hworkspace, hread⟩ root ((rfl | hroot) | hroot)
    · exact hpinned
    · exact hworkspace root hroot
    · exact hread root hroot

/-- The policy after a denied path. -/
def LocalSandbox.denying (sandbox : LocalSandbox) (path : Location) (directory : Bool) :
    LocalSandbox :=
  if sandbox.policy.deniedReads.any fun denied =>
      path == denied.path || denied.path.isPrefixOf path then sandbox
  else
    { sandbox with
      policy := { sandbox.policy with
        deniedReads := recordDenied sandbox.policy.deniedReads path directory } }

/-- The policy after a workspace root. -/
def LocalSandbox.withWorkspaceRoot (sandbox : LocalSandbox) (root : PinnedRoot) : LocalSandbox :=
  if root.path == sandbox.root ||
      sandbox.policy.workspaceRoots.any fun other => other.path == root.path then sandbox
  else
    { sandbox with
      policy := { sandbox.policy with
        workspaceRoots := sandbox.policy.workspaceRoots ++ [root] } }

/-- The policy after a read root. -/
def LocalSandbox.withReadRoot (sandbox : LocalSandbox) (root : PinnedRoot) : LocalSandbox :=
  if sandbox.policy.readRoots.any fun other => other.path == root.path then sandbox
  else
    { sandbox with
      policy := { sandbox.policy with readRoots := sandbox.policy.readRoots ++ [root] } }

theorem denyRead_ok_iff :
    denyRead host sandbox path = .ok next ↔
      ∃ location node, canonicalize host path = .ok location ∧
        host.tree.lookup location = some node ∧ (node.isDir || node.isFile) = true ∧
        (∀ root ∈ sandbox.readableRoots, pathsOverlap root.path location = false) ∧
        next = sandbox.denying location node.isDir := by
  constructor
  · intro h
    obtain ⟨location, hcanonical, h⟩ := bind_ok h
    obtain ⟨_, hroot, h⟩ := bind_ok h
    obtain ⟨_, hworkspace, h⟩ := bind_ok h
    obtain ⟨_, hread, h⟩ := bind_ok h
    obtain ⟨node, hnode, h⟩ := bind_ok h
    obtain ⟨_, hkind, h⟩ := bind_ok h
    obtain ⟨place, hplace, hlookup⟩ := metadata_ok_iff.mp hnode
    rw [canonicalize_idem hcanonical] at hplace
    cases hplace
    have hkinds : (node.isDir || node.isFile) = true := by
      have hnot := rejectIf_ok_iff.mp hkind
      cases hdir : node.isDir <;> simp_all
    refine ⟨location, node, hcanonical, hlookup, hkinds, readableRoots_apart_iff.mpr
      ⟨rejectIf_ok_iff.mp hroot, rejectIf_ok_iff.mp hworkspace,
        rejectIf_ok_iff.mp hread⟩, ?_⟩
    unfold LocalSandbox.denying
    split_ifs at h ⊢ with hcovered
    · exact (Except.ok.inj h).symm
    · exact (Except.ok.inj h).symm
  · rintro ⟨location, node, hcanonical, hlookup, hkinds, hapart, rfl⟩
    obtain ⟨hroot, hworkspace, hread⟩ := readableRoots_apart_iff.mp hapart
    have hnode := metadata_ok_iff.mpr ⟨location, canonicalize_idem hcanonical, hlookup⟩
    have hkind : (!node.isDir && !node.isFile) = false := by
      cases hdir : node.isDir <;> simp_all
    refine except_bind_ok_iff.mpr ⟨location, hcanonical, ?_⟩
    refine except_bind_ok_iff.mpr ⟨(), rejectIf_ok_iff.mpr hroot, ?_⟩
    refine except_bind_ok_iff.mpr ⟨(), rejectIf_ok_iff.mpr hworkspace, ?_⟩
    refine except_bind_ok_iff.mpr ⟨(), rejectIf_ok_iff.mpr hread, ?_⟩
    refine except_bind_ok_iff.mpr ⟨node, hnode, ?_⟩
    refine except_bind_ok_iff.mpr ⟨(), rejectIf_ok_iff.mpr hkind, ?_⟩
    unfold LocalSandbox.denying
    split_ifs with hcovered
    · rfl
    · rfl

/-- A directory granted at a location: public, and apart from every denied path. -/
structure Grantable (host : Host) (sandbox : LocalSandbox) (path : FilePath)
    (root : PinnedRoot) : Prop where
  canonical : canonicalize host path = .ok root.path
  found : host.tree.lookup root.path = some (.directory root.directory)
  isPublic : PublicRoot host root.path
  apart : ∀ denied ∈ sandbox.policy.deniedReads, pathsOverlap root.path denied.path = false

theorem grantedDirectory_ok_iff {kind : String} {path : FilePath} {location : Location} :
    grantedDirectory host sandbox kind path = .ok location ↔
      ∃ directory, Grantable host sandbox path ⟨location, directory⟩ := by
  constructor
  · intro h
    obtain ⟨place, hcanonical, h⟩ := bind_ok h
    obtain ⟨_, hpublic, h⟩ := bind_ok h
    obtain ⟨_, hdir, h⟩ := bind_ok h
    obtain ⟨_, hapart, h⟩ := bind_ok h
    cases h
    have hisDir : isDir host (.ofLocation location) = true := by
      simpa using rejectIf_ok_iff.mp hdir
    obtain ⟨directory, hlookup⟩ := (isDir_location (canonicalize_idem hcanonical)).mp hisDir
    exact ⟨directory, hcanonical, hlookup, hpublic, by
      simpa using rejectIf_ok_iff.mp hapart⟩
  · rintro ⟨directory, hcanonical, hlookup, hpublic, hapart⟩
    have hdir := (isDir_location (canonicalize_idem hcanonical)).mpr ⟨directory, hlookup⟩
    refine except_bind_ok_iff.mpr ⟨location, hcanonical, ?_⟩
    refine except_bind_ok_iff.mpr ⟨(), hpublic, ?_⟩
    refine except_bind_ok_iff.mpr ⟨(), rejectIf_ok_iff.mpr (by simp [hdir]), ?_⟩
    exact except_bind_ok_iff.mpr
      ⟨(), rejectIf_ok_iff.mpr (by simpa using hapart), rfl⟩

theorem Grantable.pinned {root : PinnedRoot} (h : Grantable host sandbox path root)
    {directory : Nat} :
    pinDirectory host root.path = .ok directory ↔ directory = root.directory := by
  rw [pinDirectory_ok_iff (canonicalize_idem h.canonical), h.found]
  simp [eq_comm]

theorem allowWorkspaceRoot_ok_iff :
    allowWorkspaceRoot host sandbox path = .ok next ↔
      ∃ root, Grantable host sandbox path root ∧ next = sandbox.withWorkspaceRoot root := by
  constructor
  · intro h
    obtain ⟨location, hgranted, h⟩ := bind_ok h
    obtain ⟨directory, hgrant⟩ := grantedDirectory_ok_iff.mp hgranted
    refine ⟨_, hgrant, ?_⟩
    unfold LocalSandbox.withWorkspaceRoot
    split_ifs at h ⊢ with hknown
    · exact (Except.ok.inj h).symm
    · obtain ⟨found, hpinned, h⟩ := bind_ok h
      cases hgrant.pinned.mp hpinned
      exact (Except.ok.inj h).symm
  · rintro ⟨root, hgrant, rfl⟩
    have hgranted := @grantedDirectory_ok_iff host sandbox "workspace root" path root.path
    refine except_bind_ok_iff.mpr ⟨root.path, hgranted.mpr ⟨_, hgrant⟩, ?_⟩
    unfold LocalSandbox.withWorkspaceRoot
    split_ifs with hknown
    · rfl
    · exact except_bind_ok_iff.mpr ⟨root.directory, hgrant.pinned.mpr rfl, rfl⟩

theorem allowReadRoot_ok_iff :
    allowReadRoot host sandbox path = .ok next ↔
      ∃ root, Grantable host sandbox path root ∧ next = sandbox.withReadRoot root := by
  constructor
  · intro h
    obtain ⟨location, hgranted, h⟩ := bind_ok h
    obtain ⟨directory, hgrant⟩ := grantedDirectory_ok_iff.mp hgranted
    refine ⟨_, hgrant, ?_⟩
    unfold LocalSandbox.withReadRoot
    split_ifs at h ⊢ with hknown
    · exact (Except.ok.inj h).symm
    · obtain ⟨found, hpinned, h⟩ := bind_ok h
      cases hgrant.pinned.mp hpinned
      exact (Except.ok.inj h).symm
  · rintro ⟨root, hgrant, rfl⟩
    have hgranted := @grantedDirectory_ok_iff host sandbox "read root" path root.path
    refine except_bind_ok_iff.mpr ⟨root.path, hgranted.mpr ⟨_, hgrant⟩, ?_⟩
    unfold LocalSandbox.withReadRoot
    split_ifs with hknown
    · rfl
    · exact except_bind_ok_iff.mpr ⟨root.directory, hgrant.pinned.mpr rfl, rfl⟩

theorem validateRoots_ok_iff {roots : List PinnedRoot} :
    validateRoots host roots = .ok () ↔
      ∀ root ∈ roots, validateRoot host (.ofLocation root.path) (display root.path)
        root.directory = .ok () := by
  induction roots with
  | nil => simp [validateRoots]
  | cons root rest ih =>
    rw [validateRoots, bind_ok_iff, ih]
    simp

theorem isolatedExecution_ok_iff {session : String} :
    isolatedExecution host sandbox session = .ok next ↔
      validateWorkspaceRoots host sandbox = .ok () ∧
      ∃ child, LocalSandbox.new host (.ofLocation sandbox.root) session = .ok child ∧
        next = { child with policy := sandbox.policy } := by
  constructor
  · intro h
    obtain ⟨_, hvalid, h⟩ := bind_ok h
    obtain ⟨child, hchild, h⟩ := bind_ok h
    exact ⟨hvalid, child, hchild, (Except.ok.inj h).symm⟩
  · rintro ⟨hvalid, child, hchild, rfl⟩
    refine except_bind_ok_iff.mpr ⟨(), hvalid, ?_⟩
    exact except_bind_ok_iff.mpr ⟨child, hchild, rfl⟩

end Specifications

end MobiusAgent.SandboxPolicy
