import MobiusAgent.SandboxPolicy

/-!
# File tools

The reads, writes and removals of `backend/sandbox/local.rs` and
`backend/sandbox/local_files.rs`: how a requested path is resolved to an open
directory and the steps below it, and what is then done with the file. The
file tree does not change while an operation runs.
-/

namespace MobiusAgent.SandboxFiles

open ProtocolEvents CheckpointValidation FileTrees SandboxPolicy

def maxFileBytes : Nat := 1024 * 1024

/-- Why a requested path is refused. -/
inductive Rejected where
  | outsideRoots
  | noFileName
  | notRegularFile
  | notDirectory
  /-- It changed while it was opened. -/
  | changed
  | isProtected
  deriving DecidableEq, Repr

def Rejected.path (rejected : Rejected) (path : String) : Error :=
  let reason :=
    match rejected with
    | outsideRoots =>
      "path is outside the workspace, attached folders and private temporary directory"
    | noFileName => "path does not name a file"
    | notRegularFile => "not a regular file; directories, symbolic links and devices are refused"
    | notDirectory => "a parent of the path is not a directory or is a symbolic link"
    | changed => "path changed while it was being opened"
    | isProtected => "path is protected"
  .sandbox (reason ++ ": " ++ path)

def required {α : Type} (value : Option α) (error : Error) : Except Error α :=
  match value with
  | some value => .ok value
  | none => .error error

theorem required_ok_iff {α : Type} {value : Option α} {error : Error} {found : α} :
    required value error = .ok found ↔ value = some found := by
  cases value <;> simp [required]

section Targets

variable (host : Host) (sandbox : LocalSandbox)

/-- An open directory and the steps below it. -/
abbrev Target := Nat × List Component

def temporaryTarget (requested : FilePath) : Except Error (Option Target) :=
  match stripPrefix requested sandbox.temp.path with
  | none => .ok none
  | some below => do
    rejectIf (below.any fun part => !part.isPlain) (.sandbox "temporary path escapes its owner")
    validateRoot host sandbox.temp.path (displayPath sandbox.temp.path) sandbox.temp.root
    return some (sandbox.temp.root, below)

/-- `relative`: the steps of a path below the root. -/
def relative (path : String) : Except Error (List Component) := do
  let parsed := FilePath.parse path
  rejectIf (parsed.absolute || parsed.components.any fun part => !part.isPlain)
    (Rejected.outsideRoots.path path)
  return parsed.components

/-- The first root an absolute path lies below, where it leads down only. -/
def rootTarget (requested : FilePath) (path : String) : List PinnedRoot → Except Error Target
  | [] => .error (Rejected.outsideRoots.path path)
  | root :: rest =>
    match stripPrefix requested (.ofLocation root.path) with
    | none => rootTarget requested path rest
    | some below => do
      rejectIf (below.any fun part => !part.isPlain) (Rejected.outsideRoots.path path)
      validateRoot host (.ofLocation root.path) (display root.path) root.directory
      return (root.directory, below)

/-- The target of a path that lies outside the temporary directory. -/
def grantedTarget (path : String) (roots : List PinnedRoot) : Except Error Target :=
  if (FilePath.parse path).absolute then rootTarget host (FilePath.parse path) path roots
  else do
    validateRoot host (.ofLocation sandbox.root) (display sandbox.root) sandbox.policy.rootDir
    let below ← relative path
    return (sandbox.policy.rootDir, below)

/-- The target of a path below the temporary directory or some roots. -/
def target (roots : List PinnedRoot) (path : String) : Except Error Target := do
  let temporary ← temporaryTarget host sandbox (FilePath.parse path)
  match temporary with
  | some found => return found
  | none => grantedTarget host sandbox path roots

def readTarget (path : String) : Except Error Target :=
  target host sandbox sandbox.readableRoots path

def writeTarget (path : String) : Except Error Target :=
  target host sandbox sandbox.writableRoots path

def DeniedRead.covers (denied : DeniedRead) (location : Location) : Bool :=
  location == denied.path || (denied.directory && denied.path.isPrefixOf location)

def fullAccessTarget (requested : FilePath) (shown : String) (denied : List DeniedRead) :
    Except Error Target := do
  let name ← required (fileName requested.components) (Rejected.noFileName.path shown)
  let parent ← canonicalize host
    ⟨requested.absolute, requested.components.dropLast.map Component.segment⟩
  rejectIf (denied.any fun entry => DeniedRead.covers entry (parent ++ [name]))
    (Rejected.isProtected.path shown)
  let directory ← openAmbientDir host (.ofLocation parent)
  validateRoot host (.ofLocation parent) (display parent) directory
  return (directory, [.normal name])

end Targets

section Files

variable (host : Host)

/-- `symlink_metadata` of a name in an open directory. -/
def entry (directory : Nat) (name : String) : Option FileNode :=
  (host.tree.locate directory).bind fun location => host.tree.lookup (location ++ [name])

/-- `open_dir` of a name in an open directory. -/
def openDir (directory : Nat) (name : String) : Option Nat :=
  match entry host directory name with
  | some (.directory identity) => some identity
  | _ => none

/-- The error of a failed call about a requested path. -/
def failed (requested : String) : Error := .sandbox (requested ++ ": " ++ host.systemError)

/-- `open_parent`: down the steps, through directories only. -/
def openParent (requested : String) : Nat → List Component → Except Error Nat
  | parent, [] => .ok parent
  | parent, .normal name :: rest => do
    let before ← required (entry host parent name) (failed host requested)
    rejectIf (before.isSymlink || !before.isDir) (Rejected.notDirectory.path requested)
    let next ← required (openDir host parent name) (failed host requested)
    rejectIf (before.identity != next) (Rejected.changed.path requested)
    openParent requested next rest
  | parent, _ :: rest => openParent requested parent rest

/-- The directory of a target and the name in it. -/
def openEntry (found : Target) (requested : String) : Except Error (Nat × String) := do
  let name ← required (fileName found.2) (Rejected.noFileName.path requested)
  let parent ← openParent host requested found.1 found.2.dropLast
  return (parent, name)

/-- A name opened to read, where it is no link. -/
def openNoFollow (directory : Nat) (name : String) : Option FileNode :=
  match entry host directory name with
  | some (.link _ _) => none
  | found => found

def openCheckedFile (parent : Nat) (name : String) (before : FileNode) (requested : String) :
    Except Error FileNode := do
  let opened ← required (openNoFollow host parent name) (failed host requested)
  let current ← required (entry host parent name) (failed host requested)
  rejectIf (!opened.isFile || current.isSymlink || before.identity != opened.identity ||
    opened.identity != current.identity) (Rejected.changed.path requested)
  return opened

/-- `open_regular_file`, from the directory and the name. -/
def openRegularFile (parent : Nat) (name requested : String) : Except Error FileNode := do
  let before ← required (entry host parent name) (failed host requested)
  rejectIf (before.isSymlink || !before.isFile) (Rejected.notRegularFile.path requested)
  openCheckedFile host parent name before requested

def bytes : FileNode → List UInt8
  | .file _ _ content => content
  | _ => []

/-- The text `read_file` makes of the bytes of a file. -/
def fileText (requested : String) (content : List UInt8) : Except Error String := do
  let taken := content.take (maxFileBytes + 1)
  rejectIf (taken.length > maxFileBytes) (.sandbox "file exceeds read limit")
  required (String.fromUTF8? ⟨taken.toArray⟩)
    (.sandbox (requested ++ " is not valid UTF-8: " ++ host.systemError))

/-- The bytes `read_binary_file` makes of a file. -/
def fileBytes (maxBytes : Nat) (content : List UInt8) : Except Error (List UInt8) := do
  let taken := content.take (maxBytes + 1)
  rejectIf (taken.length > maxBytes) (.sandbox "file exceeds binary read limit")
  return taken

/-- The range `read_file_range` makes of a file, and where the next one starts. -/
def fileRange (offset maxBytes : Nat) (content : List UInt8) :
    Except Error (List UInt8 × Option Nat) := do
  rejectIf (offset > content.length) (.sandbox "file offset exceeds its size")
  let length := min (content.length - offset) maxBytes
  return ((content.drop offset).take length,
    if offset + length < content.length then some (offset + length) else none)

/-- What the system chooses for a written file. -/
structure Created where
  /-- The text of the fresh identifier in the temporary name. -/
  uuid : String
  identity : Nat
  /-- The permissions a new file has. -/
  permissions : Nat
  deriving DecidableEq, Repr

/-- A file moved inside its directory, over what has the other name. -/
def renameFile (tree : FileTree) (directory : Location) (source target : String) :
    Option FileTree :=
  match tree.lookup (directory ++ [source]) with
  | some (.file identity permissions content) =>
    (tree.unlink (directory ++ [source])).bind fun left =>
      left.placeFile directory target identity permissions content
  | _ => none

/-- The permissions a written file takes over. Only regular files are replaced. -/
def keptPermissions (node : Option FileNode) (requested : String) : Except Error (Option Nat) :=
  match node with
  | none => .ok none
  | some (.file _ permissions _) => .ok (some permissions)
  | some _ => .error (Rejected.notRegularFile.path requested)

/-- `atomic_write`, from the directory and the name: a temporary file is written and moved. -/
def atomicWrite (parent : Nat) (target requested : String) (content : List UInt8)
    (created : Created) : Except Error FileTree := do
  let permissions ← keptPermissions (entry host parent target) requested
  let temporary := ".mobius-write-" ++ created.uuid ++ ".tmp"
  let directory ← required (host.tree.locate parent) (.io host.systemError)
  rejectIf (host.tree.lookup (directory ++ [temporary])).isSome (.io host.systemError)
  let opened ← required (host.tree.placeFile directory temporary created.identity
    created.permissions []) (.io host.systemError)
  let written ← required (opened.placeFile directory temporary created.identity
    (permissions.getD created.permissions) content) (.io host.systemError)
  required (renameFile written directory temporary target) (.io host.systemError)

/-- `remove_file`, from the directory and the name. -/
def removeEntry (parent : Nat) (name requested : String) : Except Error FileTree := do
  let node ← required (entry host parent name) (.io host.systemError)
  rejectIf node.isSymlink (.sandbox ("cannot remove symbolic link: " ++ requested))
  rejectIf (!node.isFile) (.sandbox ("cannot remove non-regular file: " ++ requested))
  let directory ← required (host.tree.locate parent) (.io host.systemError)
  required (host.tree.unlink (directory ++ [name])) (.io host.systemError)

end Files

section Operations

/-- A call of a file tool. -/
inductive Operation where
  | read (path : String) (mode : SandboxMode)
  | readBytes (path : String) (maxBytes : Nat) (mode : SandboxMode)
  | readRange (path : String) (offset maxBytes : Nat)
  /-- `read_host_range`, for the host itself. -/
  | readHostRange (path : FilePath) (offset maxBytes : Nat)
  | write (path : String) (content : List UInt8) (mode : SandboxMode) (created : Created)
  | removeFile (path : String)

/-- What a file tool returns, or the file tree it leaves. -/
inductive Outcome where
  | text (value : String)
  | content (value : List UInt8)
  /-- A range and where the next one starts. -/
  | range (value : List UInt8) (next : Option Nat)
  | tree (value : FileTree)

variable (host : Host) (sandbox : LocalSandbox)

/-- `file_operation`: the target of a path for a mode. -/
def modeTarget (path : String) (mode : SandboxMode) (roots : List PinnedRoot) :
    Except Error Target :=
  if mode = .dangerFullAccess ∧ (FilePath.parse path).absolute = true then
    fullAccessTarget host (FilePath.parse path) path sandbox.policy.deniedReads
  else target host sandbox roots path

def rangeBound (maxBytes : Nat) : Check :=
  rejectIf (maxBytes == 0 || maxBytes > maxFileBytes)
    (.sandbox ("file read size must be 1–" ++ toString maxFileBytes ++ " bytes"))

def Operation.target : Operation → Except Error (Target × String)
  | .read path mode => do
    let found ← modeTarget host sandbox path mode sandbox.readableRoots
    return (found, path)
  | .readBytes path _ mode => do
    let found ← modeTarget host sandbox path mode sandbox.readableRoots
    return (found, path)
  | .readRange path _ maxBytes => do
    rangeBound maxBytes
    let found ← readTarget host sandbox path
    return (found, path)
  | .readHostRange path _ maxBytes => do
    rangeBound maxBytes
    let requested ← canonicalize host path
    let found ← fullAccessTarget host (.ofLocation requested) (display requested)
      sandbox.policy.deniedReads
    return (found, display requested)
  | .write path _ mode _ => do
    let found ← modeTarget host sandbox path mode sandbox.writableRoots
    return (found, path)
  | .removeFile path => do
    let found ← writeTarget host sandbox path
    return (found, path)

/-- A read of a regular file, and what is made of its content. -/
def readFileWith (parent : Nat) (name requested : String)
    (deliver : List UInt8 → Except Error Outcome) : Except Error Outcome := do
  let file ← openRegularFile host parent name requested
  deliver (bytes file)

/-- What an operation does with a name in an open directory. -/
def Operation.work (parent : Nat) (name requested : String) : Operation → Except Error Outcome
  | .read _ _ => readFileWith host parent name requested fun content =>
    (fileText host requested content).map .text
  | .readBytes _ maxBytes _ => readFileWith host parent name requested fun content =>
    (fileBytes maxBytes content).map .content
  | .readRange _ offset maxBytes => readFileWith host parent name requested fun content =>
    (fileRange offset maxBytes content).map fun found => .range found.1 found.2
  | .readHostRange _ offset maxBytes => readFileWith host parent name requested fun content =>
    (fileRange offset maxBytes content).map fun found => .range found.1 found.2
  | .write _ content _ created =>
    (atomicWrite host parent name requested content created).map .tree
  | .removeFile _ => (removeEntry host parent name requested).map .tree

/-- An operation of a file tool. -/
def perform (operation : Operation) : Except Error Outcome := do
  let (found, requested) ← operation.target host sandbox
  let (parent, name) ← openEntry host found requested
  operation.work host parent name requested

end Operations

section Effects

variable {host : Host} {sandbox : LocalSandbox}

def Operation.Returns (content : List UInt8) : Operation → Outcome → Prop
  | .read _ _, .text value =>
    value.toByteArray = ⟨content.toArray⟩ ∧ content.length ≤ maxFileBytes
  | .readBytes _ maxBytes _, .content value => value = content ∧ content.length ≤ maxBytes
  | .readRange _ offset maxBytes, .range value _ =>
    value = (content.drop offset).take maxBytes ∧ offset ≤ content.length
  | .readHostRange _ offset maxBytes, .range value _ =>
    value = (content.drop offset).take maxBytes ∧ offset ≤ content.length
  | _, _ => False

/-- The tree an operation that changes a file leaves: only the file at one location differs. -/
def Operation.Leaves (tree : FileTree) (location : Location) : Operation → Outcome → Prop
  | .write _ content _ created, .tree left =>
    (∀ node, tree.lookup location = some node → node.isFile = true) ∧
      (∃ permissions, left.lookup location =
        some (.file created.identity permissions content)) ∧
      ∀ place, place ≠ location → left.lookup place = tree.lookup place
  | .removeFile _, .tree left =>
    (∃ node, tree.lookup location = some node ∧ node.isFile = true) ∧
      left.lookup location = none ∧
      ∀ place, place ≠ location → left.lookup place = tree.lookup place
  | _, _ => False

/-- What a successful operation does at a location: it reads the regular file there, or changes it. -/
def Operation.Acts (tree : FileTree) (operation : Operation) (location : Location)
    (outcome : Outcome) : Prop :=
  (∃ identity permissions content,
      tree.lookup location = some (.file identity permissions content) ∧
      operation.Returns content outcome) ∨
    operation.Leaves tree location outcome

variable {name requested : String} {parent : Nat} {content : List UInt8} {outcome : Outcome}
  {operation : Operation} {left : FileTree}

theorem entry_eq_some_iff {directory : Nat} {node : FileNode} :
    entry host directory name = some node ↔
      ∃ location, host.tree.locate directory = some location ∧
        host.tree.lookup (location ++ [name]) = some node := by
  exact Option.bind_eq_some_iff

theorem openDir_eq_some_iff {directory next : Nat} :
    openDir host directory name = some next ↔
      entry host directory name = some (.directory next) := by
  unfold openDir
  cases entry host directory name with
  | none => simp
  | some node => cases node <;> simp

theorem openParent_located {root : Nat} {parts : List Component} {location : Location}
    (h : openParent host requested root parts = .ok parent)
    (hlocated : host.tree.locate parent = some location) :
    ∃ base, host.tree.locate root = some base ∧ location = base ++ names parts := by
  induction parts generalizing root with
  | nil =>
    cases h
    exact ⟨location, hlocated, by simp [names]⟩
  | cons part rest ih =>
    cases part with
    | curDir | parentDir => exact ih h
    | normal name =>
      obtain ⟨before, hbefore, h⟩ := bind_ok h
      obtain ⟨_, _, h⟩ := bind_ok h
      obtain ⟨next, hnext, h⟩ := bind_ok h
      obtain ⟨_, _, h⟩ := bind_ok h
      have hdirectory := openDir_eq_some_iff.mp (required_ok_iff.mp hnext)
      obtain ⟨base, hbase, hlookup⟩ := entry_eq_some_iff.mp hdirectory
      obtain ⟨below, hbelow, hlocation⟩ := ih h
      have hsame := FileTree.locate_eq_some_iff.mpr hlookup
      rw [hbelow] at hsame
      cases hsame
      refine ⟨base, hbase, ?_⟩
      rw [hlocation, List.append_assoc]
      rfl

theorem openParent_reaches {requested : String} {root parent : Nat} {parts : List Component}
    {base : Location} (hbase : host.tree.locate root = some base)
    (h : host.tree.lookup (base ++ names parts) = some (.directory parent)) :
    openParent host requested root parts = .ok parent := by
  induction parts generalizing root base with
  | nil =>
    have hroot := FileTree.locate_eq_some_iff.mp hbase
    rw [show names [] = [] from rfl, List.append_nil, hroot] at h
    cases h
    rfl
  | cons part rest ih =>
    cases part with
    | curDir | parentDir => exact ih hbase h
    | normal name =>
      have hsplit : base ++ names (.normal name :: rest) = (base ++ [name]) ++ names rest := by
        rw [List.append_assoc]
        rfl
      rw [hsplit] at h
      have hdirectory : host.tree.IsDirectory (base ++ [name]) := by
        by_cases hrest : names rest = []
        · rw [hrest, List.append_nil] at h
          exact ⟨parent, h⟩
        · exact FileTree.isDirectory_above _ h hrest
      obtain ⟨next, hnext⟩ := hdirectory
      have hentry : entry host root name = some (.directory next) :=
        entry_eq_some_iff.mpr ⟨base, hbase, hnext⟩
      have hopen := openDir_eq_some_iff.mpr hentry
      refine except_bind_ok_iff.mpr ⟨_, required_ok_iff.mpr hentry, ?_⟩
      refine except_bind_ok_iff.mpr ⟨(), rfl, ?_⟩
      refine except_bind_ok_iff.mpr ⟨next, required_ok_iff.mpr hopen, ?_⟩
      refine except_bind_ok_iff.mpr
        ⟨(), rejectIf_ok_iff.mpr (by simp [FileNode.identity]), ?_⟩
      exact ih (FileTree.locate_eq_some_iff.mpr hnext) h

theorem openEntry_ok_iff {found : Target} {location : Location}
    (hlocated : host.tree.locate parent = some location) :
    openEntry host found requested = .ok (parent, name) ↔
      ∃ base, host.tree.locate found.1 = some base ∧ fileName found.2 = some name ∧
        location = base ++ names found.2.dropLast := by
  constructor
  · intro h
    obtain ⟨last, hlast, h⟩ := bind_ok h
    obtain ⟨directory, hdirectory, h⟩ := bind_ok h
    cases h
    obtain ⟨base, hbase, hlocation⟩ := openParent_located hdirectory hlocated
    exact ⟨base, hbase, required_ok_iff.mp hlast, hlocation⟩
  · rintro ⟨base, hbase, hname, rfl⟩
    have hparent := @openParent_reaches host requested found.1 parent found.2.dropLast base hbase
      (FileTree.locate_eq_some_iff.mp hlocated)
    refine except_bind_ok_iff.mpr ⟨name, required_ok_iff.mpr hname, ?_⟩
    exact except_bind_ok_iff.mpr ⟨parent, hparent, rfl⟩

theorem openRegularFile_ok_iff {node : FileNode} :
    openRegularFile host parent name requested = .ok node ↔
      entry host parent name = some node ∧ node.isFile = true := by
  constructor
  · intro h
    obtain ⟨before, hbefore, h⟩ := bind_ok h
    obtain ⟨_, hkind, h⟩ := bind_ok h
    obtain ⟨opened, hopened, h⟩ := bind_ok h
    obtain ⟨current, _, h⟩ := bind_ok h
    obtain ⟨_, _, h⟩ := bind_ok h
    cases h
    have hentry := required_ok_iff.mp hbefore
    have hfile := rejectIf_ok_iff.mp hkind
    have hopen := required_ok_iff.mp hopened
    unfold openNoFollow at hopen
    rw [hentry] at hopen
    cases before with
    | file identity permissions content =>
      cases hopen
      exact ⟨hentry, rfl⟩
    | directory identity | link identity target | device identity => cases hfile
  · rintro ⟨hentry, hfile⟩
    obtain ⟨identity, permissions, content, rfl⟩ := FileNode.isFile_iff.mp hfile
    have hopen : openNoFollow host parent name = some (.file identity permissions content) := by
      unfold openNoFollow
      rw [hentry]
    refine except_bind_ok_iff.mpr ⟨_, required_ok_iff.mpr hentry, ?_⟩
    refine except_bind_ok_iff.mpr ⟨(), rfl, ?_⟩
    refine except_bind_ok_iff.mpr ⟨_, required_ok_iff.mpr hopen, ?_⟩
    refine except_bind_ok_iff.mpr ⟨_, required_ok_iff.mpr hentry, ?_⟩
    exact except_bind_ok_iff.mpr ⟨(), rejectIf_ok_iff.mpr (by
      simp [FileNode.isFile, FileNode.isSymlink, FileNode.identity]), rfl⟩

theorem take_bounded {bound : Nat}
    (h : decide ((content.take (bound + 1)).length > bound) = false) :
    content.take (bound + 1) = content ∧ content.length ≤ bound := by
  have hshort := of_decide_eq_false h
  rw [List.length_take] at hshort
  have hlength : content.length ≤ bound := by omega
  exact ⟨List.take_of_length_le (by omega), hlength⟩

theorem fileText_ok {value : String} (h : fileText host requested content = .ok value) :
    value.toByteArray = ⟨content.toArray⟩ ∧ content.length ≤ maxFileBytes := by
  obtain ⟨_, hbound, h⟩ := bind_ok h
  obtain ⟨hwhole, hlength⟩ := take_bounded (rejectIf_ok_iff.mp hbound)
  have hdecoded := required_ok_iff.mp h
  unfold String.fromUTF8? at hdecoded
  split_ifs at hdecoded with hvalid
  cases hdecoded
  have hbytes : (String.fromUTF8 _ hvalid).toByteArray =
      ⟨(content.take (maxFileBytes + 1)).toArray⟩ := rfl
  rw [hbytes, hwhole]
  exact ⟨rfl, hlength⟩

theorem fileBytes_ok {maxBytes : Nat} {value : List UInt8}
    (h : fileBytes maxBytes content = .ok value) : value = content ∧ content.length ≤ maxBytes := by
  obtain ⟨_, hbound, h⟩ := bind_ok h
  obtain ⟨hwhole, hlength⟩ := take_bounded (rejectIf_ok_iff.mp hbound)
  cases h
  exact ⟨hwhole, hlength⟩

theorem fileRange_ok {offset maxBytes : Nat} {value : List UInt8} {next : Option Nat}
    (h : fileRange offset maxBytes content = .ok (value, next)) :
    value = (content.drop offset).take maxBytes ∧ offset ≤ content.length := by
  obtain ⟨_, hbound, h⟩ := bind_ok h
  have hinside : offset ≤ content.length := by simpa using rejectIf_ok_iff.mp hbound
  cases h
  refine ⟨?_, hinside⟩
  rw [List.take_eq_take_iff, List.length_drop]
  omega

theorem map_ok {α β : Type} {first : Except Error α} {change : α → β} {value : β}
    (h : first.map change = .ok value) : ∃ found, first = .ok found ∧ change found = value := by
  cases first with
  | error error => cases h
  | ok found => exact ⟨found, rfl, Except.ok.inj h⟩

theorem readFileWith_acts {deliver : List UInt8 → Except Error Outcome}
    (h : readFileWith host parent name requested deliver = .ok outcome)
    (hreturns : ∀ content, deliver content = .ok outcome → operation.Returns content outcome) :
    ∃ location, host.tree.locate parent = some location ∧
      operation.Acts host.tree (location ++ [name]) outcome := by
  obtain ⟨file, hopened, hdelivered⟩ := bind_ok h
  obtain ⟨hentry, hfile⟩ := openRegularFile_ok_iff.mp hopened
  obtain ⟨identity, permissions, content, rfl⟩ := FileNode.isFile_iff.mp hfile
  obtain ⟨location, hlocation, hlookup⟩ := entry_eq_some_iff.mp hentry
  exact ⟨location, hlocation,
    .inl ⟨identity, permissions, content, hlookup, hreturns content hdelivered⟩⟩

theorem renameFile_lookup {tree : FileTree} {directory : Location} {source target : String}
    {identity permissions : Nat}
    (hsource : tree.lookup (directory ++ [source]) = some (.file identity permissions content))
    (h : renameFile tree directory source target = some left) (place : Location) :
    left.lookup place =
      if place = directory ++ [target] then some (.file identity permissions content)
      else if place = directory ++ [source] then none else tree.lookup place := by
  unfold renameFile at h
  rw [hsource] at h
  obtain ⟨unlinked, hunlinked, hplaced⟩ := Option.bind_eq_some_iff.mp h
  rw [FileTree.placeFile_lookup hplaced, FileTree.unlink_lookup hunlinked]

/-- A write replaces the regular file with the name, or makes one, and changes nothing else. -/
theorem atomicWrite_leaves {target : String} {created : Created}
    (h : atomicWrite host parent target requested content created = .ok left) :
    ∃ location, host.tree.locate parent = some location ∧
      (∀ node, host.tree.lookup (location ++ [target]) = some node → node.isFile = true) ∧
      (∃ permissions, left.lookup (location ++ [target]) =
        some (.file created.identity permissions content)) ∧
      ∀ place, place ≠ location ++ [target] → left.lookup place = host.tree.lookup place := by
  obtain ⟨permissions, hkept, h⟩ := bind_ok h
  obtain ⟨location, hlocation, h⟩ := bind_ok h
  obtain ⟨_, hfresh, h⟩ := bind_ok h
  obtain ⟨opened, hopened, h⟩ := bind_ok h
  obtain ⟨written, hwritten, h⟩ := bind_ok h
  have hlocated := required_ok_iff.mp hlocation
  have hopen := FileTree.placeFile_lookup (required_ok_iff.mp hopened)
  have hwrite := FileTree.placeFile_lookup (required_ok_iff.mp hwritten)
  have hmoved := renameFile_lookup (by rw [hwrite, if_pos rfl]) (required_ok_iff.mp h)
  have hnone : host.tree.lookup
      (location ++ [".mobius-write-" ++ created.uuid ++ ".tmp"]) = none := by
    simpa using rejectIf_ok_iff.mp hfresh
  refine ⟨location, hlocated, ?_, ⟨_, by rw [hmoved, if_pos rfl]⟩, ?_⟩
  · intro node hnode
    have hentry := entry_eq_some_iff.mpr ⟨location, hlocated, hnode⟩
    rw [hentry] at hkept
    cases node with
    | file identity kept old => rfl
    | directory identity | link identity place | device identity => cases hkept
  · intro place hplace
    rw [hmoved, if_neg hplace, hwrite, hopen]
    split_ifs with htemporary
    · rw [htemporary, hnone]
    · rfl

theorem removeEntry_leaves (h : removeEntry host parent name requested = .ok left) :
    ∃ location, host.tree.locate parent = some location ∧
      (∃ node, host.tree.lookup (location ++ [name]) = some node ∧ node.isFile = true) ∧
      left.lookup (location ++ [name]) = none ∧
      ∀ place, place ≠ location ++ [name] → left.lookup place = host.tree.lookup place := by
  obtain ⟨node, hnode, h⟩ := bind_ok h
  obtain ⟨_, _, h⟩ := bind_ok h
  obtain ⟨_, hfile, h⟩ := bind_ok h
  obtain ⟨location, hlocation, h⟩ := bind_ok h
  have hlocated := required_ok_iff.mp hlocation
  obtain ⟨place, hplace, hlookup⟩ := entry_eq_some_iff.mp (required_ok_iff.mp hnode)
  rw [hlocated] at hplace
  cases hplace
  have hleft := FileTree.unlink_lookup (required_ok_iff.mp h)
  refine ⟨location, hlocated, ⟨node, hlookup, ?_⟩, by rw [hleft, if_pos rfl], ?_⟩
  · simpa using rejectIf_ok_iff.mp hfile
  · intro other hother
    rw [hleft, if_neg hother]

theorem work_acts (h : operation.work host parent name requested = .ok outcome) :
    ∃ location, host.tree.locate parent = some location ∧
      operation.Acts host.tree (location ++ [name]) outcome := by
  cases operation with
  | read path mode =>
    rw [Operation.work] at h
    refine readFileWith_acts h fun content hdelivered => ?_
    obtain ⟨value, hvalue, rfl⟩ := map_ok hdelivered
    exact fileText_ok hvalue
  | readBytes path maxBytes mode =>
    rw [Operation.work] at h
    refine readFileWith_acts h fun content hdelivered => ?_
    obtain ⟨value, hvalue, rfl⟩ := map_ok hdelivered
    exact fileBytes_ok hvalue
  | readRange path offset maxBytes | readHostRange path offset maxBytes =>
    rw [Operation.work] at h
    refine readFileWith_acts h fun content hdelivered => ?_
    obtain ⟨value, hvalue, rfl⟩ := map_ok hdelivered
    exact fileRange_ok hvalue
  | write path content mode created =>
    obtain ⟨left, hleft, rfl⟩ := map_ok h
    obtain ⟨location, hlocation, hleaves⟩ := atomicWrite_leaves hleft
    exact ⟨location, hlocation, .inr hleaves⟩
  | removeFile path =>
    obtain ⟨left, hleft, rfl⟩ := map_ok h
    obtain ⟨location, hlocation, hleaves⟩ := removeEntry_leaves hleft
    exact ⟨location, hlocation, .inr hleaves⟩

/-- The location an operation works at: the names of its steps below the open directory. -/
def touched (host : Host) (sandbox : LocalSandbox) (operation : Operation) : Option Location :=
  match operation.target host sandbox with
  | .ok (found, _) => (host.tree.locate found.1).map fun base => base ++ names found.2
  | .error _ => none

theorem perform_acts (h : perform host sandbox operation = .ok outcome) :
    ∃ found requested base name, operation.target host sandbox = .ok (found, requested) ∧
      host.tree.locate found.1 = some base ∧ fileName found.2 = some name ∧
      touched host sandbox operation = some (base ++ names found.2) ∧
      host.tree.IsDirectory (base ++ names found.2.dropLast) ∧
      operation.Acts host.tree (base ++ names found.2) outcome := by
  obtain ⟨⟨found, requested⟩, htarget, h⟩ := bind_ok h
  obtain ⟨⟨parent, name⟩, hentry, hwork⟩ := bind_ok h
  obtain ⟨location, hlocation, hacts⟩ := work_acts hwork
  obtain ⟨base, hbase, hname, rfl⟩ := (openEntry_ok_iff hlocation).mp hentry
  have htouched : touched host sandbox operation = some (base ++ names found.2) := by
    unfold touched
    rw [htarget]
    simp [hbase]
  refine ⟨found, requested, base, name, htarget, hbase, hname, htouched,
    ⟨parent, FileTree.locate_eq_some_iff.mp hlocation⟩, ?_⟩
  rw [names_fileName hname, ← List.append_assoc]
  exact hacts

end Effects

section Resolved

variable {host : Host} {sandbox : LocalSandbox}

def LeadsDown (parts : List Component) : Prop := ∀ part ∈ parts, part.isPlain = true

theorem leadsDown_iff {parts : List Component} {error : Error} :
    rejectIf (parts.any fun part => !part.isPlain) error = .ok () ↔ LeadsDown parts := by
  rw [rejectIf_ok_iff]
  simp [LeadsDown]

theorem validateRoot_located {path : FilePath} {shown : String} {directory : Nat}
    {base : Location} (h : validateRoot host path shown directory = .ok ())
    (hbase : host.tree.locate directory = some base) : canonicalize host path = .ok base := by
  obtain ⟨node, hmetadata, hidentity⟩ := validateRoot_ok_iff.mp h
  obtain ⟨place, hplace, hnode⟩ := metadata_ok_iff.mp hmetadata
  have hsame := FileTree.locate_of_identity (FileTree.locate_eq_some_iff.mp hbase) hnode hidentity
  rw [hplace, hsame]

variable {requested : FilePath} {found : Target}

theorem temporaryTarget_ok_iff {found : Option Target} :
    temporaryTarget host sandbox requested = .ok found ↔
      (stripPrefix requested sandbox.temp.path = none ∧ found = none) ∨
      ∃ below, stripPrefix requested sandbox.temp.path = some below ∧ LeadsDown below ∧
        validateRoot host sandbox.temp.path (displayPath sandbox.temp.path)
          sandbox.temp.root = .ok () ∧
        found = some (sandbox.temp.root, below) := by
  unfold temporaryTarget
  cases hstripped : stripPrefix requested sandbox.temp.path with
  | none => simp [eq_comm]
  | some below =>
    simp only [reduceCtorEq, false_and, false_or, Option.some.injEq]
    constructor
    · intro h
      obtain ⟨_, hdown, h⟩ := bind_ok h
      obtain ⟨_, hvalid, h⟩ := bind_ok h
      exact ⟨below, rfl, leadsDown_iff.mp hdown, hvalid, (Except.ok.inj h).symm⟩
    · rintro ⟨_, rfl, hdown, hvalid, rfl⟩
      refine except_bind_ok_iff.mpr ⟨(), leadsDown_iff.mpr hdown, ?_⟩
      exact except_bind_ok_iff.mpr ⟨(), hvalid, rfl⟩

theorem rootTarget_ok {path : String} {roots : List PinnedRoot}
    (h : rootTarget host requested path roots = .ok found) :
    ∃ root ∈ roots, stripPrefix requested (.ofLocation root.path) = some found.2 ∧
      LeadsDown found.2 ∧ found.1 = root.directory ∧
      validateRoot host (.ofLocation root.path) (display root.path) root.directory = .ok () := by
  induction roots with
  | nil => cases h
  | cons root rest ih =>
    unfold rootTarget at h
    cases hstripped : stripPrefix requested (.ofLocation root.path) with
    | none =>
      rw [hstripped] at h
      obtain ⟨other, hother, hfound⟩ := ih h
      exact ⟨other, List.mem_cons_of_mem _ hother, hfound⟩
    | some below =>
      rw [hstripped] at h
      obtain ⟨_, hdown, h⟩ := bind_ok h
      obtain ⟨_, hvalid, h⟩ := bind_ok h
      cases h
      exact ⟨root, List.mem_cons_self, hstripped, leadsDown_iff.mp hdown, rfl, hvalid⟩

/-- What a target below the temporary directory or some roots is. -/
inductive Resolved (host : Host) (sandbox : LocalSandbox) (roots : List PinnedRoot)
    (path : String) : Target → Prop where
  /-- The path lies below the temporary directory. -/
  | temporary {below : List Component}
      (hstripped : stripPrefix (FilePath.parse path) sandbox.temp.path = some below)
      (hdown : LeadsDown below)
      (hvalid : validateRoot host sandbox.temp.path (displayPath sandbox.temp.path)
        sandbox.temp.root = .ok ()) :
      Resolved host sandbox roots path (sandbox.temp.root, below)
  | relative (hoff : stripPrefix (FilePath.parse path) sandbox.temp.path = none)
      (hrelative : (FilePath.parse path).absolute = false)
      (hdown : LeadsDown (FilePath.parse path).components)
      (hvalid : validateRoot host (.ofLocation sandbox.root) (display sandbox.root)
        sandbox.policy.rootDir = .ok ()) :
      Resolved host sandbox roots path (sandbox.policy.rootDir, (FilePath.parse path).components)
  | root {root : PinnedRoot} {below : List Component} (hmem : root ∈ roots)
      (hoff : stripPrefix (FilePath.parse path) sandbox.temp.path = none)
      (habsolute : (FilePath.parse path).absolute = true)
      (hstripped : stripPrefix (FilePath.parse path) (.ofLocation root.path) = some below)
      (hdown : LeadsDown below)
      (hvalid : validateRoot host (.ofLocation root.path) (display root.path)
        root.directory = .ok ()) :
      Resolved host sandbox roots path (root.directory, below)

theorem target_resolved {roots : List PinnedRoot} {path : String}
    (h : target host sandbox roots path = .ok found) : Resolved host sandbox roots path found := by
  obtain ⟨temporary, htemporary, h⟩ := bind_ok h
  rcases temporaryTarget_ok_iff.mp htemporary with ⟨hoff, rfl⟩ | ⟨below, hstripped, hdown, hvalid, rfl⟩
  · dsimp only at h
    unfold grantedTarget at h
    split_ifs at h with habsolute
    · obtain ⟨root, hmem, hstripped, hdown, hdirectory, hvalid⟩ := rootTarget_ok h
      have hfound : found = (root.directory, found.2) := Prod.ext hdirectory rfl
      rw [hfound]
      exact .root hmem hoff habsolute hstripped hdown hvalid
    · obtain ⟨_, hvalid, h⟩ := bind_ok h
      obtain ⟨below, hbelow, h⟩ := bind_ok h
      obtain ⟨_, hdown, hsame⟩ := bind_ok hbelow
      cases h
      cases hsame
      have hrelative : (FilePath.parse path).absolute = false := by simpa using habsolute
      refine .relative hoff hrelative ?_ hvalid
      have hplain := rejectIf_ok_iff.mp hdown
      rw [hrelative, Bool.false_or] at hplain
      exact leadsDown_iff.mp ((@rejectIf_ok_iff _ (.io "")).mpr hplain)
  · cases h
    exact .temporary hstripped hdown hvalid

/-- What full access resolves: a name in a canonical directory that no denied path covers. -/
theorem fullAccessTarget_ok_iff {shown : String} {denied : List DeniedRead} :
    fullAccessTarget host requested shown denied = .ok found ↔
      ∃ name parent directory, fileName requested.components = some name ∧
        canonicalize host ⟨requested.absolute,
          requested.components.dropLast.map Component.segment⟩ = .ok parent ∧
        (∀ entry ∈ denied, DeniedRead.covers entry (parent ++ [name]) = false) ∧
        host.tree.lookup parent = some (.directory directory) ∧
        found = (directory, [.normal name]) := by
  constructor
  · intro h
    obtain ⟨name, hname, h⟩ := bind_ok h
    obtain ⟨parent, hparent, h⟩ := bind_ok h
    obtain ⟨_, hdenied, h⟩ := bind_ok h
    obtain ⟨directory, hopen, h⟩ := bind_ok h
    obtain ⟨_, _, h⟩ := bind_ok h
    cases h
    obtain ⟨place, hplace, hlookup⟩ := openAmbientDir_ok_iff.mp hopen
    rw [canonicalize_idem hparent] at hplace
    cases hplace
    exact ⟨name, parent, directory, required_ok_iff.mp hname, hparent, by
      simpa using rejectIf_ok_iff.mp hdenied, hlookup, rfl⟩
  · rintro ⟨name, parent, directory, hname, hparent, hdenied, hlookup, rfl⟩
    have hidem := canonicalize_idem hparent
    have hopen := openAmbientDir_ok_iff.mpr ⟨parent, hidem, hlookup⟩
    have hvalid := (@validateRoot_ok_iff host (.ofLocation parent) (display parent) directory).mpr
      ⟨_, metadata_ok_iff.mpr ⟨parent, hidem, hlookup⟩, rfl⟩
    refine except_bind_ok_iff.mpr ⟨name, required_ok_iff.mpr hname, ?_⟩
    refine except_bind_ok_iff.mpr ⟨parent, hparent, ?_⟩
    refine except_bind_ok_iff.mpr
      ⟨(), rejectIf_ok_iff.mpr (by simpa using hdenied), ?_⟩
    refine except_bind_ok_iff.mpr ⟨directory, hopen, ?_⟩
    exact except_bind_ok_iff.mpr ⟨(), hvalid, rfl⟩

end Resolved

end MobiusAgent.SandboxFiles
