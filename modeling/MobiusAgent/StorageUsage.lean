import Mathlib.Data.String.Basic
import MobiusAgent.FileTrees
import MobiusAgent.PrefixCovers

/-!
# Storage charged for projects

`storage_usage.rs`: `measure_paths`, the bounded walk over a file tree, and
`project_sizes`, which charges the projects of a gateway. The paths of
projects are canonical, as `ChatSpec::validate` checks, so that no step of one
follows a link and a path is the location it names. Names are compared by
their characters; the bytes of their encoding have the same order.
-/

namespace MobiusAgent.StorageUsage

open FileTrees PrefixCovers

section Model

/-- `u64::MAX`. -/
def u64Max : Nat := 2 ^ 64 - 1

def saturatingAdd (first second : Nat) : Nat := min (first + second) u64Max

structure StorageSize where
  /-- The lengths of files and of links. -/
  bytes : Nat
  files : Nat
  /-- Nothing prevented the measurement. -/
  complete : Bool
  deriving DecidableEq, Repr

/-- The entries a measurement looks at. -/
def maxEntries : Nat := 100000

/-- The directories a measurement goes down. -/
def maxDepth : Nat := 64

structure MeasurementBudget where
  entries : Nat
  /-- How often the clock was asked. -/
  looks : Nat
  deriving DecidableEq, Repr

/-- The bytes of the text of a path. -/
def pathLength (path : FilePath) : Nat :=
  (if path.absolute then 1 else 0) + (path.segments.map String.utf8ByteSize).sum +
    (path.segments.length - 1)

/-- The length an entry is charged with: that of a file, or of a link itself. -/
def entryBytes : FileNode → Nat
  | .file _ _ content => content.length
  | .link _ target => pathLength target
  | _ => 0

/-- The names in a directory. -/
def children (tree : FileTree) (location : Location) : List String :=
  (tree.nodes.map Prod.fst).filterMap fun place =>
    if place.dropLast = location then place.getLast? else none

/-- A file tree and how the system answers about it. -/
structure Disk where
  tree : FileTree
  /-- Whether the time is over when the clock is asked for the so many-th time. -/
  late : Nat → Bool
  /-- The metadata of an entry cannot be read. -/
  denied : Location → Bool
  /-- What a directory lists, where it can be read; an entry may fail. -/
  listing : Location → Option (List (Option String))
  /-- A listing without failures names what lies in the directory, in some order. -/
  listed : ∀ location, ∀ names : List String, tree.IsDirectory location →
    listing location = some (names.map some) → names.Perm (children tree location)

/-- The answer of `symlink_metadata`. -/
inductive Metadata where
  | found (node : FileNode)
  | notFound
  | failed

variable (disk : Disk)

def symlinkMetadata (path : Location) : Metadata :=
  if disk.denied path then .failed
  else
    match disk.tree.lookup path with
    | some node => .found node
    | none =>
      if path.inits.any fun place => (disk.tree.lookup place).any fun node => !node.isDir then .failed
      else .notFound

/-- `exhausted`, with the budget after the clock was asked. -/
def exhausted (budget : MeasurementBudget) : Bool × MeasurementBudget :=
  (decide (maxEntries ≤ budget.entries) || disk.late budget.looks,
    { budget with looks := budget.looks + 1 })

/-- The state of the loop of `measure_paths`. The next path stands first. -/
structure Walk where
  /-- The paths to measure and how deep they lie. -/
  pending : List (Location × Nat)
  size : StorageSize
  usedBytes : Nat
  budget : MeasurementBudget

namespace Walk

/-- Something was not measured. -/
def incomplete (state : Walk) : Walk := { state with size.complete := false }

def count (state : Walk) (length : Nat) : Walk :=
  { state with
    size.bytes := saturatingAdd state.size.bytes length
    size.files := saturatingAdd state.size.files 1 }

end Walk

/-- The loop over the children of a directory. -/
def pushChildren (path : Location) (depth : Nat) : List (Option String) → Walk → Walk
  | [], state => state
  | child :: rest, state =>
    let (stop, budget) := exhausted disk state.budget
    let state := { state with budget := budget }
    if stop = true ∨ maxEntries ≤ state.pending.length then state.incomplete
    else
      match child with
      | some name =>
        pushChildren path depth rest
          { state with pending := (path ++ [name], depth + 1) :: state.pending }
      | none => pushChildren path depth rest state.incomplete

/-- The body of the loop of `measure_paths` from the metadata of an entry on. -/
def visitNode (blobs : Option Location) (path : Location) (depth : Nat) (node : FileNode)
    (state : Walk) : Walk :=
  if node.isSymlink then
    let state := state.count (entryBytes node)
    if blobs.any fun blobs => blobs <+: path ∨ path <+: blobs then state.incomplete else state
  else
    let state :=
      if node.isFile then
        let used :=
          if blobs.any fun blobs => path ≠ [] ∧ path.dropLast = blobs then
            saturatingAdd state.usedBytes (entryBytes node)
          else state.usedBytes
        { state.count (entryBytes node) with usedBytes := used }
      else state
    if node.isDir then
      match disk.listing path with
      | some entries => pushChildren disk path depth entries state
      | none => state.incomplete
    else state

/-- The body of the loop of `measure_paths`, for a path it has taken. -/
def visit (blobs : Option Location) (path : Location) (depth : Nat) (state : Walk) : Walk :=
  if depth > maxDepth then state.incomplete
  else
    match symlinkMetadata disk path with
    | .notFound => if depth = 0 then state else state.incomplete
    | .failed => state.incomplete
    | .found node => visitNode disk blobs path depth node state

/-- The loop of `measure_paths`. The entries left in the budget bound its rounds. -/
def measureLoop (blobs : Option Location) : Nat → Walk → Walk
  | left, state =>
    match state.pending with
    | [] => state
    | (path, depth) :: pending =>
      let (stop, budget) :=
        exhausted disk { state.budget with entries := state.budget.entries + 1 }
      let state := { state with pending := pending, budget := budget }
      if stop then state.incomplete
      else
        match left with
        | 0 => state.incomplete
        | left + 1 => measureLoop blobs left (visit disk blobs path depth state)

def measurePaths (pending : List (Location × Nat)) (budget : MeasurementBudget)
    (blobs : Option Location) : StorageSize × Nat × MeasurementBudget :=
  let last := measureLoop disk blobs (maxEntries - budget.entries) ⟨pending, ⟨0, 0, true⟩, 0, budget⟩
  (last.size, last.usedBytes, last.budget)

def measure (path : Location) (budget : MeasurementBudget) : StorageSize × MeasurementBudget :=
  let (size, _, budget) := measurePaths disk [(path, 0)] budget none
  (size, budget)

structure ProjectStorageUsage where
  projectId : String
  /-- The files under its directory. -/
  size : StorageSize
  deriving DecidableEq, Repr

/-- The loop of `project_sizes` behind the last charged root. -/
def chargeProjects : Option Location → Nat → MeasurementBudget → List (String × Location) →
    List ProjectStorageUsage × Nat
  | _, used, _, [] => ([], used)
  | root, used, budget, (projectId, path) :: rest =>
    let (size, budget) := measure disk path budget
    let covered := root.any fun root => root <+: path
    let used := if covered then used else saturatingAdd used size.bytes
    let root := if covered then root else some path
    let (sizes, total) := chargeProjects root used budget rest
    (⟨projectId, size⟩ :: sizes, total)

def projectSizes (projects : List (String × Location)) (budget : MeasurementBudget) :
    List ProjectStorageUsage × Nat :=
  chargeProjects disk none 0 budget
    (projects.mergeSort fun left right => decide (left.2 ≤ right.2))

end Model

section Bytes

variable {tree : FileTree} {location : Location} {node : FileNode}

/-- The bytes of the files and links that lie under some paths, each entry once. -/
def bytesUnder (tree : FileTree) (paths : List Location) : Nat :=
  weightUnder Prod.fst (fun entry => entryBytes entry.2) tree.nodes paths

theorem mem_places {place : Location} :
    place ∈ tree.nodes.map Prod.fst ↔ ∃ node, tree.lookup place = some node := by
  constructor
  · intro h
    obtain ⟨entry, hentry, rfl⟩ := List.mem_map.mp h
    exact ⟨entry.2, FileTree.lookup_eq_some_iff.mpr hentry⟩
  · rintro ⟨node, hnode⟩
    exact List.mem_map.mpr ⟨_, FileTree.lookup_eq_some_iff.mp hnode, rfl⟩

theorem mem_children {name : String} :
    name ∈ children tree location ↔ ∃ node, tree.lookup (location ++ [name]) = some node := by
  unfold children
  rw [List.mem_filterMap]
  constructor
  · rintro ⟨place, hplace, hname⟩
    split_ifs at hname with hlocation
    have hsplit : place = location ++ [name] := by
      rw [← hlocation]
      exact (List.dropLast_append_getLast? name hname).symm
    rw [← hsplit]
    exact mem_places.mp hplace
  · intro h
    refine ⟨location ++ [name], mem_places.mpr h, ?_⟩
    rw [if_pos List.dropLast_concat, List.getLast?_concat]

theorem children_nodup (tree : FileTree) (location : Location) :
    (children tree location).Nodup := by
  unfold children
  refine List.Nodup.filterMap ?_ tree.distinct
  intro first second name hfirst hsecond
  rw [Option.mem_def] at hfirst hsecond
  split_ifs at hfirst hsecond with hone htwo
  rw [← List.dropLast_append_getLast? name hfirst, ← List.dropLast_append_getLast? name hsecond,
    hone, htwo]

theorem bytesUnder_missing (h : tree.lookup location = none) : bytesUnder tree [location] = 0 := by
  unfold bytesUnder
  rw [@weightUnder_congr _ _ _ _ _ _ _ [] ?_]
  · simp [weightUnder]
  · intro entry hentry _
    refine ⟨?_, by simp⟩
    rintro ⟨path, hpath, below, hbelow⟩
    rw [List.mem_singleton.mp hpath] at hbelow
    have hnode : tree.lookup (location ++ below) = some entry.2 := by
      rw [hbelow]
      exact FileTree.lookup_eq_some_iff.mpr hentry
    by_cases hsame : below = []
    · rw [hsame, List.append_nil, h] at hnode
      cases hnode
    · obtain ⟨identity, hdirectory⟩ := FileTree.isDirectory_above below hnode hsame
      rw [h] at hdirectory
      cases hdirectory

theorem bytesUnder_leaf (h : tree.lookup location = some node) (hleaf : node.isDir = false) :
    bytesUnder tree [location] = entryBytes node := by
  have hmember := FileTree.lookup_eq_some_iff.mp h
  have hnodup : tree.nodes.Nodup := List.Nodup.of_map _ tree.distinct
  have hflat : ¬tree.IsDirectory location := by
    intro hdirectory
    rw [hdirectory.node h] at hleaf
    cases hleaf
  unfold bytesUnder weightUnder
  rw [List.sum_map_eq_nsmul_single (location, node) _ ?_]
  · have hcount := @List.count_eq_one_of_mem _ instBEqOfDecidableEq _ _ _ hnodup hmember
    rw [hcount, one_nsmul, if_pos ⟨location, List.mem_singleton_self _, List.prefix_rfl⟩]
  intro entry hne hentry
  refine if_neg ?_
  rintro ⟨path, hpath, below, hbelow⟩
  rw [List.mem_singleton.mp hpath] at hbelow
  have hnode : tree.lookup (location ++ below) = some entry.2 := by
    rw [hbelow]
    exact FileTree.lookup_eq_some_iff.mpr hentry
  have hsame := FileTree.no_entry_below hnode hflat
  rw [hsame, List.append_nil] at hbelow hnode
  rw [h] at hnode
  exact hne (Prod.ext hbelow.symm (Option.some.inj hnode).symm)

theorem bytesUnder_directory (h : tree.IsDirectory location) :
    bytesUnder tree [location] =
      ((children tree location).map fun name => bytesUnder tree [location ++ [name]]).sum := by
  have hapart : ((children tree location).map fun name => location ++ [name]).Pairwise
      fun first second => ¬first <+: second ∧ ¬second <+: first := by
    rw [List.pairwise_map]
    refine (children_nodup tree location).imp fun {first second} hne => ⟨?_, ?_⟩
    · intro hprefix
      have hsame := hprefix.eq_of_length (by simp)
      exact hne (by simpa using hsame)
    · intro hprefix
      have hsame := hprefix.eq_of_length (by simp)
      exact hne (by simpa using hsame.symm)
  have hsum := @weightUnder_apart _ _ _ Prod.fst
    (fun entry : Location × FileNode => entryBytes entry.2) tree.nodes _ hapart
  rw [List.map_map] at hsum
  unfold bytesUnder
  refine Eq.trans ?_ hsum.symm
  refine weightUnder_congr fun entry hentry hweight => ⟨?_, ?_⟩
  · rintro ⟨path, hpath, below, hbelow⟩
    rw [List.mem_singleton.mp hpath] at hbelow
    have hnode : tree.lookup (location ++ below) = some entry.2 := by
      rw [hbelow]
      exact FileTree.lookup_eq_some_iff.mpr hentry
    cases below with
    | nil =>
      -- The directory itself has no length.
      rw [List.append_nil] at hnode
      obtain ⟨identity, hdirectory⟩ := h
      rw [hdirectory] at hnode
      rw [← Option.some.inj hnode] at hweight
      exact absurd rfl hweight
    | cons name rest =>
      have hsplit : location ++ name :: rest = location ++ [name] ++ rest := by simp
      have hchild : ∃ child, tree.lookup (location ++ [name]) = some child := by
        by_cases hrest : rest = []
        · rw [hrest] at hnode
          exact ⟨_, hnode⟩
        · rw [hsplit] at hnode
          obtain ⟨identity, hdirectory⟩ := FileTree.isDirectory_above rest hnode hrest
          exact ⟨_, hdirectory⟩
      refine ⟨location ++ [name], List.mem_map.mpr ⟨name, mem_children.mpr hchild, rfl⟩, rest, ?_⟩
      rw [← hsplit]
      exact hbelow
  · rintro ⟨path, hpath, hunder⟩
    obtain ⟨name, _, rfl⟩ := List.mem_map.mp hpath
    exact ⟨location, List.mem_singleton_self _, (List.prefix_append _ _).trans hunder⟩

end Bytes

section Measurement

variable {disk : Disk} {blobs : Option Location} {path : Location} {depth : Nat}

/-- The bytes under the paths that wait. -/
def pendingBytes (tree : FileTree) (pending : List (Location × Nat)) : Nat :=
  (pending.map fun entry => bytesUnder tree [entry.1]).sum

theorem saturatingAdd_assoc (first second third : Nat) :
    saturatingAdd (saturatingAdd first second) third = saturatingAdd first (second + third) := by
  unfold saturatingAdd
  omega

theorem saturatingAdd_le (first second : Nat) : saturatingAdd first second ≤ u64Max :=
  Nat.min_le_right _ _

variable {state : Walk}

theorem pushChildren_incomplete {entries : List (Option String)} (h : state.size.complete = false) :
    (pushChildren disk path depth entries state).size.complete = false := by
  induction entries generalizing state with
  | nil => exact h
  | cons child rest ih =>
    unfold pushChildren
    dsimp only
    split_ifs
    · rfl
    · cases child with
      | some name => exact ih h
      | none => exact ih rfl

theorem pushChildren_complete {entries : List (Option String)}
    (h : (pushChildren disk path depth entries state).size.complete = true) :
    ∃ names : List String, entries = names.map some ∧
      (pushChildren disk path depth entries state).pending =
        (names.map fun name => (path ++ [name], depth + 1)).reverse ++ state.pending ∧
      (pushChildren disk path depth entries state).size = state.size := by
  induction entries generalizing state with
  | nil => exact ⟨[], rfl, rfl, rfl⟩
  | cons child rest ih =>
    unfold pushChildren at h ⊢
    dsimp only at h ⊢
    split_ifs at h ⊢
    · cases h
    · cases child with
      | none =>
        rw [pushChildren_incomplete rfl] at h
        cases h
      | some name =>
        obtain ⟨names, hrest, hpending, hsize⟩ := ih h
        refine ⟨name :: names, ?_, ?_, hsize⟩
        · rw [hrest]
          rfl
        · rw [hpending]
          simp

theorem visitNode_incomplete {node : FileNode} (h : state.size.complete = false) :
    (visitNode disk blobs path depth node state).size.complete = false := by
  cases node with
  | directory identity =>
    unfold visitNode
    dsimp only [FileNode.isSymlink, FileNode.isFile, FileNode.isDir]
    cases disk.listing path with
    | some entries => exact pushChildren_incomplete h
    | none => rfl
  | file identity permissions content => exact h
  | link identity target =>
    have hlink : (FileNode.link identity target).isSymlink = true := rfl
    unfold visitNode
    rw [if_pos hlink]
    dsimp only
    split_ifs
    · rfl
    · exact h
  | device identity => exact h

theorem visit_incomplete (h : state.size.complete = false) :
    (visit disk blobs path depth state).size.complete = false := by
  unfold visit
  by_cases hdeep : depth > maxDepth
  · rw [if_pos hdeep]
    rfl
  rw [if_neg hdeep]
  cases symlinkMetadata disk path with
  | failed => rfl
  | notFound =>
    dsimp only
    split_ifs
    · exact h
    · rfl
  | found node => exact visitNode_incomplete h

theorem measureLoop_incomplete {left : Nat} (h : state.size.complete = false) :
    (measureLoop disk blobs left state).size.complete = false := by
  induction left generalizing state with
  | zero =>
    unfold measureLoop
    cases state.pending with
    | nil => exact h
    | cons next pending =>
      dsimp only
      split_ifs
      · rfl
      · rfl
  | succ left ih =>
    unfold measureLoop
    cases state.pending with
    | nil => exact h
    | cons next pending =>
      dsimp only
      split_ifs
      · rfl
      · exact ih (visit_incomplete h)

/-- An entry that was measured moves its bytes from what waits to what is counted. -/
theorem visitNode_complete {node : FileNode} (hcap : state.size.bytes ≤ u64Max)
    (hnode : disk.tree.lookup path = some node)
    (h : (visitNode disk none path depth node state).size.complete = true) :
    (visitNode disk none path depth node state).size.bytes ≤ u64Max ∧
      saturatingAdd (visitNode disk none path depth node state).size.bytes
          (pendingBytes disk.tree (visitNode disk none path depth node state).pending) =
        saturatingAdd state.size.bytes
          (bytesUnder disk.tree [path] + pendingBytes disk.tree state.pending) := by
  cases node with
  | directory identity =>
    unfold visitNode at h ⊢
    dsimp only [FileNode.isSymlink, FileNode.isFile, FileNode.isDir] at h ⊢
    simp only [Bool.false_eq_true, if_false, if_true] at h ⊢
    cases hlisting : disk.listing path with
    | none =>
      rw [hlisting] at h
      cases h
    | some entries =>
      rw [hlisting] at h
      obtain ⟨names, rfl, hpending, hsize⟩ := pushChildren_complete h
      have hperm := disk.listed path names ⟨identity, hnode⟩ hlisting
      dsimp only
      rw [hpending, hsize, bytesUnder_directory ⟨identity, hnode⟩]
      refine ⟨hcap, ?_⟩
      unfold pendingBytes
      rw [List.map_append, List.sum_append, List.map_reverse, List.sum_reverse, List.map_map,
        ← (hperm.map _).sum_eq]
      rfl
  | file identity permissions content | link identity target =>
    rw [bytesUnder_leaf hnode rfl]
    exact ⟨saturatingAdd_le _ _, saturatingAdd_assoc _ _ _⟩
  | device identity =>
    rw [bytesUnder_leaf hnode rfl, show entryBytes (.device identity) = 0 from rfl, Nat.zero_add]
    exact ⟨hcap, rfl⟩

theorem symlinkMetadata_lookup :
    match symlinkMetadata disk path with
    | .found node => disk.tree.lookup path = some node
    | .notFound => disk.tree.lookup path = none
    | .failed => True := by
  unfold symlinkMetadata
  by_cases hdenied : disk.denied path = true
  · rw [if_pos hdenied]
    trivial
  rw [if_neg hdenied]
  cases hlookup : disk.tree.lookup path with
  | some node => rfl
  | none =>
    dsimp only
    by_cases hfile : (path.inits.any fun place =>
        (disk.tree.lookup place).any fun node => !node.isDir) = true
    · rw [if_pos hfile]
      trivial
    · rw [if_neg hfile]

theorem visit_complete (hcap : state.size.bytes ≤ u64Max)
    (h : (visit disk none path depth state).size.complete = true) :
    (visit disk none path depth state).size.bytes ≤ u64Max ∧
      saturatingAdd (visit disk none path depth state).size.bytes
          (pendingBytes disk.tree (visit disk none path depth state).pending) =
        saturatingAdd state.size.bytes
          (bytesUnder disk.tree [path] + pendingBytes disk.tree state.pending) := by
  unfold visit at h ⊢
  by_cases hdeep : depth > maxDepth
  · rw [if_pos hdeep] at h
    cases h
  rw [if_neg hdeep] at h ⊢
  have hlookup := @symlinkMetadata_lookup disk path
  cases hmetadata : symlinkMetadata disk path with
  | failed =>
    rw [hmetadata] at h
    cases h
  | notFound =>
    rw [hmetadata] at h hlookup
    dsimp only at h hlookup ⊢
    by_cases htop : depth = 0
    · rw [if_pos htop, bytesUnder_missing hlookup, Nat.zero_add]
      exact ⟨hcap, rfl⟩
    · rw [if_neg htop] at h
      cases h
  | found node =>
    rw [hmetadata] at h hlookup
    exact visitNode_complete hcap hlookup h

theorem measureLoop_complete {left : Nat} (hcap : state.size.bytes ≤ u64Max)
    (h : (measureLoop disk none left state).size.complete = true) :
    (measureLoop disk none left state).size.bytes =
      saturatingAdd state.size.bytes (pendingBytes disk.tree state.pending) := by
  induction left generalizing state with
  | zero =>
    unfold measureLoop at h ⊢
    cases hpending : state.pending with
    | nil => exact (Nat.min_eq_left hcap).symm
    | cons next pending =>
      rw [hpending] at h
      dsimp only at h
      split_ifs at h
      · cases h
      · cases h
  | succ left ih =>
    unfold measureLoop at h ⊢
    cases hpending : state.pending with
    | nil => exact (Nat.min_eq_left hcap).symm
    | cons next pending =>
      rw [hpending] at h
      dsimp only at h ⊢
      split_ifs at h ⊢
      · cases h
      · have hvisited : (visit disk none next.1 next.2 { state with
            pending := pending
            budget := (exhausted disk { state.budget with
              entries := state.budget.entries + 1 }).2 }).size.complete = true := by
          by_contra hmissing
          rw [measureLoop_incomplete (Bool.eq_false_iff.mpr hmissing)] at h
          cases h
        obtain ⟨hbound, hmoved⟩ := visit_complete (by exact hcap) hvisited
        rw [ih hbound h]
        exact hmoved

theorem measure_complete {budget : MeasurementBudget}
    (h : (measure disk path budget).1.complete = true) :
    (measure disk path budget).1.bytes = min (bytesUnder disk.tree [path]) u64Max := by
  have hloop := measureLoop_complete (Nat.zero_le _) h
  refine hloop.trans ?_
  unfold saturatingAdd pendingBytes
  rw [List.map_cons, List.map_nil, List.sum_singleton, Nat.zero_add]

end Measurement

section Projects

variable {disk : Disk} {root : Option Location} {used : Nat} {budget : MeasurementBudget}
  {projects others : List (String × Location)}

theorem chargeProjects_congr (h : projects.map Prod.snd = others.map Prod.snd) :
    (chargeProjects disk root used budget projects).2 =
      (chargeProjects disk root used budget others).2 := by
  induction projects generalizing root used budget others with
  | nil =>
    rw [List.map_nil] at h
    rw [List.map_eq_nil_iff.mp h.symm]
  | cons project projects ih =>
    cases others with
    | nil => cases h
    | cons other others =>
      obtain ⟨hpath, hrest⟩ := List.cons.inj h
      unfold chargeProjects
      rw [← hpath]
      exact ih hrest

/-- Measured projects are charged for the roots that no other one covers. -/
theorem chargeProjects_complete (hcap : used ≤ u64Max)
    (h : ∀ usage ∈ (chargeProjects disk root used budget projects).1, usage.size.complete = true) :
    (chargeProjects disk root used budget projects).2 =
      saturatingAdd used (((charged root (projects.map Prod.snd)).map fun path =>
        bytesUnder disk.tree [path]).sum) := by
  induction projects generalizing root used budget with
  | nil => exact (Nat.min_eq_left hcap).symm
  | cons project projects ih =>
    obtain ⟨projectId, path⟩ := project
    have hmeasured : (measure disk path budget).1.complete = true := h _ List.mem_cons_self
    have hrest : ∀ usage ∈ (chargeProjects disk
        (if root.any fun root => root <+: path then root else some path)
        (if root.any fun root => root <+: path then used
          else saturatingAdd used (measure disk path budget).1.bytes)
        (measure disk path budget).2 projects).1, usage.size.complete = true :=
      fun usage hmember => h usage (List.mem_cons_of_mem _ hmember)
    have hstep : (chargeProjects disk root used budget ((projectId, path) :: projects)).2 =
        (chargeProjects disk
          (if root.any fun root => root <+: path then root else some path)
          (if root.any fun root => root <+: path then used
            else saturatingAdd used (measure disk path budget).1.bytes)
          (measure disk path budget).2 projects).2 := rfl
    rw [hstep, List.map_cons]
    unfold charged
    by_cases hcovers : (root.any fun root => root <+: path) = true
    · simp only [if_pos hcovers] at hrest ⊢
      exact ih hcap hrest
    · simp only [if_neg hcovers] at hrest ⊢
      rw [ih (saturatingAdd_le _ _) hrest, measure_complete hmeasured, List.map_cons, List.sum_cons]
      unfold saturatingAdd
      omega

theorem sorted_paths (projects : List (String × Location)) :
    ((projects.mergeSort fun left right => decide (left.2 ≤ right.2)).map Prod.snd).Pairwise
      (· ≤ ·) := by
  rw [List.pairwise_map]
  refine (List.pairwise_mergeSort ?_ ?_ projects).imp fun hle => of_decide_eq_true hle
  · intro first second third hfirst hsecond
    exact decide_eq_true ((of_decide_eq_true hfirst).trans (of_decide_eq_true hsecond))
  · intro first second
    rcases le_total first.2 second.2 with hle | hle
    · simp [hle]
    · simp [hle]

theorem projectSizes_perm (h : projects.Perm others) :
    (projectSizes disk projects budget).2 = (projectSizes disk others budget).2 := by
  refine chargeProjects_congr ?_
  have hperm : ((projects.mergeSort fun left right => decide (left.2 ≤ right.2)).map Prod.snd).Perm
      ((others.mergeSort fun left right => decide (left.2 ≤ right.2)).map Prod.snd) :=
    ((List.mergeSort_perm _ _).trans (h.trans (List.mergeSort_perm _ _).symm)).map Prod.snd
  exact hperm.eq_of_pairwise (fun _ _ _ _ hle hge => le_antisymm hle hge) (sorted_paths projects)
    (sorted_paths others)

theorem projectSizes_complete
    (h : ∀ usage ∈ (projectSizes disk projects budget).1, usage.size.complete = true) :
    (projectSizes disk projects budget).2 =
      min (bytesUnder disk.tree (projects.map Prod.snd)) u64Max := by
  unfold projectSizes at h ⊢
  rw [chargeProjects_complete (Nat.zero_le _) h]
  have hcharged := @weightUnder_charged _ _ _ Prod.fst
    (fun entry : Location × FileNode => entryBytes entry.2) disk.tree.nodes _ (sorted_paths projects)
  have hsame : bytesUnder disk.tree ((projects.mergeSort fun left right =>
      decide (left.2 ≤ right.2)).map Prod.snd) = bytesUnder disk.tree (projects.map Prod.snd) := by
    refine weightUnder_congr fun entry _ _ => ?_
    simp only [List.mem_map, List.mem_mergeSort]
  unfold saturatingAdd
  rw [Nat.zero_add, ← hsame]
  exact congrArg (min · u64Max) hcharged

/-- Nested projects are charged once: projects that fit the budget are charged for the files and
links that lie under at least one of them, each entry once and up to the largest number, and the
charge does not depend on their order. -/
theorem projects_charged_once (disk : Disk) (budget : MeasurementBudget)
    {projects others : List (String × Location)} (hperm : projects.Perm others)
    (hfits : ∀ usage ∈ (projectSizes disk projects budget).1, usage.size.complete = true) :
    (projectSizes disk projects budget).2 =
        min (bytesUnder disk.tree (projects.map Prod.snd)) u64Max ∧
      (projectSizes disk others budget).2 = (projectSizes disk projects budget).2 :=
  ⟨projectSizes_complete hfits, (projectSizes_perm hperm).symm⟩

/-- A disk whose directories can all be read in time. -/
def Disk.readable (tree : FileTree) : Disk where
  tree := tree
  late := fun _ => false
  denied := fun _ => false
  listing := fun location => some ((children tree location).map some)
  listed := by
    intro location names _ hlisting
    have hsame : names = children tree location :=
      (List.map_injective_iff.mpr fun _ _ => Option.some.inj) (Option.some.inj hlisting).symm
    rw [hsame]

/-- A directory with a directory in it, and one whose name goes on. -/
def nestedDisk : Disk := .readable (.ofNodes
  [([], .directory 1), (["work"], .directory 2), (["work", "file"], .file 3 0 [1, 2, 3]),
    (["work", "nested"], .directory 4), (["work", "nested", "file"], .file 5 0 [4, 5]),
    (["work-other"], .directory 6), (["work-other", "link"], .link 7 ⟨false, ["work"]⟩)]
  (by decide))

/-- The projects of these directories. -/
def nestedProjects : List (String × Location) :=
  [("parent", ["work"]), ("nested", ["work", "nested"]), ("sibling", ["work-other"])]

/-- A nested project and a sibling in any order. -/
theorem projects_charged_once_nested :
    (projectSizes nestedDisk nestedProjects ⟨0, 0⟩).2 =
        min (bytesUnder nestedDisk.tree (nestedProjects.map Prod.snd)) u64Max ∧
      (projectSizes nestedDisk nestedProjects.reverse ⟨0, 0⟩).2 =
        (projectSizes nestedDisk nestedProjects ⟨0, 0⟩).2 := by
  refine projects_charged_once nestedDisk ⟨0, 0⟩ (List.reverse_perm _).symm ?_
  unfold projectSizes
  rw [List.mergeSort_of_pairwise (by decide +kernel)]
  decide +kernel

def threeFiles (content : List UInt8) : Disk := .readable (.ofNodes
  [([], .directory 1), (["p"], .directory 2), (["p", "a"], .file 3 0 content),
    (["p", "b"], .file 4 0 content), (["p", "c"], .file 5 0 content)]
  (by simp [FormsTree, FileNode.isDir, FileNode.identity, PlainName]))

theorem threeFiles_bytes (content : List UInt8) :
    bytesUnder (threeFiles content).tree [["p"]] = 3 * content.length := by
  simp only [bytesUnder, weightUnder, threeFiles, Disk.readable, FileTree.ofNodes, entryBytes,
    List.map_cons, List.map_nil, List.sum_cons, List.sum_nil, List.mem_singleton, exists_eq_left]
  simp
  omega

/-- Three files of the largest length. -/
def hugeDisk : Disk := threeFiles (List.replicate (2 ^ 63 - 1) 0)

/-- The charge stops at the largest number. -/
theorem charge_saturates :
    (∀ usage ∈ (projectSizes hugeDisk [("project", ["p"])] ⟨0, 0⟩).1, usage.size.complete = true) ∧
      (projectSizes hugeDisk [("project", ["p"])] ⟨0, 0⟩).2 ≠ bytesUnder hugeDisk.tree [["p"]] := by
  have hfits : ∀ usage ∈ (projectSizes hugeDisk [("project", ["p"])] ⟨0, 0⟩).1,
      usage.size.complete = true := by
    unfold projectSizes
    rw [List.mergeSort_singleton]
    decide +kernel
  refine ⟨hfits, ?_⟩
  have htotal : bytesUnder hugeDisk.tree [["p"]] = 3 * (2 ^ 63 - 1) := by
    unfold hugeDisk
    rw [threeFiles_bytes, List.length_replicate]
  rw [projectSizes_complete hfits, List.map_cons, List.map_nil, htotal]
  decide

end Projects

end MobiusAgent.StorageUsage
