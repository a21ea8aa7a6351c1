import Mathlib.Data.List.Basic
import Mathlib.Data.List.Infix
import Mathlib.Data.List.Nodup

/-!
# File trees

A file tree maps locations, the names that lead to an entry from the root, to
entries. `resolve` follows a path as an operating system does, links and parent
components included; an open directory is known by its identity, so that it
stays the same one where the tree is changed around it.
-/

namespace MobiusAgent.FileTrees

/-- The names that lead from the root of a tree to an entry. -/
abbrev Location := List String

/-- The text of a path: whether it starts at the root, and what stands between its slashes. -/
structure FilePath where
  /-- The path starts with a slash. -/
  absolute : Bool
  /-- The texts between the slashes. -/
  segments : List String
  deriving DecidableEq, Repr

/-- One step of a path. -/
inductive Component where
  /-- A dot at the start of a relative path. -/
  | curDir
  | parentDir
  | normal (name : String)
  deriving DecidableEq, Repr

/-- An entry of a tree. The identity is what the system compares entries by. -/
inductive FileNode where
  | directory (identity : Nat)
  | file (identity permissions : Nat) (content : List UInt8)
  /-- A symbolic link and where it points. -/
  | link (identity : Nat) (target : FilePath)
  | device (identity : Nat)
  deriving DecidableEq, Repr

namespace FileNode

def identity : FileNode → Nat
  | directory identity => identity
  | file identity _ _ => identity
  | link identity _ => identity
  | device identity => identity

/-- The entry is a symbolic link. -/
def isSymlink : FileNode → Bool
  | link _ _ => true
  | _ => false

/-- The entry is a regular file. -/
def isFile : FileNode → Bool
  | file _ _ _ => true
  | _ => false

/-- The entry is a directory. -/
def isDir : FileNode → Bool
  | directory _ => true
  | _ => false

theorem isDir_iff {node : FileNode} :
    node.isDir = true ↔ ∃ identity, node = .directory identity := by
  cases node <;> simp [isDir]

theorem isFile_iff {node : FileNode} :
    node.isFile = true ↔ ∃ identity permissions content,
      node = .file identity permissions content := by
  cases node <;> simp [isFile]

end FileNode

section Paths

/-- The texts between two separators. -/
def splitAtSeparator (separator : Char) : List Char → List (List Char)
  | [] => [[]]
  | letter :: rest =>
    if letter = separator then [] :: splitAtSeparator separator rest
    else
      match splitAtSeparator separator rest with
      | [] => [[letter]]
      | first :: others => (letter :: first) :: others

namespace FilePath

def parse (text : String) : FilePath :=
  if text.toList = [] then ⟨false, []⟩
  else
    let segments := (splitAtSeparator '/' text.toList).map String.ofList
    match text.toList with
    | '/' :: _ => ⟨true, segments.tail⟩
    | _ => ⟨false, segments⟩

/-- The steps of the texts between the slashes: empty ones and dots are none. -/
def steps : List String → List Component
  | [] => []
  | segment :: rest =>
    if segment = "" ∨ segment = "." then steps rest
    else if segment = ".." then .parentDir :: steps rest
    else .normal segment :: steps rest

/-- The steps of a path. Only the dot a relative path starts with is one. -/
def components (path : FilePath) : List Component :=
  match path.absolute, path.segments with
  | false, "." :: rest => .curDir :: steps rest
  | _, segments => steps segments

def ofLocation (location : Location) : FilePath := ⟨true, location⟩

def join (path : FilePath) (name : String) : FilePath :=
  { path with segments := path.segments ++ [name] }

end FilePath

namespace Component

/-- The text of a step. -/
def segment : Component → String
  | curDir => "."
  | parentDir => ".."
  | normal name => name

/-- The step leads to an entry below, or stays. -/
def isPlain : Component → Bool
  | parentDir => false
  | _ => true

def name? : Component → Option String
  | normal name => some name
  | _ => none

end Component

/-- The name the last of some steps has. -/
def fileName (parts : List Component) : Option String :=
  parts.getLast?.bind Component.name?

/-- The names of some steps. -/
def names (parts : List Component) : List String := parts.filterMap Component.name?

/-- The steps of one path below another, if it lies there. -/
def stripPrefix (path base : FilePath) : Option (List Component) :=
  if path.absolute = base.absolute ∧ base.components <+: path.components then
    some (path.components.drop base.components.length)
  else none

/-- A name that is no step of another kind. -/
def PlainName (name : String) : Prop := name ≠ "" ∧ name ≠ "." ∧ name ≠ ".."

/-- A decision of whether a name is plain. -/
instance (name : String) : Decidable (PlainName name) :=
  inferInstanceAs (Decidable (name ≠ "" ∧ name ≠ "." ∧ name ≠ ".."))

theorem steps_plain {location : Location} (h : ∀ name ∈ location, PlainName name) :
    FilePath.steps location = location.map Component.normal := by
  induction location with
  | nil => rfl
  | cons name rest ih =>
    obtain ⟨hempty, hdot, hdots⟩ := h name List.mem_cons_self
    have hrest := ih fun other hother => h other (List.mem_cons_of_mem _ hother)
    simp [FilePath.steps, hempty, hdot, hdots, hrest]

theorem absolute_components {path : FilePath} (h : path.absolute = true) :
    path.components = FilePath.steps path.segments := by
  unfold FilePath.components
  rw [h]

theorem ofLocation_components {location : Location} (h : ∀ name ∈ location, PlainName name) :
    (FilePath.ofLocation location).components = location.map Component.normal := by
  rw [absolute_components rfl]
  exact steps_plain h

theorem names_map_normal (location : Location) :
    names (location.map Component.normal) = location := by
  induction location with
  | nil => rfl
  | cons name rest ih => simpa [names, Component.name?] using ih

theorem names_fileName {parts : List Component} {name : String} (h : fileName parts = some name) :
    names parts = names parts.dropLast ++ [name] := by
  unfold fileName at h
  cases hlast : parts.getLast? with
  | none => simp [hlast] at h
  | some last =>
    have hparts : parts = parts.dropLast ++ [last] := (List.dropLast_append_getLast? last hlast).symm
    have hname : last.name? = some name := by simpa [hlast] using h
    conv_lhs => rw [hparts]
    rw [names, List.filterMap_append]
    simp [names, hname]

end Paths

/-- A file tree: every entry but the root lies in a directory, and no directory lies twice. -/
structure FileTree where
  nodes : List (Location × FileNode)
  distinct : (nodes.map Prod.fst).Nodup
  rooted : ∃ entry ∈ nodes, entry.1 = [] ∧ entry.2.isDir = true
  parents : ∀ entry ∈ nodes, entry.1 ≠ [] →
    ∃ parent ∈ nodes, parent.1 = entry.1.dropLast ∧ parent.2.isDir = true
  /-- A directory has one location, and no other entry has its identity. -/
  single : ∀ entry ∈ nodes, ∀ other ∈ nodes, entry.2.isDir = true →
    entry.2.identity = other.2.identity → entry.1 = other.1
  plain : ∀ entry ∈ nodes, ∀ name ∈ entry.1, PlainName name

def FormsTree (nodes : List (Location × FileNode)) : Prop :=
  (nodes.map Prod.fst).Nodup ∧ (∃ entry ∈ nodes, entry.1 = [] ∧ entry.2.isDir = true) ∧
    (∀ entry ∈ nodes, entry.1 ≠ [] →
      ∃ parent ∈ nodes, parent.1 = entry.1.dropLast ∧ parent.2.isDir = true) ∧
    (∀ entry ∈ nodes, ∀ other ∈ nodes, entry.2.isDir = true →
      entry.2.identity = other.2.identity → entry.1 = other.1) ∧
    ∀ entry ∈ nodes, ∀ name ∈ entry.1, PlainName name

/-- A decision of whether entries form a tree. -/
instance (nodes : List (Location × FileNode)) : Decidable (FormsTree nodes) :=
  inferInstanceAs (Decidable (_ ∧ _ ∧ _ ∧ _ ∧ _))

namespace FileTree

def ofNodes (nodes : List (Location × FileNode)) (h : FormsTree nodes) : FileTree :=
  ⟨nodes, h.1, h.2.1, h.2.2.1, h.2.2.2.1, h.2.2.2.2⟩

variable (tree : FileTree)

/-- The entry at a location. -/
def lookup (location : Location) : Option FileNode :=
  (tree.nodes.find? fun entry => entry.1 = location).map Prod.snd

/-- The location of an open directory. -/
def locate (identity : Nat) : Option Location :=
  (tree.nodes.find? fun entry => entry.2 = .directory identity).map Prod.fst

def IsDirectory (location : Location) : Prop :=
  ∃ identity, tree.lookup location = some (.directory identity)

variable {tree}

variable {location : Location}

theorem entry_unique {node other : FileNode} (hnode : (location, node) ∈ tree.nodes)
    (hother : (location, other) ∈ tree.nodes) : node = other := by
  have hpair := List.inj_on_of_nodup_map tree.distinct hnode hother rfl
  exact (Prod.mk.inj hpair).2

theorem lookup_eq_some_iff {node : FileNode} :
    tree.lookup location = some node ↔ (location, node) ∈ tree.nodes := by
  constructor
  · intro h
    obtain ⟨entry, hfound, hnode⟩ := Option.map_eq_some_iff.mp h
    have hmem := List.mem_of_find?_eq_some hfound
    have hlocation : entry.1 = location := by simpa using List.find?_some hfound
    rw [← hlocation, ← hnode]
    exact hmem
  · intro hmem
    cases hfound : tree.nodes.find? fun entry => entry.1 = location with
    | none =>
      have hnone := List.find?_eq_none.mp hfound _ hmem
      simp at hnone
    | some entry =>
      have hentry := List.mem_of_find?_eq_some hfound
      have hlocation : entry.1 = location := by simpa using List.find?_some hfound
      have hsame : (location, entry.2) ∈ tree.nodes := by rw [← hlocation]; exact hentry
      rw [lookup, hfound, Option.map_some, entry_unique hsame hmem]

theorem locate_eq_some_iff {identity : Nat} :
    tree.locate identity = some location ↔
      tree.lookup location = some (.directory identity) := by
  rw [lookup_eq_some_iff]
  constructor
  · intro h
    obtain ⟨entry, hfound, hlocation⟩ := Option.map_eq_some_iff.mp h
    have hmem := List.mem_of_find?_eq_some hfound
    have hnode : entry.2 = .directory identity := by simpa using List.find?_some hfound
    rw [← hlocation, ← hnode]
    exact hmem
  · intro hmem
    cases hfound : tree.nodes.find? fun entry => entry.2 = .directory identity with
    | none =>
      have hnone := List.find?_eq_none.mp hfound _ hmem
      simp at hnone
    | some entry =>
      have hentry := List.mem_of_find?_eq_some hfound
      have hnode : entry.2 = .directory identity := by simpa using List.find?_some hfound
      have hlocation := tree.single _ hmem _ hentry rfl (congrArg FileNode.identity hnode.symm)
      rw [locate, hfound, Option.map_some, ← hlocation]

theorem locate_of_identity {identity : Nat} {place : Location} {node : FileNode}
    (h : tree.lookup location = some (.directory identity))
    (hnode : tree.lookup place = some node) (hsame : node.identity = identity) : place = location :=
  (tree.single _ (lookup_eq_some_iff.mp h) _ (lookup_eq_some_iff.mp hnode) rfl hsame.symm).symm

theorem isDirectory_root : tree.IsDirectory [] := by
  obtain ⟨entry, hmem, hroot, hdir⟩ := tree.rooted
  obtain ⟨identity, hnode⟩ := FileNode.isDir_iff.mp hdir
  refine ⟨identity, lookup_eq_some_iff.mpr ?_⟩
  rw [← hroot, ← hnode]
  exact hmem

theorem isDirectory_parent {name : String} {node : FileNode}
    (h : tree.lookup (location ++ [name]) = some node) : tree.IsDirectory location := by
  have hmem := lookup_eq_some_iff.mp h
  obtain ⟨parent, hparent, hlocation, hdir⟩ := tree.parents _ hmem (by simp)
  obtain ⟨identity, hnode⟩ := FileNode.isDir_iff.mp hdir
  rw [List.dropLast_concat] at hlocation
  refine ⟨identity, lookup_eq_some_iff.mpr ?_⟩
  rw [← hlocation, ← hnode]
  exact hparent

theorem isDirectory_above (below : Location) {node : FileNode}
    (h : tree.lookup (location ++ below) = some node) (hbelow : below ≠ []) :
    tree.IsDirectory location := by
  induction below using List.reverseRecOn generalizing node with
  | nil => exact absurd rfl hbelow
  | append_singleton rest name ih =>
    rw [← List.append_assoc] at h
    obtain ⟨identity, hparent⟩ := isDirectory_parent h
    by_cases hrest : rest = []
    · rw [hrest, List.append_nil] at hparent
      exact ⟨identity, hparent⟩
    · exact ih hparent hrest

theorem IsDirectory.above (h : tree.IsDirectory location) : tree.IsDirectory location.dropLast := by
  obtain ⟨identity, hdirectory⟩ := h
  by_cases hroot : location = []
  · rw [hroot]
    exact isDirectory_root
  · rw [← List.dropLast_append_getLast hroot] at hdirectory
    exact isDirectory_parent hdirectory

theorem no_entry_below {below : Location} {node : FileNode}
    (h : tree.lookup (location ++ below) = some node) (hflat : ¬tree.IsDirectory location) :
    below = [] := by
  by_contra hbelow
  exact hflat (isDirectory_above below h hbelow)

theorem plain_of_lookup {node : FileNode} (h : tree.lookup location = some node) :
    ∀ name ∈ location, PlainName name :=
  tree.plain _ (lookup_eq_some_iff.mp h)

theorem IsDirectory.node {node : FileNode} (h : tree.IsDirectory location)
    (hnode : tree.lookup location = some node) : node.isDir = true := by
  obtain ⟨identity, hdirectory⟩ := h
  rw [hdirectory] at hnode
  cases hnode
  rfl

end FileTree

section Resolution

/-- How far the names of a path lead without a link. -/
inductive Walk where
  | arrived (location : Location)
  /-- A link in a directory, its target and the names after it. -/
  | linked (location : Location) (target : FilePath) (rest : List String)
  /-- The next name has no entry, or one that nothing lies under. -/
  | failed
  deriving DecidableEq

variable (tree : FileTree)

/-- The walk along the texts of a path from a directory up to its first link. -/
def walk : Location → List String → Walk
  | location, [] => .arrived location
  | location, segment :: rest =>
    if segment = "" ∨ segment = "." then walk location rest
    else if segment = ".." then walk location.dropLast rest
    else
      match tree.lookup (location ++ [segment]) with
      | none => .failed
      | some (.directory _) => walk (location ++ [segment]) rest
      | some (.link _ target) => .linked location target rest
      | some _ => if rest = [] then .arrived (location ++ [segment]) else .failed

/-- The entry a path leads to, with so many links followed at most. -/
def resolve : Nat → Location → List String → Option Location
  | links, location, segments =>
    match walk tree location segments with
    | .arrived place => some place
    | .failed => none
    | .linked place target rest =>
      match links with
      | 0 => none
      | links + 1 =>
        if target.segments = [] then none
        else resolve links (if target.absolute then [] else place) (target.segments ++ rest)

variable {tree}

variable {rest segments : List String} {location place : Location}

theorem walk_stay {segment : String} (h : segment = "" ∨ segment = ".") :
    walk tree location (segment :: rest) = walk tree location rest := by
  rw [walk, if_pos h]

theorem walk_up {segment : String} (hskip : ¬(segment = "" ∨ segment = ".")) (h : segment = "..") :
    walk tree location (segment :: rest) = walk tree location.dropLast rest := by
  rw [walk, if_neg hskip, if_pos h]

theorem walk_name {segment : String} (hskip : ¬(segment = "" ∨ segment = "."))
    (hdots : segment ≠ "..") :
    walk tree location (segment :: rest) =
      match tree.lookup (location ++ [segment]) with
      | none => .failed
      | some (.directory _) => walk tree (location ++ [segment]) rest
      | some (.link _ target) => .linked location target rest
      | some _ => if rest = [] then .arrived (location ++ [segment]) else .failed := by
  rw [walk, if_neg hskip, if_neg hdots]

theorem walk_arrived (hfrom : tree.IsDirectory location)
    (h : walk tree location segments = .arrived place) :
    ∃ node, tree.lookup place = some node ∧ node.isSymlink = false := by
  induction segments generalizing location with
  | nil =>
    obtain ⟨identity, hdirectory⟩ := hfrom
    cases h
    exact ⟨_, hdirectory, rfl⟩
  | cons segment rest ih =>
    by_cases hskip : segment = "" ∨ segment = "."
    · exact ih hfrom ((walk_stay hskip).symm.trans h)
    by_cases hdots : segment = ".."
    · exact ih hfrom.above ((walk_up hskip hdots).symm.trans h)
    rw [walk_name hskip hdots] at h
    cases hnode : tree.lookup (location ++ [segment]) with
    | none =>
      rw [hnode] at h
      cases h
    | some node =>
      rw [hnode] at h
      cases node with
      | directory identity => exact ih ⟨identity, hnode⟩ h
      | link identity target => cases h
      | file identity permissions content | device identity =>
        dsimp only at h
        split_ifs at h with hrest
        cases h
        exact ⟨_, hnode, rfl⟩

theorem walk_linked {target : FilePath} (hfrom : tree.IsDirectory location)
    (h : walk tree location segments = .linked place target rest) : tree.IsDirectory place := by
  induction segments generalizing location with
  | nil => cases h
  | cons segment others ih =>
    by_cases hskip : segment = "" ∨ segment = "."
    · exact ih hfrom ((walk_stay hskip).symm.trans h)
    by_cases hdots : segment = ".."
    · exact ih hfrom.above ((walk_up hskip hdots).symm.trans h)
    rw [walk_name hskip hdots] at h
    cases hnode : tree.lookup (location ++ [segment]) with
    | none =>
      rw [hnode] at h
      cases h
    | some node =>
      rw [hnode] at h
      cases node with
      | directory identity => exact ih ⟨identity, hnode⟩ h
      | link identity found =>
        cases h
        exact hfrom
      | file identity permissions content | device identity =>
        dsimp only at h
        split_ifs at h

theorem resolve_lookup {links : Nat} (hfrom : tree.IsDirectory location)
    (h : resolve tree links location segments = some place) :
    ∃ node, tree.lookup place = some node ∧ node.isSymlink = false := by
  induction links generalizing location segments with
  | zero =>
    unfold resolve at h
    split at h
    · rename_i found hwalk
      cases h
      exact walk_arrived hfrom hwalk
    · cases h
    · cases h
  | succ links ih =>
    unfold resolve at h
    split at h
    · rename_i found hwalk
      cases h
      exact walk_arrived hfrom hwalk
    · cases h
    · rename_i found target rest hwalk
      dsimp only at h
      split_ifs at h with hempty habsolute
      · exact ih FileTree.isDirectory_root h
      · exact ih (walk_linked hfrom hwalk) h

theorem walk_location {location below : Location} {node : FileNode}
    (h : tree.lookup (location ++ below) = some node) (hlink : node.isSymlink = false) :
    walk tree location below = .arrived (location ++ below) := by
  induction below generalizing location with
  | nil => rw [walk, List.append_nil]
  | cons name rest ih =>
    have hplain := FileTree.plain_of_lookup h name (by simp)
    obtain ⟨hempty, hdot, hdots⟩ := hplain
    have hsplit : location ++ name :: rest = (location ++ [name]) ++ rest := by simp
    rw [hsplit] at h ⊢
    unfold walk
    rw [if_neg (by simp [hempty, hdot]), if_neg hdots]
    by_cases hrest : rest = []
    · subst hrest
      rw [List.append_nil] at h
      rw [List.append_nil, h]
      cases node with
      | link identity target => cases hlink
      | directory identity | file identity permissions content | device identity => rfl
    · obtain ⟨identity, hdirectory⟩ := FileTree.isDirectory_above rest h hrest
      rw [hdirectory]
      exact ih h

theorem resolve_location {links : Nat} {node : FileNode} (h : tree.lookup location = some node)
    (hlink : node.isSymlink = false) : resolve tree links [] location = some location := by
  have hwalk := @walk_location tree [] location node (by simpa using h) hlink
  unfold resolve
  rw [hwalk]
  rfl

end Resolution

section Changes

namespace FileTree

def holdsDirectory (tree : FileTree) (location : Location) : Bool :=
  (tree.lookup location).any FileNode.isDir

variable {location : Location} {tree : FileTree}

theorem holdsDirectory_iff :
    tree.holdsDirectory location = true ↔ tree.IsDirectory location := by
  constructor
  · intro h
    obtain ⟨node, hnode, hdir⟩ := (Option.any_eq_true _ _).mp h
    obtain ⟨identity, rfl⟩ := FileNode.isDir_iff.mp hdir
    exact ⟨identity, hnode⟩
  · rintro ⟨identity, hnode⟩
    simp [holdsDirectory, hnode, FileNode.isDir]

/-- The entries elsewhere. -/
def others (tree : FileTree) (location : Location) : List (Location × FileNode) :=
  tree.nodes.filter fun entry => entry.1 ≠ location

theorem mem_others {entry : Location × FileNode} :
    entry ∈ tree.others location ↔ entry ∈ tree.nodes ∧ entry.1 ≠ location := by
  simp [others, List.mem_filter]

theorem others_distinct (tree : FileTree) (location : Location) :
    ((tree.others location).map Prod.fst).Nodup :=
  tree.distinct.sublist (List.filter_sublist.map _)

theorem others_parents (hflat : ¬tree.IsDirectory location) {entry : Location × FileNode}
    (hentry : entry ∈ tree.nodes) (hbelow : entry.1 ≠ []) :
    ∃ parent ∈ tree.others location, parent.1 = entry.1.dropLast ∧ parent.2.isDir = true := by
  obtain ⟨parent, hparent, hlocation, hdir⟩ := tree.parents entry hentry hbelow
  refine ⟨parent, mem_others.mpr ⟨hparent, fun h => hflat ?_⟩, hlocation, hdir⟩
  obtain ⟨identity, hnode⟩ := FileNode.isDir_iff.mp hdir
  refine ⟨identity, lookup_eq_some_iff.mpr ?_⟩
  rw [← h, ← hnode]
  exact hparent

theorem others_rooted (hflat : ¬tree.IsDirectory location) :
    ∃ entry ∈ tree.others location, entry.1 = [] ∧ entry.2.isDir = true := by
  obtain ⟨entry, hentry, hroot, hdir⟩ := tree.rooted
  refine ⟨entry, mem_others.mpr ⟨hentry, fun h => hflat ?_⟩, hroot, hdir⟩
  rw [← h, hroot]
  exact isDirectory_root

/-- No directory has an identity. -/
def Free (tree : FileTree) (identity : Nat) : Prop :=
  ∀ entry ∈ tree.nodes, entry.2.isDir = true → entry.2.identity ≠ identity

/-- A decision of whether an identity is free. -/
instance (tree : FileTree) (identity : Nat) : Decidable (tree.Free identity) :=
  inferInstanceAs (Decidable (∀ entry ∈ tree.nodes, entry.2.isDir = true →
    entry.2.identity ≠ identity))

/-- A regular file placed in a directory, over what is there unless that is a directory. -/
def placeFile (tree : FileTree) (location : Location) (name : String)
    (identity permissions : Nat) (content : List UInt8) : Option FileTree :=
  if h : tree.holdsDirectory location = true ∧ tree.holdsDirectory (location ++ [name]) = false ∧
      PlainName name ∧ tree.Free identity then
    have hflat : ¬tree.IsDirectory (location ++ [name]) := fun hdir => by
      simp [holdsDirectory_iff.mpr hdir] at h
    some
      { nodes := (location ++ [name], .file identity permissions content) ::
          tree.others (location ++ [name])
        distinct := by
          refine List.nodup_cons.mpr ⟨fun hmem => ?_, tree.others_distinct _⟩
          obtain ⟨entry, hentry, hlocation⟩ := List.mem_map.mp hmem
          exact (mem_others.mp hentry).2 hlocation
        rooted := by
          obtain ⟨entry, hentry, hroot⟩ := others_rooted hflat
          exact ⟨entry, List.mem_cons_of_mem _ hentry, hroot⟩
        parents := by
          intro entry hentry hbelow
          rcases List.mem_cons.mp hentry with rfl | hentry
          · obtain ⟨directory, hdirectory⟩ := holdsDirectory_iff.mp h.1
            refine ⟨(location, .directory directory), List.mem_cons_of_mem _ (mem_others.mpr
              ⟨lookup_eq_some_iff.mp hdirectory, ?_⟩), by simp, rfl⟩
            simp
          · obtain ⟨parent, hparent, hplace⟩ :=
              others_parents hflat (mem_others.mp hentry).1 hbelow
            exact ⟨parent, List.mem_cons_of_mem _ hparent, hplace⟩
        single := by
          intro entry hentry other hother hdir hsame
          rcases List.mem_cons.mp hentry with rfl | hentry
          · cases hdir
          rcases List.mem_cons.mp hother with rfl | hother
          · exact absurd hsame (h.2.2.2 entry (mem_others.mp hentry).1 hdir)
          exact tree.single _ (mem_others.mp hentry).1 _ (mem_others.mp hother).1 hdir hsame
        plain := by
          intro entry hentry part hpart
          rcases List.mem_cons.mp hentry with rfl | hentry
          · rcases List.mem_append.mp hpart with hpart | hpart
            · obtain ⟨directory, hdirectory⟩ := holdsDirectory_iff.mp h.1
              exact plain_of_lookup hdirectory part hpart
            · rw [List.mem_singleton.mp hpart]
              exact h.2.2.1
          · exact tree.plain _ (mem_others.mp hentry).1 part hpart }
  else none

/-- An entry that is no directory taken out of its directory. -/
def unlink (tree : FileTree) (location : Location) : Option FileTree :=
  if h : tree.holdsDirectory location = false ∧ (tree.lookup location).isSome = true then
    have hflat : ¬tree.IsDirectory location := fun hdir => by
      simp [holdsDirectory_iff.mpr hdir] at h
    some
      { nodes := tree.others location
        distinct := tree.others_distinct location
        rooted := others_rooted hflat
        parents := fun _ hentry hbelow => others_parents hflat (mem_others.mp hentry).1 hbelow
        single := fun _ hentry _ hother hdir hsame =>
          tree.single _ (mem_others.mp hentry).1 _ (mem_others.mp hother).1 hdir hsame
        plain := fun _ hentry => tree.plain _ (mem_others.mp hentry).1 }
  else none

theorem placeFile_lookup {placed : FileTree} {name : String} {identity permissions : Nat}
    {content : List UInt8}
    (h : tree.placeFile location name identity permissions content = some placed)
    (place : Location) :
    placed.lookup place =
      if place = location ++ [name] then some (.file identity permissions content)
      else tree.lookup place := by
  unfold placeFile at h
  split_ifs at h with hallowed
  cases h
  split_ifs with hplace
  · exact lookup_eq_some_iff.mpr (by simp [hplace])
  · refine Option.ext fun node => ?_
    rw [lookup_eq_some_iff, lookup_eq_some_iff]
    simp [mem_others, hplace]

theorem unlink_lookup {left : FileTree} (h : tree.unlink location = some left) (place : Location) :
    left.lookup place = if place = location then none else tree.lookup place := by
  unfold unlink at h
  split_ifs at h with hallowed
  cases h
  refine Option.ext fun node => ?_
  rw [lookup_eq_some_iff]
  split_ifs with hplace
  · simp [mem_others, hplace]
  · rw [lookup_eq_some_iff]
    simp [mem_others, hplace]

end FileTree

end Changes

end MobiusAgent.FileTrees
