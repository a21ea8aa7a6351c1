import Mathlib.Data.List.Sort
import Mathlib.Order.Lattice

/-!
# Maps with ordered keys

A map is the list of its entries in the order of their keys, with the order as
part of the structure, so that maps with the same values under every key are
the same map. Entries are inserted, looked up, kept by a condition on their
keys and appended; each operation is described by what is found afterwards.
-/

namespace MobiusAgent.OrderedMaps

variable {K V W : Type} [LinearOrder K]

/-- The value under a key in a list of entries. -/
def find (key : K) : List (K × V) → Option V
  | [] => none
  | entry :: rest => if entry.1 = key then some entry.2 else find key rest

/-- The entries with a value under a key, in the order of keys. -/
def put (key : K) (value : V) : List (K × V) → List (K × V)
  | [] => [(key, value)]
  | entry :: rest =>
    if entry.1 = key then (key, value) :: rest
    else if key < entry.1 then (key, value) :: entry :: rest
    else entry :: put key value rest

/-- Entries in the order of their keys, without two of one key. -/
def Ascending (entries : List (K × V)) : Prop :=
  entries.Pairwise fun first second => first.1 < second.1

section Entries

variable {entries : List (K × V)}

theorem mem_put {key : K} {value : V} {entry : K × V} (h : entry ∈ put key value entries) :
    entry = (key, value) ∨ entry ∈ entries := by
  induction entries with
  | nil => exact .inl (List.mem_singleton.mp h)
  | cons first rest ih =>
    unfold put at h
    by_cases hsame : first.1 = key
    · rw [if_pos hsame] at h
      exact (List.mem_cons.mp h).imp_right (List.mem_cons_of_mem _)
    · rw [if_neg hsame] at h
      by_cases hbefore : key < first.1
      · rw [if_pos hbefore] at h
        exact List.mem_cons.mp h
      · rw [if_neg hbefore] at h
        cases List.mem_cons.mp h with
        | inl hfirst => exact .inr (hfirst ▸ List.mem_cons_self)
        | inr hrest => exact (ih hrest).imp_right (List.mem_cons_of_mem _)

theorem Ascending.put (h : Ascending entries) (key : K) (value : V) :
    Ascending (OrderedMaps.put key value entries) := by
  induction entries with
  | nil => exact List.pairwise_singleton _ _
  | cons first rest ih =>
    obtain ⟨hfirst, hrest⟩ := List.pairwise_cons.mp h
    unfold OrderedMaps.put
    by_cases hsame : first.1 = key
    · rw [if_pos hsame]
      exact List.pairwise_cons.mpr ⟨fun entry hmem => hsame ▸ hfirst entry hmem, hrest⟩
    · rw [if_neg hsame]
      by_cases hbefore : key < first.1
      · rw [if_pos hbefore]
        refine List.pairwise_cons.mpr ⟨fun entry hmem => ?_, h⟩
        cases List.mem_cons.mp hmem with
        | inl hthis => rw [hthis]; exact hbefore
        | inr hlater => exact lt_trans hbefore (hfirst entry hlater)
      · rw [if_neg hbefore]
        have hafter : first.1 < key := lt_of_le_of_ne (not_lt.mp hbefore) hsame
        refine List.pairwise_cons.mpr ⟨fun entry hmem => ?_, ih hrest⟩
        cases mem_put hmem with
        | inl hthis => rw [hthis]; exact hafter
        | inr hlater => exact hfirst entry hlater

theorem find_put_self (key : K) (value : V) (entries : List (K × V)) :
    find key (put key value entries) = some value := by
  induction entries with
  | nil => simp [put, find]
  | cons first rest ih =>
    by_cases hsame : first.1 = key
    · simp [put, find, hsame]
    · by_cases hbefore : key < first.1
      · simp [put, find, hsame, hbefore]
      · simp [put, find, hsame, hbefore, ih]

theorem find_put_ne {key other : K} (hne : other ≠ key) (value : V) (entries : List (K × V)) :
    find other (put key value entries) = find other entries := by
  induction entries with
  | nil => simp [put, find, hne.symm]
  | cons first rest ih =>
    by_cases hsame : first.1 = key
    · simp [put, find, hsame, hne.symm]
    · by_cases hbefore : key < first.1
      · simp [put, find, hsame, hbefore, hne.symm]
      · simp [put, find, hsame, hbefore, ih]

theorem find_of_mem (h : Ascending entries) {entry : K × V} (hmem : entry ∈ entries) :
    find entry.1 entries = some entry.2 := by
  induction entries with
  | nil => cases hmem
  | cons first rest ih =>
    obtain ⟨hfirst, hrest⟩ := List.pairwise_cons.mp h
    unfold find
    cases List.mem_cons.mp hmem with
    | inl hthis => rw [if_pos (by rw [hthis]), hthis]
    | inr hlater =>
      rw [if_neg (ne_of_lt (hfirst entry hlater))]
      exact ih hrest hlater

theorem mem_of_find {key : K} {value : V} (h : find key entries = some value) :
    (key, value) ∈ entries := by
  induction entries with
  | nil => cases h
  | cons first rest ih =>
    unfold find at h
    by_cases hsame : first.1 = key
    · rw [if_pos hsame] at h
      cases h
      rw [← hsame]
      exact List.mem_cons_self
    · rw [if_neg hsame] at h
      exact List.mem_cons_of_mem _ (ih h)

theorem length_put_le (key : K) (value : V) (entries : List (K × V)) :
    (put key value entries).length ≤ entries.length + 1 := by
  induction entries with
  | nil => exact Nat.le_refl _
  | cons first rest ih =>
    unfold put
    by_cases hsame : first.1 = key
    · rw [if_pos hsame]
      exact Nat.le_succ _
    · rw [if_neg hsame]
      by_cases hbefore : key < first.1
      · rw [if_pos hbefore]
        exact Nat.le_refl _
      · rw [if_neg hbefore]
        exact Nat.succ_le_succ ih

theorem length_put_of_find (h : Ascending entries) {key : K} {old : V}
    (hfound : find key entries = some old) (value : V) :
    (put key value entries).length = entries.length := by
  induction entries with
  | nil => cases hfound
  | cons first rest ih =>
    obtain ⟨hfirst, hrest⟩ := List.pairwise_cons.mp h
    unfold find at hfound
    unfold put
    by_cases hsame : first.1 = key
    · rw [if_pos hsame]
      rfl
    · rw [if_neg hsame] at hfound
      have hafter : first.1 < key := hfirst (key, old) (mem_of_find hfound)
      rw [if_neg hsame, if_neg (lt_asymm hafter)]
      exact congrArg (· + 1) (ih hrest hfound)

theorem find_filter (kept : K → Bool) (key : K) (entries : List (K × V)) :
    find key (entries.filter fun entry => kept entry.1) =
      if kept key = true then find key entries else none := by
  induction entries with
  | nil => simp [find]
  | cons first rest ih =>
    by_cases hkept : kept first.1 = true
    · rw [List.filter_cons_of_pos (by simpa using hkept), find, find, ih]
      by_cases hsame : first.1 = key
      · rw [if_pos hsame, if_pos hsame, if_pos (hsame ▸ hkept)]
      · rw [if_neg hsame, if_neg hsame]
    · rw [List.filter_cons_of_neg (by simpa using hkept), ih]
      by_cases hsame : first.1 = key
      · rw [if_neg (hsame ▸ hkept), if_neg (hsame ▸ hkept)]
      · rw [find, if_neg hsame]

end Entries

structure OrderedMap (K V : Type) [LinearOrder K] where
  entries : List (K × V)
  /-- They are in the order of their keys. -/
  ascending : Ascending entries

namespace OrderedMap

variable (map : OrderedMap K V)

/-- The map without entries. -/
def empty : OrderedMap K V := ⟨[], List.Pairwise.nil⟩

/-- The value under a key. -/
def get (key : K) : Option V := find key map.entries

def insert (key : K) (value : V) : OrderedMap K V :=
  ⟨put key value map.entries, map.ascending.put key value⟩

/-- The entries whose keys satisfy a condition. -/
def keep (kept : K → Bool) : OrderedMap K V :=
  ⟨map.entries.filter fun entry => kept entry.1, List.Pairwise.filter _ map.ascending⟩

def erase (key : K) : OrderedMap K V := map.keep fun other => decide (other ≠ key)

def firstKey : Option K := map.entries.head?.map Prod.fst

/-- The map with the entries of another, which take the place of its own. -/
def append (other : OrderedMap K V) : OrderedMap K V :=
  other.entries.foldl (fun acc entry => acc.insert entry.1 entry.2) map

def mapValues (f : V → W) : OrderedMap K W :=
  ⟨map.entries.map fun entry => (entry.1, f entry.2), by
    exact List.pairwise_map.mpr (map.ascending.imp fun hlt => hlt)⟩

variable {map}

theorem eq_of_entries {other : OrderedMap K V} (h : map.entries = other.entries) : map = other := by
  cases map
  cases other
  cases h
  rfl

/-- Maps can be compared. -/
instance [DecidableEq V] : DecidableEq (OrderedMap K V) := fun first second =>
  decidable_of_iff (first.entries = second.entries)
    ⟨eq_of_entries, fun hsame => congrArg OrderedMap.entries hsame⟩

theorem ext_get {other : OrderedMap K V} (h : ∀ key, map.get key = other.get key) :
    map = other := by
  refine eq_of_entries ?_
  have hmem : ∀ entry, entry ∈ map.entries ↔ entry ∈ other.entries := by
    intro entry
    constructor
    · intro hentry
      have hfound := find_of_mem map.ascending hentry
      exact mem_of_find ((h entry.1).symm.trans hfound)
    · intro hentry
      have hfound := find_of_mem other.ascending hentry
      exact mem_of_find ((h entry.1).trans hfound)
  have hnodup : ∀ {entries : List (K × V)}, Ascending entries → entries.Nodup :=
    fun hsorted => hsorted.imp fun hlt heq => absurd (heq ▸ hlt) (lt_irrefl _)
  have hperm : map.entries.Perm other.entries :=
    (List.perm_ext_iff_of_nodup (hnodup map.ascending) (hnodup other.ascending)).mpr hmem
  exact hperm.eq_of_pairwise (fun first second _ _ hlt hgt => absurd hgt (lt_asymm hlt))
    map.ascending other.ascending

@[simp]
theorem get_empty (key : K) : (empty : OrderedMap K V).get key = none := rfl

theorem get_insert (map : OrderedMap K V) (key other : K) (value : V) :
    (map.insert key value).get other = if other = key then some value else map.get other := by
  by_cases hsame : other = key
  · rw [if_pos hsame, hsame]
    exact find_put_self key value map.entries
  · rw [if_neg hsame]
    exact find_put_ne hsame value map.entries

theorem get_keep (map : OrderedMap K V) (kept : K → Bool) (key : K) :
    (map.keep kept).get key = if kept key = true then map.get key else none :=
  find_filter kept key map.entries

theorem get_erase (map : OrderedMap K V) (key other : K) :
    (map.erase key).get other = if other = key then none else map.get other := by
  rw [erase, get_keep]
  by_cases hsame : other = key
  · simp [hsame]
  · simp [hsame]

theorem get_append (map other : OrderedMap K V) (key : K) :
    (map.append other).get key = (other.get key).or (map.get key) := by
  obtain ⟨entries, hentries⟩ := other
  unfold append get
  dsimp only
  induction entries generalizing map with
  | nil => rfl
  | cons first rest ih =>
    obtain ⟨hfirst, hrest⟩ := List.pairwise_cons.mp hentries
    rw [List.foldl_cons, ih (map.insert first.1 first.2) hrest, find]
    by_cases hsame : first.1 = key
    · -- The first key is in no later entry.
      have hnone : find key rest = none := by
        cases hfound : find key rest with
        | none => rfl
        | some value =>
          have hlt : first.1 < key := hfirst (key, value) (mem_of_find hfound)
          exact absurd hlt (hsame ▸ lt_irrefl _)
      rw [if_pos hsame, hnone, ← hsame]
      exact find_put_self first.1 first.2 map.entries
    · rw [if_neg hsame]
      exact congrArg (Option.or (find key rest))
        (find_put_ne (Ne.symm hsame) first.2 map.entries)

theorem get_mapValues (map : OrderedMap K V) (f : V → W) (key : K) :
    (map.mapValues f).get key = (map.get key).map f := by
  obtain ⟨entries, hentries⟩ := map
  unfold mapValues get
  dsimp only
  clear hentries
  induction entries with
  | nil => rfl
  | cons first rest ih =>
    by_cases hsame : first.1 = key
    · simp [find, hsame]
    · simpa [find, hsame] using ih

def size (map : OrderedMap K V) : Nat := map.entries.length

theorem size_insert_le (map : OrderedMap K V) (key : K) (value : V) :
    (map.insert key value).size ≤ map.size + 1 := length_put_le key value map.entries

theorem size_insert_of_get {key : K} {old : V} (h : map.get key = some old) (value : V) :
    (map.insert key value).size = map.size := length_put_of_find map.ascending h value

theorem size_erase_le (map : OrderedMap K V) (key : K) : (map.erase key).size ≤ map.size :=
  List.length_filter_le _ _

theorem insert_insert_of_get {key : K} {old : V} (h : map.get key = some old) (value : V) :
    (map.insert key value).insert key old = map := by
  refine ext_get fun other => ?_
  rw [get_insert, get_insert]
  by_cases hsame : other = key
  · rw [if_pos hsame, hsame, h]
  · rw [if_neg hsame, if_neg hsame]

theorem erase_insert_of_get {key : K} (h : map.get key = none) (value : V) :
    (map.insert key value).erase key = map := by
  refine ext_get fun other => ?_
  rw [get_erase, get_insert]
  by_cases hsame : other = key
  · rw [if_pos hsame, hsame, h]
  · rw [if_neg hsame, if_neg hsame]

theorem insert_erase_of_get {key : K} {old : V} (h : map.get key = some old) :
    (map.erase key).insert key old = map := by
  refine ext_get fun other => ?_
  rw [get_insert, get_erase]
  by_cases hsame : other = key
  · rw [if_pos hsame, hsame, h]
  · rw [if_neg hsame, if_neg hsame]

end OrderedMap

end MobiusAgent.OrderedMaps
