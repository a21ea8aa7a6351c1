import Mathlib.Data.List.Basic

/-!
# JSON values as the agent handles them

Context items, tool arguments and metadata are `serde_json::Value`s. The
model keeps the same constructors. An object is the list of its fields in
key order, a whole number is an `Int`, and any other number keeps its
literal text, since no modelled function computes with it.
-/

namespace MobiusAgent.JsonValue

inductive Json where
  | null
  | bool (value : Bool)
  | number (value : Int)
  /-- Any other number, by its literal. -/
  | decimal (literal : String)
  | str (value : String)
  | arr (items : List Json)
  | obj (fields : List (String × Json))
  deriving Inhabited

namespace Json

mutual
/-- Structural comparison of two values. -/
def decEq : (a b : Json) → Decidable (a = b)
  | .null, .null => isTrue rfl
  | .bool a, .bool b =>
    if h : a = b then isTrue (by rw [h]) else isFalse (by simpa using h)
  | .number a, .number b =>
    if h : a = b then isTrue (by rw [h]) else isFalse (by simpa using h)
  | .decimal a, .decimal b =>
    if h : a = b then isTrue (by rw [h]) else isFalse (by simpa using h)
  | .str a, .str b =>
    if h : a = b then isTrue (by rw [h]) else isFalse (by simpa using h)
  | .arr a, .arr b => match decEqItems a b with
    | isTrue h => isTrue (by rw [h])
    | isFalse h => isFalse (by simpa using h)
  | .obj a, .obj b => match decEqFields a b with
    | isTrue h => isTrue (by rw [h])
    | isFalse h => isFalse (by simpa using h)
  | .null, .bool _ | .null, .number _ | .null, .decimal _ | .null, .str _ | .null, .arr _
  | .null, .obj _ | .bool _, .null | .bool _, .number _ | .bool _, .decimal _ | .bool _, .str _
  | .bool _, .arr _ | .bool _, .obj _ | .number _, .null | .number _, .bool _
  | .number _, .decimal _ | .number _, .str _ | .number _, .arr _ | .number _, .obj _
  | .decimal _, .null | .decimal _, .bool _ | .decimal _, .number _ | .decimal _, .str _
  | .decimal _, .arr _ | .decimal _, .obj _ | .str _, .null | .str _, .bool _
  | .str _, .number _ | .str _, .decimal _ | .str _, .arr _ | .str _, .obj _ | .arr _, .null
  | .arr _, .bool _ | .arr _, .number _ | .arr _, .decimal _ | .arr _, .str _ | .arr _, .obj _
  | .obj _, .null | .obj _, .bool _ | .obj _, .number _ | .obj _, .decimal _ | .obj _, .str _
  | .obj _, .arr _ => isFalse (by simp)

/-- Structural comparison of two item lists. -/
def decEqItems : (a b : List Json) → Decidable (a = b)
  | [], [] => isTrue rfl
  | [], _ :: _ => isFalse (by simp)
  | _ :: _, [] => isFalse (by simp)
  | a :: as, b :: bs => match decEq a b, decEqItems as bs with
    | isTrue h, isTrue ht => isTrue (by rw [h, ht])
    | isFalse h, _ => isFalse (by simp [h])
    | _, isFalse h => isFalse (by simp [h])

/-- Structural comparison of two field lists. -/
def decEqFields : (a b : List (String × Json)) → Decidable (a = b)
  | [], [] => isTrue rfl
  | [], _ :: _ => isFalse (by simp)
  | _ :: _, [] => isFalse (by simp)
  | (k, a) :: as, (l, b) :: bs => match decEq a b, decEqFields as bs with
    | isTrue h, isTrue ht =>
      if hk : k = l then isTrue (by rw [h, ht, hk]) else isFalse (by simp [hk])
    | isFalse h, _ => isFalse (by simp [h])
    | _, isFalse h => isFalse (by simp [h])
end

/-- Values can be compared, as `serde_json` compares them. -/
instance : DecidableEq Json := decEq

/-- The value of the first field with this key. -/
def lookup (key : String) : List (String × Json) → Option Json
  | [] => none
  | (name, value) :: rest => if name = key then some value else lookup key rest

/-- `Value::get` with a string key: a field of an object. -/
def get : Json → String → Option Json
  | .obj fields, key => lookup key fields
  | _, _ => none

def asStr : Json → Option String
  | .str value => some value
  | _ => none

def asBool : Json → Option Bool
  | .bool value => some value
  | _ => none

def asArray : Json → Option (List Json)
  | .arr items => some items
  | _ => none

def asObject : Json → Option (List (String × Json))
  | .obj fields => some fields
  | _ => none

/-- The string held by one field, as in `get(key).and_then(Value::as_str)`. -/
def getStr (item : Json) (key : String) : Option String :=
  (item.get key).bind asStr

/-- The Boolean held by one field. -/
def getBool (item : Json) (key : String) : Option Bool :=
  (item.get key).bind asBool

def insertField (key : String) (value : Json) : List (String × Json) → List (String × Json)
  | [] => [(key, value)]
  | (name, old) :: rest =>
    if name = key then (key, value) :: rest
    else if key < name then (key, value) :: (name, old) :: rest
    else (name, old) :: insertField key value rest

/-- `Map::insert` on an object; other values have no fields to write. -/
def insert (item : Json) (key : String) (value : Json) : Json :=
  match item with
  | .obj fields => .obj (insertField key value fields)
  | other => other

/-- `Map::remove` on an object; other values have no fields to remove. -/
def remove (item : Json) (key : String) : Json :=
  match item with
  | .obj fields => .obj (fields.filter fun field => field.1 != key)
  | other => other

theorem lookup_insertField_self (key : String) (value : Json) (fields : List (String × Json)) :
    lookup key (insertField key value fields) = some value := by
  induction fields with
  | nil => simp [insertField, lookup]
  | cons field rest ih =>
    obtain ⟨name, old⟩ := field
    by_cases hname : name = key
    · simp [insertField, lookup, hname]
    · by_cases horder : key < name
      · simp [insertField, lookup, hname, horder]
      · simp [insertField, lookup, hname, horder, ih]

theorem lookup_insertField_ne {key other : String} (hne : other ≠ key) (value : Json)
    (fields : List (String × Json)) :
    lookup other (insertField key value fields) = lookup other fields := by
  induction fields with
  | nil => simp [insertField, lookup, hne.symm]
  | cons field rest ih =>
    obtain ⟨name, old⟩ := field
    by_cases hname : name = key
    · subst hname
      simp [insertField, lookup, hne.symm]
    · by_cases horder : key < name
      · simp [insertField, lookup, hname, horder, hne.symm]
      · simp [insertField, lookup, hname, horder, ih]

theorem lookup_filter_ne {key other : String} (hne : other ≠ key)
    (fields : List (String × Json)) :
    lookup other (fields.filter fun field => field.1 != key) = lookup other fields := by
  induction fields with
  | nil => rfl
  | cons field rest ih =>
    obtain ⟨name, old⟩ := field
    by_cases hname : name = key
    · subst hname
      simp [lookup, hne.symm, ih]
    · simp [lookup, hname, ih]

theorem get_insert_ne {key other : String} (hne : other ≠ key) (item value : Json) :
    (item.insert key value).get other = item.get other := by
  cases item with
  | obj fields => exact lookup_insertField_ne hne value fields
  | null | bool | number | decimal | str | arr => rfl

theorem get_remove_ne {key other : String} (hne : other ≠ key) (item : Json) :
    (item.remove key).get other = item.get other := by
  cases item with
  | obj fields => exact lookup_filter_ne hne fields
  | null | bool | number | decimal | str | arr => rfl

end Json

end MobiusAgent.JsonValue
