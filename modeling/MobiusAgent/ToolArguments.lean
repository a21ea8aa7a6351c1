import Mathlib.Algebra.Group.Int.Defs
import MobiusAgent.MessageQueue

/-!
# Tool arguments and their schema

`middleware/tools/arguments.rs`: the arguments of a call are read against the
schema of its tool. A value whose type is not named is read again as one that
is, in the encodings that providers produce. The parsers of JSON texts and
numbers are parameters. A failure leaves no arguments.
-/

namespace MobiusAgent.ToolArguments

open JsonValue Json

section Kinds

/-- `types`: the names of the types of a schema. -/
def types (schema : Json) : List String :=
  match schema.get "type" with
  | some (.str kind) => [kind]
  | some (.arr kinds) => kinds.filterMap Json.asStr
  | _ => []

/-- `is_i64` of a whole number. -/
def isI64 (value : Int) : Bool := -2 ^ 63 ≤ value && value < 2 ^ 63

/-- `is_u64` of a whole number. -/
def isU64 (value : Int) : Bool := 0 ≤ value && value < 2 ^ 64

/-- `matches`: a name that is no type is that of every value. -/
def matchesKind (value : Json) (kind : String) : Bool :=
  if kind = "array" then (match value with
    | .arr _ => true
    | _ => false)
  else if kind = "object" then (match value with
    | .obj _ => true
    | _ => false)
  else if kind = "string" then (match value with
    | .str _ => true
    | _ => false)
  else if kind = "boolean" then (match value with
    | .bool _ => true
    | _ => false)
  else if kind = "null" then (match value with
    | .null => true
    | _ => false)
  else if kind = "integer" then (match value with
    | .number whole => isI64 whole || isU64 whole
    | _ => false)
  else if kind = "number" then (match value with
    | .number _ => true
    | .decimal _ => true
    | _ => false)
  else true

def article (kind : String) : String :=
  if kind = "array" then "an array"
  else if kind = "object" then "an object"
  else if kind = "string" then "a string"
  else if kind = "boolean" then "a boolean"
  else if kind = "integer" then "an integer"
  else if kind = "number" then "a number"
  else if kind = "null" then "null"
  else "a value"

def expected (kinds : List String) : String := " or ".intercalate (kinds.map article)

def kindOf : Json → String
  | .null => "null"
  | .bool _ => "a boolean"
  | .number _ => "a number"
  | .decimal _ => "a number"
  | .str _ => "a string"
  | .arr _ => "an array"
  | .obj _ => "an object"

end Kinds

section Repairs

/-- A number of the standard parser. -/
inductive JsonNumber where
  | whole (value : Int)
  /-- Any other number, by its literal. -/
  | decimal (literal : String)

/-- `Value::Number`. -/
def JsonNumber.value : JsonNumber → Json
  | .whole value => .number value
  | .decimal literal => .decimal literal

/-- The parsers of `serde_json`. -/
structure Readers where
  /-- `from_str` of a value. -/
  fromStr : String → Option Json
  /-- `parse::<Number>`. -/
  parseNumber : String → Option JsonNumber

def digitsValue (digits : List Char) : Option Nat :=
  if digits ≠ [] ∧ digits.all Char.isDigit then
    some (digits.foldl (fun value c => value * 10 + (c.toNat - '0'.toNat)) 0)
  else none

/-- `parse::<i64>`. -/
def parseI64 (text : String) : Option Int :=
  let value : Option Int := match text.toList with
    | '-' :: digits => (digitsValue digits).map fun value => -(value : Int)
    | '+' :: digits => (digitsValue digits).map Int.ofNat
    | digits => (digitsValue digits).map Int.ofNat
  value.filter isI64

/-- `parse::<u64>`. -/
def parseU64 (text : String) : Option Int :=
  let value : Option Int := match text.toList with
    | '+' :: digits => (digitsValue digits).map Int.ofNat
    | digits => (digitsValue digits).map Int.ofNat
  value.filter isU64

/-- `unwrap_item`: a map of one item is the array of it. -/
def unwrapItem : List (String × Json) → Option Json
  | [(name, item)] =>
    if name = "item" then
      match item with
      | .arr items => some (.arr items)
      | item => some (.arr [item])
    else none
  | _ => none

/-- A text read as an array or an object. -/
def readValue (readers : Readers) (text kind : String) : Option Json :=
  (readers.fromStr (MessageQueue.trim text)).filter fun parsed => matchesKind parsed kind

/-- A text read as a whole number. -/
def readInteger (text : String) : Option Json :=
  let text := MessageQueue.trim text
  ((parseI64 text).orElse fun _ => parseU64 text).map Json.number

def readBoolean (text : String) : Option Json :=
  let text := MessageQueue.trim text
  if text = "true" then some (.bool true)
  else if text = "false" then some (.bool false)
  else none

/-- `repair`: a value read as a type. -/
def repair (readers : Readers) (value : Json) (kind : String) : Option Json :=
  match value with
  | .obj fields => if kind = "array" then unwrapItem fields else none
  | .str text =>
    if kind = "array" ∨ kind = "object" then readValue readers text kind
    else if kind = "integer" then readInteger text
    else if kind = "number" then
      (readers.parseNumber (MessageQueue.trim text)).map JsonNumber.value
    else if kind = "boolean" then readBoolean text
    else none
  | _ => none

end Repairs

section Branches

/-- Whether a branch names a tag in its property `type`, if it has names there. -/
def names (tag : Option String) (schema : Json) : Option Bool := do
  let properties ← schema.get "properties"
  let tagSchema ← properties.get "type"
  match (tagSchema.get "const").bind Json.asStr with
  | some name => some (decide (tag = some name))
  | none => do
    let list ← tagSchema.get "enum"
    let values ← list.asArray
    some (values.any fun value => decide (value.asStr = tag))

/-- `anyOf`, else `oneOf`. -/
def branches (schema : Json) : Option (List Json) :=
  ((schema.get "anyOf").orElse fun _ => schema.get "oneOf").bind Json.asArray

/-- `branch`: the branch of a union to which a value belongs. -/
def branch (value schema : Json) : Json :=
  match branches schema with
  | none => schema
  | some all =>
    let tag := (value.get "type").bind Json.asStr
    match all.find? (fun one => names tag one = some true) with
    | some one => one
    | none =>
      match all.filter (fun one => (types one).any (matchesKind value)) with
      | [one] => one
      | _ => schema

end Branches

section Sizes

theorem sizeOf_lookup {key : String} {value : Json} {fields : List (String × Json)}
    (h : lookup key fields = some value) : sizeOf value < sizeOf fields := by
  induction fields with
  | nil => cases h
  | cons field rest ih =>
    obtain ⟨name, held⟩ := field
    unfold lookup at h
    by_cases hname : name = key
    · rw [if_pos hname] at h
      have hsame := Option.some.inj h
      rw [hsame]
      simp only [List.cons.sizeOf_spec, Prod.mk.sizeOf_spec]
      omega
    · rw [if_neg hname] at h
      have hless := ih h
      simp only [List.cons.sizeOf_spec]
      omega

theorem sizeOf_get {key : String} {value schema : Json} (h : schema.get key = some value) :
    sizeOf value < sizeOf schema := by
  cases schema with
  | obj fields =>
    have hless := sizeOf_lookup h
    simp only [Json.obj.sizeOf_spec]
    omega
  | null | bool | number | decimal | str | arr => cases h

theorem sizeOf_branches {schema one : Json} {all : List Json} (h : branches schema = some all)
    (hmember : one ∈ all) : sizeOf one < sizeOf schema := by
  obtain ⟨list, hlist, harray⟩ := Option.bind_eq_some_iff.mp h
  have hlists : sizeOf list < sizeOf schema := by
    cases hany : schema.get "anyOf" with
    | some found =>
      rw [hany] at hlist
      have hsame : found = list := Option.some.inj hlist
      rw [← hsame]
      exact sizeOf_get hany
    | none =>
      rw [hany] at hlist
      exact sizeOf_get hlist
  cases list with
  | arr items =>
    have hsame : items = all := Option.some.inj harray
    have hless := List.sizeOf_lt_of_mem (hsame ▸ hmember)
    simp only [Json.arr.sizeOf_spec] at hlists
    omega
  | null | bool | number | decimal | str | obj => cases harray

theorem sizeOf_branch (value schema : Json) : sizeOf (branch value schema) ≤ sizeOf schema := by
  unfold branch
  cases hall : branches schema with
  | none => exact le_refl _
  | some all =>
    simp only
    split
    · rename_i one hfound
      exact (sizeOf_branches hall (List.mem_of_find?_eq_some hfound)).le
    · split
      · rename_i one hfilter
        have hmember : one ∈ all.filter fun one => (types one).any (matchesKind value) := by
          rw [hfilter]
          exact List.mem_singleton_self one
        exact (sizeOf_branches hall (List.mem_filter.mp hmember).1).le
      · exact le_refl _

end Sizes

section Walk

/-- The value and whether it has changed. -/
abbrev Walked := Json × Bool

/-- The value with a type that its schema names. -/
def readAs (readers : Readers) (value schema : Json) : Option Json :=
  if types schema ≠ [] ∧ (types schema).any (matchesKind value) = false then
    (types schema).findSome? (repair readers value)
  else some value

/-- The start of `walk`: the type of the value itself. -/
def readOwn (readers : Readers) (value schema : Json) (path : String) : Except String Walked :=
  if types schema ≠ [] ∧ (types schema).any (matchesKind value) = false then
    match (types schema).findSome? (repair readers value) with
    | some repaired => .ok (repaired, true)
    | none => .error ("`" ++ (if path = "" then "arguments" else path) ++ "`: expected " ++
        expected (types schema) ++ ", got " ++ kindOf value)
  else .ok (value, false)

def itemPath (path : String) (index : Nat) : String := path ++ "[" ++ toString index ++ "]"

def fieldPath (path name : String) : String := (if path = "" then path else path ++ ".") ++ name

/-- The loop over the items of an array. -/
def walkItems (step : Json → String → Except String Walked) (path : String) :
    List Json → Nat → Except String (List Json × Bool)
  | [], _ => .ok ([], false)
  | item :: rest, index => do
    let first ← step item (itemPath path index)
    let others ← walkItems step path rest (index + 1)
    .ok (first.1 :: others.1, first.2 || others.2)

/-- The loop over the fields of an object. -/
def walkFields (step : String → Json → Except String Walked) :
    List (String × Json) → Except String (List (String × Json) × Bool)
  | [] => .ok ([], false)
  | (name, field) :: rest => do
    let first ← step name field
    let others ← walkFields step rest
    .ok ((name, first.1) :: others.1, first.2 || others.2)

def properties (schema : Json) : Option (List (String × Json)) :=
  (schema.get "properties").bind Json.asObject

theorem sizeOf_properties {schema fieldSchema : Json} {name : String}
    {all : List (String × Json)} (h : properties schema = some all)
    (hfield : lookup name all = some fieldSchema) : sizeOf fieldSchema < sizeOf schema := by
  obtain ⟨object, hobject, hfields⟩ := Option.bind_eq_some_iff.mp h
  have hless := sizeOf_get hobject
  cases object with
  | obj fields =>
    have hsame : fields = all := Option.some.inj hfields
    have hsmall := sizeOf_lookup (hsame ▸ hfield)
    simp only [Json.obj.sizeOf_spec] at hless
    omega
  | null | bool | number | decimal | str | arr => cases hfields

def walk (readers : Readers) (value schema : Json) (path : String) : Except String Walked :=
  match readOwn readers value (branch value schema) path with
  | .error error => .error error
  | .ok (.arr items, changed) =>
    match _hitems : (branch value schema).get "items" with
    | none => .ok (.arr items, changed)
    | some itemSchema =>
      (walkItems (fun item path => walk readers item itemSchema path) path items 0).map
        fun walked => (.arr walked.1, changed || walked.2)
  | .ok (.obj fields, changed) =>
    match _hproperties : properties (branch value schema) with
    | none => .ok (.obj fields, changed)
    | some all =>
      (walkFields (fun name field =>
        match _hfield : lookup name all with
        | none => .ok (field, false)
        | some fieldSchema => walk readers field fieldSchema (fieldPath path name)) fields).map
        fun walked => (.obj walked.1, changed || walked.2)
  | .ok own => .ok own
termination_by sizeOf schema
decreasing_by
  · exact lt_of_lt_of_le (sizeOf_get ‹_›) (sizeOf_branch value schema)
  · exact lt_of_lt_of_le (sizeOf_properties ‹_› ‹_›) (sizeOf_branch value schema)

def normalize (readers : Readers) (value schema : Json) : Except String Walked :=
  walk readers value schema ""

end Walk

end MobiusAgent.ToolArguments
