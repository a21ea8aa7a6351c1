import MobiusAgent.ToolArguments

/-!
# What reading arguments against a schema does

The branch of a union is the one of the value as it is found, before it is
read as another type. At every position that is reached so, the result has a
type that the schema names, and a value that had the named types throughout is
untouched. Reading the result again changes nothing exactly if it has the
named types with the branches of its own values.
-/

namespace MobiusAgent.ArgumentRepairs

open JsonValue Json CheckpointValidation ToolArguments

section Statements

/-- A value has a type that its schema names, if it names any. -/
def HasType (value schema : Json) : Prop :=
  types schema = [] ∨ ∃ kind ∈ types schema, matchesKind value kind = true

/-- A value has the named types at every position, with the branches of its own values. -/
inductive Typed : Json → Json → Prop
  /-- The value, its items and its fields. -/
  | mk {value schema : Json} (own : HasType value (branch value schema))
      (items : ∀ items itemSchema, value = .arr items →
        (branch value schema).get "items" = some itemSchema → ∀ item ∈ items, Typed item itemSchema)
      (fields : ∀ fields all name field fieldSchema, value = .obj fields →
        properties (branch value schema) = some all → (name, field) ∈ fields →
        lookup name all = some fieldSchema → Typed field fieldSchema) :
      Typed value schema

/-- A position of the arguments with its schema and what it has become, reached through `items` and
`properties` of the branches of the values as they are found. -/
inductive Reached (readers : Readers) (value schema result : Json) : Json → Json → Json → Prop
  | here : Reached readers value schema result value schema result
  | item {found foundSchema itemSchema item become : Json} {items results : List Json} {index : Nat}
      (outer : Reached readers value schema result found foundSchema (.arr results))
      (own : readAs readers found (branch found foundSchema) = some (.arr items))
      (named : (branch found foundSchema).get "items" = some itemSchema)
      (before : items[index]? = some item) (after : results[index]? = some become) :
      Reached readers value schema result item itemSchema become
  | field {found foundSchema fieldSchema field become : Json} {name : String}
      {fields results all : List (String × Json)} {index : Nat}
      (outer : Reached readers value schema result found foundSchema (.obj results))
      (own : readAs readers found (branch found foundSchema) = some (.obj fields))
      (named : properties (branch found foundSchema) = some all)
      (property : lookup name all = some fieldSchema)
      (before : fields[index]? = some (name, field))
      (after : results[index]? = some (name, become)) :
      Reached readers value schema result field fieldSchema become

end Statements

section Own

theorem repair_matches {readers : Readers} {value repaired : Json} {kind : String}
    (h : repair readers value kind = some repaired) : matchesKind repaired kind = true := by
  cases value with
  | obj fields =>
    unfold repair at h
    by_cases harray : kind = "array"
    · rw [harray]
      simp only [harray, if_true] at h
      unfold unwrapItem at h
      split at h
      · split_ifs at h
        split at h
        · rw [← Option.some.inj h]
          rfl
        · rw [← Option.some.inj h]
          rfl
      · cases h
    · simp only [harray, if_false] at h
      cases h
  | str text =>
    unfold repair at h
    simp only at h
    by_cases hvalue : kind = "array" ∨ kind = "object"
    · rw [if_pos hvalue] at h
      exact (Option.filter_eq_some_iff.mp h).2
    · rw [if_neg hvalue] at h
      by_cases hinteger : kind = "integer"
      · rw [if_pos hinteger] at h
        obtain ⟨whole, hwhole, hresult⟩ := Option.map_eq_some_iff.mp h
        rw [← hresult, hinteger]
        have hrange : isI64 whole = true ∨ isU64 whole = true := by
          cases hfirst : parseI64 (MessageQueue.trim text) with
          | some found =>
            rw [hfirst] at hwhole
            have hsame : found = whole := Option.some.inj hwhole
            rw [← hsame]
            exact .inl (Option.filter_eq_some_iff.mp hfirst).2
          | none =>
            rw [hfirst] at hwhole
            exact .inr (Option.filter_eq_some_iff.mp hwhole).2
        simpa [matchesKind] using hrange
      · rw [if_neg hinteger] at h
        by_cases hnumber : kind = "number"
        · rw [if_pos hnumber] at h
          obtain ⟨number, _, hresult⟩ := Option.map_eq_some_iff.mp h
          rw [← hresult, hnumber]
          cases number with
          | whole | decimal => rfl
        · rw [if_neg hnumber] at h
          by_cases hboolean : kind = "boolean"
          · rw [if_pos hboolean] at h
            rw [hboolean]
            unfold readBoolean at h
            simp only at h
            split_ifs at h
            · rw [← Option.some.inj h]
              rfl
            · rw [← Option.some.inj h]
              rfl
          · rw [if_neg hboolean] at h
            cases h
  | null | bool | number | decimal | arr => cases h

theorem hasType_iff (value schema : Json) :
    HasType value schema ↔
      ¬ (types schema ≠ [] ∧ (types schema).any (matchesKind value) = false) := by
  unfold HasType
  rw [not_and_or, not_not, Bool.not_eq_false, List.any_eq_true]

/-- What the start of a walk does to the value. -/
structure ReadOwn (readers : Readers) (value schema own : Json) (changed : Bool) : Prop where
  reads : readAs readers value schema = some own
  typed : HasType own schema
  kept : HasType value schema → own = value ∧ changed = false
  other : ¬ HasType value schema → changed = true ∧
    ∃ kind, matchesKind own kind = true ∧ matchesKind value kind = false

theorem readOwn_ok {readers : Readers} {value schema own : Json} {path : String} {changed : Bool}
    (h : readOwn readers value schema path = .ok (own, changed)) :
    ReadOwn readers value schema own changed := by
  by_cases htype : HasType value schema
  · have hskip := (hasType_iff value schema).mp htype
    unfold readOwn at h
    rw [if_neg hskip] at h
    have hsame := Except.ok.inj h
    have hown : value = own := congrArg Prod.fst hsame
    have hflag : false = changed := congrArg Prod.snd hsame
    constructor
    · unfold readAs
      rw [if_neg hskip, hown]
    · rw [← hown]
      exact htype
    · intro _
      exact ⟨hown.symm, hflag.symm⟩
    · intro hnot
      exact absurd htype hnot
  · have hrepair : types schema ≠ [] ∧ (types schema).any (matchesKind value) = false := by
      by_contra hskip
      exact htype ((hasType_iff value schema).mpr hskip)
    unfold readOwn at h
    rw [if_pos hrepair] at h
    cases hfound : (types schema).findSome? (repair readers value) with
    | none =>
      rw [hfound] at h
      cases h
    | some repaired =>
      rw [hfound] at h
      have hsame := Except.ok.inj h
      have hown : repaired = own := congrArg Prod.fst hsame
      have hflag : true = changed := congrArg Prod.snd hsame
      obtain ⟨kind, hkind, hread⟩ := List.exists_of_findSome?_eq_some hfound
      rw [hown] at hread
      have hmatches := repair_matches hread
      constructor
      · unfold readAs
        rw [if_pos hrepair, hfound, hown]
      · exact .inr ⟨kind, hkind, hmatches⟩
      · intro htyped
        exact absurd htyped htype
      · intro _
        have hnot := List.any_eq_false.mp hrepair.2 kind hkind
        exact ⟨hflag.symm, kind, hmatches, Bool.eq_false_iff.mpr hnot⟩

theorem readOwn_typed (readers : Readers) {value schema : Json} (path : String)
    (h : HasType value schema) : readOwn readers value schema path = .ok (value, false) := by
  unfold readOwn
  rw [if_neg ((hasType_iff value schema).mp h)]

end Own

section Walks

/-- What becomes of one field. -/
def FieldWalked (readers : Readers) (all : List (String × Json)) (field : String × Json)
    (walked : String × Walked) : Prop :=
  walked.1 = field.1 ∧
    ((lookup field.1 all = none ∧ walked.2 = (field.2, false)) ∨
      ∃ fieldSchema path, lookup field.1 all = some fieldSchema ∧
        walk readers field.2 fieldSchema path = .ok walked.2)

/-- What becomes of the parts of a value. -/
inductive Into (readers : Readers) (schema : Json) : Json → Json → Bool → Prop
  | leaf {own : Json} (noItems : ∀ items, own ≠ .arr items) (noFields : ∀ fields, own ≠ .obj fields) :
      Into readers schema own own false
  /-- An array whose items have no schema. -/
  | freeItems {items : List Json} (free : schema.get "items" = none) :
      Into readers schema (.arr items) (.arr items) false
  | items {itemSchema : Json} {items : List Json} {walked : List Walked}
      (named : schema.get "items" = some itemSchema)
      (each : List.Forall₂ (fun item become => ∃ path,
        walk readers item itemSchema path = .ok become) items walked) :
      Into readers schema (.arr items) (.arr (walked.map (·.1))) (walked.any (·.2))
  /-- An object whose fields have no schemas. -/
  | freeFields {fields : List (String × Json)} (free : properties schema = none) :
      Into readers schema (.obj fields) (.obj fields) false
  | fields {all fields : List (String × Json)} {walked : List (String × Walked)}
      (named : properties schema = some all)
      (each : List.Forall₂ (FieldWalked readers all) fields walked) :
      Into readers schema (.obj fields) (.obj (walked.map fun become => (become.1, become.2.1)))
        (walked.any (·.2.2))

theorem walkItems_ok {step : Json → String → Except String Walked} {path : String} :
    ∀ {items : List Json} {index : Nat} {result : List Json × Bool},
      walkItems step path items index = .ok result →
      ∃ walked, List.Forall₂ (fun item become => ∃ path, step item path = .ok become) items walked ∧
        result = (walked.map (·.1), walked.any (·.2)) := by
  intro items
  induction items with
  | nil =>
    intro index result h
    exact ⟨[], .nil, (Except.ok.inj h).symm⟩
  | cons item rest ih =>
    intro index result h
    unfold walkItems at h
    obtain ⟨first, hfirst, h⟩ := bind_ok h
    obtain ⟨others, hothers, h⟩ := bind_ok h
    obtain ⟨walked, heach, hresult⟩ := ih hothers
    refine ⟨first :: walked, .cons ⟨_, hfirst⟩ heach, ?_⟩
    rw [← Except.ok.inj h, hresult]
    rfl

theorem walkFields_ok {step : String → Json → Except String Walked} :
    ∀ {fields : List (String × Json)} {result : List (String × Json) × Bool},
      walkFields step fields = .ok result →
      ∃ walked : List (String × Walked),
        List.Forall₂ (fun field become => become.1 = field.1 ∧
          step field.1 field.2 = .ok become.2) fields walked ∧
        result = (walked.map fun become => (become.1, become.2.1), walked.any (·.2.2)) := by
  intro fields
  induction fields with
  | nil =>
    intro result h
    exact ⟨[], .nil, (Except.ok.inj h).symm⟩
  | cons field rest ih =>
    intro result h
    obtain ⟨name, held⟩ := field
    unfold walkFields at h
    obtain ⟨first, hfirst, h⟩ := bind_ok h
    obtain ⟨others, hothers, h⟩ := bind_ok h
    obtain ⟨walked, heach, hresult⟩ := ih hothers
    refine ⟨(name, first) :: walked, .cons ⟨rfl, hfirst⟩ heach, ?_⟩
    rw [← Except.ok.inj h, hresult]
    rfl

theorem leaf_of_same {readers : Readers} {schema own result : Json} {first changed : Bool}
    (noItems : ∀ items, own ≠ .arr items) (noFields : ∀ fields, own ≠ .obj fields)
    (h : (Except.ok (own, first) : Except String Walked) = .ok (result, changed)) :
    Into readers schema own result false ∧ changed = (first || false) := by
  have hsame := Except.ok.inj h
  have hresult : own = result := congrArg Prod.fst hsame
  have hchanged : first = changed := congrArg Prod.snd hsame
  rw [← hresult, ← hchanged, Bool.or_false]
  exact ⟨.leaf noItems noFields, rfl⟩

/-- What a walk does: the value is read as a named type, then its parts are walked. -/
theorem walk_ok {readers : Readers} {value schema result : Json} {path : String} {changed : Bool}
    (h : walk readers value schema path = .ok (result, changed)) :
    ∃ own first inner, ReadOwn readers value (branch value schema) own first ∧
      Into readers (branch value schema) own result inner ∧ changed = (first || inner) := by
  rw [walk] at h
  cases hown : readOwn readers value (branch value schema) path with
  | error error =>
    rw [hown] at h
    cases h
  | ok read =>
    obtain ⟨own, first⟩ := read
    have hread := readOwn_ok hown
    rw [hown] at h
    cases own with
    | arr items =>
      simp only at h
      split at h
      · rename_i hfree
        have hsame := Except.ok.inj h
        have hresult : Json.arr items = result := congrArg Prod.fst hsame
        have hchanged : first = changed := congrArg Prod.snd hsame
        refine ⟨.arr items, first, false, hread, ?_, ?_⟩
        · rw [← hresult]
          exact .freeItems hfree
        · rw [Bool.or_false, hchanged]
      · rename_i itemSchema hnamed
        obtain ⟨walked, hwalked, hsame⟩ := except_map_ok h
        obtain ⟨each, heach, hparts⟩ := walkItems_ok hwalked
        rw [hparts] at hsame
        have hresult : Json.arr (each.map (·.1)) = result := congrArg Prod.fst hsame
        have hchanged : (first || each.any (·.2)) = changed := congrArg Prod.snd hsame
        refine ⟨.arr items, first, each.any (·.2), hread, ?_, hchanged.symm⟩
        rw [← hresult]
        exact .items hnamed heach
    | obj fields =>
      simp only at h
      split at h
      · rename_i hfree
        have hsame := Except.ok.inj h
        have hresult : Json.obj fields = result := congrArg Prod.fst hsame
        have hchanged : first = changed := congrArg Prod.snd hsame
        refine ⟨.obj fields, first, false, hread, ?_, ?_⟩
        · rw [← hresult]
          exact .freeFields hfree
        · rw [Bool.or_false, hchanged]
      · rename_i all hnamed
        obtain ⟨walked, hwalked, hsame⟩ := except_map_ok h
        obtain ⟨each, heach, hparts⟩ := walkFields_ok hwalked
        rw [hparts] at hsame
        have hresult : Json.obj (each.map fun become => (become.1, become.2.1)) = result :=
          congrArg Prod.fst hsame
        have hchanged : (first || each.any (·.2.2)) = changed := congrArg Prod.snd hsame
        refine ⟨.obj fields, first, each.any (·.2.2), hread, ?_, hchanged.symm⟩
        rw [← hresult]
        refine .fields hnamed (heach.imp ?_)
        rintro field become ⟨hname, hstep⟩
        refine ⟨hname, ?_⟩
        split at hstep
        · rename_i hnone
          exact .inl ⟨hnone, (Except.ok.inj hstep).symm⟩
        · rename_i fieldSchema hsome
          exact .inr ⟨fieldSchema, _, hsome, hstep⟩
    | null | bool | number | decimal | str =>
      exact ⟨_, _, false, hread, leaf_of_same (by simp) (by simp) h⟩

end Walks

section Flags

theorem Into.kind {readers : Readers} {schema own result : Json} {inner : Bool}
    (h : Into readers schema own result inner) (kind : String) :
    matchesKind result kind = matchesKind own kind := by
  cases h with
  | leaf _ _ | freeItems _ | items _ _ | freeFields _ | fields _ _ => rfl

theorem Into.hasType {readers : Readers} {schema own result : Json} {inner : Bool}
    (h : Into readers schema own result inner) (htype : HasType own schema) :
    HasType result schema := by
  rcases htype with hfree | ⟨kind, hkind, hmatches⟩
  · exact .inl hfree
  · right
    refine ⟨kind, hkind, ?_⟩
    rw [h.kind kind]
    exact hmatches

theorem any_changed {items : List Json} {walked : List Walked}
    (h : List.Forall₂ (fun item become => become.2 = true ↔ become.1 ≠ item) items walked) :
    walked.any (·.2) = true ↔ walked.map (·.1) ≠ items := by
  induction h with
  | nil => simp
  | cons hhead _ ih =>
    rw [List.any_cons, Bool.or_eq_true, hhead, ih, List.map_cons, ne_eq, ne_eq, ne_eq,
      List.cons.injEq, not_and_or]

theorem any_field_changed {fields : List (String × Json)} {walked : List (String × Walked)}
    (h : List.Forall₂ (fun field become => become.1 = field.1 ∧
      (become.2.2 = true ↔ become.2.1 ≠ field.2)) fields walked) :
    walked.any (·.2.2) = true ↔ (walked.map fun become => (become.1, become.2.1)) ≠ fields := by
  induction h with
  | nil => simp
  | cons hhead _ ih =>
    obtain ⟨hname, hchanged⟩ := hhead
    rw [List.any_cons, Bool.or_eq_true, hchanged, ih, List.map_cons, ne_eq, ne_eq, ne_eq,
      List.cons.injEq, not_and_or, Prod.mk.injEq, not_and_or]
    constructor
    · rintro (hheld | hrest)
      · exact .inl (.inr hheld)
      · exact .inr hrest
    · rintro ((hnames | hheld) | hrest)
      · exact absurd hname hnames
      · exact .inl hheld
      · exact .inr hrest

theorem Into.changed {readers : Readers} {schema own result : Json} {inner : Bool}
    (h : Into readers schema own result inner)
    (hparts : ∀ part, sizeOf part < sizeOf schema → ∀ value path result changed,
      walk readers value part path = .ok (result, changed) → (changed = true ↔ result ≠ value)) :
    inner = true ↔ result ≠ own := by
  cases h with
  | leaf _ _ | freeItems _ => simp
  | @items itemSchema items walked named each =>
    have hsmaller := sizeOf_get named
    have heach := each.imp (S := fun item become => become.2 = true ↔ become.1 ≠ item) (by
      rintro item become ⟨path, hwalk⟩
      exact hparts itemSchema hsmaller item path become.1 become.2 hwalk)
    rw [any_changed heach, ne_eq, ne_eq, Json.arr.injEq]
  | freeFields _ => simp
  | @fields all fields walked named each =>
    have heach := each.imp (S := fun field become => become.1 = field.1 ∧
        (become.2.2 = true ↔ become.2.1 ≠ field.2)) (by
      rintro field become ⟨hname, hfield⟩
      refine ⟨hname, ?_⟩
      rcases hfield with ⟨_, hsame⟩ | ⟨fieldSchema, path, hlookup, hwalk⟩
      · rw [hsame]
        simp
      · exact hparts fieldSchema (sizeOf_properties named hlookup) field.2 path become.2.1
          become.2.2 hwalk)
    rw [any_field_changed heach, ne_eq, ne_eq, Json.obj.injEq]

theorem walk_changed (readers : Readers) (bound : Nat) :
    ∀ schema, sizeOf schema < bound → ∀ value path result changed,
      walk readers value schema path = .ok (result, changed) →
      (changed = true ↔ result ≠ value) := by
  induction bound with
  | zero =>
    intro schema hsize
    omega
  | succ bound ih =>
    intro schema hsize value path result changed h
    obtain ⟨own, first, inner, hread, hinto, hchanged⟩ := walk_ok h
    have hchosen := sizeOf_branch value schema
    have hinner := hinto.changed fun part hpart => ih part (by omega)
    rw [hchanged]
    by_cases htype : HasType value (branch value schema)
    · obtain ⟨hsame, hfirst⟩ := hread.kept htype
      rw [hfirst, Bool.false_or, hinner, hsame]
    · obtain ⟨hfirst, kind, hown, hvalue⟩ := hread.other htype
      rw [hfirst, Bool.true_or]
      refine ⟨fun _ hsame => ?_, fun _ => rfl⟩
      have hkind := hinto.kind kind
      rw [hsame, hvalue, hown] at hkind
      cases hkind

theorem normalize_changed {readers : Readers} {value schema result : Json} {path : String}
    {changed : Bool} (h : walk readers value schema path = .ok (result, changed)) :
    changed = true ↔ result ≠ value :=
  walk_changed readers (sizeOf schema + 1) schema (Nat.lt_succ_self _) value path result changed h

end Flags

section Positions

variable {become : Json} {readers : Readers}

theorem fieldWalked_at {all fields : List (String × Json)} {walked : List (String × Walked)}
    {index : Nat} {name : String} {field : Json} {fieldSchema : Json}
    (each : List.Forall₂ (FieldWalked readers all) fields walked)
    (hbefore : fields[index]? = some (name, field))
    (hafter : (walked.map fun become => (become.1, become.2.1))[index]? = some (name, become))
    (hschema : lookup name all = some fieldSchema) :
    ∃ path changed, walk readers field fieldSchema path = .ok (become, changed) := by
  induction each generalizing index with
  | nil => simp at hbefore
  | @cons head headWalked _ _ hhead _ ih =>
    cases index with
    | succ index => exact ih hbefore hafter
    | zero =>
      have hfield : head = (name, field) := Option.some.inj hbefore
      have hbecome : (headWalked.1, headWalked.2.1) = (name, become) := Option.some.inj hafter
      rcases hhead.2 with ⟨hnone, _⟩ | ⟨found, path, hfound, hwalk⟩
      · rw [hfield, hschema] at hnone
        cases hnone
      · rw [hfield, hschema] at hfound
        have hsame := Option.some.inj hfound
        rw [hfield, ← hsame] at hwalk
        have hresult : headWalked.2.1 = become := congrArg Prod.snd hbecome
        rw [← hresult]
        exact ⟨path, headWalked.2.2, hwalk⟩

theorem itemWalked_at {items : List Json} {walked : List Walked} {index : Nat}
    {item itemSchema : Json}
    (each : List.Forall₂ (fun item become => ∃ path,
      walk readers item itemSchema path = .ok become) items walked)
    (hbefore : items[index]? = some item) (hafter : (walked.map (·.1))[index]? = some become) :
    ∃ path changed, walk readers item itemSchema path = .ok (become, changed) := by
  induction each generalizing index with
  | nil => simp at hbefore
  | @cons head headWalked _ _ hhead _ ih =>
    cases index with
    | succ index => exact ih hbefore hafter
    | zero =>
      have hitem : head = item := Option.some.inj hbefore
      have hbecome : headWalked.1 = become := Option.some.inj hafter
      obtain ⟨path, hwalk⟩ := hhead
      rw [← hitem, ← hbecome]
      exact ⟨path, headWalked.2, hwalk⟩

theorem reached_walked {value schema result : Json} {path : String} {changed : Bool}
    (h : walk readers value schema path = .ok (result, changed)) {found foundSchema : Json}
    (hreached : Reached readers value schema result found foundSchema become) :
    ∃ path changed, walk readers found foundSchema path = .ok (become, changed) := by
  induction hreached with
  | here => exact ⟨path, changed, h⟩
  | item outer own named before after ih =>
    obtain ⟨outerPath, outerChanged, hwalk⟩ := ih
    obtain ⟨read, first, inner, hread, hinto, _⟩ := walk_ok hwalk
    rw [hread.reads] at own
    have hown := Option.some.inj own
    rw [hown] at hinto
    cases hinto with
    | leaf noItems _ => exact absurd rfl (noItems _)
    | freeItems free =>
      rw [named] at free
      cases free
    | items named' each =>
      rw [named] at named'
      have hsame := Option.some.inj named'
      rw [hsame]
      exact itemWalked_at each before after
  | field outer own named property before after ih =>
    obtain ⟨outerPath, outerChanged, hwalk⟩ := ih
    obtain ⟨read, first, inner, hread, hinto, _⟩ := walk_ok hwalk
    rw [hread.reads] at own
    have hown := Option.some.inj own
    rw [hown] at hinto
    cases hinto with
    | leaf _ noFields => exact absurd rfl (noFields _)
    | freeFields free =>
      rw [named] at free
      cases free
    | fields named' each =>
      rw [named] at named'
      have hsame := Option.some.inj named'
      rw [← hsame] at each
      exact fieldWalked_at each before after property

theorem Reached.trans {value schema result inner innerSchema innerResult found foundSchema : Json}
    (houter : Reached readers value schema result inner innerSchema innerResult)
    (hinner : Reached readers inner innerSchema innerResult found foundSchema become) :
    Reached readers value schema result found foundSchema become := by
  induction hinner with
  | here => exact houter
  | item _ own named before after ih => exact .item ih own named before after
  | field _ own named property before after ih => exact .field ih own named property before after

end Positions

section Types

theorem Into.items_shape {readers : Readers} {schema own : Json} {results : List Json}
    {inner : Bool} (h : Into readers schema own (.arr results) inner) :
    ∃ items, own = .arr items ∧ items.length = results.length := by
  cases h with
  | leaf noItems _ => exact absurd rfl (noItems results)
  | freeItems _ => exact ⟨_, rfl, rfl⟩
  | items _ each =>
    refine ⟨_, rfl, ?_⟩
    rw [List.length_map]
    exact each.length_eq

theorem Into.fields_shape {readers : Readers} {schema own : Json}
    {results : List (String × Json)} {inner : Bool}
    (h : Into readers schema own (.obj results) inner) :
    ∃ fields, own = .obj fields ∧ fields.map (·.1) = results.map (·.1) := by
  cases h with
  | leaf _ noFields => exact absurd rfl (noFields results)
  | freeFields _ => exact ⟨_, rfl, rfl⟩
  | fields _ each =>
    refine ⟨_, rfl, ?_⟩
    rw [List.map_map]
    induction each with
    | nil => rfl
    | cons hhead _ ih => rw [List.map_cons, List.map_cons, ih, Function.comp_apply, hhead.1]

/-- If the result of every position has the branch of the value that was found there, the result
has the named types. -/
theorem typed_of_kept (readers : Readers) (bound : Nat) :
    ∀ schema, sizeOf schema < bound → ∀ value path result changed,
      walk readers value schema path = .ok (result, changed) →
      (∀ found foundSchema become, Reached readers value schema result found foundSchema become →
        branch become foundSchema = branch found foundSchema) →
      Typed result schema := by
  induction bound with
  | zero =>
    intro schema hsize
    omega
  | succ bound ih =>
    intro schema hsize value path result changed h hkept
    obtain ⟨own, first, inner, hread, hinto, _⟩ := walk_ok h
    have hbranch := hkept value schema result .here
    have hchosen := sizeOf_branch value schema
    constructor
    · rw [hbranch]
      exact hinto.hasType hread.typed
    · intro results itemSchema hresult hnamed become hmember
      rw [hbranch] at hnamed
      rw [hresult] at hinto h hkept
      obtain ⟨items, hown, hlength⟩ := hinto.items_shape
      obtain ⟨index, hindex, hafter⟩ := List.getElem_of_mem hmember
      have hafter := (List.getElem?_eq_getElem hindex).trans (congrArg some hafter)
      have hbefore := List.getElem?_eq_getElem (hlength ▸ hindex)
      have hreads := hread.reads
      rw [hown] at hreads
      have hreached := Reached.item .here hreads hnamed hbefore hafter
      obtain ⟨itemPath, itemChanged, hwalk⟩ := reached_walked h hreached
      have hsmaller := sizeOf_get hnamed
      exact ih itemSchema (by omega) _ itemPath become itemChanged hwalk
        fun found foundSchema become' hinner =>
          hkept found foundSchema become' (hreached.trans hinner)
    · intro results all name become fieldSchema hresult hnamed hmember hlookup
      rw [hbranch] at hnamed
      rw [hresult] at hinto h hkept
      obtain ⟨fields, hown, hnames⟩ := hinto.fields_shape
      obtain ⟨index, hindex, hafter⟩ := List.getElem_of_mem hmember
      have hafter := (List.getElem?_eq_getElem hindex).trans (congrArg some hafter)
      have hlength : fields.length = results.length := by
        have hlengths := congrArg List.length hnames
        rwa [List.length_map, List.length_map] at hlengths
      have hname := congrArg (fun names : List String => names[index]?) hnames
      simp only [List.getElem?_map, hafter, Option.map_some] at hname
      obtain ⟨field, hfield, hfieldName⟩ := Option.map_eq_some_iff.mp hname
      have hbefore : fields[index]? = some (name, field.2) := by
        rw [hfield, ← hfieldName]
      have hreads := hread.reads
      rw [hown] at hreads
      have hreached := Reached.field .here hreads hnamed hlookup
        hbefore hafter
      obtain ⟨fieldPath, fieldChanged, hwalk⟩ := reached_walked h hreached
      have hsmaller := sizeOf_properties hnamed hlookup
      exact ih fieldSchema (by omega) _ fieldPath become fieldChanged hwalk
        fun found foundSchema become' hinner =>
          hkept found foundSchema become' (hreached.trans hinner)

theorem walkItems_same {step : Json → String → Except String Walked} (path : String)
    {items : List Json} (h : ∀ item ∈ items, ∀ path, step item path = .ok (item, false)) :
    ∀ index, walkItems step path items index = .ok (items, false) := by
  induction items with
  | nil =>
    intro index
    rfl
  | cons item rest ih =>
    intro index
    unfold walkItems
    rw [h item List.mem_cons_self,
      ih (fun other hother => h other (List.mem_cons_of_mem _ hother)) (index + 1)]
    rfl

theorem walkFields_same {step : String → Json → Except String Walked}
    {fields : List (String × Json)}
    (h : ∀ name field, (name, field) ∈ fields → step name field = .ok (field, false)) :
    walkFields step fields = .ok (fields, false) := by
  induction fields with
  | nil => rfl
  | cons head rest ih =>
    obtain ⟨name, field⟩ := head
    unfold walkFields
    rw [h name field List.mem_cons_self,
      ih fun other value hother => h other value (List.mem_cons_of_mem _ hother)]
    rfl

theorem typed_walk (readers : Readers) {value schema : Json} (h : Typed value schema) :
    ∀ path, walk readers value schema path = .ok (value, false) := by
  induction h with
  | @mk value schema own items fields ihItems ihFields =>
    intro path
    rw [walk, readOwn_typed readers path own]
    cases value with
    | arr held =>
      simp only
      split
      · rfl
      · rename_i itemSchema hnamed
        rw [walkItems_same path fun item hmember => ihItems held itemSchema rfl hnamed item hmember]
        rfl
    | obj held =>
      simp only
      split
      · rfl
      · rename_i all hnamed
        rw [walkFields_same]
        · rfl
        · intro name field hmember
          split
          · rfl
          · rename_i fieldSchema hlookup
            exact ihFields held all name field fieldSchema rfl hnamed hmember hlookup _
    | null | bool | number | decimal | str => rfl

theorem reached_same {readers : Readers} {value schema result : Json} {path : String}
    {changed : Bool} (h : walk readers value schema path = .ok (result, changed))
    (hsame : result = value) {found foundSchema become : Json}
    (hreached : Reached readers value schema result found foundSchema become) : become = found := by
  have hparts : ∀ {found foundSchema become own : Json},
      Reached readers value schema result found foundSchema become → become = found →
      readAs readers found (branch found foundSchema) = some own → own = found := by
    intro found foundSchema become own houter hbecome hown
    obtain ⟨outerPath, outerChanged, hwalk⟩ := reached_walked h houter
    have hchanged := normalize_changed hwalk
    obtain ⟨read, first, inner, hread, _, hflag⟩ := walk_ok hwalk
    rw [hread.reads] at hown
    rw [← Option.some.inj hown]
    refine (hread.kept ?_).1
    by_contra htype
    have hfirst := (hread.other htype).1
    rw [hflag, hfirst, Bool.true_or] at hchanged
    exact hchanged.mp rfl hbecome
  induction hreached with
  | here => exact hsame
  | item outer own named before after ih =>
    have hown := (hparts outer ih own).trans ih.symm
    rw [Json.arr.inj hown, after] at before
    exact Option.some.inj before
  | field outer own named property before after ih =>
    have hown := (hparts outer ih own).trans ih.symm
    rw [Json.obj.inj hown, after] at before
    exact congrArg Prod.snd (Option.some.inj before)

theorem normalize_same_iff (readers : Readers) (value schema : Json) :
    normalize readers value schema = .ok (value, false) ↔ Typed value schema := by
  constructor
  · intro h
    refine typed_of_kept readers (sizeOf schema + 1) schema (Nat.lt_succ_self _) value "" value
      false h ?_
    intro found foundSchema become hreached
    rw [reached_same h rfl hreached]
  · intro h
    exact typed_walk readers h ""

end Types

section Arguments

/-- Reading arguments is sound with the branches of the values as they are found: every position
that is reached has a type its schema names, and where a value had the named types it is untouched;
a change is reported exactly if there is one; and reading the result again changes nothing exactly
if the result has the named types with the branches of its own values, which it has if no position
has come to another branch. -/
theorem normalize_repairs {readers : Readers} {value schema result : Json} {changed : Bool}
    (h : normalize readers value schema = .ok (result, changed)) :
    (∀ found foundSchema become, Reached readers value schema result found foundSchema become →
      HasType become (branch found foundSchema) ∧ (Typed found foundSchema → become = found)) ∧
    (changed = true ↔ result ≠ value) ∧
    (normalize readers result schema = .ok (result, false) ↔ Typed result schema) ∧
    ((∀ found foundSchema become, Reached readers value schema result found foundSchema become →
        branch become foundSchema = branch found foundSchema) →
      normalize readers result schema = .ok (result, false)) := by
  refine ⟨?_, normalize_changed h, normalize_same_iff readers result schema, ?_⟩
  · intro found foundSchema become hreached
    obtain ⟨path, positionChanged, hwalk⟩ := reached_walked h hreached
    obtain ⟨own, first, inner, hread, hinto, _⟩ := walk_ok hwalk
    refine ⟨hinto.hasType hread.typed, ?_⟩
    intro htyped
    rw [typed_walk readers htyped path] at hwalk
    exact (congrArg Prod.fst (Except.ok.inj hwalk)).symm
  · intro hkept
    exact (normalize_same_iff readers result schema).mpr
      (typed_of_kept readers (sizeOf schema + 1) schema (Nat.lt_succ_self _) value "" result changed
        h hkept)

/-- A parser that knows one text. -/
def oneText : Readers where
  fromStr text := if text = "[\"1\"]" then some (.arr [.str "1"]) else none
  parseNumber _ := none

def integerSchema : Json := .obj [("type", .str "integer")]

/-- A schema of arrays with one branch, which names the type of the items. -/
def integersSchema : Json :=
  .obj [("anyOf", .arr [.obj [("items", integerSchema), ("type", .str "array")]]),
    ("type", .str "array")]

theorem reached_integers {found foundSchema become : Json}
    (h : Reached oneText (.arr [.str "1"]) integersSchema (.arr [.number 1]) found foundSchema
      become) :
    (found = .arr [.str "1"] ∧ foundSchema = integersSchema ∧ become = .arr [.number 1]) ∨
      found = .str "1" ∧ foundSchema = integerSchema ∧ become = .number 1 := by
  induction h with
  | here => exact .inl ⟨rfl, rfl, rfl⟩
  | @item found foundSchema itemSchema item become items results index outer own named before after
      ih =>
    rcases ih with ⟨rfl, rfl, hresults⟩ | ⟨-, -, hresults⟩
    · have hread : readAs oneText (.arr [.str "1"]) (branch (.arr [.str "1"]) integersSchema) =
          some (.arr [.str "1"]) := by decide +kernel
      have hitems : (branch (.arr [.str "1"]) integersSchema).get "items" = some integerSchema := by
        decide +kernel
      rw [hread] at own
      rw [hitems] at named
      cases own
      cases named
      cases hresults
      cases index with
      | zero =>
        cases before
        cases after
        exact .inr ⟨rfl, rfl, rfl⟩
      | succ index => cases before
    · cases hresults
  | field outer own named property before after ih =>
    rcases ih with ⟨-, -, hresults⟩ | ⟨-, -, hresults⟩ <;> cases hresults

/-- A whole number in a text is read as such, and reading it again changes nothing. -/
theorem normalize_repairs_small :
    normalize oneText (.arr [.str "1"]) integersSchema = .ok (.arr [.number 1], true) ∧
    HasType (.number 1) (branch (.str "1") integerSchema) ∧
    normalize oneText (.arr [.number 1]) integersSchema = .ok (.arr [.number 1], false) := by
  have hread : normalize oneText (.arr [.str "1"]) integersSchema =
      .ok (.arr [.number 1], true) := by decide +kernel
  obtain ⟨hsound, -, -, hagain⟩ := normalize_repairs hread
  refine ⟨hread, ?_, hagain fun found foundSchema become hreached => ?_⟩
  · have hitem : Reached oneText (.arr [.str "1"]) integersSchema (.arr [.number 1]) (.str "1")
        integerSchema (.number 1) :=
      @Reached.item _ _ _ _ _ _ _ _ _ [.str "1"] [.number 1] 0 .here (by decide +kernel)
        (by decide +kernel) rfl rfl
    exact (hsound _ _ _ hitem).1
  · rcases reached_integers hreached with ⟨rfl, rfl, rfl⟩ | ⟨rfl, rfl, rfl⟩ <;> decide +kernel

/-- An array that comes in a text has no branch before it is read, and has one afterwards: reading
it again changes it again. -/
theorem second_reading_changes :
    normalize oneText (.str "[\"1\"]") integersSchema = .ok (.arr [.str "1"], true) ∧
      normalize oneText (.arr [.str "1"]) integersSchema = .ok (.arr [.number 1], true) := by
  decide +kernel

end Arguments

end MobiusAgent.ArgumentRepairs
