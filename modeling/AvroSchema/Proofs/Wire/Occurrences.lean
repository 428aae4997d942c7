import Mathlib.Data.List.Basic
import AvroSchema.Proofs.Types.Admissible
import AvroSchema.Wire.Writer

/-!
# Occurrences of Named Types

The named types of a document are records, fixed types, enumerations and the UUID type. An
occurrence of one is the namespace that encloses it, the full name that it has there, and the type
itself. `DataType.occurrences` lists them in the order of the document, a record before what it
contains, whether or not the document defines them at that place.

The conditions under which references by full name are unambiguous are stated on these lists:
`Record.NamesUnnested`, `Record.NamesUntagged`, `Record.NamesUncaptured` and `Record.NamesUnique`.

* `DataType.nesting_lt_of_mem_inner`: what occurs inside a named type is nested less.
* `DataType.mem_occurrences_of_mem_inner`: what occurs inside an occurrence occurs itself.
* `DataType.innerNames_eq_of_outline`: the names inside a named type depend only on its full name
  and its outline.
-/

namespace AvroSchema

/-! ## Full names -/

/-- What a namespace puts before the names in it. -/
def qualifier : Option String → String
  | some space => if space = "" then "" else space ++ "."
  | none => ""

theorem fullName_eq_qualifier_append (space : Option String) (name : String) :
    fullName space name = qualifier space ++ name := by
  cases space with
  | none => simp [fullName, qualifier]
  | some space =>
    by_cases h : space = "" <;> simp [fullName, qualifier, h]

/-- Two namespaces that give one name the same full name qualify every name alike. -/
theorem fullName_congr {space other : Option String} {name : String}
    (h : fullName space name = fullName other name) (n : String) :
    fullName space n = fullName other n := by
  rw [fullName_eq_qualifier_append, fullName_eq_qualifier_append] at h ⊢
  -- both names end alike, so what the namespaces put before them is the same
  have hl := congrArg String.toList h
  rw [String.toList_append, String.toList_append] at hl
  rw [String.toList_injective (List.append_cancel_right hl)]

/-! ## Occurrences -/

/-- A named type at one place of a document. -/
structure Occurrence where
  /-- The namespace of the innermost enclosing record that has one. -/
  space : Option String
  /-- The full name of the type at this place. -/
  name : String
  /-- The type. -/
  type : DataType

mutual

/-- The named types in a type that stands in a namespace, in document order. -/
def DataType.occurrences (space : Option String) : DataType → List Occurrence
  | .primitive p =>
    (p.wireName?.map fun name => ⟨space, fullName space name, .primitive p⟩).toList
  | .union members => UnionMember.occurrencesAll space members
  | .array items => items.occurrences space
  | .map values => values.occurrences space
  | .record r => ⟨space, r.fullName space, .record r⟩ :: r.inner space

/-- The named types in the members of a union. -/
def UnionMember.occurrencesAll (space : Option String) : List UnionMember → List Occurrence
  | [] => []
  | ⟨_, type⟩ :: rest => type.occurrences space ++ UnionMember.occurrencesAll space rest

/-- The named types in the types of some fields. -/
def Field.occurrencesAll (space : Option String) : List Field → List Occurrence
  | [] => []
  | ⟨_, type, _, _, _, _, _, _, _⟩ :: rest =>
    type.occurrences space ++ Field.occurrencesAll space rest

/-- The named types inside a record that stands in a namespace. -/
def Record.inner (space : Option String) : Record → List Occurrence
  | ⟨_, own, _, fields⟩ => Field.occurrencesAll (own <|> space) fields

end

/-- The named types strictly inside a named type, which has none unless it is a record. -/
def DataType.inner (space : Option String) : DataType → List Occurrence
  | .record r => r.inner space
  | _ => []

/-- The full name of a named type in a namespace. -/
def DataType.fullName? (space : Option String) : DataType → Option String
  | .primitive p => p.wireName?.map (fullName space)
  | .record r => some (r.fullName space)
  | _ => none

theorem UnionMember.occurrencesAll_eq (space : Option String) (members : List UnionMember) :
    UnionMember.occurrencesAll space members =
      members.flatMap fun m => m.type.occurrences space := by
  induction members with
  | nil => rfl
  | cons m rest ih =>
    cases m
    rw [UnionMember.occurrencesAll, ih, List.flatMap_cons]

theorem Field.occurrencesAll_eq (space : Option String) (fields : List Field) :
    Field.occurrencesAll space fields = fields.flatMap fun f => f.type.occurrences space := by
  induction fields with
  | nil => rfl
  | cons f rest ih =>
    cases f
    rw [Field.occurrencesAll, ih, List.flatMap_cons]

/-- The named types inside a record are those in the types of its fields. -/
theorem Record.inner_eq (space : Option String) (r : Record) :
    r.inner space = r.fields.flatMap fun f => f.type.occurrences (r.space <|> space) := by
  cases r
  rw [Record.inner, Field.occurrencesAll_eq]

namespace DataType

@[simp]
theorem mem_occurrences_primitive {space : Option String} {p : Primitive} {o : Occurrence} :
    o ∈ (primitive p).occurrences space ↔
      ∃ name, p.wireName? = some name ∧
        o = ⟨space, AvroSchema.fullName space name, .primitive p⟩ := by
  rw [occurrences, Option.mem_toList, Option.map_eq_some_iff]
  simp only [eq_comm]

@[simp]
theorem mem_occurrences_union {space : Option String} {members : List UnionMember}
    {o : Occurrence} :
    o ∈ (union members).occurrences space ↔ ∃ m ∈ members, o ∈ m.type.occurrences space := by
  rw [occurrences, UnionMember.occurrencesAll_eq, List.mem_flatMap]

@[simp]
theorem occurrences_array (space : Option String) (items : DataType) :
    (array items).occurrences space = items.occurrences space := rfl

@[simp]
theorem occurrences_map (space : Option String) (values : DataType) :
    (map values).occurrences space = values.occurrences space := rfl

@[simp]
theorem occurrences_record (space : Option String) (r : Record) :
    (record r).occurrences space = ⟨space, r.fullName space, .record r⟩ :: r.inner space := rfl

end DataType

@[simp]
theorem Record.mem_inner {space : Option String} {r : Record} {o : Occurrence} :
    o ∈ r.inner space ↔ ∃ f ∈ r.fields, o ∈ f.type.occurrences (r.space <|> space) := by
  rw [Record.inner_eq, List.mem_flatMap]

namespace DataType

/-- What occurs in a type is not nested more than the type. -/
theorem nesting_le_of_mem_occurrences {t : DataType} {space : Option String} {o : Occurrence}
    (h : o ∈ t.occurrences space) : o.type.nesting ≤ t.nesting := by
  induction t generalizing space with
  | primitive p =>
    obtain ⟨name, -, rfl⟩ := mem_occurrences_primitive.1 h
    exact Nat.le_refl _
  | union members ih =>
    obtain ⟨m, hm, ho⟩ := mem_occurrences_union.1 h
    exact Nat.le_of_lt (Nat.lt_of_le_of_lt (ih m hm ho) (nesting_type_lt hm))
  | array items ih => exact Nat.le_succ_of_le (ih h)
  | map values ih => exact Nat.le_succ_of_le (ih h)
  | record r ih =>
    rw [occurrences_record, List.mem_cons] at h
    rcases h with rfl | h
    · exact Nat.le_refl _
    · -- what is in a field is nested even less than the record
      obtain ⟨f, hf, ho⟩ := Record.mem_inner.1 h
      exact Nat.le_of_lt (Nat.lt_of_le_of_lt (ih f hf ho) (Record.nesting_type_lt hf))

end DataType

/-- What occurs inside a record is nested less than the record. -/
theorem Record.nesting_lt_of_mem_inner {r : Record} {space : Option String} {o : Occurrence}
    (h : o ∈ r.inner space) : o.type.nesting < r.nesting := by
  obtain ⟨f, hf, ho⟩ := Record.mem_inner.1 h
  exact Nat.lt_of_le_of_lt (DataType.nesting_le_of_mem_occurrences ho)
    (Record.nesting_type_lt hf)

namespace DataType

/-- What occurs inside a named type is nested less than the type. -/
theorem nesting_lt_of_mem_inner {t : DataType} {space : Option String} {o : Occurrence}
    (h : o ∈ t.inner space) : o.type.nesting < t.nesting := by
  cases t with
  | record r => exact Record.nesting_lt_of_mem_inner h
  | _ => cases h

/-- What occurs inside an occurrence occurs itself. -/
theorem mem_occurrences_of_mem_inner {t : DataType} {space : Option String} {o inside : Occurrence}
    (ho : o ∈ t.occurrences space) (hi : inside ∈ o.type.inner o.space) :
    inside ∈ t.occurrences space := by
  induction t generalizing space with
  | primitive p =>
    obtain ⟨name, -, rfl⟩ := mem_occurrences_primitive.1 ho
    cases hi
  | union members ih =>
    obtain ⟨m, hm, ho⟩ := mem_occurrences_union.1 ho
    exact mem_occurrences_union.2 ⟨m, hm, ih m hm ho⟩
  | array items ih => exact ih ho
  | map values ih => exact ih ho
  | record r ih =>
    rw [occurrences_record, List.mem_cons] at ho ⊢
    rcases ho with rfl | ho
    · -- the occurrence is the record itself
      exact Or.inr hi
    · obtain ⟨f, hf, ho⟩ := Record.mem_inner.1 ho
      exact Or.inr (Record.mem_inner.2 ⟨f, hf, ih f hf ho⟩)

end DataType

/-- What occurs inside something inside a record is inside the record itself. -/
theorem Record.mem_inner_of_mem_inner {r : Record} {space : Option String}
    {o inside : Occurrence} (ho : o ∈ r.inner space) (hi : inside ∈ o.type.inner o.space) :
    inside ∈ r.inner space := by
  obtain ⟨f, hf, ho⟩ := Record.mem_inner.1 ho
  exact Record.mem_inner.2 ⟨f, hf, DataType.mem_occurrences_of_mem_inner ho hi⟩

/-! ## Names of occurrences -/

/-- The full names of the named types in a type. -/
def DataType.names (space : Option String) (t : DataType) : List String :=
  (t.occurrences space).map Occurrence.name

/-- The full names of the named types strictly inside a named type. -/
def DataType.innerNames (space : Option String) (t : DataType) : List String :=
  (t.inner space).map Occurrence.name

/-- The full names of the named types inside a record that stands in no namespace. -/
def Record.innerNames (r : Record) : List String := (r.inner none).map Occurrence.name

namespace DataType

@[simp]
theorem names_primitive (space : Option String) (p : Primitive) :
    (primitive p).names space = (p.wireName?.map (AvroSchema.fullName space)).toList := by
  cases h : p.wireName? <;> simp [names, occurrences, h]

@[simp]
theorem names_union (space : Option String) (members : List UnionMember) :
    (union members).names space = members.flatMap fun m => m.type.names space := by
  rw [names, occurrences, UnionMember.occurrencesAll_eq, List.map_flatMap]
  rfl

@[simp]
theorem names_array (space : Option String) (items : DataType) :
    (array items).names space = items.names space := rfl

@[simp]
theorem names_map (space : Option String) (values : DataType) :
    (map values).names space = values.names space := rfl

@[simp]
theorem names_record (space : Option String) (r : Record) :
    (record r).names space = r.fullName space :: (record r).innerNames space := rfl

@[simp]
theorem innerNames_record (space : Option String) (r : Record) :
    (record r).innerNames space =
      r.fields.flatMap fun f => f.type.names (r.space <|> space) := by
  change (r.inner space).map Occurrence.name = _
  rw [Record.inner_eq, List.map_flatMap]
  rfl

/-- The names in a type depend only on how its namespace qualifies names. -/
theorem names_congr {t : DataType} {space other : Option String}
    (h : ∀ n, AvroSchema.fullName space n = AvroSchema.fullName other n) :
    t.names space = t.names other := by
  induction t generalizing space other with
  | primitive p => simp [funext h]
  | union members ih => simpa using List.flatMap_congr fun m hm => ih m hm h
  | array items ih => exact ih h
  | map values ih => exact ih h
  | record r ih =>
    -- a namespace of the record itself hides the one around it
    have hr : ∀ n, AvroSchema.fullName (r.space <|> space) n =
        AvroSchema.fullName (r.space <|> other) n := by
      cases r.space with
      | none => exact h
      | some own => exact fun _ => rfl
    simp only [names_record, innerNames_record, Record.fullName, hr]
    rw [List.flatMap_congr fun f hf => ih f hf hr]

/-- The names in a type do not depend on default values. -/
@[simp]
theorem names_mapDefaults (f : Bool → Option Json → Option Json) (t : DataType)
    (space : Option String) : (t.mapDefaults f).names space = t.names space := by
  induction t generalizing space with
  | primitive p => rfl
  | union members ih =>
    simpa [List.flatMap_map, UnionMember.mapDefaults_eq] using
      List.flatMap_congr fun m hm => ih m hm space
  | array items ih => exact ih space
  | map values ih => exact ih space
  | record r ih =>
    simp only [mapDefaults_record, names_record, innerNames_record, Record.mapDefaults_eq,
      Record.fullName, List.flatMap_map, Field.mapDefaults_eq]
    rw [List.flatMap_congr fun f hf => ih f hf _]

/-- The names inside a named type do not depend on default values. -/
@[simp]
theorem innerNames_mapDefaults (f : Bool → Option Json → Option Json) (t : DataType)
    (space : Option String) : (t.mapDefaults f).innerNames space = t.innerNames space := by
  cases t with
  | record r =>
    simp [Record.mapDefaults_eq, Field.mapDefaults_eq, List.flatMap_map]
  | _ => rfl

/-- The full name of a type does not depend on default values. -/
@[simp]
theorem fullName?_mapDefaults (f : Bool → Option Json → Option Json) (t : DataType)
    (space : Option String) : (t.mapDefaults f).fullName? space = t.fullName? space := by
  cases t with
  | record r => simp [fullName?, Record.mapDefaults_eq, Record.fullName]
  | _ => rfl

theorem innerNames_outline (t : DataType) (space : Option String) :
    t.outline.innerNames space = t.innerNames space := innerNames_mapDefaults _ t space

theorem fullName?_outline (t : DataType) (space : Option String) :
    t.outline.fullName? space = t.fullName? space := fullName?_mapDefaults _ t space

/-- The names inside a named type depend only on its full name, not on the namespace around it. -/
theorem innerNames_congr {t : DataType} {space other : Option String} {name : String}
    (h : t.fullName? space = some name) (h' : t.fullName? other = some name) :
    t.innerNames space = t.innerNames other := by
  cases t with
  | record r =>
    -- one name in both namespaces means that both qualify the fields alike
    have he : r.fullName space = r.fullName other :=
      (Option.some.inj h).trans (Option.some.inj h').symm
    rw [innerNames_record, innerNames_record]
    exact List.flatMap_congr fun f _ => names_congr (fullName_congr he)
  | _ => rfl

/-- The names inside a named type depend only on its full name and its outline. -/
theorem innerNames_eq_of_outline {t u : DataType} {space other : Option String} {name : String}
    (ho : t.outline = u.outline) (h : t.fullName? space = some name)
    (h' : u.fullName? other = some name) : t.innerNames space = u.innerNames other := by
  -- both types have the same name in the first namespace, so that one can be used for both
  have hu : u.fullName? space = some name := by
    rw [← fullName?_outline, ← ho, fullName?_outline, h]
  rw [← innerNames_outline, ho, innerNames_outline]
  exact innerNames_congr hu h'

end DataType

/-! ## Namespaces -/

mutual

/-- The namespaces of the records in a type. -/
def DataType.namespaces : DataType → List String
  | .primitive _ => []
  | .union members => UnionMember.namespacesAll members
  | .array items => items.namespaces
  | .map values => values.namespaces
  | .record r => r.namespaces

/-- The namespaces of the records in the members of a union. -/
def UnionMember.namespacesAll : List UnionMember → List String
  | [] => []
  | ⟨_, type⟩ :: rest => type.namespaces ++ UnionMember.namespacesAll rest

/-- The namespaces of the records in the types of some fields. -/
def Field.namespacesAll : List Field → List String
  | [] => []
  | ⟨_, type, _, _, _, _, _, _, _⟩ :: rest => type.namespaces ++ Field.namespacesAll rest

/-- The namespaces of a record and of the records in it. -/
def Record.namespaces : Record → List String
  | ⟨_, own, _, fields⟩ => own.toList ++ Field.namespacesAll fields

end

theorem UnionMember.mem_namespacesAll {members : List UnionMember} {space : String} :
    space ∈ UnionMember.namespacesAll members ↔ ∃ m ∈ members, space ∈ m.type.namespaces := by
  induction members with
  | nil => simp [UnionMember.namespacesAll]
  | cons m rest ih =>
    cases m
    simp [UnionMember.namespacesAll, ih]

theorem Field.mem_namespacesAll {fields : List Field} {space : String} :
    space ∈ Field.namespacesAll fields ↔ ∃ f ∈ fields, space ∈ f.type.namespaces := by
  induction fields with
  | nil => simp [Field.namespacesAll]
  | cons f rest ih =>
    cases f
    simp [Field.namespacesAll, ih]

theorem Record.mem_namespaces {r : Record} {space : String} :
    space ∈ r.namespaces ↔ r.space = some space ∨ ∃ f ∈ r.fields, space ∈ f.type.namespaces := by
  cases r
  simp [Record.namespaces, Field.mem_namespacesAll]

/-- The namespace of an occurrence is the one around the type or belongs to a record in it. -/
theorem DataType.space_of_mem_occurrences {t : DataType} {space : Option String} {o : Occurrence}
    (h : o ∈ t.occurrences space) :
    o.space = space ∨ ∃ own ∈ t.namespaces, o.space = some own := by
  induction t generalizing space with
  | primitive p =>
    obtain ⟨name, -, rfl⟩ := mem_occurrences_primitive.1 h
    exact Or.inl rfl
  | union members ih =>
    obtain ⟨m, hm, ho⟩ := mem_occurrences_union.1 h
    refine (ih m hm ho).imp_right ?_
    rintro ⟨own, hn, he⟩
    exact ⟨own, UnionMember.mem_namespacesAll.2 ⟨m, hm, hn⟩, he⟩
  | array items ih => exact ih h
  | map values ih => exact ih h
  | record r ih =>
    rw [occurrences_record, List.mem_cons] at h
    rcases h with rfl | h
    · exact Or.inl rfl
    obtain ⟨f, hf, ho⟩ := Record.mem_inner.1 h
    rcases ih f hf ho with he | ⟨own, hn, he⟩
    · -- the fields stand in the namespace of the record, if it has one
      cases hr : r.space with
      | none => exact Or.inl (by simpa [hr] using he)
      | some own =>
        exact Or.inr ⟨own, Record.mem_namespaces.2 (Or.inl hr), by simpa [hr] using he⟩
    · exact Or.inr ⟨own, Record.mem_namespaces.2 (Or.inr ⟨f, hf, hn⟩), he⟩

/-! ## Unambiguous names -/

/-- The type names that have a meaning of their own in a document. -/
def bareTags : List String :=
  ["null", "boolean", "int", "long", "float", "double", "bytes", "string", "enum", "fixed", "map",
    "array", "record"]

namespace Record

/-- No named type inside the record contains a named type with its own full name. -/
def NamesUnnested (r : Record) : Prop :=
  ∀ o ∈ r.inner none, o.name ∉ o.type.innerNames o.space

/-- No named type inside the record has a full name that means something else in a document. -/
def NamesUntagged (r : Record) : Prop := ∀ name ∈ r.innerNames, name ∉ bareTags

/-- No full name inside the record is another one put into a namespace of the record. -/
def NamesUncaptured (r : Record) : Prop :=
  ∀ space ∈ r.namespaces, space ≠ "" →
    ∀ name ∈ r.innerNames, space ++ "." ++ name ∉ r.innerNames

/-- Each full name inside the record denotes one type. -/
def NamesUnique (r : Record) : Prop :=
  ∀ o ∈ r.inner none, ∀ other ∈ r.inner none, o.name = other.name → (o.type == other.type) = true

instance (r : Record) : Decidable r.NamesUnnested :=
  inferInstanceAs (Decidable (∀ o ∈ r.inner none, o.name ∉ o.type.innerNames o.space))

instance (r : Record) : Decidable r.NamesUntagged :=
  inferInstanceAs (Decidable (∀ name ∈ r.innerNames, name ∉ bareTags))

instance (r : Record) : Decidable r.NamesUncaptured :=
  inferInstanceAs (Decidable (∀ space ∈ r.namespaces, space ≠ "" →
    ∀ name ∈ r.innerNames, space ++ "." ++ name ∉ r.innerNames))

instance (r : Record) : Decidable r.NamesUnique :=
  inferInstanceAs (Decidable (∀ o ∈ r.inner none, ∀ other ∈ r.inner none,
    o.name = other.name → (o.type == other.type) = true))

end Record

end AvroSchema
