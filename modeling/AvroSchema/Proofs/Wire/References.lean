import AvroSchema.Proofs.Wire.Marks

/-!
# References in Documents

A reference is a bare name, and a bare name may mean something else: a built-in type, the null
branch of a union, or a map; where it is the whole type of a field, the node of the field is also
taken for an array or a record. This module lists the references of a document together with the
places where they stand, and says which names they must not have there (`Reference.Legible`).

The references are those that the marks of the document show, in the same order
(`DataType.referred?_marks`); what the marks leave out is the place.

* `DataType.references_of_standsFor`, `DataType.references_of_not_standsFor`: a named type is
  referred to, or there are the references inside its definition.
* `Record.legible_of_namesUntagged`: names without any other meaning are legible everywhere.
-/

namespace AvroSchema

/-! ## References and their places -/

/-- A reference to an occurrence of a named type. -/
structure Reference where
  /-- What is referred to. -/
  occurrence : Occurrence
  /-- Whether the name is the whole type of a field, and not an item, a value or a branch. -/
  alone : Bool

/-- The names that mean something else wherever a type is expected. -/
def typeTags : List String :=
  ["null", "boolean", "int", "long", "float", "double", "bytes", "string", "enum", "fixed", "map"]

/-- The names that mean something else in a place: a field whose type is the name of an array or of
a record is taken for one. -/
def takenNames (alone : Bool) : List String :=
  if alone then "array" :: "record" :: typeTags else typeTags

/-- A reference whose name means nothing else in its place. -/
def Reference.Legible (ref : Reference) : Prop := ref.occurrence.name ∉ takenNames ref.alone

instance (ref : Reference) : Decidable ref.Legible :=
  inferInstanceAs (Decidable (ref.occurrence.name ∉ takenNames ref.alone))

theorem mem_bareTags_of_mem_takenNames {name : String} {alone : Bool}
    (h : name ∈ takenNames alone) : name ∈ bareTags := by
  have hsub : ∀ alone, ∀ name ∈ takenNames alone, name ∈ bareTags := by decide
  exact hsub alone name h

mutual

/-- The references in a type that is written in a namespace with some definitions, and alone in its
place or not. -/
def DataType.references (space : Option String) (alone : Bool) :
    DataType → Definitions → List Reference
  | .primitive p, table =>
    match p.wireName? with
    | none => []
    | some name =>
      let o : Occurrence := ⟨space, AvroSchema.fullName space name, .primitive p⟩
      if table.standsFor o.name o.type then [⟨o, alone⟩] else []
  | .union members, table => UnionMember.referencesAll space members table
  | .array items, table => items.references space false table
  | .map values, table => values.references space false table
  | .record r, table =>
    let o : Occurrence := ⟨space, r.fullName space, .record r⟩
    if table.standsFor o.name o.type then [⟨o, alone⟩]
    else r.innerReferences space (table.define o.name o.type)

/-- The references in the types of the members of a union. -/
def UnionMember.referencesAll (space : Option String) :
    List UnionMember → Definitions → List Reference
  | [], _ => []
  | ⟨_, type⟩ :: rest, table =>
    type.references space false table ++
      UnionMember.referencesAll space rest (type.write space table).2

/-- The references in the types of some fields. The type of a field that is not nullable stands
alone. -/
def Field.referencesAll (space : Option String) : List Field → Definitions → List Reference
  | [], _ => []
  | ⟨_, type, nullable, _, _, _, _, _, _⟩ :: rest, table =>
    -- the name in a nullable field stands in a list, beside the null branch
    type.references space (!nullable) table ++
      Field.referencesAll space rest (type.write space table).2

/-- The references inside the definition of a record. -/
def Record.innerReferences (space : Option String) : Record → Definitions → List Reference
  | ⟨_, own, _, fields⟩, table => Field.referencesAll (own <|> space) fields table

end

/-- The references in types that are written one after the other, in a list. -/
def DataType.referencesAll (space : Option String) :
    List DataType → Definitions → List Reference
  | [], _ => []
  | t :: rest, table =>
    t.references space false table ++ DataType.referencesAll space rest (t.write space table).2

/-- The references in the document of a record. -/
def Record.references (r : Record) : List Reference :=
  (DataType.record r).references none false []

theorem UnionMember.referencesAll_eq (space : Option String) (members : List UnionMember)
    (table : Definitions) :
    UnionMember.referencesAll space members table =
      DataType.referencesAll space (members.map UnionMember.type) table := by
  induction members generalizing table with
  | nil => rfl
  | cons m rest ih =>
    cases m
    simp [UnionMember.referencesAll, DataType.referencesAll, ih]

theorem Field.referencesAll_cons (space : Option String) (f : Field) (rest : List Field)
    (table : Definitions) :
    Field.referencesAll space (f :: rest) table =
      f.type.references space (!f.nullable) table ++
        Field.referencesAll space rest (f.type.write space table).2 := by
  cases f
  rfl

namespace DataType

/-- The references inside the definition of a named type. -/
def innerReferences (space : Option String) (t : DataType) (table : Definitions) :
    List Reference :=
  match t with
  | .record r => Field.referencesAll (t.innerSpace space) r.fields table
  | _ => []

section

variable {t : DataType} {space : Option String} {alone : Bool} {name : String}
  {table : Definitions}

/-- A type that its full name stands for is referred to. -/
theorem references_of_standsFor (h : t.fullName? space = some name)
    (hs : table.standsFor name t = true) :
    t.references space alone table = [⟨⟨space, name, t⟩, alone⟩] := by
  cases t with
  | primitive p =>
    obtain ⟨n, hp, rfl⟩ := Option.map_eq_some_iff.1 h
    simp [references, hp, hs]
  | record r =>
    cases Option.some.inj h
    simp [references, hs]
  | _ => cases h

/-- The references of any other named type are those inside its definition. -/
theorem references_of_not_standsFor (h : t.fullName? space = some name)
    (hs : table.standsFor name t = false) :
    t.references space alone table = t.innerReferences space (table.define name t) := by
  cases t with
  | primitive p =>
    obtain ⟨n, hp, rfl⟩ := Option.map_eq_some_iff.1 h
    simp [references, hp, hs, innerReferences]
  | record r =>
    cases Option.some.inj h
    obtain ⟨n, own, doc, fields⟩ := r
    simp [references, hs, Record.innerReferences, innerReferences, innerSpace]
  | _ => cases h

end

theorem references_unnamed {p : Primitive} (h : p.wireName? = none) (space : Option String)
    (alone : Bool) (table : Definitions) : (primitive p).references space alone table = [] := by
  simp [references, h]

@[simp]
theorem references_union (space : Option String) (alone : Bool) (members : List UnionMember)
    (table : Definitions) :
    (union members).references space alone table =
      referencesAll space (members.map UnionMember.type) table := by
  rw [references, UnionMember.referencesAll_eq]

@[simp]
theorem references_array (space : Option String) (alone : Bool) (items : DataType)
    (table : Definitions) :
    (array items).references space alone table = items.references space false table := rfl

@[simp]
theorem references_map (space : Option String) (alone : Bool) (values : DataType)
    (table : Definitions) :
    (map values).references space alone table = values.references space false table := rfl

end DataType

/-! ## References among the marks -/

/-- The occurrence that a mark refers to. -/
def Mark.referred? : Mark → Option Occurrence
  | .referred o => some o
  | _ => none

namespace DataType

/-- The marks of a type show its references, wherever they stand. -/
def MarksReferences (t : DataType) : Prop :=
  ∀ {space : Option String} {alone : Bool} {table : Definitions},
    (t.marks space table).filterMap Mark.referred? =
      (t.references space alone table).map Reference.occurrence

/-- The marks of types in a list show the references in them. -/
private theorem referred?_marksAll {ts : List DataType} (h : ∀ t ∈ ts, t.MarksReferences)
    {space : Option String} {table : Definitions} :
    (marksAll space ts table).filterMap Mark.referred? =
      (referencesAll space ts table).map Reference.occurrence := by
  induction ts generalizing table with
  | nil => rfl
  | cons t ts ih =>
    obtain ⟨ht, hts⟩ := List.forall_mem_cons.1 h
    rw [marksAll, referencesAll, List.filterMap_append, List.map_append, ht, ih hts]

/-- The marks of the types of fields show the references in them. -/
private theorem referred?_marksAll_field {fs : List Field}
    (h : ∀ t ∈ fs.map Field.type, t.MarksReferences) {space : Option String}
    {table : Definitions} :
    (marksAll space (fs.map Field.type) table).filterMap Mark.referred? =
      (Field.referencesAll space fs table).map Reference.occurrence := by
  induction fs generalizing table with
  | nil => rfl
  | cons f fs ih =>
    rw [List.map_cons, List.forall_mem_cons] at h
    rw [List.map_cons, marksAll, Field.referencesAll_cons, List.filterMap_append, List.map_append,
      h.1, ih h.2]

/-- The marks of a type show its references, wherever they stand. -/
theorem marksReferences (t : DataType) : t.MarksReferences := by
  -- the place is general, since the parts of a type stand in other places than the type
  induction t using namedInduction with
  | unnamed p hp =>
    intro space alone table
    rw [marks_unnamed hp, references_unnamed hp]
    rfl
  | union members ih =>
    intro space alone table
    rw [marks_union, references_union]
    exact referred?_marksAll ih
  | array items ih =>
    intro space alone table
    exact ih
  | map values ih =>
    intro space alone table
    exact ih
  | named t ht ih =>
    intro space alone table
    obtain ⟨name, hn⟩ := exists_fullName? ht space
    cases hs : table.standsFor name t with
    | true =>
      rw [marks_of_standsFor hn hs, references_of_standsFor hn hs]
      rfl
    | false =>
      -- the marks of the type itself are no references
      rw [marks_of_not_standsFor hn hs, references_of_not_standsFor hn hs]
      have hinner : (t.innerMarks space (table.define name t)).filterMap Mark.referred? =
          (t.innerReferences space (table.define name t)).map Reference.occurrence := by
        cases t with
        | record r => exact referred?_marksAll_field ih
        | _ => rfl
      rw [List.filterMap_cons_none rfl, List.filterMap_append, hinner]
      simp [Mark.referred?]

end DataType

namespace Record

/-- The references in the document of a record are those inside its definition. -/
theorem references_eq (r : Record) :
    r.references =
      (DataType.record r).innerReferences none
        (Definitions.define [] (r.fullName none) (.record r)) :=
  DataType.references_of_not_standsFor rfl rfl

/-- The marks of a document show the references in it. -/
theorem referred?_marks (r : Record) :
    r.marks.filterMap Mark.referred? = r.references.map Reference.occurrence :=
  (DataType.record r).marksReferences

/-- What a document refers to is marked as such. -/
theorem referred_mem_marks {r : Record} {ref : Reference} (h : ref ∈ r.references) :
    .referred ref.occurrence ∈ r.marks := by
  have hmem : ref.occurrence ∈ r.marks.filterMap Mark.referred? := by
    rw [referred?_marks]
    exact List.mem_map_of_mem h
  obtain ⟨m, hm, hr⟩ := List.mem_filterMap.1 hmem
  cases m with
  | referred o =>
    cases hr
    exact hm
  | _ => cases hr

/-- What is marked as referred to, a document refers to in some place. -/
theorem exists_mem_references {r : Record} {o : Occurrence} (h : .referred o ∈ r.marks) :
    ∃ ref ∈ r.references, ref.occurrence = o := by
  have hmem : o ∈ r.references.map Reference.occurrence := by
    rw [← referred?_marks]
    exact List.mem_filterMap.2 ⟨_, h, rfl⟩
  exact List.mem_map.1 hmem

/-- If no full name means anything else in a document, every reference is legible. -/
theorem legible_of_namesUntagged {r : Record} (hu : r.NamesUntagged) :
    ∀ ref ∈ r.references, ref.Legible := by
  intro ref hr htaken
  obtain ⟨before, after, h⟩ := List.append_of_mem (referred_mem_marks hr)
  -- only what is inside the record is referred to, so the name of the record may be taken
  exact hu ref.occurrence.name (List.mem_map_of_mem (mem_inner_of_marks_eq h).1)
    (mem_bareTags_of_mem_takenNames htaken)

end Record

end AvroSchema
