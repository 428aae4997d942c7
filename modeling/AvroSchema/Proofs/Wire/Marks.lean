import AvroSchema.Proofs.Wire.Occurrences

/-!
# The Marks of a Document

What writing a type says about named types, in document order: that the definition of an occurrence
is opened, that it is closed, or that an occurrence is referred to by its full name. The definitions
of a writer are the opened ones, since a record is defined before its fields are written; the
definitions of a reader are the closed ones, since a record is defined after its fields are read.
Both tables keep the first type of a name.

Fixed types, enumerations, the UUID type and records are treated alike: a named type has a full
name, its parts are the types of the fields of a record, and `DataType.namedInduction` reaches it
from them. The types of the members of a union and those of the fields of a record are written one
after the other, so `DataType.writeAll` and `DataType.marksAll` speak of lists of types.

* `along_iff`: a property along all marks is one of every split of them.
* `DataType.write_of_standsFor`, `DataType.write_of_not_standsFor`: a named type is written as its
  full name or as its definition.
* `DataType.write_snd`: the table of a writer holds the opened definitions.
* `DataType.mem_occurrences_of_mem_marks`: only what occurs is marked.
-/

namespace AvroSchema

/-! ## Marks -/

/-- What a document says about one occurrence of a named type. -/
inductive Mark where
  /-- Its definition starts. -/
  | opened (o : Occurrence)
  /-- Its definition is complete. -/
  | closed (o : Occurrence)
  /-- It is referred to by its full name. -/
  | referred (o : Occurrence)

/-- The occurrence that a mark is about. -/
def Mark.occurrence : Mark → Occurrence
  | .opened o => o
  | .closed o => o
  | .referred o => o

namespace Definitions

/-- The definitions after a mark, when a type is defined as soon as its definition starts. -/
def opening (table : Definitions) : Mark → Definitions
  | .opened o => table.define o.name o.type
  | _ => table

/-- The definitions after a mark, when a type is defined as soon as its definition is complete. -/
def closing (table : Definitions) : Mark → Definitions
  | .closed o => table.define o.name o.type
  | _ => table

end Definitions

mutual

/-- The marks of a type that is written in a namespace with some definitions. -/
def DataType.marks (space : Option String) : DataType → Definitions → List Mark
  | .primitive p, table =>
    match p.wireName? with
    | none => []
    | some name =>
      let o : Occurrence := ⟨space, fullName space name, .primitive p⟩
      if table.standsFor o.name o.type then [.referred o] else [.opened o, .closed o]
  | .union members, table => UnionMember.marksAll space members table
  | .array items, table => items.marks space table
  | .map values, table => values.marks space table
  | .record r, table =>
    let o : Occurrence := ⟨space, r.fullName space, .record r⟩
    if table.standsFor o.name o.type then [.referred o]
    else .opened o :: (r.innerMarks space (table.define o.name o.type) ++ [.closed o])

/-- The marks of the types of the members of a union. -/
def UnionMember.marksAll (space : Option String) : List UnionMember → Definitions → List Mark
  | [], _ => []
  | ⟨_, type⟩ :: rest, table =>
    type.marks space table ++ UnionMember.marksAll space rest (type.write space table).2

/-- The marks of the types of some fields. -/
def Field.marksAll (space : Option String) : List Field → Definitions → List Mark
  | [], _ => []
  | ⟨_, type, _, _, _, _, _, _, _⟩ :: rest, table =>
    type.marks space table ++ Field.marksAll space rest (type.write space table).2

/-- The marks inside the definition of a record. -/
def Record.innerMarks (space : Option String) : Record → Definitions → List Mark
  | ⟨_, own, _, fields⟩, table => Field.marksAll (own <|> space) fields table

end

/-- Writes types one after the other. -/
def DataType.writeAll (space : Option String) :
    List DataType → Definitions → List Json × Definitions
  | [], table => ([], table)
  | t :: rest, table =>
    let (node, table) := t.write space table
    let (nodes, table) := DataType.writeAll space rest table
    (node :: nodes, table)

/-- The marks of types that are written one after the other. -/
def DataType.marksAll (space : Option String) : List DataType → Definitions → List Mark
  | [], _ => []
  | t :: rest, table => t.marks space table ++ DataType.marksAll space rest (t.write space table).2

/-- The marks of the document of a record, which is the first definition in it. -/
def Record.marks (r : Record) : List Mark := (DataType.record r).marks none []

/-! ## Walking through marks -/

/-- A property of every mark together with the definitions that stand before it. -/
def Along (step : Definitions → Mark → Definitions) (P : Definitions → Mark → Prop) :
    Definitions → List Mark → Prop
  | _, [] => True
  | table, m :: rest => P table m ∧ Along step P (step table m) rest

section Along

variable {step : Definitions → Mark → Definitions} {P : Definitions → Mark → Prop}

@[simp]
theorem along_nil (table : Definitions) : Along step P table [] := trivial

@[simp]
theorem along_cons {table : Definitions} {m : Mark} {rest : List Mark} :
    Along step P table (m :: rest) ↔ P table m ∧ Along step P (step table m) rest := Iff.rfl

@[simp]
theorem along_append {table : Definitions} {ms ns : List Mark} :
    Along step P table (ms ++ ns) ↔
      Along step P table ms ∧ Along step P (ms.foldl step table) ns := by
  induction ms generalizing table with
  | nil => simp
  | cons m ms ih => simp [ih, and_assoc]

/-- A property holds along some marks exactly if it holds wherever the marks are split. -/
theorem along_iff {table : Definitions} {ms : List Mark} :
    Along step P table ms ↔
      ∀ before m after, ms = before ++ m :: after → P (before.foldl step table) m := by
  constructor
  · rintro h before m after rfl
    exact (along_cons.1 (along_append.1 h).2).1
  · intro h
    induction ms generalizing table with
    | nil => trivial
    | cons m ms ih =>
      refine ⟨h [] m ms rfl, ih fun before n after he => ?_⟩
      exact h (m :: before) n after (by rw [he]; rfl)

instance decidableAlong [∀ table m, Decidable (P table m)] :
    ∀ table ms, Decidable (Along step P table ms)
  | _, [] => .isTrue trivial
  | table, m :: rest =>
    have := decidableAlong (step table m) rest
    inferInstanceAs (Decidable (P table m ∧ Along step P (step table m) rest))

end Along

/-! ## Tables of definitions -/

namespace Definitions

/-- What is defined stays defined as it is. -/
theorem find?_define_of_some {table : Definitions} {name other : String} {type t : DataType}
    (h : table.find? name = some t) : (table.define other type).find? name = some t := by
  rw [find?_define]
  split
  · next he => subst he; simp [h]
  · exact h

/-- A definition outlives a mark that opens another one. -/
theorem find?_opening_of_some {table : Definitions} {name : String} {t : DataType} {m : Mark}
    (h : table.find? name = some t) : (table.opening m).find? name = some t := by
  cases m with
  | opened o => exact find?_define_of_some h
  | _ => exact h

/-- A definition outlives a mark that closes another one. -/
theorem find?_closing_of_some {table : Definitions} {name : String} {t : DataType} {m : Mark}
    (h : table.find? name = some t) : (table.closing m).find? name = some t := by
  cases m with
  | closed o => exact find?_define_of_some h
  | _ => exact h

/-- Definitions outlive the marks that follow them, if they outlive each of them. -/
private theorem find?_foldl_of_some {step : Definitions → Mark → Definitions} {name : String}
    {t : DataType} (hs : ∀ table m, find? table name = some t → (step table m).find? name = some t)
    {table : Definitions} {ms : List Mark} (h : table.find? name = some t) :
    (ms.foldl step table).find? name = some t := by
  induction ms generalizing table with
  | nil => exact h
  | cons m ms ih => exact ih (hs table m h)

/-- Definitions outlive the marks that follow them. -/
theorem find?_foldl_opening_of_some {table : Definitions} {name : String} {t : DataType}
    {ms : List Mark} (h : table.find? name = some t) :
    (ms.foldl opening table).find? name = some t :=
  find?_foldl_of_some (fun _ _ => find?_opening_of_some) h

/-- Definitions outlive the marks that follow them. -/
theorem find?_foldl_closing_of_some {table : Definitions} {name : String} {t : DataType}
    {ms : List Mark} (h : table.find? name = some t) :
    (ms.foldl closing table).find? name = some t :=
  find?_foldl_of_some (fun _ _ => find?_closing_of_some) h

/-- A definition was there before some marks, or one of them closed it. -/
theorem find?_foldl_closing {table : Definitions} {name : String} {t : DataType}
    {ms : List Mark} (h : (ms.foldl closing table).find? name = some t) :
    table.find? name = some t ∨ ∃ o, Mark.closed o ∈ ms ∧ o.name = name ∧ o.type = t := by
  induction ms generalizing table with
  | nil => exact Or.inl h
  | cons m ms ih =>
    rcases ih h with hm | ⟨o, ho, hn⟩
    · -- the name was defined after the first mark, which matters only if it closed that name
      cases m with
      | closed o =>
        rw [closing, find?_define] at hm
        by_cases he : name = o.name
        · rw [if_pos he, Option.some.injEq] at hm
          cases hf : table.find? o.name with
          | some u =>
            rw [hf, Option.getD_some] at hm
            exact Or.inl (by rw [he, hf, hm])
          | none =>
            rw [hf, Option.getD_none] at hm
            exact Or.inr ⟨o, List.mem_cons_self, he.symm, hm⟩
        · rw [if_neg he] at hm
          exact Or.inl hm
      | _ => exact Or.inl hm
    · exact Or.inr ⟨o, List.mem_cons_of_mem m ho, hn⟩

/-- What some marks close is defined afterwards. -/
theorem find?_foldl_closing_of_mem {table : Definitions} {ms : List Mark} {o : Occurrence}
    (h : .closed o ∈ ms) : ∃ t, (ms.foldl closing table).find? o.name = some t := by
  obtain ⟨before, after, rfl⟩ := List.append_of_mem h
  -- right behind the mark the name is defined, by this occurrence or by an earlier one
  have hd : ((before.foldl closing table).define o.name o.type).find? o.name =
      some (((before.foldl closing table).find? o.name).getD o.type) := by
    rw [find?_define, if_pos rfl]
  refine ⟨((before.foldl closing table).find? o.name).getD o.type, ?_⟩
  rw [List.foldl_append, List.foldl_cons]
  exact find?_foldl_closing_of_some hd

/-- A name stands for a type exactly if it is defined as an equal one. -/
theorem standsFor_iff {table : Definitions} {name : String} {type : DataType} :
    table.standsFor name type = true ↔
      ∃ t, table.find? name = some t ∧ t.canonical = type.canonical := by
  unfold standsFor
  cases table.find? name with
  | none => simp
  | some t => simp [DataType.beq_eq_true_iff]

end Definitions

/-! ## Named types -/

namespace DataType

/-- Whether a type has a name in documents. -/
def isNamed : DataType → Bool
  | .primitive p => p.wireName?.isSome
  | .record _ => true
  | _ => false

/-- The types that the definition of a named type contains. -/
def parts : DataType → List DataType
  | .record r => r.fields.map Field.type
  | _ => []

/-- The namespace inside the definition of a named type. -/
def innerSpace (space : Option String) : DataType → Option String
  | .record r => r.space <|> space
  | _ => space

/-- The marks inside the definition of a named type. -/
def innerMarks (space : Option String) (t : DataType) (table : Definitions) : List Mark :=
  marksAll (t.innerSpace space) t.parts table

/-- The node that defines a named type, from the nodes of its parts. -/
def definition (t : DataType) (nodes : List Json) : Json :=
  match t with
  | .primitive p => p.wire
  | .record r => .object (r.members (List.zipWith Field.node r.fields nodes))
  | _ => .null

/-- Induction over types that treats all named types alike: such a type is reached from its
parts. -/
@[elab_as_elim]
theorem namedInduction {motive : DataType → Prop}
    (unnamed : ∀ p : Primitive, p.wireName? = none → motive (.primitive p))
    (union : ∀ members : List UnionMember, (∀ t ∈ members.map UnionMember.type, motive t) →
      motive (.union members))
    (array : ∀ items, motive items → motive (.array items))
    (map : ∀ values, motive values → motive (.map values))
    (named : ∀ t, t.isNamed = true → (∀ u ∈ t.parts, motive u) → motive t) (t : DataType) :
    motive t := by
  induction t with
  | primitive p =>
    -- a primitive type with a name has no parts to be reached from
    cases h : p.wireName? with
    | none => exact unnamed p h
    | some name => exact named _ (by simp [isNamed, h]) (by simp [parts])
  | union members ih => exact union members (by simpa using ih)
  | array items ih => exact array items ih
  | map values ih => exact map values ih
  | record r ih => exact named _ rfl (by simpa [parts] using ih)

/-- A named type has a full name in every namespace. -/
theorem exists_fullName? {t : DataType} (h : t.isNamed = true) (space : Option String) :
    ∃ name, t.fullName? space = some name := by
  cases t with
  | primitive p =>
    obtain ⟨name, hp⟩ := Option.isSome_iff_exists.1 h
    exact ⟨AvroSchema.fullName space name, by simp [fullName?, hp]⟩
  | record r => exact ⟨r.fullName space, rfl⟩
  | _ => cases h

/-- The parts of a named type are nested less. -/
theorem nesting_lt_of_mem_parts {t u : DataType} (h : u ∈ t.parts) : u.nesting < t.nesting := by
  cases t with
  | record r =>
    obtain ⟨f, hf, rfl⟩ := List.mem_map.1 h
    exact Record.nesting_type_lt hf
  | _ => cases h

/-- The parts of an admissible type are admissible. -/
theorem admissible_of_mem_parts {t u : DataType} (ht : t.Admissible) (h : u ∈ t.parts) :
    u.Admissible := by
  cases t with
  | record r =>
    obtain ⟨f, hf, rfl⟩ := List.mem_map.1 h
    exact (Record.admissible_iff.1 ht).2 f hf
  | _ => cases h

/-- What occurs inside a named type occurs in one of its parts. -/
theorem mem_inner_iff {t : DataType} {space : Option String} {o : Occurrence} :
    o ∈ t.inner space ↔ ∃ u ∈ t.parts, o ∈ u.occurrences (t.innerSpace space) := by
  cases t with
  | record r => simp [inner, parts, innerSpace]
  | _ => simp [inner, parts]

theorem innerNames_eq (t : DataType) (space : Option String) :
    t.innerNames space = t.parts.flatMap (names (t.innerSpace space)) := by
  cases t with
  | record r => simp [parts, innerSpace, List.flatMap_map]
  | _ => rfl

/-- A named type occurs before what is inside it. -/
theorem occurrences_of_fullName? {t : DataType} {space : Option String} {name : String}
    (h : t.fullName? space = some name) :
    t.occurrences space = ⟨space, name, t⟩ :: t.inner space := by
  cases t with
  | primitive p =>
    obtain ⟨n, hp, rfl⟩ := Option.map_eq_some_iff.1 h
    simp [occurrences, hp, inner]
  | record r => rw [occurrences_record, Option.some.inj h, inner]
  | _ => cases h

theorem names_of_fullName? {t : DataType} {space : Option String} {name : String}
    (h : t.fullName? space = some name) : t.names space = name :: t.innerNames space := by
  rw [names, occurrences_of_fullName? h, List.map_cons, innerNames]

end DataType

/-! ## Writing named types -/

/-- The members of a union are written like their types. -/
theorem UnionMember.writeAll_eq (space : Option String) (members : List UnionMember)
    (table : Definitions) :
    UnionMember.writeAll space members table =
      DataType.writeAll space (members.map UnionMember.type) table := by
  induction members generalizing table with
  | nil => rfl
  | cons m rest ih =>
    cases m
    simp [UnionMember.writeAll, DataType.writeAll, ih]

theorem UnionMember.marksAll_eq (space : Option String) (members : List UnionMember)
    (table : Definitions) :
    UnionMember.marksAll space members table =
      DataType.marksAll space (members.map UnionMember.type) table := by
  induction members generalizing table with
  | nil => rfl
  | cons m rest ih =>
    cases m
    simp [UnionMember.marksAll, DataType.marksAll, ih]

theorem Field.write_eq (space : Option String) (f : Field) (table : Definitions) :
    f.write space table = (f.node (f.type.write space table).1, (f.type.write space table).2) := by
  cases f
  rfl

/-- Fields are written like their types, each node then being put into the node of its field. -/
theorem Field.writeAll_eq (space : Option String) (fields : List Field) (table : Definitions) :
    Field.writeAll space fields table =
      (List.zipWith Field.node fields
        (DataType.writeAll space (fields.map Field.type) table).1,
        (DataType.writeAll space (fields.map Field.type) table).2) := by
  induction fields generalizing table with
  | nil => rfl
  | cons f rest ih => simp [Field.writeAll, DataType.writeAll, Field.write_eq, ih]

theorem Field.marksAll_eq (space : Option String) (fields : List Field) (table : Definitions) :
    Field.marksAll space fields table =
      DataType.marksAll space (fields.map Field.type) table := by
  induction fields generalizing table with
  | nil => rfl
  | cons f rest ih =>
    cases f
    simp [Field.marksAll, DataType.marksAll, ih]

namespace DataType

section

variable {t : DataType} {space : Option String} {name : String} {table : Definitions}

/-- A type that its full name stands for is written as its full name. -/
theorem write_of_standsFor (h : t.fullName? space = some name)
    (hs : table.standsFor name t = true) : t.write space table = (.string name, table) := by
  cases t with
  | primitive p =>
    obtain ⟨n, hp, rfl⟩ := Option.map_eq_some_iff.1 h
    simp [write, Primitive.write, hp, hs]
  | record r =>
    cases Option.some.inj h
    simp [write, hs]
  | _ => cases h

/-- Any other named type is defined first, and then its parts are written. -/
theorem write_of_not_standsFor (h : t.fullName? space = some name)
    (hs : table.standsFor name t = false) :
    t.write space table =
      (t.definition (writeAll (t.innerSpace space) t.parts (table.define name t)).1,
        (writeAll (t.innerSpace space) t.parts (table.define name t)).2) := by
  cases t with
  | primitive p =>
    obtain ⟨n, hp, rfl⟩ := Option.map_eq_some_iff.1 h
    simp [write, Primitive.write, hp, hs, definition, parts, writeAll]
  | record r =>
    cases Option.some.inj h
    obtain ⟨n, own, doc, fields⟩ := r
    simp [write, hs, Record.write, Field.writeAll_eq, definition, parts, innerSpace]
  | _ => cases h

/-- A type that its full name stands for is referred to. -/
theorem marks_of_standsFor (h : t.fullName? space = some name)
    (hs : table.standsFor name t = true) :
    t.marks space table = [.referred ⟨space, name, t⟩] := by
  cases t with
  | primitive p =>
    obtain ⟨n, hp, rfl⟩ := Option.map_eq_some_iff.1 h
    simp [marks, hp, hs]
  | record r =>
    cases Option.some.inj h
    simp [marks, hs]
  | _ => cases h

/-- Any other named type is opened before the marks inside it and closed after them. -/
theorem marks_of_not_standsFor (h : t.fullName? space = some name)
    (hs : table.standsFor name t = false) :
    t.marks space table =
      .opened ⟨space, name, t⟩ :: (t.innerMarks space (table.define name t) ++
        [.closed ⟨space, name, t⟩]) := by
  cases t with
  | primitive p =>
    obtain ⟨n, hp, rfl⟩ := Option.map_eq_some_iff.1 h
    simp [marks, hp, hs, innerMarks, parts, marksAll]
  | record r =>
    cases Option.some.inj h
    obtain ⟨n, own, doc, fields⟩ := r
    simp [marks, hs, Record.innerMarks, Field.marksAll_eq, innerMarks, parts, innerSpace]
  | _ => cases h

end

/-- A union is written as the list of the types of its members. -/
theorem write_union (space : Option String) (members : List UnionMember) (table : Definitions) :
    (union members).write space table =
      (.array (writeAll space (members.map UnionMember.type) table).1,
        (writeAll space (members.map UnionMember.type) table).2) := by
  rw [write, UnionMember.writeAll_eq]

@[simp]
theorem marks_union (space : Option String) (members : List UnionMember) (table : Definitions) :
    (union members).marks space table = marksAll space (members.map UnionMember.type) table := by
  rw [marks, UnionMember.marksAll_eq]

@[simp]
theorem marks_array (space : Option String) (items : DataType) (table : Definitions) :
    (array items).marks space table = items.marks space table := rfl

@[simp]
theorem marks_map (space : Option String) (values : DataType) (table : Definitions) :
    (map values).marks space table = values.marks space table := rfl

theorem marks_unnamed {p : Primitive} (h : p.wireName? = none) (space : Option String)
    (table : Definitions) : (primitive p).marks space table = [] := by
  simp [marks, h]

theorem write_unnamed {p : Primitive} (h : p.wireName? = none) (space : Option String)
    (table : Definitions) : (primitive p).write space table = (p.wire, table) := by
  simp [write, Primitive.write, h]

/-- The definitions after writing types are the opened ones, once this is known of each. -/
private theorem writeAll_snd_of {ts : List DataType}
    (h : ∀ t ∈ ts, ∀ space table,
      (t.write space table).2 = (t.marks space table).foldl Definitions.opening table)
    (space : Option String) (table : Definitions) :
    (writeAll space ts table).2 = (marksAll space ts table).foldl Definitions.opening table := by
  induction ts generalizing table with
  | nil => rfl
  | cons t ts ih =>
    obtain ⟨ht, hts⟩ := List.forall_mem_cons.1 h
    simp only [writeAll, marksAll, List.foldl_append, ← ht space table]
    exact ih hts _

/-- The definitions after writing a type are the opened ones. -/
theorem write_snd (t : DataType) (space : Option String) (table : Definitions) :
    (t.write space table).2 = (t.marks space table).foldl Definitions.opening table := by
  induction t using namedInduction generalizing space table with
  | unnamed p hp => simp [write_unnamed hp, marks_unnamed hp]
  | union members ih =>
    rw [write_union, marks_union]
    exact writeAll_snd_of ih space table
  | array items ih => exact ih space table
  | map values ih => exact ih space table
  | named t ht ih =>
    obtain ⟨name, hn⟩ := exists_fullName? ht space
    cases hs : table.standsFor name t with
    | true => simp [write_of_standsFor hn hs, marks_of_standsFor hn hs, Definitions.opening]
    | false =>
      -- a definition is opened before its parts are written, and closing it opens nothing
      rw [write_of_not_standsFor hn hs, marks_of_not_standsFor hn hs]
      simp [innerMarks, writeAll_snd_of ih, Definitions.opening]

/-- What is marked in some types is marked in one of them. -/
theorem exists_mem_marks_of_mem_marksAll {ts : List DataType} {space : Option String}
    {table : Definitions} {m : Mark} (h : m ∈ marksAll space ts table) :
    ∃ t ∈ ts, ∃ before, m ∈ t.marks space before := by
  induction ts generalizing table with
  | nil => cases h
  | cons t ts ih =>
    rw [marksAll, List.mem_append] at h
    rcases h with h | h
    · exact ⟨t, List.mem_cons_self, table, h⟩
    · obtain ⟨u, hu, hm⟩ := ih h
      exact ⟨u, List.mem_cons_of_mem t hu, hm⟩

/-- Only what occurs in a type is marked in it. -/
theorem mem_occurrences_of_mem_marks {t : DataType} {space : Option String}
    {table : Definitions} {m : Mark} (h : m ∈ t.marks space table) :
    m.occurrence ∈ t.occurrences space := by
  induction t using namedInduction generalizing space table with
  | unnamed p hp => simp [marks_unnamed hp] at h
  | union members ih =>
    rw [marks_union] at h
    obtain ⟨t, ht, before, hm⟩ := exists_mem_marks_of_mem_marksAll h
    obtain ⟨member, hmember, rfl⟩ := List.mem_map.1 ht
    exact mem_occurrences_union.2 ⟨member, hmember, ih _ ht hm⟩
  | array items ih => exact ih h
  | map values ih => exact ih h
  | named t ht ih =>
    obtain ⟨name, hn⟩ := exists_fullName? ht space
    rw [occurrences_of_fullName? hn]
    cases hs : table.standsFor name t with
    | true =>
      rw [marks_of_standsFor hn hs, List.mem_singleton] at h
      subst h
      exact List.mem_cons_self
    | false =>
      rw [marks_of_not_standsFor hn hs, List.mem_cons, List.mem_append, List.mem_singleton] at h
      -- the first and the last mark are about the type, all others about what is inside it
      rcases h with rfl | h | rfl
      · exact List.mem_cons_self
      · obtain ⟨u, hu, before, hm⟩ := exists_mem_marks_of_mem_marksAll h
        exact List.mem_cons_of_mem _ (mem_inner_iff.2 ⟨u, hu, ih u hu hm⟩)
      · exact List.mem_cons_self

/-- Only what occurs inside a named type is marked inside its definition. -/
theorem mem_inner_of_mem_innerMarks {t : DataType} {space : Option String}
    {table : Definitions} {m : Mark} (h : m ∈ t.innerMarks space table) :
    m.occurrence ∈ t.inner space := by
  obtain ⟨u, hu, before, hm⟩ := exists_mem_marks_of_mem_marksAll h
  exact mem_inner_iff.2 ⟨u, hu, mem_occurrences_of_mem_marks hm⟩

end DataType

namespace Record

/-- The document of a record opens the record and closes it at its end. -/
theorem marks_eq (r : Record) :
    r.marks = .opened ⟨none, r.fullName none, .record r⟩ ::
      ((DataType.record r).innerMarks none (Definitions.define [] (r.fullName none) (.record r)) ++
        [.closed ⟨none, r.fullName none, .record r⟩]) :=
  DataType.marks_of_not_standsFor rfl rfl

/-- A document refers to types inside its record only, after some of these are closed. -/
theorem mem_inner_of_marks_eq {r : Record} {before after : List Mark} {o : Occurrence}
    (h : r.marks = before ++ .referred o :: after) :
    o ∈ r.inner none ∧ ∀ c, .closed c ∈ before → c ∈ r.inner none := by
  have hinner : ∀ m ∈ (DataType.record r).innerMarks none
      (Definitions.define [] (r.fullName none) (.record r)), m.occurrence ∈ r.inner none :=
    fun m hm => DataType.mem_inner_of_mem_innerMarks hm
  rw [marks_eq] at h
  cases before with
  | nil => cases h
  | cons first before =>
    rw [List.cons_append, List.cons.injEq] at h
    obtain ⟨rfl, h⟩ := h
    -- the mark that closes the record is the last one
    rcases List.append_eq_append_iff.1 h with ⟨rest, hb, hr⟩ | ⟨rest, hi, hr⟩
    · cases rest with
      | nil => cases hr
      | cons m rest =>
        have hlen := congrArg List.length hr
        simp at hlen
    · cases rest with
      | nil => cases hr
      | cons m rest =>
        rw [List.cons_append, List.cons.injEq] at hr
        obtain ⟨rfl, -⟩ := hr
        refine ⟨hinner (.referred o) (by rw [hi]; simp), ?_⟩
        intro c hc
        refine hinner (.closed c) ?_
        rw [hi]
        exact List.mem_append_left _ (by simpa using hc)

end Record

end AvroSchema
