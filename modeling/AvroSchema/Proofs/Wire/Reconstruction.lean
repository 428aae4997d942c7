import AvroSchema.Proofs.Wire.References
import AvroSchema.Proofs.Wire.Reload

/-!
# Reconstructing Types

The relation `Reloads` is exact for types that come back unchanged up to the default values of
nullable fields. Whatever the reader gives for the node of such a type, the type reloads as; and
what it reloads as, the reader gives, if no reference means something else in its place and the
reader may go three levels deeper for every layer of nesting: a nullable field with a record in it
takes a level for the field, one for its branches and one for the record. A type that comes back
unchanged has no reference that means something else.

* `DataType.restores`: the reader gives what a type reloads as.
* `DataType.faithful`: a type comes back unchanged only as what it reloads as, and only if its
  references are legible.
* `Record.ofMembers_of_reloadsAs`, `Record.reloadsAs_of_ofMembers`, `Record.legible_of_ofMembers`:
  the same for documents.
-/

namespace AvroSchema

open Wire

/-! ## Written nodes -/

namespace DataType

variable {t : DataType} {ts : List DataType} {space : Option String} {table : Definitions}

/-- A definition is never a name. -/
theorem definition_ne_string (t : DataType) (nodes : List Json) (name : String) :
    t.definition nodes ≠ .string name := by
  cases t with
  | primitive p =>
    rcases p.wire_cases with rfl | ⟨-, hw⟩
    · intro h
      cases h
    · rw [definition, hw, Primitive.node_eq]
      intro h
      cases h
  | _ =>
    intro h
    cases h

/-- Only references are written as names. -/
theorem fullName?_of_write_eq_string {name : String}
    (h : (t.write space table).1 = .string name) : t.fullName? space = some name := by
  by_cases ht : t.isNamed = true
  · obtain ⟨full, hn⟩ := exists_fullName? ht space
    cases hs : table.standsFor full t with
    | true =>
      rw [write_of_standsFor hn hs, Json.string.injEq] at h
      exact h ▸ hn
    | false =>
      rw [write_of_not_standsFor hn hs] at h
      exact absurd h (definition_ne_string t _ name)
  · cases t with
    | primitive p =>
      have hp : p.wireName? = none := by simpa [isNamed] using ht
      rw [write_unnamed hp] at h
      exact absurd h (definition_ne_string (.primitive p) [] name)
    | record r => exact absurd rfl ht
    | _ => cases h

/-- A type that is written as a name is one reference. -/
theorem references_of_write_eq_string {name : String} {alone : Bool}
    (h : (t.write space table).1 = .string name) :
    t.references space alone table = [⟨⟨space, name, t⟩, alone⟩] := by
  have hn := fullName?_of_write_eq_string h
  cases hs : table.standsFor name t with
  | true => exact references_of_standsFor hn hs
  | false =>
    rw [write_of_not_standsFor hn hs] at h
    exact absurd h (definition_ne_string t _ name)

/-- It does not matter where a type stands that is not written as a name. -/
theorem references_of_write_ne_string (alone other : Bool)
    (h : ∀ name, (t.write space table).1 ≠ .string name) :
    t.references space alone table = t.references space other table := by
  by_cases ht : t.isNamed = true
  · obtain ⟨name, hn⟩ := exists_fullName? ht space
    cases hs : table.standsFor name t with
    | true => exact absurd (by rw [write_of_standsFor hn hs]) (h name)
    | false => rw [references_of_not_standsFor hn hs, references_of_not_standsFor hn hs]
  · cases t with
    | primitive p =>
      have hp : p.wireName? = none := by simpa [isNamed] using ht
      rw [references_unnamed hp, references_unnamed hp]
    | record r => exact absurd rfl ht
    | _ => rfl

/-- No type with legible references is written as a name that is taken in its place. -/
theorem write_ne_of_legible {name : String} {alone : Bool}
    (h : ∀ ref ∈ t.references space alone table, ref.Legible) (hn : name ∈ takenNames alone) :
    (t.write space table).1 ≠ .string name := by
  intro hw
  rw [references_of_write_eq_string hw] at h
  exact h _ (List.mem_singleton_self _) hn

/-- No member with legible references is written as a name that is taken. -/
theorem not_mem_writeAll_of_legible {name : String}
    (h : ∀ ref ∈ referencesAll space ts table, ref.Legible) (hn : name ∈ typeTags) :
    .string name ∉ (writeAll space ts table).1 := by
  induction ts generalizing table with
  | nil => exact List.not_mem_nil
  | cons t ts ih =>
    rw [referencesAll, List.forall_mem_append] at h
    rw [writeAll, List.mem_cons, not_or]
    exact ⟨(write_ne_of_legible h.1 hn).symm, ih h.2⟩

/-- The references in the type of a field are legible exactly if they are legible in any other place
and the field is not taken for a record or an array itself. -/
theorem legible_references_field_iff {f : Field} :
    (∀ ref ∈ f.type.references space (!f.nullable) table, ref.Legible) ↔
      (∀ ref ∈ f.type.references space false table, ref.Legible) ∧
        ¬ Mistaken f (f.type.write space table).1 := by
  by_cases hw : ∃ name, (f.type.write space table).1 = .string name
  · -- the type is one reference
    obtain ⟨name, hw⟩ := hw
    rw [references_of_write_eq_string hw, references_of_write_eq_string hw, hw]
    simp only [List.forall_mem_singleton]
    cases hf : f.nullable with
    | true => simp [Mistaken, hf]
    | false =>
      simp [Reference.Legible, takenNames, Mistaken, hf]
      tauto
  · rw [references_of_write_ne_string _ false fun name he => hw ⟨name, he⟩]
    refine (and_iff_left ?_).symm
    rintro ⟨-, he | he⟩ <;> exact hw ⟨_, he⟩

/-- The nodes of types are written one for each. -/
theorem length_writeAll (ts : List DataType) (space : Option String) (table : Definitions) :
    (writeAll space ts table).1.length = ts.length := by
  induction ts generalizing table with
  | nil => rfl
  | cons t ts ih => simp [writeAll, ih]

/-- Every node of some types is one of them, written. -/
theorem exists_write_of_mem_writeAll {json : Json} (h : json ∈ (writeAll space ts table).1) :
    ∃ t ∈ ts, ∃ before, json = (t.write space before).1 := by
  induction ts generalizing table with
  | nil => cases h
  | cons t ts ih =>
    rcases List.mem_cons.1 h with rfl | h
    · exact ⟨t, List.mem_cons_self, table, rfl⟩
    · obtain ⟨u, hu, hb⟩ := ih h
      exact ⟨u, List.mem_cons_of_mem t hu, hb⟩

end DataType

/-! ## Names without another meaning -/

/-- A name that means nothing else is resolved among the definitions. -/
theorem Wire.meaning?_of_not_mem {table : Definitions} {space : Option String} {name : String}
    (h : name ∉ typeTags) : meaning? table space name = resolve? table space name := by
  simp only [typeTags, List.mem_cons, List.not_mem_nil, or_false, not_or] at h
  -- every built-in type is among the names that mean something else
  have hk : Kind.ofAvro? name = none := by
    unfold Kind.ofAvro?
    split <;> simp_all
  rw [meaning?, if_neg (by simp [h]), hk]

/-- What a name means is resolved among the definitions, unless the name is taken; then it is a
built-in type without a name. -/
theorem Wire.meaning?_cases {table : Definitions} {space : Option String} {name : String}
    {t : DataType} (h : meaning? table space name = some t) :
    name ∉ typeTags ∧ resolve? table space name = some t ∨
      ∃ p : Primitive, t = .primitive p ∧ p.wireName? = none ∧ p.kind ≠ .anyPrimitive := by
  unfold meaning? at h
  split at h
  · cases h
  next hmap =>
  split at h
  · next kind hk =>
    obtain ⟨p, hp, rfl⟩ := Option.map_eq_some_iff.1 h
    refine Or.inr ⟨p, rfl, ?_⟩
    unfold Kind.ofAvro? at hk
    split at hk <;> cases hk <;> cases hp <;> exact ⟨rfl, nofun⟩
  · next hk =>
    refine Or.inl ⟨?_, h⟩
    unfold Kind.ofAvro? at hk
    split at hk <;> simp_all [typeTags]

/-! ## The reader gives what a type reloads as -/

namespace DataType

/-- The reader gives what a type reloads as if it comes back unchanged. -/
def Restores (t : DataType) : Prop :=
  ∀ {space : Option String} {opened read left : Definitions} {u : DataType} {limit levels : Nat},
    t.Admissible → (∀ ref ∈ t.references space false opened, ref.Legible) →
    Reloads space t opened read u left → u.canonical = t.outline → 3 * t.nesting + 2 ≤ levels →
    Gives (node limit levels space (t.write space opened).1) read (u, false) left

section

variable {space : Option String} {opened read left : Definitions} {u : DataType}
  {us : List DataType} {limit levels : Nat}

/-- The nodes of members are read one after the other. -/
private theorem gives_mapM_readType {ts : List DataType} (h : ∀ t ∈ ts, t.Restores)
    (ha : ∀ t ∈ ts, t.Admissible) (hu : ∀ ref ∈ referencesAll space ts opened, ref.Legible)
    (hl : ∀ t ∈ ts, 3 * t.nesting + 2 ≤ levels)
    (hr : ReloadsAll space ts opened read us left)
    (hc : us.map canonical = ts.map outline) :
    Gives ((writeAll space ts opened).1.mapM (readType (Wire.inner limit levels) space)) read us
      left := by
  induction ts generalizing opened read us with
  | nil => exact gives_mapM_nil.2 (reloadsAll_nil_iff.1 hr)
  | cons t ts ih =>
    obtain ⟨u, between, rest, ht, hts, rfl⟩ := reloadsAll_cons_iff.1 hr
    simp only [List.map_cons, List.cons.injEq] at hc
    rw [List.forall_mem_cons] at h ha hl
    rw [referencesAll, List.forall_mem_append] at hu
    refine gives_mapM_cons.2 ⟨u, between, rest, gives_readType.2 ⟨false, ?_⟩, ?_, rfl⟩
    · exact h.1 ha.1 hu.1 ht hc.1 hl.1
    · exact ih h.2 ha.2 hu.2 hl.2 hts hc.2

/-- The nodes of fields are read one after the other. -/
private theorem gives_mapM_field {fs : List Field} (h : ∀ t ∈ fs.map Field.type, t.Restores)
    (ha : ∀ t ∈ fs.map Field.type, t.Admissible)
    (hu : ∀ ref ∈ Field.referencesAll space fs opened, ref.Legible)
    (hl : ∀ t ∈ fs.map Field.type, 3 * t.nesting + 4 ≤ levels)
    (hr : ReloadsAll space (fs.map Field.type) opened read us left)
    (hc : us.map canonical = (fs.map Field.type).map outline) :
    Gives ((List.zipWith Field.node fs (writeAll space (fs.map Field.type) opened).1).mapM
      (field limit levels space)) read (List.zipWith Field.reloaded fs us) left := by
  induction fs generalizing opened read us with
  | nil =>
    obtain ⟨rfl, rfl⟩ := reloadsAll_nil_iff.1 hr
    exact gives_mapM_nil.2 ⟨rfl, rfl⟩
  | cons f fs ih =>
    obtain ⟨u, between, rest, ht, hts, rfl⟩ := reloadsAll_cons_iff.1 hr
    simp only [List.map_cons, List.cons.injEq] at hc
    rw [List.map_cons, List.forall_mem_cons] at h ha hl
    rw [Field.referencesAll_cons, List.forall_mem_append, legible_references_field_iff] at hu
    obtain ⟨⟨hf, hmis⟩, hfs⟩ := hu
    refine gives_mapM_cons.2 ⟨f.reloaded u, between, _, ?_, ih h.2 ha.2 hfs hl.2 hts hc.2, rfl⟩
    refine gives_field_of_gives_node (fun levels hle => ?_) ?_ hmis hl.1
    · exact h.1 ha.1 hf ht hc.1 hle
    · exact write_ne_of_legible hf (by decide)

/-- A record is read from the nodes of its fields. -/
theorem gives_readRecord_of_reloadsAll {r : Record} {members : Json.Members}
    (h : ∀ t ∈ (record r).parts, t.Restores) (ha : r.Admissible)
    (hu : ∀ ref ∈ (record r).innerReferences space opened, ref.Legible)
    (hl : 3 * r.nesting + 1 ≤ levels)
    (hr : ReloadsAll ((record r).innerSpace space) (record r).parts opened read us left)
    (hc : us.map canonical = (record r).parts.map outline)
    (hd : Describes members r (List.zipWith Field.node r.fields
      (writeAll ((record r).innerSpace space) (record r).parts opened).1)) :
    Gives (readRecord (Wire.inner limit levels) space members) read
      { r with fields := List.zipWith Field.reloaded r.fields us }
      (left.define (r.fullName space)
        (.record { r with fields := List.zipWith Field.reloaded r.fields us })) := by
  obtain ⟨hnodup, hadm⟩ := Record.admissible_iff.1 ha
  have hlen : us.length = r.fields.length := by simpa [parts] using hr.length_eq
  refine (gives_readRecord hd).2 ⟨_, left, ?_, ?_, rfl, rfl⟩
  · refine gives_mapM_field h (by simpa [parts] using hadm) hu ?_ hr hc
    intro t ht
    have hlt : t.nesting < r.nesting := nesting_lt_of_mem_parts (t := .record r) ht
    omega
  · rw [Field.map_name_zipWith_reloaded hlen]
    exact hnodup

end

/-- The reader gives what a type reloads as. -/
theorem restores (t : DataType) : t.Restores := by
  induction t using namedInduction with
  | unnamed p hp =>
    intro space opened read left u limit levels ha _ hr _ hl
    obtain ⟨rfl, rfl⟩ := (reloads_unnamed_iff hp).1 hr
    obtain ⟨levels, rfl⟩ : ∃ n, levels = n + 2 := ⟨levels - 2, by omega⟩
    rw [write_unnamed hp]
    exact (gives_node_wire ha).2 ⟨rfl, rfl, by simp [Primitive.defined, hp]⟩
  | union members ih =>
    intro space opened read left u limit levels ha hu hr hc hl
    obtain ⟨ts, rfl⟩ := exists_tagged_of_admissible ha
    obtain ⟨us, hus, rfl⟩ := reloads_union_iff.1 hr
    obtain ⟨levels, rfl⟩ : ∃ n, levels = n + 1 := ⟨levels - 1, by omega⟩
    obtain ⟨hlen, -, -, hts⟩ := admissible_union_iff.1 ha
    have hmap := map_canonical_of_canonical_union hc
    have hlt : ∀ t ∈ ts, 3 * t.nesting + 2 ≤ levels := by
      intro t ht
      have hlt : t.nesting < (union (ts.map tagged)).nesting :=
        nesting_type_lt (m := t.tagged) (List.mem_map_of_mem ht)
      omega
    rw [references_union] at hu
    rw [write_union]
    rw [map_type_tagged] at ih hu hus hmap ⊢
    -- no member is written as a null branch, since no reference is named so
    have hnull : ∀ json ∈ (writeAll space ts opened).1, isNullBranch json = false := by
      intro json hj
      rw [Bool.eq_false_iff, ne_eq, isNullBranch_iff]
      rintro rfl
      exact not_mem_writeAll_of_legible hu (by decide) hj
    have hfilter : (writeAll space ts opened).1.filter (!isNullBranch ·) =
        (writeAll space ts opened).1 := by
      rw [List.filter_eq_self]
      intro json hj
      simp [hnull json hj]
    have hany : (writeAll space ts opened).1.any isNullBranch = false := by
      rw [List.any_eq_false]
      intro json hj
      simp [hnull json hj]
    refine (gives_readBranches_several (by rw [hfilter, length_writeAll]; exact hlen)).2
      ⟨us, ?_, unionOf_of_outline hmap ha, hany.symm⟩
    rw [hfilter]
    exact gives_mapM_readType ih hts hu hlt hus hmap
  | array items ih =>
    intro space opened read left u limit levels ha hu hr hc hl
    obtain ⟨v, hv, rfl⟩ := reloads_array_iff.1 hr
    obtain ⟨levels, rfl⟩ : ∃ n, levels = n + 1 := ⟨levels - 1, by omega⟩
    refine gives_node_array.2 ⟨v, false, ih ha hu hv (array.inj hc) ?_, rfl, rfl⟩
    rw [nesting] at hl
    omega
  | map values ih =>
    intro space opened read left u limit levels ha hu hr hc hl
    obtain ⟨v, hv, rfl⟩ := reloads_map_iff.1 hr
    obtain ⟨levels, rfl⟩ : ∃ n, levels = n + 1 := ⟨levels - 1, by omega⟩
    refine gives_node_map.2 ⟨v, false, ih ha hu hv (map.inj hc) ?_, rfl, rfl⟩
    rw [nesting] at hl
    omega
  | named t ht ih =>
    intro space opened read left u limit levels ha hu hr hc hl
    obtain ⟨name, hn⟩ := exists_fullName? ht space
    cases hs : opened.standsFor name t with
    | true =>
      obtain ⟨hres, rfl⟩ := (reloads_iff_of_standsFor hn hs).1 hr
      obtain ⟨levels, rfl⟩ : ∃ n, levels = n + 1 := ⟨levels - 1, by omega⟩
      -- the name means nothing but what it resolves to
      rw [references_of_standsFor hn hs, List.forall_mem_singleton] at hu
      rw [write_of_standsFor hn hs]
      refine gives_node_string.2 ⟨?_, rfl, rfl⟩
      rw [meaning?_of_not_mem hu, hres]
    | false =>
      obtain ⟨us, between, hus, rfl, rfl⟩ := (reloads_iff_of_not_standsFor hn hs).1 hr
      rw [references_of_not_standsFor hn hs] at hu
      rw [write_of_not_standsFor hn hs]
      have hparts := (canonical_withParts_iff ht hus.length_eq).1 hc
      cases t with
      | primitive p =>
        obtain ⟨rfl, rfl⟩ := reloadsAll_nil_iff.1 hus
        obtain ⟨levels, rfl⟩ : ∃ n, levels = n + 2 := ⟨levels - 2, by omega⟩
        obtain ⟨n, hp, rfl⟩ := Option.map_eq_some_iff.1 hn
        exact (gives_node_wire ha).2 ⟨rfl, rfl, by simp [Primitive.defined, hp, withParts]⟩
      | record r =>
        obtain ⟨levels, rfl⟩ : ∃ n, levels = n + 1 := ⟨levels - 1, by omega⟩
        -- one level is spent on the record itself
        have hl' : 3 * r.nesting + 1 ≤ levels := by
          rw [nesting] at hl
          omega
        cases Option.some.inj hn
        exact gives_node_record.2 ⟨_, gives_readRecord_of_reloadsAll ih ha hu hl' hus hparts
          (describes_members r _), rfl, rfl⟩
      | _ => cases ht

end DataType

/-! ## A type reloads as what the reader gives -/

/-- No name stands for a union. -/
def Definitions.NoUnions (table : Definitions) : Prop :=
  ∀ name t, table.find? name = some t → t.isUnion = false

theorem Definitions.NoUnions.nil : NoUnions [] := by
  intro name t h
  cases h

theorem Definitions.NoUnions.define {table : Definitions} {name : String} {t : DataType}
    (h : table.NoUnions) (ht : t.isUnion = false) : (table.define name t).NoUnions := by
  intro other u hu
  rw [find?_define] at hu
  split at hu
  · rw [Option.some.injEq] at hu
    cases hf : table.find? name with
    | none => rwa [← hu, hf]
    | some v =>
      rw [hf, Option.getD_some] at hu
      exact h name u (hu ▸ hf)
  · exact h other u hu

theorem Definitions.NoUnions.resolve? {table : Definitions} {space : Option String}
    {name : String} {t : DataType} (h : table.NoUnions)
    (ht : Wire.resolve? table space name = some t) : t.isUnion = false := by
  rcases Wire.resolve?_eq_some_iff.1 ht with hf | ⟨-, hf⟩
  · exact h _ t hf
  · exact h _ t hf

namespace DataType

theorem isUnion_primitive {p : Primitive} :
    (primitive p).isUnion = false ↔ p.kind ≠ .anyPrimitive := by
  cases p with
  | plain kind h => cases kind <;> simp [isUnion, Primitive.kind]
  | _ => simp [isUnion, Primitive.kind]

theorem isUnion_of_isNamed {t : DataType} (h : t.isNamed = true) : t.isUnion = false := by
  cases t with
  | primitive p =>
    cases p with
    | plain kind hp => cases kind <;> first | rfl | cases h
    | _ => rfl
  | record r => rfl
  | _ => cases h

/-- A type comes back unchanged only as what it reloads as, and only if its references are
legible. -/
def Faithful (t : DataType) : Prop :=
  ∀ {space : Option String} {opened read left : Definitions} {u : DataType} {nullable : Bool}
    {limit levels : Nat}, t.Admissible → read.NoUnions →
    Gives (node limit levels space (t.write space opened).1) read (u, nullable) left →
    u.canonical = t.outline →
    nullable = false ∧ Reloads space t opened read u left ∧ left.NoUnions ∧
      ∀ ref ∈ t.references space false opened, ref.Legible

section

variable {space : Option String} {opened read left : Definitions} {t u : DataType}
  {ts us : List DataType} {nullable : Bool} {limit levels : Nat}

/-- The node of a type that is no union gives no union. -/
private theorem isUnion_of_gives (ht : t.isUnion = false) (ha : t.Admissible)
    (hr : read.NoUnions)
    (h : Gives (node limit levels space (t.write space opened).1) read (u, nullable) left) :
    u.isUnion = false := by
  cases levels with
  | zero => exact absurd h not_gives_node_zero
  | succ levels =>
    by_cases hnamed : t.isNamed = true
    · obtain ⟨name, hn⟩ := exists_fullName? hnamed space
      cases hs : opened.standsFor name t with
      | true =>
        -- a reference gives a type that was defined, or else a built-in one
        rw [write_of_standsFor hn hs] at h
        obtain ⟨hm, -, -⟩ := gives_node_string.1 h
        rcases meaning?_cases hm with ⟨-, hres⟩ | ⟨p, rfl, -, hk⟩
        · exact hr.resolve? hres
        · exact isUnion_primitive.2 hk
      | false =>
        rw [write_of_not_standsFor hn hs] at h
        cases t with
        | primitive p =>
          obtain ⟨rfl, -, -⟩ := eq_of_gives_node_wire ha h
          exact ht
        | record r =>
          obtain ⟨s, -, rfl, -⟩ := gives_node_record.1 h
          rfl
        | _ => cases hnamed
    · cases t with
      | primitive p =>
        have hp : p.wireName? = none := by simpa [isNamed] using hnamed
        rw [write_unnamed hp] at h
        obtain ⟨rfl, -, -⟩ := eq_of_gives_node_wire ha h
        exact ht
      | union ts => cases ht
      | array items =>
        obtain ⟨v, other, -, rfl, -⟩ := gives_node_array.1 h
        rfl
      | map values =>
        obtain ⟨v, other, -, rfl, -⟩ := gives_node_map.1 h
        rfl
      | record r => exact absurd rfl hnamed

/-- Members that come back unchanged were reloaded one after the other. -/
private theorem reloadsAll_of_gives_mapM (h : ∀ t ∈ ts, t.Faithful)
    (ha : ∀ t ∈ ts, t.Admissible) (hr : read.NoUnions)
    (hg : Gives ((writeAll space ts opened).1.mapM (readType (Wire.inner limit levels) space)) read
      us left)
    (hc : us.map canonical = ts.map outline) :
    ReloadsAll space ts opened read us left ∧ left.NoUnions ∧
      ∀ ref ∈ referencesAll space ts opened, ref.Legible := by
  induction ts generalizing opened read us with
  | nil =>
    obtain ⟨rfl, rfl⟩ := gives_mapM_nil.1 hg
    exact ⟨.nil, hr, List.forall_mem_nil _⟩
  | cons t ts ih =>
    obtain ⟨u, between, rest, hu, hrest, rfl⟩ := gives_mapM_cons.1 hg
    obtain ⟨other, hu⟩ := gives_readType.1 hu
    rw [List.forall_mem_cons] at h ha
    simp only [List.map_cons, List.cons.injEq] at hc
    obtain ⟨-, hrel, hb, hlegible⟩ := h.1 ha.1 hr hu hc.1
    obtain ⟨hrels, hl, hlegibles⟩ := ih h.2 ha.2 hb hrest hc.2
    exact ⟨.cons hrel hrels, hl, List.forall_mem_append.2 ⟨hlegible, hlegibles⟩⟩

/-- The fields of a record that come back unchanged were reloaded one after the other. -/
private theorem reloadsAll_of_gives_mapM_field {fs gs : List Field}
    (h : ∀ t ∈ fs.map Field.type, t.Faithful) (ha : ∀ t ∈ fs.map Field.type, t.Admissible)
    (hr : read.NoUnions)
    (hg : Gives ((List.zipWith Field.node fs (writeAll space (fs.map Field.type) opened).1).mapM
      (field limit levels space)) read gs left)
    (hc : gs.map Field.canonical = fs.map Field.outline) :
    ∃ us, ReloadsAll space (fs.map Field.type) opened read us left ∧
      gs = List.zipWith Field.reloaded fs us ∧ left.NoUnions ∧
      ∀ ref ∈ Field.referencesAll space fs opened, ref.Legible := by
  induction fs generalizing opened read gs with
  | nil =>
    obtain ⟨rfl, rfl⟩ := gives_mapM_nil.1 hg
    exact ⟨[], .nil, rfl, hr, List.forall_mem_nil _⟩
  | cons f fs ih =>
    obtain ⟨g, between, rest, hf, hrest, rfl⟩ := gives_mapM_cons.1 hg
    rw [List.map_cons, List.forall_mem_cons] at h ha
    simp only [List.map_cons, List.cons.injEq] at hc
    -- a field that is as nullable as before was read from the node of its type
    have hnull : g.nullable = f.nullable := by
      have hc := congrArg Field.nullable hc.1
      rwa [Field.canonical, Field.outline, Field.mapDefaults_eq, Field.mapDefaults_eq] at hc
    obtain ⟨he, hmis, ℓ, other, hnode⟩ := exists_gives_node_of_gives_field hf hnull
    have hcanon : g.type.canonical = f.type.outline := by
      have hc := hc.1
      rw [he] at hc
      exact Field.canonical_reloaded_iff.1 hc
    obtain ⟨-, hrel, hb, hlegible⟩ := h.1 ha.1 hr hnode hcanon
    obtain ⟨us, hrels, rfl, hl, hlegibles⟩ := ih h.2 ha.2 hb hrest hc.2
    refine ⟨g.type :: us, .cons hrel hrels, by rw [List.zipWith_cons_cons, ← he], hl, ?_⟩
    rw [Field.referencesAll_cons, List.forall_mem_append]
    exact ⟨legible_references_field_iff.2 ⟨hlegible, hmis⟩, hlegibles⟩

/-- A record that comes back unchanged was rebuilt from its reloaded fields. -/
theorem reloadsAll_of_gives_readRecord {r s : Record} {members : Json.Members}
    (h : ∀ t ∈ (record r).parts, t.Faithful) (ha : r.Admissible) (hr : read.NoUnions)
    (hd : Describes members r (List.zipWith Field.node r.fields
      (writeAll ((record r).innerSpace space) (record r).parts opened).1))
    (hg : Gives (readRecord (Wire.inner limit levels) space members) read s left)
    (hc : s.canonical = r.outline) :
    ∃ us between,
      ReloadsAll ((record r).innerSpace space) (record r).parts opened read us between ∧
      s = { r with fields := List.zipWith Field.reloaded r.fields us } ∧
      left = between.define (r.fullName space) (.record s) ∧ left.NoUnions ∧
      ∀ ref ∈ (record r).innerReferences space opened, ref.Legible := by
  obtain ⟨gs, between, hgs, -, rfl, rfl⟩ := (gives_readRecord hd).1 hg
  have hfields : gs.map Field.canonical = r.fields.map Field.outline := by
    rw [Record.canonical, Record.outline, Record.mapDefaults_eq, Record.mapDefaults_eq,
      Record.mk.injEq] at hc
    exact hc.2.2.2
  obtain ⟨us, hrel, rfl, hb, hlegible⟩ := reloadsAll_of_gives_mapM_field h
    (by simpa [parts] using (Record.admissible_iff.1 ha).2) hr hgs hfields
  exact ⟨us, between, hrel, rfl, rfl, hb.define rfl, hlegible⟩

end

/-- A type comes back unchanged only as what it reloads as, and only if its references are
legible. -/
theorem faithful (t : DataType) : t.Faithful := by
  induction t using namedInduction with
  | unnamed p hp =>
    intro space opened read left u nullable limit levels ha hr hg hc
    rw [write_unnamed hp] at hg
    obtain ⟨rfl, rfl, rfl⟩ := eq_of_gives_node_wire ha hg
    have hd : p.defined space read = read := by simp [Primitive.defined, hp]
    rw [hd, references_unnamed hp]
    exact ⟨rfl, .unnamed hp, hr, List.forall_mem_nil _⟩
  | union members ih =>
    intro space opened read left u nullable limit levels ha hr hg hc
    obtain ⟨ts, rfl⟩ := exists_tagged_of_admissible ha
    cases levels with
    | zero => exact absurd hg not_gives_node_zero
    | succ levels =>
      obtain ⟨-, hunion, -, hts⟩ := admissible_union_iff.1 ha
      rw [map_type_tagged] at ih
      rw [write_union, map_type_tagged] at hg
      have hb : Gives (readBranches (Wire.inner limit levels) space (writeAll space ts opened).1)
        read (u, nullable) left := hg
      rcases hf : (writeAll space ts opened).1.filter (!isNullBranch ·)
        with _ | ⟨single, _ | ⟨second, rest⟩⟩
      · exact absurd hb (not_gives_readBranches_nil hf)
      · -- one node alone is that of a member, and so gives no union
        obtain ⟨other, hs, -⟩ := (gives_readBranches_single hf).1 hb
        have hmem : single ∈ (writeAll space ts opened).1 :=
          List.mem_of_mem_filter (hf ▸ List.mem_singleton_self single)
        obtain ⟨t, ht, before, rfl⟩ := exists_write_of_mem_writeAll hmem
        have hu := isUnion_of_gives (hunion t ht) (hts t ht) hr hs
        have hcu := congrArg isUnion hc
        rw [canonical, outline, isUnion_mapDefaults, isUnion_mapDefaults, hu] at hcu
        cases hcu
      · have hlen : 2 ≤ ((writeAll space ts opened).1.filter (!isNullBranch ·)).length := by
          simp [hf]
        obtain ⟨us, hus, hu, rfl⟩ := (gives_readBranches_several hlen).1 hb
        obtain rfl : u = .union (us.map tagged) := by
          rcases unionOf_cases hu with rfl | hu
          · -- `AnyPrimitive` does not come back as a union
            rw [outline_union] at hc
            cases hc
          · exact hu
        have hmap := map_canonical_of_canonical_union hc
        rw [map_type_tagged] at hmap
        -- as many types came back as there are nodes, so no node is a null branch
        have hcount : ((writeAll space ts opened).1.filter (!isNullBranch ·)).length =
            (writeAll space ts opened).1.length := by
          rw [← length_of_gives_mapM hus, length_writeAll]
          simpa using congrArg List.length hmap
        have hself := List.filter_sublist.eq_of_length hcount
        have hany : (writeAll space ts opened).1.any isNullBranch = false := by
          rw [List.any_eq_false]
          intro json hj
          simpa using List.filter_eq_self.1 hself json hj
        rw [hself] at hus
        obtain ⟨hrel, hl, hlegible⟩ := reloadsAll_of_gives_mapM ih hts hr hus hmap
        rw [references_union, map_type_tagged]
        exact ⟨hany, .union ((map_type_tagged ts).symm ▸ hrel), hl, hlegible⟩
  | array items ih =>
    intro space opened read left u nullable limit levels ha hr hg hc
    cases levels with
    | zero => exact absurd hg not_gives_node_zero
    | succ levels =>
      obtain ⟨v, other, hv, rfl, rfl⟩ := gives_node_array.1 hg
      obtain ⟨-, hrel, hl, hlegible⟩ := ih ha hr hv (array.inj hc)
      exact ⟨rfl, .array hrel, hl, hlegible⟩
  | map values ih =>
    intro space opened read left u nullable limit levels ha hr hg hc
    cases levels with
    | zero => exact absurd hg not_gives_node_zero
    | succ levels =>
      obtain ⟨v, other, hv, rfl, rfl⟩ := gives_node_map.1 hg
      obtain ⟨-, hrel, hl, hlegible⟩ := ih ha hr hv (map.inj hc)
      exact ⟨rfl, .map hrel, hl, hlegible⟩
  | named t ht ih =>
    intro space opened read left u nullable limit levels ha hr hg hc
    obtain ⟨name, hn⟩ := exists_fullName? ht space
    cases levels with
    | zero => exact absurd hg not_gives_node_zero
    | succ levels =>
      cases hs : opened.standsFor name t with
      | true =>
        rw [write_of_standsFor hn hs] at hg
        obtain ⟨hm, rfl, rfl⟩ := gives_node_string.1 hg
        rcases meaning?_cases hm with ⟨htag, hres⟩ | ⟨p, rfl, hp, -⟩
        · rw [references_of_standsFor hn hs, List.forall_mem_singleton]
          exact ⟨rfl, .referred hn hs hres, hr, htag⟩
        · -- a built-in type has no full name
          rw [← fullName?_outline, ← hc] at hn
          simp [fullName?, hp] at hn
      | false =>
        rw [write_of_not_standsFor hn hs] at hg
        rw [references_of_not_standsFor hn hs]
        cases t with
        | primitive p =>
          -- its node gives the type itself, whatever the type should come back as
          obtain ⟨n, hp, rfl⟩ := Option.map_eq_some_iff.1 hn
          obtain ⟨rfl, rfl, rfl⟩ := eq_of_gives_node_wire ha hg
          have hd : p.defined space read =
              read.define (AvroSchema.fullName space n) (.primitive p) := by
            simp [Primitive.defined, hp]
          rw [hd]
          exact ⟨rfl, .defined hn hs .nil, hr.define (isUnion_of_isNamed ht), List.forall_mem_nil _⟩
        | record r =>
          obtain ⟨s, hrec, rfl, rfl⟩ := gives_node_record.1 hg
          cases Option.some.inj hn
          obtain ⟨us, between, hrel, rfl, rfl, hl, hlegible⟩ := reloadsAll_of_gives_readRecord ih ha
            hr (describes_members r _) hrec (record.inj hc)
          exact ⟨rfl, .defined hn hs hrel, hl, hlegible⟩
        | _ => cases ht

end DataType

/-! ## Documents of records -/

namespace Record

/-- The nodes of the fields in the document of a record. -/
def fieldNodes (r : Record) : List Json :=
  List.zipWith Field.node r.fields
    (DataType.writeAll ((DataType.record r).innerSpace none) (DataType.record r).parts
      (Definitions.define [] (r.fullName none) (.record r))).1

/-- What the document of a record reloads as. The record is opened before its fields are written,
and nothing is defined before they are read. -/
def ReloadsAs (r s : Record) : Prop :=
  ∃ us left,
    ReloadsAll ((DataType.record r).innerSpace none) (DataType.record r).parts
      (Definitions.define [] (r.fullName none) (.record r)) [] us left ∧
    s = { r with fields := List.zipWith Field.reloaded r.fields us }

theorem wireMembers_eq (r : Record) : r.wireMembers = r.members r.fieldNodes := by
  obtain ⟨name, own, doc, fields⟩ := r
  rw [wireMembers, write, Field.writeAll_eq]
  rfl

/-- Members that describe a record are read like the members of its document. -/
theorem ofMembers_eq_ok_iff {limit : Nat} {members : Json.Members} {r s : Record}
    {nodes : List Json} (hd : Describes members r nodes) :
    ofMembers limit members = .ok s ↔
      ∃ left, Gives (readRecord (Wire.inner limit limit) none members) [] s left := by
  unfold ofMembers run Gives
  rw [hd.type]
  cases readRecord (Wire.inner limit limit) none members [] <;> simp

section

variable {limit : Nat} {members : Json.Members} {r s : Record}

/-- The reader gives what the document of a record reloads as, if its limit is large enough. -/
theorem ofMembers_of_reloadsAs (ha : r.Admissible) (hu : ∀ ref ∈ r.references, ref.Legible)
    (hl : 3 * r.nesting + 1 ≤ limit) (hd : Describes members r r.fieldNodes)
    (h : r.ReloadsAs s) (hc : s.canonical = r.outline) : ofMembers limit members = .ok s := by
  obtain ⟨us, left, hrel, rfl⟩ := h
  have hparts : us.map DataType.canonical = (DataType.record r).parts.map DataType.outline := by
    refine (DataType.canonical_withParts_iff rfl hrel.length_eq).1 ?_
    rw [DataType.withParts, DataType.canonical_record, hc, DataType.outline_record]
  rw [references_eq] at hu
  exact (ofMembers_eq_ok_iff hd).2 ⟨_, DataType.gives_readRecord_of_reloadsAll
    (fun t _ => t.restores) ha hu hl hrel hparts hd⟩

/-- A record comes back from its document unchanged only as what it reloads as. -/
theorem reloadsAs_of_ofMembers (ha : r.Admissible) (hd : Describes members r r.fieldNodes)
    (h : ofMembers limit members = .ok s) (hc : s.canonical = r.outline) : r.ReloadsAs s := by
  obtain ⟨left, hg⟩ := (ofMembers_eq_ok_iff hd).1 h
  obtain ⟨us, between, hrel, hs, -, -, -⟩ := DataType.reloadsAll_of_gives_readRecord
    (fun t _ => t.faithful) ha .nil hd hg hc
  exact ⟨us, between, hrel, hs⟩

/-- A record comes back from its document unchanged only if all references in it are legible. -/
theorem legible_of_ofMembers (ha : r.Admissible) (hd : Describes members r r.fieldNodes)
    (h : ofMembers limit members = .ok s) (hc : s.canonical = r.outline) :
    ∀ ref ∈ r.references, ref.Legible := by
  obtain ⟨left, hg⟩ := (ofMembers_eq_ok_iff hd).1 h
  obtain ⟨us, between, -, -, -, -, hlegible⟩ := DataType.reloadsAll_of_gives_readRecord
    (fun t _ => t.faithful) ha .nil hd hg hc
  rw [references_eq]
  exact hlegible

end

end Record

end AvroSchema
