import AvroSchema.Proofs.Wire.ChangedDefaults
import AvroSchema.Proofs.Wire.Provenance

/-!
# Default Values of Nullable Fields

The default value of a nullable field is not in any document. Whatever a reader gives is therefore
bare: no nullable field in it has a default value, at any level. Writing a record without these
default values gives the same document, unless they alone kept two of its definitions apart.

* `Wire.bare_hereditary`: a type that is read from bare parts is bare.
* `ValueSchema.bare_of_ofWire`: a value schema is read without default values of nullable fields.
* `Record.documentWith_dropDefaults`: the default values of nullable fields are not written.
-/

namespace AvroSchema

/-! ## Bare types -/

/-- No nullable field in a type has a default value, at any level. -/
def DataType.Bare (t : DataType) : Prop := t.dropDefaults = t

/-- Neither a field, if it is nullable, nor a nullable field in its type has a default value. -/
def Field.Bare (f : Field) : Prop := f.dropDefaults = f

/-- No nullable field of a record has a default value, at any level. -/
def Record.Bare (r : Record) : Prop := r.dropDefaults = r

private theorem map_eq_self_iff {α : Type} {g : α → α} {as : List α} :
    as.map g = as ↔ ∀ a ∈ as, g a = a := by
  simpa using List.map_inj_left (l := as) (f := g) (g := id)

theorem DataType.bare_primitive (p : Primitive) : (DataType.primitive p).Bare := rfl

theorem DataType.bare_array_iff {t : DataType} : (array t).Bare ↔ t.Bare :=
  ⟨fun h => array.inj h, fun h => congrArg array h⟩

theorem DataType.bare_map_iff {t : DataType} : (map t).Bare ↔ t.Bare :=
  ⟨fun h => map.inj h, fun h => congrArg map h⟩

theorem DataType.bare_record_iff {r : Record} : (record r).Bare ↔ r.Bare :=
  ⟨fun h => record.inj h, fun h => congrArg record h⟩

theorem DataType.bare_union_iff {members : List UnionMember} :
    (union members).Bare ↔ ∀ m ∈ members, m.type.Bare := by
  rw [Bare, dropDefaults, mapDefaults_union, union.injEq, map_eq_self_iff]
  refine forall₂_congr fun m _ => ?_
  -- the tag of a member stays
  cases m
  simp [UnionMember.mapDefaults_eq, Bare, dropDefaults]

theorem Field.bare_iff {f : Field} :
    f.Bare ↔ f.type.Bare ∧ (f.nullable = true → f.defaultValue = none) := by
  obtain ⟨name, type, nullable, doc, standard, internal, technical, source, sensitivity⟩ := f
  cases nullable <;> simp [Bare, dropDefaults, mapDefaults_eq, DataType.Bare,
    DataType.dropDefaults, eq_comm]

theorem Record.bare_iff {r : Record} : r.Bare ↔ ∀ f ∈ r.fields, f.Bare := by
  obtain ⟨name, space, doc, fields⟩ := r
  rw [Bare, dropDefaults, mapDefaults_eq, mk.injEq]
  simp only [true_and]
  exact map_eq_self_iff

/-! ## Readings -/

namespace Wire

/-- A type is bare if its parts are. -/
theorem bare_hereditary : Hereditary DataType.Bare where
  primitive _ := DataType.bare_primitive _
  union hm hu := by
    -- some types make a primitive type and no union
    rcases DataType.unionOf_cases hu with rfl | rfl
    · exact DataType.bare_primitive _
    · exact DataType.bare_union_iff.2 (List.forall_mem_map.2 hm)
  array := DataType.bare_array_iff.2
  map := DataType.bare_map_iff.2
  record _ hf := DataType.bare_record_iff.2 (Record.bare_iff.2 fun f hm => Field.bare_iff.2 (hf f hm))

end Wire

/-- A record is read without default values of nullable fields. -/
theorem Record.bare_of_ofMembers {limit : Nat} {members : Json.Members} {r : Record}
    (h : ofMembers limit members = .ok r) : r.Bare :=
  DataType.bare_record_iff.1 (Wire.bare_hereditary.of_ofMembers h)

/-- A value schema is read without default values of nullable fields. -/
theorem ValueSchema.bare_of_ofWire {limit : Nat} {document : Json} {s : ValueSchema}
    (h : ofWire limit document = .ok s) : s.record.Bare := by
  obtain ⟨members, -, hr, -⟩ := exists_ofMembers h
  exact Record.bare_of_ofMembers hr

/-! ## Writing -/

/-- The default value of a nullable field is not in its node. -/
theorem Field.node_dropDefaults (f : Field) (json : Json) :
    f.dropDefaults.node json = f.node json := by
  rw [dropDefaults, mapDefaults_eq]
  cases hn : f.nullable <;> simp [node, hn, wireName]

/-- Leaving out the default values of nullable fields changes no node. -/
theorem carries_dropDefaults : Carries (fun nullable d => if nullable then none else d) id where
  null := rfl
  string _ := rfl
  array items := by rw [List.map_id, id]
  object members := by simp
  primitive _ := rfl
  field := Field.node_dropDefaults
  equal {t u} h := by
    change t.dropDefaults.canonical = u.dropDefaults.canonical
    rw [DataType.canonical_dropDefaults, DataType.canonical_dropDefaults,
      DataType.outline_eq_of_canonical_eq h]

/-- The default values of nullable fields are not written, and without them the document is the same
if they do not keep two definitions apart. -/
theorem Record.documentWith_dropDefaults {r : Record} (h : r.DefinesDistinctly)
    (entries : List (String × Json)) :
    r.dropDefaults.documentWith entries = r.documentWith entries := by
  refine carries_dropDefaults.documentWith ?_ fun _ _ => rfl
  refine along_iff.2 fun before mark after he => ?_
  cases mark with
  | opened o =>
    -- the definition differs from what its name stands for in more than dropped default values
    intro t ht _
    change t.dropDefaults.canonical ≠ o.type.dropDefaults.canonical
    rw [DataType.canonical_dropDefaults, DataType.canonical_dropDefaults]
    exact along_iff.1 (definesDistinctly_iff.1 h) before (.opened o) after he t ht
  | _ => trivial

end AvroSchema
