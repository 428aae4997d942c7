import AvroSchema.DataType

/-!
# Fields and Records

Changing fields and records. A record never has two fields of one name: adding a field with a
taken name is refused, and the refusal leaves the record as it was.

* `Record.addField_eq_ok_iff`: a field is added exactly when its name is free.
* `Record.field?_eq_some_iff`: looking up a name finds the first field with that name.
-/

namespace AvroSchema

namespace Field

/-- The escaped name, as documents write it. -/
def wireName (f : Field) : String := Name.escape f.name

/-- The same field, mandatory. -/
def notNull (f : Field) : Field := { f with nullable := false }

end Field

namespace Record

/-- The names of the fields, in order. -/
def fieldNames (r : Record) : List String := r.fields.map (·.name)

/-- The field with a name. -/
def field? (r : Record) (name : String) : Option Field := r.fields.find? (·.name == name)

/-- Whether a field has a name. -/
def hasField (r : Record) (name : String) : Bool := (r.field? name).isSome

/-- The record with a further field at its end; the name must be free. -/
def addField (r : Record) (f : Field) : Except SchemaError Record :=
  if r.hasField f.name then .error (.duplicateField f.name)
  else .ok { r with fields := r.fields ++ [f] }

/-- The record with further fields at its end, added one by one. -/
def addFields (r : Record) (fields : List Field) : Except SchemaError Record :=
  fields.foldlM addField r

theorem hasField_eq_true_iff {r : Record} {name : String} :
    r.hasField name = true ↔ name ∈ r.fieldNames := by
  simp [hasField, field?, fieldNames]

theorem field?_eq_none_iff {r : Record} {name : String} :
    r.field? name = none ↔ name ∉ r.fieldNames := by
  simp [field?, fieldNames]

theorem field?_eq_some_iff {r : Record} {name : String} {f : Field} :
    r.field? name = some f ↔
      f.name = name ∧ ∃ before after, r.fields = before ++ f :: after ∧
        ∀ g ∈ before, g.name ≠ name := by
  simp [field?, List.find?_eq_some_iff_append]

theorem addField_eq_ok_iff {r s : Record} {f : Field} :
    r.addField f = .ok s ↔
      f.name ∉ r.fieldNames ∧ s = { r with fields := r.fields ++ [f] } := by
  unfold addField
  split
  · next h => simp [hasField_eq_true_iff.1 h]
  · next h =>
    have : f.name ∉ r.fieldNames := fun hm => h (hasField_eq_true_iff.2 hm)
    simp [this, eq_comm]

end Record

end AvroSchema
