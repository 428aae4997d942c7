import AvroSchema.Proofs.Wire.DroppedDefaults

/-!
# What Readers Admit

A document is not trusted, and many of its nodes lead to one type: by the logical type or the Avro
type of a node, as a single branch, by a reference, under the type of a field. Whichever way was
taken, the parameters went through the function that checks them, and a type that a reference stands
for was checked when it was defined. So being admissible is hereditary, as being bare is.

* `Wire.admissible_hereditary`: a type that is read from admissible parts is admissible.
* `Wire.admissible_and_bare_of_ofWire`: what any document is read as.
-/

namespace AvroSchema

namespace Wire

/-- The parameters of a primitive type that is read are those that it may have. -/
theorem admissible_of_primitive {kind : Kind} {members : Json.Members} {p : Primitive}
    (h : primitive kind members = .ok p) : p.Admissible := by
  unfold primitive at h
  split at h
  · next plain hplain =>
    -- a plain type has no parameters
    obtain rfl := Except.ok.inj h
    unfold Primitive.ofKind? at hplain
    split at hplain
    · cases hplain
      trivial
    · cases hplain
  · obtain ⟨length, -, hof⟩ := except_bind_eq_ok_iff.1 h
    obtain ⟨-, -, -, ha⟩ := Primitive.varcharOf_eq_ok_iff.1 hof
    exact ha
  · obtain ⟨length, -, hof⟩ := except_bind_eq_ok_iff.1 h
    obtain ⟨-, -, -, ha⟩ := Primitive.nvarcharOf_eq_ok_iff.1 hof
    exact ha
  · -- the precision is read with whatever scale there is
    have hprecision : ∀ scale, (do Primitive.decimalOf (← integer members "precision") scale) =
        Except.ok p → p.Admissible := by
      intro scale hread
      obtain ⟨precision, -, hof⟩ := except_bind_eq_ok_iff.1 hread
      obtain ⟨-, -, -, -, -, ha⟩ := Primitive.decimalOf_eq_ok_iff.1 hof
      exact ha
    dsimp only at h
    split at h
    · obtain ⟨scale, -, hread⟩ := except_bind_eq_ok_iff.1 h
      exact hprecision scale hread
    · exact hprecision 0 h
  · obtain ⟨symbols, -, hname⟩ := except_bind_eq_ok_iff.1 h
    obtain ⟨name, -, hof⟩ := except_bind_eq_ok_iff.1 hname
    obtain ⟨-, ha⟩ := Primitive.enumOf_eq_ok_iff.1 hof
    exact ha
  · obtain ⟨size, -, hname⟩ := except_bind_eq_ok_iff.1 h
    obtain ⟨name, -, hof⟩ := except_bind_eq_ok_iff.1 hname
    obtain ⟨-, -, -, ha⟩ := Primitive.fixedOf_eq_ok_iff.1 hof
    exact ha

/-- A type that is read from admissible parts is admissible. -/
theorem admissible_hereditary : Hereditary DataType.Admissible where
  primitive h := by
    rw [DataType.Admissible]
    exact admissible_of_primitive h
  union := DataType.unionOf_admissible
  array h := by rwa [DataType.Admissible]
  map h := by rwa [DataType.Admissible]
  record hnodup hfields := by
    rw [DataType.Admissible, Record.admissible_iff]
    exact ⟨hnodup, fun f hf => (hfields f hf).1⟩

/-- Types, fields, records and value schemas that are read, from whatever document and with whatever
limit, have admissible parameters and no default values of nullable fields, at any level. Every
member of a union in them is tagged by the name of its type, also where a reference stands for it. -/
theorem admissible_and_bare_of_ofWire (limit : Nat) (document : Json) :
    (∀ t nullable, DataType.ofWire limit document = .ok (t, nullable) →
      t.Admissible ∧ t.Bare) ∧
    (∀ r, Record.ofWire limit document = .ok r → r.Admissible ∧ r.Bare) ∧
    (∀ f, Field.ofWire limit document = .ok f → f.type.Admissible ∧ f.Bare) ∧
    (∀ s, ValueSchema.ofWire limit document = .ok s →
      s.record.Admissible ∧ s.record.Bare) := by
  refine ⟨?type, ?record, ?field, ?value⟩
  case type =>
    intro t nullable h
    exact ⟨admissible_hereditary.of_ofWire h, bare_hereditary.of_ofWire h⟩
  case record =>
    intro r h
    have ha := admissible_hereditary.of_recordOfWire h
    rw [DataType.Admissible] at ha
    exact ⟨ha, DataType.bare_record_iff.1 (bare_hereditary.of_recordOfWire h)⟩
  case field =>
    intro f h
    obtain ⟨ha, -⟩ := admissible_hereditary.of_fieldOfWire h
    exact ⟨ha, Field.bare_iff.2 (bare_hereditary.of_fieldOfWire h)⟩
  case value =>
    intro s h
    obtain ⟨members, -, hr, -⟩ := ValueSchema.exists_ofMembers h
    have ha := admissible_hereditary.of_ofMembers hr
    rw [DataType.Admissible] at ha
    exact ⟨ha, Record.bare_of_ofMembers hr⟩

end Wire

/-- The node of a parcel, which is read as a type, a record, a field and a value schema: its code
has a default value although it is nullable, its seals are one digest or several, and the type of
its last field is defined before. -/
def parcelNode : Json := .object [
  ("fields", .array [
    .object [("default", .string "none"), ("name", .string "code"), ("type", .array [.string "null",
      .object [("length", .int 40), ("logicalType", .string "VARCHAR"), ("type", .string "string")]])],
    .object [("logicalType", .string "DECIMAL"), ("name", .string "weight"), ("precision", .int 9),
      ("scale", .int 3), ("type", .string "bytes")],
    .object [("name", .string "unit"), ("type", .object [("name", .string "unit"),
      ("symbols", .array [.string "KG", .string "LB"]), ("type", .string "enum")])],
    .object [("name", .string "seals"), ("type", .array [
      .object [("name", .string "digest"), ("size", .int 32), ("type", .string "fixed")],
      .object [("items", .string "digest"), ("type", .string "array")]])],
    .object [("name", .string "previous"), ("type", .string "digest")]]),
  ("name", .string "parcel"),
  ("type", .string "record")]

/-- The node of a parcel is read in all four ways, and to admissible and bare results. -/
theorem parcelNode_admissible_and_bare :
    (∃ a, DataType.ofWire 4 parcelNode = .ok a ∧ a.1.Admissible ∧ a.1.Bare) ∧
    (∃ r, Record.ofWire 4 parcelNode = .ok r ∧ r.Admissible ∧ r.Bare) ∧
    (∃ f, Field.ofWire 4 parcelNode = .ok f ∧ f.type.Admissible ∧ f.Bare) ∧
    (∃ s, ValueSchema.ofWire 4 parcelNode = .ok s ∧ s.record.Admissible ∧ s.record.Bare) := by
  obtain ⟨htype, hrecord, hfield, hvalue⟩ := Wire.admissible_and_bare_of_ofWire 4 parcelNode
  obtain ⟨a, ha, -⟩ : ∃ a, DataType.ofWire 4 parcelNode = .ok a ∧ True := by decide +kernel
  obtain ⟨r, hr, -⟩ : ∃ r, Record.ofWire 4 parcelNode = .ok r ∧ True := by decide +kernel
  obtain ⟨f, hf, -⟩ : ∃ f, Field.ofWire 4 parcelNode = .ok f ∧ True := by decide +kernel
  obtain ⟨s, hs, -⟩ : ∃ s, ValueSchema.ofWire 4 parcelNode = .ok s ∧ True := by decide +kernel
  exact ⟨⟨a, ha, htype a.1 a.2 ha⟩, ⟨r, hr, hrecord r hr⟩, ⟨f, hf, hfield f hf⟩,
    ⟨s, hs, hvalue s hs⟩⟩

end AvroSchema
